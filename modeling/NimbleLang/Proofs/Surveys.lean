import NimbleLang.Proofs.Charts
import NimbleLang.Proofs.ParserStates

/-!
Charts that can be checked by computation. Most tokens lead nowhere from a set, or leave one alternative: that is read off
the edges of its configurations (`moves`), with no closure to take (`targetNode_stuck`, `targetNode_picks`). The other
tokens are followed in a recogniser made up for the purpose, and what is found there holds in all (`Survey.lawful`).
-/

namespace NimbleLang.Predict

open Recogniser Automaton Grammar

/-! ## Moves over a token -/

/-- Where the edges of a configuration over a token lead. -/
def movesOf (net : Network) (t : Int) (c : Config) : List Config :=
  if atRuleStop net c then []
  else ((net.edgesOf c.state).filter fun e => e.admits t 0 net.maxTokenType).map fun e => { c with state := e.target }

def moves (net : Network) (s : ConfigSet) (t : Int) : List Config := s.configs.toList.flatMap (movesOf net t)

/-- A set of configurations none of which is merged with another one. -/
def gather (s : ConfigSet) (l : List Config) : ConfigSet :=
  l.foldl (fun s c => { s.note c with configs := s.configs.push c }) s

/-- No two configurations have the same key. -/
def Unlike (l : List Config) : Prop := l.Pairwise fun a b => a.sameKey b = false

instance (l : List Config) : Decidable (Unlike l) := inferInstanceAs (Decidable (List.Pairwise _ l))

theorem gather_configs (s : ConfigSet) (l : List Config) : (gather s l).configs.toList = s.configs.toList ++ l := by
  induction l generalizing s with
  | nil => simp [gather]
  | cons c l ih =>
    rw [gather, List.foldl_cons, ← gather, ih]
    simp

variable {s : ConfigSet} {l : List Config} {full : Bool}

theorem insert_new {c : Config} (h : ∀ b ∈ s.configs.toList, b.sameKey c = false) (m : Merger Unit) :
    (s.add c).outcome m = (.ok { s.note c with configs := s.configs.push c }, m) := by
  have hfind : (s.note c).configs.findIdx? (·.sameKey c) = none := by
    rw [Array.findIdx?_eq_none_iff]
    intro b hb
    exact h b (Array.mem_toList_iff.mpr hb)
  have hinsert : (s.insert c).outcome m =
      (.ok ({ s.note c with configs := s.configs.push c }, s.configs.size, true), m) := by
    unfold ConfigSet.insert
    dsimp only
    rw [hfind]
    rfl
  rw [ConfigSet.add, Run.outcome_bind_ok hinsert]
  rfl

theorem addAll_new (h : Unlike (s.configs.toList ++ l)) (m : Merger Unit) :
    (l.foldlM (fun (out : ConfigSet) c => out.add c) s).outcome m = (.ok (gather s l), m) := by
  refine Run.outcome_foldlM (P := fun s l => Unlike (s.configs.toList ++ l)) (fun s c l h => ⟨insert_new ?_ m, ?_⟩) h
  · exact fun b hb => (List.pairwise_append.mp h).2.2 b hb c List.mem_cons_self
  · simpa using h

theorem gather_append (s : ConfigSet) (l l' : List Config) : gather s (l ++ l') = gather (gather s l) l' := List.foldl_append

theorem foldl_gather {α : Type} (f : α → List Config) (l : List α) (s : ConfigSet) (kept : List Config) :
    l.foldl (fun out a => (gather out.1 (f a), out.2)) (s, kept) = (gather s (l.flatMap f), kept) := by
  induction l generalizing s with
  | nil => rfl
  | cons a l ih => rw [List.foldl_cons, ih, List.flatMap_cons, gather_append]

variable {r : Recogniser} {net : Network} {t : Int}

theorem merging_ok {α : Type} {act : Context.Merging Unit α} {a : α} {merger : Merger Unit}
    (h : act.outcome r.merger = (.ok a, merger)) : (merging act).outcome r = (.ok a, { r with merger }) := by
  rw [merging, Run.outcome_onPart, h]

/-- No configuration of the set stays in the race without reading the token. -/
def Sheds (net : Network) (full : Bool) (t : Int) (s : ConfigSet) : Prop :=
  full = true ∨ t = Token.eof → ∀ c ∈ s.configs.toList, atRuleStop net c = false

theorem sheds_of_ne (ht : t ≠ Token.eof) (s : ConfigSet) : Sheds net false t s := fun h => (h.elim nofun ht).elim

theorem moveOver_new (hquiet : r.traces = {}) (hs : Sheds r.net full t s) (h : Unlike (moves r.net s t)) :
    (moveOver full t s).outcome r = (.ok (gather { fullContext := full } (moves r.net s t), []), r) := by
  rw [moveOver, Run.outcome_get_bind, moves, ← foldl_gather]
  refine Run.outcome_foldlM (P := fun out l => (∀ c ∈ l, full = true ∨ t = Token.eof → atRuleStop r.net c = false) ∧ out.2 = [] ∧
    Unlike (out.1.configs.toList ++ l.flatMap (movesOf r.net t))) ?_ ⟨fun c hc h => hs h c hc, rfl, h⟩
  rintro ⟨moved, kept⟩ c l ⟨hgoes, rfl, hl⟩
  rw [List.flatMap_cons, ← List.append_assoc] at hl
  refine ⟨?_, fun c hc => hgoes c (List.mem_cons_of_mem _ hc), rfl, by rw [gather_configs]; exact hl⟩
  dsimp only
  rw [Run.outcome_bind_ok (printIf_quiet hquiet rfl _)]
  have hnew := (List.pairwise_append.mp hl).1
  unfold movesOf at hnew ⊢
  by_cases hstop : atRuleStop r.net c = true
  · have hshed : ¬(full = true ∨ t = Token.eof) := by
      intro h
      rw [hgoes c List.mem_cons_self h] at hstop
      cases hstop
    simp [hstop, hshed, gather]
  · rw [if_neg hstop] at hnew
    rw [if_neg hstop, if_neg hstop]
    have hadd := addAll_new hnew r.merger
    rw [List.foldlM_map] at hadd
    rw [List.foldlM_map]
    rw [Run.outcome_bind_ok (merging_ok hadd)]
    rfl

/-- What a step of a decision remembers before it merges anything. -/
def primed (r : Recogniser) : Recogniser :=
  { r with merger := { r.merger with memory := some (r.merger.memory.getD []) } }

section

variable (hquiet : r.traces = {})
include hquiet

/-- It makes no difference whether nothing is remembered, or that nothing was merged. -/
theorem reachSet_primed (d : Decision) (s : ConfigSet) (t : Int) :
    (reachSet d s t false).outcome r = (reachSet d s t false).outcome (primed r) := by
  have hprimed : (primed r).traces = {} := hquiet
  rw [reachSet, Run.outcome_bind_ok (printIf_quiet hquiet rfl _), Run.outcome_bind_ok (printIf_quiet hprimed rfl _),
    Run.outcome_modify_bind, Run.outcome_modify_bind]
  rfl

theorem targetNode_primed (d : Decision) (s : ConfigSet) (t : Int) :
    (targetNode d s t).outcome r = (targetNode d s t).outcome (primed r) := by
  rw [targetNode, Run.outcome_bind, Run.outcome_bind, reachSet_primed hquiet]

/-- If no edge reads the token, no alternative can go on. -/
theorem reachSet_stuck (d : Decision) (hs : Sheds r.net full t s)
    (h : moves r.net s t = []) : (reachSet d s t full).outcome r = (.ok none, primed r) := by
  have hmove := moveOver_new (r := primed r) (s := s) hquiet hs (h ▸ .nil)
  rw [show moves (primed r).net s t = [] from h] at hmove
  refine (Run.outcome_bind_ok (printIf_quiet hquiet rfl _) _).trans ((Run.outcome_modify_bind _ _ _).trans
    ((Run.outcome_get_bind _ _).trans ((Run.outcome_bind_ok hmove _).trans ?_)))
  simp [gather, uniqueAlt, emptyClosing, allAtRuleStop]

/-- If one alternative goes on, the set is not closed any more. -/
theorem reachSet_settled (ht : t ≠ Token.eof) (d : Decision)
    (hnew : Unlike (moves r.net s t)) (ha : uniqueAlt (moves r.net s t) ≠ 0) :
    (reachSet d s t false).outcome r = (.ok (some (gather { fullContext := false } (moves r.net s t))), primed r) := by
  have hconfigs : (gather { fullContext := false } (moves r.net s t)).configs.toList = moves r.net s t := gather_configs _ _
  have hne : (gather { fullContext := false } (moves r.net s t)).configs ≠ #[] := by
    intro h
    rw [h] at hconfigs
    rw [← hconfigs] at ha
    exact ha rfl
  refine (Run.outcome_bind_ok (printIf_quiet hquiet rfl _) _).trans ((Run.outcome_modify_bind _ _ _).trans
    ((Run.outcome_get_bind _ _).trans
      ((Run.outcome_bind_ok (moveOver_new (r := primed r) hquiet (sheds_of_ne ht s) hnew) _).trans ?_)))
  have hnet : (primed r).net = r.net := rfl
  simp [ht, hnet, hconfigs, ha, hne]

theorem targetNode_stuck (d : Decision) (hs : Sheds r.net false t s) (h : moves r.net s t = []) :
    (targetNode d s t).outcome r = (.ok none, primed r) := Run.outcome_bind_ok (reachSet_stuck hquiet d hs h) _

end

theorem gather_hasGuards (hs : s.hasGuards = false) (h : ∀ c ∈ l, c.guard = .always) :
    (gather s l).hasGuards = false := by
  induction l generalizing s with
  | nil => exact hs
  | cons c l ih =>
    refine ih ?_ fun c hc => h c (List.mem_cons_of_mem _ hc)
    simp [ConfigSet.note, hs, h c List.mem_cons_self]

theorem targetNode_picks (hquiet : r.traces = {}) (ht : t ≠ Token.eof) (d : Decision)
    (hnew : Unlike (moves r.net s t)) (hguards : ∀ c ∈ moves r.net s t, c.guard = .always)
    (ha : uniqueAlt (moves r.net s t) ≠ 0) : ∃ content : ConfigSet, content.uniqueAlt = uniqueAlt (moves r.net s t) ∧
      (targetNode d s t).outcome r =
        (.ok (some { content, accepts := true, prediction := uniqueAlt (moves r.net s t) }), primed r) := by
  have hconfigs : (gather { fullContext := false } (moves r.net s t)).configs.toList = moves r.net s t := gather_configs _ _
  refine ⟨{ gather { fullContext := false } (moves r.net s t) with uniqueAlt := uniqueAlt (moves r.net s t) }, rfl, ?_⟩
  refine (Run.outcome_bind_ok (reachSet_settled hquiet ht d hnew ha) _).trans
    ((Run.outcome_bind_ok (printIf_quiet (r := primed r) hquiet rfl _) _).trans ?_)
  rw [hconfigs, if_pos ha, Run.outcome_bind_ok (Run.outcome_pure _ _), if_neg]
  · rfl
  · simp [gather_hasGuards (s := { fullContext := false }) rfl hguards]

/-! ## Tokens beyond the vocabulary -/

/-- The token types of the grammar, with the end of input. -/
def tokenTypes : List Int := (List.range 32).map fun (i : Nat) => (i : Int) - 1

/-- An edge that reads no other tokens than those of the grammar. -/
def readsTypes : Edge → Bool
  | .atom _ l => tokenTypes.contains l
  | .set _ l => (l.spans.getD []).all fun s => -1 ≤ s.lo && s.hi ≤ 31
  | .range _ _ _ | .notSet _ _ | .wildcard _ => false
  | _ => true

theorem mem_tokenTypes {t : Int} : t ∈ tokenTypes ↔ -1 ≤ t ∧ t ≤ 30 := by
  unfold tokenTypes
  rw [List.mem_map]
  constructor
  · rintro ⟨i, hi, rfl⟩
    have := List.mem_range.mp hi
    omega
  · rintro ⟨hlo, hhi⟩
    exact ⟨(t + 1).toNat, List.mem_range.mpr (by omega), by omega⟩

theorem admits_types {e : Edge} (he : readsTypes e = true) {t lo hi : Int} (ht : t ∉ tokenTypes) : e.admits t lo hi = false := by
  cases e with
  | atom n l =>
    refine beq_eq_false_iff_ne.mpr ?_
    rintro rfl
    exact ht (List.contains_iff_mem.mp he)
  | set n l =>
    rw [readsTypes, List.all_eq_true] at he
    refine Bool.eq_false_iff.mpr fun hadmits => ht ?_
    obtain ⟨s, hs, hin⟩ := List.any_eq_true.mp hadmits
    have hspan := he s hs
    simp only [Bool.and_eq_true, decide_eq_true_eq] at hspan
    simp only [Span.contains, Bool.and_eq_true, decide_eq_true_eq] at hin
    exact mem_tokenTypes.2 (by omega)
  | range | notSet | wildcard => cases he
  | epsilon | call | predicate | action | precedence => rfl

theorem states_readTypes : (States.all.all fun s => s.edges.all readsTypes) = true := by
  decide

theorem moves_types {t : Int} (ht : t ∉ tokenTypes) (s : ConfigSet) : moves States.network s t = [] := by
  have hstates := List.all_eq_true.mp states_readTypes
  refine List.flatMap_eq_nil_iff.mpr fun c _ => ?_
  unfold movesOf
  split
  · rfl
  refine List.map_eq_nil_iff.mpr (List.filter_eq_nil_iff.mpr fun e he => ?_)
  rw [Bool.not_eq_true]
  refine admits_types ?_ ht
  unfold Network.edgesOf Network.state at he
  rw [Array.getD_eq_getD_getElem?] at he
  cases hstate : States.network.states[c.state]? with
  | none =>
    rw [hstate] at he
    cases he
  | some st =>
    rw [hstate] at he
    have hmem : st ∈ States.all := by
      have := Array.mem_of_getElem? hstate
      simpa [States.network] using this
    exact List.all_eq_true.mp (hstates st hmem) e he

/-! ## Surveys -/

/-- What a survey of a decision finds: the state and the kind of the decision, the set it starts from before it is
filtered by the precedence level, the set after that, and the sets on the way, each with where the tokens lead; tokens
that are not listed lead nowhere. -/
structure Survey where
  state : Nat
  byPrecedence : Bool
  levels : List Int
  raw : ConfigSet
  start : Int → ConfigSet
  table : List (ConfigSet × List (List Int × Move))
  level : Int → Option Int
  /-- What may be remembered of merges. -/
  memories : List (List ((Context Unit × Context Unit) × Context Unit))

/-- Where a token leads. -/
def moveIn (row : List (List Int × Move)) (t : Int) : Move := ((row.find? (·.1.contains t)).map (·.2)).getD .stuck

namespace Survey

variable {v : Survey}

def chart (v : Survey) : Chart where
  byPrecedence := v.byPrecedence
  start := v.start
  known s := ∃ row ∈ v.table, row.1 = s
  move s t := ((v.table.find? (·.1 = s)).map (moveIn ·.2 t)).getD .stuck
  level := v.level

/-- The decision, as it is taken in the survey. -/
def decision (v : Survey) : Decision :=
  { number := 0, name := 0, state := v.state, start := 0, callers := none, byPrecedence := v.byPrecedence }

/-- A recogniser made up for the survey. -/
def probe (level : Int) (memory : Chart.Memory) (mode : Mode := .full) : Recogniser :=
  { Recogniser.ofNetwork States.network [] [] [] { source := .listed { tokens := #[] } } with
    precedences := [level], merger := { memory }, mode }

def Remembers (v : Survey) (memory : Chart.Memory) : Prop := memory.getD [] ∈ v.memories

instance (memory : Chart.Memory) : Decidable (v.Remembers memory) := inferInstanceAs (Decidable (_ ∈ _))

instance (n : Node) (mv : Move) : Decidable (v.chart.Fits n mv) :=
  match mv with
  | .stuck => inferInstanceAs (Decidable False)
  | .on s => inferInstanceAs (Decidable (n.content = s ∧ (∃ row ∈ v.table, row.1 = s) ∧ n.accepts = false ∧ n.needsFullContext = false))
  | .picks _ => inferInstanceAs (Decidable (_ ∧ _ ∧ _ ∧ _ ∧ _ ∧ (_ → _)))
  | .splits _ => inferInstanceAs (Decidable (_ ∧ _ ∧ _ ∧ _ ∧ _ ∧ _))

instance (node : Option Node) (mv : Move) : Decidable (v.chart.Answers node mv) :=
  match node with
  | none => inferInstanceAs (Decidable (mv = .stuck))
  | some n => inferInstanceAs (Decidable (v.chart.Fits n mv ∧ n.edges = none))

/-- Whether a move can be read off the edges alone. -/
def plain (v : Survey) (s : ConfigSet) (t : Int) : Move → Bool
  | .stuck => (moves States.network s t).isEmpty
  | .picks a =>
    let next := moves States.network s t
    uniqueAlt next = a && a ≠ 0 && next.all (·.guard = .always) && decide (Unlike next) && v.level a = none
  | _ => false

def goesOn : Move → Bool
  | .on _ => true
  | _ => false

/-- Whether a move is what comes of following the edges in the made-up recogniser, in either mode. -/
def explored (v : Survey) (s : ConfigSet) (t : Int) (mv : Move) : Bool :=
  [Mode.full, .local_].all fun mode => v.memories.all fun m =>
    let (node, r) := (targetNode v.decision s t).outcome (probe 0 (some m) mode)
    (!goesOn mv || decide (v.Remembers r.merger.memory)) && node.toOption.any fun node => decide (v.chart.Answers node mv)

/-- What a survey has to make sure of. -/
class Checked (v : Survey) : Prop where
  distinct : v.table.Pairwise fun a b => a.1.same b.1 = false ∧ b.1.same a.1 = false
  unsettled : ∀ row ∈ v.table, row.1.uniqueAlt = 0 ∧ row.1.conflicting = none
  known : ∀ p ∈ v.levels, ∃ row ∈ v.table, row.1 = v.start p
  memories : [] ∈ v.memories
  raw : ((startSet v.decision none false).outcome (probe 0 none)).1 = .ok v.raw ∧
    ((startSet v.decision none false).outcome (probe 0 none)).2.merger.memory = none
  single : v.byPrecedence = false → ∀ p, v.start p = v.raw
  levelled : v.byPrecedence = true → ∀ p ∈ v.levels, 0 ≤ p ∧
    ((precedenceFilter v.raw).outcome (probe p none)).1 = .ok (v.start p) ∧
    ((precedenceFilter v.raw).outcome (probe p none)).2.merger.memory = none
  types : ∀ row ∈ v.table, ∀ entry ∈ row.2, ∀ t ∈ entry.1, t ∈ tokenTypes
  rows : ∀ row ∈ v.table, ∀ t ∈ tokenTypes,
    (t ≠ Token.eof && v.plain row.1 t (moveIn row.2 t) || v.explored row.1 t (moveIn row.2 t)) = true

theorem Checked.chart_distinct (hv : v.Checked) : v.chart.Distinct where
  unsettled := by
    rintro _ ⟨row, hrow, rfl⟩
    exact hv.unsettled row hrow
  same := by
    have hpairs : ∀ a ∈ v.table, ∀ b ∈ v.table, a.1.same b.1 = true → a.1 = b.1 := by
      refine List.Pairwise.forall_of_forall_of_flip (fun _ _ _ => rfl) (hv.distinct.imp ?_) (hv.distinct.imp ?_)
      · intro a b hab h
        rw [hab.1] at h
        cases h
      · intro a b hab h
        rw [hab.2] at h
        cases h
    rintro _ _ ⟨a, ha, rfl⟩ ⟨b, hb, rfl⟩
    exact hpairs a ha b hb

theorem move_of_row {s : ConfigSet} {row : List (List Int × Move)} (h : v.table.find? (·.1 = s) = some (s, row)) (t : Int) :
    v.chart.move s t = moveIn row t := by
  show ((v.table.find? (·.1 = s)).map (moveIn ·.2 t)).getD .stuck = _
  rw [h]
  rfl

variable {s : ConfigSet} {d : Decision} {level : Int} {o : Tape}

/-- A set on the way has a row that says where it leads. -/
theorem move_eq (hs : v.chart.known s) : ∃ row ∈ v.table, row.1 = s ∧ ∀ t, v.chart.move s t = moveIn row.2 t := by
  obtain ⟨row, hrow, hset⟩ := hs
  cases hfind : v.table.find? (·.1 = s) with
  | none => exact absurd hset (by simpa using List.find?_eq_none.mp hfind row hrow)
  | some row' =>
    obtain rfl : row'.1 = s := by simpa using List.find?_some hfind
    exact ⟨row', List.mem_of_find?_eq_some hfind, rfl, move_of_row hfind⟩

theorem kin_probe {r : Recogniser} (hnet : r.net = States.network) (hquiet : r.traces = {})
    (level : Int) (memory : Chart.Memory) (mode : Mode) : Kin r (probe level memory mode) := ⟨hnet, hquiet, rfl⟩

/-- What a confined run does in the made-up recogniser it does in every one. -/
theorem of_probe {α : Type} {r o : Recogniser} {x y : Act α} (h : Confined r o x y) (hm : r.merger.memory = o.merger.memory) {a : α}
    (hy : (y.outcome o).1 = .ok a) :
    ∃ merger, x.outcome r = (.ok a, { r with merger }) ∧ merger.memory = (y.outcome o).2.merger.memory := by
  obtain ⟨out, _, _, hx, hy', ⟨m, m', rfl, rfl, hmm⟩, -⟩ := h r o ⟨r.merger, o.merger, rfl, rfl, hm⟩
  rw [hy'] at hy ⊢
  exact ⟨m, by rw [hx, ← hy], hmm⟩

theorem Checked.starts (hv : v.Checked) {r : Recogniser} (hd : d.Kin v.decision) (hnet : r.net = States.network)
    (hquiet : r.traces = {}) (hmemory : r.merger.memory = none) :
    ∃ merger, (startSet d none false).outcome r = (.ok v.raw, { r with merger }) ∧ merger.memory = none := by
  obtain ⟨merger, hstart, hm⟩ := of_probe (startSet_confined (kin_probe hnet hquiet 0 none .full) hd none) hmemory hv.raw.1
  exact ⟨merger, hstart, hm.trans hv.raw.2⟩

theorem Checked.filters (hv : v.Checked) (hp : v.byPrecedence = true) {r : Recogniser} {p : Int} (hlevel : p ∈ v.levels)
    (hr : r.precedences.head? = some p) (hmemory : r.merger.memory = none) :
    ∃ merger, (precedenceFilter v.raw).outcome r = (.ok (v.start p), { r with merger }) ∧ merger.memory = none := by
  obtain ⟨-, hfilter, hafter⟩ := hv.levelled hp p hlevel
  obtain ⟨merger, hset, hm⟩ := of_probe (o := probe p none) (precedenceFilter_confined hr v.raw) hmemory hfilter
  exact ⟨merger, hset, hm.trans hafter⟩

theorem readAlike_self (net : Network) (t : Int) : ReadAlike net t t := ⟨fun _ _ _ => rfl, .rfl⟩

theorem plain_targets {r : Recogniser} (hnet : r.net = States.network) (hquiet : r.traces = {}) {t : Int}
    (ht : t ≠ Token.eof) {mv : Move} (h : v.plain s t mv = true) (d : Decision) :
    ∃ node, (targetNode d s t).outcome r = (.ok node, primed r) ∧ v.chart.Answers node mv := by
  cases mv with
  | stuck =>
    have hmoves : moves r.net s t = [] := by
      rw [hnet]
      exact List.isEmpty_iff.mp h
    exact ⟨none, targetNode_stuck hquiet d (sheds_of_ne ht s) hmoves, rfl⟩
  | picks a =>
    simp only [plain, Bool.and_eq_true, decide_eq_true_eq, List.all_eq_true, ← hnet] at h
    obtain ⟨⟨⟨⟨rfl, ha⟩, hguards⟩, hnew⟩, hlevel⟩ := h
    obtain ⟨content, hunique, htarget⟩ := targetNode_picks hquiet ht d hnew hguards ha
    refine ⟨_, htarget, ⟨hunique, ha, rfl, rfl, ?_, fun _ => rfl⟩, rfl⟩
    show none = (v.level _).map _
    rw [hlevel]
    rfl
  | on | splits => cases h

theorem explored_targets {r : Recogniser} (hd : d.Kin v.decision) (hnet : r.net = States.network)
    (hmode : r.mode ≠ .exact) (hquiet : r.traces = {}) (hmemory : v.Remembers r.merger.memory) {t : Int} {mv : Move}
    (h : v.explored s t mv = true) : ∃ node merger, (targetNode d s t).outcome r = (.ok node, { r with merger }) ∧
      (∀ s', mv = .on s' → v.Remembers merger.memory) ∧ v.chart.Answers node mv := by
  have hmodes : r.mode ∈ [Mode.full, .local_] := by
    cases hm : r.mode with
    | exact => exact absurd hm hmode
    | local_ | full => decide
  have hfound := List.all_eq_true.mp (List.all_eq_true.mp h _ hmodes) _ hmemory
  rw [Bool.and_eq_true] at hfound
  obtain ⟨hafter, hanswer⟩ := hfound
  obtain ⟨node, hnode, hanswers⟩ := Option.any_eq_true _ _ |>.mp hanswer
  have hok : ((targetNode v.decision s t).outcome (probe 0 (some (r.merger.memory.getD [])) r.mode)).1 = .ok node := by
    revert hnode
    cases ((targetNode v.decision s t).outcome (probe 0 (some (r.merger.memory.getD [])) r.mode)).1 with
    | error f => exact nofun
    | ok x => exact fun h => congrArg Except.ok (Option.some.inj h)
  have hkin : Kin (primed r) (probe 0 (some (r.merger.memory.getD [])) r.mode) := kin_probe (r := primed r) hnet hquiet _ _ _
  obtain ⟨merger, htarget, hm⟩ := of_probe (targetNode_confined hkin rfl hd (readAlike_self _ t) s) rfl hok
  refine ⟨node, merger, ?_, ?_, of_decide_eq_true hanswers⟩
  · rw [targetNode_primed hquiet, htarget]
    rfl
  · rintro s' rfl
    rw [Remembers, hm]
    exact of_decide_eq_true hafter

/-- What is checked of a row: it lists tokens of the grammar, and its moves are found. -/
structure RowChecked (v : Survey) (row : ConfigSet × List (List Int × Move)) : Prop where
  types : ∀ entry ∈ row.2, ∀ t ∈ entry.1, t ∈ tokenTypes
  moves : ∀ t ∈ tokenTypes, (t ≠ Token.eof && v.plain row.1 t (moveIn row.2 t) || v.explored row.1 t (moveIn row.2 t)) = true

theorem RowChecked.targets {row : ConfigSet × List (List Int × Move)} (hrow : v.RowChecked row) {r : Recogniser}
    (hd : d.Kin v.decision) (hnet : r.net = States.network) (hmode : r.mode ≠ .exact) (hquiet : r.traces = {})
    (hmemory : v.Remembers r.merger.memory) (t : Int) : ∃ node merger, (targetNode d row.1 t).outcome r = (.ok node, { r with merger }) ∧
      (∀ s, moveIn row.2 t = .on s → v.Remembers merger.memory) ∧ v.chart.Answers node (moveIn row.2 t) := by
  by_cases htype : t ∈ tokenTypes
  · rcases Bool.or_eq_true_iff.mp (hrow.moves t htype) with hplain | hexplored
    · rw [Bool.and_eq_true, decide_eq_true_eq] at hplain
      obtain ⟨node, htarget, hanswers⟩ := plain_targets hnet hquiet hplain.1 hplain.2 d
      exact ⟨node, _, htarget, fun _ _ => hmemory, hanswers⟩
    · exact explored_targets hd hnet hmode hquiet hmemory hexplored
  · have hmoves : Predict.moves r.net row.1 t = [] := by
      rw [hnet]
      exact moves_types htype row.1
    have heof : t ≠ Token.eof := by
      rintro rfl
      exact htype (by decide)
    have hstuck : moveIn row.2 t = .stuck := by
      have hnone : row.2.find? (·.1.contains t) = none := by
        refine List.find?_eq_none.mpr fun entry hentry hin => ?_
        exact htype (hrow.types entry hentry t (List.contains_iff_mem.mp hin))
      rw [moveIn, hnone]
      rfl
    exact ⟨none, _, targetNode_stuck hquiet d (sheds_of_ne heof _) hmoves, fun _ _ => hmemory, hstuck⟩

theorem Checked.targets (hv : v.Checked) {r : Recogniser} (hd : d.Kin v.decision) (hnet : r.net = States.network)
    (hmode : r.mode ≠ .exact) (hquiet : r.traces = {}) (hmemory : v.Remembers r.merger.memory) (hs : v.chart.known s)
    (t : Int) : ∃ node merger, (targetNode d s t).outcome r = (.ok node, { r with merger }) ∧
      (∀ s', v.chart.move s t = .on s' → v.Remembers merger.memory) ∧ v.chart.Answers node (v.chart.move s t) := by
  obtain ⟨row, hrow, rfl, hmove⟩ := move_eq hs
  rw [hmove]
  exact RowChecked.targets ⟨hv.types row hrow, hv.rows row hrow⟩ hd hnet hmode hquiet hmemory t

/-- A survey that was checked is a lawful chart. -/
theorem Checked.lawful (hv : v.Checked) : v.chart.Lawful States.network v.state v.levels v.Remembers where
  distinct := hv.chart_distinct
  known := hv.known
  starts d r hstate hkind hnet hmode hquiet hmemory p hp hr := by
    obtain ⟨merger, hset, hafter⟩ := hv.starts ⟨hstate, hkind⟩ hnet hquiet hmemory
    have hempty : ∀ memory : Chart.Memory, memory = none → v.Remembers memory := by
      rintro _ rfl
      exact hv.memories
    refine ⟨v.raw, merger, hset, hempty _ hafter, fun h p => (hv.single h p).symm, fun h => ⟨(hv.levelled h p hp).1, ?_⟩⟩
    obtain ⟨merger', hfilter, hafter'⟩ := hv.filters h (r := { r with merger }) hp hr hafter
    exact ⟨merger', hfilter, hempty _ hafter'⟩
  targets d r hstate hkind hnet hmode hquiet hmemory s t hs := hv.targets ⟨hstate, hkind⟩ hnet hmode hquiet hmemory hs t

/-! ## What a surveyed decision answers -/

/-- Whether a move ends the decision without a conflict. -/
def isFinal : Move → Bool
  | .stuck | .picks _ => true
  | _ => false

/-- No decision looks at more than two tokens, and none ends in a conflict. -/
structure Brief (v : Survey) : Prop where
  guards : ∀ row ∈ v.table, ∀ c ∈ row.1.configs, c.guard.Simple
  first : ∀ row ∈ v.table, ∀ entry ∈ row.2, isFinal entry.2 = true ∨ Token.eof ∉ entry.1 ∧
    (∃ row' ∈ v.table, entry.2 = .on row'.1) ∧ ∀ row' ∈ v.table, entry.2 = .on row'.1 → ∀ entry' ∈ row'.2, isFinal entry'.2 = true

/-- What comes of a set at its last token. -/
def settle (v : Survey) (level : Int) (s : ConfigSet) : Move → Option Int
  | .picks alt => v.chart.answer level alt
  | _ =>
    let alt := rescue States.network level s.configs.toList
    if alt = 0 then none else some alt

theorem settle_picks (level : Int) (s : ConfigSet) (alt : Int) : v.settle level s (.picks alt) = v.chart.answer level alt := rfl

theorem settle_stuck (level : Int) (s : ConfigSet) : v.settle level s .stuck =
    if rescue States.network level s.configs.toList = 0 then none else some (rescue States.network level s.configs.toList) := rfl

/-- Without guards, what a dead end falls back on does not depend on the level. -/
theorem rescue_plain {configs : List Config} (h : ∀ c ∈ configs, c.guard = .always) (net : Network) (level : Int) :
    rescue net level configs = finishedAlt net configs := by
  have hheld : configs.filter (·.guard.holdsAt level) = configs :=
    List.filter_eq_self.mpr fun c hc => by rw [h c hc]; rfl
  have hnot : configs.filter (!·.guard.holdsAt level) = [] :=
    List.filter_eq_nil_iff.mpr fun c hc => by rw [h c hc]; exact Bool.false_ne_true
  unfold rescue
  rw [hheld, hnot]
  dsimp only
  split
  · rfl
  · rename_i hzero
    rw [not_not.mp hzero]
    rfl

/-- The alternative that the decision takes before two tokens, if it takes one. -/
def verdict (v : Survey) (level t t' : Int) : Option Int :=
  match v.chart.move (v.start level) t with
  | .on s => v.settle level s (v.chart.move s t')
  | mv => v.settle level (v.start level) mv

theorem moveIn_cons (types : List Int) (mv : Move) (row : List (List Int × Move)) (t : Int) :
    moveIn ((types, mv) :: row) t = if t ∈ types then mv else moveIn row t := by
  unfold moveIn
  rw [List.find?_cons]
  by_cases h : t ∈ types
  · rw [if_pos h, List.contains_iff_mem.mpr h]
    rfl
  · rw [if_neg h, Bool.eq_false_iff.mpr fun hc => h (List.contains_iff_mem.mp hc)]

@[simp] theorem moveIn_nil (t : Int) : moveIn [] t = .stuck := rfl

theorem moveIn_cases (row : List (List Int × Move)) (t : Int) :
    moveIn row t = .stuck ∨ ∃ entry ∈ row, t ∈ entry.1 ∧ moveIn row t = entry.2 := by
  unfold moveIn
  cases hfind : row.find? (·.1.contains t) with
  | none => exact .inl rfl
  | some entry =>
    have hin := List.find?_some hfind
    exact .inr ⟨entry, List.mem_of_find?_eq_some hfind, List.contains_iff_mem.mp hin, rfl⟩

/-- Where a decision gets to: the set before its last token, and that token. -/
theorem Brief.walks (hb : v.Brief) (hs : v.chart.known (v.start level)) (types : Nat → Int) (k : Nat) :
    ∃ s k', k' ≤ k + 1 ∧ v.chart.Walks types (v.start level) k s k' ∧ v.chart.known s ∧
      isFinal (v.chart.move s (types k')) = true ∧
      v.verdict level (types k) (types (k + 1)) = v.settle level s (v.chart.move s (types k')) := by
  obtain ⟨row, hrow, -, hmove⟩ := move_eq hs
  rcases moveIn_cases row.2 (types k) with hstuck | ⟨entry, hentry, ht, hin⟩
  · refine ⟨v.start level, k, by omega, .here _ k, hs, ?_⟩
    simp [verdict, hmove, hstuck, isFinal]
  rcases hb.first row hrow entry hentry with hfinal | ⟨heof, ⟨row', hrow', hon⟩, hnext⟩
  · refine ⟨v.start level, k, by omega, .here _ k, hs, by rw [hmove, hin, hfinal], ?_⟩
    rw [verdict]
    cases hmv : entry.2 with
    | stuck | picks => rw [hmove, hin, hmv]
    | on | splits =>
      rw [hmv] at hfinal
      cases hfinal
  · have hfirst : v.chart.move (v.start level) (types k) = .on row'.1 := by rw [hmove, hin, hon]
    have hknown : v.chart.known row'.1 := ⟨row', hrow', rfl⟩
    refine ⟨row'.1, k + 1, by omega, .on hfirst (fun h => heof (h ▸ ht)) (.here _ (k + 1)), hknown, ?_, by rw [verdict, hfirst]⟩
    obtain ⟨row'', hrow'', hset, hmove'⟩ := move_eq hknown
    rw [hmove']
    rcases moveIn_cases row''.2 (types (k + 1)) with hstuck | ⟨entry', hentry', -, hin'⟩
    · rw [hstuck]
      rfl
    · rw [hin']
      exact hnext row'' hrow'' (hset ▸ hon) entry' hentry'

/-- What a surveyed decision of a recogniser is taken by. -/
def setting (v : Survey) (number : Nat) (level : Int) (tape : Tape) : Setting :=
  ⟨number, v.chart, States.network, level, v.Remembers, tape⟩

/-- A decision takes the alternative of the survey. -/
theorem Checked.decide (hv : v.Checked) (hb : v.Brief) {n k : Nat} {r : Recogniser}
    {a : Automaton ConfigSet} (hd : d.Kin v.decision) (hn : d.number = n) (hk : d.start = k) (hlevel : level ∈ v.levels)
    (h : Deciding (v.setting n level o) r a k) (hmemory : r.merger.memory = none) :
    Deciding.Answers (v.setting n level o) (v.verdict level (o.type k) (o.type (k + 1)) = some ·) (runDecision d) r := by
  have hS : (v.setting n level o).Rules d v.levels := ⟨hn, hd.byPrecedence, hlevel, hd.state ▸ hv.lawful⟩
  obtain ⟨s, k', hk', hwalk, hknown, hfinal, hverdict⟩ := hb.walks (hv.known level hlevel) o.type k
  rw [hverdict]
  have hle := hwalk.le
  refine h.decide hS hwalk (fun s' hon => ?_) (fun alts hsplits => ?_) (fun hstuck callers r' b h' => ?_)
    (fun alt hpicks callers r' b n h' hfits => ?_) (fun r' b _ => by omega) hmemory
  · have hmove : v.chart.move s (o.type k') = .on s' := hon
    rw [hmove] at hfinal
    cases hfinal
  · have hmove : v.chart.move s (o.type k') = .splits alts := hsplits
    rw [hmove] at hfinal
    cases hfinal
  · obtain ⟨row, hrow, hset⟩ := hknown
    have hmove : v.chart.move s (o.type k') = .stuck := hstuck
    simp only [hmove, settle]
    refine (h'.deadEnd hk hle callers (hset ▸ hb.guards row hrow)).imp ?_ fun _ _ => id
    rintro alt r'' ⟨rfl, hne, h''⟩
    exact ⟨if_neg hne, b, k, h''⟩
  · have hmove : v.chart.move s (o.type k') = .picks alt := hpicks
    simp only [hmove, settle]
    exact (h'.accept hk hle callers hfits).imp (fun x r'' h => ⟨h.1, b, h.2⟩) fun _ _ => id

/-- The automaton of a decision agrees with its survey. -/
def Learnt (v : Survey) (n : Nat) (r : Recogniser) : Prop := ∃ a, r.automata[n]? = some a ∧ v.chart.Charted a

/-- In a recogniser that stands at a place, a decision takes the alternative of the survey; the stream stands there again,
and what was learnt agrees with the survey. -/
theorem Checked.choose (hv : v.Checked) (hb : v.Brief) {r : Recogniser} {n k : Nat} {t : Token}
    (hr : Ready States.network level r) (hstate : States.network.decisions.getD n 0 = v.state) (hlevel : level ∈ v.levels)
    (hlearnt : v.Learnt n r) (hmemory : r.merger.memory = none) (hs : TokenStream.Standing o r.stream k t) (callers : Option Callers) :
    (Predict.choose n callers).Ends r
      (fun alt r' => Concluded (v.setting n level o) r k r' ∧ v.verdict level (o.type k) (o.type (k + 1)) = some alt)
      fun _ => Drift n r := by
  obtain ⟨a, ha, hcharted⟩ := hlearnt
  have hdeciding : Deciding (v.setting n level o) r a k := ⟨hr, ⟨t, hs⟩, ha, hcharted, hmemory ▸ hv.memories⟩
  have hkin : (Decision.begun r n callers).Kin v.decision := by
    refine ⟨?_, ?_⟩
    · rw [Decision.begun, hr.net]
      exact hstate
    · rw [Decision.begun, Array.getD_eq_getD_getElem?, ha]
      exact hcharted.rooted.kind
  exact hdeciding.choose callers (hv.decide hb hkin (n := n) rfl hs.index hlevel hdeciding hmemory)

end Survey

end NimbleLang.Predict
