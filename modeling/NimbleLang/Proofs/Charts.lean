import NimbleLang.Proofs.Automata
import NimbleLang.Proofs.Confinement

/-!
Charts of decisions. A `Chart` says which sets of configurations a decision meets on its way and where each token leads
from there: nowhere, to another such set, to the only alternative that is left, or into a conflict. The automaton of a
decision agrees with a chart (`Chart.Charted`) if each of its nodes and edges is one of the chart; a chart is lawful for a
decision (`Chart.Lawful`) if the sets computed from the network are those of the chart.

Under a lawful chart an automaton that agrees with it stays so, whatever the decision adds to it, and the decision goes
where the chart goes: `Deciding.follow` for one token, `Deciding.run` for a whole walk.
-/

namespace NimbleLang

open Run (outcome_bind_ok outcome_pure)

namespace Predict

open Recogniser Automaton

/-! ## Charts -/

/-- Where a token leads from a set of configurations. -/
inductive Move where
  /-- Nowhere. -/
  | stuck
  | on (s : ConfigSet)
  /-- One alternative is left. -/
  | picks (alt : Int)
  /-- The alternatives cannot be told apart. -/
  | splits (alts : List Int)
  deriving DecidableEq

structure Chart where
  byPrecedence : Bool
  /-- The set that a decision starts from in a precedence level. -/
  start : Int → ConfigSet
  /-- The sets on the way. -/
  known : ConfigSet → Prop
  move : ConfigSet → Int → Move
  /-- The precedence level that an alternative hangs on, if it does. -/
  level : Int → Option Int

namespace Chart

variable {ch : Chart}

/-- A node where a move leads. -/
def Fits (ch : Chart) (n : Node) : Move → Prop
  | .stuck => False
  | .on s => n.content = s ∧ ch.known s ∧ n.accepts = false ∧ n.needsFullContext = false
  | .picks alt => n.content.uniqueAlt = alt ∧ alt ≠ 0 ∧ n.accepts = true ∧ n.needsFullContext = false ∧
      n.guarded = (ch.level alt).map (fun p => [(.precedence p, alt)]) ∧ (ch.level alt = none → n.prediction = alt)
  | .splits alts => n.content.uniqueAlt = 0 ∧ n.content.conflicting = some alts ∧ n.accepts = true ∧
      n.needsFullContext = true ∧ n.guarded = none ∧ smallest alts = .ok n.prediction

/-- The target of an edge is where a move leads. -/
def Reaches (ch : Chart) (a : Automaton ConfigSet) : Target → Move → Prop
  | .error, mv => mv = .stuck
  | .node k, mv => ∃ n, a.nodes[k]? = some n ∧ ch.Fits n mv

/-- The sets on the way settle nothing, and can be told apart. -/
structure Distinct (ch : Chart) : Prop where
  unsettled : ∀ s, ch.known s → s.uniqueAlt = 0 ∧ s.conflicting = none
  same : ∀ s s', ch.known s → ch.known s' → s.same s' = true → s = s'

/-- The starts of the automaton are those of the chart. -/
structure Rooted (ch : Chart) (a : Automaton ConfigSet) : Prop where
  kind : a.isPrecedence = ch.byPrecedence
  single : ∀ k, a.start = .node k → ∃ n, a.nodes[k]? = some n ∧ ∀ p, n.content = ch.start p
  levels : ∀ nodes, a.start = .byPrecedence nodes → ∀ (p : Nat) (k : Int), (nodes[p]?).join = some k →
    ∃ n, a.nodes[k.toNat]? = some n ∧ n.content = ch.start p

/-- The automaton agrees with the chart. -/
structure Charted (ch : Chart) (a : Automaton ConfigSet) : Prop where
  rooted : ch.Rooted a
  nodes : ∀ (i : Nat) (n : Node), a.nodes[i]? = some n → ∃ mv, ch.Fits n mv
  edges : ∀ (i : Nat) (n : Node) (t : Int) (g : Target), a.nodes[i]? = some n → ch.known n.content → n.edge? t = some g →
    ch.Reaches a g (ch.move n.content t)

variable {g : Target} {mv : Move} {n : Node}

theorem Reaches.grown {a b : Automaton ConfigSet} (h : Grown a b) (hg : ch.Reaches a g mv) :
    ch.Reaches b g mv := by
  cases g with
  | error => exact hg
  | node k =>
    obtain ⟨n, hn, hfits⟩ := hg
    obtain ⟨edges, hb⟩ := h.2 k n hn
    refine ⟨_, hb, ?_⟩
    cases mv <;> exact hfits

theorem Rooted.grown {a b : Automaton ConfigSet} (h : Grown a b) (ha : ch.Rooted a) : ch.Rooted b where
  kind := by
    rw [← ha.kind, Automaton.isPrecedence, Automaton.isPrecedence, h.1]
  single k hk := by
    obtain ⟨n, hn, hstart⟩ := ha.single k (h.1 ▸ hk)
    obtain ⟨edges, hb⟩ := h.2 k n hn
    exact ⟨_, hb, hstart⟩
  levels nodes hnodes p k hk := by
    obtain ⟨n, hn, hstart⟩ := ha.levels nodes (h.1 ▸ hnodes) p k hk
    obtain ⟨edges, hb⟩ := h.2 k.toNat n hn
    exact ⟨_, hb, hstart⟩

/-- Nodes that count as the same fit the same moves. -/
theorem Fits.of_same (hch : ch.Distinct) {n' : Node} {mv' : Move} (h : ch.Fits n mv) (h' : ch.Fits n' mv')
    (hsame : n'.content.same n.content = true) : ch.Fits n' mv := by
  have hunique : n'.content.uniqueAlt = n.content.uniqueAlt := by
    simp only [ConfigSet.same, Bool.and_eq_true, beq_iff_eq] at hsame
    exact hsame.1.1.1.2
  have hconflicting : n'.content.conflicting = n.content.conflicting := by
    simp only [ConfigSet.same, Bool.and_eq_true, beq_iff_eq] at hsame
    exact hsame.1.1.2
  cases mv' with
  | stuck => exact h'.elim
  | on s' =>
    obtain ⟨rfl, hknown', haccepts', hfull'⟩ := h'
    obtain ⟨hzero, hnone⟩ := hch.unsettled _ hknown'
    cases mv with
    | stuck => exact h.elim
    | on s =>
      obtain ⟨rfl, hknown, -, -⟩ := h
      exact ⟨hch.same _ _ hknown' hknown hsame, hknown, haccepts', hfull'⟩
    | picks alt => exact absurd (h.1 ▸ hunique ▸ hzero) h.2.1
    | splits alts => exact absurd (h.2.1.symm.trans (hconflicting.symm.trans hnone)) (Option.some_ne_none _)
  | picks alt' =>
    obtain ⟨rfl, hne, hrest⟩ := h'
    cases mv with
    | stuck => exact h.elim
    | on s =>
      obtain ⟨rfl, hknown, -, -⟩ := h
      exact absurd (hunique.trans (hch.unsettled _ hknown).1) hne
    | picks alt =>
      obtain ⟨rfl, -⟩ := h
      rw [← hunique]
      exact ⟨rfl, hne, hrest⟩
    | splits alts => exact absurd (hunique.trans h.1) hne
  | splits alts' =>
    obtain ⟨hzero, hsome, hrest⟩ := h'
    cases mv with
    | stuck => exact h.elim
    | on s =>
      obtain ⟨rfl, hknown, -, -⟩ := h
      exact absurd (hsome.symm.trans (hconflicting.trans (hch.unsettled _ hknown).2)) (Option.some_ne_none _)
    | picks alt => exact absurd (h.1 ▸ hunique ▸ hzero) h.2.1
    | splits alts =>
      obtain rfl : alts' = alts := Option.some.inj (hsome.symm.trans (hconflicting.trans h.2.1))
      exact ⟨hzero, hsome, hrest⟩

/-- A node that fits is there after it was added. -/
theorem Charted.addNode (hch : ch.Distinct) {a : Automaton ConfigSet} (ha : ch.Charted a)
    (hn : ch.Fits n mv) (hedges : n.edges = none) :
    ch.Charted (a.addNode n).1 ∧ Grown a (a.addNode n).1 ∧ ch.Reaches (a.addNode n).1 (.node (a.addNode n).2) mv := by
  unfold Automaton.addNode
  split
  · rename_i k hk
    obtain ⟨hlt, hsame, -⟩ := Array.findIdx?_eq_some_iff_getElem.mp hk
    have hget : a.nodes[k]? = some a.nodes[k] := Array.getElem?_eq_getElem hlt
    obtain ⟨mv', hfits⟩ := ha.nodes k _ hget
    exact ⟨ha, .refl a, _, hget, hn.of_same hch hfits hsame⟩
  · have hgrown : Grown a { a with nodes := a.nodes.push n } := grown_push a n
    refine ⟨⟨ha.rooted.grown hgrown, fun i m h => ?_, fun i m t g h hknown hedge => ?_⟩, hgrown, n, by simp, hn⟩
    · dsimp only at h
      rw [Array.getElem?_push] at h
      split at h
      · exact Option.some.inj h ▸ ⟨mv, hn⟩
      · exact ha.nodes i m h
    · dsimp only at h
      rw [Array.getElem?_push] at h
      split at h
      · rw [← Option.some.inj h, Node.edge?, hedges] at hedge
        cases hedge
      · exact (ha.edges i m t g h hknown hedge).grown hgrown

theorem Charted.setEdge {a : Automaton ConfigSet} (ha : ch.Charted a) {i : Nat} (hn : a.nodes[i]? = some n)
    {t : Int} (hg : ch.Reaches a g (ch.move n.content t)) :
    ch.Charted (a.setEdge i t g) ∧ Grown a (a.setEdge i t g) := by
  have hget := getElem?_setEdge a i t g
  have hgrown := grown_setEdge a i t g
  refine ⟨⟨ha.rooted.grown hgrown, fun j m h => ?_, fun j m t' g' h hknown hedge => ?_⟩, hgrown⟩
  · rw [hget] at h
    split at h
    · obtain ⟨m', hm', rfl⟩ := Option.map_eq_some_iff.mp h
      obtain ⟨mv, hfits⟩ := ha.nodes j m' hm'
      refine ⟨mv, ?_⟩
      cases mv <;> exact hfits
    · exact ha.nodes j m h
  · rw [hget] at h
    split at h
    · rename_i hij
      subst hij
      obtain ⟨m', hm', rfl⟩ := Option.map_eq_some_iff.mp h
      rw [edge?_setEdge] at hedge
      split at hedge
      · rename_i ht
        subst ht
        rw [hn] at hm'
        cases hm'
        cases hedge
        exact hg.grown hgrown
      · exact (ha.edges i m' t' g' hm' hknown hedge).grown hgrown
    · exact (ha.edges j m t' g' h hknown hedge).grown hgrown

/-- What was computed is what the chart says. -/
def Answers (ch : Chart) : Option Node → Move → Prop
  | none, mv => mv = .stuck
  | some n, mv => ch.Fits n mv ∧ n.edges = none

/-- The merges that are remembered. -/
abbrev Memory := Option (List ((Context Unit × Context Unit) × Context Unit))

/-- In a state of the network, the sets computed without the calling context are those of the chart, in the given levels
and as long as nothing else is remembered than `M` allows. What a last step remembers is of no use. -/
structure Lawful (ch : Chart) (net : Network) (state : Nat) (levels : List Int) (M : Memory → Prop) : Prop where
  distinct : ch.Distinct
  known : ∀ p ∈ levels, ch.known (ch.start p)
  starts : ∀ (d : Decision) (r : Recogniser), d.state = state → d.byPrecedence = ch.byPrecedence → r.net = net → r.mode ≠ .exact →
    r.traces = {} → r.merger.memory = none → ∀ p ∈ levels, r.precedences.head? = some p →
      ∃ s merger, (startSet d none false).outcome r = (.ok s, { r with merger }) ∧ M merger.memory ∧
        (ch.byPrecedence = false → ∀ p, s = ch.start p) ∧ (ch.byPrecedence = true → 0 ≤ p ∧ ∃ merger',
          (precedenceFilter s).outcome { r with merger } = (.ok (ch.start p), { r with merger := merger' }) ∧ M merger'.memory)
  targets : ∀ (d : Decision) (r : Recogniser), d.state = state → d.byPrecedence = ch.byPrecedence → r.net = net →
    r.mode ≠ .exact → r.traces = {} → M r.merger.memory → ∀ s t, ch.known s → ∃ node merger,
      (targetNode d s t).outcome r = (.ok node, { r with merger }) ∧ (∀ s', ch.move s t = .on s' → M merger.memory) ∧
        ch.Answers node (ch.move s t)

/-- What comes of an alternative at a precedence level. -/
def answer (ch : Chart) (level alt : Int) : Option Int :=
  match ch.level alt with
  | none => some alt
  | some p => if p ≥ level then some alt else none

/-- The sets on the way over a stretch of tokens. -/
inductive Walks (ch : Chart) (types : Nat → Int) : ConfigSet → Nat → ConfigSet → Nat → Prop
  | here (s : ConfigSet) (k : Nat) : Walks ch types s k s k
  | on {s s' s'' : ConfigSet} {k k'' : Nat} : ch.move s (types k) = .on s' → types k ≠ Token.eof →
      Walks ch types s' (k + 1) s'' k'' → Walks ch types s k s'' k''

theorem Walks.le {types : Nat → Int} {s s' : ConfigSet} {k k' : Nat} (h : ch.Walks types s k s' k') : k ≤ k' := by
  induction h with
  | here => exact Nat.le_refl _
  | on _ _ _ ih => omega

end Chart

end Predict

namespace Guard

/-- The truth of a guard that is a precedence condition or none. -/
def holdsAt (level : Int) : Guard → Bool
  | .precedence p => decide (p ≥ level)
  | _ => true

/-- A guard that is a precedence condition or none. -/
def Simple : Guard → Prop
  | .always | .precedence _ => True
  | _ => False

instance (g : Guard) : Decidable g.Simple :=
  match g with
  | .always | .precedence _ => inferInstanceAs (Decidable True)
  | .predicate .. | .all _ | .any _ => inferInstanceAs (Decidable False)

end Guard

namespace Predict

open Recogniser Automaton TokenStream

/-! ## Decisions under a chart -/

/-- The alternative that a dead end falls back on, or zero. -/
def rescue (net : Network) (level : Int) (configs : List Config) : Int :=
  let held := finishedAlt net (configs.filter (·.guard.holdsAt level))
  if held ≠ 0 then held else finishedAlt net (configs.filter (!·.guard.holdsAt level))

/-- What a decision is taken by: its number, its chart, the network, the precedence level, the merges that may be
remembered, and the tape of tokens. -/
structure Setting where
  number : Nat
  chart : Chart
  net : Network
  level : Int
  memory : Chart.Memory → Prop
  tape : Tape

/-- The setting of a decision that merges nothing any more. -/
def Setting.lax (S : Setting) : Setting := { S with memory := fun _ => True }

/-- A decision that the setting is about, with a lawful chart. -/
structure Setting.Rules (S : Setting) (d : Decision) (levels : List Int) : Prop where
  number : d.number = S.number
  byPrecedence : d.byPrecedence = S.chart.byPrecedence
  level : S.level ∈ levels
  lawful : S.chart.Lawful S.net d.state levels S.memory

/-- A recogniser that decides by a network and a level, without traces and diagnoses. -/
structure Ready (net : Network) (level : Int) (r : Recogniser) : Prop where
  net : r.net = net
  mode : r.mode ≠ .exact
  quiet : r.traces = {}
  attached : r.attached = true
  undiagnosed : r.diagnosis = none
  level : r.precedences.head? = some level

/-- A decision under way at place `k`, with the automaton `a`. -/
structure Deciding (S : Setting) (r : Recogniser) (a : Automaton ConfigSet) (k : Nat) : Prop where
  ready : Ready S.net S.level r
  standing : ∃ t, Standing S.tape r.stream k t
  automaton : r.automata[S.number]? = some a
  charted : S.chart.Charted a
  memory : S.memory r.merger.memory

namespace Deciding

variable {S : Setting} {r : Recogniser} {a : Automaton ConfigSet} {k k₀ : Nat} {d : Decision} {α : Type}
  {E : Fault → Recogniser → Prop}

/-- An act of the stream that leaves it as it is. -/
theorem still (h : Deciding S r a k) {act : TokenStream.Act Supply α} {x : α} (hact : act.outcome r.stream = (.ok x, r.stream)) :
    (onStream act).Ends r (fun y r' => y = x ∧ Deciding S r' a k) E := by
  obtain ⟨t, ht⟩ := h.standing
  refine .of_ok (onStream_ok h.ready.attached hact) ⟨rfl, ?_⟩
  exact ⟨{ h.ready with },
    ⟨t, ht.reading.drained, ht.index, ht.token⟩, h.automaton, h.charted, h.memory⟩

theorem look (h : Deciding S r a k) :
    (onStream (TokenStream.lookType 1)).Ends r (fun y r' => y = S.tape.type k ∧ Deciding S r' a k) E := by
  obtain ⟨t, ht⟩ := h.standing
  rw [ht.reading.type ht.token]
  exact h.still ht.lookType

/-- A decision can be sent back to every place it has passed. -/
theorem seek (h : Deciding S r a k) (hk : k₀ ≤ k) :
    (onStream (TokenStream.seek k₀)).Ends r (fun _ r' => Deciding S r' a k₀) E := by
  obtain ⟨t, ht⟩ := h.standing
  obtain ⟨t₀, ht₀⟩ := ht.token_before hk
  refine .of_ok (onStream_ok h.ready.attached (seek_inside ht.reading ht₀)) ?_
  exact ⟨{ h.ready with },
    ⟨t₀, (ht.reading.moved _).drained, rfl, ht₀⟩, h.automaton, h.charted, h.memory⟩

theorem advance (h : Deciding S r a k) (hne : S.tape.type k ≠ Token.eof) : (Predict.advance (S.tape.type k)).Ends r
    (fun y r' => y = S.tape.type (k + 1) ∧ Deciding S r' a (k + 1)) fun _ _ => True := by
  obtain ⟨t, ht⟩ := h.standing
  have heof : t.isEof = false := by
    rw [ht.reading.type ht.token] at hne
    simp [Token.isEof, hne]
  rw [Predict.advance, if_neg hne]
  obtain ⟨t', stream, hconsume, -, ht'⟩ := ht.consume heof
  have hmoved : Deciding S { r with
      stream := { stream with source := stream.source.drain.2 }, journal := r.journal.append stream.source.drain.1 } a (k + 1) :=
    ⟨{ h.ready with }, ⟨t', ht'.reading.drained, ht'.index, ht'.token⟩, h.automaton, h.charted, h.memory⟩
  exact .after (onStream_ok h.ready.attached hconsume) hmoved.look

theorem noViable (h : Deciding S r a k) (hk : k₀ ≤ k) :
    (noViableAlternative k₀).Ends r (fun _ r' => Deciding S r' a k) E := by
  obtain ⟨t, ht⟩ := h.standing
  obtain ⟨t₀, ht₀⟩ := ht.token_before hk
  refine (h.still (ht.read ht₀)).bind ?_
  rintro _ r₁ ⟨rfl, h₁⟩
  obtain ⟨t₁, ht₁⟩ := h₁.standing
  refine (h₁.still ht₁.look).bind ?_
  rintro _ r₂ ⟨rfl, h₂⟩
  exact .of_ok (Run.outcome_get_bind _ r₂) h₂

/-! ## Guards -/

theorem holds_simple {g : Guard} (hr : r.precedences.head? = some S.level) (hg : g.Simple) (hne : g ≠ .always)
    (callers : Option Callers) : (holds callers g).outcome r = (.ok (g.holdsAt S.level), r) := by
  cases g with
  | always => exact absurd rfl hne
  | predicate | all | any => exact hg.elim
  | precedence p =>
    have hlevel : (precedenceHolds p).outcome r = (.ok (decide (p ≥ S.level)), r) := by
      rw [precedenceHolds, Run.outcome_get_bind]
      cases hp : r.precedences with
      | nil =>
        rw [hp] at hr
        cases hr
      | cons q rest =>
        rw [hp] at hr
        cases hr
        rfl
    have heval : ∀ predicate, (Guard.eval predicate precedenceHolds (.precedence p)).outcome r =
        (.ok (some (decide (p ≥ S.level))), r) := fun _ => by
      rw [Guard.eval, outcome_bind_ok hlevel]
      rfl
    rw [holds, outcome_bind_ok (heval _)]
    rfl

/-- Marking configurations by whether their guards hold. -/
theorem mark_simple (hr : r.precedences.head? = some S.level) (callers : Option Callers) {configs : List Config}
    (hconfigs : ∀ c ∈ configs, c.guard.Simple) :
    (configs.mapM fun (c : Config) => (do
      return (c, ← if c.guard = .always then pure true else holds callers c.guard) : Act (Config × Bool))).outcome r =
      (.ok (configs.map fun c => (c, c.guard.holdsAt S.level)), r) := by
  induction configs with
  | nil => rfl
  | cons c rest ih =>
    have hc : (do return (c, ← if c.guard = .always then pure true else holds callers c.guard) : Act (Config × Bool)).outcome r =
        (.ok (c, c.guard.holdsAt S.level), r) := by
      by_cases halways : c.guard = .always
      · rw [if_pos halways, halways]
        rfl
      · rw [if_neg halways, outcome_bind_ok (holds_simple hr (hconfigs c List.mem_cons_self) halways callers)]
        rfl
    rw [List.mapM_cons, outcome_bind_ok hc, outcome_bind_ok (ih fun c hc => hconfigs c (List.mem_cons_of_mem _ hc))]
    rfl

variable {s s' : ConfigSet} {n : Node} {i : Nat} {levels : List Int}

/-- At a dead end the decision falls back on an alternative, or fails where it began. -/
theorem deadEnd (h : Deciding S r a k) (hd : d.start = k₀) (hk : k₀ ≤ k) (callers : Option Callers)
    (hs : ∀ c ∈ s.configs, c.guard.Simple) : (Predict.deadEnd d callers s).Ends r
      (fun alt r' => alt = rescue S.net S.level s.configs.toList ∧ alt ≠ 0 ∧ Deciding S r' a k₀)
      fun _ _ => True := by
  rw [Predict.deadEnd, hd]
  refine (h.noViable hk).bind fun _ r₁ h₁ => (h₁.seek hk).bind fun _ r₂ h₂ => ?_
  have hmark := mark_simple h₂.ready.level callers fun c hc => hs c (Array.mem_toList_iff.mp hc)
  refine .after hmark (.after_get ?_)
  have hrescue : (if finishedAlt S.net (s.configs.toList.filter (·.guard.holdsAt S.level)) ≠ 0
      then finishedAlt S.net (s.configs.toList.filter (·.guard.holdsAt S.level))
      else finishedAlt S.net (s.configs.toList.filter (!·.guard.holdsAt S.level))) = rescue S.net S.level s.configs.toList := rfl
  simp only [List.filter_map, List.map_map, Function.comp_def, List.map_id', h₂.ready.net, hrescue]
  by_cases hzero : rescue S.net S.level s.configs.toList = 0
  · rw [if_neg (not_not.mpr hzero)]
    trivial
  · rw [if_pos hzero]
    exact ⟨rfl, hzero, h₂⟩

theorem heldAlts_single (hr : Ready S.net S.level r) (callers : Option Callers) (p alt : Int) :
    (heldAlts callers [(.precedence p, alt)]).outcome r = (.ok (if p ≥ S.level then [alt] else []), r) := by
  have hholds := holds_simple (g := .precedence p) hr.level trivial nofun callers
  rw [heldAlts, List.filterM, List.filterAuxM]
  simp only [reduceCtorEq, if_false, bind_assoc]
  rw [outcome_bind_ok hholds, outcome_bind_ok (printIf_quiet hr.quiet rfl _)]
  by_cases hp : p ≥ S.level
  · simp only [Guard.holdsAt, hp, decide_true, if_true, bind_assoc]
    rw [outcome_bind_ok (printIf_quiet hr.quiet rfl _)]
    rfl
  · simp only [Guard.holdsAt, hp, decide_false, if_false]
    rfl

/-- A node where one alternative is left says what becomes of it. -/
theorem accept (h : Deciding S r a k) (hd : d.start = k₀) (hk : k₀ ≤ k) (callers : Option Callers) {alt : Int}
    (hn : S.chart.Fits n (.picks alt)) : (Predict.accept d callers n).Ends r
      (fun x r' => S.chart.answer S.level alt = some x ∧ ∃ k', Deciding S r' a k')
      fun _ _ => True := by
  obtain ⟨-, -, -, -, hguarded, hprediction⟩ := hn
  rw [Predict.accept, hguarded, Chart.answer]
  cases hlevel : S.chart.level alt with
  | none =>
    dsimp only [Option.map_none]
    exact .of_ok (outcome_pure _ _) ⟨by rw [hprediction hlevel], k, h⟩
  | some p =>
    dsimp only [Option.map_some]
    rw [hd]
    refine .after_get ((h.seek hk).bind fun _ r₁ h₁ => ?_)
    refine .after (heldAlts_single h₁.ready callers p alt) ?_
    by_cases hp : p ≥ S.level
    · rw [if_pos hp, if_pos hp]
      exact .of_ok (outcome_pure _ _) ⟨rfl, k₀, h₁⟩
    · rw [if_neg hp, if_neg hp]
      exact (h₁.noViable (Nat.le_refl k₀)).bind fun _ _ _ => trivial

/-! ## Following the chart -/

theorem learn (h : Deciding S r a k) {b : Automaton ConfigSet} (hb : S.chart.Charted b) (hd : d.number = S.number) :
    (setAutomaton d b).Ends r (fun _ r' => Deciding S r' b k) E := by
  refine .of_ok (Run.outcome_modify _ _) ⟨?_, h.standing, ?_, hb, h.memory⟩
  · exact { h.ready with }
  · have hlt : S.number < r.automata.size := by
      by_contra hge
      have := h.automaton
      rw [Array.getElem?_eq_none (by omega)] at this
      cases this
    dsimp only
    rw [hd, Array.getElem?_setIfInBounds_self, if_pos hlt]

theorem automaton_ok (h : Deciding S r a k) (hd : d.number = S.number) : (Predict.automaton d).outcome r = (.ok a, r) := by
  rw [Predict.automaton, Run.outcome_get_bind, hd, h.automaton]
  rfl

theorem nodeAt_ok (h : Deciding S r a k) (hd : d.number = S.number) (hn : a.nodes[i]? = some n) :
    (nodeAt d i).outcome r = (.ok n, r) := by
  rw [nodeAt, outcome_bind_ok (h.automaton_ok hd), hn]
  rfl

theorem addNode (hch : S.chart.Distinct) (h : Deciding S r a k) (hd : d.number = S.number) {mv : Move}
    (hn : S.chart.Fits n mv) (hedges : n.edges = none) : (Predict.addNode d n).Ends r
      (fun i r' => ∃ b, Deciding S r' b k ∧ Grown a b ∧ S.chart.Reaches b (.node i) mv) E := by
  obtain ⟨hcharted, hgrown, hreaches⟩ := h.charted.addNode hch hn hedges
  rcases hadd : a.addNode n with ⟨b, i⟩
  rw [hadd] at hcharted hgrown hreaches
  refine .after (h.automaton_ok hd) ?_
  rw [hadd]
  refine (h.learn hcharted hd).bind fun _ r₁ h₁ => ?_
  dsimp only
  split
  · refine .after (printIf_quiet h₁.ready.quiet rfl _) (.of_ok (outcome_pure _ _) ?_)
    exact ⟨b, h₁, hgrown, hreaches⟩
  · exact .of_ok (outcome_pure _ _) ⟨b, h₁, hgrown, hreaches⟩

theorem connect (hch : S.chart.Distinct) (h : Deciding S r a k) (hd : d.number = S.number)
    (hn : a.nodes[i]? = some n) {t : Int} {target : Option Node} (htarget : S.chart.Answers target (S.chart.move n.content t)) :
    (Predict.connect d i t target).Ends r
      (fun g r' => ∃ b, Deciding S r' b k ∧ Grown a b ∧ S.chart.Reaches b g (S.chart.move n.content t)) E := by
  refine .after (printIf_quiet h.ready.quiet rfl _) (Run.Ends.bind (Q := fun g r' => ∃ b,
    Deciding S r' b k ∧ Grown a b ∧ S.chart.Reaches b g (S.chart.move n.content t)) ?_ ?_)
  · cases target with
    | none => exact .of_ok (outcome_pure _ _) ⟨a, h, .refl a, htarget⟩
    | some node =>
      refine (h.addNode hch hd htarget.1 htarget.2).bind fun j r₁ h₁ => .of_ok (outcome_pure _ _) h₁
  · rintro g r₁ ⟨b, h₁, hgrown, hreaches⟩
    refine .after_get ?_
    split
    · exact .of_ok (outcome_pure _ _) ⟨b, h₁, hgrown, hreaches⟩
    · obtain ⟨edges, hb⟩ := hgrown.2 i n hn
      obtain ⟨hcharted, hgrown'⟩ := h₁.charted.setEdge hb hreaches
      refine .after (h₁.automaton_ok hd) ((h₁.learn hcharted hd).bind fun _ r₂ h₂ => ?_)
      refine .after (printIf_quiet h₂.ready.quiet rfl _) (.of_ok (outcome_pure _ _) ?_)
      exact ⟨_, h₂, hgrown.trans hgrown', hreaches.grown hgrown'⟩

theorem merged (h : Deciding S r a k) {merger : Merger Unit} (hm : S.memory merger.memory) : Deciding S { r with merger } a k :=
  { h with ready := { h.ready with }, memory := hm }

theorem lax (h : Deciding S r a k) : Deciding S.lax r a k := { h with memory := trivial }

theorem strict (h : Deciding S.lax r a k) (hm : S.memory r.merger.memory) : Deciding S r a k :=
  { h with memory := hm }

/-- A token leads where the chart says, whether the automaton knows it or not. -/
theorem edgeTarget (hS : S.Rules d levels) (h : Deciding S r a k)
    (hn : a.nodes[i]? = some n) (hknown : S.chart.known n.content) (t : Int) :
    (Predict.edgeTarget d i t).Ends r
      (fun g r' => ∃ b, Deciding S.lax r' b k ∧ Grown a b ∧ S.chart.Reaches b g (S.chart.move n.content t) ∧
        ∀ s, S.chart.move n.content t = .on s → S.memory r'.merger.memory) E := by
  refine .after (h.nodeAt_ok hS.number hn) ?_
  split
  · rename_i g hg
    exact .of_ok (outcome_pure _ _) ⟨a, h.lax, .refl a, h.charted.edges i n t g hn hknown hg, fun _ _ => h.memory⟩
  · obtain ⟨node, merger, htarget, hmemory, hanswers⟩ := hS.lawful.targets d r rfl hS.byPrecedence h.ready.net h.ready.mode
      h.ready.quiet h.memory n.content t hknown
    refine .after (h.nodeAt_ok hS.number hn) (.after htarget ?_)
    -- the memory is kept by what is left: adding a node and an edge
    by_cases hon : ∃ s, S.chart.move n.content t = .on s
    · obtain ⟨s, hs⟩ := hon
      refine (connect hS.lawful.distinct (h.merged (hmemory s hs)) hS.number hn hanswers).imp ?_ fun _ _ => id
      rintro g r' ⟨b, h', hgrown, hreaches⟩
      exact ⟨b, h'.lax, hgrown, hreaches, fun _ _ => h'.memory⟩
    · refine (connect (S := S.lax) hS.lawful.distinct (h.lax.merged trivial) hS.number hn hanswers).imp ?_ fun _ _ => id
      rintro g r' ⟨b, h', hgrown, hreaches⟩
      exact ⟨b, h', hgrown, hreaches, fun s hs => absurd ⟨s, hs⟩ hon⟩

/-- The act answers as `P` says, and the decision goes on. -/
def Answers (S : Setting) (P : Int → Prop) (act : Act Int) (r : Recogniser) : Prop :=
  act.Ends r (fun alt r' => P alt ∧ ∃ b k', Deciding S.lax r' b k') fun _ _ => True

/-- The automaton leads where the chart walks, and what comes there is all that comes. -/
theorem run (hS : S.Rules d levels) (callers : Option Callers) {P : Int → Prop}
    {k' : Nat} (hwalk : S.chart.Walks S.tape.type s k s' k') (hstop : ∀ s'', S.chart.move s' (S.tape.type k') ≠ .on s'')
    (hsure : ∀ alts, S.chart.move s' (S.tape.type k') ≠ .splits alts)
    (hstuck : S.chart.move s' (S.tape.type k') = .stuck → ∀ r' b, Deciding S.lax r' b k' →
      Answers S P (Predict.deadEnd d callers s') r')
    (hpicks : ∀ alt, S.chart.move s' (S.tape.type k') = .picks alt → ∀ r' b n, Deciding S.lax r' b k' →
      S.chart.Fits n (.picks alt) → Answers S P (Predict.accept d callers n) r')
    {fuel : Nat} (hfuel : k' < k + fuel) (h : Deciding S r a k)
    (hn : a.nodes[i]? = some n) (hs : n.content = s) (hknown : S.chart.known s) :
    Answers S P (runAutomaton d callers fuel i (S.tape.type k)) r := by
  induction hwalk generalizing fuel r a i n with
  | here s k =>
    obtain ⟨fuel, rfl⟩ : ∃ m, fuel = m + 1 := ⟨fuel - 1, by omega⟩
    subst hs
    refine (h.edgeTarget hS hn hknown _).bind ?_
    rintro g r₁ ⟨b, h₁, hgrown, hreaches, -⟩
    cases g with
    | error =>
      obtain ⟨edges, hb⟩ := hgrown.2 i n hn
      refine .after (h₁.nodeAt_ok hS.number hb) ?_
      exact hstuck hreaches r₁ b h₁
    | node j =>
      obtain ⟨n', hn', hfits⟩ := hreaches
      refine .after (h₁.nodeAt_ok hS.number hn')
        (.after_get ?_)
      cases hmove : S.chart.move n.content (S.tape.type k) with
      | stuck =>
        rw [hmove] at hfits
        exact hfits.elim
      | on s'' => exact absurd hmove (hstop s'')
      | picks alt =>
        rw [hmove] at hfits
        rw [if_neg (by simp [hfits.2.2.2.1]), if_pos hfits.2.2.1]
        exact hpicks alt hmove r₁ b n' h₁ hfits
      | splits alts => exact absurd hmove (hsure alts)
  | @on s s₁ s'' k k'' hmove hne hwalk ih =>
    have hle := hwalk.le
    obtain ⟨fuel, rfl⟩ : ∃ m, fuel = m + 1 := ⟨fuel - 1, by omega⟩
    subst hs
    refine (h.edgeTarget hS hn hknown _).bind ?_
    rintro g r₁ ⟨b, hlax, hgrown, hreaches, hmemory⟩
    have h₁ := hlax.strict (hmemory s₁ hmove)
    rw [hmove] at hreaches
    cases g with
    | error => cases hreaches
    | node j =>
      obtain ⟨n', hn', hcontent, hknown', haccepts, hfull⟩ := hreaches
      refine .after (h₁.nodeAt_ok hS.number hn')
        (.after_get ?_)
      rw [if_neg (by simp [hfull]), if_neg (by simp [haccepts])]
      refine (h₁.advance hne).bind ?_
      rintro _ r₂ ⟨rfl, h₂⟩
      exact ih hstop hsure hstuck hpicks (by omega) h₂ hn' hcontent hknown'

/-! ## From the start -/

theorem setStart (h : Deciding S r a k) (hd : d.number = S.number) {start : Start} (hstart : S.chart.Rooted { a with start }) :
    (setAutomaton d { a with start }).Ends r (fun _ r' => Deciding S r' { a with start } k) E :=
  h.learn ⟨hstart, h.charted.nodes, h.charted.edges⟩ hd

theorem precedence_eq (hr : Ready S.net S.level r) : r.precedence = S.level := by
  have hlevel := hr.level
  unfold Recogniser.precedence
  cases hp : r.precedences with
  | nil =>
    rw [hp] at hlevel
    cases hlevel
  | cons p rest =>
    rw [hp] at hlevel
    exact Option.some.inj hlevel

theorem addStart (hS : S.Rules d levels) (h : Deciding S r a k) (hs : s = S.chart.start S.level) :
    (Predict.addNode d { content := s }).Ends r (fun i r' => ∃ b n, Deciding S r' b k ∧ b.start = a.start ∧
      b.nodes[i]? = some n ∧ n.content = s) E := by
  have hfits : S.chart.Fits { content := s } (.on s) := ⟨rfl, hs ▸ hS.lawful.known _ hS.level, rfl, rfl⟩
  refine (h.addNode hS.lawful.distinct hS.number hfits rfl).imp ?_ fun _ _ h => h
  rintro i r' ⟨b, h', hgrown, n, hn, hfits⟩
  exact ⟨b, n, h', hgrown.1, hn, hfits.1⟩

theorem starts_of_levels {a : Automaton ConfigSet} (h : a.isPrecedence = true) : ∃ nodes, a.start = .byPrecedence nodes := by
  unfold Automaton.isPrecedence at h
  split at h
  · exact ⟨_, ‹_›⟩
  · cases h

theorem rooted_level {ch : Chart} {b : Automaton ConfigSet} (hb : ch.Rooted b) {nodes : List (Option Int)}
    (hnodes : b.start = .byPrecedence nodes) (hp : ch.byPrecedence = true) {p i : Nat} {n : Node} (hn : b.nodes[i]? = some n)
    (hcontent : n.content = ch.start p) :
    ch.Rooted { b with start := .byPrecedence ((nodes ++ List.replicate (p + 1 - nodes.length) none).set p (some (i : Int))) } := by
  refine ⟨hp.symm, ?_, ?_⟩
  · rintro k hk
    cases hk
  rintro _ hstart q k hk
  cases hstart
  by_cases hq : q = p
  · subst hq
    rw [List.getElem?_set_self (by simp; omega)] at hk
    cases hk
    exact ⟨n, hn, hcontent⟩
  · rw [List.getElem?_set_ne (Ne.symm hq), List.getElem?_append] at hk
    split at hk
    · exact hb.levels nodes hnodes q k hk
    · rw [List.getElem?_replicate] at hk
      split at hk <;> cases hk

/-- The node begins with the set of the chart. -/
def Started (S : Setting) (k : Nat) (x : Nat × Option Callers) (r : Recogniser) : Prop :=
  ∃ b n, Deciding S r b k ∧ b.nodes[x.1]? = some n ∧ n.content = S.chart.start S.level

section

variable (h : Deciding S r a k) (hmemory : r.merger.memory = none) (callers : Option Callers)
include h hmemory

theorem startNode_single (hS : S.Rules d levels) (hp : S.chart.byPrecedence = false) :
    (Predict.startNode d callers).Ends r (Started S k) E := by
  have hdp : ¬d.byPrecedence = true := by rw [hS.byPrecedence, hp]; decide
  refine .after_get (.after (h.automaton_ok hS.number) ?_)
  rw [if_neg hdp]
  refine Run.Ends.bind (Q := fun known r' => r' = r ∧ ∀ i, known = some i → a.start = .node i) ?_ ?_
  · split
    · rename_i i hi
      refine .of_ok (outcome_pure _ _) ⟨rfl, fun j hj => ?_⟩
      rw [hi, Option.some.inj hj]
    · exact .of_ok (outcome_pure _ _) ⟨rfl, nofun⟩
  rintro known _ ⟨rfl, hknown⟩
  cases known with
  | some i =>
    obtain ⟨n, hn, hcontent⟩ := h.charted.rooted.single i (hknown i rfl)
    exact .of_ok (outcome_pure _ _) ⟨a, n, h, hn, hcontent _⟩
  | none =>
    obtain ⟨s, merger, hset, hafter, hstart, -⟩ := hS.lawful.starts d _ rfl hS.byPrecedence h.ready.net h.ready.mode h.ready.quiet
      hmemory S.level hS.level h.ready.level
    refine .after (printIf_quiet h.ready.quiet rfl _) (.after hset ?_)
    rw [if_neg hdp]
    refine ((h.merged hafter).addStart hS (hstart hp S.level)).bind ?_
    rintro i r₁ ⟨b, n, h₁, -, hn, hcontent⟩
    refine .after (h₁.automaton_ok hS.number) ((h₁.setStart hS.number ⟨?_, ?_, ?_⟩).bind fun _ r₂ h₂ => ?_)
    · exact hp.symm
    · rintro j hj
      cases hj
      exact ⟨n, hn, fun p => hcontent.trans (hstart hp p)⟩
    · rintro nodes hnodes
      cases hnodes
    · exact .of_ok (outcome_pure _ _) ⟨_, n, h₂, hn, hcontent.trans (hstart hp _)⟩

theorem startNode_byPrecedence (hS : S.Rules d levels) (hp : S.chart.byPrecedence = true) :
    (Predict.startNode d callers).Ends r (Started S k) E := by
  have hdp : d.byPrecedence = true := hS.byPrecedence.trans hp
  obtain ⟨s, merger, hset, -, -, hfilter⟩ := hS.lawful.starts d _ rfl hS.byPrecedence h.ready.net h.ready.mode h.ready.quiet
    hmemory S.level hS.level h.ready.level
  obtain ⟨hnonneg, merger', hfiltered, hafter⟩ := hfilter hp
  obtain ⟨nodes, hnodes⟩ := starts_of_levels (h.charted.rooted.kind.trans hp)
  obtain ⟨p, hlevel⟩ : ∃ p : Nat, S.level = p := ⟨S.level.toNat, by omega⟩
  refine .after_get (.after (h.automaton_ok hS.number) ?_)
  rw [if_pos hdp, precedence_eq h.ready]
  have hstarts : ∀ b : Automaton ConfigSet, b.start = a.start → b.precedenceStart S.level = .ok (nodes[p]?).join := by
    intro b hb
    rw [Automaton.precedenceStart, hb, hnodes, hlevel]
    dsimp only
    rw [if_neg (by omega)]
    rfl
  rw [hstarts a rfl]
  refine .after (outcome_bind_ok (Run.outcome_lift _ _) _) ?_
  cases hknown : (nodes[p]?).join with
  | some i =>
    obtain ⟨n, hn, hcontent⟩ := h.charted.rooted.levels nodes hnodes p i hknown
    exact .of_ok (outcome_pure _ _) ⟨a, n, h, hn, hlevel ▸ hcontent⟩
  | none =>
    refine .after (printIf_quiet h.ready.quiet rfl _) (.after hset ?_)
    rw [if_pos hdp]
    refine .after hfiltered (((h.merged hafter).addStart hS rfl).bind ?_)
    rintro i r₁ ⟨b, n, h₁, hsame, hn, hcontent⟩
    have hset : b.setPrecedenceStart S.level i = .ok { b with
        start := .byPrecedence ((nodes ++ List.replicate (p + 1 - nodes.length) none).set p (some (i : Int))) } := by
      rw [Automaton.setPrecedenceStart, hsame, hnodes, hlevel]
      dsimp only
      rw [if_neg (by omega)]
      rfl
    have hrooted := rooted_level h₁.charted.rooted (hsame.trans hnodes) hp hn (hlevel ▸ hcontent)
    refine .after (h₁.automaton_ok hS.number) ?_
    rw [hset]
    refine .after (Run.outcome_lift _ _) ((h₁.setStart hS.number hrooted).bind fun _ r₂ h₂ => ?_)
    exact .of_ok (outcome_pure _ _) ⟨_, n, h₂, hn, hcontent⟩

/-- A decision starts from the set of the chart, without levels or by levels. -/
theorem startNode (hS : S.Rules d levels) : (Predict.startNode d callers).Ends r (Started S k) E := by
  cases hp : S.chart.byPrecedence with
  | false => exact h.startNode_single hmemory callers hS hp
  | true => exact h.startNode_byPrecedence hmemory callers hS hp

end

/-- A decision goes where the chart walks from its start. -/
theorem decide (hS : S.Rules d levels) {P : Int → Prop} {k' : Nat}
    (hwalk : S.chart.Walks S.tape.type (S.chart.start S.level) k s' k')
    (hstop : ∀ s'', S.chart.move s' (S.tape.type k') ≠ .on s'') (hsure : ∀ alts, S.chart.move s' (S.tape.type k') ≠ .splits alts)
    (hstuck : S.chart.move s' (S.tape.type k') = .stuck → ∀ callers r' b, Deciding S.lax r' b k' →
      Answers S P (Predict.deadEnd d callers s') r')
    (hpicks : ∀ alt, S.chart.move s' (S.tape.type k') = .picks alt → ∀ callers r' b n, Deciding S.lax r' b k' →
      S.chart.Fits n (.picks alt) → Answers S P (Predict.accept d callers n) r')
    (hfuel : ∀ r' b, Deciding S r' b k → k' < k + (r'.stream.walkFuel r'.stream.index + 2)) (h : Deciding S r a k)
    (hmemory : r.merger.memory = none) : Answers S P (runDecision d) r := by
  refine (h.startNode hmemory d.callers hS).bind ?_
  rintro ⟨i, callers⟩ r₁ ⟨b, n, h₁, hn, hcontent⟩
  refine .after (printIf_quiet h₁.ready.quiet rfl _)
    (.after (printIf_quiet h₁.ready.quiet rfl _) (h₁.look.bind ?_))
  rintro _ r₂ ⟨rfl, h₂⟩
  refine .after (Run.outcome_get_bind _ r₂) ?_
  refine (h₂.run hS callers hwalk hstop hsure (fun hs => hstuck hs callers) (fun alt hs => hpicks alt hs callers) (hfuel r₂ b h₂)
    hn hcontent ?_).bind ?_
  · exact hS.lawful.known _ hS.level
  · rintro alt r₃ ⟨hP, b', k'', h₃⟩
    exact .after (printIf_quiet h₃.ready.quiet rfl _)
      (.of_ok (outcome_pure _ _) ⟨hP, b', k'', h₃⟩)

end Deciding

/-! ## What a decision leaves -/

/-- After a decision at place `k` the stream stands there again, no merges are remembered, and what was learnt agrees with the
chart. -/
structure Concluded (S : Setting) (r : Recogniser) (k : Nat) (r' : Recogniser) : Prop where
  drift : Drift S.number r r'
  index : r'.stream.index = k
  memory : r'.merger.memory = none
  learnt : ∃ a, r'.automata[S.number]? = some a ∧ S.chart.Charted a

namespace Deciding

variable {S : Setting} {r r₁ : Recogniser} {a b : Automaton ConfigSet} {k k' : Nat} {E : Fault → Recogniser → Prop}

theorem concluded {t : Token} (hs : Standing S.tape r.stream k t) (hd : Drift S.number r r₁) (h : Deciding S.lax r₁ b k') :
    (conclude k).Ends r₁ (fun _ => Concluded S r k) E := by
  refine .after_modify ?_
  have hstream := hd.stream S.tape hs.reading
  have hseek := onStream_ok (r := { r₁ with merger := { r₁.merger with memory := none } }) h.ready.attached
    (seek_inside hstream.reading (hstream.token hs.token))
  exact .of_ok hseek ⟨(seek_drifts k _ (hd.merged _)).ok hseek, rfl, rfl, b, h.automaton, h.charted⟩

/-- What the run of a decision answers is what is chosen. -/
theorem choose (h : Deciding S r a k) {P : Int → Prop} (callers : Option Callers)
    (hrun : Answers S P (runDecision (Decision.begun r S.number callers)) r) :
    (Predict.choose S.number callers).Ends r (fun alt r' => Concluded S r k r' ∧ P alt) fun _ => Drift S.number r := by
  obtain ⟨t, ht⟩ := h.standing
  have hn : Indexing.wrap? r.automata.size (S.number : Int) = some S.number :=
    TokenStream.wrap?_inside (Array.getElem?_eq_some_iff.mp h.automaton).1
  have hanswer : (Predict.choose S.number callers).Ends r (fun alt r' => Concluded S r k r' ∧ P alt) fun _ _ => True := by
    refine .of_outcome (choose_quiet h.ready.quiet hn callers) ?_
    refine (hrun.and (runDecision_drifts (a := r) r (.refl _ r))).always ?_ fun _ r' _ => .trivial _ r'
    rintro alt r' ⟨⟨hP, b, k', h'⟩, hdrift⟩
    rw [ht.index]
    exact (concluded ht hdrift h').imp (fun _ _ h => ⟨h, hP⟩) fun _ _ => id
  exact ((choose_returns h.ready.quiet h.ready.attached hn ht callers).and hanswer).imp (fun _ _ h => h.2) fun _ _ h => h.1.1

end Deciding

end Predict

end NimbleLang
