import Mathlib.Logic.Relation
import NimbleLang.Network.Lookahead
import NimbleLang.Proofs.Checks
import NimbleLang.Proofs.Intervals

/-!
What a memory of lookahead sets goes through. A set is remembered when it is first asked for (`Memory.Step.fill`); the set
of a loop's back state may be joined later with sets that recovery has gathered (`Memory.Step.enlarge`). Nothing else ever
happens to a memory. So what is remembered of a state is what can come next there, and at the back states of loops at least
that (`Memory.Faithful`).

A look is taken apart here into what it does at one state and along one edge (`lookFrom_succ`, `visit`). Where edges are written
as one does it, the sets it finds are in order (`look_tidy`), and so are all that are remembered (`Memory.Tidy`).
-/

namespace NimbleLang

open IntervalSet (addSet_tidy proper_empty proper_iff_tidy tidy_empty)

/-- The back state of a loop. -/
def State.endsLoop (s : State) : Bool := s.kind = .starLoopBack || s.kind = .plusLoopBack

namespace Edge

/-- Edges that are taken without a symbol and within the rule. -/
def free : Edge → Bool
  | .epsilon .. | .predicate .. | .action .. | .precedence .. => true
  | _ => false

/-- An edge is a call, or free, or has symbols. -/
theorem kinds (e : Edge) : (∃ t r p f, e = .call t r p f) ∨ e.free = true ∨ e.isEpsilon = false := by
  cases e <;> simp [free, isEpsilon]

theorem isEpsilon_of_free {e : Edge} (h : e.free = true) : e.isEpsilon = true := by
  cases e <;> first | rfl | cases h

theorem admits_of_isEpsilon {e : Edge} (h : e.isEpsilon = true) (symbol lo hi : Int) : e.admits symbol lo hi = false := by
  cases e <;> first | rfl | cases h

end Edge

namespace Lookahead

open Fault

/-! ## The history of a memory -/

/-- Sets of which recovery may stop at each element. -/
def gather (sets : List IntervalSet) : IntervalSet :=
  (sets.foldl (fun s f => s.addSet f) IntervalSet.empty).removeOne Token.epsilon

namespace Memory

/-- A set that is remembered of some state, or can be. -/
def Known (net : Network) (m : Memory) (set : IntervalSet) : Prop :=
  ∃ n, m.getD n none = some set ∨ look net n none none = .ok set

/-- All that can happen to a memory. -/
inductive Step (net : Network) : Memory → Memory → Prop
  /-- A set is asked for the first time. -/
  | fill {m : Memory} {n : Nat} {set : IntervalSet} : m.getD n none = none → look net n none none = .ok set →
      Step net m (m.setIfInBounds n (some set))
  /-- The set of a loop's back state is joined with what recovery has gathered. -/
  | enlarge {m : Memory} {n : Nat} {set : IntervalSet} {sets : List IntervalSet} : (net.state n).endsLoop = true →
      m.getD n none = some set → (∀ f ∈ sets, Known net m f) → Step net m (m.setIfInBounds n (some (set.addSet (gather sets))))

/-- What a memory may have become after some steps. -/
abbrev History (net : Network) : Memory → Memory → Prop := Relation.ReflTransGen (Step net)

theorem getD_setIfInBounds (m : Memory) (n k : Nat) (entry : Option IntervalSet) :
    (m.setIfInBounds n entry).getD k none = if n = k ∧ n < m.size then entry else m.getD k none := by
  rw [Array.getD_eq_getD_getElem?, Array.getD_eq_getD_getElem?, Array.getElem?_setIfInBounds]
  by_cases hk : n = k
  · subst hk
    by_cases hn : n < m.size
    · simp [hn]
    · simp [hn]
  · simp [hk]

/-- A memory that holds at least what another one holds. -/
structure Grows (net : Network) (m m' : Memory) : Prop where
  history : History net m m'
  kept : ∀ k set, m.getD k none = some set → m'.getD k none = some set
  size : m'.size = m.size

variable {net : Network} {m m' : Memory} {n : Nat} {set : IntervalSet}

theorem Grows.refl (net : Network) (m : Memory) : Grows net m m := ⟨.refl, fun _ _ h => h, rfl⟩

theorem Grows.trans {m'' : Memory} (h : Grows net m m') (h' : Grows net m' m'') : Grows net m m'' :=
  ⟨h.history.trans h'.history, fun k set hk => h'.kept k set (h.kept k set hk), h'.size.trans h.size⟩

theorem Known.grows (h : Known net m set) (hm : Grows net m m') : Known net m' set := by
  obtain ⟨n, hn | hn⟩ := h
  · exact ⟨n, .inl (hm.kept n set hn)⟩
  · exact ⟨n, .inr hn⟩

end Memory

open Memory

variable {net : Network} {m m' : Memory} {n : Nat} {set : IntervalSet}

/-- Asking for a set fills the memory at most. The set is remembered, unless the memory has no room for the state. -/
theorem next_grows (h : next net m n = .ok (set, m')) :
    Grows net m m' ∧ Known net m' set ∧ (m'.getD n none = some set ∨ m'.size ≤ n) := by
  unfold next at h
  split at h
  · rename_i set' hset
    cases h
    exact ⟨.refl net m, ⟨n, .inl hset⟩, .inl hset⟩
  · rename_i hnone
    obtain ⟨set', hlook, hrest⟩ := bind_eq_ok.1 h
    cases hrest
    refine ⟨⟨.single (.fill hnone hlook), ?_, Array.size_setIfInBounds⟩, ⟨n, .inr hlook⟩, ?_⟩
    · intro k old hk
      rw [getD_setIfInBounds, if_neg, hk]
      rintro ⟨rfl, -⟩
      rw [hnone] at hk
      cases hk
    · rw [getD_setIfInBounds, Array.size_setIfInBounds]
      by_cases hn : n < m.size
      · exact .inl (if_pos ⟨rfl, hn⟩)
      · exact .inr (by omega)

theorem expectedLoop_grows {cs : Callers} {wanted following : IntervalSet} {atEnd : Bool}
    (h : expectedLoop net cs wanted following m = .ok (set, atEnd, m')) : Grows net m m' := by
  induction cs generalizing wanted following m with
  | nil =>
    cases h
    exact .refl net _
  | cons c rest ih =>
    unfold expectedLoop at h
    split at h
    · cases h
      exact .refl net _
    obtain ⟨invoking, -, h⟩ := bind_eq_ok.1 h
    split at h
    · cases h
      exact .refl net _
    obtain ⟨follow, -, h⟩ := bind_eq_ok.1 h
    obtain ⟨⟨s, m₁⟩, hnext, h⟩ := bind_eq_ok.1 h
    exact (next_grows hnext).1.trans (ih h)

/-- The expected tokens are the remembered set of the state itself, if that is what the flag says. -/
theorem expected_grows {state : Int} {cs : Callers} {own : Bool} (h : expected net m state cs = .ok (set, own, m')) :
    Grows net m m' ∧ 0 ≤ state ∧ state < net.states.size ∧
      (own = true → m'.getD state.toNat none = some set ∨ m'.size ≤ state.toNat) := by
  unfold expected at h
  split at h
  · cases h
  rename_i hstate
  simp only [Bool.or_eq_true, decide_eq_true_eq, not_or, Int.not_lt, Int.not_le] at hstate
  obtain ⟨⟨s, m₁⟩, hnext, h⟩ := bind_eq_ok.1 h
  obtain ⟨hgrows, -, hset⟩ := next_grows hnext
  dsimp only at h
  split at h
  · cases h
    exact ⟨hgrows, hstate.1, by omega, fun _ => hset⟩
  obtain ⟨⟨s', atEnd, m₂⟩, hloop, h⟩ := bind_eq_ok.1 h
  cases h
  exact ⟨hgrows.trans (expectedLoop_grows hloop), hstate.1, by omega, nofun⟩

/-! ## Sets that are found -/

/-- An edge whose symbols are plainly written: a token, or a span or a set of tokens. -/
def plainEdge : Edge → Bool
  | .range _ lo hi => lo ≤ hi
  | .set _ l => decide l.Proper
  | .notSet _ _ | .wildcard _ => false
  | _ => true

/-- A network whose edges are all plainly written. -/
def Plain (net : Network) : Prop := ∀ s ∈ net.states, ∀ e ∈ s.edges, plainEdge e = true

variable {e : Edge} {stop : Option Nat} {ctx : Context Unit} {rules : List Int} {found found' : Found}
  {callers : Option Callers} {sets : List IntervalSet}

theorem Plain.edge (h : Plain net) (he : e ∈ (net.state n).edges) : plainEdge e = true := by
  unfold Network.state at he
  rw [Array.getD_eq_getD_getElem?] at he
  cases hs : net.states[n]? with
  | none =>
    rw [hs] at he
    cases he
  | some s =>
    rw [hs] at he
    exact h s (Array.mem_of_getElem? hs) e he

theorem label_proper (h : plainEdge e = true) : (e.label?.getD {}).Proper := by
  cases e with
  | atom target label => exact IntervalSet.addOne_proper proper_empty label
  | range target lo hi =>
    have hle := of_decide_eq_true h
    refine IntervalSet.addRange_proper proper_empty ?_
    dsimp only
    omega
  | set target l =>
    have hproper : l.Proper := of_decide_eq_true h
    exact hproper
  | notSet => cases h
  | epsilon | call | predicate | action | wildcard | precedence => exact proper_empty

theorem foldlM_keeps {α β : Type} {P : β → Prop} {f : β → α → Except Fault β} {l : List α}
    (h : ∀ b, ∀ a ∈ l, P b → ∀ b', f b a = .ok b' → P b') {b b' : β} (hb : P b) (hl : l.foldlM f b = .ok b') : P b' := by
  induction l generalizing b with
  | nil =>
    cases hl
    exact hb
  | cons a l ih =>
    rw [List.foldlM_cons] at hl
    obtain ⟨c, hc, hl⟩ := bind_eq_ok.1 hl
    refine ih ?_ (h b a List.mem_cons_self hb c hc) hl
    intro b a ha
    exact h b a (List.mem_cons_of_mem _ ha)

/-- The symbols that an edge adds to a lookahead set. -/
def symbols (net : Network) : Edge → Except Fault IntervalSet
  | .wildcard _ => .ok (IntervalSet.empty.addRange ⟨1, net.maxTokenType + 1⟩)
  | .notSet _ label => label.complement 1 net.maxTokenType
  | e => .ok (e.label?.getD {})

namespace Found

def mark (found : Found) (n : Nat) (ctx : Context Unit) : Found := { found with seen := (n, ctx) :: found.seen }

def add (found : Found) (set : IntervalSet) : Found := { found with set := found.set.addSet set }

end Found

/-- What is found along an edge. -/
def visit (net : Network) (stop : Option Nat) (fuel : Nat) (ctx : Context Unit) (rules : List Int) (found : Found) :
    Edge → Except Fault Found
  | .call target _ _ follow =>
    if rules.contains (net.state target).rule then .ok found
    else lookFrom net stop fuel target (.atop () ctx follow) ((net.state target).rule :: rules) found
  | .epsilon target _ | .action target _ _ _ | .predicate target _ _ _ | .precedence target _ =>
    lookFrom net stop fuel target ctx rules found
  | e => do return found.add (← symbols net e)

theorem visit_free {fuel : Nat}
    (he : e.free = true) : visit net stop fuel ctx rules found e = lookFrom net stop fuel e.target ctx rules found := by
  cases e <;> first | rfl | cases he

theorem visit_symbols {stop : Option Nat} {fuel : Nat} {ctx : Context Unit} {rules : List Int} {found : Found} {e : Edge}
    (he : e.isEpsilon = false) : visit net stop fuel ctx rules found e = do return found.add (← symbols net e) := by
  cases e <;> first | rfl | cases he

/-- What is found on a way down. -/
def retrace (net : Network) (stop : Option Nat) (fuel : Nat) (rules : List Int) (found : Found) (way : Context Unit × Int) :
    Except Fault Found := do
  let back ← Fault.outOfRange.unless (Indexing.wrap? net.states.size way.2)
  lookFrom net stop fuel back way.1 rules found

theorem lookFrom_succ (net : Network) (stop : Option Nat) (fuel n : Nat) (ctx : Context Unit) (rules : List Int) (found : Found) :
    lookFrom net stop (fuel + 1) n ctx rules found =
      if found.seen.contains (n, ctx) then .ok found
      else if (some n = stop || (net.state n).kind = .ruleStop) && ctx = .unknown then
        .ok { found.mark n ctx with set := found.set.addOne Token.epsilon }
      else if (some n = stop || (net.state n).kind = .ruleStop) && ctx.isEmpty then
        .ok { found.mark n ctx with set := found.set.addOne Token.eof }
      else if (net.state n).kind = .ruleStop then
        ctx.ways.foldlM (retrace net stop fuel (rules.erase (net.state n).rule)) (found.mark n ctx)
      else (net.edgesOf n).foldlM (visit net stop fuel ctx rules) (found.mark n ctx) := by
  rw [lookFrom]
  by_cases hseen : found.seen.contains (n, ctx) = true
  · rw [if_pos hseen, if_pos hseen]
    rfl
  rw [if_neg hseen, if_neg hseen]
  dsimp only
  by_cases hunknown : ((some n = stop || (net.state n).kind = .ruleStop) && ctx = .unknown) = true
  · rw [if_pos hunknown, if_pos hunknown]
    rfl
  rw [if_neg hunknown, if_neg hunknown]
  by_cases hempty : ((some n = stop || (net.state n).kind = .ruleStop) && ctx.isEmpty) = true
  · rw [if_pos hempty, if_pos hempty]
    rfl
  rw [if_neg hempty, if_neg hempty]
  by_cases hstop : (net.state n).kind = .ruleStop
  · rw [if_pos hstop, if_pos hstop]
    rfl
  rw [if_neg hstop, if_neg hstop]
  refine congrArg (fun f => List.foldlM f (found.mark n ctx) (net.edgesOf n)) ?_
  funext found e
  cases e <;> rfl

/-- What marking a place keeps, and adding the end or the symbols of an edge, a look keeps. -/
theorem lookFrom_keeps {Q : Found → Prop} (hmark : ∀ f n ctx, Q f → Q (f.mark n ctx))
    (hone : ∀ (f : Found) x, Q f → Q { f with set := f.set.addOne x })
    (hset : ∀ (f : Found) n, ∀ e ∈ net.edgesOf n, ∀ set, symbols net e = .ok set → Q f → Q (f.add set))
    {fuel n : Nat} (hfound : Q found)
    (h : lookFrom net stop fuel n ctx rules found = .ok found') : Q found' := by
  induction fuel generalizing n ctx rules found found' with
  | zero => cases h
  | succ fuel ih =>
    rw [lookFrom_succ] at h
    split at h
    · cases h
      exact hfound
    have hmarked := hmark found n ctx hfound
    split at h
    · cases h
      exact hone _ _ hmarked
    split at h
    · cases h
      exact hone _ _ hmarked
    split at h
    · refine foldlM_keeps ?_ hmarked h
      rintro f way - hf f' hf'
      obtain ⟨back, -, hf'⟩ := bind_eq_ok.1 hf'
      exact ih hf hf'
    · refine foldlM_keeps ?_ hmarked h
      intro f e he hf f' hf'
      rcases e.kinds with ⟨target, rule, precedence, follow, rfl⟩ | hfree | hsymbols
      · rw [visit] at hf'
        split at hf'
        · cases hf'
          exact hf
        · exact ih hf hf'
      · rw [visit_free hfree] at hf'
        exact ih hf hf'
      · rw [visit_symbols hsymbols] at hf'
        obtain ⟨set, hset', hf'⟩ := bind_eq_ok.1 hf'
        cases hf'
        exact hset f n e he set hset' hf

/-- A network each of whose edges has its symbols written in spans that are not backwards, and empty only where `P` holds. -/
def Legible (P : Int → Prop) (net : Network) : Prop :=
  ∀ n, ∀ e ∈ net.edgesOf n, ∃ set, symbols net e = .ok set ∧ set.Upright P

theorem Plain.legible {P : Int → Prop} (h : Plain net) : Legible P net := by
  intro n e he
  have hplain := h.edge he
  have hlabel : (e.label?.getD {}).Upright P := (label_proper hplain).tidy.upright
  cases e with
  | notSet | wildcard => cases hplain
  | epsilon | range | call | predicate | atom | action | set | precedence => exact ⟨_, rfl, hlabel⟩

/-- The symbols of an edge are written as a range that is not empty or as a set in order, and what an edge excludes is a set of
token types. -/
def written (net : Network) : Edge → Prop
  | .range _ lo hi => lo ≤ hi
  | .set _ l => l.Proper
  | .notSet _ l => l.Proper ∧ l.spans.isSome = true ∧ ∀ t, l.contains t = true → t ≠ 0 ∧ t ≤ net.maxTokenType
  | _ => True

structure Written (net : Network) : Prop where
  limit : 0 ≤ net.maxTokenType
  edge : ∀ n, ∀ e ∈ net.edgesOf n, written net e

theorem written_of_plain (h : plainEdge e = true) : written net e := by
  cases e with
  | range target lo hi =>
    have hle : lo ≤ hi := of_decide_eq_true h
    exact hle
  | set target l =>
    have hl : l.Proper := of_decide_eq_true h
    exact hl
  | notSet => cases h
  | atom | epsilon | call | predicate | action | precedence | wildcard => trivial

/-- What is left where an edge excludes token types may be empty, but then begins above zero. -/
theorem Written.legible (h : Written net) : Legible (0 < ·) net := by
  have hlimit := h.limit
  intro n e he
  have hwritten := h.edge n e he
  cases e with
  | wildcard target =>
    refine ⟨_, rfl, IntervalSet.Tidy.upright (IntervalSet.addRange_tidy tidy_empty ?_)⟩
    exact ⟨by dsimp only; omega, fun _ => by dsimp only; omega⟩
  | notSet target l => exact IntervalSet.complement_upright hlimit hwritten.1 hwritten.2.1 hwritten.2.2
  | range target lo hi =>
    have hle : lo ≤ hi := hwritten
    exact ⟨_, rfl, (label_proper (e := .range target lo hi) (decide_eq_true hle)).tidy.upright⟩
  | set target l =>
    have hl : l.Proper := hwritten
    exact ⟨_, rfl, hl.tidy.upright⟩
  | atom | epsilon | call | predicate | action | precedence => exact ⟨_, rfl, (label_proper rfl).tidy.upright⟩

theorem lookFrom_tidy {P : Int → Prop} (hnet : Legible P net) {fuel n : Nat}
    (hfound : found.set.Tidy P)
    (h : lookFrom net stop fuel n ctx rules found = .ok found') : found'.set.Tidy P := by
  refine lookFrom_keeps (Q := fun f => f.set.Tidy P) ?_ ?_ ?_ hfound h
  · intro f n ctx hf
    exact hf
  · intro f x hf
    exact IntervalSet.addOne_tidy hf x
  · intro f n e he set hsymbols hf
    obtain ⟨set', hsymbols', hupright⟩ := hnet n e he
    rw [hsymbols] at hsymbols'
    cases hsymbols'
    exact addSet_tidy hf hupright

/-- What a look comes to: what is found from the state in the context of the callers. -/
theorem look_eq_ok : look net n stop callers = .ok set ↔
    ∃ ctx found, callers.elim (.ok .unknown) (Callers.context net) = .ok ctx ∧
      lookFrom net stop (places net ctx + 1) n ctx [] {} = .ok found ∧ found.set = set := by
  have hlook : look net n stop callers = do
      let ctx ← callers.elim (.ok .unknown) (Callers.context net)
      let found ← lookFrom net stop (places net ctx + 1) n ctx [] {}
      return found.set := by
    cases callers <;> rfl
  rw [hlook]
  constructor
  · intro h
    obtain ⟨ctx, found, hctx, hfound, h⟩ := bind_bind_eq_ok.1 h
    exact ⟨ctx, found, hctx, hfound, Except.ok.inj h⟩
  · rintro ⟨ctx, found, hctx, hfound, rfl⟩
    exact bind_eq_ok.2 ⟨ctx, hctx, bind_eq_ok.2 ⟨found, hfound, rfl⟩⟩

theorem look_tidy {P : Int → Prop} (hnet : Legible P net)
    (h : look net n stop callers = .ok set) : set.Tidy P := by
  obtain ⟨ctx, found, -, hfound, rfl⟩ := look_eq_ok.1 h
  exact lookFrom_tidy hnet tidy_empty hfound

theorem look_proper (hnet : Plain net) (h : look net n none none = .ok set) : set.Proper :=
  proper_iff_tidy.2 (look_tidy hnet.legible h)

theorem gather_tidy {P : Int → Prop} (hε : ¬ P Token.epsilon) (h : ∀ f ∈ sets, f.Tidy P) :
    (gather sets).Tidy P := by
  have hfold (s : IntervalSet) (hs : s.Tidy P) : (sets.foldl (fun s f => s.addSet f) s).Tidy P := by
    induction sets generalizing s with
    | nil => exact hs
    | cons f sets ih =>
      simp only [List.forall_mem_cons] at h
      exact ih h.2 _ (addSet_tidy hs h.1.upright)
  exact IntervalSet.removeOne_tidy hε (hfold _ tidy_empty)

theorem gather_proper (h : ∀ f ∈ sets, f.Proper) : (gather sets).Proper :=
  proper_iff_tidy.2 (gather_tidy id fun f hf => proper_iff_tidy.1 (h f hf))

namespace Memory

/-- Every set that is remembered is in order. -/
def Tidy (P : Int → Prop) (m : Memory) : Prop := ∀ n set, m.getD n none = some set → set.Tidy P

variable {P : Int → Prop}

theorem tidy_ofNetwork (net : Network) : Memory.Tidy P (.ofNetwork net) := by
  intro n set h
  rw [Memory.ofNetwork, Array.getD_eq_getD_getElem?, Array.getElem?_replicate] at h
  split at h <;> cases h

theorem Known.tidy (hnet : Legible P net) (hm : m.Tidy P) (h : Known net m set) : set.Tidy P := by
  obtain ⟨n, hn | hn⟩ := h
  · exact hm n set hn
  · exact look_tidy hnet hn

theorem Tidy.put (hm : m.Tidy P) (hset : set.Tidy P) : Memory.Tidy P (m.setIfInBounds n (some set)) := by
  intro k old hk
  rw [getD_setIfInBounds] at hk
  split at hk
  · cases hk
    exact hset
  · exact hm k old hk

theorem Tidy.step (hnet : Legible P net) (hε : ¬ P Token.epsilon) (hm : m.Tidy P) (h : Step net m m') : m'.Tidy P := by
  cases h with
  | fill _ hlook => exact hm.put (look_tidy hnet hlook)
  | enlarge _ hset hknown =>
    exact hm.put (addSet_tidy (hm _ _ hset) (gather_tidy hε fun f hf => (hknown f hf).tidy hnet hm).upright)

theorem Tidy.history (hnet : Legible P net) (hε : ¬ P Token.epsilon) (hm : m.Tidy P) (h : History net m m') : m'.Tidy P := by
  induction h with
  | refl => exact hm
  | tail _ hstep ih => exact ih.step hnet hε hstep

end Memory

/-! ## Faithful memories -/

namespace Memory

/-- What is remembered of a state: what can come next there, or more than that at the back state of a loop. -/
structure Recalled (net : Network) (n : Nat) (set : IntervalSet) : Prop where
  proper : set.Proper
  found : ∃ next, look net n none none = .ok next ∧ (∀ t, next.contains t = true → set.contains t = true) ∧
    ((net.state n).endsLoop = false → set = next)

theorem Recalled.of_look (hnet : Plain net) (h : look net n none none = .ok set) : Recalled net n set :=
  ⟨look_proper hnet h, set, h, fun _ h => h, fun _ => rfl⟩

theorem Recalled.enlarge (h : Recalled net n set) (hn : (net.state n).endsLoop = true) {more : IntervalSet}
    (hmore : more.Proper) : Recalled net n (set.addSet more) := by
  obtain ⟨next, hlook, hsub, -⟩ := h.found
  refine ⟨IntervalSet.addSet_proper h.proper hmore, next, hlook, ?_, ?_⟩
  · intro t ht
    exact (IntervalSet.contains_addSet (proper_iff_tidy.1 h.proper) (proper_iff_tidy.1 hmore).upright).mpr
      (.inl (hsub t ht))
  · intro hend
    rw [hn] at hend
    cases hend

/-- Every set of the memory is what it should be. -/
def Faithful (net : Network) (m : Memory) : Prop := ∀ n set, m.getD n none = some set → Recalled net n set

theorem faithful_ofNetwork (net : Network) : Faithful net (.ofNetwork net) := by
  intro n set h
  rw [Memory.ofNetwork, Array.getD_eq_getD_getElem?, Array.getElem?_replicate] at h
  split at h <;> cases h

theorem Faithful.step (hnet : Plain net) (h : Faithful net m) (hstep : Step net m m') : Faithful net m' := by
  intro k old hk
  cases hstep with
  | fill hnone hlook =>
    rw [getD_setIfInBounds] at hk
    split at hk
    · rename_i hn
      cases hk
      rw [← hn.1]
      exact .of_look hnet hlook
    · exact h k old hk
  | enlarge hloop hset hknown =>
    rw [getD_setIfInBounds] at hk
    split at hk
    · rename_i hn
      cases hk
      rw [← hn.1]
      refine (h _ _ hset).enlarge hloop (gather_proper ?_)
      intro f hf
      obtain ⟨j, hj | hj⟩ := hknown f hf
      · exact (h j f hj).proper
      · exact look_proper hnet hj
    · exact h k old hk

theorem Faithful.history (hnet : Plain net) (h : Faithful net m) (hm : History net m m') : Faithful net m' := by
  induction hm with
  | refl => exact h
  | tail _ hstep ih => exact ih.step hnet hstep

theorem Faithful.next (hnet : Plain net) (h : Faithful net m) (hnext : next net m n = .ok (set, m')) :
    Recalled net n set := by
  unfold Lookahead.next at hnext
  split at hnext
  · rename_i set' hset
    cases hnext
    exact h n set hset
  · obtain ⟨set', hlook, hrest⟩ := bind_eq_ok.1 hnext
    cases hrest
    exact .of_look hnet hlook

end Memory

end Lookahead

end NimbleLang
