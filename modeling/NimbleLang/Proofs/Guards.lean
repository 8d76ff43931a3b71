import Mathlib.Data.List.Basic
import NimbleLang.Guard.Combine

/-!
What guards mean is kept by combining them and by settling their precedence conditions. Under answers that do not change
(`Valuation`), a guard holds or not (`holds`). Joining two guards joins what they mean (`holds_both`, `holds_either`), whatever
order their operands come to stand in. Settling a guard leaves a guard with the same meaning over predicates, or tells that it
holds or cannot hold (`settle_reduces`); this goes through the operands of a combination, which is put together again from what
is left of them. Asked by `eval`, a guard made from conditions by joining tells what it means (`settle_keeps_truth`).
-/

namespace NimbleLang.Guard

/-- Answers to the conditions of guards that do not change. -/
structure Valuation where
  predicate : Int → Int → Bool → Bool
  precedence : Int → Bool

variable {v : Valuation} {P : Guard → Prop} {a b g x : Guard} {xs gs : List Guard}

/-! ## The meaning of a guard -/

mutual
def holds (v : Valuation) : Guard → Bool
  | always => true
  | predicate r i c => v.predicate r i c
  | precedence p => v.precedence p
  | all xs => (holdsEach v xs).all id
  | any xs => (holdsEach v xs).any id

def holdsEach (v : Valuation) : List Guard → List Bool
  | [] => []
  | g :: gs => holds v g :: holdsEach v gs
end

theorem holdsEach_eq_map (v : Valuation) (gs : List Guard) : holdsEach v gs = gs.map (holds v) := by
  induction gs with
  | nil => rfl
  | cons g gs ih => rw [holdsEach, ih, List.map_cons]

theorem holds_all (v : Valuation) (gs : List Guard) : holds v (all gs) = gs.all (holds v) := by
  rw [holds, holdsEach_eq_map, List.all_map, Function.id_comp]

theorem holds_any (v : Valuation) (gs : List Guard) : holds v (any gs) = gs.any (holds v) := by
  rw [holds, holdsEach_eq_map, List.any_map, Function.id_comp]

/-! ## The conditions in a guard -/

mutual
/-- The guards that a guard is put together from. -/
def leaves : Guard → List Guard
  | all xs => leavesEach xs
  | any xs => leavesEach xs
  | g => [g]

def leavesEach : List Guard → List Guard
  | [] => []
  | g :: gs => leaves g ++ leavesEach gs
end

theorem leavesEach_eq_flatMap (gs : List Guard) : leavesEach gs = gs.flatMap leaves := by
  induction gs with
  | nil => rfl
  | cons g gs ih => rw [leavesEach, ih, List.flatMap_cons]

/-- A guard put together from conditions of a kind. -/
def Over (P : Guard → Prop) (g : Guard) : Prop := ∀ l ∈ g.leaves, P l

theorem over_all : Over P (all gs) ↔ ∀ g ∈ gs, Over P g := by
  simp only [Over, leaves, leavesEach_eq_flatMap, List.mem_flatMap, forall_exists_index, and_imp]
  exact forall_comm.trans (forall_congr' fun _ => forall_comm)

theorem over_any : Over P (any gs) ↔ ∀ g ∈ gs, Over P g := over_all

/-- A guard in which there is a condition wherever there can be one. -/
abbrev Proper : Guard → Prop := Over (· ≠ always)

/-- A guard of predicates. -/
abbrev Settled : Guard → Prop := Over fun l => ∃ r i c, l = predicate r i c

theorem Settled.proper (h : Settled g) : Proper g := by
  intro l hl
  obtain ⟨r, i, c, rfl⟩ := h l hl
  exact nofun

theorem Proper.ne_always (h : Proper g) : g ≠ always := by
  rintro rfl
  exact h always (List.mem_singleton.mpr rfl) rfl

/-! ## Joining -/

theorem mem_enter {slot : Guard → Nat} : x ∈ enter slot g gs ↔ x = g ∨ x ∈ gs := by
  induction gs with
  | nil => rw [enter, List.mem_singleton, or_iff_left List.not_mem_nil]
  | cons h rest ih =>
    rw [enter]
    split
    case isTrue heq => simp [heq]
    split
    · exact List.mem_cons
    · rw [List.mem_cons, ih, List.mem_cons, or_left_comm]

theorem mem_ordered (operands : List Guard) : x ∈ ordered operands ↔ x ∈ operands := by
  rw [ordered]
  generalize (operands.foldl Slots.insert {}).slot = slot
  induction operands with
  | nil => rfl
  | cons g operands ih => rw [List.foldr_cons, mem_enter, ih, List.mem_cons]

/-- A guard that stands for operands: their combination, or the only one. -/
def Stands (combine : List Guard → Guard) (gs : List Guard) (g : Guard) : Prop := g = combine gs ∨ gs = [g]

theorem Stands.over {combine : List Guard → Guard} (h : Stands combine gs g) (hcombine : Over P (combine gs) ↔ ∀ g ∈ gs, Over P g)
    (hgs : ∀ x ∈ gs, Over P x) : Over P g := by
  rcases h with rfl | rfl
  · exact hcombine.mpr hgs
  · exact hgs g (List.mem_singleton.mpr rfl)

theorem Stands.holds_all (h : Stands all gs g) (v : Valuation) : holds v g = gs.all (holds v) := by
  rcases h with rfl | rfl
  · exact Guard.holds_all v gs
  · rw [List.all_cons, List.all_nil, Bool.and_true]

theorem Stands.holds_any (h : Stands any gs g) (v : Valuation) : holds v g = gs.any (holds v) := by
  rcases h with rfl | rfl
  · exact Guard.holds_any v gs
  · rw [List.any_cons, List.any_nil, Bool.or_false]

theorem both_stands (ha : a ≠ always) (hb : b ≠ always) : Stands all (ordered (conjuncts a ++ conjuncts b)) (both a b) := by
  rw [both, if_neg ha, if_neg hb]
  split
  case h_1 g hone => exact .inr hone
  case h_2 => exact .inl rfl

theorem either_stands (ha : a ≠ always) (hb : b ≠ always) : Stands any (ordered (disjuncts a ++ disjuncts b)) (either a b) := by
  rw [either, if_neg (not_or.mpr ⟨ha, hb⟩)]
  split
  case h_1 g hone => exact .inr hone
  case h_2 => exact .inl rfl

theorem both_always_left (b : Guard) : both always b = b := if_pos rfl

theorem both_always_right (a : Guard) : both a always = a := by
  rw [both]
  split
  case isTrue h => exact h.symm
  case isFalse => exact if_pos rfl

theorem either_always (h : a = always ∨ b = always) : either a b = always := if_pos h

theorem holds_both (v : Valuation) (a b : Guard) : holds v (both a b) = (holds v a && holds v b) := by
  by_cases ha : a = always
  · rw [ha, both_always_left, holds, Bool.true_and]
  by_cases hb : b = always
  · rw [hb, both_always_right, holds, Bool.and_true]
  have hpart (g : Guard) : (conjuncts g).all (holds v) = holds v g := by cases g <;> simp [conjuncts, holds_all]
  rw [(both_stands ha hb).holds_all, ← hpart a, ← hpart b, ← List.all_append, Bool.eq_iff_iff, List.all_eq_true, List.all_eq_true]
  exact forall_congr' fun g => by rw [mem_ordered]

theorem holds_either (v : Valuation) (a b : Guard) : holds v (either a b) = (holds v a || holds v b) := by
  by_cases ha : a = always
  · rw [either_always (.inl ha), ha, holds, Bool.true_or]
  by_cases hb : b = always
  · rw [either_always (.inr hb), hb, holds, Bool.or_true]
  have hpart (g : Guard) : (disjuncts g).any (holds v) = holds v g := by cases g <;> simp [disjuncts, holds_any]
  rw [(either_stands ha hb).holds_any, ← hpart a, ← hpart b, ← List.any_append, Bool.eq_iff_iff, List.any_eq_true, List.any_eq_true]
  exact exists_congr fun g => by rw [mem_ordered]

theorem Over.both (ha : Over P a) (hb : Over P b) : Over P (both a b) := by
  by_cases hane : a = always
  · rwa [hane, both_always_left]
  by_cases hbne : b = always
  · rwa [hbne, both_always_right]
  have hpart {g : Guard} (h : Over P g) : ∀ x ∈ conjuncts g, Over P x := by cases g <;> simpa [conjuncts, over_all] using h
  refine (both_stands hane hbne).over over_all fun g hg => ?_
  exact (List.mem_append.mp ((mem_ordered _).mp hg)).elim (hpart ha g) (hpart hb g)

theorem Over.either (ha : Over P a) (hb : Over P b) : Over P (either a b) := by
  by_cases hane : a = always
  · rwa [either_always (.inl hane), ← hane]
  by_cases hbne : b = always
  · rwa [either_always (.inr hbne), ← hbne]
  have hpart {g : Guard} (h : Over P g) : ∀ x ∈ disjuncts g, Over P x := by cases g <;> simpa [disjuncts, over_any] using h
  refine (either_stands hane hbne).over over_any fun g hg => ?_
  exact (List.mem_append.mp ((mem_ordered _).mp hg)).elim (hpart ha g) (hpart hb g)

theorem holds_foldl_both (v : Valuation) (g : Guard) (gs : List Guard) : holds v (gs.foldl both g) = (g :: gs).all (holds v) := by
  induction gs generalizing g with
  | nil => simp
  | cons b gs ih => rw [List.foldl_cons, ih, List.all_cons, holds_both, List.all_cons, List.all_cons, Bool.and_assoc]

theorem holds_foldl_either (v : Valuation) (g : Guard) (gs : List Guard) : holds v (gs.foldl either g) = (g :: gs).any (holds v) := by
  induction gs generalizing g with
  | nil => simp
  | cons b gs ih => rw [List.foldl_cons, ih, List.any_cons, holds_either, List.any_cons, List.any_cons, Bool.or_assoc]

/-- Guards over conditions of a kind stay so, joined one after the other. -/
theorem over_foldl {join : Guard → Guard → Guard} (hjoin : ∀ {a b}, Over P a → Over P b → Over P (join a b))
    (h : ∀ x ∈ g :: gs, Over P x) : Over P (gs.foldl join g) := by
  induction gs generalizing g with
  | nil => exact h g (List.mem_singleton.mpr rfl)
  | cons b gs ih =>
    obtain ⟨hg, hb, hgs⟩ : Over P g ∧ Over P b ∧ ∀ x ∈ gs, Over P x := by simpa using h
    exact ih (List.forall_mem_cons.mpr ⟨hjoin hg hb, hgs⟩)

/-! ## Settling -/

/-- What may be left of a guard: nothing if it does not hold, or a guard with the same meaning that always holds or has only
predicates. -/
inductive Reduces (v : Valuation) (g : Guard) : Option Guard → Prop
  | fails : holds v g = false → Reduces v g none
  | rests {rest : Guard} : holds v rest = holds v g → rest = always ∨ Settled rest → Reduces v g (some rest)

theorem Reduces.meaning {o : Option Guard} (h : Reduces v g o) (ho : o = some x) : holds v x = holds v g ∧ (x ≠ always → Settled x) := by
  subst ho
  cases h with
  | rests hmeaning hrest => exact ⟨hmeaning, hrest.resolve_left⟩

theorem Reduces.failure {o : Option Guard} (h : Reduces v g o) (ho : o = none) : holds v g = false := by
  subst ho
  cases h with
  | fails hfalse => exact hfalse

theorem settleEach_eq_map (precedence : Int → Bool) (gs : List Guard) : settleEach precedence gs = gs.map (settle precedence) := by
  induction gs with
  | nil => rfl
  | cons g gs ih => rw [settleEach, ih, List.map_cons]

section Operands

variable {ys : List Guard} (h : ∀ g ∈ xs, Reduces v g (settle v.precedence g))

include h

/-- Operands that are left as they are have no precedence conditions. -/
theorem settled_of_unchanged (hproper : ∀ g ∈ xs, Proper g) (hsame : xs.map (settle v.precedence) = xs.map some) :
    ∀ g ∈ xs, Settled g := fun g hg => ((h g hg).meaning (List.map_inj_left.mp hsame g hg)).2 (hproper g hg).ne_always

/-- What is left of operands, less those that hold, means together what they mean together. -/
theorem all_left (hleft : ∀ g ∈ xs, settle v.precedence g ≠ none)
    (hmem : ∀ y, y ∈ ys ↔ (∃ g ∈ xs, settle v.precedence g = some y) ∧ y ≠ always) :
    ys.all (holds v) = holds v (all xs) ∧ ∀ y ∈ ys, Settled y := by
  refine ⟨?_, fun y hy => ?_⟩
  · rw [holds_all, Bool.eq_iff_iff, List.all_eq_true, List.all_eq_true]
    constructor
    · intro hys g hg
      obtain ⟨y, hgy⟩ := Option.ne_none_iff_exists'.mp (hleft g hg)
      rw [← ((h g hg).meaning hgy).1]
      by_cases hy : y = always
      · rw [hy, holds]
      · exact hys y ((hmem y).mpr ⟨⟨g, hg, hgy⟩, hy⟩)
    · intro hxs y hy
      obtain ⟨⟨g, hg, hgy⟩, -⟩ := (hmem y).mp hy
      rw [((h g hg).meaning hgy).1]
      exact hxs g hg
  · obtain ⟨⟨g, hg, hgy⟩, hne⟩ := (hmem y).mp hy
    exact ((h g hg).meaning hgy).2 hne

/-- Of operands none of which is known to hold, one holds if one of those that are left holds. -/
theorem any_left (hunsure : ∀ g ∈ xs, settle v.precedence g ≠ some always)
    (hmem : ∀ y, y ∈ ys ↔ ∃ g ∈ xs, settle v.precedence g = some y) :
    ys.any (holds v) = holds v (any xs) ∧ ∀ y ∈ ys, Settled y := by
  refine ⟨?_, fun y hy => ?_⟩
  · rw [holds_any, Bool.eq_iff_iff, List.any_eq_true, List.any_eq_true]
    constructor
    · rintro ⟨y, hy, htrue⟩
      obtain ⟨g, hg, hgy⟩ := (hmem y).mp hy
      exact ⟨g, hg, ((h g hg).meaning hgy).1 ▸ htrue⟩
    · rintro ⟨g, hg, htrue⟩
      cases hgy : settle v.precedence g with
      | none => exact absurd ((h g hg).failure hgy) (by simp [htrue])
      | some y => exact ⟨y, (hmem y).mpr ⟨g, hg, hgy⟩, ((h g hg).meaning hgy).1.trans htrue⟩
  · obtain ⟨g, hg, hgy⟩ := (hmem y).mp hy
    exact ((h g hg).meaning hgy).2 fun heq => hunsure g hg (heq ▸ hgy)

/-- A conjunction is put together again from what is left of its operands, less those that hold. -/
theorem reduces_all (hproper : ∀ g ∈ xs, Proper g) : Reduces v (all xs) (settle v.precedence (all xs)) := by
  rw [settle, settleEach_eq_map]
  split
  case isTrue hsame => exact .rests rfl (.inr (over_all.2 (settled_of_unchanged h hproper hsame)))
  split
  case isTrue hnone =>
    obtain ⟨g, hg, hgone⟩ : ∃ g ∈ xs, settle v.precedence g = none := by simpa using hnone
    refine .fails ?_
    rw [holds_all, List.all_eq_false]
    exact ⟨g, hg, by simp [(h g hg).failure hgone]⟩
  case isFalse hsome =>
    have hmem : ∀ y, y ∈ ((xs.map (settle v.precedence)).filterMap id).filter (· ≠ always) ↔
        (∃ g ∈ xs, settle v.precedence g = some y) ∧ y ≠ always := by simp
    generalize ((xs.map (settle v.precedence)).filterMap id).filter (· ≠ always) = ys at hmem
    obtain ⟨hmeaning, hsettled⟩ := all_left h (by simpa using hsome) hmem
    cases ys with
    | nil => exact .rests hmeaning (.inl rfl)
    | cons g gs => exact .rests ((holds_foldl_both v g gs).trans hmeaning) (.inr (over_foldl .both hsettled))

/-- A disjunction is put together again from what is left of its operands. -/
theorem reduces_any (hproper : ∀ g ∈ xs, Proper g) : Reduces v (any xs) (settle v.precedence (any xs)) := by
  rw [settle, settleEach_eq_map]
  split
  case isTrue hsame => exact .rests rfl (.inr (over_any.2 (settled_of_unchanged h hproper hsame)))
  split
  case isTrue hsure =>
    obtain ⟨g, hg, hgy⟩ : ∃ g ∈ xs, settle v.precedence g = some always := by simpa using hsure
    refine .rests ?_ (.inl rfl)
    rw [holds, holds_any, eq_comm, List.any_eq_true]
    exact ⟨g, hg, ((h g hg).meaning hgy).1.symm⟩
  case isFalse hopen =>
    have hmem : ∀ y, y ∈ (xs.map (settle v.precedence)).filterMap id ↔ ∃ g ∈ xs, settle v.precedence g = some y := by simp
    generalize (xs.map (settle v.precedence)).filterMap id = ys at hmem
    obtain ⟨hmeaning, hsettled⟩ := any_left h (by simpa using hopen) hmem
    cases ys with
    | nil => exact .fails hmeaning.symm
    | cons g gs => exact .rests ((holds_foldl_either v g gs).trans hmeaning) (.inr (over_foldl .either hsettled))

end Operands

mutual
/-- Settling keeps what a guard means and leaves no precedence condition. -/
theorem settle_reduces (v : Valuation) : (g : Guard) → Proper g → Reduces v g (settle v.precedence g)
  | always, h => absurd rfl h.ne_always
  | predicate r i c, _ => .rests rfl (.inr fun l hl => ⟨r, i, c, List.mem_singleton.mp hl⟩)
  | precedence p, _ => by
    rw [settle]
    split
    case isTrue htrue => exact .rests htrue.symm (.inl rfl)
    case isFalse hfalse => exact .fails (Bool.eq_false_iff.mpr hfalse)
  | all xs, h => reduces_all (settle_reduces_each v xs (over_all.1 h)) (over_all.1 h)
  | any xs, h => reduces_any (settle_reduces_each v xs (over_any.1 h)) (over_any.1 h)

theorem settle_reduces_each (v : Valuation) : (gs : List Guard) → (∀ g ∈ gs, Proper g) →
    ∀ g ∈ gs, Reduces v g (settle v.precedence g)
  | [], _ => List.forall_mem_nil _
  | g :: gs, h => List.forall_mem_cons.mpr
    ⟨settle_reduces v g (h g List.mem_cons_self), settle_reduces_each v gs fun x hx => h x (List.mem_cons_of_mem g hx)⟩
end

/-! ## Asking -/

section Asking

variable (m : Type → Type) [Monad m]

/-- The truth of a guard as a host tells it whose answers do not change. -/
def ask (v : Valuation) : Guard → m (Option Bool) :=
  eval (fun r i c => pure (v.predicate r i c)) (fun p => pure (v.precedence p))

variable [LawfulMonad m]

mutual
/-- A guard that has no part `always` tells what it means. -/
theorem ask_eq (v : Valuation) : (g : Guard) → Proper g → ask m v g = pure (some (holds v g))
  | always, h => absurd rfl h.ne_always
  | predicate r i c, _ => by rw [ask, eval, pure_bind, holds]
  | precedence p, _ => by rw [ask, eval, pure_bind, holds]
  | all xs, h => by rw [ask, eval, evalUntil_eq v false xs (over_all.1 h), pure_bind, holds_all, List.all_eq_not_any_not]; simp
  | any xs, h => by rw [ask, eval, evalUntil_eq v true xs (over_any.1 h), pure_bind, holds_any]; simp

theorem evalUntil_eq (v : Valuation) (stop : Bool) : (gs : List Guard) → (∀ g ∈ gs, Proper g) →
    evalUntil (fun r i c => pure (v.predicate r i c)) (fun p => pure (v.precedence p)) stop gs =
      (pure ((gs.any fun g => holds v g == stop) == stop) : m Bool)
  | [], _ => by cases stop <;> rfl
  | g :: gs, h => by
    have hg := ask_eq v g (h g List.mem_cons_self)
    rw [ask] at hg
    rw [evalUntil, hg, pure_bind, evalUntil_eq v stop gs fun x hx => h x (List.mem_cons_of_mem g hx), List.any_cons]
    cases holds v g <;> cases stop <;> simp
end

end Asking

/-! ## Guards made by joining -/

/-- Guards made from predicates and precedence conditions by joining two at a time. -/
inductive Made : Guard → Prop
  | predicate (r i : Int) (c : Bool) : Made (predicate r i c)
  | precedence (p : Int) : Made (precedence p)
  | conj {a b c : Guard} : Made a → Made b → conj (some a) (some b) = some c → Made c
  | disj {a b c : Guard} : Made a → Made b → disj (some a) (some b) = some c → Made c

theorem conj_some (a b : Guard) : conj (some a) (some b) = some (both a b) := by
  cases a with
  | always => rw [conj, both_always_left]
  | _ => rfl

theorem disj_some (a b : Guard) : disj (some a) (some b) = some (either a b) := rfl

theorem Made.proper (h : Made g) : Proper g := by
  induction h with
  | predicate => simp [Over, leaves]
  | precedence => simp [Over, leaves]
  | conj _ _ heq iha ihb => exact Option.some.inj ((conj_some _ _).symm.trans heq) ▸ iha.both ihb
  | disj _ _ heq iha ihb => exact Option.some.inj ((disj_some _ _).symm.trans heq) ▸ iha.either ihb

/-- Under answers that do not change, the truth of two guards joined is the truth of the two joined; and settling a guard tells
that it does not hold or that it holds only if that is so, and leaves otherwise a guard of the same truth that has no precedence
condition. -/
theorem settle_keeps_truth (m : Type → Type) [Monad m] [LawfulMonad m] (v : Valuation) (ha : Made a) (hb : Made b) :
    ∃ x y, ask m v a = pure (some x) ∧ ask m v b = pure (some y) ∧
      (∃ c, conj (some a) (some b) = some c ∧ ask m v c = pure (some (x && y))) ∧
      (∃ c, disj (some a) (some b) = some c ∧ ask m v c = pure (some (x || y))) ∧
      (settle v.precedence a = none → x = false) ∧ (settle v.precedence a = some always → x = true) ∧
      ∀ g, settle v.precedence a = some g → g ≠ always → ask m v g = pure (some x) ∧ ∀ p, precedence p ∉ g.leaves := by
  have hpa := ha.proper
  have hpb := hb.proper
  have hreduces := settle_reduces v a hpa
  refine ⟨holds v a, holds v b, ask_eq m v a hpa, ask_eq m v b hpb, ⟨_, conj_some a b, ?_⟩, ⟨_, disj_some a b, ?_⟩,
    hreduces.failure, fun hsure => (hreduces.meaning hsure).1.symm, fun g hg hne => ?_⟩
  · rw [ask_eq m v _ (hpa.both hpb), holds_both]
  · rw [ask_eq m v _ (hpa.either hpb), holds_either]
  · obtain ⟨hmeaning, hsettled⟩ := hreduces.meaning hg
    rw [ask_eq m v g (hsettled hne).proper, hmeaning]
    refine ⟨rfl, fun p hp => ?_⟩
    obtain ⟨r, i, c, heq⟩ := hsettled hne _ hp
    cases heq

/-- At level four, level five and one of a predicate and level three: the predicate is left. -/
theorem settle_keeps_truth_levels :
    Made (both (precedence 5) (either (predicate 0 1 false) (precedence 3))) ∧ Made (precedence 5) ∧
      settle (4 ≤ ·) (both (precedence 5) (either (predicate 0 1 false) (precedence 3))) = some (predicate 0 1 false) ∧
      ∃ x, ask Id ⟨fun _ i _ => i = 1, (4 ≤ ·)⟩ (both (precedence 5) (either (predicate 0 1 false) (precedence 3))) = some x ∧
        ask Id ⟨fun _ i _ => i = 1, (4 ≤ ·)⟩ (predicate 0 1 false) = some x := by
  have hmade : Made (both (precedence 5) (either (predicate 0 1 false) (precedence 3))) :=
    .conj (.precedence 5) (.disj (.predicate 0 1 false) (.precedence 3) rfl) rfl
  have hsettle : settle (4 ≤ ·) (both (precedence 5) (either (predicate 0 1 false) (precedence 3))) = some (predicate 0 1 false) := by
    decide
  obtain ⟨x, -, hx, -, -, -, -, -, hrest⟩ := settle_keeps_truth Id ⟨fun _ i _ => i = 1, (4 ≤ ·)⟩ hmade (.precedence 5)
  exact ⟨hmade, .precedence 5, hsettle, x, hx, (hrest _ hsettle (by decide)).1⟩

end NimbleLang.Guard
