import Mathlib.Logic.Relation
import NimbleLang.Check.Flow

/-!
The ways through a block. What is still to be done is a list of statements, the next one first, each with its
address in the body. A way takes one step at a time: it goes past a plain statement, takes either branch of an `if`
(or goes past one without `else`), goes past a loop or runs its body and comes back to it, and ends at a `return`.

- `reaches_append`, `ends_append`: a way through two lists is a way through the first and then through the second.
- `ends_line_iff`: some way comes to the end of a block exactly when no statement of it stops.
- `reaches_loop` and its neighbours: where the ways through one statement lead.

Addresses are read from the inside out: the number of the statement in its block, then which block of which
statement around it that is. So whatever a statement leads to has an address that ends in the address of the
statement (`addresses_of_steps`), and statements side by side never lead to the same place.
-/

namespace NimbleLang.Flow

open Relation

abbrev Address := List Nat

/-- A statement where it stands. -/
structure Spot where
  address : Address
  stmt : Stmt
  deriving Repr, Inhabited

/-- The statements of a block from number `i` on; `a` is the address of the block. -/
def line (a : Address) : Nat → List Stmt → List Spot
  | _, [] => []
  | i, s :: rest => ⟨i :: a, s⟩ :: line a (i + 1) rest

mutual
/-- A statement and all inside it. -/
def spotsIn (a : Address) : Stmt → List Spot
  | .loop p e body => ⟨a, .loop p e body⟩ :: spotsOf (0 :: a) 0 body
  | .ifThen p e yes => ⟨a, .ifThen p e yes⟩ :: spotsOf (0 :: a) 0 yes
  | .ifElse p e yes no => ⟨a, .ifElse p e yes no⟩ :: (spotsOf (0 :: a) 0 yes ++ spotsOf (1 :: a) 0 no)
  | s => [⟨a, s⟩]

def spotsOf (a : Address) : Nat → List Stmt → List Spot
  | _, [] => []
  | i, s :: rest => spotsIn (i :: a) s ++ spotsOf a (i + 1) rest
end

/-- One step of a way. Nothing follows a `return`, whatever is still to be done. -/
inductive Step : List Spot → List Spot → Prop
  | assign {a p x e k} : Step (⟨a, .assign p x e⟩ :: k) k
  | print {a p e k} : Step (⟨a, .print p e⟩ :: k) k
  | call {a c k} : Step (⟨a, .call c⟩ :: k) k
  | pastLoop {a p e body k} : Step (⟨a, .loop p e body⟩ :: k) k
  | intoLoop {a p e body k} :
      Step (⟨a, .loop p e body⟩ :: k) (line (0 :: a) 0 body ++ ⟨a, .loop p e body⟩ :: k)
  | pastIf {a p e yes k} : Step (⟨a, .ifThen p e yes⟩ :: k) k
  | intoIf {a p e yes k} : Step (⟨a, .ifThen p e yes⟩ :: k) (line (0 :: a) 0 yes ++ k)
  | intoYes {a p e yes no k} : Step (⟨a, .ifElse p e yes no⟩ :: k) (line (0 :: a) 0 yes ++ k)
  | intoNo {a p e yes no k} : Step (⟨a, .ifElse p e yes no⟩ :: k) (line (1 :: a) 0 no ++ k)

/-- Some way leads to the address. -/
def Reaches (l : List Spot) (a : Address) : Prop := ∃ s k, ReflTransGen Step l (⟨a, s⟩ :: k)

/-- Some way comes to the end. -/
def Ends (l : List Spot) : Prop := ReflTransGen Step l []

/-! ## One list after another -/

variable {l l' k m : List Spot} {q : Spot} {ss rest : List Stmt} {i n : Nat} {s : Stmt}

theorem Step.append (h : Step l l') (k : List Spot) : Step (l ++ k) (l' ++ k) := by
  cases h <;> simp only [List.cons_append, List.append_assoc] <;> constructor

theorem steps_append (h : ReflTransGen Step l l') (k : List Spot) :
    ReflTransGen Step (l ++ k) (l' ++ k) := by
  induction h with
  | refl => exact .refl
  | tail _ hs ih => exact ih.tail (hs.append k)

/-- A step looks at nothing but the next statement. -/
theorem Step.of_append (h : Step (q :: l ++ k) m) :
    ∃ l', Step (q :: l) l' ∧ m = l' ++ k := by
  cases h with
  | assign => exact ⟨l, .assign, rfl⟩
  | print => exact ⟨l, .print, rfl⟩
  | call => exact ⟨l, .call, rfl⟩
  | pastLoop => exact ⟨l, .pastLoop, rfl⟩
  | intoLoop => exact ⟨_, .intoLoop, by simp⟩
  | pastIf => exact ⟨l, .pastIf, rfl⟩
  | intoIf => exact ⟨_, .intoIf, by simp⟩
  | intoYes => exact ⟨_, .intoYes, by simp⟩
  | intoNo => exact ⟨_, .intoNo, by simp⟩

/-- A way from `l ++ k` is still on `l`, or it came to the end of `l` and went on from `k`. -/
theorem steps_of_append (h : ReflTransGen Step (l ++ k) m) :
    (∃ l', ReflTransGen Step l l' ∧ m = l' ++ k) ∨ (Ends l ∧ ReflTransGen Step k m) := by
  induction h with
  | refl => exact .inl ⟨l, .refl, rfl⟩
  | tail _ hs ih =>
    rcases ih with ⟨l', hl, rfl⟩ | ⟨hl, hk⟩
    · cases l' with
      | nil => exact .inr ⟨hl, .single hs⟩
      | cons q l' =>
        obtain ⟨l'', hs', rfl⟩ := hs.of_append
        exact .inl ⟨l'', hl.tail hs', rfl⟩
    · exact .inr ⟨hl, hk.tail hs⟩

theorem not_step_nil : ¬ Step [] m := nofun

theorem ends_append : Ends (l ++ k) ↔ Ends l ∧ Ends k := by
  constructor
  · intro h
    rcases steps_of_append h with ⟨l', hl, hm⟩ | h
    · obtain ⟨rfl, rfl⟩ := List.append_eq_nil_iff.mp hm.symm
      exact ⟨hl, .refl⟩
    · exact h
  · intro h
    obtain ⟨hl, hk⟩ := h
    exact (steps_append hl k).trans hk

theorem reaches_append {b : Address} :
    Reaches (l ++ k) b ↔ Reaches l b ∨ (Ends l ∧ Reaches k b) := by
  constructor
  · intro h
    obtain ⟨s, m, h⟩ := h
    rcases steps_of_append h with ⟨l', hl, hm⟩ | ⟨hl, hk⟩
    · cases l' with
      | nil => exact .inr ⟨hl, s, m, hm ▸ .refl⟩
      | cons q l' =>
        obtain ⟨rfl, rfl⟩ := List.cons.inj hm
        exact .inl ⟨s, l', hl⟩
    · exact .inr ⟨hl, s, m, hk⟩
  · intro h
    rcases h with ⟨s, m, h⟩ | ⟨hl, s, m, h⟩
    · exact ⟨s, m ++ k, steps_append h k⟩
    · exact ⟨s, m, (steps_append hl k).trans h⟩

theorem ends_cons : Ends (q :: k) ↔ Ends [q] ∧ Ends k := ends_append (l := [q])

theorem reaches_cons {b : Address} :
    Reaches (q :: k) b ↔ Reaches [q] b ∨ (Ends [q] ∧ Reaches k b) := reaches_append (l := [q])

theorem ends_nil : Ends [] := .refl

theorem not_reaches_nil {b : Address} : ¬ Reaches [] b := by
  intro h
  obtain ⟨s, k, h⟩ := h
  rcases h.cases_head with h | ⟨_, h, _⟩
  · cases h
  · exact not_step_nil h

/-! ## The ways through one statement -/

theorem reaches_self (q : Spot) : Reaches [q] q.address := ⟨q.stmt, [], .refl⟩

/-- What a way from a single statement does first. -/
theorem reaches_single {b : Address} :
    Reaches [q] b ↔ b = q.address ∨ ∃ l, Step [q] l ∧ Reaches l b := by
  constructor
  · intro h
    obtain ⟨s, k, h⟩ := h
    rcases h.cases_head with h | ⟨l, hs, h⟩
    · cases h
      exact .inl rfl
    · exact .inr ⟨l, hs, s, k, h⟩
  · intro h
    rcases h with rfl | ⟨l, hs, s, k, h⟩
    · exact reaches_self q
    · exact ⟨s, k, h.head hs⟩

theorem ends_single : Ends [q] ↔ ∃ l, Step [q] l ∧ Ends l := by
  constructor
  · intro h
    rcases ReflTransGen.cases_head h with h | ⟨l, hs, h⟩
    · cases h
    · exact ⟨l, hs, h⟩
  · intro h
    obtain ⟨l, hs, h⟩ := h
    exact ReflTransGen.head hs h

variable {a b : Address} {p : Place} {e : Expr} {yes no body : List Stmt}

theorem not_step_leave {v : Option Expr} : ¬ Step [⟨a, .leave p v⟩] l := nofun

theorem reaches_ifThen :
    Reaches [⟨a, .ifThen p e yes⟩] b ↔ b = a ∨ Reaches (line (0 :: a) 0 yes) b := by
  rw [reaches_single]
  constructor
  · intro h
    rcases h with h | ⟨l, hs, h⟩
    · exact .inl h
    · cases hs with
      | pastIf => exact absurd h not_reaches_nil
      | intoIf => exact .inr (by simpa using h)
  · intro h
    rcases h with h | h
    · exact .inl h
    · exact .inr ⟨_, .intoIf, by simpa using h⟩

theorem reaches_ifElse :
    Reaches [⟨a, .ifElse p e yes no⟩] b ↔
      b = a ∨ Reaches (line (0 :: a) 0 yes) b ∨ Reaches (line (1 :: a) 0 no) b := by
  rw [reaches_single]
  constructor
  · intro h
    rcases h with h | ⟨l, hs, h⟩
    · exact .inl h
    · cases hs with
      | intoYes => exact .inr (.inl (by simpa using h))
      | intoNo => exact .inr (.inr (by simpa using h))
  · intro h
    rcases h with h | h | h
    · exact .inl h
    · exact .inr ⟨_, .intoYes, by simpa using h⟩
    · exact .inr ⟨_, .intoNo, by simpa using h⟩

/-- Running a loop again leads nowhere new: what is to be done after any number of runs is nothing, the loop, or the
    loop after what is left of its body. -/
theorem steps_loop (h : ReflTransGen Step [⟨a, .loop p e body⟩] m) :
    m = [] ∨ m = [⟨a, .loop p e body⟩] ∨
      ∃ l, ReflTransGen Step (line (0 :: a) 0 body) l ∧ m = l ++ [⟨a, .loop p e body⟩] := by
  have again : ∀ {m}, Step [⟨a, .loop p e body⟩] m →
      m = [] ∨ m = [⟨a, .loop p e body⟩] ∨
        ∃ l, ReflTransGen Step (line (0 :: a) 0 body) l ∧ m = l ++ [⟨a, .loop p e body⟩] := by
    intro m hs
    cases hs with
    | pastLoop => exact .inl rfl
    | intoLoop => exact .inr (.inr ⟨_, .refl, rfl⟩)
  induction h with
  | refl => exact .inr (.inl rfl)
  | tail _ hs ih =>
    rcases ih with rfl | rfl | ⟨l, hl, rfl⟩
    · exact absurd hs not_step_nil
    · exact again hs
    · cases l with
      | nil => exact again hs
      | cons q l =>
        obtain ⟨l', hs', rfl⟩ := hs.of_append
        exact .inr (.inr ⟨l', hl.tail hs', rfl⟩)

theorem reaches_loop : Reaches [⟨a, .loop p e body⟩] b ↔ b = a ∨ Reaches (line (0 :: a) 0 body) b := by
  constructor
  · intro h
    obtain ⟨s, k, h⟩ := h
    rcases steps_loop h with h | h | ⟨l, hl, h⟩
    · cases h
    · cases h
      exact .inl rfl
    · cases l with
      | nil =>
        cases h
        exact .inl rfl
      | cons q l =>
        obtain ⟨rfl, rfl⟩ := List.cons.inj h
        exact .inr ⟨s, l, hl⟩
  · intro h
    rcases h with rfl | ⟨s, k, h⟩
    · exact reaches_self _
    · exact ⟨s, k ++ [⟨a, .loop p e body⟩], (steps_append h _).head .intoLoop⟩

/-! ## Which blocks end -/

mutual
/-- Some way goes past a statement exactly when it does not stop. -/
theorem ends_stmt_iff (a : Address) (s : Stmt) : Ends [⟨a, s⟩] ↔ Check.stops s = false := by
  rw [ends_single]
  cases s with
  | assign p x e => exact iff_of_true ⟨[], .assign, ends_nil⟩ rfl
  | print p e => exact iff_of_true ⟨[], .print, ends_nil⟩ rfl
  | call c => exact iff_of_true ⟨[], .call, ends_nil⟩ rfl
  | loop p e body => exact iff_of_true ⟨[], .pastLoop, ends_nil⟩ rfl
  | ifThen p e yes => exact iff_of_true ⟨[], .pastIf, ends_nil⟩ rfl
  | leave p v => exact iff_of_false (fun ⟨_, hs, _⟩ => not_step_leave hs) nofun
  | ifElse p e yes no =>
    have hyes := ends_line_iff (0 :: a) 0 yes
    have hno := ends_line_iff (1 :: a) 0 no
    rw [Check.stops, Bool.and_eq_false_iff, ← hyes, ← hno]
    constructor
    · intro h
      obtain ⟨l, hs, h⟩ := h
      cases hs with
      | intoYes => exact .inl (by simpa using h)
      | intoNo => exact .inr (by simpa using h)
    · intro h
      rcases h with h | h
      · exact ⟨_, .intoYes, by simpa using h⟩
      · exact ⟨_, .intoNo, by simpa using h⟩

/-- Some way comes to the end of a block exactly when no statement of it stops. -/
theorem ends_line_iff (a : Address) (i : Nat) (ss : List Stmt) :
    Ends (line a i ss) ↔ Check.stopsAny ss = false := by
  cases ss with
  | nil => exact iff_of_true ends_nil rfl
  | cons s rest =>
    rw [line, ends_cons, ends_stmt_iff (i :: a) s, ends_line_iff a (i + 1) rest, Check.stopsAny,
      Bool.or_eq_false_iff]
end

/-! ## Addresses -/

theorem address_of_mem_line {a : Address} (h : q ∈ line a i ss) :
    ∃ j, i ≤ j ∧ q.address = j :: a := by
  induction ss generalizing i with
  | nil => cases h
  | cons s rest ih =>
    rcases List.mem_cons.mp h with rfl | h
    · exact ⟨i, Nat.le_refl i, rfl⟩
    · obtain ⟨j, hj, hq⟩ := ih h
      exact ⟨j, by omega, hq⟩

theorem suffix_of_mem_line {a : Address} (h : q ∈ line (n :: a) i ss) :
    a <:+ q.address := by
  obtain ⟨j, -, hq⟩ := address_of_mem_line h
  exact hq ▸ ⟨[j, n], rfl⟩

theorem Step.addresses (h : Step l m) (hq : q ∈ m) : ∃ r ∈ l, r.address <:+ q.address := by
  -- what is still to be done was there before, or stands inside the statement the step was taken from
  have inner : ∀ {r : Spot} {n i : Nat} {ss : List Stmt} {k : List Spot}, q ∈ line (n :: r.address) i ss ++ k →
      (∀ q' ∈ k, q' ∈ r :: l.tail) → l = r :: l.tail → ∃ r ∈ l, r.address <:+ q.address := by
    intro r n i ss k hq hk hl
    rcases List.mem_append.mp hq with hq | hq
    · exact ⟨r, hl ▸ List.mem_cons_self, suffix_of_mem_line hq⟩
    · exact ⟨q, hl ▸ hk q hq, List.suffix_rfl⟩
  cases h with
  | assign | print | call | pastLoop | pastIf => exact ⟨q, List.mem_cons_of_mem _ hq, List.suffix_rfl⟩
  | intoLoop => exact inner (r := ⟨_, _⟩) hq (fun _ h => h) rfl
  | intoIf | intoYes | intoNo => exact inner (r := ⟨_, _⟩) hq (fun _ h => List.mem_cons_of_mem _ h) rfl

/-- A way stays inside the statements it starts from. -/
theorem addresses_of_steps (h : ReflTransGen Step l m) :
    ∀ q ∈ m, ∃ r ∈ l, r.address <:+ q.address := by
  induction h with
  | refl => exact fun q hq => ⟨q, hq, List.suffix_rfl⟩
  | tail _ hs ih =>
    intro q hq
    obtain ⟨r, hr, hrq⟩ := hs.addresses hq
    obtain ⟨r', hr', hrr⟩ := ih r hr
    exact ⟨r', hr', hrr.trans hrq⟩

theorem suffix_of_reaches (h : Reaches [⟨a, s⟩] b) : a <:+ b := by
  obtain ⟨s', k, h⟩ := h
  obtain ⟨r, hr, hrb⟩ := addresses_of_steps h _ List.mem_cons_self
  rw [List.mem_singleton.mp hr] at hrb
  exact hrb

theorem suffix_of_reaches_line (h : Reaches (line a i ss) b) :
    ∃ j, i ≤ j ∧ j :: a <:+ b := by
  obtain ⟨s', k, h⟩ := h
  obtain ⟨r, hr, hrb⟩ := addresses_of_steps h _ List.mem_cons_self
  obtain ⟨j, hj, hrj⟩ := address_of_mem_line hr
  exact ⟨j, hj, hrj ▸ hrb⟩

mutual
theorem suffix_of_mem_spotsIn {a : Address} {s : Stmt} {q : Spot} (h : q ∈ spotsIn a s) : a <:+ q.address := by
  cases s with
  | assign | print | leave | call =>
    obtain rfl := List.mem_singleton.mp h
    exact List.suffix_rfl
  | loop p e body | ifThen p e body =>
    rcases List.mem_cons.mp h with rfl | h
    · exact List.suffix_rfl
    · obtain ⟨j, -, hj⟩ := suffix_of_mem_spotsOf h
      exact .trans ⟨[j, 0], rfl⟩ hj
  | ifElse p e yes no =>
    rcases List.mem_cons.mp h with rfl | h
    · exact List.suffix_rfl
    · rcases List.mem_append.mp h with h | h
      · obtain ⟨j, -, hj⟩ := suffix_of_mem_spotsOf h
        exact .trans ⟨[j, 0], rfl⟩ hj
      · obtain ⟨j, -, hj⟩ := suffix_of_mem_spotsOf h
        exact .trans ⟨[j, 1], rfl⟩ hj

theorem suffix_of_mem_spotsOf {a : Address} {i : Nat} {ss : List Stmt} {q : Spot} (h : q ∈ spotsOf a i ss) :
    ∃ j, i ≤ j ∧ j :: a <:+ q.address := by
  cases ss with
  | nil => cases h
  | cons s rest =>
    rcases List.mem_append.mp h with h | h
    · exact ⟨i, Nat.le_refl i, suffix_of_mem_spotsIn h⟩
    · obtain ⟨j, hj, hq⟩ := suffix_of_mem_spotsOf h
      exact ⟨j, by omega, hq⟩
end

/-- Two statements of one block have nothing inside them in common. -/
theorem eq_of_suffix {j : Nat} (hi : i :: a <:+ b) (hj : j :: a <:+ b) : i = j := by
  have h : i :: a <:+ j :: a := List.suffix_of_suffix_length_le hi hj (Nat.le_refl _)
  exact (List.cons.inj (h.eq_of_length rfl)).1

/-! ## What stands where -/

theorem address_ne_of_mem_spotsOf (h : q ∈ spotsOf (n :: a) i ss) :
    q.address ≠ a := by
  obtain ⟨j, -, hj⟩ := suffix_of_mem_spotsOf h
  intro hq
  have := hj.length_le
  rw [hq, List.length_cons, List.length_cons] at this
  omega

theorem not_reaches_other_branch {m : Nat} (hnm : n ≠ m) {ss' : List Stmt}
    (h : q ∈ spotsOf (n :: a) i ss) : ¬ Reaches (line (m :: a) i ss') q.address := by
  intro hr
  obtain ⟨j, -, hj⟩ := suffix_of_mem_spotsOf h
  obtain ⟨j', -, hj'⟩ := suffix_of_reaches_line hr
  exact hnm (eq_of_suffix (.trans ⟨[j], rfl⟩ hj) (.trans ⟨[j'], rfl⟩ hj'))

/-- A statement of a block, and all inside it, is reached through the block as it is from the statement itself. -/
theorem reaches_first_of_line (h : q ∈ spotsIn (i :: a) s) :
    Reaches (line a i (s :: rest)) q.address ↔ Reaches [⟨i :: a, s⟩] q.address := by
  rw [line, reaches_cons]
  refine ⟨?_, .inl⟩
  intro h
  rcases h with hs | ⟨-, hr⟩
  · exact hs
  · obtain ⟨j, hj, hjq⟩ := suffix_of_reaches_line hr
    have := eq_of_suffix (suffix_of_mem_spotsIn h) hjq
    omega

/-- What comes after a statement is reached if the statement does not stop. -/
theorem reaches_rest_of_line (h : q ∈ spotsOf a (i + 1) rest) :
    Reaches (line a i (s :: rest)) q.address ↔
      Check.stops s = false ∧ Reaches (line a (i + 1) rest) q.address := by
  rw [line, reaches_cons, ends_stmt_iff]
  refine ⟨?_, .inr⟩
  intro h
  rcases h with hs | hr
  · obtain ⟨j, hj, hjq⟩ := suffix_of_mem_spotsOf h
    have := eq_of_suffix (suffix_of_reaches hs) hjq
    omega
  · exact hr

end NimbleLang.Flow

/-! ## Blocks of bodies -/

namespace NimbleLang.Block

/-- All statements of a block, each where it stands. -/
def spots (b : Block) : List Flow.Spot := Flow.spotsOf [] 0 b.statements

/-- Some way from the start of the block leads to the address. -/
def Reaches (b : Block) (a : Flow.Address) : Prop := Flow.Reaches (Flow.line [] 0 b.statements) a

/-- Some way from the start of the block comes to its end without a `return`. -/
def FallsOff (b : Block) : Prop := Flow.Ends (Flow.line [] 0 b.statements)

theorem fallsOff_iff (b : Block) : b.FallsOff ↔ Check.stopsAny b.statements = false :=
  Flow.ends_line_iff [] 0 b.statements

instance (b : Block) : Decidable b.FallsOff := decidable_of_iff _ b.fallsOff_iff.symm

end NimbleLang.Block
