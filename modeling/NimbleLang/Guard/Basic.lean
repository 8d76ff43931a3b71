import NimbleLang.Text.Escape

/-!
Guards: the conditions attached to a path through a network. A guard is always true, or a predicate that
the host decides, or a precedence condition (`level` must be at least the current one), or a combination.
The operands of a combination are listed in a fixed order, and guards with the same operands in another
order count as different.
-/

namespace NimbleLang

inductive Guard where
  | always
  | predicate (rule index : Int) (contextual : Bool)
  | precedence (level : Int)
  | all (operands : List Guard)
  | any (operands : List Guard)
  deriving Repr, Inhabited

namespace Guard

/-! ## Equality -/

mutual
def same : Guard → Guard → Bool
  | always, always => true
  | predicate r i c, predicate r' i' c' => r == r' && i == i' && c == c'
  | precedence p, precedence q => p == q
  | all xs, all ys => sameEach xs ys
  | any xs, any ys => sameEach xs ys
  | _, _ => false

def sameEach : List Guard → List Guard → Bool
  | [], [] => true
  | x :: xs, y :: ys => same x y && sameEach xs ys
  | _, _ => false
end

mutual
theorem same_iff : (a b : Guard) → (same a b = true ↔ a = b)
  | always, b => by cases b <;> simp [same]
  | predicate r i c, b => by cases b <;> simp [same, and_assoc]
  | precedence p, b => by cases b <;> simp [same]
  | all xs, b => by cases b <;> simp [same, sameEach_iff xs]
  | any xs, b => by cases b <;> simp [same, sameEach_iff xs]

theorem sameEach_iff : (as bs : List Guard) → (sameEach as bs = true ↔ as = bs)
  | [], bs => by cases bs <;> simp [sameEach]
  | a :: as, bs => by cases bs <;> simp [sameEach, same_iff a, sameEach_iff as]
end

instance : DecidableEq Guard := fun a b => decidable_of_iff (same a b = true) (same_iff a b)

/-! ## Text -/

mutual
/-- A guard as text. Precedence conditions and the guard that always holds have only a general description. -/
def spell : Guard → String
  | always => "<EmptySemanticContext>"
  | predicate r i _ => "\x7b" ++ toString r ++ ":" ++ toString i ++ "\x7d?"
  | precedence _ => "<PrecedencePredicate>"
  | all xs => Text.joinWith "&&" (spellEach xs)
  | any xs => Text.joinWith "||" (spellEach xs)

def spellEach : List Guard → List String
  | [] => []
  | g :: gs => spell g :: spellEach gs
end

/-! ## Truth -/

section Truth

variable {m : Type → Type} [Monad m]

mutual
/-- The truth of a guard, asking `predicate` and `precedence` as far as needed, from the left. The guard that
always holds has no truth value of its own. -/
def eval (predicate : Int → Int → Bool → m Bool) (precedence : Int → m Bool) : Guard → m (Option Bool)
  | .always => pure none
  | .predicate r i c => do return some (← predicate r i c)
  | .precedence p => do return some (← precedence p)
  | .all xs => do return some (← evalUntil predicate precedence false xs)
  | .any xs => do return some (← evalUntil predicate precedence true xs)

/-- The truth of operands of which the first one that comes out as `stop` decides. -/
def evalUntil (predicate : Int → Int → Bool → m Bool) (precedence : Int → m Bool) (stop : Bool) : List Guard → m Bool
  | [] => pure !stop
  | g :: gs => do
    if ((← eval predicate precedence g) == some true) = stop then return stop
    evalUntil predicate precedence stop gs
end

end Truth

end Guard

end NimbleLang
