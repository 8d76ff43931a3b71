import NimbleLang.Guard.Order

/-!
Combining guards and settling precedence. `conj` and `disj` join two guards, where either may be missing:
a missing guard gives way to the other side. A combination of combinations of the same kind is flattened,
and one operand alone stands for itself. `settle` decides the precedence conditions of a guard at a given
level: a guard that cannot hold any more vanishes (`none`).
-/

namespace NimbleLang.Guard

/-- The operands that a guard brings into a conjunction. -/
def conjuncts : Guard → List Guard
  | all xs => xs
  | g => [g]

/-- The operands that a guard brings into a disjunction. -/
def disjuncts : Guard → List Guard
  | any xs => xs
  | g => [g]

/-- Both guards hold. -/
def both (a b : Guard) : Guard :=
  if a = always then b
  else if b = always then a
  else match ordered (conjuncts a ++ conjuncts b) with
    | [g] => g
    | gs => all gs

/-- One of the guards holds. -/
def either (a b : Guard) : Guard :=
  if a = always ∨ b = always then always
  else match ordered (disjuncts a ++ disjuncts b) with
    | [g] => g
    | gs => any gs

def conj : Option Guard → Option Guard → Option Guard
  | none, b => b
  | some always, b => b
  | a, none => a
  | some a, some b => some (both a b)

def disj : Option Guard → Option Guard → Option Guard
  | none, b => b
  | a, none => a
  | some a, some b => some (either a b)

mutual
/-- Decides the precedence conditions: what is left of a guard, `none` if it cannot hold. -/
def settle (precedence : Int → Bool) : Guard → Option Guard
  | always => some always
  | predicate r i c => some (predicate r i c)
  | .precedence p => if precedence p then some always else none
  | all xs =>
    match settleEach precedence xs with
    | rest =>
      if rest = xs.map some then some (all xs)
      else if rest.any (·.isNone) then none
      else match rest.filterMap id |>.filter (· ≠ always) with
        | [] => some always
        | g :: gs => some (gs.foldl both g)
  | any xs =>
    match settleEach precedence xs with
    | rest =>
      if rest = xs.map some then some (any xs)
      else if rest.any (· = some always) then some always
      else match rest.filterMap id with
        | [] => none
        | g :: gs => some (gs.foldl either g)

def settleEach (precedence : Int → Bool) : List Guard → List (Option Guard)
  | [] => []
  | g :: gs => settle precedence g :: settleEach precedence gs
end

end NimbleLang.Guard
