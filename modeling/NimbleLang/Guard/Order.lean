import NimbleLang.Guard.Basic

/-!
The order of operands. A combination of guards lists each operand once, and the order of the list is the
order of the slots of a small table in which the operands were entered: a guard's code chooses its slot, a
taken slot sends it on. The code of a predicate mixes its two numbers and its flag; all precedence
conditions have the same code, so that among themselves they stand as the probing leaves them.
-/

namespace NimbleLang.Guard

/-- The code of a number: the number itself, where `-1` shares the code of `-2`. -/
def numberCode (n : Int) : UInt64 := UInt64.ofNat ((if n = -1 then -2 else n) % 18446744073709551616).toNat

def rotateLeft (x : UInt64) (k : UInt64) : UInt64 := (x <<< k) ||| (x >>> (64 - k))

/-- Mixes the codes of the parts of a value into one. -/
def mix (parts : List UInt64) : UInt64 :=
  let step (acc lane : UInt64) : UInt64 :=
    rotateLeft (acc + lane * 14029467366897019727) 31 * 11400714785074694791
  let acc := parts.foldl step 2870177450012600261
  let acc := acc + (UInt64.ofNat parts.length ^^^ (2870177450012600261 ^^^ 3527539))
  if acc = 18446744073709551615 then 1546275796 else acc

mutual
def code : Guard → UInt64
  | always => 0
  | predicate r i c => mix [numberCode r, numberCode i, if c then 1 else 0]
  | precedence _ => 31
  | all xs => mix [codeEach 0 xs, 4279876]
  | any xs => mix [codeEach 0 xs, 21071]

def codeEach (acc : UInt64) : List Guard → UInt64
  | [] => acc
  | g :: gs => codeEach (mix [acc, code g]) gs
end

/-- A table of slots, whose number is a power of two. -/
structure Slots where
  slots : Array (Option Guard) := Array.replicate 8 none

namespace Slots

def toList (t : Slots) : List Guard := t.slots.toList.filterMap id

/-- The slot of a guard. -/
def slot (t : Slots) (g : Guard) : Nat := t.slots.toList.idxOf (some g)

/-- What a probe for a guard ends at. -/
inductive Probe where
  | free (slot : Nat)
  | found
  | next

/-- Looks at `run + 1` slots in a row from `slot` on. -/
def probeRun (t : Slots) (g : Guard) : Nat → Nat → Probe
  | run, slot =>
    match t.slots.getD slot none with
    | none => .free slot
    | some h =>
      if h = g then .found
      else match run with
        | 0 => .next
        | run + 1 => probeRun t g run (slot + 1)

/-- Where a guard belongs: `none` if it is in the table already. -/
def place (t : Slots) (g : Guard) : Nat → Nat → UInt64 → Option Nat
  | 0, _, _ => none
  | fuel + 1, slot, perturb =>
    match t.probeRun g (if slot + 9 < t.slots.size then 9 else 0) slot with
    | .free n => some n
    | .found => none
    | .next =>
      let perturb := perturb >>> 5
      t.place g fuel ((slot * 5 + 1 + perturb.toNat) % t.slots.size) perturb

def put (t : Slots) (g : Guard) : Slots :=
  let h := g.code
  match t.place g (t.slots.size + 64) (h.toNat % t.slots.size) h with
  | some n => ⟨t.slots.set! n (some g)⟩
  | none => t

/-- The number of slots of a table that makes room for `used` operands. -/
def room (used : Nat) : Nat → Nat
  | 0 => 8
  | k + 1 => if used * 4 < 8 * 2 ^ k then room used k else 8 * 2 ^ (k + 1)

/-- Enters a guard. A table that is three fifths full is exchanged for one four times as large as needed. -/
def insert (t : Slots) (g : Guard) : Slots :=
  let t' := t.put g
  let used := t'.toList.length
  if used = t.toList.length ∨ used * 5 < (t'.slots.size - 1) * 3 then t'
  else t'.toList.foldl put ⟨Array.replicate (room used used) none⟩

end Slots

/-- Enters a guard once into a list in the order of slots. -/
def enter (slot : Guard → Nat) (g : Guard) : List Guard → List Guard
  | [] => [g]
  | h :: rest => if g = h then h :: rest else if slot g < slot h then g :: h :: rest else h :: enter slot g rest

/-- The operands of a combination, from the two sides in order. -/
def ordered (operands : List Guard) : List Guard := operands.foldr (enter (operands.foldl Slots.insert {}).slot) []

end NimbleLang.Guard
