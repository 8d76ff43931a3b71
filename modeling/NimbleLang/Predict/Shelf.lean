import NimbleLang.Predict.Outline
import NimbleLang.Context.Canonical

/-!
Shelves: named sets of configurations that may share members. A configuration put into one set can be put
into another as well, and when a set merges something into it, the other set shows the change. A set that
was sealed keeps no index of its members any more: nothing can be looked up in it.
-/

namespace NimbleLang.Predict

/-- A set on a shelf: its members by place on the shelf, in order; a member may come twice. -/
structure ShelfSet where
  members : Array Nat := #[]
  /-- The places that can be looked up; `none` once the set was sealed. -/
  index : Option (List Nat) := some []
  sealed : Bool := false
  /-- What the set is, apart from its members. -/
  traits : ConfigSet
  deriving Inhabited

structure Shelf where
  full : Bool
  configs : Array Config := #[]
  sets : List (String × ShelfSet) := []

namespace Shelf

abbrev Act := Run Shelf

def isSealed : String := "This set is readonly"

/-- The set with a name, which is there from its first mention on. -/
def named (name : String) : Act ShelfSet := do
  let s ← get
  return (s.sets.lookup name).getD { traits := { fullContext := s.full } }

def put (name : String) (set_ : ShelfSet) : Act Unit :=
  modify fun s => { s with sets := (name, set_) :: s.sets.filter (·.1 != name) }

def configAt (place : Nat) : Act Config := do return (← get).configs.getD place default

/-- The set as a plain value. -/
def view (name : String) : Act ConfigSet := do
  let set_ ← named name
  let configs ← set_.members.mapM configAt
  return { set_.traits with configs }

/-- A new configuration on the shelf. -/
def place (c : Config) : Act Nat := do
  let n := (← get).configs.size
  modify fun s => { s with configs := s.configs.push c }
  return n

def findIn (places : List Nat) (c : Config) : Act (Option Nat) := do
  let s ← get
  return places.find? fun n => (s.configs.getD n default).sameKey c

/-- Adds a configuration on the shelf to a set, or merges it into the member with the same key. A configuration that
is a member already is added once more. -/
def add (name : String) (n : Nat) : Act Unit := do
  let set_ ← named name
  if set_.sealed then throw (.because isSealed)
  let c ← configAt n
  let set_ := { set_ with traits := set_.traits.note c }
  put name set_
  let index ← Fault.absent.unless set_.index
  match ← findIn index c with
  | none => put name { set_ with members := set_.members.push n, index := some (index ++ [n]) }
  | some old =>
    if old = n then put name { set_ with members := set_.members.push n }
    else
      let before ← configAt old
      let absorbed : Context.Merging Unit Config := ConfigSet.absorb (!set_.traits.fullContext) before c
      let after ← (absorbed.outcome {}).1
      modify fun s => { s with configs := s.configs.setIfInBounds old after }

/-- Adds all members of a set to another one. -/
def addAll (name other : String) : Act Unit := do
  (← named other).members.toList.forM (add name)

def contains (name : String) (c : Config) : Act Bool := do
  match (← named name).index with
  | none => throw (.unsupported "This method is not implemented for readonly sets.")
  | some index => return (← findIn index c).isSome

def clear (name : String) : Act Unit := do
  let set_ ← named name
  if set_.sealed then throw (.illegalState isSealed)
  put name { set_ with members := #[] }
  let _ ← Fault.absent.unless set_.index
  put name { set_ with members := #[], index := some [] }

/-- Seals a set, or lifts the seal. -/
def setSealed (name : String) (b : Bool) : Act Unit := do
  put name { (← named name) with sealed := b, index := none }

mutual
/-- Whether every way down from a context ends at the bottom of the stack. -/
def grounded {ν : Type} : Context ν → Bool
  | .unknown => false
  | .root => true
  | .call _ below _ => grounded below
  | .fork mark branches => (Context.fork mark branches).isEmpty || groundedBranches branches

def groundedBranches {ν : Type} : Branches ν → Bool
  | .nil => true
  | .cons below _ rest => grounded below && groundedBranches rest
end

/-- Makes the contexts of the members canonical. Nothing can be seen of it, but only grounded contexts can be. -/
def optimize (name : String) : Act Unit := do
  if (← named name).sealed then throw (.illegalState isSealed)
  if (← view name).configs.any fun c => !grounded c.context then throw .absent

def modifyTraits (name : String) (f : ConfigSet → ConfigSet) : Act Unit := do
  let set_ ← named name
  put name { set_ with traits := f set_.traits }

/-- What the members say about conflicts. -/
def conflictOutline (net : Network) (s : ConfigSet) : Except Fault Outline := do
  let configs := s.configs.toList
  return .record [
    ("subsets", .list ((conflictSets configs).map .numbers)),
    ("stateAlts", .list ((stateAlts configs).map fun (n, alts) => .list [.count n, .numbers alts])),
    ("oneAlt", .flag (hasLoneState configs)), ("anyStop", .flag (anyAtRuleStop net configs)),
    ("allStop", .flag (allAtRuleStop net configs)),
    ("sll", .list [.flag (← endsInConflict net .local_ s), .flag (← endsInConflict net .full s)])]

/-- A set as an automaton node would show it. -/
def spellAs (s : ConfigSet) (number : Int) (accepts : Bool) (prediction : Int) : String :=
  spellNode { content := s, accepts, prediction } number

end Shelf

end NimbleLang.Predict
