import NimbleLang.Predict.Config

/-!
Sets of configurations, in the order of their first addition, each key once. In full-context sets the
bottom of the stack is a way like others when contexts are merged; otherwise it stands for any context.
-/

namespace NimbleLang.Predict

structure ConfigSet where
  fullContext : Bool
  configs : Array Config := #[]
  uniqueAlt : Int := 0
  /-- The alternatives in conflict, in increasing order. -/
  conflicting : Option (List Int) := none
  hasGuards : Bool := false
  dips : Bool := false
  deriving DecidableEq, Repr, Inhabited

namespace ConfigSet

/-- Equality of sets: the same configurations in the same order, and the same findings. -/
def same (a b : ConfigSet) : Bool :=
  a.configs.size == b.configs.size && (a.configs.toList.zip b.configs.toList).all (fun (x, y) => x.same y)
  && a.fullContext == b.fullContext && a.uniqueAlt == b.uniqueAlt && a.conflicting == b.conflicting
  && a.hasGuards == b.hasGuards && a.dips == b.dips

instance : BEq ConfigSet := ⟨same⟩

/-- Notes what a configuration says about the set it enters. -/
def note (s : ConfigSet) (c : Config) : ConfigSet :=
  { s with hasGuards := s.hasGuards || c.guard ≠ .always, dips := s.dips || c.outer > 0 }

/-- The configuration that takes in another one with the same key. -/
def absorb (wildcard : Bool) (old new : Config) : Context.Merging Unit Config := do
  let context ← Context.merge wildcard old.context new.context
  return { old with context, outer := max old.outer new.outer, exempt := old.exempt || new.exempt }

/-- Adds a configuration; yields its place, and whether it is new there. -/
def insert (s : ConfigSet) (c : Config) : Context.Merging Unit (ConfigSet × Nat × Bool) := do
  let s := s.note c
  match s.configs.findIdx? (·.sameKey c) with
  | none => return ({ s with configs := s.configs.push c }, s.configs.size, true)
  | some i =>
    let merged ← absorb (!s.fullContext) (s.configs.getD i default) c
    return ({ s with configs := s.configs.setIfInBounds i merged }, i, false)

def add (s : ConfigSet) (c : Config) : Context.Merging Unit ConfigSet := do return (← s.insert c).1

/-- The alternatives of a set, in increasing order. -/
def alts (s : ConfigSet) : List Int := ((s.configs.toList.map (·.alt)).eraseDups).mergeSort (· ≤ ·)

def spell (s : ConfigSet) : String :=
  Text.bracketed (s.configs.toList.map Config.spell)
  ++ (if s.hasGuards then ",hasSemanticContext=True" else "")
  ++ (if s.uniqueAlt ≠ 0 then ",uniqueAlt=" ++ toString s.uniqueAlt else "")
  ++ (match s.conflicting with
      | some alts => ",conflictingAlts=" ++ Text.numberSet alts
      | none => "")
  ++ (if s.dips then ",dipsIntoOuterContext" else "")

end ConfigSet

end NimbleLang.Predict
