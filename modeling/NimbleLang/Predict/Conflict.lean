import NimbleLang.Predict.ConfigSet
import NimbleLang.Network.Basic

/-!
Conflicts among alternatives. The configurations of a set that agree in state and context, and differ in
their alternative, are in conflict: no further input can tell them apart. The functions here look at the
sets of alternatives that share a state and a context.
-/

namespace NimbleLang.Predict

/-- How far a decision goes to settle a conflict. -/
inductive Mode where
  /-- Without the calling context. -/
  | local_
  | full
  /-- As `full`, going on until it is certain which alternatives are ambiguous. -/
  | exact
  deriving DecidableEq, Repr, Inhabited

/-- A number put into an increasing list, once. -/
def insertAlt (a : Int) : List Int → List Int
  | [] => [a]
  | b :: rest => if a < b then a :: b :: rest else if a = b then b :: rest else b :: insertAlt a rest

/-- Numbers in increasing order, each once. -/
def altSet (xs : List Int) : List Int := xs.foldl (fun s a => insertAlt a s) []

/-! ## Sets of alternatives -/

def hasNonConflicting (sets : List (List Int)) : Bool := sets.any (·.length == 1)

def hasConflicting (sets : List (List Int)) : Bool := sets.any (·.length > 1)

def allConflict (sets : List (List Int)) : Bool := !hasNonConflicting sets

def allEqual : List (List Int) → Bool
  | [] => true
  | first :: rest => rest.all (· == first)

/-- All alternatives of some sets; no sets have no union. -/
def unionAlts (sets : List (List Int)) : Except Fault (List Int) :=
  if sets.isEmpty then .error .mistyped else .ok (altSet sets.flatten)

/-- The one alternative there is, or zero. -/
def onlyAlt (sets : List (List Int)) : Except Fault Int := do
  match ← unionAlts sets with
  | [a] => return a
  | _ => return 0

def smallest : List Int → Except Fault Int
  | [] => .error (.invalidValue "min() arg is an empty sequence")
  | a :: rest => .ok (rest.foldl min a)

/-- The alternative that is the smallest of every set, or zero if they differ. -/
def singleViable (sets : List (List Int)) : Except Fault Int := go sets []
where
  go : List (List Int) → List Int → Except Fault Int
    | [], viable => smallest viable
    | s :: rest, viable => do
      let viable := insertAlt (← smallest s) viable
      if viable.length > 1 then return 0 else go rest viable

/-! ## Sets of configurations -/

/-- A keyed collection of alternatives with one more entry. -/
def enter {κ : Type} (eq : κ → κ → Bool) (key : κ) (alt : Int) : List (κ × List Int) → List (κ × List Int)
  | [] => [(key, [alt])]
  | (k, alts) :: rest => if eq k key then (k, insertAlt alt alts) :: rest else (k, alts) :: enter eq key alt rest

/-- The alternatives that share a state and a context, in order of first appearance. -/
def conflictSets (configs : List Config) : List (List Int) :=
  (configs.foldl (fun m c => enter (fun (s, x) (s', x') => s == s' && x.same x') (c.state, c.context) c.alt m)
    []).map (·.2)

/-- The alternatives that share a state. -/
def stateAlts (configs : List Config) : List (Nat × List Int) :=
  configs.foldl (fun m c => enter (· == ·) c.state c.alt m) []

/-- Whether some state belongs to one alternative only. -/
def hasLoneState (configs : List Config) : Bool := (stateAlts configs).any (·.2.length == 1)

def atRuleStop (net : Network) (c : Config) : Bool := (net.state c.state).kind == .ruleStop

def anyAtRuleStop (net : Network) (configs : List Config) : Bool := configs.any (atRuleStop net)

def allAtRuleStop (net : Network) (configs : List Config) : Bool := configs.all (atRuleStop net)

/-- The configurations of a set without their guards. -/
def withoutGuards (s : ConfigSet) : Except Fault ConfigSet :=
  let strip : Context.Merging Unit ConfigSet :=
    s.configs.foldlM (fun (d : ConfigSet) c => d.add { c with guard := .always }) { fullContext := true }
  (strip.outcome {}).1

/-- Whether a set of configurations cannot be told apart any further without the calling context. In local mode
guards do not count. -/
def endsInConflict (net : Network) (mode : Mode) (s : ConfigSet) : Except Fault Bool := do
  if allAtRuleStop net s.configs.toList then return true
  let s ← if mode = .local_ && s.hasGuards then withoutGuards s else pure s
  let configs := s.configs.toList
  return hasConflicting (conflictSets configs) && !hasLoneState configs

/-- The alternative of all configurations, or zero. -/
def uniqueAlt (configs : List Config) : Int :=
  match configs with
  | [] => 0
  | c :: rest => if rest.all (·.alt == c.alt) then c.alt else 0

end NimbleLang.Predict
