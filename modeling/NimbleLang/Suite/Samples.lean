import NimbleLang.Scope.Type
import NimbleLang.ErrorLog
import NimbleLang.Outline

/-!
Samples: pieces of Nimble with what is expected of their analysis, in tables. A table may be replaced by one read
from an outline; tables go by their place among the fields of `Samples`.
-/

namespace NimbleLang

/-- A source with what is expected of it. -/
structure Judged (α : Type) where
  source : String
  expected : α
  deriving Repr, Inhabited

/-- A source with what is expected of one name or expression in it. -/
structure About (α : Type) where
  source : String
  subject : String
  expected : α
  deriving Repr, Inhabited

structure Samples where
  validExpressions : List (Judged SymbolType)
  invalidExpressions : List (Judged Category)
  validDeclarations : List (About SymbolType)
  invalidDeclarations : List (About Category)
  validVariables : List (About SymbolType)
  invalidVariables : List String
  validPrints : List String
  invalidPrints : List (Judged (List Category))
  validAssignments : List (About SymbolType)
  invalidAssignments : List (Judged Category)
  validLoops : List String
  invalidLoops : List String
  validBranches : List String
  invalidBranches : List String
  /-- Functions by name with their types. -/
  functionTypes : List (Judged (List (String × SymbolType)))
  /-- Functions by name with the types of their parameters, by name. -/
  parameterTypes : List (Judged (List (String × List (String × SymbolType))))
  invalidParameters : List (Judged Category)
  validCalls : List String
  invalidCalls : List String
  validReturns : List String
  invalidReturns : List String
  callTypes : List (About SymbolType)
  invalidCallExpressions : List (Judged Category)
  unreachable : List String
  missingReturns : List String
  completeReturns : List String
  deriving Repr, Inhabited

/-! ## Reading -/

/-- A simple type by its name, a function type as its parameters' types and its own, nothing for no type. -/
def SymbolType.read? : Outline → Except Fault (Option SymbolType)
  | .nothing => .ok none
  | .list [ps, r] => do
    let ty (v : Outline) : Except Fault Ty := Fault.unknownKey.unless (Ty.named? v.toStr)
    return some (.function (← ps.toItems.mapM ty) (← ty r))
  | v => do return some (.value (← Fault.unknownKey.unless (Ty.named? v.toStr)))

namespace Samples

def readType (v : Outline) : Except Fault SymbolType := do
  let t ← match v.get "func" with
    | .nothing => SymbolType.read? (v.get "type")
    | t => SymbolType.read? t
  Fault.unknownKey.unless t

def readCategory (v : Outline) : Except Fault Category := Fault.unknownKey.unless (Category.named? (v.get "cat").toStr)

def readText (v : Outline) : Except Fault String := .ok v.toStr

def readJudged {α : Type} (read : Outline → Except Fault α) (v : Outline) : Except Fault (Judged α) :=
  return ⟨(v.item 0).toStr, ← read (v.item 1)⟩

def readAbout {α : Type} (read : Outline → Except Fault α) (v : Outline) : Except Fault (About α) :=
  return ⟨(v.item 0).toStr, (v.item 1).toStr, ← read (v.item 2)⟩

/-- A source, an expected type, and the expression that has it. -/
def readCallType (v : Outline) : Except Fault (About SymbolType) :=
  return ⟨(v.item 0).toStr, (v.item 2).toStr, ← readType (v.item 1)⟩

/-- A source, names of functions, and their types in the same order. -/
def readFunctions (v : Outline) : Except Fault (Judged (List (String × SymbolType))) :=
  return ⟨(v.item 0).toStr, ((v.item 1).toItems.map Outline.toStr).zip (← (v.item 2).toItems.mapM readType)⟩

/-- The parameters of a function: its name, and types by name. -/
def readParameters (v : Outline) : Except Fault (String × List (String × SymbolType)) := do
  let types ← ((v.item 1).get "map").fields.mapM fun (name, t) => return (name, ← readType t)
  return ((v.item 0).toStr, types)

/-- The table at a place, if it is given; otherwise the one that stands. -/
def given {α : Type} (tables : Nat → Outline) (place : Nat) (read : Outline → Except Fault α) (standing : List α) :
    Except Fault (List α) :=
  match tables place with
  | .list rows => rows.mapM read
  | _ => .ok standing

/-- Replaces the tables that are given. -/
def revise (s : Samples) (tables : Nat → Outline) : Except Fault Samples := do
  let each {α : Type} (read : Outline → Except Fault α) (v : Outline) : Except Fault (List α) := v.toItems.mapM read
  return {
    validExpressions := ← given tables 0 (readJudged readType) s.validExpressions
    invalidExpressions := ← given tables 1 (readJudged readCategory) s.invalidExpressions
    validDeclarations := ← given tables 2 (readAbout readType) s.validDeclarations
    invalidDeclarations := ← given tables 3 (readAbout readCategory) s.invalidDeclarations
    validVariables := ← given tables 4 (readAbout readType) s.validVariables
    invalidVariables := ← given tables 5 readText s.invalidVariables
    validPrints := ← given tables 6 readText s.validPrints
    invalidPrints := ← given tables 7 (readJudged (each readCategory)) s.invalidPrints
    validAssignments := ← given tables 8 (readAbout readType) s.validAssignments
    invalidAssignments := ← given tables 9 (readJudged readCategory) s.invalidAssignments
    validLoops := ← given tables 10 readText s.validLoops
    invalidLoops := ← given tables 11 readText s.invalidLoops
    validBranches := ← given tables 12 readText s.validBranches
    invalidBranches := ← given tables 13 readText s.invalidBranches
    functionTypes := ← given tables 14 readFunctions s.functionTypes
    parameterTypes := ← given tables 15 (readJudged (each readParameters)) s.parameterTypes
    invalidParameters := ← given tables 16 (readJudged readCategory) s.invalidParameters
    validCalls := ← given tables 17 readText s.validCalls
    invalidCalls := ← given tables 18 readText s.invalidCalls
    validReturns := ← given tables 19 readText s.validReturns
    invalidReturns := ← given tables 20 readText s.invalidReturns
    callTypes := ← given tables 21 readCallType s.callTypes
    invalidCallExpressions :=
      ← given tables 22 (readJudged readCategory) s.invalidCallExpressions
    unreachable := ← given tables 23 readText s.unreachable
    missingReturns := ← given tables 24 readText s.missingReturns
    completeReturns := ← given tables 25 readText s.completeReturns }

end Samples

end NimbleLang
