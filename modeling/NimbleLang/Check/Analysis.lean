import NimbleLang.Check.Body
import NimbleLang.Scope.Tree

/-!
The analysis of a program, in two phases. The first makes the scopes: the functions are defined outside of all of
them, and each function and the main part get a scope inside. The second checks functions and main part in their
scopes, in order. Functions of one name share the scope that was made last for that name.
-/

namespace NimbleLang

structure Analysis where
  scopes : Scopes
  notes : Notes := {}
  deriving Repr, Inhabited

namespace Analysis

/-- The scope around all others. -/
def global : Nat := 0

def start : Analysis := { scopes := .root "$global" none }

def log (a : Analysis) : ErrorLog := .ofFindings a.notes.findings

/-! ## First phase -/

/-- Defines a function and makes its scope. -/
def declareFunction (t : Scopes) (f : FuncDef) : Scopes :=
  (t.define global f.name (some f.type) false).createChild global f.name (some (.value f.returnType))

def declareMain (t : Scopes) : Scopes := t.createChild global "$main" (some (.value .void))

/-- Makes the scopes of a phrase. -/
def declare (t : Scopes) : Phrase → Scopes
  | .script s => declareMain (s.functions.foldl declareFunction t)
  | .funcDef f => declareFunction t f
  | .main _ => declareMain t
  | _ => t

/-! ## Second phase -/

/-- What names stand for around a scope. -/
def around (t : Scopes) (n : Nat) : Check.Lookup :=
  match t.enclosing n with
  | some m => t.resolve m
  | none => fun _ => none

/-- Runs a check in scope `n`. -/
def within (a : Analysis) (n : Nat) (check : Check.Lookup → Scope → Except Fault (Scope × Notes)) :
    Except Fault Analysis := do
  let (s, notes) ← check (around a.scopes n) (a.scopes.scope n)
  return { scopes := a.scopes.update n fun _ => s, notes := a.notes ++ notes }

/-- Runs a check in the scope of that name. -/
def inside (a : Analysis) (name : String) (check : Check.Lookup → Scope → Except Fault (Scope × Notes)) :
    Except Fault Analysis := do
  within a (← Fault.absent.unless (a.scopes.childNamed global name)) check

def checkFunction (a : Analysis) (f : FuncDef) : Except Fault Analysis :=
  a.inside f.name fun outer s => Check.function outer s f

def checkMain (a : Analysis) (b : Body) : Except Fault Analysis := a.inside "$main" fun outer s => Check.body outer s b

/-- Checks that leave the scope as it is. -/
def plain (check : Check.Lookup → Except Fault Notes) (outer : Check.Lookup) (s : Scope) : Except Fault (Scope × Notes) := do
  return (s, ← check (Check.lookIn outer s))

/-- Checks a phrase. A block that stands alone cannot be checked: it must be known what it belongs to. -/
def check (a : Analysis) : Phrase → Except Fault Analysis
  | .script s => do
    let a ← s.functions.foldlM checkFunction a
    a.checkMain s.main
  | .funcDef f => a.checkFunction f
  | .main b => a.checkMain b
  | .body b => a.within global fun outer s => Check.body outer s b
  | .parameter p => a.within global fun _ s => .ok (Check.parameter s p)
  | .varBlock vs => a.within global fun outer s => Check.varDecs outer s vs
  | .varDec v => a.within global fun outer s => Check.varDec outer s v
  | .block _ => .error .absent
  | .statement st => a.within global fun outer s => plain (fun look => Check.statement look s.returns st) outer s
  | .expr e => a.within global (plain fun look => do return (← Check.expr look e).2)
  | .call c => a.within global (plain fun look => do return (← Check.call look c).2)

/-- Analyses a phrase, or only makes its scopes. -/
def run (p : Phrase) (firstOnly : Bool) : Except Fault Analysis :=
  let a : Analysis := { start with scopes := declare start.scopes p }
  if firstOnly then .ok a else a.check p

/-! ## Types by line -/

/-- The types of expressions by line and text; of two with the same line and text, the later one counts. -/
def typesByLine (a : Analysis) : List (Int × List (String × Ty)) :=
  a.notes.types.foldl (fun m (node, t) => Assoc.put node.line (Assoc.put node.text t ((Assoc.get? node.line m).getD [])) m) []

/-- The types of expressions as a list, sorted by line and text. -/
def spellTypes (a : Analysis) : String :=
  let lines := a.typesByLine.mergeSort fun x y => x.1 ≤ y.1
  Text.joinWith "\n" (lines.flatMap fun (line, ts) =>
    ("line " ++ toString line ++ ":") ::
      (ts.mergeSort fun x y => !(y.1 < x.1)).map fun (text, t) => "  " ++ text ++ " : " ++ t.spell)

end Analysis

end NimbleLang
