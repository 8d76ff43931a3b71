import NimbleLang.Scope.Basic
import NimbleLang.Outline

/-!
Scopes inside each other. A tree of scopes is a table: every scope has a number, the number of the scope around it,
which is smaller, and the scopes registered as its children, by name. Registering a child under a name that was
used before takes the place of the earlier child; that one keeps its number and the scope around it, and is
no longer found by name.
-/

namespace NimbleLang

structure Nested where
  scope : Scope
  enclosing : Option Nat := none
  children : List (String × Nat) := []
  deriving DecidableEq, Repr, Inhabited

abbrev Scopes := Array Nested

namespace Scopes

/-- A tree of one scope. -/
def root (name : String) (returns : Option SymbolType) : Scopes := #[{ scope := { name, returns } }]

def scope (t : Scopes) (n : Nat) : Scope := (t.getD n default).scope

/-- Changes a scope. -/
def update (t : Scopes) (n : Nat) (f : Scope → Scope) : Scopes := t.modify n fun x => { x with scope := f x.scope }

def define (t : Scopes) (n : Nat) (name : String) (type : Option SymbolType) (isParameter : Bool) : Scopes :=
  t.update n (·.define name type isParameter)

/-- Makes a scope inside scope `n` and registers it there; its number is the size of the table before. -/
def createChild (t : Scopes) (n : Nat) (name : String) (returns : Option SymbolType) : Scopes :=
  (t.modify n fun x => { x with children := Assoc.put name t.size x.children }).push
    { scope := { name, returns }, enclosing := some n }

def childNamed (t : Scopes) (n : Nat) (name : String) : Option Nat := Assoc.get? name (t.getD n default).children

def enclosing (t : Scopes) (n : Nat) : Option Nat := (t.getD n default).enclosing

/-- The symbol of a name in scope `n` or, failing that, in the scopes around it. -/
def resolve (t : Scopes) (n : Nat) (name : String) : Option Symbol :=
  match (t.scope n).find? name with
  | some s => some s
  | none =>
    match t.enclosing n with
    | some m => if m < n then resolve t m name else none
    | none => none
termination_by n

end Scopes

/-! ## Outlines -/

def Symbol.outline (s : Symbol) : Outline :=
  .list [.text s.name, .text ((s.type.map SymbolType.name).getD "None"), .flag s.isParameter, .count s.index]

/-- A scope with all inside it. -/
def Scopes.outlineFrom (t : Scopes) : Nat → Nat → Outline
  | 0, _ => .nothing
  | fuel + 1, n =>
    let s := t.scope n
    let symbols (xs : List Symbol) : Outline := .list (xs.map Symbol.outline)
    .record [("repr", .text s.spell), ("params", symbols s.parameterSymbols), ("locals", symbols s.localVariables),
      ("funcs", symbols s.functions),
      ("children", .list ((t.getD n default).children.map fun (name, m) => .list [.text name, outlineFrom t fuel m]))]

def Scopes.outline (t : Scopes) (n : Nat) : Outline := t.outlineFrom (t.size + 1) n

end NimbleLang
