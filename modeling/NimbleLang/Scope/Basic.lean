import NimbleLang.Assoc
import NimbleLang.Scope.Type

/-!
Scopes: what names stand for in a function, in the main part, or outside of both. Parameters and variables are
numbered apart, in the order they are defined; functions are not numbered. A name that is defined again keeps
its place in the scope and gets a new symbol.
-/

namespace NimbleLang

structure Symbol where
  name : String
  type : Option SymbolType
  isParameter : Bool := false
  index : Nat := 0
  deriving DecidableEq, Repr, Inhabited

namespace Symbol

def spell (s : Symbol) : String :=
  "Symbol " ++ s.name ++ " : " ++ spellType s.type ++ " " ++ (if s.isParameter then "(param)" else "")

def isFunction (s : Symbol) : Bool := s.type.any SymbolType.isFunction

end Symbol

structure Scope where
  name : String
  /-- The type of what is returned here; outside of functions there is none. -/
  returns : Option SymbolType
  symbols : List (String × Symbol) := []
  locals : Nat := 0
  parameters : Nat := 0
  deriving DecidableEq, Repr, Inhabited

namespace Scope

/-- The symbol of a name in this scope. -/
def find? (s : Scope) (name : String) : Option Symbol := Assoc.get? name s.symbols

/-- Gives a name a symbol. -/
def define (s : Scope) (name : String) (type : Option SymbolType) (isParameter : Bool) : Scope :=
  let enter (symbol : Symbol) : Scope := { s with symbols := Assoc.put name symbol s.symbols }
  if isParameter then
    { enter { name, type, isParameter, index := s.parameters } with parameters := s.parameters + 1 }
  else match type with
    | some (.value _) => { enter { name, type, index := s.locals } with locals := s.locals + 1 }
    | _ => enter { name, type }

/-- Gives a name a variable of a simple type. -/
def defineValue (s : Scope) (name : String) (t : Ty) (isParameter : Bool) : Scope :=
  s.define name (some (.value t)) isParameter

def parameterSymbols (s : Scope) : List Symbol := (s.symbols.map (·.2)).filter (·.isParameter)

def localVariables (s : Scope) : List Symbol :=
  (s.symbols.map (·.2)).filter fun x => !x.isParameter && !x.isFunction

def functions (s : Scope) : List Symbol := (s.symbols.map (·.2)).filter (·.isFunction)

def spell (s : Scope) : String :=
  "scope: " ++ s.name ++ " returns " ++ spellType s.returns ++ "\n" ++
    Text.joinWith "\n" (s.symbols.map fun (n, x) => "  " ++ n ++ " : " ++ x.spell)

end Scope

end NimbleLang
