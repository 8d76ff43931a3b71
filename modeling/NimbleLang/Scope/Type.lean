import NimbleLang.Text.Escape

/-!
The types of Nimble. Expressions and variables have a simple type; a function has a type of its own. `error`
is the type of what cannot be given a type, and `void` the return type of a function that returns nothing.
-/

namespace NimbleLang

inductive Ty where
  | int
  | bool
  | string
  | void
  | error
  deriving DecidableEq, Repr, Inhabited

namespace Ty

def name : Ty → String
  | int => "Int"
  | bool => "Bool"
  | string => "String"
  | void => "Void"
  | error => "ERROR"

def all : List Ty := [int, bool, string, void, error]

def named? (s : String) : Option Ty := all.find? (·.name == s)

/-- A type as messages name it. -/
def spell (t : Ty) : String := "PrimitiveType." ++ t.name

end Ty

/-- The type of a symbol. -/
inductive SymbolType where
  | value (t : Ty)
  | function (parameters : List Ty) (returns : Ty)
  deriving DecidableEq, Repr, Inhabited

namespace SymbolType

def signature (ps : List Ty) (r : Ty) : String := "(" ++ Text.joinWith ", " (ps.map Ty.name) ++ ") -> " ++ r.name

def name : SymbolType → String
  | value t => t.name
  | function ps r => signature ps r

/-- A type as messages name it. -/
def spell : SymbolType → String
  | value t => t.spell
  | function ps r => signature ps r

def isFunction : SymbolType → Bool
  | function _ _ => true
  | value _ => false

end SymbolType

/-- A type that may be missing. -/
def spellType (t : Option SymbolType) : String := (t.map SymbolType.spell).getD "None"

end NimbleLang
