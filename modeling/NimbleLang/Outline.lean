import NimbleLang.Interval

/-!
Outlines: structured descriptions of values, for reports that a program reads rather than a person.
-/

namespace NimbleLang

inductive Outline where
  | nothing
  | flag (b : Bool)
  | number (n : Int)
  | text (s : String)
  | list (items : List Outline)
  | record (fields : List (String × Outline))
  deriving Repr, Inhabited

namespace Outline

def maybe {α : Type} (f : α → Outline) : Option α → Outline
  | some a => f a
  | none => nothing

def count (n : Nat) : Outline := number n

def numbers (xs : List Int) : Outline := list (xs.map number)

def counts (xs : List Nat) : Outline := list (xs.map count)

def texts (xs : List String) : Outline := list (xs.map text)

/-! ## Reading -/

def toInt : Outline → Int
  | number n => n
  | flag true => 1
  | _ => 0

def toInt? : Outline → Option Int
  | nothing => none
  | v => some v.toInt

def toStr? : Outline → Option String
  | text s => some s
  | _ => none

def toStr (v : Outline) : String := v.toStr?.getD ""

/-- Whether there is something: neither nothing, nor zero, nor an empty text. -/
def toBool : Outline → Bool
  | flag b => b
  | number n => n != 0
  | nothing => false
  | text s => s != ""
  | _ => true

def toItems : Outline → List Outline
  | list xs => xs
  | _ => []

def toInts (v : Outline) : List Int := v.toItems.map toInt

def fields : Outline → List (String × Outline)
  | record fs => fs
  | _ => []

/-- A field, by name. -/
def get (v : Outline) (k : String) : Outline := (v.fields.lookup k).getD nothing

/-- An item, by place. -/
def item (v : Outline) (i : Nat) : Outline := v.toItems.getD i nothing

end Outline

/-- The spans of a set as pairs. -/
def IntervalSet.outline (s : IntervalSet) : Outline :=
  Outline.maybe (fun spans => .list (spans.map fun v => .list [.number v.lo, .number v.hi])) s.spans

end NimbleLang
