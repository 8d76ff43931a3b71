import NimbleLang.Fault

/-!
Cursors: a source with a position. Looking ahead past either end yields `Source.endMark`, looking at
offset zero yields `0`, and a negative offset looks back. Seeking backwards goes wherever it is told, so a
position may be negative; seeking forwards stops at the end.
-/

namespace NimbleLang

/-- A source and a position in it. -/
structure Cursor where
  source : Source
  index : Int := 0
  deriving DecidableEq, Repr, Inhabited

namespace Cursor

def ofString (s : String) : Cursor := { source := Source.ofString s }

/-- The code point `offset` characters ahead (`1` is the next one). -/
def peek (c : Cursor) (offset : Int) : Int :=
  if offset = 0 then 0
  else c.source.codeAt (c.index + (if offset < 0 then offset + 1 else offset) - 1)

/-- Moves over one character; the end cannot be passed. -/
def consume (c : Cursor) : Except Fault Cursor :=
  if c.index ≥ c.source.size then .error (.because "cannot consume EOF")
  else .ok { c with index := c.index + 1 }

def seek (c : Cursor) (i : Int) : Cursor :=
  { c with index := if i ≤ c.index then i else min i c.source.size }

def reset (c : Cursor) : Cursor := { c with index := 0 }

end Cursor

end NimbleLang
