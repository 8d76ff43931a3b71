import NimbleLang.Text.Source

/-!
Counting the lines of a text. A line feed, a carriage return, the two together, a vertical tab, a form feed, the
three information separators, the next-line character and the two separators of Unicode end a line. What stands
after the last of them is a line if it is not empty.
-/

namespace NimbleLang.Text

def isLineEnd (c : Char) : Bool :=
  [0x0a, 0x0b, 0x0c, 0x0d, 0x1c, 0x1d, 0x1e, 0x85, 0x2028, 0x2029].contains c.toNat

/-- The lines of the rest of a text; `begun` tells that a line has been begun. -/
def lineCountFrom (begun : Bool) : List Char → Nat
  | [] => if begun then 1 else 0
  | '\r' :: '\n' :: cs => lineCountFrom false cs + 1
  | c :: cs => if isLineEnd c then lineCountFrom false cs + 1 else lineCountFrom true cs

def lineCount (s : String) : Nat := lineCountFrom false s.toList

end NimbleLang.Text
