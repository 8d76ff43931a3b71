import NimbleLang.Text.Indexing

/-!
Character sources: the text under study as a sequence of code points.
-/

namespace NimbleLang

/-- The text under study. -/
structure Source where
  chars : Array Char
  deriving DecidableEq, Repr, Inhabited

namespace Source

/-- What stands where there is no character. -/
def endMark : Int := -1

def ofString (s : String) : Source := ⟨s.toList.toArray⟩

def size (s : Source) : Nat := s.chars.size

def text (s : Source) : String := String.ofList s.chars.toList

/-- The code point at a position, or `endMark` outside the source. -/
def codeAt (s : Source) (i : Int) : Int :=
  if 0 ≤ i then
    match s.chars[i.toNat]? with
    | some c => c.toNat
    | none => endMark
  else endMark

/-- The characters from `start` to `stop`, both included. A stop beyond the end means the last
character; negative positions count from the end. -/
def slice (s : Source) (start stop : Int) : String :=
  if start ≥ s.size then ""
  else
    let stop := if stop ≥ s.size then (s.size : Int) - 1 else stop
    String.ofList (Indexing.between s.chars.toList start (stop + 1))

end Source

end NimbleLang
