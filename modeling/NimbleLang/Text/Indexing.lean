/-!
Signed positions in sequences. A position from zero on counts from the front; a negative one counts
from the end, so `-1` is the last element. `wrap?` turns such a position into a plain index, and
`between` cuts out a stretch, where ends outside the sequence are moved to its edge.
-/

namespace NimbleLang.Indexing

/-- The plain index of a signed position in a sequence of `size` elements. -/
def wrap? (size : Nat) (i : Int) : Option Nat :=
  if 0 ≤ i then
    if i.toNat < size then some i.toNat else none
  else
    if 0 ≤ i + size then some (i + size).toNat else none

/-- The edge that a signed end of a stretch stands for. -/
def clamp (size : Nat) (i : Int) : Nat :=
  if 0 ≤ i then min i.toNat size else (i + size).toNat

/-- The elements from signed position `start` up to, not including, `stop`. -/
def between {α : Type} (xs : List α) (start stop : Int) : List α :=
  let a := clamp xs.length start
  let b := clamp xs.length stop
  (xs.drop a).take (b - a)

/-- The element of a list at a signed position. -/
def listAt? {α : Type} (xs : List α) (i : Int) : Option α := (wrap? xs.length i).bind (xs[·]?)

/-- The element of an array at a signed position. -/
def arrayAt? {α : Type} (xs : Array α) (i : Int) : Option α := (wrap? xs.size i).bind (xs[·]?)

end NimbleLang.Indexing
