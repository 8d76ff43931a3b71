import NimbleLang.Fault

/-!
Sets of integers kept as spans. A `Span` holds the integers from `lo` up to, not including, `hi`; an
`IntervalSet` is a list of spans, meant to be nonempty, increasing and apart from each other. A set
that was never added to has no list at all (`spans = none`): it contains nothing, and asking for its
size is a fault.

`addRange` walks to the place of the new span and absorbs what it touches. `removeOne` splits a span
if it must. `removeRange` walks with two positions, the one it reads from and the one it writes to,
which differ once a span was dropped; its result is therefore not always the difference of the two
sets.
-/

namespace NimbleLang

/-- The integers from `lo` up to, not including, `hi`. -/
structure Span where
  lo : Int
  hi : Int
  deriving DecidableEq, Repr, Inhabited

namespace Span

def size (s : Span) : Nat := (s.hi - s.lo).toNat

def contains (s : Span) (v : Int) : Bool := s.lo ≤ v && v < s.hi

def toList (s : Span) : List Int := (List.range s.size).map fun (k : Nat) => s.lo + (k : Int)

end Span

/-- A set of integers, as spans; `none` until something is added. -/
structure IntervalSet where
  spans : Option (List Span) := none
  deriving DecidableEq, Repr, Inhabited

namespace IntervalSet

def empty : IntervalSet := {}

/-- Joins the first span with the spans after it that it reaches. -/
def absorb (l : Span) : List Span → List Span
  | [] => [l]
  | r :: rest =>
    if l.hi ≥ r.hi then absorb l rest
    else if l.hi ≥ r.lo then ⟨l.lo, r.hi⟩ :: rest
    else l :: r :: rest

/-- The span list with the integers of `v` added. -/
def insertSpan (v : Span) : List Span → List Span
  | [] => [v]
  | i :: rest =>
    if v.hi < i.lo then v :: i :: rest
    else if v.hi = i.lo then ⟨v.lo, i.hi⟩ :: rest
    else if v.lo ≤ i.hi then absorb ⟨min i.lo v.lo, max i.hi v.hi⟩ rest
    else i :: insertSpan v rest

def addRange (s : IntervalSet) (v : Span) : IntervalSet :=
  match s.spans with
  | none => ⟨some [v]⟩
  | some spans => ⟨some (insertSpan v spans)⟩

def addOne (s : IntervalSet) (v : Int) : IntervalSet := s.addRange ⟨v, v + 1⟩

def addSet (s other : IntervalSet) : IntervalSet :=
  (other.spans.getD []).foldl addRange s

/-- Adds the set to itself, span by span, each read from the list as the earlier ones left it. -/
def addSelfFrom : Nat → Nat → List Span → List Span
  | 0, _, spans => spans
  | fuel + 1, k, spans =>
    match spans[k]? with
    | none => spans
    | some v => addSelfFrom fuel (k + 1) (insertSpan v spans)

def addSelf (s : IntervalSet) : IntervalSet :=
  ⟨s.spans.map fun spans => addSelfFrom (2 * spans.length + 2) 0 spans⟩

/-- The span list without `v`. -/
def removeValue (v : Int) : List Span → List Span
  | [] => []
  | i :: rest =>
    if v < i.lo then i :: rest
    else if v = i.lo ∧ v = i.hi - 1 then rest
    else if v = i.lo then ⟨i.lo + 1, i.hi⟩ :: rest
    else if v = i.hi - 1 then ⟨i.lo, i.hi - 1⟩ :: rest
    else if v < i.hi - 1 then ⟨i.lo, v⟩ :: ⟨v + 1, i.hi⟩ :: rest
    else i :: removeValue v rest

def removeOne (s : IntervalSet) (v : Int) : IntervalSet := ⟨s.spans.map (removeValue v)⟩

/-- One pass over the spans that takes `v` out: `read` is the position looked at next, `write` the one
a change goes to. The two drift apart when a span is dropped. -/
def removeSpanFrom (v : Span) : Nat → Nat → Nat → List Span → List Span
  | 0, _, _, spans => spans
  | fuel + 1, read, write, spans =>
    match spans[read]? with
    | none => spans
    | some i =>
      if v.hi ≤ i.lo then spans
      else if v.lo > i.lo ∧ v.hi < i.hi then
        let left := spans.set write ⟨i.lo, v.lo⟩
        left.take write ++ ⟨v.hi, i.hi⟩ :: left.drop write
      else if v.lo ≤ i.lo ∧ v.hi ≥ i.hi then
        removeSpanFrom v fuel (read + 1) write (spans.eraseIdx write)
      else if v.lo < i.hi then removeSpanFrom v fuel (read + 1) (write + 1) (spans.set write ⟨i.lo, v.lo⟩)
      else if v.hi < i.hi then removeSpanFrom v fuel (read + 1) (write + 1) (spans.set write ⟨v.hi, i.hi⟩)
      else removeSpanFrom v fuel (read + 1) (write + 1) spans

def removeRange (s : IntervalSet) (v : Span) : IntervalSet :=
  if v.lo = v.hi - 1 then s.removeOne v.lo
  else ⟨s.spans.map fun spans => removeSpanFrom v (spans.length + 1) 0 0 spans⟩

/-- The integers from `start` to `stop`, both included, with each span of the set taken out. -/
def complement (s : IntervalSet) (start stop : Int) : Except Fault IntervalSet := do
  let spans ← Fault.mistyped.unless s.spans
  return spans.foldl removeRange (empty.addRange ⟨start, stop + 1⟩)

def contains (s : IntervalSet) (v : Int) : Bool := (s.spans.getD []).any (·.contains v)

def size? (s : IntervalSet) : Option Nat := s.spans.map fun spans => spans.foldr (fun v n => v.size + n) 0

/-- The elements in the order of the spans. -/
def toList (s : IntervalSet) : List Int := (s.spans.getD []).flatMap Span.toList

/-- The element at a place of `toList`; `0` where there is none. -/
def elementAt (s : IntervalSet) (i : Int) : Int :=
  if 0 ≤ i then (s.toList[i.toNat]?).getD 0 else 0

end IntervalSet

end NimbleLang
