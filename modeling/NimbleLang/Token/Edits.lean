import NimbleLang.Token.Stream

/-!
Edits of a token stream. A program is a sequence of edits, each at the position of a token: text put in front of
it, text put after the token before it, or a range of tokens replaced by text. The tokens stay as they are; the
edited text is put together on demand.

Before that, a program is reduced to one edit per position, in two passes. First every replacement takes in the
earlier edits in its range; then every insertion takes in the earlier insertions at its position, and gives itself
to an earlier replacement that starts there. The reduced program is kept, even if the reduction fails halfway: an
edit that was taken in leaves a gap. An insertion that takes in the `k`-th earlier insertion leaves the gap at
place `k` of the program.

Tokens are read from the stream, which begins with the first one that is read, and may fetch others then.
-/

namespace NimbleLang

inductive Edit.Kind where
  | before
  | after
  /-- The tokens up to `last` are replaced. -/
  | replace (last : Int)
  deriving DecidableEq, Repr, Inhabited

structure Edit where
  kind : Edit.Kind
  index : Int
  text : Option String
  deriving DecidableEq, Repr, Inhabited

namespace Edit

def last? (e : Edit) : Option Int :=
  match e.kind with
  | .replace last => some last
  | _ => none

def isInsert (e : Edit) : Bool := e.last?.isNone

def kindName (e : Edit) : String :=
  match e.kind with
  | .before => "InsertBeforeOp"
  | .after => "InsertAfterOp"
  | .replace _ => "ReplaceOp"

/-- A text to write; a missing one reads `None`. -/
def written (text : Option String) : String := text.getD "None"

/-- Whether there is anything to write. -/
def hasText (e : Edit) : Bool := e.text.any (· ≠ "")

/-- Two texts one after the other; a missing one cannot be joined. -/
def joined : Option String → Option String → Except Fault (Option String)
  | some a, some b => .ok (some (a ++ b))
  | _, _ => .error .mistyped

end Edit

/-- Two edits that cannot both be carried out, the later one first. -/
abbrev Clash := Edit × Edit

/-- A program; `none` stands where an edit was taken in by another one. -/
abbrev Program := List (Option Edit)

namespace Program

/-- Work on a program that keeps what was done, even if it fails. -/
abbrev Act := Run Program

def put (i : Nat) (e : Option Edit) : Act Unit := modify fun p => p.set i e

/-- The edits before place `i`, with their places. -/
def earlier (p : Program) (i : Nat) : List (Edit × Nat) :=
  (p.take i).zipIdx.filterMap fun (e, k) => e.map fun e => (e, k)

/-! ## First pass: replacements -/

/-- A replacement takes in an earlier insertion: its text, if both are at one position, or nothing of it. -/
def takeInsert (r : Edit) (last : Int) (iop : Edit) : Option Edit :=
  if iop.index = r.index then some { r with text := some (Edit.written iop.text ++ Edit.written r.text) }
  else if r.index < iop.index && iop.index ≤ last then some r
  else none

def takeInserts (i : Nat) (last : Int) : List (Edit × Nat) → Edit → Act Edit
  | [], r => return r
  | (iop, k) :: rest, r => do
    match takeInsert r last iop with
    | some r' =>
      put k none
      put i (some r')
      takeInserts i last rest r'
    | none => takeInserts i last rest r

/-- A replacement takes in the earlier ones within its range; others must lie apart. -/
def takeReplacements (i : Nat) (r : Edit) (last : Int) : List (Edit × Nat) → Act (Option Clash)
  | [] => return none
  | (e, k) :: rest => do
    match e.last? with
    | none => takeReplacements i r last rest
    | some stop =>
      if r.index ≤ e.index && stop ≤ last then
        put k none
        takeReplacements i r last rest
      else if stop < r.index || last < e.index then takeReplacements i r last rest
      else if e.text.isNone && r.text.isNone then
        put k none
        put i (some { r with index := min e.index r.index, kind := .replace (min stop last) })
        throw .mistyped
      else return some (r, e)

/-- The first pass at place `i`. -/
def settleReplacement (i : Nat) : Act (Option Clash) := do
  match (← get)[i]? with
  | some (some r) =>
    match r.last? with
    | some last =>
      let r ← takeInserts i last (((← get).earlier i).filter (·.1.isInsert)) r
      takeReplacements i r last ((← get).earlier i)
    | none => return none
  | _ => return none

/-! ## Second pass: insertions -/

/-- An insertion takes in the earlier ones at its position, of which `k` is the first one's number. -/
def joinInserts (i : Nat) : Nat → List Edit → Edit → Act Edit
  | _, [], e => return e
  | k, prev :: rest, e => do
    if prev.index = e.index then
      let text ← if prev.kind = .before then Edit.joined e.text prev.text else Edit.joined prev.text e.text
      let e := { e with text }
      put i (some e)
      put k none
      joinInserts i (k + 1) rest e
    else joinInserts i (k + 1) rest e

/-- An insertion gives itself to the replacement that starts at its position; it must lie in no other one. -/
def giveInsert (i : Nat) (e : Edit) : List (Edit × Nat) → Act (Option Clash)
  | [] => return none
  | (r, k) :: rest => do
    match r.last? with
    | none => giveInsert i e rest
    | some last =>
      if e.index = r.index then
        let text ← Edit.joined e.text r.text
        put k (some { r with text })
        put i none
        giveInsert i e rest
      else if r.index ≤ e.index && e.index ≤ last then return some (e, r)
      else giveInsert i e rest

/-- The second pass at place `i`. -/
def settleInsert (i : Nat) : Act (Option Clash) := do
  match (← get)[i]? with
  | some (some e) =>
    if e.isInsert then
      let e ← joinInserts i 0 ((((← get).earlier i).map (·.1)).filter Edit.isInsert) e
      giveInsert i e ((← get).earlier i)
    else return none
  | _ => return none

/-- Runs a pass at each place in turn, up to the first clash. -/
def eachPlace (pass : Nat → Act (Option Clash)) : List Nat → Act (Option Clash)
  | [] => return none
  | i :: rest => do
    match ← pass i with
    | some clash => return some clash
    | none => eachPlace pass rest

/-- The edits that are left, of which no two may be at one position. -/
def distinct : List Edit → Except Fault Unit
  | [] => .ok ()
  | e :: rest =>
    if rest.any (·.index == e.index) then .error (.invalidValue "should be only one op per index") else distinct rest

/-- Reduces a program to one edit per position, if no two edits clash. -/
def reduce : Act (Except Clash (List Edit)) := do
  let places := List.range (← get).length
  match ← eachPlace settleReplacement places with
  | some clash => return .error clash
  | none =>
    match ← eachPlace settleInsert places with
    | some clash => return .error clash
    | none =>
      let left := (← get).filterMap id
      distinct left
      return .ok left

/-! ## Putting the text together -/

/-- A token's own text; the end has none. -/
def ownText (t : Token) : Except Fault String := if t.isEof then .ok "" else Fault.mistyped.unless t.text?

/-- Walks from position `i` to `stop`. At an edit its text is written; a replacement moves past its range. What is
left are the edits that were not reached. -/
def write (tokens : Array Token) (stop : Int) : Nat → Int → List Edit → Except Fault (String × List Edit)
  | 0, _, left => .ok ("", left)
  | fuel + 1, i, left => do
    if i > stop then return ("", left)
    match tokens[i.toNat]? with
    | none => return ("", left)
    | some token =>
      match left.find? (·.index == i) with
      | none =>
        let own ← ownText token
        let (rest, left) ← write tokens stop fuel (i + 1) left
        return (own ++ rest, left)
      | some e =>
        let left := left.filter (·.index != i)
        match e.kind with
        | .replace last =>
          let (rest, left) ← write tokens stop fuel (last + 1) left
          return (e.text.getD "" ++ rest, left)
        | _ =>
          let text ← Fault.mistyped.unless e.text
          let own ← ownText token
          let (rest, left) ← write tokens stop fuel (i + 1) left
          return (text ++ own ++ rest, left)

/-- The texts of edits at or behind the last token that the walk did not reach. -/
def remainder (tokens : Array Token) : List Edit → Except Fault String
  | [] => .ok ""
  | e :: rest => do
    let own ← if (tokens.size : Int) - 1 ≤ e.index then Fault.mistyped.unless e.text else pure ""
    return own ++ (← remainder tokens rest)

/-- The text from position `start` to `stop`, both included, with the edits of a reduced program. -/
def wording (tokens : Array Token) (start stop : Int) (edits : List Edit) : Except Fault String := do
  let (text, left) ← write tokens stop (tokens.size + 1) start edits
  let rest ← if stop = (tokens.size : Int) - 1 then remainder tokens left else pure ""
  return text ++ rest

end Program

/-- A token stream with programs of edits, by name. -/
structure Edits (σ : Type) where
  stream : TokenStream σ
  programs : List (String × Program) := []
  /-- The last edited position of each program, as its users set it. -/
  marks : List (String × Int) := []

namespace Edits

variable {σ : Type}

abbrev Act (σ : Type) := Run (Edits σ)

/-- The program that is meant when none is named. -/
def standard : String := "default"

def program (s : Edits σ) (name : String) : Program := (s.programs.lookup name).getD []

def setProgram (name : String) (p : Program) : Act σ Unit :=
  modify fun s => { s with programs := (name, p) :: s.programs.filter (·.1 ≠ name) }

def add (name : String) (e : Edit) : Act σ Unit := do
  setProgram name ((← get).program name ++ [some e])

/-- Puts text in front of the token at a position. -/
def insertBefore (name : String) (index : Int) (text : Option String) : Act σ Unit :=
  add name { kind := .before, index, text }

/-- Puts text after the token at a position. -/
def insertAfter (name : String) (index : Int) (text : Option String) : Act σ Unit :=
  add name { kind := .after, index := index + 1, text }

/-- Replaces the tokens from one position to another, both included, by text. -/
def replace (name : String) (first last : Int) (text : Option String) : Act σ Unit := do
  let size := (← get).stream.tokens.size
  if first > last || first < 0 || last < 0 || last ≥ size then
    throw (.invalidValue ("replace: range invalid: " ++ toString first ++ ".." ++ toString last ++ "(size=" ++
      toString size ++ ")"))
  add name { kind := .replace last, index := first, text }

def delete (name : String) (first last : Int) : Act σ Unit := replace name first last (some "")

/-- Cuts a program back to its first edits; a negative number counts from the end. -/
def rollback (count : Int) (name : String) : Act σ Unit := do
  let p := (← get).program name
  if !p.isEmpty then setProgram name (Indexing.between p 0 count)

section

variable [TokenSource σ]

/-- Work on the stream. -/
def onStream {α : Type} (act : TokenStream.Act σ α) : Act σ α := act.onPart (·.stream) fun stream s => { s with stream }

/-- A token that was fetched, as messages show it. -/
def spellToken (n : Int) : Act σ String := do return (← onStream (TokenStream.read n)).describe

/-- The tokens of an edit. Those of a replacement by nothing cannot be shown. -/
def spellPlace (e : Edit) : Act σ String :=
  match e.kind with
  | .replace last => if e.hasText then do return (← spellToken e.index) ++ ".." ++ (← spellToken last) else throw .mistyped
  | _ => spellToken e.index

def spell (e : Edit) : Act σ String := do
  return "<" ++ e.kindName ++ "@" ++ (← spellPlace e) ++ ":\"" ++ Edit.written e.text ++ "\">"

/-- Refuses a program for edits that clash. -/
def refuse (clash : Clash) : Act σ String := do
  let later ← spell clash.1
  let earlier ← spell clash.2
  throw (.invalidValue (if clash.1.isInsert then "insert op " ++ later ++ " within boundaries of previous " ++ earlier
    else "replace op boundaries of " ++ later ++ " overlap with previous " ++ earlier))

/-- Reduces a program, which stays so. -/
def reduce (name : String) : Act σ (Except Clash (List Edit)) :=
  Program.reduce.onPart (·.program name) fun p s => { s with programs := (name, p) :: s.programs.filter (·.1 ≠ name) }

/-- The text with the edits of a reduced program. If there is a token to read, it begins the stream. -/
def word (start stop : Int) : Except Clash (List Edit) → Act σ String
  | .error clash => refuse clash
  | .ok edits => do
    if start ≤ stop then onStream TokenStream.lazyInit
    Program.wording (← get).stream.tokens start stop edits

/-- The edited text between two positions, both included. A program without edits is the stream's own text. -/
def text (name : String) (start stop : Int) : Act σ String := do
  let s ← get
  let stop := min stop ((s.stream.tokens.size : Int) - 1)
  let start := max start 0
  if (s.program name).isEmpty then onStream (TokenStream.text (some start) (some stop))
  else word start stop (← reduce name)

/-- The edited text as a whole. -/
def wholeText : Act σ String := do
  text standard 0 (((← get).stream.tokens.size : Int) - 1)

end

def mark (s : Edits σ) (name : String) : Int := (s.marks.lookup name).getD (-1)

def setMark (name : String) (i : Int) : Act σ Unit :=
  modify fun s => { s with marks := (name, i) :: s.marks.filter (·.1 ≠ name) }

/-- The position of a token that was fetched. -/
def positionOf (n : Int) : Act σ Int := do
  return (← Fault.outOfRange.unless (Indexing.arrayAt? (← get).stream.tokens n)).index

end Edits

end NimbleLang
