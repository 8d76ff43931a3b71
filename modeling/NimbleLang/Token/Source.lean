import NimbleLang.Fault

/-!
Where tokens come from. A token source hands out one token after the other and ends with an end token.
`bound` limits how many tokens may still come, the end token included.

A `Listed` source plays back a list. If the list does not end with an end token, one is made up after it,
placed where the last token stops.
-/

namespace NimbleLang

class TokenSource (σ : Type) where
  next : σ → Except Fault Token × σ
  bound : σ → Nat

/-- A list of tokens to be handed out from `pos` on. -/
structure Listed where
  tokens : Array Token
  name : Option String := none
  pos : Nat := 0
  /-- The end token, once it was handed out. -/
  ending : Option Token := none
  deriving DecidableEq, Repr, Inhabited

namespace Listed

/-- The characters after the last line end, if the text has one. -/
def tailAfterNewline (s : String) : Option Nat :=
  let rest := s.toList.reverse.takeWhile (· ≠ '\n')
  if rest.length < s.length then some rest.length else none

/-- The column of the next token: after the last token once the list is used up. -/
def column (l : Listed) : Int :=
  match l.tokens[l.pos]?, l.ending, l.tokens.back? with
  | some t, _, _ => t.column
  | none, some e, _ => e.column
  | none, none, some last =>
    match last.text?.bind tailAfterNewline with
    | some n => n
    | none => last.column + last.stop - last.start + 1
  | none, none, none => 0

/-- The line of the next token. -/
def line (l : Listed) : Option Int :=
  match l.tokens[l.pos]?, l.ending, l.tokens.back? with
  | some t, _, _ => t.line
  | none, some e, _ => e.line
  | none, none, some last => last.line.map (· + ((last.text?.getD "").toList.count '\n' : Nat))
  | none, none, none => some 1

/-- The source that the next token was cut from. -/
def origin (l : Listed) : Option Source :=
  match l.tokens[l.pos]?, l.ending, l.tokens.back? with
  | some t, _, _ => t.source
  | none, some e, _ => e.source
  | none, none, some last => last.source
  | none, none, none => none

/-- The name given to the list; a list cut from a source has none of its own. -/
def sourceName (l : Listed) : Except Fault String :=
  match l.name, l.origin with
  | some n, _ => .ok n
  | none, some _ => .error .absent
  | none, none => .ok "List"

/-- The end token that follows the list. -/
def makeEnding (l : Listed) : Token :=
  let start : Int := match l.tokens.back? with
    | some last => if last.stop ≠ -1 then last.stop + 1 else -1
    | none => -1
  { type := Token.eof, channel := 0, start, stop := max (-1) (start - 1), line := l.line, column := l.column
    given := some "EOF", source := l.origin }

def next (l : Listed) : Token × Listed :=
  match l.tokens[l.pos]? with
  | some t =>
    (t, { l with pos := l.pos + 1, ending := if l.pos + 1 = l.tokens.size ∧ t.isEof then some t else l.ending })
  | none =>
    match l.ending with
    | some e => (e, l)
    | none => (l.makeEnding, { l with ending := some l.makeEnding })

end Listed

instance : TokenSource Listed where
  next l := let (t, l') := l.next; (.ok t, l')
  bound l := l.tokens.size - l.pos + 1

/-- Tokens of the given types as a test bench feeds them: one column each on line 1. -/
def Listed.ofTexts (tokens : List (Int × Option String)) : Listed :=
  { tokens := (tokens.zipIdx.map fun ((type, given), (i : Nat)) =>
      ({ type, start := i, stop := i, line := some 1, column := i, given } : Token)).toArray }

/-- Tokens of the given types, each with its type as text. -/
def Listed.ofTypes (types : List Int) : Listed := .ofTexts (types.map fun t => (t, some ("t" ++ toString t)))

end NimbleLang
