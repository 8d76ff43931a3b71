import NimbleLang.Scan.Match

/-!
Tokens from a scanner. `nextToken` matches until a token is complete: a match that skips starts over, one
that asks for more is continued by the next match. Where no rule matches, a complaint is noted and one
more character is dropped. At the end of the source an end token is made, again and again.
-/

namespace NimbleLang.Scan

/-- The token that the fields of a scanner describe. -/
def makeToken (s : Scanner) (type : Int) (text : Option String) (channel start stop line column : Int) : Token :=
  { type, channel, start, stop, line := some line, column, source := some s.cursor.source
    given := match text with
      | some t => some t
      | none => if s.copyText then some (s.cursor.source.slice start stop) else none }

/-- The token that was just matched. -/
def emit (s : Scanner) : Token :=
  makeToken s s.type s.text s.channel s.tokenStart (s.cursor.index - 1) s.tokenLine s.tokenColumn

def emitEnd (s : Scanner) : Token :=
  makeToken s Token.eof none 0 s.cursor.index (s.cursor.index - 1) s.line s.column

/-- Complains about the characters from the start of the token on, the one under the cursor included. -/
def complain (s : Scanner) : Scanner :=
  let text := s.cursor.source.slice s.tokenStart s.cursor.index
  let stuckOn := if s.startIndex ≥ 0 ∧ s.startIndex < s.cursor.source.size
    then s.cursor.source.slice s.startIndex s.startIndex else ""
  { s with journal := s.journal.add (.complaint (some s.tokenLine) s.tokenColumn
      ("token recognition error at: '" ++ Text.escape text ++ "'") none (some .noLexicalRule) (some stuckOn)) }

/-- One match, with recovery where no rule matches. Yields the type of the token under way. -/
def matchOnce : Act Int := do
  modify fun s => { s with type := Token.invalid }
  let found ← matchMode (← get).mode
  let type ← (do
    match found with
    | some t => return t
    | none =>
      modify complain
      if (← get).cursor.peek 1 ≠ Source.endMark then consume
      return Scanner.skipType : Act Int)
  modify fun s =>
    { s with hitEnd := s.hitEnd || s.cursor.peek 1 == Source.endMark
             type := if s.type = Token.invalid then type else s.type }
  return (← get).type

/-- Matches until a token is complete. `fresh` says that the next match begins a token. -/
def tokenLoop : Nat → Bool → Act Token
  | 0, _ => throw .exhausted
  | fuel + 1, fresh => do
    let s ← get
    if fresh && s.hitEnd then return emitEnd s
    if fresh then
      set { s with channel := 0, tokenStart := s.cursor.index, tokenColumn := s.column, tokenLine := s.line
                   text := none }
    let type ← matchOnce
    if type = Scanner.skipType then tokenLoop fuel true
    else if type = Scanner.moreType then tokenLoop fuel false
    else return emit (← get)

/-- The next token. Every match but the last consumes a character, so their number is bounded. -/
def nextToken : Act Token := do
  let s ← get
  tokenLoop (2 * ((s.cursor.source.size - s.cursor.index).toNat + 2)) true

/-- All tokens up to the end of the source, the end token left out. -/
def tokensFrom : Nat → Array Token → Act (Array Token)
  | 0, _ => throw .exhausted
  | fuel + 1, acc => do
    let t ← nextToken
    if t.isEof then return acc else tokensFrom fuel (acc.push t)

/-- At most `n` tokens, up to the end token or to a fault, whichever comes first; both are listed. -/
def tokensUpTo : Nat → Act (List (Except Fault Token))
  | 0 => pure []
  | n + 1 => do
    match ← nextToken.attempt with
    | .ok t => if t.isEof then return [.ok t] else return .ok t :: (← tokensUpTo n)
    | fault => return [fault]

def allTokens : Act (Array Token) := do
  let s ← get
  tokensFrom (s.cursor.source.size + 2) #[]

end NimbleLang.Scan
