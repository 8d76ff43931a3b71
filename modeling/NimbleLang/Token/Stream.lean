import NimbleLang.Token.Source

/-!
Token streams: a buffer over a token source that is filled as far as it is looked at, and a position in it.
A stream tuned to a channel stops only at tokens of that channel and at the end token; a plain stream
stops at every token. Positions are signed; `-1` means that nothing was read yet.
-/

namespace NimbleLang

structure TokenStream (σ : Type) where
  source : σ
  tokens : Array Token := #[]
  index : Int := -1
  fetchedEnd : Bool := false
  /-- The channel a stream is tuned to; `none` for a plain stream. -/
  channel : Option Int := some 0
  deriving Repr, Inhabited

namespace TokenStream

variable {σ : Type} [TokenSource σ]

/-- Computations over a token stream. -/
abbrev Act (σ : Type) := Run (TokenStream σ)

/-! ## Filling the buffer -/

def fetchLoop : Nat → Nat → Act σ Nat
  | 0, count => return count
  | n + 1, count => do
    let s ← get
    let (r, source) := TokenSource.next s.source
    set { s with source }
    let t ← (r : Except Fault Token)
    let t := { t with index := (s.tokens.size : Int) }
    modify fun s => { s with tokens := s.tokens.push t, fetchedEnd := t.isEof }
    if t.isEof then return count + 1 else fetchLoop n (count + 1)

/-- Reads `n` more tokens, or up to the end; yields how many were read. -/
def fetch (n : Nat) : Act σ Nat := do
  if (← get).fetchedEnd then return 0 else fetchLoop n 0

/-- Makes sure that the buffer reaches position `i`; false if the source ends before. -/
def sync (i : Int) : Act σ Bool := do
  let n := i - (← get).tokens.size + 1
  if n > 0 then
    let fetched ← fetch n.toNat
    return decide ((fetched : Int) ≥ n)
  else return true

/-- The buffered token at a signed position. -/
def tokenAt (i : Int) : Act σ Token := do
  Fault.outOfRange.unless (Indexing.arrayAt? (← get).tokens i)

/-- More steps than it takes to walk over all tokens from position `i` on. -/
def walkFuel (s : TokenStream σ) (i : Int) : Nat :=
  s.tokens.size + TokenSource.bound s.source + (-i).toNat + 2

/-! ## Channels -/

def nextFrom (channel : Int) : Nat → Int → Act σ Int
  | 0, _ => throw .exhausted
  | fuel + 1, i => do
    let t ← tokenAt i
    if t.channel = channel || t.isEof then return i
    let _ ← sync (i + 1)
    nextFrom channel fuel (i + 1)

/-- The first position from `i` on with a token of the channel or the end token. -/
def nextOnChannel (i channel : Int) : Act σ Int := do
  let _ ← sync i
  let s ← get
  if i ≥ s.tokens.size then return (s.tokens.size : Int) - 1
  nextFrom channel (s.walkFuel i) i

def previousFrom (channel : Int) : Nat → Int → Act σ Int
  | 0, i => return i
  | fuel + 1, i => do
    if i < 0 then return i
    if (← tokenAt i).channel = channel then return i else previousFrom channel fuel (i - 1)

/-- The last position up to `i` with a token of the channel; negative if there is none. -/
def previousOnChannel (i channel : Int) : Act σ Int := previousFrom channel (i.toNat + 1) i

/-! ## The position -/

/-- The position where a stream stops if it is sent to `i`. -/
def adjust (i : Int) : Act σ Int := do
  match (← get).channel with
  | none => return i
  | some c => nextOnChannel i c

def setup : Act σ Unit := do
  let _ ← sync 0
  let i ← adjust 0
  modify fun s => { s with index := i }

def lazyInit : Act σ Unit := do
  if (← get).index = -1 then setup

def seek (i : Int) : Act σ Unit := do
  lazyInit
  let i ← adjust i
  modify fun s => { s with index := i }

def reset : Act σ Unit := seek 0

/-- The token at a signed position of what was read. -/
def read (i : Int) : Act σ Token := do
  lazyInit
  tokenAt i

/-! ## Looking around -/

def backFrom (channel : Int) : Nat → Int → Act σ Int
  | 0, i => return i
  | k + 1, i => do backFrom channel k (← previousOnChannel (i - 1) channel)

/-- The token `k` places back. -/
def lookBack (k : Int) : Act σ (Option Token) := do
  let s ← get
  match s.channel with
  | none =>
    if s.index - k < 0 then return none
    return some (← tokenAt (s.index - k))
  | some c =>
    if k = 0 || s.index - k < 0 then return none
    let i ← backFrom c k.toNat s.index
    if i < 0 then return none
    return some (← tokenAt i)

def aheadFrom (channel : Int) : Nat → Int → Act σ Int
  | 0, i => return i
  | k + 1, i => do
    let i ← (do if ← sync (i + 1) then nextOnChannel (i + 1) channel else return i)
    aheadFrom channel k i

/-- The token `k` places ahead (`1` is the current one), or back if `k` is negative; none for zero. -/
def look (k : Int) : Act σ (Option Token) := do
  lazyInit
  if k = 0 then return none
  if k < 0 then return ← lookBack (-k)
  let s ← get
  match s.channel with
  | none =>
    let i := s.index + k - 1
    let _ ← sync i
    let n := (← get).tokens.size
    return some (← tokenAt (if i ≥ n then (n : Int) - 1 else i))
  | some c =>
    let i ← aheadFrom c (k - 1).toNat s.index
    return some (← tokenAt i)

/-- The type of the token `k` places ahead. -/
def lookType (k : Int) : Act σ Int := do
  match ← look k with
  | some t => return t.type
  | none => throw .absent

/-- Moves over the current token; the end token cannot be passed. -/
def consume : Act σ Unit := do
  let s ← get
  let inside := s.index ≥ 0 && (if s.fetchedEnd then s.index < (s.tokens.size : Int) - 1 else s.index < s.tokens.size)
  if !inside then
    if (← lookType 1) = Token.eof then throw (.illegalState "cannot consume EOF")
  let i := (← get).index
  if ← sync (i + 1) then
    let i ← adjust (i + 1)
    modify fun s => { s with index := i }

/-- Reads all tokens. -/
def fill : Act σ Unit := do
  lazyInit
  let _ ← fetch (TokenSource.bound (← get).source)
  return ()

/-! ## Stretches -/

/-- The tokens from `start` up to, not including, `stop` and the end token, of the given types if any. The last
buffered token never counts. -/
def between (start stop : Int) (types : Option (List Int)) : Act σ (Option (List Token)) := do
  if start < 0 || stop < 0 then return none
  lazyInit
  let tokens := (← get).tokens.toList
  let stop := min stop ((tokens.length : Int) - 1)
  let chosen := ((tokens.drop start.toNat).take (stop - start).toNat).takeWhile (!·.isEof)
  return some (chosen.filter fun t => match types with
    | none => true
    | some ts => ts.contains t.type)

/-- The texts of tokens up to the end token, one after the other. A token without text cannot be written. -/
def joinTexts : List Token → Except Fault String
  | [] => .ok ""
  | t :: rest => do
    if t.isEof then return ""
    let s ← Fault.mistyped.unless t.text?
    return s ++ (← joinTexts rest)

/-- The text from position `start` to `stop`, both included; from the beginning and to the end without them. -/
def text (start stop : Option Int) : Act σ String := do
  fill
  let tokens := (← get).tokens.toList
  let start := start.getD 0
  let last := (tokens.length : Int) - 1
  let stop := min (stop.getD last) last
  if start < 0 || stop < 0 || stop < start then return ""
  joinTexts ((tokens.drop start.toNat).take (stop - start + 1).toNat)

/-- The tokens from `left` to `right` on a channel, or off the default channel; none if there are none. -/
def hiddenBetween (left right : Int) (channel : Int) : Act σ (Option (List Token)) := do
  let tokens := (← get).tokens.toList
  let chosen := ((tokens.drop left.toNat).take (right - left + 1).toNat).filter fun t =>
    if channel = -1 then t.channel ≠ 0 else t.channel = channel
  return if chosen.isEmpty then none else some chosen

def outside (i : Int) (n : Nat) : Fault := .because (toString i ++ " not in 0.." ++ toString ((n : Int) - 1))

/-- The hidden tokens between a token and the next one on the default channel. -/
def hiddenToRight (i channel : Int) : Act σ (Option (List Token)) := do
  lazyInit
  let n := (← get).tokens.size
  if i < 0 || i ≥ n then throw (outside i n)
  let next ← nextOnChannel (i + 1) 0
  let last := ((← get).tokens.size : Int) - 1
  hiddenBetween (i + 1) (if next = -1 then last else next) channel

/-- The hidden tokens between a token and the one before it on the default channel. -/
def hiddenToLeft (i channel : Int) : Act σ (Option (List Token)) := do
  lazyInit
  let n := (← get).tokens.size
  if i < 0 || i ≥ n then throw (outside i n)
  let previous ← previousOnChannel (i - 1) 0
  if previous = i - 1 then return none
  hiddenBetween (previous + 1) (i - 1) channel

/-- The number of tokens on the stream's channel; a plain stream has none. -/
def countOnChannel : Act σ Nat := do
  match (← get).channel with
  | none => throw .absent
  | some c =>
    fill
    let tokens := (← get).tokens.toList
    let upToEnd := tokens.takeWhile (!·.isEof) ++ (tokens.dropWhile (!·.isEof)).take 1
    return (upToEnd.filter (·.channel = c)).length

/-- The stream at the beginning of another source. -/
def setSource (s : TokenStream σ) (source : σ) : TokenStream σ :=
  { s with source, tokens := #[], index := -1, fetchedEnd := false }

end TokenStream

end NimbleLang
