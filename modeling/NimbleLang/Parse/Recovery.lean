import NimbleLang.Parse.Session

/-!
Reporting failures and recovering from them. A failure is reported once; until a token matches again, others
are not. One token too many is dropped and one token missing is made up, where that lets the parse go on;
otherwise tokens are dropped up to one that some rule under way can go on with. A session that bails gives
up at the first failure.

The remembered lookahead set of a loop's back state grows when tokens are dropped there: the tokens that
recovery may stop at are added to it for good.
-/

namespace NimbleLang.Session

open Lookahead (Memory)

def endCondition : Act Unit :=
  modify fun s => { s with recovering := false, lastErrorStates := none, lastErrorAt := -1 }

/-! ## What is expected -/

def remembering {α : Type} (f : Network → Memory → Except Fault (α × Memory)) : Act α := do
  let s ← get
  let (a, lookahead) ← (f s.net s.lookahead : Except Fault (α × Memory))
  modify fun s => { s with lookahead }
  return a

/-- The state by the session's state number, which may count from the end. -/
def stateHere : Act Nat := do
  let s ← get
  Fault.outOfRange.unless (Indexing.wrap? s.net.states.size s.state)

def nextTokens (n : Nat) : Act IntervalSet := remembering fun net m => Lookahead.next net m n

/-- The expected tokens; the flag says that the set is the remembered one of the state. -/
def expectedTokens : Act (IntervalSet × Bool) := do
  let s ← get
  remembering fun net m => do
    let (set_, own, m) ← Lookahead.expected net m s.state s.underWay
    return ((set_, own), m)

def spellSet (set_ : IntervalSet) : Act String := do
  let s ← get
  ({ literal := s.literals, symbolic := s.symbols } : Vocabulary).spell set_

/-- Goes up the rules under way as long as they were called from somewhere, with what follows each call. -/
def followSets : Callers → Act (List IntervalSet)
  | [] => return []
  | c :: rest => do
    match c.invoking with
    | none => throw .mistyped
    | some n =>
      if n < 0 then return []
      let follow ← Callers.followOf (← get).net n
      return (← nextTokens follow) :: (← followSets rest)

/-- The tokens that some rule under way can go on with. -/
def recoverySet : Act IntervalSet := do
  let sets ← followSets (← get).underWay
  return (sets.foldl (fun s f => s.addSet f) IntervalSet.empty).removeOne Token.epsilon

def expectedUp (symbol : Int) : Callers → IntervalSet → Act Bool
  | c :: rest, following => do
    match c.invoking with
    | none => throw .mistyped
    | some n =>
      if n < 0 || !following.contains Token.epsilon then
        return following.contains Token.epsilon && symbol == Token.eof
      let following ← nextTokens (← Callers.followOf (← get).net n)
      if following.contains symbol then return true
      expectedUp symbol rest following
  | [], following => return following.contains Token.epsilon && symbol == Token.eof

/-- Whether a token type is expected here. -/
def isExpected (symbol : Int) : Act Bool := do
  let following ← nextTokens (← stateHere)
  if following.contains symbol then return true
  if !following.contains Token.epsilon then return false
  expectedUp symbol (← get).underWay following

/-! ## Consuming -/

/-- Makes the current token a leaf of the innermost phrase and moves over it. -/
def consume : Act Token := do
  let t ← currentToken
  if !t.isEof then onStream TokenStream.consume
  let s ← get
  if s.build || !(s.watchers.getD []).isEmpty then
    let leaf := if s.recovering then Tree.error t else Tree.leaf t
    modifyTop (·.addChild leaf)
    announceLeaf leaf
  return t

def dropUntil (set_ : IntervalSet) : Nat → Act Unit
  | 0 => throw .exhausted
  | fuel + 1 => do
    let t ← nextType
    if t ≠ Token.eof && !set_.contains t then
      let _ ← consume
      dropUntil set_ fuel

/-- Drops tokens up to one in the set, or to the end. -/
def consumeUntil (set_ : IntervalSet) : Act Unit := do
  let s ← get
  dropUntil set_ (s.stream.walkFuel s.stream.index + 1)

/-! ## Reporting -/

def complain (token : Token) (message : String) (kind : Option Recognition.Kind) : Act Unit :=
  onRecogniser (Recogniser.complainAt token message kind)

def mismatch : Act Recognition := do
  let token ← currentToken
  return { kind := .inputMismatch, token := some token, state := (← get).state }

def blamed (r : Recognition) : Act Token := do
  match r.token with
  | some t => return t
  | none => currentToken

/-- The wording of a failure. -/
def wording (r : Recognition) : Act (Option String) := do
  match r.kind with
  | .noViableAlternative =>
    let start ← Fault.absent.unless r.start
    let text ← (do
      if start.isEof then return "<EOF>"
      onStream (TokenStream.text (some start.index) (r.token.map (·.index))))
    return some ("no viable alternative at input '" ++ Text.escape text ++ "'")
  | .inputMismatch =>
    let s ← get
    let (set_, _) ← (do
      remembering fun net m => do
        let (set_, own, m) ← Lookahead.expected net m r.state s.underWay
        return ((set_, own), m))
    return some ("mismatched input " ++ Token.display r.token ++ " expecting " ++ (← spellSet set_))
  | .failedPredicate =>
    let form := (← top).label.form
    return some ("rule " ++ (← tracedName form) ++ " " ++ (← Fault.mistyped.unless r.message))
  | _ => return r.message

/-- Reports something, unless there was a report and nothing matched since. -/
def unlessRecovering (report : Act Unit) : Act Unit := do
  if (← get).recovering then return ()
  modify fun s => { s with recovering := true }
  report

def reportFailure (r : Recognition) : Act Unit := unlessRecovering do
  if r.kind = .unspecified || r.kind = .noLexicalRule then
    onRecogniser (Recogniser.print "unknown recognition error type: RecognitionException")
  let message ← wording r
  complain (← blamed r) (message.getD "None") (some r.kind)

/-- Reports the current token, and what is expected in its place. -/
def reportExpecting (wording : Token → String → String) : Act Unit := unlessRecovering do
  let t ← currentToken
  let (expecting, _) ← expectedTokens
  complain t (wording t (← spellSet expecting)) none

def reportUnwanted : Act Unit :=
  reportExpecting fun t expecting => "extraneous input " ++ Token.display (some t) ++ " expecting " ++ expecting

def reportMissing : Act Unit :=
  reportExpecting fun t expecting => "missing " ++ expecting ++ " at " ++ Token.display (some t)

/-! ## Recovering -/

/-- Drops the current token if the one after it is expected; yields that one. -/
def dropUnwanted : Act (Option Token) := do
  let after ← onStream (TokenStream.lookType 2)
  let (expecting, _) ← expectedTokens
  if !expecting.contains after then return none
  reportUnwanted
  let _ ← consume
  let t ← currentToken
  endCondition
  return some t

/-- Whether the current token would fit after a missing one; if so, that is reported. -/
def canInsert : Act Bool := do
  let type ← nextType
  let s ← get
  let first ← Fault.outOfRange.unless (s.net.edgesOf (← stateHere)).head?
  let after ← (do
    if s.frames.isEmpty then nextTokens first.target
    else Lookahead.look s.net first.target none (some s.underWay))
  if after.contains type then
    reportMissing
    return true
  return false

/-- The token that is made up in place of a missing one. -/
def missingToken : Act Token := do
  let current ← currentToken
  let (expecting, _) ← expectedTokens
  let type := expecting.elementAt 0
  let s ← get
  let name : Option String :=
    if type < s.literals.length then Indexing.listAt? s.literals type else Indexing.listAt? s.symbols type
  let text := if type = Token.eof then "<missing EOF>" else "<missing " ++ name.getD "None" ++ ">"
  let back ← previousToken
  let place := if current.isEof then back.getD current else current
  return { type, given := some text, channel := 0, line := place.line, column := place.column, source := place.source }

/-- Gives up. -/
def cancel {α : Type} (r : Recognition) : Act α := do
  modify fun s => { s with frames := s.frames.map fun f => { f with label := { f.label with stuck := some r.kind } } }
  throw (.cancelled r)

/-- Recovers from a token that does not fit: by dropping it, by making up the missing one, or not at all. -/
def recoverInline : Act Token := do
  if (← get).bail then cancel (← mismatch)
  match ← dropUnwanted with
  | some t =>
    let _ ← consume
    return t
  | none =>
    if ← canInsert then missingToken
    else throw (.recognition (← mismatch))

/-- Recovers from a failure inside a rule: drops tokens up to one that a rule under way can go on with. A second
failure at the same place in the same state drops at least one. -/
def recover (r : Recognition) : Act Unit := do
  if (← get).bail then cancel r
  let s ← get
  if s.lastErrorAt = s.stream.index && s.lastErrorStates.any (·.contains s.state) then
    let _ ← consume
  modify fun s =>
    { s with lastErrorAt := s.stream.index, lastErrorStates := some (s.lastErrorStates.getD [] ++ [s.state]) }
  consumeUntil (← recoverySet)

/-- Drops a token that does not fit before a block, if that helps. -/
def dropOrFail : Act Unit := do
  match ← dropUnwanted with
  | some _ => return ()
  | none => throw (.recognition (← mismatch))

/-- Drops the tokens that do not fit at the back state of a loop. -/
def dropUnfit (n : Nat) : Act Unit := do
  reportUnwanted
  let (expecting, own) ← expectedTokens
  let enlarged := expecting.addSet (← recoverySet)
  if own then modify fun s => { s with lookahead := s.lookahead.setIfInBounds n (some enlarged) }
  consumeUntil enlarged

/-- Before a decision: makes sure that the current token fits in the state, dropping tokens that do not. -/
def sync : Act Unit := do
  let s ← get
  if s.bail || s.recovering then return ()
  let n ← stateHere
  let type ← nextType
  let next ← nextTokens n
  if next.contains type || next.contains Token.epsilon then return ()
  match (s.net.state n).kind with
  | .blockStart | .starBlockStart | .plusBlockStart | .starLoopEntry => dropOrFail
  | .plusLoopBack | .starLoopBack => dropUnfit n
  | _ => return ()

/-- Takes the current token, which ends a recovery. -/
def takeToken : Act Token := do
  endCondition
  consume

/-- Recovers from a token that does not fit; one that is made up becomes a child. -/
def replaceToken : Act Token := do
  let t ← recoverInline
  if (← get).build && t.index = -1 then modifyTop (·.addChild (.error t))
  return t

/-- Takes a token of the given type, recovering if it is another one. -/
def matchToken (fits : Token → Bool) : Act Token := do
  let t ← currentToken
  if fits t then
    let _ ← takeToken
    return t
  else replaceToken

end NimbleLang.Session
