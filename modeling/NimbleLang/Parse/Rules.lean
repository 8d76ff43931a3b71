import NimbleLang.Parse.Recovery
import NimbleLang.Grammar.Phrases

/-!
Running the rules of the grammar. Entering a rule opens a frame and leaving it closes the frame, which then
becomes a child of the frame around it. A failure inside a rule is reported and recovered from there, and the
rule ends. The frame of an expression is closed and put into a new one for every operator that follows.
-/

namespace NimbleLang.Session

open Grammar

/-! ## Entering and leaving -/

/-- Opens a frame in a state. -/
def openFrame (form : Form) (invoking state : Int) : Act Unit := do
  modify fun s => { s with state, frames := { label := { form, invoking } } :: s.frames }
  let t ← currentToken
  modifyLabel fun l => { l with start := some t }

def enterRule (form : Form) (state : Int) : Act Unit := do
  openFrame form (← get).state state
  announceEntry

/-- Adds a finished tree to the innermost phrase, if trees are built and there is one. -/
def attach (t : Tree) : Act Unit := do
  let s ← get
  if s.build && !s.frames.isEmpty then modifyTop (·.addChild t)

/-- Chooses the form of the innermost phrase. What recovery dropped before stays with it. -/
def relabel (form : Form) : Act Unit :=
  modifyTop fun f =>
    { label := { f.label with form, stuck := none, op := none }, children := f.children.filter Tree.isError }

/-- Puts the innermost phrase into a new one that begins with it. -/
def wrapTop (form : Form) (invoking : Int) : Act Unit := do
  let back ← previousToken
  modifyLabel fun l => { l with invoking := Rule.startState .expr, stop := back }
  let f ← top
  dropTop
  let outer : Frame := { label := { form, invoking, start := f.label.start } }
  let build := (← get).build
  modify fun s => { s with frames := (if build then outer.addChild f.tree else outer) :: s.frames }
  announceEntry

/-- Runs the body of a rule; a failure is noted in the innermost phrase, reported and recovered from. -/
def guarded (body : Act Unit) : Act Unit := do
  match ← body.attempt with
  | .ok _ => return ()
  | .error (.recognition r) =>
    modifyLabel fun l => { l with stuck := some r.kind }
    reportFailure r
    recover r
  | .error f => throw f

/-! ## Steps -/

/-- Runs `body` as long as the next token is one of the given types, syncing in `again` after each run. -/
def repeatWhile (first : List Int) (again : Int) (body : Act Unit) : Nat → Act Unit
  | 0 => throw .exhausted
  | fuel + 1 => do
    if first.contains (← nextType) then
      body
      setState again
      sync
      repeatWhile first again body fuel

/-- More tokens than are left. -/
def tokenFuel : Act Nat := do
  let s ← get
  return s.stream.walkFuel s.stream.index

/-- Takes one of several tokens as operator. -/
def takeOperator (types : List Int) : Act Unit := do
  let t ← currentToken
  modifyLabel fun l => { l with op := some t }
  if types.contains t.type then
    let _ ← takeToken
  else
    let t ← recoverInline
    modifyLabel fun l => { l with op := some t }

mutual
/-- Runs a step, calling other rules through `call`. -/
def runStep (call : Rule → Int → Act Unit) : Step → Act Unit
  | .token state type => do
    setState state
    let _ ← matchToken (·.type == type)
  | .operator state types => do
    setState state
    takeOperator types
  | .phrase state rule precedence => do
    setState state
    call rule precedence
  | .optional state first body => do
    setState state
    sync
    if first.contains (← nextType) then runSteps call body
  | .decided state decision body => do
    setState state
    sync
    if (← choose decision) = 1 then runSteps call body
  | .many state again first body => do
    setState state
    sync
    repeatWhile first again (runSteps call body) (2 * (← tokenFuel))

def runSteps (call : Rule → Int → Act Unit) : List Step → Act Unit
  | [] => return ()
  | s :: rest => do
    runStep call s
    runSteps call rest
end

/-- Chooses one of the labelled alternatives. -/
def runChoice (call : Rule → Int → Act Unit) (state decision : Int) (alternatives : List Alternative) : Act Unit := do
  setState state
  sync
  let n ← choose decision
  match alternatives[(n - 1).toNat]? with
  | some a =>
    if n ≥ 1 then
      relabel a.form
      runSteps call a.steps
  | none => return ()

/-- An operator and its right operand, if the precedence level allows it. -/
def runTail (call : Rule → Int → Act Unit) (invoking : Int) (t : Tail) : Act Unit := do
  wrapTop t.form invoking
  setState t.state
  if !(← onRecogniser (Recogniser.precedenceHolds t.level)) then
    let token ← currentToken
    let message := "failed predicate: \x7bself.precpred(self._ctx, " ++ toString t.level ++ ")\x7d?"
    throw (.recognition { kind := .failedPredicate, token := some token, state := (← get).state, message := some message })
  runSteps call t.steps

/-- One of the operators that may follow. -/
def runOperator (call : Rule → Int → Act Unit) (invoking tailState tailDecision : Int) (tails : List Tail) : Act Unit := do
  if (← get).watchers.isSome then announceExit
  setState tailState
  sync
  let n ← choose tailDecision
  match tails[(n - 1).toNat]? with
  | some t => if n ≥ 1 then runTail call invoking t
  | none => pure ()

/-- The operators after an operand, as long as the loop's decision goes on. -/
def runTails (call : Rule → Int → Act Unit) (invoking : Int) (again loopDecision tailState tailDecision : Int)
    (tails : List Tail) : Nat → Int → Act Unit
  | 0, _ => throw .exhausted
  | fuel + 1, alt => do
    if alt = 2 || alt = 0 then return ()
    if alt = 1 then runOperator call invoking tailState tailDecision tails
    setState again
    sync
    runTails call invoking again loopDecision tailState tailDecision tails fuel (← choose loopDecision)

def runBody (call : Rule → Int → Act Unit) (invoking : Int) : Grammar.Body → Act Unit
  | .sequence steps => runSteps call steps
  | .choice state decision alternatives => runChoice call state decision alternatives
  | .operators state decision operands loopState again loopDecision tailState tailDecision tails => do
    runChoice call state decision operands
    let back ← previousToken
    modifyLabel fun l => { l with stop := back }
    setState loopState
    sync
    let alt ← choose loopDecision
    runTails call invoking again loopDecision tailState tailDecision tails (2 * (← tokenFuel)) alt

/-! ## Rules -/

/-- Opens the phrase of a rule; an expression sets its precedence level. -/
def enterPhrase (rule : Rule) (precedence : Int) : Act Unit := do
  if rule = .expr then
    modify fun s => { s with precedences := precedence :: s.precedences }
    openFrame (Form.ofRule rule) (← get).state rule.startState
    announceEntry
  else enterRule (Form.ofRule rule) rule.startState

/-- Leaves the level of an expression. -/
def leaveLevel (rule : Rule) : Act Unit :=
  if rule = .expr then modify fun s => { s with precedences := s.precedences.tail } else return ()

/-- Goes back to the state from which a rule was called; an expression stays where it ended. -/
def goBack (rule : Rule) (invoking : Int) : Act Unit := if rule = .expr then return () else setState invoking

/-- Leaves the phrase of a rule; yields its tree. -/
def leavePhrase (rule : Rule) : Act Tree := do
  leaveLevel rule
  let _ ← top
  let back ← previousToken
  modifyLabel fun l => { l with stop := back }
  announceExit
  let f ← top
  goBack rule f.label.invoking
  dropTop
  attach f.tree
  return f.tree

/-- Leaves the phrase of a rule that has no levels. -/
def exitRule : Act Tree := leavePhrase .script

/-- Runs a rule in a precedence level; `fuel` bounds how deep rules may be nested. -/
def runRule : Nat → Rule → Int → Act Tree
  | 0, _, _ => throw .exhausted
  | fuel + 1, rule, precedence => do
    let call (r : Rule) (p : Int) : Act Unit := do
      let _ ← runRule fuel r p
    let invoking := (← get).state
    enterPhrase rule precedence
    match ← (guarded (runBody call invoking (Grammar.body rule))).attempt with
    | .ok _ => leavePhrase rule
    | .error f =>
      let _ ← leavePhrase rule
      throw f

/-- Parses by a rule from here on. -/
def parse (rule : Rule) (precedence : Int) : Act Tree := do
  runRule (16 * ((← tokenFuel) + 2)) rule precedence

/-- Parses by the rule of a name. Only expressions take a level, at most one. -/
def parseNamed (name : String) (levels : List Int) : Act Tree := do
  let rule ← Fault.absent.unless (Rule.named? name)
  match levels with
  | [] => parse rule 0
  | [p] => if rule = .expr then parse rule p else throw .mistyped
  | _ => throw .mistyped

/-- The tree of a source by the rule of a name, whatever complaints there are, and the session afterwards; it goes on with
what an earlier session has learnt. -/
def treeAfter (earlier : Option Session) (source : Source) (name : String) : Except Fault Tree × Session :=
  let s := ofSource source
  (parseNamed name []).outcome ((earlier.map s.inherit).getD s)

end NimbleLang.Session
