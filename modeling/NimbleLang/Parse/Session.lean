import NimbleLang.Predict.Decide
import NimbleLang.Tree.Basic
import NimbleLang.Grammar.Networks

/-!
Parsing sessions: a recogniser for Nimble together with the phrases under way. A `Frame` is a node under
construction; the frames stand innermost first, and the rules under way are read off them. Watchers are
told when a rule is entered or left and when a token becomes a leaf.
-/

namespace NimbleLang

/-- A node under construction. -/
structure Frame where
  label : Label
  children : Array Tree := #[]
  deriving Inhabited

namespace Frame

def caller (f : Frame) : Caller := { invoking := some f.label.invoking, rule := f.label.form.ruleIndex }

def addChild (f : Frame) (t : Tree) : Frame :=
  { label := { f.label with childless := false }, children := f.children.push t }

def tree (f : Frame) : Tree := .node f.label f.children.toList

end Frame

inductive Watcher where
  /-- Notes every event in the session. -/
  | recorder
  /-- Prints every event. -/
  | tracer
  deriving DecidableEq, Repr, Inhabited

structure Session extends Recogniser where
  frames : List Frame := []
  /-- Whether the first failure ends the parse. -/
  bail : Bool := false
  /-- Whether trees are built. -/
  build : Bool := true
  /-- Whether a failure was reported and no token matched since. -/
  recovering : Bool := false
  /-- Where the last recovery began, and the states it was tried in since then. -/
  lastErrorAt : Int := -1
  lastErrorStates : Option (List Int) := none
  /-- The watchers; `none` if there never were any or the last one left. -/
  watchers : Option (List Watcher) := none
  /-- Whether a tracer was set up, even if it is no longer among the watchers. -/
  hasTracer : Bool := false
  noted : Array String := #[]

namespace Session

abbrev Act := Run Session

/-- The recogniser's work on its part of the session, among the rules under way. -/
def onRecogniser {α : Type} (act : Recogniser.Act α) : Act α :=
  Run.onPart (fun s => { s.toRecogniser with callers := s.frames.map Frame.caller })
    (fun r s => { s with toRecogniser := r }) act

def onStream {α : Type} (act : TokenStream.Act Supply α) : Act α := onRecogniser (Recogniser.onStream act)

def currentToken : Act Token := onRecogniser Recogniser.currentToken

/-- The token before the current one. -/
def previousToken : Act (Option Token) := onStream (TokenStream.look (-1))

def nextType : Act Int := onStream (TokenStream.lookType 1)

def setState (n : Int) : Act Unit := modify fun s => { s with state := n }

/-- The rules under way. -/
def underWay (s : Session) : Callers := s.frames.map Frame.caller

/-- The innermost phrase under way. -/
def top : Act Frame := do Fault.absent.unless (← get).frames.head?

def modifyTop (f : Frame → Frame) : Act Unit := do
  match (← get).frames with
  | [] => throw .absent
  | fr :: rest => modify fun s => { s with frames := f fr :: rest }

def modifyLabel (f : Label → Label) : Act Unit := modifyTop fun fr => { fr with label := f fr.label }

/-- Takes the innermost phrase off. -/
def dropTop : Act Unit := modify fun s => { s with frames := s.frames.tail }

/-- The alternative to take in a decision. -/
def choose (decision : Int) : Act Int := do
  let s ← get
  onRecogniser (Predict.choose decision (if s.frames.isEmpty then none else some s.underWay))

/-! ## Watchers -/

def note (event : String) : Act Unit := modify fun s => { s with noted := s.noted.push event }

/-- The name of a phrase's rule in a trace; a phrase of no rule shares the last name. -/
def tracedName (form : Grammar.Form) : Act String := do
  Fault.outOfRange.unless (Indexing.listAt? (← get).rules form.ruleIndex)

def traceRule (word : String) (form : Grammar.Form) : Act Unit := do
  let name ← tracedName form
  let text ← Fault.mistyped.unless (← currentToken).text?
  onRecogniser (Recogniser.print (word ++ name ++ ", LT(1)=" ++ text))

def told (form : Grammar.Form) (word : String) : Act Unit := do
  if !form.general then note (word ++ form.name)

/-- Tells each of the watchers, in the given order. -/
def announce (order : List Watcher → List Watcher) (tell : Watcher → Act Unit) : Act Unit := do
  for w in order ((← get).watchers.getD []) do tell w

/-- Tells the watchers that the innermost phrase was entered. -/
def announceEntry : Act Unit := announce id fun w => do
  let form := (← top).label.form
  match w with
  | .recorder =>
    note ("> " ++ toString form.ruleIndex)
    told form "enter"
  | .tracer => traceRule "enter   " form

/-- Tells the watchers, the last one first, that the innermost phrase is left. -/
def announceExit : Act Unit := announce List.reverse fun w => do
  let form := (← top).label.form
  match w with
  | .recorder =>
    told form "exit"
    note ("< " ++ toString form.ruleIndex)
  | .tracer => traceRule "exit    " form

def announceLeaf (t : Tree) : Act Unit := announce id fun w => do
  match w, t with
  | .recorder, .error token => note ("e " ++ (← Fault.mistyped.unless token.text?))
  | .recorder, .leaf token => note ("t " ++ (← Fault.mistyped.unless token.text?))
  | .tracer, .leaf token =>
    let name ← tracedName (← top).label.form
    onRecogniser (Recogniser.print ("consume " ++ token.describe ++ " rule " ++ name))
  | _, _ => pure ()

def addWatcher (w : Watcher) : Act Unit :=
  modify fun s => { s with watchers := some (s.watchers.getD [] ++ [w]) }

/-- Removes the tracer from the watchers, if there are any; it must be one of them. -/
def removeTracer : Act Unit := do
  let s ← get
  match s.watchers with
  | none => return ()
  | some ws =>
    let rest ← Fault.without (if s.hasTracer then ws else []) .tracer
    set { s with watchers := if rest.isEmpty then none else some rest }

def setTrace (on : Bool) : Act Unit := do
  if on then
    if (← get).hasTracer then removeTracer
    modify fun s => { s with hasTracer := true }
    addWatcher .tracer
  else
    removeTracer
    modify fun s => { s with hasTracer := false }

/-! ## Setting up -/

/-- A session over a token stream. -/
def start (stream : TokenStream Supply) : Session :=
  { Recogniser.ofNetwork Grammar.parserNetwork Grammar.literals Grammar.vocabulary.symbolic Grammar.phraseRules stream with }

/-- A session over a Nimble source. -/
def ofSource (source : Source) : Session :=
  start { source := .scanned (Grammar.scanner source false) }

/-- A session that goes on with what an earlier one has learnt: the automata of scanner and parser, and what can come
next in each state. -/
def inherit (s earlier : Session) : Session :=
  let learnt := match earlier.stream.source with
    | .scanned sc => some sc.automata
    | .listed _ => none
  let stream := { s.stream with source := s.stream.source.onScanner fun sc =>
    { sc with automata := learnt.getD sc.automata } }
  { s with automata := earlier.automata, lookahead := earlier.lookahead, stream }

/-- Forgets the phrases under way and goes back to the beginning of the stream. -/
def reset : Act Unit := do
  if (← get).attached then onStream (TokenStream.seek 0)
  modify fun s => { s with recovering := false, lastErrorStates := none, lastErrorAt := -1, frames := [], errorsAt := [] }
  setTrace false
  modify fun s => { s with precedences := [0] }

/-- Goes on with another stream. -/
def setStream (stream : TokenStream Supply) : Act Unit := do
  modify fun s => { s with attached := false }
  reset
  modify fun s => { s with attached := true, stream }

end Session

end NimbleLang
