import NimbleLang.Parse.Outline
import NimbleLang.Pattern.Compile

/-!
Sessions taken step by step: what can be asked of a session between two tokens, and failures that are handed
to it from outside.
-/

namespace NimbleLang.Session

/-- The names of the rules under way, innermost first. -/
def invocation : Act (List String) := onRecogniser Recogniser.invocation

/-- Opens a phrase of no rule in a state; yields the rules then under way. -/
def beginPhrase (state : Int) : Act (List String) := do
  enterRule .bare state
  invocation

/-- Takes any token but the end. -/
def matchAny : Act Token := matchToken (0 < ·.type)

/-- The precedence levels of the operators. -/
def operatorLevels : List Int :=
  match Grammar.body .expr with
  | .operators _ _ _ _ _ _ _ _ tails => tails.map (·.level)
  | _ => []

/-- Whether a numbered condition of a rule holds. Only operators have conditions: their precedence levels. -/
def condition (rule index : Int) : Act (Option Bool) := do
  if rule ≠ Grammar.Form.expr.ruleIndex then throw (.because ("No predicate with index:" ++ toString rule))
  match operatorLevels[index.toNat]? with
  | some level => if index < 0 then return none else return some (← onRecogniser (Recogniser.precedenceHolds level))
  | none => return none

/-- Reports that a condition failed; yields the wording and the rule and number of the condition, if the state is
left by one. -/
def failCondition (condition message : Option String) : Act (String × Int × Int) := do
  let wording ← Fault.mistyped.unless (message <|> condition.map fun c => "failed predicate: \x7b" ++ c ++ "\x7d?")
  let s ← get
  let edge ← Fault.outOfRange.unless (s.net.edgesOf (← stateHere)).head?
  let token ← currentToken
  reportFailure { kind := .failedPredicate, token := some token, state := s.state, message := some wording }
  return match edge with
    | .predicate _ rule index _ => (wording, rule, index)
    | _ => (wording, 0, 0)

/-- Reports a failure of no known kind at the current token. -/
def failUnspecified (message : String) : Act Unit := do
  let token ← currentToken
  reportFailure { kind := .unspecified, token := some token, state := (← get).state, message := some message }

/-- Reports that no alternative can go on; yields the token where it began, the current one. -/
def failDecision : Act Token := do
  let token ← currentToken
  reportFailure { kind := .noViableAlternative, token := some token, start := some token, state := (← get).state }
  return token

/-- The place of a failure in words. A failure does not hand out the token that has it. -/
def failureHeader : Act String := throw .absent

/-- Whether the session is inside something of a name. It never says so. -/
def inContext (_name : String) : Bool := false

/-- The innermost phrase of a rule. -/
def phraseOf (rule : Int) : Act (Option Tree) := do
  return ((← get).frames.find? fun f => f.label.form.ruleIndex == rule).map Frame.tree

/-- Changes what happens at a failure; what the session knew of earlier ones is forgotten. -/
def setBail (bail : Bool) : Act Unit := do
  endCondition
  modify fun s => { s with bail }

/-- The number of watchers. -/
def watching : Act Nat := do return ((← get).watchers.getD []).length

/-- Adds a watcher that notes every event; yields the number of watchers. -/
def record (wanted : Bool) : Act Nat := do
  if !wanted then throw (.dangling "listener")
  addWatcher .recorder
  watching

/-- Sends all watchers away. -/
def dismissWatchers : Act Unit := modify fun s => { s with watchers := none }

/-- Makes the scanner keep the text of each token apart from the source. -/
def setCopying (copyText : Bool) : Act Unit :=
  onStream (modify fun st => { st with source := st.source.onScanner fun sc => { sc with copyText } })

/-- The automata as text, those without a start included. -/
def automataTexts : Act (List String) := do
  (← get).automata.toList.mapM fun a => (a.spell (Automaton.tokenLabel none none) : Except Fault String)

/-- Compiles a tree pattern. It needs a scanner, and even with one there is nothing to compile it. -/
def compilePattern : Act Unit := do
  let s ← get
  match s.attached, s.stream.source with
  | true, .scanned _ => throw .absent
  | _, _ => throw (.unsupported "Parser can't discover a lexer to use")

end NimbleLang.Session
