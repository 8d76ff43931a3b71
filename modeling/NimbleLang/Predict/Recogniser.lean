import NimbleLang.Predict.Conflict
import NimbleLang.Network.Lookahead
import NimbleLang.Token.Supply

/-!
Recognisers: a network, the token stream it reads, and all that a recogniser keeps from one decision to the
next. The automata remember decisions already taken; the lookahead memory remembers what can come next. A
recogniser reports to its journal, and prints to it what the traces ask for.
-/

namespace NimbleLang

/-- What a recogniser prints on its way. -/
structure Traces where
  steps : Bool := false
  decisions : Bool := false
  automata : Bool := false
  retries : Bool := false
  deriving DecidableEq, Repr, Inhabited

/-- A predicate that was asked: where the stream stood, and whether the predicate saw the rules under way. -/
structure Question where
  rule : Int
  index : Int
  place : Int
  blind : Bool
  deriving DecidableEq, Repr, Inhabited

structure Recogniser where
  net : Network
  literals : List String
  symbols : List String := []
  rules : List String
  stream : TokenStream Supply
  /-- Whether the stream may be read; a recogniser whose change of input failed has none. -/
  attached : Bool := true
  journal : Journal := {}
  automata : Array (Automaton Predict.ConfigSet)
  lookahead : Lookahead.Memory
  mode : Predict.Mode := .full
  /-- Whether decisions are reported as complaints too; if so, whether only exact ambiguities are. -/
  diagnosis : Option Bool := none
  /-- The precedence levels in force, the innermost first. -/
  precedences : List Int := [0]
  /-- The rules under way. -/
  callers : Callers := []
  state : Int := -1
  /-- Where the stream stood at each complaint, the last one first. -/
  errorsAt : List Int := []
  /-- The predicates that do not simply hold. -/
  predicates : List ((Int × Int) × Bool) := []
  questions : Array Question := #[]
  merger : Merger Unit := {}
  traces : Traces := {}

namespace Recogniser

/-- Fresh automata for the decisions of a network. -/
def freshAutomata (net : Network) : Array (Automaton Predict.ConfigSet) :=
  net.decisions.mapIdx fun i n =>
    let s := net.state n
    let byLevel := s.kind = .starLoopEntry && s.precedenceDecision
    { decision := i, start := if byLevel then .byPrecedence [] else .unset }

def ofNetwork (net : Network) (literals symbols rules : List String) (stream : TokenStream Supply) : Recogniser :=
  { net, literals, symbols, rules, stream, automata := freshAutomata net, lookahead := .ofNetwork net }

/-- The number of complaints about the stream. -/
def errorCount (r : Recogniser) : Nat := r.errorsAt.length

/-- Computations of a recogniser. -/
abbrev Act := Run Recogniser

/-- Works on the token stream; what the stream's source notes meanwhile is noted here. -/
def onStream {α : Type} (act : TokenStream.Act Supply α) : Act α := Run.ofOutcome fun r =>
  if r.attached then
    let (result, stream) := act.outcome r.stream
    let (notes, source) := stream.source.drain
    (result, { r with stream := { stream with source }, journal := r.journal.append notes })
  else (.error .absent, r)

def merging {α : Type} (act : Context.Merging Unit α) : Act α :=
  Run.onPart (·.merger) (fun merger r => { r with merger }) act

/-! ## Reporting -/

def print (line : String) : Act Unit := modify fun r => { r with journal := r.journal.print line }

/-- Prints if the trace is asked for. -/
def printIf (wanted : Traces → Bool) (line : Act String) : Act Unit := do
  if wanted (← get).traces then print (← line)

def report (entry : Report) : Act Unit := modify fun r => { r with journal := r.journal.add entry }

def currentToken : Act Token := do
  Fault.absent.unless (← onStream (TokenStream.look 1))

/-- Complains about a token. -/
def complainAt (token : Token) (message : String) (kind : Option Recognition.Kind) : Act Unit := do
  modify fun r => { r with errorsAt := r.stream.index :: r.errorsAt }
  report (.complaint token.line token.column message (some token.describe) kind none)

/-- Complains about the current token. -/
def complain (message : String) : Act Unit := do
  complainAt (← currentToken) message none

/-- A decision by number, with its rule. -/
def describeDecision (decision : Nat) : Act String := do
  let r ← get
  let rule := (r.net.state (r.net.decisions.getD decision 0)).rule
  if rule < 0 then return toString decision
  return match r.rules[rule.toNat]? with
    | none | some "" => toString decision
    | some name => toString decision ++ " (" ++ name ++ ")"

def textBetween (start stop : Int) : Act String := onStream (TokenStream.text (some start) (some stop))

/-- Complains about how a decision went. -/
def diagnose (what : String) (decision : Nat) (detail : String) (start stop : Int) : Act Unit := do
  let where_ ← describeDecision decision
  let text ← textBetween start stop
  complain (what ++ " d=" ++ where_ ++ detail ++ ", input='" ++ text ++ "'")

/-- Tells how a decision went: in the trace, to a diagnosis that wants it, and in a report. -/
def announce (what which detail : String) (wanted : Bool → Bool) (decision : Nat) (configs : Predict.ConfigSet)
    (start stop : Int) (entry : Report) : Act Unit := do
  printIf (fun t => t.steps || t.retries) do
    return what ++ " " ++ which ++ ":" ++ configs.spell ++ ", input=" ++ (← textBetween start stop)
  if (← get).diagnosis.any wanted then diagnose what decision detail start stop
  report entry

def reportAttempt (decision : Nat) (alts : Option (List Int)) (configs : Predict.ConfigSet) (start stop : Int) : Act Unit :=
  announce "reportAttemptingFullContext" ("decision=" ++ toString decision) "" (fun _ => true) decision configs start stop
    (.attempt decision start stop alts)

def reportSensitivity (decision : Nat) (prediction : Int) (configs : Predict.ConfigSet) (start stop : Int) : Act Unit :=
  announce "reportContextSensitivity" ("decision=" ++ toString decision) "" (fun _ => true) decision configs start stop
    (.sensitivity decision start stop prediction)

/-- A diagnosis may be about exact ambiguities only. -/
def reportAmbiguity (decision : Nat) (start stop : Int) (exact : Bool) (alts : Option (List Int))
    (configs : Predict.ConfigSet) : Act Unit :=
  announce "reportAmbiguity" ((alts.map Text.numberSet).getD "None")
    (": ambigAlts=" ++ Text.numberSet (alts.getD configs.alts)) (fun exactOnly => !exactOnly || exact) decision configs
    start stop (.ambiguity decision start stop exact alts configs.alts)

/-! ## Names -/

/-- A token type as traces name it. -/
def tokenName (t : Int) : Act String := do
  if t = Token.eof then return "EOF"
  let names := (← get).literals
  if t < names.length then
    return (← Fault.outOfRange.unless (Indexing.listAt? names t)) ++ "<" ++ toString t ++ ">"
  return toString t

def ruleName (rule : Int) : Act String := do
  if rule ≥ 0 then Fault.outOfRange.unless (Indexing.listAt? (← get).rules rule)
  else return "<rule " ++ toString rule ++ ">"

/-- The rules under way by name, innermost first. -/
def invocation : Act (List String) := do
  let r ← get
  r.callers.mapM fun c => do
    if c.rule < 0 then return "n/a" else Fault.outOfRange.unless (Indexing.listAt? r.rules c.rule)

/-! ## Guards -/

/-- Whether a precedence level is high enough here. -/
def precedenceHolds (level : Int) : Act Bool := do
  match (← get).precedences with
  | [] => throw .outOfRange
  | current :: _ => return decide (level ≥ current)

/-- The precedence level in force; `-1` without one. -/
def precedence (r : Recogniser) : Int := r.precedences.headD (-1)

/-- The truth of a guard among some callers. -/
def holds (callers : Option Callers) (g : Guard) : Act Bool := do
  let answer ← g.eval (m := Act)
    (fun rule index contextual => do
      let r ← get
      let asked : Question := { rule, index, place := r.stream.index, blind := !contextual || callers.isNone }
      set { r with questions := r.questions.push asked }
      return (r.predicates.lookup (rule, index)).getD true)
    precedenceHolds
  return answer.getD false

end Recogniser

end NimbleLang
