import NimbleLang.Token.Basic

/-!
Faults: the ways an operation of this library ends without a result.

A fault is a cause, not a text. The causes at the top carry nothing, because whoever meets them can
only report that the request had no meaning (an absent part, an index outside a table). The ones
below carry what a reader needs to act: the wording of a refused request, or the offending token of a
recognition failure. `Fault.message?` is the one place where a cause becomes text.
-/

namespace NimbleLang

/-- How a recogniser got stuck. -/
inductive Recognition.Kind where
  /-- No alternative of a decision can go on. -/
  | noViableAlternative
  /-- The next token is not the one the grammar asks for. -/
  | inputMismatch
  /-- A condition attached to the grammar does not hold. -/
  | failedPredicate
  /-- No lexical rule matches at the current character. -/
  | noLexicalRule
  /-- Reported from outside, with no kind of its own. -/
  | unspecified
  deriving DecidableEq, Repr, Inhabited

/-- A recognition failure: the token it is blamed on, the token where the decision began, and the network state
it arose in. -/
structure Recognition where
  kind : Recognition.Kind
  token : Option Token
  start : Option Token := none
  state : Int
  message : Option String := none
  deriving DecidableEq, Repr, Inhabited

inductive Fault where
  /-- A part was asked for that the value at hand does not have. -/
  | absent
  /-- A value of the wrong kind, such as the length of a set that was never filled. -/
  | mistyped
  /-- A name that a table does not list. -/
  | unknownKey
  /-- An index outside a sequence. -/
  | outOfRange
  /-- Bytes that are no text in the chosen encoding. -/
  | undecodable
  /-- A check that a caller asked for failed. -/
  | refuted
  /-- A name used before it was given a value. -/
  | unbound
  /-- A name that nothing bears. -/
  | undefined
  | invalidValue (message : String)
  | dangling (message : String)
  | illegalState (message : String)
  | unsupported (message : String)
  | failure (message : Option String)
  /-- The source does not follow the grammar; the text lists the complaints. -/
  | malformed (complaints : String)
  /-- Recognition was given up at the first failure. -/
  | cancelled (cause : Recognition)
  | recognition (cause : Recognition)
  /-- A bound on the number of steps was used up. -/
  | exhausted
  deriving DecidableEq, Repr, Inhabited

/-- A fault whose wording is all there is to say. -/
def Fault.because (message : String) : Fault := .failure (some message)

/-- The wording of a fault, for those that have one. -/
def Fault.message? : Fault → Option String
  | .invalidValue m | .dangling m | .illegalState m | .unsupported m | .malformed m => some m
  | .failure m => m
  | .recognition r => r.message
  | _ => none

/-- A list without `x`, which must be in it. -/
def Fault.without {α : Type} [BEq α] (l : List α) (x : α) : Except Fault (List α) :=
  if l.contains x then .ok (l.erase x) else .error (.invalidValue "list.remove(x): x not in list")

/-- Computations over a state `σ` in which a fault keeps the state reached so far. -/
abbrev Run (σ : Type) := ExceptT Fault (StateM σ)

namespace Run

variable {σ τ α β : Type}

/-- What became of a run, and the state it left. -/
def outcome (act : Run σ α) (s : σ) : Except Fault α × σ := StateT.run (ExceptT.run act) s

def ofOutcome (f : σ → Except Fault α × σ) : Run σ α := ExceptT.mk fun s => f s

/-- Runs `act`, then `last`, whether `act` failed or not; a fault of `act` passes through. -/
def always (act : Run σ α) (last : Run σ Unit) : Run σ α := ofOutcome fun s =>
  match act.outcome s with
  | (.ok a, s') =>
    match last.outcome s' with
    | (.ok _, s'') => (.ok a, s'')
    | (.error f, s'') => (.error f, s'')
  | (.error f, s') =>
    match last.outcome s' with
    | (.ok _, s'') => (.error f, s'')
    | (.error g, s'') => (.error g, s'')

/-- The result of `act` as a value: a fault is no longer one. -/
def attempt (act : Run σ α) : Run σ (Except Fault α) := ofOutcome fun s =>
  let (r, s') := act.outcome s
  (.ok r, s')

/-- Runs a computation on a part of the state. -/
def onPart (read : σ → τ) (write : τ → σ → σ) (act : Run τ α) : Run σ α := ofOutcome fun s =>
  let (r, t) := act.outcome (read s)
  (r, write t s)

end Run

/-- A value that must be present; without it the fault arises. -/
def Fault.unless {α : Type} (f : Fault) : Option α → Except Fault α
  | some a => .ok a
  | none => .error f

end NimbleLang
