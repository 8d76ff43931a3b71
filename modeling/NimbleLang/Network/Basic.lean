import NimbleLang.Interval
import NimbleLang.Network.Command

/-!
Transition networks: the form in which grammars are given. Each rule of a grammar is a set of states
from its start state to its stop state; edges either consume one symbol or are free of input. A `call`
edge goes to the start state of another rule and names the state to go on from when that rule ends.
A rule's stop state has an edge to every place the rule can return to.

Some states carry marks: the number of the decision taken there, the ends of the block or loop they
open, whether a loop prefers to leave. A mark is `none` on a state that has no such mark at all.
-/

namespace NimbleLang

inductive StateKind where
  | basic
  | ruleStart
  | blockStart
  | plusBlockStart
  | starBlockStart
  | tokensStart
  | ruleStop
  | blockEnd
  | starLoopBack
  | starLoopEntry
  | plusLoopBack
  | loopEnd
  deriving DecidableEq, Repr, Inhabited

namespace StateKind

def name : StateKind → String
  | basic => "BASIC"
  | ruleStart => "RULE_START"
  | blockStart => "BLOCK_START"
  | plusBlockStart => "PLUS_BLOCK_START"
  | starBlockStart => "STAR_BLOCK_START"
  | tokensStart => "TOKEN_START"
  | ruleStop => "RULE_STOP"
  | blockEnd => "BLOCK_END"
  | starLoopBack => "STAR_LOOP_BACK"
  | starLoopEntry => "STAR_LOOP_ENTRY"
  | plusLoopBack => "PLUS_LOOP_BACK"
  | loopEnd => "LOOP_END"

/-- States at which an alternative is chosen. -/
def decides : StateKind → Bool
  | blockStart | plusBlockStart | starBlockStart | tokensStart | starLoopEntry | plusLoopBack => true
  | _ => false

/-- States that open a block of alternatives. -/
def opensBlock : StateKind → Bool
  | blockStart | plusBlockStart | starBlockStart => true
  | _ => false

/-- States that take any mark; the others take only the marks of their kind. -/
def lenient : StateKind → Bool
  | basic | ruleStop | blockStart | starBlockStart | plusLoopBack | starLoopBack | tokensStart => true
  | _ => false

/-- States that name the state a loop comes back to. -/
def namesLoopBack : StateKind → Bool
  | plusBlockStart | starLoopEntry | loopEnd => true
  | _ => false

end StateKind

inductive Edge where
  | epsilon (target : Nat) (outermostReturn : Int)
  | range (target : Nat) (lo hi : Int)
  | call (target : Nat) (rule precedence : Int) (follow : Nat)
  | predicate (target : Nat) (rule index : Int) (contextual : Bool)
  | atom (target : Nat) (label : Int)
  | action (target : Nat) (rule index : Int) (contextual : Bool)
  | set (target : Nat) (label : IntervalSet)
  | notSet (target : Nat) (label : IntervalSet)
  | wildcard (target : Nat)
  | precedence (target : Nat) (level : Int)
  deriving DecidableEq, Repr, Inhabited

namespace Edge

def target : Edge → Nat
  | epsilon t _ | range t _ _ | call t _ _ _ | predicate t _ _ _ | atom t _ | action t _ _ _ | set t _
  | notSet t _ | wildcard t | precedence t _ => t

def withTarget (e : Edge) (t : Nat) : Edge :=
  match e with
  | epsilon _ o => epsilon t o
  | range _ lo hi => range t lo hi
  | call _ r p f => call t r p f
  | predicate _ r i c => predicate t r i c
  | atom _ l => atom t l
  | action _ r i c => action t r i c
  | set _ l => set t l
  | notSet _ l => notSet t l
  | wildcard _ => wildcard t
  | precedence _ p => precedence t p

/-- Edges that consume no symbol. -/
def isEpsilon : Edge → Bool
  | epsilon _ _ | call _ _ _ _ | predicate _ _ _ _ | action _ _ _ _ | precedence _ _ => true
  | _ => false

/-- The symbols written on an edge. -/
def label? : Edge → Option IntervalSet
  | atom _ l => some (IntervalSet.empty.addOne l)
  | range _ lo hi => some (IntervalSet.empty.addRange ⟨lo, hi + 1⟩)
  | set _ l | notSet _ l => some l
  | _ => none

/-- Whether an edge consumes `symbol`, where `lo` to `hi` are all the symbols there are. -/
def admits (e : Edge) (symbol lo hi : Int) : Bool :=
  match e with
  | atom _ l => l == symbol
  | range _ a b => a ≤ symbol && symbol ≤ b
  | set _ l => l.contains symbol
  | notSet _ l => lo ≤ symbol && symbol ≤ hi && !l.contains symbol
  | wildcard _ => lo ≤ symbol && symbol ≤ hi
  | _ => false

def kindName : Edge → String
  | epsilon _ _ => "EPSILON"
  | range _ _ _ => "RANGE"
  | call _ _ _ _ => "RULE"
  | predicate _ _ _ _ => "PREDICATE"
  | atom _ _ => "ATOM"
  | action _ _ _ _ => "ACTION"
  | set _ _ => "SET"
  | notSet _ _ => "NOT_SET"
  | wildcard _ => "WILDCARD"
  | precedence _ _ => "PRECEDENCE"

end Edge

structure State where
  kind : StateKind
  rule : Int := 0
  edges : List Edge := []
  /-- The decision taken here; `-1` while none is assigned. -/
  decision : Option Int := none
  nonGreedy : Option Bool := none
  precedenceRule : Option Bool := none
  /-- A loop that goes on with an operator of its own rule. -/
  precedenceDecision : Bool := false
  blockEnd : Option Nat := none
  blockStart : Option Nat := none
  loopBack : Option Nat := none
  ruleStop : Option Nat := none
  deriving DecidableEq, Repr, Inhabited

namespace State

/-- A state of a kind, with the marks of its kind unset. -/
def ofKind (kind : StateKind) (rule : Int) : State :=
  { kind, rule
    decision := if kind.decides then some (-1) else none
    nonGreedy := if kind.decides then some false else none
    precedenceRule := if kind = .ruleStart then some false else none }

/-- Whether a state has edges and none of them consumes a symbol. -/
def epsilonOnly (s : State) : Bool := !s.edges.isEmpty && s.edges.all Edge.isEpsilon

def addEdge (s : State) (e : Edge) : State := { s with edges := s.edges ++ [e] }

end State

inductive Network.Kind where
  | lexer
  | parser
  deriving DecidableEq, Repr, Inhabited

structure Network where
  kind : Network.Kind
  maxTokenType : Int
  states : Array State := #[]
  decisions : Array Nat := #[]
  ruleStarts : Array Nat := #[]
  ruleStops : Array (Option Nat) := #[]
  /-- The token type each rule makes: of a lexer, or of a parser that accepts whole rules as tokens. -/
  ruleTokens : Option (Array Int) := none
  modes : Array Nat := #[]
  commands : Option (Array Command) := none
  deriving DecidableEq, Repr, Inhabited

namespace Network

def state? (net : Network) (n : Nat) : Option State := net.states[n]?

/-- The state with a number; a number outside the network names a blank state. -/
def state (net : Network) (n : Nat) : State := net.states.getD n default

def edgesOf (net : Network) (n : Nat) : List Edge := (net.state n).edges

/-- The start state of a rule, with its signed number. -/
def ruleStart? (net : Network) (rule : Int) : Option Nat := Indexing.arrayAt? net.ruleStarts rule

end Network

end NimbleLang
