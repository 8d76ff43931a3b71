import NimbleLang.Guard.Basic
import NimbleLang.Fault

/-!
Automata built on demand. While a simulator runs over a network it records the sets of configurations it
has met as the nodes of an automaton, and the steps between them as edges, so that the next run over the
same symbols need not compute them again. A node is known by its content: no two nodes of an automaton
hold equal content, and a node's number is the order in which it was added.

The decision of a precedence rule has one start node for each precedence level instead of a single one.
-/

namespace NimbleLang

namespace Automaton

/-- Where an edge leads: to a node, or nowhere for good. -/
inductive Target where
  | error
  | node (n : Nat)
  deriving DecidableEq, Repr, Inhabited

structure Node (κ : Type) where
  content : κ
  accepts : Bool := false
  prediction : Int := 0
  needsFullContext : Bool := false
  /-- Alternatives that hang on a guard, with their guards. -/
  guarded : Option (List (Guard × Int)) := none
  /-- Edges by symbol, in increasing order; `none` until the first is added. -/
  edges : Option (List (Int × Target)) := none
  deriving DecidableEq, Repr, Inhabited

/-- The start of an automaton: a node, or one node for each precedence level. -/
inductive Start where
  | unset
  | node (n : Nat)
  | byPrecedence (nodes : List (Option Int))
  deriving DecidableEq, Repr, Inhabited

end Automaton

structure Automaton (κ : Type) where
  decision : Nat
  start : Automaton.Start := .unset
  nodes : Array (Automaton.Node κ) := #[]
  deriving DecidableEq, Repr, Inhabited

namespace Automaton

variable {κ : Type}

/-- The symbol-ordered edge list with an edge set. -/
def insertEdge (symbol : Int) (target : Target) : List (Int × Target) → List (Int × Target)
  | [] => [(symbol, target)]
  | (s, t) :: rest =>
    if symbol < s then (symbol, target) :: (s, t) :: rest
    else if symbol = s then (symbol, target) :: rest
    else (s, t) :: insertEdge symbol target rest

def Node.edge? (n : Node κ) (symbol : Int) : Option Target := n.edges.bind (·.lookup symbol)

def Node.setEdge (n : Node κ) (symbol : Int) (target : Target) : Node κ :=
  { n with edges := some (insertEdge symbol target (n.edges.getD [])) }

def setEdge (a : Automaton κ) (source : Nat) (symbol : Int) (target : Target) : Automaton κ :=
  { a with nodes := a.nodes.modify source (·.setEdge symbol target) }

/-- The number of the node with a content. -/
def find? [BEq κ] (a : Automaton κ) (content : κ) : Option Nat := a.nodes.findIdx? (·.content == content)

/-- The automaton with a node of the content of `n`, and its number. A node already there stays as it is. -/
def addNode [BEq κ] (a : Automaton κ) (n : Node κ) : Automaton κ × Nat :=
  match a.find? n.content with
  | some k => (a, k)
  | none => ({ a with nodes := a.nodes.push n }, a.nodes.size)

/-! ## Precedence starts -/

def notPrecedence : Fault := .illegalState "Only precedence DFAs may contain a precedence start state."

/-- The start node for a precedence level. -/
def precedenceStart (a : Automaton κ) (level : Int) : Except Fault (Option Int) :=
  match a.start with
  | .byPrecedence nodes => .ok (if level < 0 then none else (nodes[level.toNat]?).join)
  | _ => .error notPrecedence

def setPrecedenceStart (a : Automaton κ) (level : Int) (n : Int) : Except Fault (Automaton κ) :=
  match a.start with
  | .byPrecedence nodes =>
    if level < 0 then .ok a
    else
      let k := level.toNat
      let nodes := nodes ++ List.replicate (k + 1 - nodes.length) none
      .ok { a with start := .byPrecedence (nodes.set k (some n)) }
  | _ => .error notPrecedence

def isPrecedence (a : Automaton κ) : Bool :=
  match a.start with
  | .byPrecedence _ => true
  | _ => false

/-- Turns an automaton into one with or without starts by level; a change forgets all nodes. -/
def setPrecedence (a : Automaton κ) (byLevel : Bool) : Automaton κ :=
  if a.isPrecedence = byLevel then a
  else { a with nodes := #[], start := if byLevel then .byPrecedence [] else .unset }

/-! ## Text -/

/-- A node with its number and what it accepts. -/
def Node.spell (n : Node κ) (number : Nat) : String :=
  let base := (if n.accepts then ":" else "") ++ "s" ++ toString number ++ (if n.needsFullContext then "^" else "")
  if n.accepts then
    base ++ "=>" ++ match n.guarded with
      | some gs => Text.bracketed (gs.map fun (g, alt) => "(" ++ g.spell ++ ", " ++ toString alt ++ ")")
      | none => toString n.prediction
  else base

/-- One line for each edge between nodes, with the symbol as `label` writes it. -/
def lines (a : Automaton κ) (label : Int → Except Fault String) : Except Fault String := do
  let node (k : Nat) : String := match a.nodes[k]? with
    | some n => n.spell k
    | none => ""
  let parts ← (List.range a.nodes.size).mapM fun k => do
    let edges := ((a.nodes[k]?).bind (·.edges)).getD []
    let out ← edges.mapM fun (symbol, target) => do
      match target with
      | .error => return ""
      | .node t => return node k ++ "-" ++ (← label symbol) ++ "->" ++ node t ++ "\n"
    return out.foldl (· ++ ·) ""
  return parts.foldl (· ++ ·) ""

/-- The edges of an automaton as text. One without a start is blank; one with a start must have an edge. -/
def spell (a : Automaton κ) (label : Int → Except Fault String) : Except Fault String := do
  match a.start with
  | .unset => return ""
  | _ =>
    let out ← a.lines label
    if out.isEmpty then throw .mistyped else return out

/-- The symbol of a lexer automaton, as a quoted character. -/
def charLabel (symbol : Int) : Except Fault String :=
  .ok ("'" ++ String.singleton (Char.ofNat symbol.toNat) ++ "'")

/-- The symbol of a parser automaton: by name as far as there are names. Names are listed by token type. -/
def tokenLabel (literal symbolic : Option (List String)) (symbol : Int) : Except Fault String :=
  let k := (symbol + 1).toNat
  if k = 0 then .ok "EOF"
  else
    let named (names : Option (List String)) : Option String := names.bind (·[k - 1]?)
    .ok (match named literal with
      | some n => n
      | none => match named symbolic with
        | some n => n
        | none => toString (k - 1 : Nat))

end Automaton

end NimbleLang
