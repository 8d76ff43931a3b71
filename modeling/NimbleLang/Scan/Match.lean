import NimbleLang.Scan.Closure

/-!
One match of the lexer: the longest stretch from the cursor on that some lexical rule accepts, the first
rule in case of a tie. Each set of configurations met becomes a node of the automaton of the mode, and
steps on the first 128 code points become its edges, unless a predicate was asked on the way: then the
step has to be taken again next time.
-/

namespace NimbleLang.Scan

/-- The symbols whose steps are kept as edges. -/
def keepsEdge (symbol : Int) : Bool := 0 ≤ symbol && symbol ≤ 127

/-- The best match so far: where it ends, and the node that accepts it. -/
structure Accepted where
  index : Int
  line : Int
  column : Int
  node : Nat

def automaton (k : Nat) : Act (Automaton (List Config)) := do return (← get).automata.getD k { decision := k }

def node (k n : Nat) : Act (Automaton.Node (List Config)) := do
  return (← automaton k).nodes.getD n { content := [] }

/-- A node as a trace shows it. -/
def spellNode (number : Nat) (n : Automaton.Node (List Config)) : String :=
  toString number ++ ":" ++ spellConfigs n.content ++ (if n.accepts then "=>" ++ toString n.prediction else "")

/-- The node for a list of configurations. It accepts if a rule has ended, with the token type of the first. -/
def makeNode (net : Network) (configs : List Config) : Except Fault (Automaton.Node (List Config)) := do
  match configs.find? fun c => (net.state c.state).kind == .ruleStop with
  | none => return { content := configs }
  | some c =>
    let types ← Fault.mistyped.unless net.ruleTokens
    let type ← Fault.outOfRange.unless (Indexing.arrayAt? types (net.state c.state).rule)
    return { content := configs, accepts := true, prediction := type }

def addNode (k : Nat) (configs : List Config) : Act Nat := do
  let n ← makeNode (← get).network configs
  let (a, number) := (← automaton k).addNode n
  modify fun s => { s with automata := s.automata.setIfInBounds k a }
  return number

/-- The commands of an accepting node: those of the first configuration at the end of a rule. -/
def programOf (net : Network) (n : Automaton.Node (List Config)) : Option Program :=
  (n.content.find? fun c => (net.state c.state).kind == .ruleStop).bind (·.program)

def addEdge (k source : Nat) (symbol : Int) (target : Automaton.Target) : Act Unit := do
  if keepsEdge symbol then
    let a ← automaton k
    trace fun _ =>
      let shown (n : Nat) : String := spellNode n (a.nodes.getD n { content := [] })
      let goal := match target with
        | .error => "2147483647:[]"
        | .node n => shown n
      .ok ("EDGE " ++ shown source ++ " -> " ++ goal ++ " upon " ++ String.singleton (Char.ofNat symbol.toNat))
    modify fun s => { s with automata := s.automata.setIfInBounds k (a.setEdge source symbol target) }

/-- The node after `symbol`: along an edge that is known, or computed now. -/
def next (k source : Nat) (symbol : Int) : Act Automaton.Target := do
  let from_ ← node k source
  let known := if keepsEdge symbol then from_.edge? symbol else none
  match known with
  | some t =>
    trace fun _ =>
      let number := match t with
        | .error => "2147483647"
        | .node n => toString n
      .ok ("reuse state " ++ toString source ++ " edge to " ++ number)
    return t
  | none =>
    let reach ← step from_.content symbol
    if reach.configs.isEmpty then
      if !reach.asked then addEdge k source symbol .error
      return .error
    else
      let n ← addNode k reach.configs
      if !reach.asked then addEdge k source symbol (.node n)
      return .node n

/-- More steps than a walk takes over `left` characters and then over the end of input, unless it can go on there for ever. -/
def walkBound (net : Network) (left : Nat) : Nat := left + pathBound net ((left + 1) * (net.ruleStarts.size + 1))

/-- Walks on from a node as far as rules can go on. Yields the best match and the symbol that ended the walk. -/
def walk (k : Nat) : Nat → Nat → Int → Option Accepted → Act (Option Accepted × Int)
  | 0, _, _, _ => throw .exhausted
  | fuel + 1, source, symbol, best => do
    let from_ ← node k source
    trace fun _ => .ok ("execATN loop starting closure: " ++ spellConfigs from_.content)
    match ← next k source symbol with
    | .error => return (best, symbol)
    | .node n =>
      if symbol ≠ Source.endMark then consume
      let target ← node k n
      let s ← get
      let best := if target.accepts then some ⟨s.cursor.index, s.line, s.column, n⟩ else best
      if target.accepts && symbol == Source.endMark then return (best, symbol)
      walk k fuel n (s.cursor.peek 1) best

/-- Runs the automaton from a node; the token type of the best match, or `none` if no rule matches. -/
def execute (k start : Nat) : Act (Option Int) := do
  let first ← node k start
  trace fun _ => .ok ("start state closure=" ++ spellConfigs first.content)
  let s ← get
  let best := if first.accepts then some ⟨s.cursor.index, s.line, s.column, start⟩ else none
  let (best, last) ← walk k (walkBound s.network (s.cursor.source.size - s.cursor.index).toNat) start (s.cursor.peek 1) best
  let s ← get
  match best with
  | some b =>
    let n ← node k b.node
    let program := programOf s.network n
    trace fun _ => .ok ("ACTION " ++ if program.isSome then "<LexerActionExecutor>" else "None")
    modify fun s => { s with cursor := s.cursor.seek b.index, line := b.line, column := b.column }
    match program with
    | some p => runProgram p s.startIndex
    | none => pure ()
    return some n.prediction
  | none =>
    if last = Source.endMark ∧ s.cursor.index = s.startIndex then return some Token.eof
    return none

/-- One match in a mode. -/
def matchMode (mode : Int) : Act (Option Int) := do
  modify fun s => { s with startIndex := s.cursor.index }
  let s ← get
  let k ← Fault.outOfRange.unless (Indexing.wrap? s.automata.size mode)
  match (← automaton k).start with
  | .node n => execute k n
  | .byPrecedence _ => throw .outOfRange
  | .unset =>
    let start ← Fault.outOfRange.unless (Indexing.arrayAt? s.network.modes mode)
    trace fun _ => .ok ("matchATN mode " ++ toString mode ++ " start: " ++ toString start)
    let reach ← startClosure start
    let n ← addNode k reach.configs
    if !reach.asked then
      let a ← automaton k
      modify fun s => { s with automata := s.automata.setIfInBounds k { a with start := .node n } }
    let type ← execute k n
    if (← get).traced then
      let text ← (← automaton k).spell Automaton.charLabel
      trace fun _ => .ok ("DFA after matchATN: " ++ text)
    return type

end NimbleLang.Scan
