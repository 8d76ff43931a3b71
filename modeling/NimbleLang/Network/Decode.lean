import NimbleLang.Network.Basic

/-!
Reading a network from a sequence of integers (format version 4). The sequence lists, in this order:
the format version, the kind of network, the largest token type, the states, the states that prefer to
leave, the start states of precedence rules, the rules, the modes, the symbol sets, the edges, the
decisions and, of a lexer, the commands. Each list begins with its length. A number that names a state,
a set or a rule may be negative and then counts from the end.

After the edges are read, every `call` edge gives its rule's stop state an edge back to the caller,
blocks are tied to their ends and loops to their entries. `verify` checks that the result is a network
that the simulators can run; `bypass` adds to every rule a way past it by a single token that stands
for the whole rule.
-/

namespace NimbleLang

namespace Network

/-- Readers of the integer sequence. -/
abbrev Reader := StateT (List Int) (Except Fault)

namespace Reader

variable {α : Type}

def int : Reader Int := fun data =>
  match data with
  | [] => .error .outOfRange
  | n :: rest => .ok (n, rest)

def times (act : Nat → α → Reader α) : Nat → Nat → α → Reader α
  | 0, _, a => pure a
  | n + 1, i, a => do times act n (i + 1) (← act i a)

/-- A length, then that many entries, each changing what was read so far. -/
def counted (act : Nat → α → Reader α) (a : α) : Reader α := do
  let n ← int
  times act n.toNat 0 a

end Reader

open Reader

/-- What was read so far: states may be void, and stay so until the edges are tied. -/
structure Draft where
  kind : Network.Kind
  maxTokenType : Int
  states : Array (Option State) := #[]
  loopBacks : List (Nat × Int) := []
  blockEnds : List (Nat × Int) := []
  ruleStarts : Array Nat := #[]
  ruleStops : Array (Option Nat) := #[]
  ruleTokens : Array Int := #[]
  modes : Array Nat := #[]
  sets : Array IntervalSet := #[]

namespace Draft

/-- The number that a signed state number stands for. -/
def number (d : Draft) (n : Int) : Except Fault Nat := Fault.outOfRange.unless (Indexing.wrap? d.states.size n)

/-- The state with a number; a void one has no parts to speak of. -/
def get (d : Draft) (n : Nat) : Except Fault State := Fault.absent.unless (d.states.getD n none)

def set (d : Draft) (n : Nat) (s : State) : Draft := { d with states := d.states.set! n (some s) }

/-- The start state of a rule given by its signed number. -/
def startOf (d : Draft) (rule : Int) : Except Fault Nat :=
  Fault.outOfRange.unless (Indexing.arrayAt? d.ruleStarts rule)

/-- Whether a rule is a precedence rule; only some start states can tell. -/
def isPrecedenceRule (d : Draft) (rule : Int) : Except Fault Bool := do
  let s ← d.get (← d.startOf rule)
  Fault.absent.unless s.precedenceRule

end Draft

/-! ## States -/

/-- The kinds of states by their code; code zero is a void state. -/
def stateKinds : Array (Option StateKind) :=
  #[none, some .basic, some .ruleStart, some .blockStart, some .plusBlockStart, some .starBlockStart,
    some .tokensStart, some .ruleStop, some .blockEnd, some .starLoopBack, some .starLoopEntry,
    some .plusLoopBack, some .loopEnd]

/-- The entry of a table for a code: one past the end is merely missing, beyond that the code is refused. -/
def lookupCode {α : Type} (table : Array α) (code : Int) (refusal : String) : Except Fault α :=
  if code > table.size then .error (.because refusal)
  else Fault.outOfRange.unless (Indexing.arrayAt? table code)

def readState (_ : Nat) (d : Draft) : Reader Draft := do
  let code ← int
  if code = 0 then return { d with states := d.states.push none }
  let rule ← int
  let kind? ← lookupCode stateKinds code ("The specified state type " ++ toString code ++ " is not valid.")
  let n := d.states.size
  let d := { d with states := d.states.push (kind?.map (State.ofKind · rule)) }
  match kind? with
  | none => return d
  | some kind =>
    if code = 12 then return { d with loopBacks := d.loopBacks ++ [(n, ← int)] }
    else if kind.opensBlock then return { d with blockEnds := d.blockEnds ++ [(n, ← int)] }
    else return d

/-- The number of a state, unless the state is void. -/
def Draft.ref (d : Draft) (n : Int) : Except Fault (Option Nat) := do
  let k ← d.number n
  return (d.states.getD k none).map fun _ => k

def tieLoopBack (d : Draft) (p : Nat × Int) : Except Fault Draft := do
  let back ← d.ref p.2
  let s ← d.get p.1
  return d.set p.1 { s with loopBack := back }

def tieBlockEnd (d : Draft) (p : Nat × Int) : Except Fault Draft := do
  let stop ← d.ref p.2
  let s ← d.get p.1
  return d.set p.1 { s with blockEnd := stop }

/-- Marks a state, if its kind takes the mark. -/
def markNonGreedy (_ : Nat) (d : Draft) : Reader Draft := do
  let n ← d.number (← int)
  let s ← d.get n
  if s.kind.decides || s.kind.lenient then return d.set n { s with nonGreedy := some true }
  else throw .absent

def markPrecedenceRule (_ : Nat) (d : Draft) : Reader Draft := do
  let n ← d.number (← int)
  let s ← d.get n
  if s.kind = .ruleStart || s.kind.lenient then return d.set n { s with precedenceRule := some true }
  else throw .absent

def readStates (d : Draft) : Reader Draft := do
  let d ← counted readState d
  let d ← (d.loopBacks.foldlM tieLoopBack d : Except Fault Draft)
  let d ← (d.blockEnds.foldlM tieBlockEnd d : Except Fault Draft)
  let d ← counted markNonGreedy d
  counted markPrecedenceRule d

/-! ## Rules, modes and sets -/

def readRule (_ : Nat) (d : Draft) : Reader Draft := do
  let n ← d.number (← int)
  let d := { d with ruleStarts := d.ruleStarts.push n }
  if d.kind = .lexer then return { d with ruleTokens := d.ruleTokens.push (← int) }
  else return d

/-- Enters a stop state as the end of its rule. -/
def tieRuleStop (d : Draft) (n : Nat) : Except Fault Draft := do
  match d.states.getD n none with
  | none => return d
  | some s =>
    if s.kind = .ruleStop then
      let r ← Fault.outOfRange.unless (Indexing.wrap? d.ruleStops.size s.rule)
      let d := { d with ruleStops := d.ruleStops.set! r (some n) }
      let start ← d.startOf s.rule
      let first ← d.get start
      if first.kind = .ruleStart || first.kind.lenient then return d.set start { first with ruleStop := some n }
      else throw .absent
    else return d

def readRules (d : Draft) : Reader Draft := do
  let d ← counted readRule d
  let d := { d with ruleStops := Array.replicate d.ruleStarts.size none }
  ((List.range d.states.size).foldlM tieRuleStop d : Except Fault Draft)

def readMode (_ : Nat) (d : Draft) : Reader Draft := do
  return { d with modes := d.modes.push (← d.number (← int)) }

def readSpan (_ : Nat) (s : IntervalSet) : Reader IntervalSet := do
  let lo ← int
  let hi ← int
  return s.addRange ⟨lo, hi + 1⟩

def readSet (_ : Nat) (d : Draft) : Reader Draft := do
  let n ← int
  let withEnd ← int
  let s := if withEnd ≠ 0 then IntervalSet.empty.addOne (-1) else IntervalSet.empty
  return { d with sets := d.sets.push (← times readSpan n.toNat 0 s) }

/-! ## Edges -/

/-- The kinds of edges by their code. -/
inductive EdgeCode where
  | void | epsilon | range | call | predicate | atom | action | set | notSet | wildcard | precedence

def edgeCodes : Array EdgeCode :=
  #[.void, .epsilon, .range, .call, .predicate, .atom, .action, .set, .notSet, .wildcard, .precedence]

/-- The number of a state that an edge can lead to. -/
def Draft.landing (d : Draft) (n : Nat) : Except Fault Nat :=
  match d.states.getD n none with
  | some _ => .ok n
  | none => .error (.because "target cannot be null.")

def Draft.edge (d : Draft) (code goal arg1 arg2 arg3 : Int) : Except Fault Edge := do
  let target ← d.number goal
  let code ← lookupCode edgeCodes code ("The specified transition type: " ++ toString code ++ " is not valid.")
  match code with
  | .void => throw .mistyped
  | .epsilon => return .epsilon (← d.landing target) (-1)
  | .range => return .range (← d.landing target) (if arg3 ≠ 0 then -1 else arg1) arg2
  | .call => return .call (← d.landing (← d.number arg1)) arg2 arg3 target
  | .predicate => return .predicate (← d.landing target) arg1 arg2 (arg3 ≠ 0)
  | .atom => return .atom (← d.landing target) (if arg3 ≠ 0 then -1 else arg1)
  | .action => return .action (← d.landing target) arg1 arg2 (arg3 ≠ 0)
  | .set =>
    let label ← Fault.outOfRange.unless (Indexing.arrayAt? d.sets arg1)
    return .set (← d.landing target) label
  | .notSet =>
    let label ← Fault.outOfRange.unless (Indexing.arrayAt? d.sets arg1)
    return .notSet (← d.landing target) label
  | .wildcard => return .wildcard (← d.landing target)
  | .precedence => return .precedence (← d.landing target) arg1

def readEdge (_ : Nat) (d : Draft) : Reader Draft := do
  let source ← int
  let goal ← int
  let code ← int
  let arg1 ← int
  let arg2 ← int
  let arg3 ← int
  let e ← d.edge code goal arg1 arg2 arg3
  let n ← d.number source
  let s ← d.get n
  return d.set n (s.addEdge e)

/-- Gives the stop state of a called rule its edge back to the caller. -/
def returnEdge (d : Draft) (e : Edge) : Except Fault Draft := do
  match e with
  | .call target _ precedence follow =>
    let rule := (← d.get target).rule
    let outermost := if (← d.isPrecedenceRule rule) && precedence == 0 then rule else -1
    let follow ← d.landing follow
    let stop ← Fault.outOfRange.unless (Indexing.arrayAt? d.ruleStops rule)
    let stop ← Fault.absent.unless stop
    let s ← d.get stop
    return d.set stop (s.addEdge (.epsilon follow outermost))
  | _ => return d

/-- The return edges for the calls of one state. The number of edges is taken before any is added. -/
def returnEdges (d : Draft) (n : Nat) : Except Fault Draft := do
  (← d.get n).edges.foldlM returnEdge d

/-- Ties the end of a block to its start. A block end belongs to one block only. -/
def tieBlock (d : Draft) (n : Nat) : Except Fault Draft := do
  let s ← d.get n
  if s.kind.opensBlock then
    match s.blockEnd with
    | none => throw (.because "IllegalState")
    | some e =>
      let last ← d.get e
      if last.kind ≠ .blockEnd then throw .absent
      else if last.blockStart.isSome then throw (.because "IllegalState")
      else return d.set e { last with blockStart := some n }
  else return d

/-- Tells the entries of a loop which state comes back to them. -/
def tieLoop (d : Draft) (n : Nat) : Except Fault Draft := do
  let s ← d.get n
  let entry? : Option StateKind := match s.kind with
    | .plusLoopBack => some .plusBlockStart
    | .starLoopBack => some .starLoopEntry
    | _ => none
  match entry? with
  | none => return d
  | some entry =>
    s.edges.foldlM (fun d e => do
      let t ← d.get e.target
      if t.kind = entry then return d.set e.target { t with loopBack := some n } else return d) d

def readEdges (d : Draft) : Reader Draft := do
  let d ← counted readEdge d
  let all := List.range d.states.size
  let d ← (all.foldlM returnEdges d : Except Fault Draft)
  (all.foldlM (fun d n => do tieLoop (← tieBlock d n) n) d : Except Fault Draft)

/-! ## Decisions and commands -/

/-- The network of a draft, none of whose states is void any more. -/
def ofDraft (d : Draft) : Network :=
  { kind := d.kind, maxTokenType := d.maxTokenType, states := d.states.map (·.getD default)
    ruleStarts := d.ruleStarts, ruleStops := d.ruleStops, modes := d.modes
    ruleTokens := if d.kind = .lexer then some d.ruleTokens else none }

def setState (net : Network) (n : Nat) (s : State) : Network := { net with states := net.states.set! n s }

def readDecision (i : Nat) (net : Network) : Reader Network := do
  let n ← Fault.outOfRange.unless (Indexing.wrap? net.states.size (← int))
  let s := net.state n
  let net := { net with decisions := net.decisions.push n }
  if s.kind.decides || s.kind.lenient then return net.setState n { s with decision := some (i : Int) }
  else throw .absent

/-- The commands by their code, with their two arguments. -/
def commandCodes : Array (Int → Int → Command) :=
  #[fun a _ => .channel a, fun a b => .custom a b, fun a _ => .mode a, fun _ _ => .more, fun _ _ => .popMode,
    fun a _ => .pushMode a, fun _ _ => .skip, fun a _ => .type a]

def readCommand (_ : Nat) (cs : Array Command) : Reader (Array Command) := do
  let code ← int
  let arg1 ← int
  let arg2 ← int
  let make ← lookupCode commandCodes code ("The specified lexer action type " ++ toString code ++ " is not valid.")
  return cs.push (make arg1 arg2)

/-! ## Precedence loops -/

/-- The loop at whose end a rule ends, entered at `n`: its last edge leads to a loop end all of whose edges
are free and whose first edge leads to a stop state. -/
def endsRule (net : Network) (s : State) : Except Fault Bool := do
  let e ← Fault.outOfRange.unless s.edges.getLast?
  let last := net.state e.target
  if last.kind = .loopEnd && last.epsilonOnly then
    let first ← Fault.outOfRange.unless last.edges.head?
    return (net.state first.target).kind = .ruleStop
  else return false

/-- Marks the loops of precedence rules that go on with an operator. -/
def markPrecedence (net : Network) (n : Nat) : Except Fault Network := do
  let s := net.state n
  if s.kind = .starLoopEntry then
    let start ← Fault.outOfRange.unless (net.ruleStart? s.rule)
    if ← Fault.absent.unless (net.state start).precedenceRule then
      if ← net.endsRule s then return net.setState n { s with precedenceDecision := true }
    return net
  else return net

/-! ## Verification -/

/-- The shape that a state must have for the simulators, given the kinds its edges lead to. -/
def wellShaped (net : Network) (s : State) : Bool :=
  let kinds := s.edges.map fun e => (net.state e.target).kind
  let few := s.edges.length ≤ 1
  (s.epsilonOnly || few)
  && (s.kind ≠ .plusBlockStart || s.loopBack.isSome)
  && (s.kind ≠ .starLoopEntry ||
      (s.loopBack.isSome &&
        ((kinds == [.starBlockStart, .loopEnd] && s.nonGreedy == some false) ||
         (kinds == [.loopEnd, .starBlockStart] && s.nonGreedy == some true))))
  && (s.kind ≠ .starLoopBack || kinds == [.starLoopEntry])
  && (s.kind ≠ .loopEnd || s.loopBack.isSome)
  && (s.kind ≠ .ruleStart || s.ruleStop.isSome)
  && (!s.kind.opensBlock || s.blockEnd.isSome)
  && (s.kind ≠ .blockEnd || s.blockStart.isSome)
  && (few || (if s.kind.decides then s.decision.any (· ≥ 0) else s.kind = .ruleStop))

def verify (net : Network) : Except Fault Unit :=
  if net.states.all net.wellShaped then .ok () else .error (.because "IllegalState")

/-! ## Bypasses -/

/-- The entry of the loop at whose end precedence rule `rule` ends. -/
def bypassLoop (net : Network) (rule : Nat) : List Nat → Except Fault (Option Nat)
  | [] => .ok none
  | n :: rest => do
    let s := net.state n
    if s.rule = rule ∧ s.kind = .starLoopEntry then
      if ← net.endsRule s then return some n
    net.bypassLoop rule rest

/-- Gives a rule a way past it. A rule whose start state already has edges cannot take one. -/
def addBypass (net : Network) (rule : Nat) : Except Fault Network := do
  let first := net.states.size
  let last := first + 1
  let opening := { State.ofKind .blockStart rule with
    blockEnd := some last, decision := some (net.decisions.size : Int) }
  let closing := { State.ofKind .blockEnd rule with blockStart := some first }
  let net := { net with states := (net.states.push opening).push closing, decisions := net.decisions.push first }
  let start ← Fault.outOfRange.unless net.ruleStarts[rule]?
  let precedence ← Fault.absent.unless (net.state start).precedenceRule
  let (stop?, kept) ← (do
    if precedence then
      match ← net.bypassLoop rule (List.range net.states.size) with
      | none => throw (Fault.because "Couldn't identify final state of the precedence rule prefix section.")
      | some n =>
        let back ← Fault.absent.unless (net.state n).loopBack
        if (net.edgesOf back).isEmpty then throw .outOfRange
        return (some n, some back)
    else return ((net.ruleStops.getD rule none), none) : Except Fault (Option Nat × Option Nat))
  let redirect (keepFirst : Bool) : List Edge → List Edge
    | [] => []
    | e :: es =>
      let move := fun (e : Edge) => if some e.target = stop? then e.withTarget last else e
      (if keepFirst then e else move e) :: es.map move
  let states := net.states.mapIdx fun i s => { s with edges := redirect (kept == some i) s.edges }
  let net := { net with states := states }
  if !(net.edgesOf start).isEmpty then throw .outOfRange
  let stop ← Fault.absent.unless stop?
  let middle := net.states.size
  let token ← Fault.outOfRange.unless (net.ruleTokens.bind (·[rule]?))
  let net := net.setState start ((net.state start).addEdge (.epsilon first (-1)))
  let net := net.setState last ((net.state last).addEdge (.epsilon stop (-1)))
  let crossing := (State.ofKind .basic 0).addEdge (.atom last token)
  let net := { net with states := net.states.push crossing }
  return net.setState first ((net.state first).addEdge (.epsilon middle (-1)))

def bypass (net : Network) : Except Fault Network := do
  let rules := net.ruleStarts.size
  let tokens := (List.range rules).map fun (i : Nat) => net.maxTokenType + i + 1
  (List.range rules).foldlM addBypass { net with ruleTokens := some tokens.toArray }

/-! ## The whole sequence -/

/-- How a network is read: checked or not, with bypasses or not. -/
structure Options where
  verify : Bool := true
  bypass : Bool := false

def read : Reader Network := do
  let version ← int
  if version ≠ 4 then
    throw (.because ("Could not deserialize ATN with version " ++ toString version ++ " (expected 4)."))
  let code ← int
  let kind ← Fault.unknownKey.unless
    (if code = 0 then some Network.Kind.lexer else if code = 1 then some Network.Kind.parser else none)
  let maxTokenType ← int
  let d ← readStates { kind, maxTokenType }
  let d ← readRules d
  let d ← counted readMode d
  let d ← counted readSet d
  let d ← readEdges d
  let net ← counted readDecision (ofDraft d)
  if kind = .lexer then return { net with commands := some (← counted readCommand #[]) }
  else return net

/-- The network that a sequence of integers describes. -/
def decode (data : List Int) (options : Options := {}) : Except Fault Network := do
  let (net, _) ← read.run data
  let net ← (List.range net.states.size).foldlM markPrecedence net
  if options.verify then net.verify
  if options.bypass && net.kind = .parser then
    let net ← net.bypass
    if options.verify then net.verify
    return net
  else return net

end Network

end NimbleLang
