import NimbleLang.Predict.Reach

/-!
Decisions: which alternative to take, from as many tokens ahead as it needs. A decision first runs without
the calling context, over an automaton that remembers the sets met before. If it ends in a conflict there,
it is run again from its beginning with the full context, and that run is not remembered. Alternatives
that hang on guards are decided by asking the guards where the decision began.

The stream stands after a decision where it stood before.
-/

namespace NimbleLang.Predict

open Recogniser

abbrev Node := Automaton.Node ConfigSet

/-- A node as traces write it. -/
def spellNode (n : Node) (number : Int) : String :=
  toString number ++ ":" ++ n.content.spell ++
    (if n.accepts then "=>" ++ match n.guarded with
      | some gs => Text.bracketed (gs.map fun _ => "<PredPrediction>")
      | none => toString n.prediction
    else "")

def automaton (d : Decision) : Act (Automaton ConfigSet) := do
  Fault.outOfRange.unless ((← get).automata[d.number]?)

def setAutomaton (d : Decision) (a : Automaton ConfigSet) : Act Unit :=
  modify fun r => { r with automata := r.automata.setIfInBounds d.number a }

def nodeAt (d : Decision) (n : Nat) : Act Node := do
  Fault.outOfRange.unless ((← automaton d).nodes[n]?)

/-- The edges of the automaton as text. -/
def spellAutomaton (d : Decision) : Act String := do
  (← automaton d).spell (Automaton.tokenLabel (some (← get).literals) none)

def addNode (d : Decision) (n : Node) : Act Nat := do
  let a ← automaton d
  let (a', k) := a.addNode n
  setAutomaton d a'
  if a'.nodes.size > a.nodes.size then
    printIf (·.steps) (pure ("adding new DFA state: " ++ spellNode n k))
  return k

/-- Connects a node to another one over a token; a token that the network does not know leaves no trace. -/
def connect (d : Decision) (source : Nat) (t : Int) (target : Option Node) : Act Automaton.Target := do
  printIf (·.steps) do
    let shown := match target with
      | some n => spellNode n (-1)
      | none => "2147483647:[]"
    return "EDGE " ++ spellNode (← nodeAt d source) source ++ " -> " ++ shown ++ " upon " ++ (← tokenName t)
  let goal ← (match target with
    | some n => do return Automaton.Target.node (← addNode d n)
    | none => return Automaton.Target.error)
  if t < -1 || t > (← get).net.maxTokenType then return goal
  setAutomaton d ((← automaton d).setEdge source t goal)
  printIf (·.steps) do return "DFA=\n" ++ (← spellAutomaton d)
  return goal

/-! ## Guards -/

/-- The alternatives a node leaves open. -/
def openAlts (s : ConfigSet) : List Int :=
  if s.uniqueAlt ≠ 0 then [s.uniqueAlt] else s.conflicting.getD []

/-- The guard of each alternative of a decision, from the first on; none if no alternative hangs on one. -/
def altGuards (count : Nat) (alts : List Int) (s : ConfigSet) : Act (Option (List Guard)) := do
  let guardOf (alt : Int) : Guard :=
    ((s.configs.toList.filter fun c => c.alt == alt && alts.contains alt).foldl
      (fun g c => Guard.disj g (some c.guard)) none).getD .always
  let guards := (List.range count).map fun (i : Nat) => guardOf ((i : Int) + 1)
  let found := guards.any (· ≠ .always)
  printIf (·.steps) do
    if !found then throw .mistyped
    return "getPredsForAmbigAlts result " ++ Text.bracketed ("None" :: guards.map Guard.spell)
  return if found then some guards else none

/-- A node whose open alternatives hang on guards is decided by them. -/
def guardNode (d : Decision) (n : Node) : Act Node := do
  let alts := openAlts n.content
  let count := ((← get).net.edgesOf d.state).length
  match ← altGuards count alts n.content with
  | none => return { n with prediction := ← smallest alts }
  | some guards =>
    let pairs := (guards.zipIdx.filter fun (_, i) => alts.contains ((i : Int) + 1)).map fun (g, i) => (g, (i : Int) + 1)
    return { n with guarded := some pairs, prediction := 0 }

/-- The alternatives whose guards hold. -/
def heldAlts (callers : Option Callers) (pairs : List (Guard × Int)) : Act (List Int) := do
  let chosen ← pairs.filterM fun (g, alt) => do
    if g = .always then return true
    let ok ← holds callers g
    printIf (fun t => t.steps || t.automata)
      (pure ("eval pred (" ++ g.spell ++ ", " ++ toString alt ++ ")=" ++ spellFlag ok))
    if ok then printIf (fun t => t.steps || t.automata) (pure ("PREDICT " ++ toString alt))
    return ok
  return altSet (chosen.map (·.2))

/-! ## Dead ends -/

def noViableAlternative (start : Int) : Act Fault := do
  let first ← onStream (TokenStream.read start)
  let token ← onStream (TokenStream.look 1)
  return .recognition { kind := .noViableAlternative, token, start := some first, state := (← get).state }

/-- The smallest alternative that got to the end of its rule, or zero. -/
def finishedAlt (net : Network) (configs : List Config) : Int :=
  match altSet ((configs.filter fun c => c.outer > 0 || (atRuleStop net c && c.context.hasEmptyPath)).map (·.alt)) with
  | [] => 0
  | a :: _ => a

/-- At a dead end, an alternative that got to the end of its rule is as good as any: one whose guard holds before
one whose guard does not. -/
def deadEnd (d : Decision) (callers : Option Callers) (s : ConfigSet) : Act Int := do
  let fault ← noViableAlternative d.start
  onStream (TokenStream.seek d.start)
  let marked ← s.configs.toList.mapM fun c => do
    return (c, ← if c.guard = .always then pure true else holds callers c.guard)
  let net := (← get).net
  let alt := finishedAlt net ((marked.filter (·.2)).map (·.1))
  let alt := if alt ≠ 0 then alt else finishedAlt net ((marked.filter (!·.2)).map (·.1))
  if alt ≠ 0 then return alt else throw fault

/-! ## Without the calling context -/

/-- The node that a set leads to over a token; none if no alternative can go on. -/
def targetNode (d : Decision) (s : ConfigSet) (t : Int) : Act (Option Node) := do
  match ← reachSet d s t false with
  | none => return none
  | some reach =>
    let predicted := uniqueAlt reach.configs.toList
    let subsets := conflictSets reach.configs.toList
    let conflicting := altSet subsets.flatten
    printIf (·.steps) (pure ("SLL altSubSets=dict_values(" ++ Text.bracketed (subsets.map Text.numberSet) ++
      "), configs=" ++ reach.spell ++ ", predict=" ++ toString predicted ++ ", allSubsetsConflict=" ++
      spellFlag (allConflict subsets) ++ ", conflictingAlts=" ++ Text.numberSet conflicting))
    let node : Node ← (do
      if predicted ≠ 0 then
        return { content := { reach with uniqueAlt := predicted }, accepts := true, prediction := predicted }
      if ← endsInConflict (← get).net (← get).mode reach then
        return { content := { reach with conflicting := some conflicting }, accepts := true, needsFullContext := true,
                 prediction := ← smallest conflicting }
      return { content := reach })
    if node.accepts && node.content.hasGuards then return some (← guardNode d node) else return some node

/-- The node reached from another one over a token that it has no edge for yet. -/
def computeTarget (d : Decision) (source : Nat) (t : Int) : Act Automaton.Target := do
  connect d source t (← targetNode d (← nodeAt d source).content t)

/-- Where a token leads from a node. -/
def edgeTarget (d : Decision) (source : Nat) (t : Int) : Act Automaton.Target := do
  match (← nodeAt d source).edge? t with
  | some target => return target
  | none => computeTarget d source t

/-! ## With the calling context -/

/-- The type of the next token on the way; after the end of input comes the end of input. -/
def advance (t : Int) : Act Int := do
  if t = Token.eof then return t
  onStream TokenStream.consume
  onStream (TokenStream.lookType 1)

/-- What a run with the full context has found: the alternative, and whether it is an exact ambiguity. -/
def fullVerdict (mode : Mode) (reach : ConfigSet) : Except Fault (Option (Int × Bool)) := do
  let subsets := conflictSets reach.configs.toList
  if reach.uniqueAlt ≠ 0 then return some (reach.uniqueAlt, false)
  if mode ≠ .exact then
    let alt ← singleViable subsets
    return if alt ≠ 0 then some (alt, false) else none
  if allConflict subsets && allEqual subsets then return some (← singleViable subsets, true)
  return none

/-- Runs over the input from a set with the full context until the alternative is certain. -/
def runFull (d : Decision) (callers : Option Callers) : Nat → ConfigSet → Int → Act Int
  | 0, _, _ => throw .exhausted
  | fuel + 1, previous, t => do
    match ← reachSet d previous t true with
    | none => deadEnd d callers previous
    | some reach =>
      let subsets := conflictSets reach.configs.toList
      printIf (·.steps) do
        return "LL altSubSets=dict_values(" ++ Text.bracketed (subsets.map Text.numberSet) ++ "), predict=" ++
          toString (← onlyAlt subsets) ++ ", resolvesToJustOneViableAlt=" ++ toString (← singleViable subsets)
      let reach := { reach with uniqueAlt := uniqueAlt reach.configs.toList }
      match ← fullVerdict (← get).mode reach with
      | some (alt, exact) =>
        let here := (← get).stream.index
        if reach.uniqueAlt ≠ 0 then reportSensitivity d.name alt reach d.start here
        else reportAmbiguity d.name d.start here exact none reach
        return alt
      | none =>
        runFull d callers fuel reach (← advance t)

/-- More tokens than a decision can look at. -/
def lookaheadFuel : Act Nat := do
  let s := (← get).stream
  return s.walkFuel s.index + 2

def decideFull (d : Decision) (callers : Option Callers) (s : ConfigSet) : Act Int := do
  printIf (fun t => t.steps || t.decisions) (pure ("execATNWithFullContext " ++ s.spell))
  onStream (TokenStream.seek d.start)
  let t ← onStream (TokenStream.lookType 1)
  runFull d callers (← lookaheadFuel) s t

/-! ## Both together -/

/-- Decides once more, with the calling context. -/
def retry (d : Decision) (callers : Option Callers) (n : Node) (number : Nat) (alts : Option (List Int)) : Act Int := do
  printIf (·.automata) (pure ("ctx sensitive state " ++ (match callers with
    | some cs => cs.spell
    | none => "None") ++ " in " ++ spellNode n number))
  let s ← startSet d callers true
  reportAttempt d.name alts n.content d.start (← get).stream.index
  decideFull d callers s

/-- A conflict that the automaton cannot settle. -/
def settleConflict (d : Decision) (callers : Option Callers) (n : Node) (number : Nat) : Act Int := do
  let here := (← get).stream.index
  let alts ← (match n.guarded with
    | none => return n.content.conflicting
    | some pairs => do
      printIf (·.steps) (pure "DFA state has preds in DFA sim LL failover")
      if here ≠ d.start then onStream (TokenStream.seek d.start)
      return some (← heldAlts callers pairs))
  match n.guarded, alts with
  | some _, some [alt] =>
    printIf (·.steps) (pure "Full LL avoided")
    return alt
  | guarded, _ =>
    if guarded.isSome && here ≠ d.start then onStream (TokenStream.seek here)
    retry d callers n number alts

/-- What an accepting node says. -/
def accept (d : Decision) (callers : Option Callers) (n : Node) : Act Int := do
  match n.guarded with
  | none => return n.prediction
  | some pairs =>
    let here := (← get).stream.index
    onStream (TokenStream.seek d.start)
    match ← heldAlts callers pairs with
    | [] => throw (← noViableAlternative d.start)
    | [alt] => return alt
    | alts =>
      reportAmbiguity d.name d.start here false (some alts) n.content
      smallest alts

/-- Runs the automaton over the input from a node, adding to it where it has no edge yet. -/
def runAutomaton (d : Decision) (callers : Option Callers) : Nat → Nat → Int → Act Int
  | 0, _, _ => throw .exhausted
  | fuel + 1, previous, t => do
    match ← edgeTarget d previous t with
    | .error => deadEnd d callers (← nodeAt d previous).content
    | .node k =>
      let n ← nodeAt d k
      if n.needsFullContext && (← get).mode ≠ .local_ then return ← settleConflict d callers n k
      if n.accepts then return ← accept d callers n
      runAutomaton d callers fuel k (← advance t)

def placeOfToken : Act String := do
  let t ← currentToken
  return " line " ++ Token.spellNumber t.line ++ ":" ++ toString t.column

/-- The start node of an automaton, computed the first time. -/
def startNode (d : Decision) (callers : Option Callers) : Act (Nat × Option Callers) := do
  let level := (← get).precedence
  let a ← automaton d
  let known ← (do
    if d.byPrecedence then return (← a.precedenceStart level).map Int.toNat
    match a.start with
    | .node k => return some k
    | _ => return none)
  match known with
  | some k => return (k, callers)
  | none =>
    let callers := callers.getD Callers.none
    printIf (fun t => t.steps || t.decisions) do
      return "predictATN decision " ++ toString d.name ++ " exec LA(1)==" ++
        (← tokenName (← onStream (TokenStream.lookType 1))) ++ ", outerContext=" ++ callers.spellRules (← get).literals
    let s ← startSet d none false
    if d.byPrecedence then
      let k ← addNode d { content := ← precedenceFilter s }
      setAutomaton d (← (← automaton d).setPrecedenceStart level k)
      return (k, some callers)
    else
      let k ← addNode d { content := s }
      setAutomaton d { (← automaton d) with start := .node k }
      return (k, some callers)

def runDecision (d : Decision) : Act Int := do
  let (start, callers) ← startNode d d.callers
  printIf (fun t => t.steps || t.decisions) do
    return "execATN decision " ++ toString d.name ++ " exec LA(1)==" ++
      (← tokenName (← onStream (TokenStream.lookType 1))) ++ (← placeOfToken)
  printIf (·.steps) do return "s0 = " ++ spellNode (← nodeAt d start) start
  let t ← onStream (TokenStream.lookType 1)
  let alt ← runAutomaton d callers (← lookaheadFuel) start t
  printIf (·.steps) do return "DFA after predictATN: " ++ (← spellAutomaton d)
  return alt

/-- A decision of a recogniser, as it begins. -/
def Decision.begun (r : Recogniser) (number : Nat) (callers : Option Callers) : Decision where
  number := number
  name := (r.automata.getD number default).decision
  state := r.net.decisions.getD number 0
  start := r.stream.index
  callers := callers
  byPrecedence := (r.automata.getD number default).isPrecedence

/-- Ends a decision: merges are forgotten, and the stream goes back to where it stood. -/
def conclude (start : Int) : Act Unit := do
  modify fun r => { r with merger := { r.merger with memory := none } }
  onStream (TokenStream.seek start)

/-- The alternative to take in a decision, called from the given rules. -/
def choose (decision : Int) (callers : Option Callers) : Act Int := do
  printIf (fun t => t.steps || t.decisions) do
    return "adaptivePredict decision " ++ toString decision ++ " exec LA(1)==" ++
      (← tokenName (← onStream (TokenStream.lookType 1))) ++ (← placeOfToken)
  let r ← get
  let number ← Fault.outOfRange.unless (Indexing.wrap? r.automata.size decision)
  let d := Decision.begun r number callers
  Run.always (runDecision d) (conclude d.start)

end NimbleLang.Predict
