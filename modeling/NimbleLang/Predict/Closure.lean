import NimbleLang.Predict.Recogniser
import NimbleLang.Guard.Combine

/-!
Closure: all configurations that can be reached from one without reading a token. Calls push their return
state, the ends of rules pop it. Where a rule ends and nothing is known of its caller, all callers are
possible, and the configuration notes that it has left the rule under prediction.

Places reached by leaving the rule are visited once: `Visited` remembers them as they were entered, and
together with the place in the set that such a configuration took, because its context may have been merged
with another since then, and then it is no longer the same place.
-/

namespace NimbleLang.Predict

/-- A decision under way. -/
structure Decision where
  number : Nat
  /-- The number it is reported by. -/
  name : Nat
  /-- The state the decision is taken in. -/
  state : Nat
  /-- The stream position where it began. -/
  start : Int
  callers : Option Callers
  byPrecedence : Bool

/-- A place visited after leaving the rule. -/
structure Visited where
  entered : Config
  slot : Option Nat := none

/-- A closure under construction. -/
structure Closing where
  configs : ConfigSet
  visited : Array Visited := #[]

/-- How a closure is taken: with the full context, and with the end of input free of charge. -/
structure Manner where
  decision : Decision
  full : Bool
  endIsFree : Bool

/-- A configuration to visit: the place it was entered under, whether guards are collected, and how deep the calls
on the way to it are. -/
structure Visit where
  config : Config
  place : Option Nat := none
  collect : Bool
  depth : Int := 0

open Recogniser

namespace Closing

/-- Whether a place was visited, and is still the same. -/
def seen (cl : Closing) (c : Config) : Bool :=
  cl.visited.any fun v =>
    let now := match v.slot with
      | some k => cl.configs.configs.getD k v.entered
      | none => v.entered
    v.entered.sameKey c && v.entered.context.same c.context && now.same c

def enter (cl : Closing) (c : Config) : Closing × Nat :=
  ({ cl with visited := cl.visited.push { entered := c } }, cl.visited.size)

/-- Adds a configuration; if it is new in the set, the place it was entered under knows where it went. -/
def add (cl : Closing) (c : Config) (place : Option Nat) : Act Closing := do
  let (configs, slot, isNew) ← merging (cl.configs.insert c)
  match place, isNew with
  | some p, true => return { configs, visited := cl.visited.modify p fun v => { v with slot := some slot } }
  | _, _ => return { cl with configs }

end Closing

def spellFlag (b : Bool) : String := if b then "True" else "False"

/-- The configuration behind an edge guarded by a condition. With the full context the condition is asked at once,
at the place where the decision began; otherwise it is collected. -/
def throughGuard (m : Manner) (c : Config) (target : Nat) (g : Guard) (label : String) (collect applies : Bool) :
    Act (Option Config) := do
  printIf (·.steps) (pure ("PRED (collectPredicates=" ++ spellFlag collect ++ ") " ++ label))
  printIf (·.steps) do
    return "context surrounding pred is " ++ Text.bracketed ((← invocation).map fun n => "'" ++ n ++ "'")
  let c' ← (do
    if !applies then return some { c with state := target }
    if m.full then
      let here := (← get).stream.index
      onStream (TokenStream.seek m.decision.start)
      let ok ← holds m.decision.callers g
      onStream (TokenStream.seek here)
      return if ok then some { c with state := target } else none
    return some { c with state := target, guard := Guard.both c.guard g })
  printIf (·.steps) (pure ("config from pred transition=" ++ match c' with
    | some c' => c'.spell
    | none => "None"))
  return c'

/-- The configuration behind an edge, if the edge can be passed without reading a token. -/
def throughEdge (m : Manner) (c : Config) (e : Edge) (collect inContext : Bool) : Act (Option Config) := do
  match e with
  | .call target _ _ follow =>
    let rule := ((← get).net.state target).rule
    printIf (·.steps) do return "CALL rule " ++ (← ruleName rule) ++ ", ctx=" ++ c.context.spell
    return some { c with state := target, context := .atop () c.context follow }
  | .precedence target level =>
    throughGuard m c target (.precedence level) (toString level ++ ">=_p, ctx dependent=true") collect
      (collect && inContext)
  | .predicate target rule index contextual =>
    throughGuard m c target (.predicate rule index contextual)
      (toString rule ++ ":" ++ toString index ++ ", ctx dependent=" ++ spellFlag contextual) collect
      (collect && (!contextual || inContext))
  | .action target rule index _ =>
    printIf (·.steps) (pure ("ACTION edge " ++ toString rule ++ ":" ++ toString index))
    return some { c with state := target }
  | .epsilon target _ => return some { c with state := target }
  | .atom target _ | .range target _ _ | .set target _ =>
    return if m.endIsFree && e.admits Token.eof 0 1 then some { c with state := target } else none
  | .notSet _ _ | .wildcard _ => return none

/-- Whether the entry of an operator loop need not be tried: every rule on the stack goes back to the same loop, so
that the operator is read there as well. -/
def loopEntryRedundant (net : Network) (c : Config) : Except Fault Bool := do
  let s := net.state c.state
  if s.kind ≠ .starLoopEntry || !s.precedenceDecision || c.context.isEmpty || c.context.hasEmptyPath then return false
  let returns ← c.context.ways.mapM fun (_, ret) => Fault.outOfRange.unless (Indexing.wrap? net.states.size ret)
  if returns.any fun n => (net.state n).rule ≠ s.rule then return false
  let entry ← Fault.outOfRange.unless s.edges.head?
  let blockEnd ← Fault.absent.unless (net.state entry.target).blockEnd
  return returns.all fun n =>
    match (net.state n).edges with
    | [e] =>
      let t := net.state e.target
      let backHere := match t.edges with
        | [e'] => e'.isEpsilon && e'.target == c.state
        | _ => false
      e.isEpsilon &&
        ((net.state n).kind == .blockEnd && e.target == c.state || n == blockEnd || e.target == blockEnd ||
          t.kind == .blockEnd && backHere)
    | _ => false

/-- Where a step leads: the configuration to visit next, or nothing if the place was visited already. -/
def stepOut (m : Manner) (e : Edge) (cl : Closing) (c : Config) (depth : Int) :
    Act (Closing × Option (Config × Nat × Int)) := do
  let c ← (do
    if !m.decision.byPrecedence then return c
    match e with
    | .epsilon _ outermost =>
      let rule := ((← get).net.state m.decision.state).rule
      return if outermost = rule then { c with exempt := true } else c
    | _ => throw .absent)
  let c := { c with outer := c.outer + 1 }
  if cl.seen c then return (cl, none)
  let (cl, place) := cl.enter c
  let cl := { cl with configs := { cl.configs with dips := true } }
  printIf (·.steps) (pure ("dips into outer ctx: " ++ c.spell))
  return (cl, some (c, place, depth - 1))

/-- Follows the edges of a configuration that can be passed without reading a token. -/
def followEdges (m : Manner) (visit : Closing → Visit → Act Closing) (cl : Closing) (v : Visit) : Act Closing := do
  let net := (← get).net
  let s := net.state v.config.state
  let cl ← if s.epsilonOnly then pure cl else cl.add v.config v.place
  let edges ← (do
    match s.edges with
    | [] => return []
    | _ :: rest => return if ← loopEntryRedundant net v.config then rest else s.edges)
  edges.foldlM (fun cl e => do
    let collect := v.collect && !(e matches .action ..)
    match ← throughEdge m v.config e collect (v.depth == 0) with
    | none => return cl
    | some c =>
      if s.kind = .ruleStop then
        match ← stepOut m e cl c v.depth with
        | (cl, none) => return cl
        | (cl, some (c, place, depth)) => visit cl { config := c, place := some place, collect, depth }
      else if !e.isEpsilon then
        if cl.seen c then return cl
        let (cl, place) := cl.enter c
        visit cl { config := c, place := some place, collect, depth := v.depth }
      else
        let deeper := (e matches .call ..) && v.depth ≥ 0
        visit cl { config := c, collect, depth := if deeper then v.depth + 1 else v.depth }) cl

/-- Visits a configuration. At the end of a rule the return states on the stack are taken one after the other. -/
def visitConfig (m : Manner) : Nat → Closing → Visit → Act Closing
  | 0, _, _ => throw .exhausted
  | fuel + 1, cl, v => do
    let c := v.config
    printIf (·.steps) (pure ("closure(" ++ c.spell ++ ")"))
    let net := (← get).net
    let fallOff (cl : Closing) : Act Closing := do
      printIf (·.steps) do return "FALLING off rule " ++ (← ruleName (net.state c.state).rule)
      followEdges m (visitConfig m fuel) cl v
    if (net.state c.state).kind ≠ .ruleStop then return ← followEdges m (visitConfig m fuel) cl v
    if c.context = .unknown then throw .absent
    if c.context.isEmpty then
      if m.full then return ← cl.add c v.place
      return ← fallOff cl
    c.context.ways.foldlM (fun cl (below, ret) => do
      if ret = bottomReturn then
        if m.full then cl.add { c with context := .root } none else fallOff cl
      else
        let back ← Fault.outOfRange.unless (Indexing.wrap? net.states.size ret)
        let c' : Config := { state := back, alt := c.alt, context := below, guard := c.guard, outer := c.outer }
        visitConfig m fuel cl { config := c', collect := v.collect, depth := v.depth - 1 }) cl

/-- More steps than a closure can nest. -/
def closureFuel (net : Network) (c : Config) : Nat :=
  (net.states.size + 2) * (net.states.size + 2) * (net.ruleStarts.size + c.context.depth + 2)

/-- Adds the closure of a configuration. -/
def closeOver (m : Manner) (collect : Bool) (cl : Closing) (c : Config) : Act Closing := do
  visitConfig m (closureFuel (← get).net c) cl { config := c, collect }

end NimbleLang.Predict
