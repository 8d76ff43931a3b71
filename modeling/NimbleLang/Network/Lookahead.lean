import NimbleLang.Context.Callers

/-!
Lookahead sets: the token types that can come next from a state. A call is followed into the rule and back
out to where the caller goes on; a rule that is already under way is not entered again. If the context is
not known, the end of the rule shows as `Token.epsilon`; below the outermost rule it shows as the end of
input.
-/

namespace NimbleLang.Lookahead

/-- What was found so far: the set, and the places already looked at. -/
structure Found where
  set : IntervalSet := {}
  seen : List (Nat × Context Unit) := []

/-- Adds what can come next from a state. `rules` are the rules entered on the way. -/
def lookFrom (net : Network) (stop : Option Nat) : Nat → Nat → Context Unit → List Int → Found → Except Fault Found
  | 0, _, _, _, _ => .error .exhausted
  | fuel + 1, n, ctx, rules, found => do
    if found.seen.contains (n, ctx) then return found
    let found := { found with seen := (n, ctx) :: found.seen }
    let s := net.state n
    let atEnd := some n = stop || s.kind = .ruleStop
    if atEnd && ctx = .unknown then return { found with set := found.set.addOne Token.epsilon }
    if atEnd && ctx.isEmpty then return { found with set := found.set.addOne Token.eof }
    if s.kind = .ruleStop then
      ctx.ways.foldlM (fun found (below, ret) => do
        let back ← Fault.outOfRange.unless (Indexing.wrap? net.states.size ret)
        lookFrom net stop fuel back below (rules.erase s.rule) found) found
    else
      s.edges.foldlM (fun found e => do
        match e with
        | .call target _ _ follow =>
          let rule := (net.state target).rule
          if rules.contains rule then return found
          lookFrom net stop fuel target (.atop () ctx follow) (rule :: rules) found
        | .epsilon target _ | .action target _ _ _ | .predicate target _ _ _ | .precedence target _ =>
          lookFrom net stop fuel target ctx rules found
        | .wildcard _ => return { found with set := found.set.addRange ⟨1, net.maxTokenType + 1⟩ }
        | .notSet _ label => return { found with set := found.set.addSet (← label.complement 1 net.maxTokenType) }
        | e => return { found with set := found.set.addSet (e.label?.getD {}) }) found

/-- A bound on the places there are to look at: a state, with return states on top of a part of the context. A rule that is under
way is not entered again, so no more return states are put on top than there are states. -/
def places (net : Network) (ctx : Context Unit) : Nat := (ctx.depth + 1) * Nat.pow (net.states.size + 1) (net.states.size + 1)

/-- The token types that can come next from a state, with what is known of the callers. -/
def look (net : Network) (n : Nat) (stop : Option Nat) (callers : Option Callers) : Except Fault IntervalSet := do
  let ctx ← match callers with
    | none => pure Context.unknown
    | some cs => cs.context net
  return (← lookFrom net stop (places net ctx + 1) n ctx [] {}).set

/-! ## Remembered sets -/

/-- The lookahead sets of states without a context, as far as they were asked for. -/
abbrev Memory := Array (Option IntervalSet)

def Memory.ofNetwork (net : Network) : Memory := Array.replicate net.states.size none

/-- The set of a state without a context, from memory or computed now. -/
def next (net : Network) (memory : Memory) (n : Nat) : Except Fault (IntervalSet × Memory) := do
  match memory.getD n none with
  | some s => return (s, memory)
  | none =>
    let s ← look net n none none
    return (s, memory.setIfInBounds n (some s))

/-- Follows the callers as long as the rule may end, adding what can come after each. -/
def expectedLoop (net : Network) : Callers → IntervalSet → IntervalSet → Memory →
    Except Fault (IntervalSet × Bool × Memory)
  | [], expected, following, memory => .ok (expected, following.contains Token.epsilon, memory)
  | c :: rest, expected, following, memory => do
    if !following.contains Token.epsilon then return (expected, false, memory)
    let invoking ← Fault.mistyped.unless c.invoking
    if invoking < 0 then return (expected, true, memory)
    let follow ← Callers.followOf net invoking
    let (following, memory) ← next net memory follow
    expectedLoop net rest ((expected.addSet following).removeOne Token.epsilon) following memory

/-- The token types that can come next from a state, given the rules under way. The flag says whether the set is
the remembered one of the state itself. -/
def expected (net : Network) (memory : Memory) (state : Int) (callers : Callers) :
    Except Fault (IntervalSet × Bool × Memory) := do
  if state < 0 || state ≥ net.states.size then throw (.because "Invalid state number.")
  let (following, memory) ← next net memory state.toNat
  if !following.contains Token.epsilon then return (following, true, memory)
  let start := (IntervalSet.empty.addSet following).removeOne Token.epsilon
  let (set, atEnd, memory) ← expectedLoop net callers start following memory
  return (if atEnd then set.addOne Token.eof else set, false, memory)

/-- The sets for each alternative of a decision. Only a state without edges has an answer. -/
def ofDecision (net : Network) (n : Nat) : Except Fault (List IntervalSet) :=
  if (net.edgesOf n).isEmpty then .ok [] else .error .outOfRange

end NimbleLang.Lookahead
