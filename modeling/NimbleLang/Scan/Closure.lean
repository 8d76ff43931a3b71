import NimbleLang.Scan.Commands

/-!
Closures: from a configuration, everything that can be reached without consuming a character. A rule that
ends returns to its caller; at the bottom of the stack the match itself ends there. Paths through a loop
that prefers to leave are dropped once the same alternative has reached the end of its rule.

The recursion is bounded by `pathBound`. A path that comes back to a configuration, or calls a rule again that has not
returned yet, can go on for ever. On all others, a configuration is told by its state, by what is left of the calls that
were open before, and by the calls that are open since, of different rules. So the bound is met only by networks that loop
without consuming anything.
-/

namespace NimbleLang.Scan

/-- Asks the host for a predicate. In a speculative step the character that was tested counts as consumed
while the host looks, and is given back afterwards. -/
def askPredicate (rule index : Int) (speculative : Bool) : Act Bool := do
  if speculative then
    let before ← get
    Run.always (do consume; hostPredicate rule index)
      (modify fun s => { s with column := before.column, line := before.line
                                cursor := s.cursor.seek before.cursor.index })
  else hostPredicate rule index

/-- What follows a configuration along an edge that consumes nothing. `atEnd` lets edges labelled with the end
of input count as such. -/
def follow (c : Config) (e : Edge) (reach : Reach) (speculative atEnd : Bool) : Act (Option Config × Reach) := do
  let net := (← get).network
  let moved := Config.moveTo net c e.target
  match e with
  | .call _ _ _ follow => return (some { moved with stack := follow :: c.stack }, reach)
  | .precedence _ _ => throw (.unsupported "Precedence predicates are not supported in lexers.")
  | .predicate _ rule index _ =>
    trace fun _ => .ok ("EVAL rule " ++ toString rule ++ ":" ++ toString index)
    let holds ← askPredicate rule index speculative
    return (if holds then some moved else none, { reach with asked := true })
  | .action _ _ index _ =>
    if c.stack.isEmpty then
      let table ← Fault.mistyped.unless net.commands
      let k ← Fault.outOfRange.unless (Indexing.wrap? table.size index)
      let command := table.getD k default
      return (some { moved with program := some (c.program.getD [] ++ [Step.ofTable k command]) }, reach)
    else return (some moved, reach)
  | .epsilon _ _ => return (some moved, reach)
  | .atom _ _ | .range _ _ _ | .set _ _ =>
    return (if atEnd && e.admits Source.endMark 0 0x10ffff then some moved else none, reach)
  | .notSet _ _ | .wildcard _ => return (none, reach)

/-- Adds what a configuration reaches without input to `reach`. The flag says whether the alternative has
already reached the end of its rule, before and after. -/
def closure (speculative atEnd : Bool) : Nat → Config → Bool × Reach → Act (Bool × Reach)
  | 0, _, _ => throw .exhausted
  | fuel + 1, c, (ended, reach) => do
    let s ← get
    let state := s.network.state c.state
    trace fun _ => .ok ("closure(" ++ c.spell ++ ")")
    if state.kind = .ruleStop then
      trace fun _ => do
        let name ← Fault.outOfRange.unless (Indexing.listAt? s.traceNames state.rule)
        return "closure at " ++ name ++ " rule stop " ++ c.spell
      match c.stack with
      | [] => return (true, reach.add c)
      | back :: stack =>
        closure speculative atEnd fuel { Config.moveTo s.network c back with stack } (ended, reach)
    else
      let reach :=
        if !state.epsilonOnly && (!ended || !c.viaNonGreedy) then reach.add c else reach
      state.edges.foldlM (fun (ended, reach) e => do
        match ← follow c e reach speculative atEnd with
        | (none, reach) => return (ended, reach)
        | (some c', reach) => closure speculative atEnd fuel c' (ended, reach)) (ended, reach)

/-- More steps than there are on a path from a configuration with `depth` open calls, unless it can go on for ever. -/
def pathBound (net : Network) (depth : Nat) : Nat :=
  (depth + 1) * Nat.pow (net.states.size + 1) (net.ruleStarts.size + 1) + 1

/-- The configurations at the start of a mode: one alternative for each rule. -/
def startClosure (state : Nat) : Act Reach := do
  let net := (← get).network
  let (_, reach) ← (net.edgesOf state).foldlM (fun ((n, reach) : Nat × Reach) e => do
    let c : Config := { state := e.target, alt := n }
    let (_, reach) ← closure false false (pathBound net 0) c (false, reach)
    return (n + 1, reach)) (1, {})
  return reach

/-- The configurations after consuming `symbol`. An alternative that has reached the end of its rule cuts off
later paths of the same alternative that went through a loop which prefers to leave. -/
def step (configs : List Config) (symbol : Int) : Act Reach := do
  let net := (← get).network
  let (_, reach) ← configs.foldlM (fun ((cut, reach) : Nat × Reach) c => do
    let ended := c.alt == cut
    if ended && c.viaNonGreedy then return (cut, reach)
    trace fun _ =>
      let name := if symbol = -1 then "EOF" else "'" ++ String.singleton (Char.ofNat symbol.toNat) ++ "'"
      .ok ("testing " ++ name ++ " at " ++ c.spell)
    (net.edgesOf c.state).foldlM (fun ((cut, reach) : Nat × Reach) e => do
      if e.admits symbol 0 0x10ffff then
        let s ← get
        let program ← (do
          match c.program with
          | none => return none
          | some p =>
            let (p, stamps) := pin (s.cursor.index - s.startIndex) s.stamps p
            modify fun s => { s with stamps := stamps }
            return some p : Act (Option Program))
        let c' := { Config.moveTo net c e.target with program }
        let (hit, reach) ← closure true (symbol == Source.endMark) (pathBound net c.stack.length) c' (ended, reach)
        return (if hit then c.alt else cut, reach)
      else return (cut, reach)) (cut, reach)) (0, {})
  return reach

end NimbleLang.Scan
