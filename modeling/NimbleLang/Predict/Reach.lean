import NimbleLang.Predict.Closure

/-!
Sets of configurations along the input: the set a decision starts from, and the set reached from another one
over a token. Configurations at the end of their rule can read nothing more; they stay in the race where
the end of input is at hand, or where the full context is known.
-/

namespace NimbleLang.Predict

open Recogniser

def emptyClosing (full : Bool) : Closing := { configs := { fullContext := full } }

/-- The configurations a decision starts from: the closure of each of its alternatives. -/
def startSet (d : Decision) (callers : Option Callers) (full : Bool) : Act ConfigSet := do
  let net := (← get).net
  let context ← (callers.getD Callers.none).context net
  let m : Manner := { decision := d, full, endIsFree := false }
  let targets := (net.edgesOf d.state).map Edge.target
  targets.zipIdx.foldlM (fun configs (target, i) => do
    let c : Config := { state := target, alt := (i : Int) + 1, context }
    return (← closeOver m true { configs } c).configs) { fullContext := full }

/-- The start configurations that remain at the current precedence. The first alternative is the operand, and keeps
what its precedence conditions allow. A configuration of another alternative gives way to one of the first that
is in the same state with the same context. -/
def precedenceFilter (s : ConfigSet) : Act ConfigSet := do
  let level := (← get).precedences
  let settled (c : Config) : Option Guard := c.guard.settle fun p => level.head?.any (p ≥ ·)
  let ones := s.configs.toList.filterMap fun c =>
    if c.alt = 1 then (settled c).map fun g => (c, { c with guard := g }) else none
  let out ← merging (ones.foldlM (fun (out : ConfigSet) (_, c) => out.add c) { fullContext := s.fullContext })
  let contextOf (n : Nat) : Option (Context Unit) := (ones.reverse.find? (·.1.state == n)).map (·.1.context)
  let others := s.configs.toList.filter fun c =>
    c.alt ≠ 1 && (c.exempt || !(contextOf c.state).any c.context.same)
  merging (others.foldlM (fun (out : ConfigSet) c => out.add c) out)

/-- The configurations that the edges over a token lead to, and those at the end of their rule that stay in the race. -/
def moveOver (full : Bool) (t : Int) (s : ConfigSet) : Act (ConfigSet × List Config) := do
  let net := (← get).net
  s.configs.toList.foldlM (fun (moved, kept) c => do
    printIf (·.steps) do return "testing " ++ (← tokenName t) ++ " at " ++ c.spell
    if atRuleStop net c then
      return (moved, if full || t = Token.eof then kept ++ [c] else kept)
    let targets := ((net.edgesOf c.state).filter fun e => e.admits t 0 net.maxTokenType).map Edge.target
    let moved ← merging (targets.foldlM (fun (out : ConfigSet) n => out.add { c with state := n }) moved)
    return (moved, kept)) ({ fullContext := full }, [])

/-- The set reached from another one over a token; none if no alternative can go on. -/
def reachSet (d : Decision) (s : ConfigSet) (t : Int) (full : Bool) : Act (Option ConfigSet) := do
  printIf (·.steps) (pure ("in computeReachSet, starting closure: " ++ s.spell))
  modify fun r => { r with merger := { r.merger with memory := some (r.merger.memory.getD []) } }
  let net := (← get).net
  let (moved, kept) ← moveOver full t s
  let settled := kept.isEmpty && t ≠ Token.eof &&
    (moved.configs.size == 1 || uniqueAlt moved.configs.toList ≠ 0)
  let reach ← (do
    if settled then return moved
    let m : Manner := { decision := d, full, endIsFree := t = Token.eof }
    return (← moved.configs.toList.foldlM (closeOver m false) (emptyClosing full)).configs)
  let reach ← (do
    if t ≠ Token.eof || allAtRuleStop net reach.configs.toList then return reach
    merging ((reach.configs.toList.filter (atRuleStop net)).foldlM (fun (out : ConfigSet) c => out.add c)
      { fullContext := reach.fullContext }))
  let reach ← (do
    if kept.isEmpty || (full && anyAtRuleStop net reach.configs.toList) then return reach
    merging (kept.foldlM (fun (out : ConfigSet) c => out.add c) reach))
  return if reach.configs.isEmpty then none else some reach

end NimbleLang.Predict
