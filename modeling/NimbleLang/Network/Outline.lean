import NimbleLang.Network.Basic
import NimbleLang.Outline

/-!
Outlines of networks: every state with its marks and edges, as a report shows them.
-/

namespace NimbleLang

namespace Edge

/-- The kind of an edge, where it leads, whether it is free, and what it carries. -/
def outline (e : Edge) : Outline :=
  let labels : Outline := Outline.maybe IntervalSet.outline e.label?
  let carried : List Outline := match e with
    | epsilon _ o => [.number o, .text "epsilon"]
    | call _ r p f => [.number r, .number p, .count f]
    | predicate _ r i c => [.number r, .number i, .flag c, .text ("pred_" ++ toString r ++ ":" ++ toString i)]
    | action _ r i c => [.number r, .number i, .flag c]
    | precedence _ p => [.number p]
    | atom _ l => [labels, .text (toString l)]
    | wildcard _ => [labels, .text "."]
    | range _ _ _ | set _ _ | notSet _ _ => [labels]
  .list ([.text e.kindName, .count e.target, .flag e.isEpsilon] ++ carried)

/-- An edge as text. Sets and calls have only a general description; actions and precedence conditions have
none at all, and a range none if an end of it is no character. -/
def spell (e : Edge) : Except Fault String :=
  match e with
  | epsilon _ _ => .ok "epsilon"
  | range _ lo hi => do
    if lo < 0 ∨ hi < 0 ∨ lo > 0x10ffff ∨ hi > 0x10ffff then throw (.invalidValue "chr() arg not in range(0x110000)")
    return "'" ++ String.singleton (Char.ofNat lo.toNat) ++ "'..'" ++ String.singleton (Char.ofNat hi.toNat) ++ "'"
  | call _ _ _ _ => .ok "<RuleTransition>"
  | predicate _ r i _ => .ok ("pred_" ++ toString r ++ ":" ++ toString i)
  | atom _ l => .ok (toString l)
  | action _ _ _ _ | precedence _ _ => .error .mistyped
  | set _ _ => .ok "<IntervalSet>"
  | notSet _ _ => .ok "~<IntervalSet>"
  | wildcard _ => .ok "."

end Edge

namespace State

def outline (n : Nat) (s : State) : Outline :=
  let state : Option Nat → Outline := Outline.maybe Outline.count
  let marks : List (String × Outline) :=
    (s.decision.toList.map fun d => ("decision", .number d)) ++
    (s.nonGreedy.toList.map fun b => ("nonGreedy", .flag b)) ++
    (s.precedenceRule.toList.map fun b => ("isPrecedenceRule", .flag b)) ++
    (if s.kind = .starLoopEntry then
      [("isPrecedenceDecision", if s.precedenceDecision then .flag true else .nothing)] else []) ++
    (if s.kind.opensBlock then [("endState", state s.blockEnd)] else []) ++
    (if s.kind = .blockEnd then [("startState", state s.blockStart)] else []) ++
    (if s.kind.namesLoopBack then [("loopBackState", state s.loopBack)] else []) ++
    (if s.kind = .ruleStart || s.ruleStop.isSome then [("stopState", state s.ruleStop)] else [])
  .record ([("n", .count n), ("type", .text s.kind.name), ("rule", .number s.rule), ("eps", .flag s.epsilonOnly),
    ("to", .list (s.edges.map Edge.outline))] ++ marks)

end State

namespace Command

def outline : Command → Outline
  | custom r i => .list [.text "CUSTOM", .number r, .number i]
  | c => .list [.text c.kindName, Outline.maybe .text c.spell?]

end Command

namespace Network

/-- The outline of a network with the states asked for, or all of them. -/
def outline (net : Network) (states : Option (List Int)) : Except Fault Outline := do
  let chosen ← match states with
    | none => pure (List.range net.states.size)
    | some ns => ns.mapM fun n => Fault.outOfRange.unless (Indexing.wrap? net.states.size n)
  let stops ← net.ruleStops.toList.mapM Fault.absent.unless
  return .record [
    ("type", .text (if net.kind = .lexer then "LEXER" else "PARSER")),
    ("max", .number net.maxTokenType),
    ("n", .count net.states.size),
    ("decisions", .counts net.decisions.toList),
    ("starts", .counts net.ruleStarts.toList),
    ("stops", .counts stops),
    ("tokens", Outline.maybe (fun ts => .numbers ts.toList) net.ruleTokens),
    ("modes", .counts net.modes.toList),
    ("actions", Outline.maybe (fun cs => .list (cs.toList.map Command.outline)) net.commands),
    ("states", .list (chosen.map fun n => (net.state n).outline n))]

end Network

end NimbleLang
