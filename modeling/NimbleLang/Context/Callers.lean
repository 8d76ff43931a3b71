import NimbleLang.Context.Basic
import NimbleLang.Network.Basic

/-!
Callers: the rules under way, innermost first. Each names its rule and the state it was called from; the
outermost one was called from nowhere. The return states of a chain of callers make a call context.
-/

namespace NimbleLang

structure Caller where
  /-- The state the rule was called from; `-1` for none, and nothing at all for a caller out of place. -/
  invoking : Option Int
  rule : Int := -1
  deriving DecidableEq, Repr, Inhabited

/-- The rules under way, innermost first. -/
abbrev Callers := List Caller

namespace Callers

/-- The callers of a parser that has none. -/
def none : Callers := [{ invoking := Option.none }]

/-- Callers of which nothing is known but the states they were called from, the outermost first. -/
def ofStates (states : List Int) : Callers :=
  states.reverse.map (fun n => { invoking := some n }) ++ [{ invoking := some (-1) }]

/-- The state after the call made in a state: its first edge must be a call. -/
def followOf (net : Network) (state : Int) : Except Fault Nat := do
  let s ← Fault.outOfRange.unless (Indexing.arrayAt? net.states state)
  match s.edges with
  | [] => throw .outOfRange
  | .call _ _ _ follow :: _ => return follow
  | _ => throw .absent

/-- The call context of the rules under way. The outermost rule returns nowhere. -/
def context (net : Network) : Callers → Except Fault (Context Unit)
  | [] | [_] => .ok .root
  | c :: rest => do
    let below ← context net rest
    let invoking ← Fault.mistyped.unless c.invoking
    return .atop () below (← followOf net invoking)

def isTop (c : Caller) : Bool := c.invoking == some (-1)

/-- The states that the rules were called from. -/
def spell : Callers → String := fun cs => "[" ++ go cs ++ "]"
where
  go : Callers → String
    | [] => ""
    | c :: rest =>
      let own := if isTop c then "" else match c.invoking with
        | some n => toString n
        | .none => "None"
      match rest with
      | [] => own
      | p :: _ => own ++ (if isTop p then "" else " ") ++ go rest

/-- The rules under way by name; a rule without a name by number. -/
def spellRules (names : List String) (cs : Callers) : String :=
  "[" ++ Text.joinWith " " (cs.map fun c =>
    if c.rule ≥ 0 then (names[c.rule.toNat]?).getD (toString c.rule) else toString c.rule) ++ "]"

end Callers

end NimbleLang
