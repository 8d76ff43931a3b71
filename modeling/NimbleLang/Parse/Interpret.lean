import NimbleLang.Parse.Probe

/-!
Running a network without a grammar: a session follows the edges of the network from the start of a rule, and
opens a phrase of no rule for every call.

No run comes to a good end. An edge that consumes nothing and calls nothing would have to open a phrase of its own
if it begins an operator, and at the end of a rule it would have to be known whether the rule was the outermost
one; neither can be told, and the run fails there. A symbol written on an edge never equals a token, so it is
always recovered from.
-/

namespace NimbleLang.Session

/-- A session that runs a network; its automata all bear the number zero. -/
def ofNetwork (net : Network) (stream : TokenStream Supply) : Session :=
  let rules := (List.range net.ruleStarts.size).map fun n => "r" ++ toString n
  let r := Recogniser.ofNetwork net ["<INVALID>"] ["<INVALID>"] rules stream
  { r with automata := r.automata.map fun a => { a with decision := 0 } }

/-- Enters the rule that starts in a state, in a precedence level if the rule has levels. -/
def enterAt (invoking : Int) (start : Nat) (level : Int) : Act Unit := do
  if ← Fault.absent.unless ((← get).net.state start).precedenceRule then
    modify fun s => { s with precedences := level :: s.precedences }
  openFrame .bare invoking start

/-- Follows an edge out of state `n`. -/
def follow (n : Nat) (e : Edge) : Act Unit := do
  match e with
  | .epsilon _ _ => throw .mistyped
  | .atom _ _ =>
    let _ ← matchToken fun _ => false
  | .range _ _ _ | .set _ _ | .notSet _ _ =>
    if !e.admits (← nextType) 1 0x10FFFF then
      let _ ← recoverInline
    let _ ← matchAny
  | .wildcard _ =>
    let _ ← matchAny
  | .call target _ level _ => enterAt n target level
  | .predicate _ _ _ _ => pure ()
  | .action _ _ _ _ => throw .absent
  | .precedence _ level =>
    if !(← onRecogniser (Recogniser.precedenceHolds level)) then
      let message := "failed predicate: \x7bprecpred(_ctx, " ++ toString level ++ ")\x7d?"
      let token ← currentToken
      throw (.recognition { kind := .failedPredicate, token := some token, state := (← get).state, message := some message })
  setState e.target

/-- Leaves state `n`: by its only edge, or by the one that a decision chooses. -/
def leave (n : Nat) : Act Unit := do
  let s := (← get).net.state n
  let alt ← (do
    if s.edges.length > 1 then
      sync
      choose (← Fault.absent.unless s.decision)
    else pure 1)
  follow n (← Fault.outOfRange.unless (Indexing.listAt? s.edges (alt - 1)))

/-- Runs on from the session's state; a failure is reported and recovered from at the end of the rule. -/
def run {α : Type} : Nat → Act α
  | 0 => throw .exhausted
  | fuel + 1 => do
    let n ← stateHere
    let net := (← get).net
    if (net.state n).kind = .ruleStop then throw .mistyped
    match ← (leave n).attempt with
    | .ok _ => run fuel
    | .error (.recognition r) =>
      let stop ← Fault.outOfRange.unless (Indexing.arrayAt? net.ruleStops (net.state n).rule)
      setState (← Fault.absent.unless stop)
      modifyLabel fun l => { l with stuck := some r.kind }
      reportFailure r
      recover r
      run fuel
    | .error f => throw f

/-- Runs a rule of the network from its start. -/
def interpret {α : Type} (rule : Int) : Act α := do
  let net := (← get).net
  let start ← Fault.outOfRange.unless (Indexing.arrayAt? net.ruleStarts rule)
  enterAt (-1) start 0
  run (((← tokenFuel) + 2) * (net.states.size + 2))

end NimbleLang.Session
