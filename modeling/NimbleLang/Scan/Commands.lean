import NimbleLang.Scan.Scanner
import NimbleLang.Text.Uppercase

/-!
Running commands. A command changes the token under way or the mode. A stamped command runs at the place
it is pinned to; after the last one the cursor goes back to the end of the match. The host answers
predicates and carries out custom commands.
-/

namespace NimbleLang.Scan

/-! ## Modes -/

def pushMode (m : Int) : Act Unit := do
  trace fun _ => .ok ("pushMode " ++ toString m)
  modify fun s => { s with modeStack := s.modeStack ++ [s.mode], mode := m }

/-- Back to the mode entered before. A traced scanner cannot spell the stack and fails. -/
def popMode : Act Unit := do
  let s ← get
  match s.modeStack.getLast? with
  | none => throw (.because "Empty Stack")
  | some m =>
    if s.traced then throw .mistyped
    set { s with modeStack := s.modeStack.dropLast, mode := m }

/-! ## The host -/

/-- Whether a predicate holds, as the host sees it at the current place. -/
def hostPredicate (rule index : Int) : Act Bool := do
  let s ← get
  match s.host with
  | .scripted gates _ =>
    set { s with calls := s.calls.push (.predicate rule index s.cursor.index s.column s.line) }
    match gates.lookup (rule, index) with
    | some (.fixed b) => return b
    | some (.fromColumn v) => return decide (s.column ≥ v)
    | none => return true
  | _ => return true

/-- The rule whose matches the host of tree paths sorts, and the token types for either sort. -/
def nameRule : Int := 4
def capitalName : Int := 1
def plainName : Int := 2

/-- A command that needs no host. -/
def runPlain : Command → Act Unit
  | .channel c => modify fun s => { s with channel := c }
  | .mode m => modify fun s => { s with mode := m }
  | .more => modify fun s => { s with type := Scanner.moreType }
  | .popMode => popMode
  | .pushMode m => pushMode m
  | .skip => modify fun s => { s with type := Scanner.skipType }
  | .type t => modify fun s => { s with type := t }
  | .custom _ _ | .stamped _ _ => pure ()

def runDeed : Deed → Act Unit
  | .command c => runPlain c
  | .text t => modify fun s => { s with text := some t }

def hostAction (rule index : Int) : Act Unit := do
  let s ← get
  match s.host with
  | .silent => throw .absent
  | .names =>
    if rule ≠ nameRule then throw (.because ("No registered action for:" ++ toString rule))
    if index = 0 then
      match s.currentText.toList with
      | [] => throw .outOfRange
      | c :: _ => set { s with type := if Text.isUppercase c then capitalName else plainName }
  | .scripted _ deeds =>
    set { s with calls := s.calls.push (.action rule index s.cursor.index s.currentText) }
    ((deeds.lookup (rule, index)).getD []).forM runDeed

def runCommand : Command → Act Unit
  | .custom rule index => hostAction rule index
  | .stamped _ c => runCommand c
  | c => runPlain c

/-! ## Programs -/

def seek (index : Int) : Act Unit := modify fun s => { s with cursor := s.cursor.seek index }

/-- Runs the steps in order. The cursor stands wherever the last pinned step put it; `away` says whether
that is not the end of the match. -/
def runSteps (start stop : Int) : Program → Bool → Act Unit
  | [], away => if away then seek stop else pure ()
  | s :: rest, away => do
    let away ← (do
      match s.command with
      | .stamped offset _ =>
        seek (start + offset)
        return start + offset ≠ stop
      | c =>
        if c.positional then
          seek stop
          return false
        else return away : Act Bool)
    match ← (runCommand s.command).attempt with
    | .ok _ => runSteps start stop rest away
    | .error f =>
      if away then seek stop
      throw f

/-- Runs the commands of an accepted match that began at `start` and ends at the cursor. -/
def runProgram (program : Program) (start : Int) : Act Unit := do
  runSteps start (← get).cursor.index program false

end NimbleLang.Scan
