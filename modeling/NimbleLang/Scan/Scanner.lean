import NimbleLang.Scan.Config
import NimbleLang.Text.Cursor
import NimbleLang.Journal

/-!
The state of a scanner: the network and the automata built from it so far, the cursor with its line and
column, the mode, and the token under way. The host of a scanner decides predicates and carries out
custom commands; a host is data, so that a scanner is a plain value.
-/

namespace NimbleLang.Scan

/-- How a scripted host answers a predicate. -/
inductive Gate where
  | fixed (b : Bool)
  /-- Holds from a column on. -/
  | fromColumn (column : Int)
  deriving DecidableEq, Repr, Inhabited

/-- What a scripted host does for a custom command. -/
inductive Deed where
  | command (c : Command)
  | text (s : String)
  deriving DecidableEq, Repr, Inhabited

inductive Host where
  /-- Holds every predicate true and knows no custom commands. -/
  | silent
  /-- Tells names that begin with a capital from other names (the host of tree paths). -/
  | names
  | scripted (gates : List ((Int × Int) × Gate)) (deeds : List ((Int × Int) × List Deed))
  deriving DecidableEq, Repr, Inhabited

/-- A call that a scripted host noted. -/
inductive Call where
  | predicate (rule index : Int) (at_ column line : Int)
  | action (rule index : Int) (at_ : Int) (text : String)
  deriving DecidableEq, Repr, Inhabited

structure Scanner where
  network : Network
  automata : Array (Automaton (List Config)) := #[]
  cursor : Cursor
  line : Int := 1
  column : Int := 0
  /-- Where the match under way began. -/
  startIndex : Int := -1
  mode : Int := 0
  /-- The modes to come back to, the last one first entered last. -/
  modeStack : List Int := []
  /-- Where the token under way began. -/
  tokenStart : Int := -1
  tokenLine : Int := -1
  tokenColumn : Int := -1
  hitEnd : Bool := false
  type : Int := 0
  channel : Int := 0
  text : Option String := none
  /-- Whether tokens carry a copy of their text. -/
  copyText : Bool := false
  host : Host := .silent
  calls : Array Call := #[]
  journal : Journal := {}
  /-- The next unused stamp. -/
  stamps : Nat := 1
  traced : Bool := false
  /-- Names of the rules in a trace. -/
  traceNames : List String := []
  deriving Repr, Inhabited

/-- The automata of a network, one for each decision, still empty. -/
def freshAutomata {κ : Type} (net : Network) : Array (Automaton κ) :=
  (List.range net.decisions.size).toArray.map fun d =>
    let s := net.state (net.decisions.getD d 0)
    { decision := d, start := if s.precedenceDecision then .byPrecedence [] else .unset }

namespace Scanner

def ofNetwork (net : Network) (source : Source) (host : Host) : Scanner :=
  { network := net, automata := freshAutomata net, cursor := { source }, host }

/-- The token types that ask for the next match at once, without or with what was matched so far. -/
def skipType : Int := -3
def moreType : Int := -2

/-- The text of the token under way: the one set by a command, else what the current match covers. -/
def currentText (s : Scanner) : String :=
  match s.text with
  | some t => t
  | none => s.cursor.source.slice s.startIndex (s.cursor.index - 1)

/-- Moves over one character, counting lines and columns. -/
def advance (s : Scanner) : Scanner :=
  if s.cursor.peek 1 = 10 then { s with line := s.line + 1, column := 0 } else { s with column := s.column + 1 }

/-- Back to the beginning of the source, in the default mode. -/
def reset (s : Scanner) : Scanner :=
  { s with
    cursor := s.cursor.seek 0, type := 0, channel := 0, tokenStart := -1, tokenLine := -1, tokenColumn := -1
    text := none, hitEnd := false, mode := 0, modeStack := [], startIndex := -1, line := 1, column := 0 }

/-- The scanner at the beginning of another source. -/
def setSource (s : Scanner) (source : Source) : Scanner := { s.reset with cursor := { source } }

end Scanner

/-- Scanner computations. -/
abbrev Act := Run Scanner

/-- Prints a line of the trace, if the scanner is traced. -/
def trace (line : Unit → Except Fault String) : Act Unit := do
  if (← get).traced then
    let text ← line ()
    modify fun s => { s with journal := s.journal.print text }

/-- Moves over one character; the end cannot be passed. -/
def consume : Act Unit := do
  modify Scanner.advance
  let c ← (← get).cursor.consume
  modify fun s => { s with cursor := c }

end NimbleLang.Scan
