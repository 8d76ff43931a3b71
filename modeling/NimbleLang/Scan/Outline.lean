import NimbleLang.Scan.Lexer

/-!
Outlines of a scanner's automata and of the calls its host noted.
-/

namespace NimbleLang.Scan

def Call.outline : Call → Outline
  | .predicate rule index place column line =>
    .list [.text "pred", .number rule, .number index, .number place, .number column, .number line]
  | .action rule index place text => .list [.text "action", .number rule, .number index, .number place, .text text]

def Config.outline (c : Config) : Outline :=
  .list [.count c.state, .count c.alt, .text (spellStack c.stack), .text "NONE", .number 0, .flag false]

/-- Numbers in increasing order, each once. -/
def sortedAlts (xs : List Nat) : List Nat := xs.eraseDups.mergeSort (· ≤ ·)

def nodeOutline (n : Automaton.Node (List Config)) : Outline :=
  let alts := sortedAlts (n.content.map (·.alt))
  .record [
    ("accept", .flag n.accepts), ("prediction", .number n.prediction), ("full", .flag false), ("preds", .nothing),
    ("edges", .list ((n.edges.getD []).map fun (symbol, t) =>
      .list [.number symbol, match t with | .error => .number 2147483647 | .node k => .count k])),
    ("configs", .list (n.content.map Config.outline)),
    ("alts", if alts.isEmpty then .nothing else .counts alts),
    ("unique", .number 0), ("conflict", .nothing), ("dips", .flag false), ("sem", .flag false)]

def automatonOutline (a : Automaton (List Config)) : Outline :=
  .record [
    ("s0", match a.start with
      | .unset => .nothing
      | .node n => .count n
      | .byPrecedence nodes => .list (nodes.map (Outline.maybe .number))),
    ("states", .list (a.nodes.toList.map nodeOutline))]

/-- Runs commands as one program, pinned to an offset, on a scanner: how it went, and what the commands and the
scanner look like then. -/
def rehearse (commands : List Command) (offset start : Int) (s : Scanner) :
    Except Fault Unit × List (String × Outline) :=
  let program : Program := commands.map fun c => { command := c }
  let (pinned, _) := pin offset 1 program
  let (ran, s) := (runProgram pinned start).outcome s
  let places := List.range commands.length
  let equal := places.flatMap fun a => (places.filter fun b => a < b && commands[a]? == commands[b]?).map fun b => (a, b)
  (ran, [("kinds", .texts (commands.map Command.kindName)),
    ("positional", .list (commands.map fun c => .flag c.positional)),
    ("eq", .list (equal.map fun (a, b) => .counts [a, b])), ("same", .flag (!program.any (·.unpinned))),
    ("fixed", .list (pinned.map fun s => match s.command with | .stamped o _ => .number o | _ => .nothing)),
    ("log", .list (s.calls.toList.map Call.outline)), ("type", .number s.type), ("channel", .number s.channel),
    ("mode", .number s.mode), ("stack", .numbers s.modeStack), ("index", .number s.cursor.index)])

end NimbleLang.Scan
