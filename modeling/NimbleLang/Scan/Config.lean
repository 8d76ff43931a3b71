import NimbleLang.Network.Basic
import NimbleLang.Automaton.Basic

/-!
Configurations of the lexer: a state of the network, the lexical rule under way (`alt`), the return states
of the rules that were called, innermost first, the commands met so far, and whether the path went
through a loop that prefers to leave.

A `Step` is a command together with a tag. Commands that depend on the place they are met at are told
apart by their tag: a custom command by its place in the network's table, a stamped one by the stamp it
got. All others have tag zero.
-/

namespace NimbleLang.Scan

structure Step where
  command : Command
  tag : Nat := 0
  deriving DecidableEq, Repr, Inhabited

/-- The commands to run when a match is accepted, in order. -/
abbrev Program := List Step

/-- The step for a command of the network's table. -/
def Step.ofTable (index : Nat) (c : Command) : Step := { command := c, tag := if c.positional then index + 1 else 0 }

/-- Whether a step still has to be pinned to a place. -/
def Step.unpinned (s : Step) : Bool :=
  match s.command with
  | .stamped _ _ => false
  | c => c.positional

/-- Pins every step that depends on its place to `offset`, with stamps from `stamp` on. The result says
how many stamps were used. -/
def pin (offset : Int) (stamp : Nat) : Program → Program × Nat
  | [] => ([], stamp)
  | s :: rest =>
    if s.unpinned then
      let (rest', stamp') := pin offset (stamp + 1) rest
      ({ command := .stamped offset s.command, tag := stamp } :: rest', stamp')
    else
      let (rest', stamp') := pin offset stamp rest
      (s :: rest', stamp')

structure Config where
  state : Nat
  alt : Nat
  stack : List Nat := []
  program : Option Program := none
  viaNonGreedy : Bool := false
  deriving DecidableEq, Repr, Inhabited

/-- A stack of return states as text, down to the bottom mark. -/
def spellStack (stack : List Nat) : String := Text.joinWith " " (stack.map (fun n => toString n) ++ ["$"])

namespace Config

def spell (c : Config) : String :=
  "(" ++ toString c.state ++ "," ++ toString c.alt ++ ",[" ++ spellStack c.stack ++ "])"

/-- A configuration that moved on to another state of the network. -/
def moveTo (net : Network) (c : Config) (state : Nat) : Config :=
  let s := net.state state
  { c with state, viaNonGreedy := c.viaNonGreedy || (s.kind.decides && s.nonGreedy == some true) }

end Config

/-- Configurations in the order they were reached, each once, and whether a predicate was asked on the way. -/
structure Reach where
  configs : List Config := []
  asked : Bool := false

def Reach.add (r : Reach) (c : Config) : Reach :=
  if r.configs.contains c then r else { r with configs := r.configs ++ [c] }

/-- Configurations as text. -/
def spellConfigs (cs : List Config) : String := Text.bracketed (cs.map Config.spell)

end NimbleLang.Scan
