import NimbleLang.Text.Escape

/-!
The options of the command line. Options may stand anywhere before a `--`; short ones may be grouped, and a long one
may be cut short as long as it is clear which one is meant. No option takes a value. A request for help, or an
option that is none, ends the reading at once.
-/

namespace NimbleLang.Tool

inductive Flag where
  | help
  | tree
  | tokens
  | sll
  | diagnostics
  | trace
  deriving DecidableEq, Repr, Inhabited

namespace Flag

def all : List Flag := [help, tree, tokens, sll, diagnostics, trace]

def short : Flag → Char
  | help => 'h'
  | tree => 't'
  | tokens => 'k'
  | sll => 's'
  | diagnostics => 'd'
  | trace => 'a'

def long : Flag → String
  | help => "--help"
  | tree => "--tree"
  | tokens => "--tokens"
  | sll => "--sll"
  | diagnostics => "--diagnostics"
  | trace => "--trace"

def meaning : Flag → String
  | help => "show this help message and exit"
  | tree => "Print AST tree"
  | tokens => "Show Tokens"
  | sll => "Show SLL"
  | diagnostics => "Enable diagnostics error listener"
  | trace => "Enable Trace"

end Flag

/-- The name of the tool. -/
def toolName : String := "pygrun"

def usage : String := "Usage: " ++ toolName ++ " [options] Grammar_Name Start_Rule\n"

/-- An option with its meaning, the meanings one below the other. -/
def helpLine (o : Flag) : String :=
  let names := "-" ++ o.short.toString ++ ", " ++ o.long
  "  " ++ names ++ String.ofList (List.replicate (19 - names.length) ' ') ++ o.meaning ++ "\n"

def help : String := usage ++ "\nOptions:\n" ++ (Flag.all.map helpLine).foldl (· ++ ·) ""

/-- How the reading of a command line ended early. -/
inductive Stop where
  | help
  | wrong (message : String)
  deriving DecidableEq, Repr, Inhabited

/-- The options given and the other arguments, in order. -/
structure Arguments where
  options : List Flag := []
  others : List String := []
  deriving DecidableEq, Repr, Inhabited

def give (o : Flag) (a : Arguments) : Except Stop Arguments :=
  if o = .help then .error .help else .ok { a with options := a.options ++ [o] }

/-- The long option that a name means. -/
def longNamed (name : String) : Except Stop Flag :=
  match Flag.all.find? (·.long == name) with
  | some o => .ok o
  | none =>
    match Flag.all.filter fun o => name.toList.isPrefixOf o.long.toList with
    | [] => .error (.wrong ("no such option: " ++ name))
    | [o] => .ok o
    | os => .error (.wrong ("ambiguous option: " ++ name ++ " (" ++
        Text.joinWith ", " ((os.map Flag.long).mergeSort fun a b => !(b < a)) ++ "?)"))

/-- A long option, after which no value may be written. -/
def readLong (arg : String) (a : Arguments) : Except Stop Arguments := do
  let name := String.ofList (arg.toList.takeWhile (· ≠ '='))
  let o ← longNamed name
  if arg.toList.contains '=' then throw (.wrong (o.long ++ " option does not take a value"))
  give o a

/-- Short options, grouped. -/
def readShort : List Char → Arguments → Except Stop Arguments
  | [], a => .ok a
  | c :: rest, a =>
    match Flag.all.find? (·.short == c) with
    | none => .error (.wrong ("no such option: -" ++ c.toString))
    | some o => do readShort rest (← give o a)

/-- Reads a command line. -/
def readArguments : List String → Arguments → Except Stop Arguments
  | [], a => .ok a
  | arg :: rest, a =>
    match arg.toList with
    | ['-', '-'] => .ok { a with others := a.others ++ rest }
    | '-' :: '-' :: _ => do readArguments rest (← readLong arg a)
    | '-' :: c :: cs => do readArguments rest (← readShort (c :: cs) a)
    | _ => readArguments rest { a with others := a.others ++ [arg] }

end NimbleLang.Tool
