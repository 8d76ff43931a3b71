import NimbleLang.Tool.Layout
import NimbleLang.Tool.Options
import NimbleLang.Text.Encoding
import NimbleLang.Parse.Rules

/-!
The test rig: a command that scans and parses sources by a rule and prints what it is asked for. Sources are files,
or else the standard input. Complaints go to the error output. What one source taught the automata serves the
next one.

`plan` decides from the command line alone what is to be done; `feed` deals with one source. Reading files is left
to the caller, who hands in their bytes.
-/

namespace NimbleLang.Tool

/-- What a command line asks for. -/
inductive Plan where
  /-- Print and stop with an exit code. -/
  | stop (out err : String) (code : Nat)
  /-- Parse the files, or the standard input if there are none, by a rule. -/
  | parse (options : List Flag) (rule : String) (files : List String)
  deriving Repr, Inhabited

/-- The grammars that there are. -/
def grammars : List String := ["Nimble"]

/-- What to do with a command line, in a directory. -/
def plan (directory : String) (args : List String) : Plan :=
  match readArguments args {} with
  | .error .help => .stop help "" 0
  | .error (.wrong message) => .stop "" (usage ++ "\n" ++ toolName ++ ": error: " ++ message ++ "\n") 2
  | .ok a =>
    match a.others with
    | grammar :: rule :: files =>
      if grammars.contains grammar then .parse a.options rule files
      else .stop ("[ERROR] Can't find lexer file " ++ grammar ++ "Lexer.py!\n" ++ directory ++ "\n") "" 1
    | _ => .stop ("ERROR: You have to provide at least 2 arguments!\n" ++ help) "" 1

/-- A session for a source, with the options in force, that goes on after an earlier one. -/
def sessionFor (options : List Flag) (earlier : Option Session) (source : Source) : Session :=
  let echo : Journal := { echo := true }
  let scanner := { Grammar.scanner source false with journal := echo }
  let s := Session.start { source := .scanned scanner }
  let s := match earlier with
    | some e => { s.inherit e with journal := e.journal }
    | none => { s with journal := echo }
  let exact := options.contains .diagnostics
  { s with diagnosis := if exact then some true else none
           mode := if options.contains .sll then .local_ else if exact then .exact else .full }

/-- Scans and parses, and prints what the options ask for. -/
def process (options : List Flag) (rule : String) : Session.Act Unit := do
  let print (line : String) : Session.Act Unit := Session.onRecogniser (Recogniser.print line)
  Session.onStream TokenStream.fill
  if options.contains .tokens then
    for t in (← get).stream.tokens do
      print t.describe
  if rule = "tokens" then return ()
  Session.setTrace (options.contains .trace)
  match Grammar.Rule.named? rule with
  | some r =>
    let t ← Session.parse r 0
    if options.contains .tree then print (← layout (← t.lisp))
  | none => print ("[ERROR] Can't find start rule '" ++ rule ++ "' in parser 'NimbleParser'")

/-- Deals with one source; yields the session, whose journal holds all that was printed so far. -/
def feed (options : List Flag) (rule : String) (earlier : Option Session) (source : Source) : Except Fault Unit × Session :=
  (process options rule).outcome (sessionFor options earlier source)

/-! ## Files -/

/-- Joins the parts of a path, leaving out what leads nowhere. -/
def cleanParts (absolute : Bool) : List String → List String → List String
  | done, [] => done.reverse
  | done, p :: rest =>
    if p = "" || p = "." then cleanParts absolute done rest
    else if p = ".." then
      match done with
      | [] => if absolute then cleanParts absolute [] rest else cleanParts absolute [".."] rest
      | ".." :: _ => cleanParts absolute (".." :: done) rest
      | _ :: up => cleanParts absolute up rest
    else cleanParts absolute (p :: done) rest

/-- A path in its simplest form. -/
def cleanPath (path : String) : String :=
  let absolute := path.toList.head? = some '/'
  let body := Text.joinWith "/" (cleanParts absolute [] (path.splitOn "/"))
  if absolute then "/" ++ body else if body = "" then "." else body

/-- Deals with the files in turn: `read` gives the bytes of those that exist. A file that is no text ends the run. -/
def feedFiles (options : List Flag) (rule : String) (read : String → Option (List Nat)) :
    List String → Option Session → Except Fault Unit × Journal
  | [], s => (.ok (), (s.map (·.journal)).getD {})
  | file :: rest, s =>
    match read file with
    | none =>
      let blank := sessionFor options s (Source.ofString "")
      let missing := { blank with journal := blank.journal.print ("[ERROR] file " ++ cleanPath file ++ " not exist") }
      feedFiles options rule read rest (some missing)
    | some bytes =>
      match Text.decode .ascii .refuse bytes with
      | .error f => (.error f, (s.map (·.journal)).getD {})
      | .ok text =>
        match feed options rule s (Source.ofString text) with
        | (.ok _, s) => feedFiles options rule read rest (some s)
        | (.error f, s) => (.error f, s.journal)

/-! ## Whole runs -/

/-- What a run leaves: what it printed, and how it ended. Without a code it came to its natural end. -/
structure Outcome where
  out : String
  err : String
  ending : Except Fault (Option Nat)

def Outcome.ofJournal (j : Journal) (ending : Except Fault (Option Nat)) : Outcome :=
  { out := j.output, err := j.errorOutput, ending }

/-- Runs a command line on given files and a given standard input. -/
def run (directory : String) (args : List String) (read : String → Option (List Nat)) (stdin : String) : Outcome :=
  match plan directory args with
  | .stop out err code => { out, err, ending := .ok (some code) }
  | .parse options rule [] =>
    let (r, s) := feed options rule none (Source.ofString stdin)
    .ofJournal s.journal (r.map fun _ => some 0)
  | .parse options rule files =>
    let (r, j) := feedFiles options rule read files none
    .ofJournal j (r.map fun _ => none)

end NimbleLang.Tool
