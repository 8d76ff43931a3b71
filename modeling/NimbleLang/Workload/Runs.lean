import NimbleLang.Context.Canonical
import NimbleLang.Path.Query
import NimbleLang.Pattern.Match
import NimbleLang.Suite.Standing
import NimbleLang.Suite.Trial
import NimbleLang.Tool.Layout
import NimbleLang.Workload.Programs

/-!
Workloads: runs of the parts of this library on inputs that grow with a number, each with a digest of what came out.
-/

namespace NimbleLang.Workload

/-- The first items, and how many there are. -/
def digest (shown : Nat) (items : List Outline) : Outline := .list (items.take shown ++ [.count items.length])

/-- The first `n` characters of a text. -/
def head (n : Nat) (s : String) : Outline := .text (String.ofList (s.toList.take n))

/-! ## Analysis -/

def validAnalysis (n : Nat) : Except Fault Outline := do
  let a ← Analysis.ofText (program n) .script false
  return .list [.count a.log.total, .count (a.scopes.getD Analysis.global default).children.length,
    head 2000 a.spellTypes, .text (a.scopes.scope Analysis.global).spell]

def unreachableAnalysis (n : Nat) : Except Fault Outline := do
  let a ← Analysis.ofText (deadEnds n) .script false
  return .list [.count a.log.total, head 2000 a.log.spell, .count a.typesByLine.length]

/-- Runs the suite: the number of trials, of those that failed, and of those that broke off. -/
def suite : Outline :=
  let reports := Trial.all.map fun trial => (trial Samples.standing).report
  let entries := reports.flatMap Trial.Report.entries
  let broke := entries.filter fun | .broke _ => true | _ => false
  .counts [reports.length, entries.length - broke.length, broke.length]

/-! ## Scopes -/

/-- A scope with variables, every other one a parameter, and a function. -/
def fillScope (t : Scopes) (k : Nat) : Scopes :=
  let t := (List.range 8).foldl
    (fun t j => t.define k ("v" ++ toString j) (some (.value .int)) (j % 2 == 0)) t
  t.define k "fn" (some (.function [.int] .bool)) false

/-- Scopes inside each other; after every fourth one the next stands outside again. -/
def nestScopes (n : Nat) : Scopes :=
  let (t, _) := (List.range n).foldl (fun (t, outer) i =>
    let k := t.size
    let t := fillScope (t.createChild outer ("f" ++ toString i) (some (.value .int))) k
    (t, if i % 4 = 0 then 0 else k)) (Scopes.root "$global" none, 0)
  t

def scopes (n : Nat) : Outline :=
  let t := nestScopes n
  let children := (t.getD 0 default).children.map fun (name, k) => "'" ++ name ++ "': " ++ (t.scope k).spell
  let parameter : Symbol := { name := "x", type := some (.value .int), isParameter := true, index := 0 }
  .texts ((List.range n).map (fun i => (t.scope (i + 1)).spell) ++
    ["\x7b" ++ Text.joinWith ", " children ++ "\x7d", (SymbolType.function [.int] .void).spell, parameter.spell, Ty.bool.name])

/-! ## Parsing -/

/-- Parses sources one after the other, each with what was learnt from those before it: the complaints about each source
that was refused, and how many there are. -/
def parseEach (earlier : Option Session) : List String → List Outline
  | [] => []
  | source :: rest =>
    let fresh := Session.ofSource (.ofString source)
    let (tree, s) := Session.parseStrictly ((earlier.map fresh.inherit).getD fresh) .script
    let answers := parseEach (some s) rest
    match tree with
    | .error (.malformed complaints) =>
      .list [.text complaints, .count (complaints.toList.count '\n' + 1)] :: answers
    | _ => answers

def syntaxErrors (n : Nat) : Outline :=
  .list (parseEach none ((List.range n).map fun i => malformed.getD (i % malformed.length) ""))

def parseText (n : Nat) : Except Fault Outline := do
  return .text (← (← (Source.ofString (program n)).parse .script).text)

/-- Parses in two modes: the length of the text of the tree, and the number of complaints. -/
def modes (n : Nat) : Except Fault Outline := do
  let inMode (name : String) (mode : Predict.Mode) : Except Fault Outline := do
    let (tree, s) := (Session.parse .expr 0).outcome { Session.ofSource (.ofString (products n)) with mode }
    return .list [.text name, .count (← (← tree).text).length, .number s.errorCount]
  return .list [← inMode "SLL" .local_, ← inMode "LL_EXACT_AMBIG_DETECTION" .exact]

/-- The number of decisions of the grammar, and of the declarations and statements of a program's main part. -/
def diagnostics (n : Nat) : Except Fault Outline := do
  let parts ← match ← (Source.ofString (program n)).phrase .script with
    | .script s => pure (s.main.declared.length + s.main.block.statements.length)
    | _ => throw .absent
  return .list [.count Grammar.parserNetwork.decisions.size, .nothing, .count parts]

def listedTokens (n : Nat) : Except Fault Outline := do
  let stream := (Session.ofSource (.ofString (declarations (n + 1)))).stream
  let (_, stream) := TokenStream.fill.outcome stream
  let listed : Listed := { tokens := stream.tokens.extract 0 n, name := some "mylist" }
  let (_, filled) := (TokenStream.fill : TokenStream.Act Supply Unit).outcome { source := .listed listed }
  let texts := filled.tokens.toList.flatMap fun t => [t.describe, t.describe]
  return .list (.count filled.tokens.size :: (texts.take 40).map .text ++ [.text (← listed.sourceName)])

/-! ## Trees -/

def paths : List String :=
  ["//expr", "//funcDef", "//varDec", "//statement", "/script/main", "//funcDef/body", "//*", "//!expr", "//block/*", "//ID",
    "/script//INT", "//funcCall/!ID", "/*"]

def queries (n : Nat) : Except Fault Outline := do
  let t := Table.ofTree (← (Source.ofString (program n)).parse .script)
  let counted ← paths.mapM fun path => do
    return Outline.list [.text path, .count (Path.follow t (← Path.parse path)).length]
  let first ← Fault.outOfRange.unless (← Path.parse "//expr").head?
  return .list (counted ++ [.text first.spell])

/-- A chunk by its text, or a tag without a label by its kind. -/
def chunkText : Pattern.Chunk → String
  | .text s => "'" ++ s ++ "'"
  | .tag none _ => "TagChunk"
  | .tag (some t) l => t ++ ":" ++ l

def patterns (n : Nat) : Except Fault Outline := do
  let split ← ["<ID>", "<ID:a>", "<ID> <expr>", "plain \\< esc", "<expr> tail"].mapM fun p => do
    return Outline.texts ((← Pattern.split {} p).map chunkText)
  let tag ← Pattern.Tag.make "ID" 28 (some "x")
  let treeOf (source : String) : Except Fault Tree := (Source.ofString source).parse .statement
  let pattern : Pattern.Template := { table := .ofTree (← treeOf "x = 1") }
  let matches_ ← (List.range n).mapM fun i => do
    let o := Pattern.matchTree (.ofTree (← treeOf ("print " ++ toString i))) pattern 0
    return Outline.list [.flag o.succeeded, .text o.spell]
  let items := split ++
    [.text (chunkText (.tag (some "lbl") "ID")), .text (chunkText (.text "abc")), Outline.texts [tag.spell, tag.text]] ++ matches_
  return digest items.length items

def layouts (n : Nat) : Except Fault Outline := do
  let text ← Tool.layout (String.join (List.replicate n "(a (b c) (d (e f)))"))
  return .list [.count text.length, .text text]

/-! ## Sets and contexts -/

def sets (n : Nat) : Except Fault Outline := do
  let span : Span := ⟨0, 16⟩
  let s := IntervalSet.empty.addRange span
  let rest ← s.complement 0 15
  let gone := s.removeRange span
  let names : Vocabulary := { literal := ["a", "b"], symbolic := [] }
  let sizeOf (x : IntervalSet) : Outline := Outline.maybe .count x.size?
  let each : List Outline :=
    [.list [sizeOf s, .flag (s.contains 3), sizeOf rest, sizeOf gone], .text (← names.spell s), .text (← names.spell gone)]
  return digest 50 ((List.replicate n each).flatten ++
    [.text (Text.bracketed ["1", "2", "3"]), .text (Text.whitespace "a b\t\n\rc" true)])

/-- A stack of return states. -/
def stack (bottom : Nat) : Nat → Context Nat
  | 0 => .root
  | depth + 1 => .atop (bottom * 10 + depth) (stack bottom depth) (bottom * 10 + depth : Nat)

/-- Makes stacks of up to seven calls canonical. -/
def contexts (n : Nat) : Except Fault Outline := do
  let step (items : List Outline) (i : Nat) : Run Context.Registry (List Outline) := do
    let depth := i % 7 + 1
    let c := stack i depth
    let c' ← Context.Registry.canonical c
    return items ++ [.list [.count c'.ways.length, .flag (c.same c'), .count depth]]
  let (items, registry) := ((List.range n).foldlM step []).outcome {}
  return digest 20 ((← items) ++ [.count registry.entries.length])

/-! ## Networks and scanners -/

/-- Reads the networks of the scanner and of the parser `n` times: how many of each could be read. -/
def networks (n : Nat) : Outline :=
  let read (table : List Int) : Nat := ((List.replicate n table).filterMap fun t => (Network.decode t).toOption).length
  .counts [read Grammar.lexerTable, read Grammar.parserTable]

/-- Scans `n` names, and overrules text and type of the last token. -/
def scans (n : Nat) : Except Fault Outline := do
  let source := Text.joinWith " " ((List.range n).map fun i => "v" ++ toString i)
  let (tokens, s) := Scan.allTokens.outcome (Grammar.scanner (.ofString source) false)
  let s := { s with text := some "override", type := 5 }
  let quoted (c : String) : Outline := .text ("'" ++ Text.escape c ++ "'")
  return .list [.count (← tokens).size, Outline.maybe .text s.text, .number s.type, quoted "\n", quoted "\t", quoted "\r",
    .text (Token.display none), .number s.mode]

/-! ## All workloads -/

/-- All workloads, in the order of the sections above. -/
def all : List (Nat → Except Fault Outline) :=
  [validAnalysis, unreachableAnalysis, fun n => .ok (.list (List.replicate n suite)), fun n => .ok (scopes n),
    fun n => .ok (syntaxErrors n), parseText, modes, diagnostics, listedTokens, queries, patterns, layouts, sets, contexts,
    fun n => .ok (networks n), scans]

/-- Runs the workload at a place. -/
def run (place n : Nat) : Except Fault Outline := do
  (← Fault.absent.unless all[place]?) n

end NimbleLang.Workload
