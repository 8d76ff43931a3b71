import NimbleLang.Path.LexerTable
import NimbleLang.Tree.Table
import NimbleLang.Network.Decode
import NimbleLang.Token.Supply

/-!
Queries on trees by path. A path is a sequence of elements, each after `/` (among the children) or `//`
(anywhere below): the name of a rule, the name of a token, a quoted literal, or `*`; with `!` in front, an
element finds the phrases, or the tokens, that are not of that name.

A query starts above the tree, at a place that holds the tree as its only child. Token names are numbered in
the order of the lexical rules, parts of other rules included.
-/

namespace NimbleLang.Path

/-- What an element looks for. -/
inductive Test where
  | rule (name : String) (index : Int)
  | token (name : String) (type : Int)
  | any
  deriving DecidableEq, Repr, Inhabited

structure Element where
  test : Test
  anywhere : Bool
  inverted : Bool
  deriving DecidableEq, Repr, Inhabited

namespace Element

def spell (e : Element) : String :=
  let (kind, name) := match e.test with
    | .rule n _ => ("Rule", n)
    | .token n _ => ("Token", n)
    | .any => ("Wildcard", "*")
  "XPath" ++ kind ++ (if e.anywhere then "Anywhere" else "") ++ "Element[" ++ (if e.inverted then "!" else "") ++ name ++ "]"

end Element

/-! ## Reading paths -/

namespace Word

def token : Int := 1
def rule : Int := 2
def anywhere : Int := 3
def root : Int := 4
def wildcard : Int := 5
def bang : Int := 6
def literal : Int := 8

/-- The names of the words of a path. -/
def names : List String :=
  ["<INVALID>", "TOKEN_REF", "RULE_REF", "ANYWHERE", "ROOT", "WILDCARD", "BANG", "ID", "STRING"]

end Word

/-- The words of a path, with an end token. A character that belongs to no word cannot be read. -/
def words (path : String) : Except Fault (List Token) := do
  let net ← Network.decode lexerTable
  let scanner := Scan.Scanner.ofNetwork net (Source.ofString path) .names
  let (r, s) := TokenStream.fill.outcome ({ source := .scanned scanner } : TokenStream Supply)
  r
  if !(s.source.drain.1.reports.isEmpty) then throw .mistyped
  return s.tokens.toList

/-- What a word looks for. -/
def testOf (w : Token) : Except Fault Test := do
  let text ← Fault.mistyped.unless w.text?
  let unknown (kind : String) : Fault :=
    .because (text ++ " at index " ++ toString w.index ++ " isn't a valid " ++ kind ++ " name")
  if w.type = Word.wildcard then return .any
  else if w.type = Word.token then
    match Grammar.lexicalRules.idxOf? text with
    | some k => return .token text ((k : Int) + 1)
    | none => throw (unknown "token")
  else if w.type = Word.literal then
    match Grammar.literals.idxOf? text with
    | some k => return .token text k
    | none => throw (unknown "token")
  else match Grammar.phraseRules.idxOf? text with
    | some k => return .rule text k
    | none => throw (unknown "rule")

/-- The words that an element can be made of. -/
def isName (w : Token) : Bool := [Word.token, Word.rule, Word.wildcard, Word.literal].contains w.type

/-- The separator in front of an element, if there is one. -/
def takeSeparator : List Token → Bool × List Token
  | w :: rest =>
    if w.type = Word.anywhere then (true, rest) else if w.type = Word.root then (false, rest) else (false, w :: rest)
  | [] => (false, [])

def takeBang : List Token → Bool × List Token
  | w :: rest => if w.type = Word.bang then (true, rest) else (false, w :: rest)
  | [] => (false, [])

/-- The elements of a sequence of words, which ends at the end token. -/
def elementsOf : Nat → List Token → Except Fault (List Element)
  | 0, _ => .ok []
  | fuel + 1, ws => do
    let (anywhere, ws) := takeSeparator ws
    let (inverted, ws) := takeBang ws
    match ws with
    | [] => return []
    | w :: rest =>
      if isName w then return { test := ← testOf w, anywhere, inverted } :: (← elementsOf fuel rest)
      else if w.isEof then return []
      else throw (.because ("Unknown path element " ++ Word.names.getD w.type.toNat ""))

def parse (path : String) : Except Fault (List Element) := do
  let ws ← words path
  elementsOf (ws.length + 1) ws

/-! ## Following paths -/

/-- A place in a tree; `none` is the place above it. -/
abbrev Place := Option Nat

def childrenOf (t : Table) : Place → List Place
  | none => [some 0]
  | some n => (t.getD n default).children.map some

def belowOf (t : Table) : Place → List Place
  | none => none :: (t.descendants 0).map some
  | some n => (t.descendants n).map some

/-- Whether an element finds a place. -/
def Element.finds (e : Element) (t : Table) (p : Place) : Bool :=
  match e.test with
  | .any => !e.inverted
  | .rule _ index =>
    match p.map fun n => (t.getD n default).here with
    | none => e.inverted ^^ (index == -1)
    | some (.node l _) => e.inverted ^^ (l.form.ruleIndex == index)
    | some _ => false
  | .token _ type =>
    match p.bind fun n => (t.getD n default).here.token? with
    | none => false
    | some token => e.inverted ^^ (token.type == type)

/-- One step from some places: what is found from each in order, nothing twice. -/
def step (t : Table) (e : Element) (places : List Place) : List Place :=
  places.foldl (fun found p =>
    let around := if (childrenOf t p).isEmpty then [] else if e.anywhere then belowOf t p else childrenOf t p
    found ++ (around.filter fun q => e.finds t q && !found.contains q)) []

/-- The places that a path leads to. -/
def follow (t : Table) (elements : List Element) : List Place := elements.foldl (fun ps e => step t e ps) [none]

/-- The places that a path leads to, each with the number of its node and the text there. The place above the tree has
no number. -/
def found (t : Table) (elements : List Element) : Except Fault (List (Option Nat × String)) :=
  (follow t elements).mapM fun p => do return (p, ← (t.tree (p.getD 0)).text)

end NimbleLang.Path
