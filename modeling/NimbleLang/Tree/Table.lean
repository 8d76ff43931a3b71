import NimbleLang.Tree.Basic
import NimbleLang.Grammar.Parts
import NimbleLang.Context.Callers

/-!
Tables of nodes: a tree with its nodes numbered, each before its children, from zero on. A number stays with
its node, also when the node is taken out of its parent's children.
-/

namespace NimbleLang

structure Entry where
  /-- The node without its children. -/
  here : Tree
  parent : Option Nat
  children : List Nat
  deriving Inhabited

abbrev Table := Array Entry

namespace Table

open Grammar

/-- The numbers of trees side by side, the first one with number `n`. -/
def numbersFrom (n : Nat) : List Tree → List Nat
  | [] => []
  | t :: ts => n :: numbersFrom (n + t.size) ts

mutual
def entries (parent : Option Nat) (n : Nat) : Tree → List Entry
  | .leaf t => [{ here := .leaf t, parent, children := [] }]
  | .error t => [{ here := .error t, parent, children := [] }]
  | .node l cs => { here := .node l [], parent, children := numbersFrom (n + 1) cs } :: entriesOf n (n + 1) cs

def entriesOf (parent : Nat) (n : Nat) : List Tree → List Entry
  | [] => []
  | t :: ts => entries (some parent) n t ++ entriesOf parent (n + t.size) ts
end

def ofTree (t : Tree) : Table := (entries none 0 t).toArray

/-- The entry at a signed number. -/
def at_ (t : Table) (n : Int) : Except Fault (Nat × Entry) := do
  let k ← Fault.outOfRange.unless (Indexing.wrap? t.size n)
  return (k, t.getD k default)

/-- The label of a phrase; a token has none. -/
def labelOf (e : Entry) : Except Fault Label := Fault.absent.unless e.here.label?

/-- The number of a node and of all below it, each before its children. -/
def below (t : Table) : Nat → Nat → List Nat
  | 0, _ => []
  | fuel + 1, n => n :: (t.getD n default).children.flatMap (below t fuel)

def descendants (t : Table) (n : Nat) : List Nat := below t t.size n

/-- The tree at a number as it is now. -/
def treeAt (t : Table) : Nat → Nat → Tree
  | 0, n => (t.getD n default).here
  | fuel + 1, n =>
    let e := t.getD n default
    match e.here with
    | .node l _ => .node l (e.children.map (treeAt t fuel))
    | leaf => leaf

def tree (t : Table) (n : Nat) : Tree := treeAt t t.size n

/-- A node and those it lies in, innermost first. -/
def upwards (t : Table) : Nat → Nat → List Nat
  | 0, _ => []
  | fuel + 1, n => n :: match (t.getD n default).parent with
    | some p => upwards t fuel p
    | none => []

def chain (t : Table) (n : Nat) : List Nat := upwards t t.size n

/-- The nodes that a node lies in. Only leaves can be asked for their parent, and a parent is no leaf. -/
def ancestors (e : Entry) : Except Fault (List Nat) :=
  if e.here.token?.isSome && e.parent.isNone then .ok [] else .error .absent

/-- The rules that a phrase lies in, itself first. -/
def callers (t : Table) (n : Nat) : Callers :=
  (t.chain n).filterMap fun k => (t.getD k default).here.label?.map fun l =>
    { invoking := some l.invoking, rule := l.form.ruleIndex }

/-! ## Parts -/

/-- The child at a signed place. A token has no children; a phrase that never had any cannot be asked. -/
def child (e : Entry) (i : Int) : Except Fault (Option Nat) :=
  match e.here with
  | .node l _ =>
    if l.childless then .error .mistyped
    else if (e.children.length : Int) > i then (Fault.outOfRange.unless (Indexing.listAt? e.children i)).map some
    else .ok none
  | _ => .ok none

/-- The children that are tokens of a type. -/
def tokensOf (t : Table) (e : Entry) (type : Int) : List Nat :=
  e.children.filter fun k => (t.getD k default).here.token?.any (·.type == type)

/-- The children that are phrases of a form. -/
def phrasesOf (t : Table) (e : Entry) (kind : Form) : List Nat :=
  e.children.filter fun k => (t.getD k default).here.label?.any (·.form.isA kind)

/-- The element at a place counted from zero; a negative place has none. -/
def pick (xs : List Nat) (i : Int) : Option Nat := if i < 0 then none else xs[i.toNat]?

inductive Found where
  | one (n : Option Nat)
  | many (ns : List Nat)

/-- A part of a phrase by name, or by name and place. -/
def part (t : Table) (e : Entry) (name : String) (places : List (Option Int)) : Except Fault Found := do
  let l ← labelOf e
  match ← Fault.absent.unless (l.form.part? name), places with
  | .token type, [] => return .one (pick (t.tokensOf e type) 0)
  | .one rule, [] => return .one (pick (t.phrasesOf e (.ofRule rule)) 0)
  | .many rule, [] | .many rule, [none] => return .many (t.phrasesOf e (.ofRule rule))
  | .many rule, [some i] => return .one (pick (t.phrasesOf e (.ofRule rule)) i)
  | _, _ => throw .mistyped

/-- The text of a phrase's operator. -/
def operatorText (e : Entry) : Except Fault (Option String) := do
  let l ← labelOf e
  if !l.form.hasOperator then throw .absent
  return (← Fault.absent.unless l.op).text?

/-- The tokens of a type in a node. -/
def findTokens (t : Table) (n : Nat) (type : Int) : List Nat :=
  (t.descendants n).filter fun k => (t.getD k default).here.token?.any (·.type == type)

/-- The phrases of a rule in a node. Phrases do not know their rules, so only a token can be searched. -/
def findPhrases (t : Table) (n : Nat) : Except Fault (List Nat) :=
  if (t.descendants n).any fun k => (t.getD k default).here.label?.isSome then .error .absent else .ok []

/-- The children of a phrase of a named form, or the one at a place. -/
def typed (t : Table) (e : Entry) (form : String) (place : Option Int) : Except Fault Found := do
  let _ ← labelOf e
  let ns := t.phrasesOf e (← Fault.absent.unless (Form.named? form))
  return match place with
    | none => .many ns
    | some i => .one (pick ns i)

/-- Takes the last child out of a phrase. -/
def removeLast (t : Table) (n : Nat) : Except Fault Table := do
  let e := t.getD n default
  let l ← labelOf e
  if l.childless then return t
  if e.children.isEmpty then throw .outOfRange
  return t.setIfInBounds n { e with children := e.children.dropLast }

/-! ## Text -/

/-- A node by its rule's name or its token. -/
def nodeText (e : Entry) : Except Fault (Option String) :=
  match e.here with
  | .leaf t => .ok t.text?
  | here => (here.headline Tree.ruleName).map some

/-- A node by the states its rules were called from, or by its token. -/
def rawText (t : Table) (n : Nat) : Option String :=
  match (t.getD n default).here.token? with
  | some token => token.text?
  | none => some (t.callers n).spell

/-- A tree in which every phrase is written as the states its rules were called from. -/
def rawWritten (t : Table) : Nat → Nat → Except Fault String
  | 0, _ => .error .exhausted
  | fuel + 1, n => do
    let own ← Fault.mistyped.unless (t.rawText n)
    let rest ← (t.getD n default).children.mapM (rawWritten t fuel)
    return if rest.isEmpty then Text.escape own else "(" ++ Text.escape own ++ " " ++ Text.joinWith " " rest ++ ")"

def rawLisp (t : Table) (n : Nat) : Except Fault String := rawWritten t (t.size + 1) n

/-- A node on its own: a phrase by its callers, a token by its text. -/
def spellNode (t : Table) (n : Nat) : Except Fault String :=
  match (t.getD n default).here with
  | .leaf token | .error token => if token.isEof then .ok "<EOF>" else Fault.mistyped.unless token.text?
  | .node _ _ => .ok (t.callers n).spell

/-- The rules that a phrase lies in, up to but not including the one numbered `stop`. -/
def callersUpTo (t : Table) (n : Nat) (stop : Option Nat) : Callers × Bool :=
  let cs := (t.chain n).takeWhile fun k => some k ≠ stop
  ((t.callers n).take cs.length, cs.length < (t.chain n).length)

/-- The rules that a phrase lies in, by name or by calling state. Where the list is cut short, a blank shows it. -/
def contextText (t : Table) (n : Nat) (byName : Bool) (stop : Option Nat) : Except Fault String := do
  let _ ← labelOf (t.getD n default)
  let (cs, cut) := t.callersUpTo n stop
  let whole := t.callers n
  let next := whole[cs.length]?
  let gap := cut && !cs.isEmpty && (byName || next.any fun c => !Callers.isTop c)
  let body := if byName then cs.spellRules phraseRules else cs.spell
  return if gap then (body.dropEnd 1).toString ++ " ]" else body

/-- The names of the rules that a phrase lies in. -/
def invocation (t : Table) (n : Nat) : Except Fault (List String) := do
  let _ ← labelOf (t.getD n default)
  return (t.callers n).map fun c => if c.rule < 0 then "n/a" else (phraseRules[c.rule.toNat]?).getD ""

end Table

end NimbleLang
