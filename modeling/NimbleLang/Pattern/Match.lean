import NimbleLang.Tree.Table
import NimbleLang.Pattern.Compile

/-!
Matching trees against trees. The pattern is a tree in which some tokens may be replaced by tags: a tag fits
every token of its type, and the token is noted under the tag's name and, if it has one, its label. Without
tags, tokens fit if they have the same type and the same text, and phrases fit if they have equally many
children that fit in turn; what kind of phrases they are does not matter.
-/

namespace NimbleLang.Pattern

/-- A tag in place of a token. -/
structure Tag where
  name : String
  type : Int
  label : Option String
  deriving DecidableEq, Repr, Inhabited

namespace Tag

/-- A tag that stands for a token. Names of rules cannot be used. -/
def make (name : String) (type : Int) (label : Option String) : Except Fault Tag :=
  match name.toList with
  | [] => .error (.because "ruleName cannot be null or empty.")
  | c :: _ => if Text.isUppercase c then .ok { name, type, label } else .error .absent

def text (t : Tag) : String :=
  match t.label with
  | some l => "<" ++ l ++ ":" ++ t.name ++ ">"
  | none => "<" ++ t.name ++ ">"

def spell (t : Tag) : String := t.name ++ ":" ++ toString t.type

end Tag

/-- A pattern: a tree and the tags in it, by number of the token they replace; the first one counts. A tag at a
phrase is without effect. -/
structure Template where
  table : Table
  tags : List (Nat × Tag) := []

/-- The text of a pattern. -/
def Template.text (p : Template) : String :=
  let words := (p.table.descendants 0).map fun n =>
    match (p.table.getD n default).here.token?, p.tags.lookup n with
    | some _, some tag => tag.text
    | some t, none => t.text?.getD ""
    | none, _ => ""
  words.foldl (· ++ ·) ""

/-- What is noted under each label. -/
abbrev Labels := List (String × List Nat)

def enter (label : String) (n : Nat) : Labels → Labels
  | [] => [(label, [n])]
  | (l, ns) :: rest => if l = label then (l, ns ++ [n]) :: rest else (l, ns) :: enter label n rest

def matchToken (p : Template) (token : Token) (n m : Nat) (labels : Labels) : Option Nat × Labels :=
  match p.tags.lookup m with
  | some tag =>
    if token.type = tag.type then
      let labels := enter tag.name n labels
      (none, match tag.label with | some l => enter l n labels | none => labels)
    else (some n, labels)
  | none =>
    match (p.table.getD m default).here.token? with
    | some own => (if token.type = own.type && token.text? = own.text? then none else some n, labels)
    | none => (some n, labels)

/-- Matches nodes side by side, as long as they fit. -/
def matchEach (one : Nat → Nat → Labels → Option Nat × Labels) : List (Nat × Nat) → Labels → Option Nat × Labels
  | [], labels => (none, labels)
  | (n, m) :: rest, labels =>
    match one n m labels with
    | (none, labels) => matchEach one rest labels
    | stuck => stuck

/-- Matches the node `n` of a tree against the node `m` of a pattern: the first node that does not fit, and what was
noted on the way. -/
def matchNode (t : Table) (p : Template) : Nat → Nat → Nat → Labels → Option Nat × Labels
  | 0, n, _, labels => (some n, labels)
  | fuel + 1, n, m, labels =>
    let e := t.getD n default
    let q := p.table.getD m default
    match e.here, q.here with
    | .node _ _, .node _ _ =>
      if e.children.length ≠ q.children.length then (some n, labels)
      else matchEach (matchNode t p fuel) (e.children.zip q.children) labels
    | .leaf token, .leaf _ | .leaf token, .error _ | .error token, .leaf _ | .error token, .error _ =>
      matchToken p token n m labels
    | _, _ => (some n, labels)

/-- The outcome of a match. -/
structure Outcome where
  mismatch : Option Nat
  labels : Labels

def matchTree (t : Table) (p : Template) (n : Nat) : Outcome :=
  let (mismatch, labels) := matchNode t p (t.size + 1) n 0 []
  { mismatch, labels }

namespace Outcome

def succeeded (o : Outcome) : Bool := o.mismatch.isNone

/-- The last node noted under a label. -/
def last (o : Outcome) (label : String) : Option Nat := (o.labels.lookup label).bind List.getLast?

def spell (o : Outcome) : String :=
  "Match " ++ (if o.succeeded then "succeeded" else "failed") ++ "; found " ++ toString o.labels.length ++ " labels"

end Outcome

/-! ## Other ways -/

/-- Ways to match other than a tree against the tree of a pattern. None of them is open. -/
inductive Way where
  /-- By the pattern itself, which has no matcher. -/
  | itself
  /-- Anywhere in a tree, along a path. -/
  | anywhere
  /-- By a pattern that is still to be compiled. -/
  | compiled (pattern : String)
  | withoutTree
  | withoutPattern
  deriving DecidableEq, Repr, Inhabited

/-- Why a way is closed. -/
def Way.fault : Way → Fault
  | itself => .absent
  | anywhere => .undefined
  | compiled pattern =>
    match tokenise {} {} pattern with
    | .error f => f
    | .ok _ => .absent
  | withoutTree => .because "tree cannot be null"
  | withoutPattern => .because "patternTree cannot be null"

end NimbleLang.Pattern
