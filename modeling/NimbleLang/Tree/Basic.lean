import NimbleLang.Grammar.Form

/-!
Parse trees. A leaf holds a token; an `error` leaf holds one that recovery dropped or made up. A node holds a
label and its children. The label tells the form of the phrase, the state of the network its rule was called
from, its first and last token, and how the rule got stuck, if it did.
-/

namespace NimbleLang

structure Label where
  form : Grammar.Form
  invoking : Int := -1
  start : Option Token := none
  stop : Option Token := none
  stuck : Option Recognition.Kind := none
  /-- The operator of an expression. -/
  op : Option Token := none
  /-- Whether the node never had a list of children, not even an empty one. -/
  childless : Bool := true
  deriving DecidableEq, Repr, Inhabited

inductive Tree where
  | leaf (token : Token)
  | error (token : Token)
  | node (label : Label) (children : List Tree)
  deriving Repr, Inhabited

namespace Tree

open Grammar

def token? : Tree → Option Token
  | leaf t | error t => some t
  | node _ _ => none

def label? : Tree → Option Label
  | node l _ => some l
  | _ => none

def children : Tree → List Tree
  | node _ cs => cs
  | _ => []

def isError : Tree → Bool
  | error _ => true
  | _ => false

/-- The positions of the first and last token of a tree in the stream. -/
def interval : Tree → Int × Int
  | leaf t | error t => (t.index, t.index)
  | node l _ =>
    match l.start, l.stop with
    | some a, some b => (a.index, b.index)
    | _, _ => (-1, -2)

/-! ## Text -/

mutual
/-- The text of a tree: the texts of its tokens, one after the other. A token without text cannot be written. -/
def text : Tree → Except Fault String
  | leaf t | error t => Fault.mistyped.unless t.text?
  | node _ cs => textOf cs

def textOf : List Tree → Except Fault String
  | [] => .ok ""
  | t :: ts => do return (← text t) ++ (← textOf ts)
end

/-- What stands for a node in a written tree. An end token dropped by recovery always reads `<EOF>`. -/
def headline (nameOf : Label → String) : Tree → Except Fault String
  | node l _ => .ok (nameOf l)
  | leaf t => Fault.mistyped.unless t.text?
  | error t => if t.isEof then .ok "<EOF>" else Fault.mistyped.unless t.text?

mutual
/-- A tree as a nested list: the name of a node, then its children. -/
def written (nameOf : Label → String) : Tree → Except Fault String
  | leaf t => do return Text.escape (← headline nameOf (leaf t))
  | error t => do return Text.escape (← headline nameOf (error t))
  | node l [] => .ok (Text.escape (nameOf l))
  | node l (c :: cs) => do
    let rest ← writtenOf nameOf (c :: cs)
    return "(" ++ Text.escape (nameOf l) ++ " " ++ Text.joinWith " " rest ++ ")"

def writtenOf (nameOf : Label → String) : List Tree → Except Fault (List String)
  | [] => .ok []
  | t :: ts => do return (← written nameOf t) :: (← writtenOf nameOf ts)
end

/-- The name of a node's rule; a node of no rule shares the last name. -/
def ruleName (l : Label) : String := (Indexing.listAt? phraseRules l.form.ruleIndex).getD ""

/-- A tree as a nested list with the names of the rules. -/
def lisp (t : Tree) : Except Fault String := t.written ruleName

/-! ## Numbering -/

mutual
/-- A tree and all below it, each before its children. -/
def preorder : Tree → List Tree
  | leaf t => [leaf t]
  | error t => [error t]
  | node l cs => node l cs :: preorderOf cs

def preorderOf : List Tree → List Tree
  | [] => []
  | t :: ts => preorder t ++ preorderOf ts
end

mutual
def size : Tree → Nat
  | leaf _ | error _ => 1
  | node _ cs => sizeOf_ cs + 1

def sizeOf_ : List Tree → Nat
  | [] => 0
  | t :: ts => size t + sizeOf_ ts
end

end Tree

end NimbleLang
