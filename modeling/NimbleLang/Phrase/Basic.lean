import NimbleLang.Scope.Type

/-!
Programs as the language means them. A script is a list of functions and a main part; a body declares variables and
then runs statements. Every phrase that can be reported on tells where it begins and what its text is: its
tokens one after the other, with nothing between them.
-/

namespace NimbleLang

/-- Where a phrase begins: the line, and the number of its first token. -/
structure Place where
  line : Int
  index : Int
  deriving DecidableEq, Repr, Inhabited

/-- The types that can be declared. -/
inductive Declared where
  | int
  | bool
  | string
  deriving DecidableEq, Repr, Inhabited

namespace Declared

def ty : Declared → Ty
  | int => .int
  | bool => .bool
  | string => .string

def name (d : Declared) : String := d.ty.name

def named? (s : String) : Option Declared := [int, bool, string].find? (·.name == s)

end Declared

inductive Sign where
  | not
  | minus
  deriving DecidableEq, Repr, Inhabited

def Sign.text : Sign → String
  | .not => "!"
  | .minus => "-"

def Sign.named? (s : String) : Option Sign := [Sign.not, .minus].find? (·.text == s)

inductive Operator where
  | times
  | divide
  | plus
  | minus
  | less
  | lessOrEqual
  | equal
  deriving DecidableEq, Repr, Inhabited

def Operator.text : Operator → String
  | .times => "*"
  | .divide => "/"
  | .plus => "+"
  | .minus => "-"
  | .less => "<"
  | .lessOrEqual => "<="
  | .equal => "=="

def Operator.all : List Operator := [.times, .divide, .plus, .minus, .less, .lessOrEqual, .equal]

def Operator.named? (s : String) : Option Operator := Operator.all.find? (·.text == s)

inductive Expr where
  | parens (place : Place) (e : Expr)
  | signed (place : Place) (sign : Sign) (e : Expr)
  | binary (op : Operator) (left right : Expr)
  | call (place : Place) (name : String) (args : List Expr)
  | reference (place : Place) (name : String)
  | stringLiteral (place : Place) (text : String)
  | intLiteral (place : Place) (text : String)
  | boolLiteral (place : Place) (text : String)
  deriving Repr, Inhabited

namespace Expr

def place : Expr → Place
  | parens p _ | signed p _ _ | call p _ _ | reference p _ | stringLiteral p _ | intLiteral p _ | boolLiteral p _ => p
  | binary _ l _ => l.place

mutual
def text : Expr → String
  | parens _ e => "(" ++ e.text ++ ")"
  | signed _ s e => s.text ++ e.text
  | binary op l r => l.text ++ op.text ++ r.text
  | call _ name args => name ++ "(" ++ textOf args ++ ")"
  | reference _ t | stringLiteral _ t | intLiteral _ t | boolLiteral _ t => t

/-- Expressions with commas between them. -/
def textOf : List Expr → String
  | [] => ""
  | [e] => e.text
  | e :: e' :: rest => e.text ++ "," ++ textOf (e' :: rest)
end

end Expr

/-- A call of a function. -/
structure Call where
  place : Place
  name : String
  args : List Expr
  deriving Repr, Inhabited

def Call.text (c : Call) : String := (Expr.call c.place c.name c.args).text

inductive Stmt where
  | assign (place : Place) (name : String) (value : Expr)
  | loop (place : Place) (condition : Expr) (body : List Stmt)
  | ifThen (place : Place) (condition : Expr) (yes : List Stmt)
  | ifElse (place : Place) (condition : Expr) (yes no : List Stmt)
  | print (place : Place) (e : Expr)
  | leave (place : Place) (value : Option Expr)
  | call (c : Call)
  deriving Repr, Inhabited

namespace Stmt

def place : Stmt → Place
  | assign p _ _ | loop p _ _ | ifThen p _ _ | ifElse p _ _ _ | print p _ | leave p _ => p
  | call c => c.place

mutual
def text : Stmt → String
  | assign _ name e => name ++ "=" ++ e.text
  | loop _ e body => "while" ++ e.text ++ "\x7b" ++ textOf body ++ "\x7d"
  | ifThen _ e yes => "if" ++ e.text ++ "\x7b" ++ textOf yes ++ "\x7d"
  | ifElse _ e yes no => "if" ++ e.text ++ "\x7b" ++ textOf yes ++ "\x7d" ++ "else" ++ "\x7b" ++ textOf no ++ "\x7d"
  | print _ e => "print" ++ e.text
  | leave _ none => "return"
  | leave _ (some e) => "return" ++ e.text
  | call c => c.text

def textOf : List Stmt → String
  | [] => ""
  | s :: rest => s.text ++ textOf rest
end

end Stmt

structure VarDec where
  place : Place
  name : String
  type : Declared
  init : Option Expr
  deriving Repr, Inhabited

def VarDec.text (v : VarDec) : String :=
  "var" ++ v.name ++ ":" ++ v.type.name ++ (match v.init with | some e => "=" ++ e.text | none => "")

structure Parameter where
  place : Place
  name : String
  type : Declared
  deriving DecidableEq, Repr, Inhabited

def Parameter.text (p : Parameter) : String := p.name ++ ":" ++ p.type.name

/-- Statements that run one after the other. -/
structure Block where
  place : Place
  statements : List Stmt
  deriving Repr, Inhabited

def Block.text (b : Block) : String := Stmt.textOf b.statements

structure Body where
  declared : List VarDec
  block : Block
  deriving Repr, Inhabited

structure FuncDef where
  name : String
  parameters : List Parameter
  returns : Option Declared
  body : Body
  deriving Repr, Inhabited

namespace FuncDef

/-- The type of what the function returns. -/
def returnType (f : FuncDef) : Ty := (f.returns.map Declared.ty).getD .void

def type (f : FuncDef) : SymbolType := .function (f.parameters.map (·.type.ty)) f.returnType

end FuncDef

structure Script where
  functions : List FuncDef
  main : Body
  deriving Repr, Inhabited

/-- A phrase that can be analysed on its own. -/
inductive Phrase where
  | script (s : Script)
  | funcDef (f : FuncDef)
  | parameter (p : Parameter)
  | main (b : Body)
  | body (b : Body)
  | varBlock (vs : List VarDec)
  | block (b : Block)
  | varDec (v : VarDec)
  | statement (s : Stmt)
  | expr (e : Expr)
  | call (c : Call)
  deriving Repr, Inhabited

/-- A phrase that can be reported on. -/
inductive Node where
  | expr (e : Expr)
  | call (c : Call)
  | varDec (v : VarDec)
  | parameter (p : Parameter)
  | statement (s : Stmt)
  | block (b : Block)
  deriving Repr, Inhabited

namespace Node

def place : Node → Place
  | expr e => e.place
  | call c => c.place
  | varDec v => v.place
  | parameter p => p.place
  | statement s => s.place
  | block b => b.place

def line (n : Node) : Int := n.place.line

def text : Node → String
  | expr e => e.text
  | call c => c.text
  | varDec v => v.text
  | parameter p => p.text
  | statement s => s.text
  | block b => b.text

end Node

end NimbleLang
