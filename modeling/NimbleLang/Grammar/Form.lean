import NimbleLang.Grammar.Vocabulary

/-!
The phrases of Nimble. A `Rule` is a rule of the grammar; a `Form` is the kind of phrase that a tree node
stands for. Most rules have one form; a statement or an expression has one for each of its alternatives,
and a general one as long as no alternative is chosen. `Form.bare` belongs to no rule.
-/

namespace NimbleLang.Grammar

inductive Rule where
  | script | funcDef | parameterDef | main | body | varBlock | block | varDec | statement | expr | funcCall
  deriving DecidableEq, Repr, Inhabited

namespace Rule

def all : List Rule :=
  [script, funcDef, parameterDef, main, body, varBlock, block, varDec, statement, expr, funcCall]

def index : Rule → Int
  | script => 0
  | funcDef => 1
  | parameterDef => 2
  | main => 3
  | body => 4
  | varBlock => 5
  | block => 6
  | varDec => 7
  | statement => 8
  | expr => 9
  | funcCall => 10

def name (r : Rule) : String := phraseRules.getD r.index.toNat ""

/-- The rule with a name. -/
def named? (name : String) : Option Rule := all.find? (·.name == name)

/-- The state of the network in which a rule starts. -/
def startState (r : Rule) : Int := 2 * r.index

end Rule

inductive Form where
  | script | funcDef | parameterDef | main | body | varBlock | block | varDec
  | statement | assignment | whileLoop | conditional | print | returnStatement | callStatement
  | expr | parens | neg | callExpr | reference | stringLiteral | intLiteral | boolLiteral | mulDiv | addSub | compare
  | funcCall
  | bare
  deriving DecidableEq, Repr, Inhabited

namespace Form

def rule? : Form → Option Rule
  | script => some .script
  | funcDef => some .funcDef
  | parameterDef => some .parameterDef
  | main => some .main
  | body => some .body
  | varBlock => some .varBlock
  | block => some .block
  | varDec => some .varDec
  | statement | assignment | whileLoop | conditional | print | returnStatement | callStatement => some .statement
  | expr | parens | neg | callExpr | reference | stringLiteral | intLiteral | boolLiteral | mulDiv | addSub | compare =>
    some .expr
  | funcCall => some .funcCall
  | bare => none

/-- The number of the form's rule; `-1` without one. -/
def ruleIndex (f : Form) : Int := (f.rule?.map Rule.index).getD (-1)

def name : Form → String
  | script => "Script"
  | funcDef => "FuncDef"
  | parameterDef => "ParameterDef"
  | main => "Main"
  | body => "Body"
  | varBlock => "VarBlock"
  | block => "Block"
  | varDec => "VarDec"
  | statement => "Statement"
  | assignment => "Assignment"
  | whileLoop => "While"
  | conditional => "If"
  | print => "Print"
  | returnStatement => "Return"
  | callStatement => "FuncCallStmt"
  | expr => "Expr"
  | parens => "Parens"
  | neg => "Neg"
  | callExpr => "FuncCallExpr"
  | reference => "Variable"
  | stringLiteral => "StringLiteral"
  | intLiteral => "IntLiteral"
  | boolLiteral => "BoolLiteral"
  | mulDiv => "MulDiv"
  | addSub => "AddSub"
  | compare => "Compare"
  | funcCall => "FuncCall"
  | bare => "ParserRule"

/-- The form a node has when its rule is entered. -/
def ofRule : Rule → Form
  | .script => script
  | .funcDef => funcDef
  | .parameterDef => parameterDef
  | .main => main
  | .body => body
  | .varBlock => varBlock
  | .block => block
  | .varDec => varDec
  | .statement => statement
  | .expr => expr
  | .funcCall => funcCall

/-- Forms of which no alternative is known; nobody is told of them by name. -/
def general : Form → Bool
  | statement | expr | bare => true
  | _ => false

end Form

end NimbleLang.Grammar
