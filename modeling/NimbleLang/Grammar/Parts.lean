import NimbleLang.Grammar.Phrases

/-!
The named parts of each form: a token, a phrase that comes once, or phrases that come any number of times.
-/

namespace NimbleLang.Grammar

inductive Part where
  | token (type : Int)
  | one (rule : Rule)
  | many (rule : Rule)
  deriving DecidableEq, Repr, Inhabited

namespace Part

def name : Part → String
  | token t => if t = Token.eof then "EOF" else vocabulary.symbolic.getD t.toNat ""
  | one r | many r => r.name

end Part

/-- The parts that can be asked for by name. A form whose alternative is not known has none. -/
def Form.parts : Form → List Part
  | .script => [.one .main, .token Token.eof, .many .funcDef]
  | .funcDef => [.token tId, .one .body, .many .parameterDef, .token tType]
  | .parameterDef => [.token tId, .token tType]
  | .main => [.one .body]
  | .body => [.one .varBlock, .one .block]
  | .varBlock => [.many .varDec]
  | .block => [.many .statement]
  | .varDec => [.token tId, .token tType, .one .expr]
  | .assignment => [.token tId, .one .expr]
  | .whileLoop => [.one .expr, .one .block]
  | .conditional => [.one .expr, .many .block]
  | .print | .returnStatement | .parens | .neg => [.one .expr]
  | .callStatement | .callExpr => [.one .funcCall]
  | .reference => [.token tId]
  | .stringLiteral => [.token tString]
  | .intLiteral => [.token tInt]
  | .boolLiteral => [.token tBool]
  | .mulDiv | .addSub | .compare => [.many .expr]
  | .funcCall => [.token tId, .many .expr]
  | .statement | .expr | .bare => []

def Form.part? (f : Form) (name : String) : Option Part := f.parts.find? (·.name == name)

/-- Forms that keep an operator. -/
def Form.hasOperator : Form → Bool
  | .neg | .mulDiv | .addSub | .compare => true
  | _ => false

def Form.all : List Form :=
  [.script, .funcDef, .parameterDef, .main, .body, .varBlock, .block, .varDec, .statement, .assignment, .whileLoop,
    .conditional, .print, .returnStatement, .callStatement, .expr, .parens, .neg, .callExpr, .reference,
    .stringLiteral, .intLiteral, .boolLiteral, .mulDiv, .addSub, .compare, .funcCall]

def Form.named? (name : String) : Option Form := Form.all.find? (·.name == name)

/-- Whether a form is the given one; a general form stands for every form of its rule. -/
def Form.isA (f kind : Form) : Bool := f == kind || (kind.general && f.rule? == kind.rule?)

end NimbleLang.Grammar
