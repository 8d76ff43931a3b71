import NimbleLang.Grammar.Form

/-!
The phrase grammar of Nimble as the parser walks it. A rule is a sequence of steps, or a choice among
labelled alternatives, or the expression rule: an operand and then any number of operators with their right
operands. Every step names the state of the network that it is taken in, because errors are reported,
and recovered from, by what the network expects in that state.
-/

namespace NimbleLang.Grammar

inductive Step where
  /-- One token. -/
  | token (state : Int) (type : Int)
  /-- One token out of several, kept as the operator of the phrase. -/
  | operator (state : Int) (types : List Int)
  | phrase (state : Int) (rule : Rule) (precedence : Int)
  /-- The body, if the next token can begin it. -/
  | optional (state : Int) (first : List Int) (body : List Step)
  /-- The body, if the decision says so. -/
  | decided (state : Int) (decision : Int) (body : List Step)
  /-- The body, as long as the next token can begin it. -/
  | many (state again : Int) (first : List Int) (body : List Step)
  deriving Repr, Inhabited

/-- A labelled alternative. -/
structure Alternative where
  form : Form
  steps : List Step
  deriving Repr, Inhabited

/-- What may follow an operand: an operator that is allowed up to a precedence level, and the right operand. -/
structure Tail where
  form : Form
  state : Int
  level : Int
  steps : List Step
  deriving Repr, Inhabited

inductive Body where
  | sequence (steps : List Step)
  | choice (state : Int) (decision : Int) (alternatives : List Alternative)
  /-- An operand, then a loop over the tails. -/
  | operators (state : Int) (decision : Int) (operands : List Alternative)
      (loopState againState : Int) (loopDecision : Int) (tailState : Int) (tailDecision : Int) (tails : List Tail)
  deriving Repr, Inhabited

/-! ## Token types -/

def tFunc : Int := 1
def tOpen : Int := 2
def tComma : Int := 3
def tClose : Int := 4
def tArrow : Int := 5
def tBegin : Int := 6
def tEnd : Int := 7
def tColon : Int := 8
def tVar : Int := 9
def tAssign : Int := 10
def tWhile : Int := 11
def tIf : Int := 12
def tElse : Int := 13
def tPrint : Int := 14
def tReturn : Int := 15
def tNot : Int := 16
def tMinus : Int := 17
def tTimes : Int := 18
def tDivide : Int := 19
def tPlus : Int := 20
def tLess : Int := 21
def tLessEqual : Int := 22
def tEqual : Int := 23
def tString : Int := 24
def tInt : Int := 25
def tType : Int := 26
def tBool : Int := 27
def tId : Int := 28

/-- The tokens a statement can begin with. -/
def statementFirst : List Int := [tWhile, tIf, tPrint, tReturn, tId]

/-- The tokens an expression can begin with. -/
def exprFirst : List Int := [tOpen, tNot, tMinus, tString, tInt, tBool, tId]

/-! ## Rules -/

open Step in
def body : Rule → Body
  | .script => .sequence [
      many 25 27 [tFunc] [phrase 22 .funcDef 0],
      phrase 28 .main 0, token 29 Token.eof]
  | .funcDef => .sequence [
      token 31 tFunc, token 32 tId, token 33 tOpen,
      optional 42 [tId] [
        phrase 34 .parameterDef 0,
        many 39 41 [tComma] [token 35 tComma, phrase 36 .parameterDef 0]],
      token 44 tClose,
      optional 47 [tArrow] [token 45 tArrow, token 46 tType],
      token 49 tBegin, phrase 50 .body 0, token 51 tEnd]
  | .parameterDef => .sequence [token 53 tId, token 54 tColon, token 55 tType]
  | .main => .sequence [phrase 57 .body 0]
  | .body => .sequence [phrase 59 .varBlock 0, phrase 60 .block 0]
  | .varBlock => .sequence [many 65 67 [tVar] [phrase 62 .varDec 0]]
  | .block => .sequence [many 71 73 statementFirst [phrase 68 .statement 0]]
  | .varDec => .sequence [
      token 74 tVar, token 75 tId, token 76 tColon, token 77 tType,
      optional 80 [tAssign] [token 78 tAssign, phrase 79 .expr 0]]
  | .statement => .choice 110 9 [
      ⟨.assignment, [token 82 tId, token 83 tAssign, phrase 84 .expr 0]⟩,
      ⟨.whileLoop, [token 85 tWhile, phrase 86 .expr 0, token 87 tBegin, phrase 88 .block 0, token 89 tEnd]⟩,
      ⟨.conditional, [
        token 91 tIf, phrase 92 .expr 0, token 93 tBegin, phrase 94 .block 0, token 95 tEnd,
        optional 101 [tElse] [token 96 tElse, token 97 tBegin, phrase 98 .block 0, token 99 tEnd]]⟩,
      ⟨.print, [token 103 tPrint, phrase 104 .expr 0]⟩,
      ⟨.returnStatement, [token 105 tReturn, decided 107 8 [phrase 106 .expr 0]]⟩,
      ⟨.callStatement, [phrase 109 .funcCall 0]⟩]
  | .expr => .operators 124 10 [
      ⟨.parens, [token 113 tOpen, phrase 114 .expr 0, token 115 tClose]⟩,
      ⟨.neg, [operator 117 [tNot, tMinus], phrase 118 .expr 9]⟩,
      ⟨.callExpr, [phrase 119 .funcCall 0]⟩,
      ⟨.reference, [token 120 tId]⟩,
      ⟨.stringLiteral, [token 121 tString]⟩,
      ⟨.intLiteral, [token 122 tInt]⟩,
      ⟨.boolLiteral, [token 123 tBool]⟩]
      137 139 12 135 11 [
      ⟨.mulDiv, 126, 8, [operator 127 [tTimes, tDivide], phrase 128 .expr 9]⟩,
      ⟨.addSub, 129, 7, [operator 130 [tMinus, tPlus], phrase 131 .expr 8]⟩,
      ⟨.compare, 132, 6, [operator 133 [tLess, tLessEqual, tEqual], phrase 134 .expr 7]⟩]
  | .funcCall => .sequence [
      token 140 tId, token 141 tOpen,
      optional 150 exprFirst [
        phrase 142 .expr 0,
        many 147 149 [tComma] [token 143 tComma, phrase 144 .expr 0]],
      token 152 tClose]

end NimbleLang.Grammar
