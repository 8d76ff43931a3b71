import NimbleLang.Phrase.Basic
import NimbleLang.Tree.Basic

/-!
Programs from parse trees. A tree without complaints follows the grammar, and every such tree has a phrase; a tree
that was recovered need not have one.
-/

namespace NimbleLang

namespace Tree

/-- Where a token is. -/
def placeOf (t : Token) : Place := { line := t.line.getD 0, index := t.index }

/-- Where a phrase begins. -/
def startOf (l : Label) : Option Place := l.start.map placeOf

mutual
def toExpr? : Tree → Option Expr
  | .node l cs =>
    match l.form, cs with
    | .parens, [.leaf t, e, .leaf _] => do return .parens (placeOf t) (← toExpr? e)
    | .neg, [.leaf t, e] => do return .signed (placeOf t) (← Sign.named? (← t.text?)) (← toExpr? e)
    | .mulDiv, [a, .leaf t, b] | .addSub, [a, .leaf t, b] | .compare, [a, .leaf t, b] => do
      return .binary (← Operator.named? (← t.text?)) (← toExpr? a) (← toExpr? b)
    | .callExpr, [.node _ (.leaf t :: .leaf _ :: rest)] => do return .call (placeOf t) (← t.text?) (← toArgs? rest)
    | .reference, [.leaf t] => do return .reference (placeOf t) (← t.text?)
    | .stringLiteral, [.leaf t] => do return .stringLiteral (placeOf t) (← t.text?)
    | .intLiteral, [.leaf t] => do return .intLiteral (placeOf t) (← t.text?)
    | .boolLiteral, [.leaf t] => do return .boolLiteral (placeOf t) (← t.text?)
    | _, _ => none
  | _ => none

/-- The expressions among some trees; the tokens between them are left out. -/
def toArgs? : List Tree → Option (List Expr)
  | [] => some []
  | .node l cs :: rest => do return (← toExpr? (.node l cs)) :: (← toArgs? rest)
  | _ :: rest => toArgs? rest
end

def toCall? : Tree → Option Call
  | .node _ (.leaf t :: .leaf _ :: rest) => do return { place := placeOf t, name := ← t.text?, args := ← toArgs? rest }
  | _ => none

mutual
def toStmt? : Tree → Option Stmt
  | .node l cs => do
    let place ← startOf l
    match l.form, cs with
    | .assignment, [.leaf t, .leaf _, e] => return .assign place (← t.text?) (← toExpr? e)
    | .whileLoop, [.leaf _, e, .leaf _, .node _ body, .leaf _] => return .loop place (← toExpr? e) (← toStmts? body)
    | .conditional, [.leaf _, e, .leaf _, .node _ yes, .leaf _] => return .ifThen place (← toExpr? e) (← toStmts? yes)
    | .conditional, [.leaf _, e, .leaf _, .node _ yes, .leaf _, .leaf _, .leaf _, .node _ no, .leaf _] =>
      return .ifElse place (← toExpr? e) (← toStmts? yes) (← toStmts? no)
    | .print, [.leaf _, e] => return .print place (← toExpr? e)
    | .returnStatement, [.leaf _] => return .leave place none
    | .returnStatement, [.leaf _, e] => return .leave place (some (← toExpr? e))
    | .callStatement, [c] => return .call (← toCall? c)
    | _, _ => none
  | _ => none

def toStmts? : List Tree → Option (List Stmt)
  | [] => some []
  | t :: rest => do return (← toStmt? t) :: (← toStmts? rest)
end

def toBlock? : Tree → Option Block
  | .node l cs => do return { place := ← startOf l, statements := ← toStmts? cs }
  | _ => none

def declared? (t : Token) : Option Declared := do Declared.named? (← t.text?)

def toVarDec? : Tree → Option VarDec
  | .node l [.leaf _, .leaf name, .leaf _, .leaf type] => do
    return { place := ← startOf l, name := ← name.text?, type := ← declared? type, init := none }
  | .node l [.leaf _, .leaf name, .leaf _, .leaf type, .leaf _, e] => do
    return { place := ← startOf l, name := ← name.text?, type := ← declared? type, init := some (← toExpr? e) }
  | _ => none

def toVarBlock? : Tree → Option (List VarDec)
  | .node _ cs => cs.mapM toVarDec?
  | _ => none

def toBody? : Tree → Option Body
  | .node _ [vs, b] => do return { declared := ← toVarBlock? vs, block := ← toBlock? b }
  | _ => none

def toParameter? : Tree → Option Parameter
  | .node l [.leaf name, .leaf _, .leaf type] => do
    return { place := ← startOf l, name := ← name.text?, type := ← declared? type }
  | _ => none

/-- The rest of a function after its parameters. -/
def toRest? : List Tree → Option (Option Declared × Body)
  | [.leaf _, .leaf _, body, .leaf _] => do return (none, ← toBody? body)
  | [.leaf _, .leaf _, .leaf type, .leaf _, body, .leaf _] => do return (some (← declared? type), ← toBody? body)
  | _ => none

/-- The parameters of a function, and what comes after them. -/
def toParameters? : List Tree → Option (List Parameter × List Tree)
  | .node l cs :: .leaf t :: rest => do
    let p ← toParameter? (.node l cs)
    if t.text? = some "," then
      let (ps, rest) ← toParameters? rest
      return (p :: ps, rest)
    else return ([p], .leaf t :: rest)
  | ts => some ([], ts)

def toFuncDef? : Tree → Option FuncDef
  | .node _ (.leaf _ :: .leaf name :: .leaf _ :: rest) => do
    let (parameters, rest) ← toParameters? rest
    let (returns, body) ← toRest? rest
    return { name := ← name.text?, parameters, returns, body }
  | _ => none

def toMain? : Tree → Option Body
  | .node _ [b] => toBody? b
  | _ => none

/-- Functions up to the main part. -/
def toFunctions? : List Tree → Option (List FuncDef × Body)
  | [m, .leaf _] => do return ([], ← toMain? m)
  | f :: rest => do
    let (fs, m) ← toFunctions? rest
    return ((← toFuncDef? f) :: fs, m)
  | [] => none

def toScript? : Tree → Option Script
  | .node _ cs => do
    let (functions, main) ← toFunctions? cs
    return { functions, main }
  | _ => none

/-- The phrase of a tree that was parsed by a rule. -/
def toPhrase? (rule : Grammar.Rule) (t : Tree) : Option Phrase :=
  match rule with
  | .script => t.toScript?.map .script
  | .funcDef => t.toFuncDef?.map .funcDef
  | .parameterDef => t.toParameter?.map .parameter
  | .main => t.toMain?.map .main
  | .body => t.toBody?.map .body
  | .varBlock => t.toVarBlock?.map .varBlock
  | .block => t.toBlock?.map .block
  | .varDec => t.toVarDec?.map .varDec
  | .statement => t.toStmt?.map .statement
  | .expr => t.toExpr?.map .expr
  | .funcCall => t.toCall?.map .call

end Tree

end NimbleLang
