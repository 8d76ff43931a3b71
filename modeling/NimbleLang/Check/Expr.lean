import NimbleLang.Check.Notes
import NimbleLang.Scope.Basic

/-!
The types of expressions. An expression has the type `error` if one of its parts has the wrong type or a name
in it stands for nothing of use. A call is checked against the declared parameters, position by position; where
there are more arguments than parameters, or fewer, the rest is not looked at. A function without a result cannot
stand in an expression.

The one thing that cannot be checked is a call of a variable: there the check fails.
-/

namespace NimbleLang.Check

/-- What a name stands for. -/
abbrev Lookup := String → Option Symbol

/-- The arguments that do not fit the parameters in their positions. -/
def misfits : List (Expr × Ty) → List Ty → List (Expr × Ty × Ty)
  | (e, t) :: args, p :: ps => if t = p then misfits args ps else (e, t, p) :: misfits args ps
  | _, _ => []

def misfitMessage (ms : List (Expr × Ty × Ty)) : String :=
  "ERROR: Argument(s) [" ++ Text.joinWith ", " (ms.map fun (e, t, _) => e.text ++ ":" ++ t.spell) ++
    "] do not match respective expected function parameters types [" ++
    Text.joinWith ", " (ms.map fun (_, _, p) => p.spell) ++ "]."

/-- The type of a call whose arguments have the given types. -/
def callType (look : Lookup) (c : Call) (types : List Ty) : Except Fault (Ty × Notes) :=
  match look c.name with
  | none => .ok (.error, Notes.found (.call c) .invalidCall
      ("ERROR: A function with name " ++ c.name ++ " does not exist. Check spelling or number of inputted arguments."))
  | some s =>
    match s.type with
    | some (.function ps r) =>
      match misfits (c.args.zip types) ps with
      | [] => .ok (r, Notes.none)
      | ms => .ok (.error, Notes.found (.call c) .invalidCall (misfitMessage ms))
    | _ => .error .absent

/-- Checks a call of which the arguments are checked. -/
def closeCall (look : Lookup) (c : Call) (types : List Ty) (notes : Notes) : Except Fault (Ty × Notes) := do
  let (t, more) ← callType look c types
  return (t, notes ++ more ++ Notes.typed (.call c) t)

/-- The type of a name that is used as a variable. -/
def referenceType (look : Lookup) (e : Expr) (name : String) : Ty × Notes :=
  match look name with
  | none => (.error, Notes.found (.expr e) .undefinedName ("Variable [" ++ name ++ "] is undefined."))
  | some s =>
    match s.type with
    | some (.value .error) =>
      (.error, Notes.found (.expr e) .undefinedName ("Variable [" ++ name ++ "] is undefined."))
    | some (.value t) => (t, Notes.none)
    | _ => (.error, Notes.found (.expr e) .functionUsedAsVariable ("Function [" ++ name ++ "] is being used as a variable"))

def signType : Sign → Ty → Ty
  | .minus, .int => .int
  | .not, .bool => .bool
  | _, _ => .error

/-- The type of an operator's result for integers. -/
def resultType : Operator → Ty
  | .less | .lessOrEqual | .equal => .bool
  | _ => .int

def operatorType (op : Operator) (left right : Ty) : Ty :=
  if left = .int ∧ right = .int then resultType op else .error

def operatorMessage (op : Operator) (left right : Ty) : String :=
  match op with
  | .times | .divide => "Can't multiply or divide " ++ left.spell ++ " with/by " ++ right.spell
  | .plus | .minus => "Can't apply " ++ op.text ++ " between non-integer type expression(s)."
  | _ => "Can't compare two non-integer type expressions."

mutual
/-- The type of an expression, and what was found on the way: first what its parts give, then its own. -/
def expr (look : Lookup) : Expr → Except Fault (Ty × Notes)
  | .parens p e => do
    let (t, notes) ← expr look e
    let own : Expr := .parens p e
    return (t, notes ++ Notes.typed (.expr own) t ++ Notes.require (t != .error) (.expr own) .invalidBinaryOp
      ("Parentheses contain expression of type " ++ Ty.error.spell ++ "."))
  | .signed p s e => do
    let (t, notes) ← expr look e
    let own : Expr := .signed p s e
    let result := signType s t
    return (result, notes ++ Notes.typed (.expr own) result ++ Notes.require (result != .error) (.expr own) .invalidNegation
      ("Can't apply " ++ s.text ++ " to [" ++ Ty.error.name ++ "]"))
  | .binary op l r => do
    let (left, notesL) ← expr look l
    let (right, notesR) ← expr look r
    let own : Expr := .binary op l r
    let result := operatorType op left right
    return (result, notesL ++ notesR ++ Notes.typed (.expr own) result ++
      Notes.require (result != .error) (.expr own) .invalidBinaryOp (operatorMessage op left right))
  | .call p name as => do
    let (types, notes) ← args look as
    let (t, notes) ← closeCall look { place := p, name, args := as } types notes
    let own : Expr := .call p name as
    let result := if t = .void then .error else t
    return (result, notes ++ Notes.typed (.expr own) result ++ Notes.require (t != .void) (.expr own) .invalidCall
      "A void type function can not act as an expression.")
  | .reference p name =>
    let (t, notes) := referenceType look (.reference p name) name
    return (t, Notes.typed (.expr (.reference p name)) t ++ notes)
  | .stringLiteral p s => return (.string, Notes.typed (.expr (.stringLiteral p s)) .string)
  | .intLiteral p s => return (.int, Notes.typed (.expr (.intLiteral p s)) .int)
  | .boolLiteral p s => return (.bool, Notes.typed (.expr (.boolLiteral p s)) .bool)

def args (look : Lookup) : List Expr → Except Fault (List Ty × Notes)
  | [] => return ([], Notes.none)
  | e :: rest => do
    let (t, notes) ← expr look e
    let (ts, more) ← args look rest
    return (t :: ts, notes ++ more)
end

def call (look : Lookup) (c : Call) : Except Fault (Ty × Notes) := do
  let (types, notes) ← args look c.args
  closeCall look c types notes

end NimbleLang.Check
