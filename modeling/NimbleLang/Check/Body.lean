import NimbleLang.Check.Expr
import NimbleLang.Check.Flow

/-!
Checking declarations and statements. Declarations change the scope they stand in; a name that is declared again, or
with a value of another type, gets the type `error`. Statements leave the scope as it is.
-/

namespace NimbleLang.Check

/-- What names stand for in a scope, with what they stand for around it. -/
def lookIn (outer : Lookup) (s : Scope) : Lookup := fun name =>
  match s.find? name with
  | some x => some x
  | none => outer name

/-! ## Declarations -/

/-- Enters that a name of this scope is declared again. -/
def duplicate (s : Scope) (node : Node) (name : String) : Scope × Notes :=
  (s.defineValue name .error false, Notes.found node .duplicateName
    ("Previously declared variable already has name[" ++ name ++ "]. No duplicates are allowed."))

def parameter (s : Scope) (p : Parameter) : Scope × Notes :=
  match s.find? p.name with
  | some _ => duplicate s (.parameter p) p.name
  | none => (s.defineValue p.name p.type.ty true, Notes.none)

def parameters (s : Scope) : List Parameter → Scope × Notes
  | [] => (s, Notes.none)
  | p :: rest =>
    let (s, notes) := parameter s p
    let (s, more) := parameters s rest
    (s, notes ++ more)

/-- A declared variable takes its place in the scope, unless its name is taken. -/
def enterVariable (s : Scope) (v : VarDec) : Scope × Notes × Bool :=
  match s.find? v.name with
  | some _ =>
    let (s, notes) := duplicate s (.varDec v) v.name
    (s, notes, true)
  | none => (s, Notes.none, false)

def varDec (outer : Lookup) (s : Scope) (v : VarDec) : Except Fault (Scope × Notes) := do
  let (value, notes) ← match v.init with
    | some e => do
      let (t, notes) ← expr (lookIn outer s) e
      pure (some t, notes)
    | none => pure (none, Notes.none)
  let (s, doubled, taken) := enterVariable s v
  let plain : Scope := if taken then s else s.defineValue v.name v.type.ty false
  match value with
  | none => return (plain, notes ++ doubled)
  | some t =>
    if t = v.type.ty then return (plain, notes ++ doubled)
    else
      return (s.defineValue v.name .error false, notes ++ doubled ++ Notes.typed (.varDec v) .error ++
        Notes.found (.varDec v) .assignToWrongType ("Can't assign " ++ t.spell ++ " to variable of type " ++ v.type.name))

def varDecs (outer : Lookup) (s : Scope) : List VarDec → Except Fault (Scope × Notes)
  | [] => return (s, Notes.none)
  | v :: rest => do
    let (s, notes) ← varDec outer s v
    let (s, more) ← varDecs outer s rest
    return (s, notes ++ more)

/-! ## Statements -/

def assignment (look : Lookup) (own : Stmt) (name : String) (t : Ty) : Notes :=
  match look name with
  | none => Notes.found (.statement own) .undefinedName ("Can't assign value to undefined variable [" ++ name ++ "]")
  | some s => Notes.require (s.type == some (.value t)) (.statement own) .assignToWrongType
      ("Can't assign value of type " ++ t.spell ++ " to variable [" ++ name ++ "] of type " ++ spellType s.type ++ ".")

/-- Checks what is returned against the type that has to be returned; `none` is no value. -/
def returned (returns : Option SymbolType) (own : Stmt) (value : Option Ty) : Notes :=
  let wrong (message : String) : Notes := Notes.found (.statement own) .invalidReturn message
  if returns = some (.value .void) then
    match value with
    | some _ => wrong ("ERROR: Function declaration has return type (" ++ Ty.void.spell ++ ").")
    | none => Notes.none
  else
    match value with
    | none => wrong "ERROR: Function of type void cannot return something."
    | some t =>
      if returns = some (.value t) then Notes.none
      else wrong ("ERROR: Type returned (" ++ t.spell ++ ") does not match function declaration type (" ++
        spellType returns ++ ").")

def loopCondition (own : Stmt) (t : Ty) : Notes :=
  Notes.require (t == .bool) (.statement own) .conditionNotBool ("Type " ++ t.spell ++ " is not of type bool")

def ifCondition (own : Stmt) (condition : Expr) (t : Ty) : Notes :=
  Notes.require (t == .bool) (.statement own) .conditionNotBool
    ("if-statement condition [" ++ condition.text ++ "] can only be of type " ++ Ty.bool.spell ++ ", not " ++ t.spell ++ ".")

mutual
/-- Checks a statement: its expressions, then the blocks inside, then the statement itself. -/
def statement (look : Lookup) (returns : Option SymbolType) : Stmt → Except Fault Notes
  | .assign p name e => do
    let (t, notes) ← expr look e
    return notes ++ assignment look (.assign p name e) name t
  | .loop p e body => do
    let (t, notes) ← expr look e
    let inner ← statements look returns body
    return notes ++ inner ++ Notes.ofFindings (markAfterStop body) ++ loopCondition (.loop p e body) t
  | .ifThen p e yes => do
    let (t, notes) ← expr look e
    let inner ← statements look returns yes
    return notes ++ inner ++ Notes.ofFindings (markAfterStop yes) ++ ifCondition (.ifThen p e yes) e t
  | .ifElse p e yes no => do
    let (t, notes) ← expr look e
    let innerYes ← statements look returns yes
    let innerNo ← statements look returns no
    return notes ++ innerYes ++ Notes.ofFindings (markAfterStop yes) ++ innerNo ++ Notes.ofFindings (markAfterStop no) ++
      ifCondition (.ifElse p e yes no) e t
  | .print p e => do
    let (t, notes) ← expr look e
    return notes ++ Notes.require (t != .error) (.statement (.print p e)) .unprintableExpression
      ("Can't print expression of type " ++ Ty.error.spell ++ ".")
  | .leave p none => return returned returns (.leave p none) none
  | .leave p (some e) => do
    let (t, notes) ← expr look e
    return notes ++ returned returns (.leave p (some e)) (some t)
  | .call c => do
    let (_, notes) ← call look c
    return notes

def statements (look : Lookup) (returns : Option SymbolType) : List Stmt → Except Fault Notes
  | [] => return Notes.none
  | s :: rest => do
    let notes ← statement look returns s
    let more ← statements look returns rest
    return notes ++ more
end

/-- Checks a block with what can be reached in it. -/
def block (look : Lookup) (returns : Option SymbolType) (b : Block) : Except Fault Notes := do
  let notes ← statements look returns b.statements
  return notes ++ Notes.ofFindings (markAfterStop b.statements)

/-- Checks a body in a scope; yields the scope with the variables of the body. -/
def body (outer : Lookup) (s : Scope) (b : Body) : Except Fault (Scope × Notes) := do
  let (s, notes) ← varDecs outer s b.declared
  let more ← block (lookIn outer s) s.returns b.block
  return (s, notes ++ more)

/-- Checks a function in its scope. One that declares a type to return has to return. -/
def function (outer : Lookup) (s : Scope) (f : FuncDef) : Except Fault (Scope × Notes) := do
  let (s, notes) := parameters s f.parameters
  let (s, more) ← body outer s f.body
  return (s, notes ++ more ++ Notes.ofFindings (if f.returns.isSome then missingReturn f.body.block else []))

end NimbleLang.Check
