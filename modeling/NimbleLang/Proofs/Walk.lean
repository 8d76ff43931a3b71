import NimbleLang.Proofs.Types

/-!
The analysis as a walk. A walk goes through a script and tells a listener of every phrase, after those inside it; of
functions and of the main part it tells also before. From one event to the next a listener has nothing but its state:
the scopes, the scope it is in, and its notes, from which it reads the types of the phrases inside (`typeOf`).

There are two listeners, one for each phase: `declare` makes the scopes, `check` judges the phrases. In many places
they could fail: there may be no scope to be in, no type noted for a phrase, no type of a name. A walk stops at the
first event that the listener fails at, and remembers where it stopped, and why.
-/

namespace NimbleLang

/-! ## Equality of expressions -/

namespace Expr

mutual
def same : Expr → Expr → Bool
  | parens p e, parens q e' => p == q && same e e'
  | signed p s e, signed q s' e' => p == q && s == s' && same e e'
  | binary op l r, binary op' l' r' => op == op' && same l l' && same r r'
  | call p f as, call q f' as' => p == q && f == f' && sameArgs as as'
  | reference p x, reference q x' => p == q && x == x'
  | stringLiteral p t, stringLiteral q t' => p == q && t == t'
  | intLiteral p t, intLiteral q t' => p == q && t == t'
  | boolLiteral p t, boolLiteral q t' => p == q && t == t'
  | _, _ => false

def sameArgs : List Expr → List Expr → Bool
  | [], [] => true
  | e :: es, e' :: es' => same e e' && sameArgs es es'
  | _, _ => false
end

mutual
theorem same_iff : (e e' : Expr) → (same e e' = true ↔ e = e')
  | parens p e, e' => by cases e' <;> simp [same, same_iff e]
  | signed p s e, e' => by cases e' <;> simp [same, same_iff e, and_assoc]
  | binary op l r, e' => by cases e' <;> simp [same, same_iff l, same_iff r, and_assoc]
  | call p f as, e' => by cases e' <;> simp [same, sameArgs_iff as, and_assoc]
  | reference .., e' | stringLiteral .., e' | intLiteral .., e' | boolLiteral .., e' => by cases e' <;> simp [same]

theorem sameArgs_iff : (es es' : List Expr) → (sameArgs es es' = true ↔ es = es')
  | [], es' => by cases es' <;> simp [sameArgs]
  | e :: es, es' => by cases es' <;> simp [sameArgs, same_iff e, sameArgs_iff es]
end

instance : DecidableEq Expr := fun e e' => decidable_of_iff (same e e' = true) (same_iff e e')

end Expr

deriving instance DecidableEq for Call

namespace Walk

open Typing Check

/-! ## Events -/

/-- What a walk tells a listener. -/
inductive Event where
  | enterFunction (f : FuncDef)
  | exitFunction
  | enterMain
  | exitMain
  /-- The end of a block; `of` is the function that it is the block of. -/
  | exitBlock (statements : List Stmt) (of : Option FuncDef)
  /-- The end of any other phrase. -/
  | exit (node : Node)

def exprEvents (e : Expr) : List Event := (exprNodes e).map .exit

def argEvents (as : List Expr) : List Event := (argNodes as).map .exit

mutual
def stmtEvents : Stmt → List Event
  | .assign p x e => exprEvents e ++ [.exit (.statement (.assign p x e))]
  | .loop p e body =>
    exprEvents e ++ (blockEvents body ++ [.exitBlock body none, .exit (.statement (.loop p e body))])
  | .ifThen p e yes =>
    exprEvents e ++ (blockEvents yes ++ [.exitBlock yes none, .exit (.statement (.ifThen p e yes))])
  | .ifElse p e yes no =>
    exprEvents e ++ (blockEvents yes ++ (.exitBlock yes none ::
      (blockEvents no ++ [.exitBlock no none, .exit (.statement (.ifElse p e yes no))])))
  | .print p e => exprEvents e ++ [.exit (.statement (.print p e))]
  | .leave p none => [.exit (.statement (.leave p none))]
  | .leave p (some e) => exprEvents e ++ [.exit (.statement (.leave p (some e)))]
  | .call c => argEvents c.args ++ [.exit (.call c), .exit (.statement (.call c))]

def blockEvents : List Stmt → List Event
  | [] => []
  | s :: rest => stmtEvents s ++ blockEvents rest
end

def varDecEvents (v : VarDec) : List Event := v.init.elim [] exprEvents ++ [.exit (.varDec v)]

def bodyEvents (of : Option FuncDef) (b : Body) : List Event :=
  b.declared.flatMap varDecEvents ++ (blockEvents b.block.statements ++ [.exitBlock b.block.statements of])

def functionEvents (f : FuncDef) : List Event :=
  .enterFunction f :: (f.parameters.map (fun p => .exit (.parameter p)) ++
    (bodyEvents (some f) f.body ++ [.exitFunction]))

def mainEvents (b : Body) : List Event := .enterMain :: (bodyEvents none b ++ [.exitMain])

def scriptEvents (s : Script) : List Event := s.functions.flatMap functionEvents ++ mainEvents s.main

/-! ## Walks -/

structure State where
  scopes : Scopes
  /-- The scope the walk is in. -/
  current : Option Nat
  notes : Notes := {}

/-- Where a walk stopped: the event the listener failed at, why, and its state before. -/
structure Stop where
  event : Event
  fault : Fault
  state : State

/-- Tells a listener of events, one after the other, up to the first that it fails at. -/
def walk (listener : State → Event → Except Fault State) : State → List Event → Except Stop State
  | st, [] => .ok st
  | st, e :: es =>
    match listener st e with
    | .ok st' => walk listener st' es
    | .error f => .error ⟨e, f, st⟩

section

variable {listener : State → Event → Except Fault State} {st st' : State} {es : List Event}

theorem walk_append (es' : List Event) :
    walk listener st (es ++ es') = walk listener st es >>= fun st' => walk listener st' es' := by
  induction es generalizing st with
  | nil => rfl
  | cons e es ih =>
    rw [List.cons_append, walk, walk]
    cases listener st e with
    | error f => rfl
    | ok st' => exact ih

theorem walk_append_ok (h : walk listener st es = .ok st') (es' : List Event) :
    walk listener st (es ++ es') = walk listener st' es' := by
  rw [walk_append, h]
  rfl

/-- A walk stops at an event that it comes to in the state it stopped in. -/
theorem walk_eq_error {stop : Stop} : walk listener st es = .error stop ↔
    ∃ before after, es = before ++ stop.event :: after ∧ walk listener st before = .ok stop.state ∧
      listener stop.state stop.event = .error stop.fault := by
  constructor
  · intro h
    induction es generalizing st with
    | nil => cases h
    | cons e es ih =>
      rw [walk] at h
      cases hl : listener st e with
      | error f =>
        rw [hl] at h
        cases h
        exact ⟨[], es, rfl, rfl, hl⟩
      | ok st' =>
        rw [hl] at h
        obtain ⟨before, after, rfl, hb, hf⟩ := ih h
        refine ⟨e :: before, after, rfl, ?_, hf⟩
        rw [walk, hl]
        exact hb
  · intro h
    obtain ⟨before, after, rfl, hb, hf⟩ := h
    rw [walk_append_ok hb, walk, hf]

end

/-! ## The state of a listener -/

/-- The type of a name, by which it is declared. -/
def named (d : Declared) : Except Fault Ty := Fault.unknownKey.unless (Ty.named? d.name)

theorem named_eq (d : Declared) : named d = .ok d.ty := by
  cases d <;> rfl

/-- The type noted last for a phrase. -/
def lastNoted (types : List (Node × Ty)) (isIt : Node → Bool) : Option Ty :=
  (types.reverse.find? fun q => isIt q.1).map (·.2)

def isExpr (e : Expr) : Node → Bool
  | .expr e' => e' = e
  | _ => false

def isCall (c : Call) : Node → Bool
  | .call c' => c' = c
  | _ => false

namespace State

variable (st : State)

def here : Except Fault Nat := Fault.absent.unless st.current

def note (n : Notes) : State := { st with notes := st.notes ++ n }

def typeOf (e : Expr) : Except Fault Ty := Fault.unknownKey.unless (lastNoted st.notes.types (isExpr e))

def typesOf : List Expr → Except Fault (List Ty)
  | [] => .ok []
  | e :: rest => do return (← st.typeOf e) :: (← typesOf rest)

def typeOfCall (c : Call) : Except Fault Ty := Fault.unknownKey.unless (lastNoted st.notes.types (isCall c))

/-- Notes the type of an expression, and a finding unless all is well. -/
def judge (own : Expr) (t : Ty) (well : Bool) (category : Category) (message : String) : State :=
  st.note (Notes.typed (.expr own) t ++ Notes.require well (.expr own) category message)

/-- Replaces scope `n`, with notes. -/
def enter (n : Nat) (r : Scope × Notes) : State :=
  { st with scopes := st.scopes.update n fun _ => r.1, notes := st.notes ++ r.2 }

end State

/-! ## The first phase -/

/-- Makes the scopes. -/
def declare (st : State) : Event → Except Fault State
  | .enterFunction f => do
    let n ← st.here
    let ps ← f.parameters.mapM fun p => named p.type
    let r ← f.returns.elim (.ok .void) named
    .ok { st with scopes := (st.scopes.define n f.name (some (.function ps r)) false).createChild n f.name
                              (some (.value r)) }
  | .enterMain => do
    let n ← st.here
    .ok { st with scopes := st.scopes.createChild n "$main" (some (.value .void)), current := some st.scopes.size }
  | .exitMain => do
    let n ← st.here
    .ok { st with current := st.scopes.enclosing n }
  | _ => .ok st

/-! ## The second phase -/

def checkExpr (st : State) : Expr → Except Fault State
  | .parens p e => do
    let t ← st.typeOf e
    .ok (st.judge (.parens p e) t (t != .error) .invalidBinaryOp
      ("Parentheses contain expression of type " ++ Ty.error.spell ++ "."))
  | .signed p s e => do
    let t ← st.typeOf e
    .ok (st.judge (.signed p s e) (signType s t) (signType s t != .error) .invalidNegation
      ("Can't apply " ++ s.text ++ " to [" ++ Ty.error.name ++ "]"))
  | .binary op l r => do
    let left ← st.typeOf l
    let right ← st.typeOf r
    .ok (st.judge (.binary op l r) (operatorType op left right) (operatorType op left right != .error) .invalidBinaryOp
      (operatorMessage op left right))
  | .call p f as => do
    let t ← st.typeOfCall ⟨p, f, as⟩
    .ok (st.judge (.call p f as) (if t = .void then .error else t) (t != .void) .invalidCall
      "A void type function can not act as an expression.")
  | .reference p x => do
    let n ← st.here
    let (t, notes) := referenceType (st.scopes.resolve n) (.reference p x) x
    .ok (st.note (Notes.typed (.expr (.reference p x)) t ++ notes))
  | .stringLiteral p t => .ok (st.note (Notes.typed (.expr (.stringLiteral p t)) .string))
  | .intLiteral p t => .ok (st.note (Notes.typed (.expr (.intLiteral p t)) .int))
  | .boolLiteral p t => .ok (st.note (Notes.typed (.expr (.boolLiteral p t)) .bool))

def checkCall (st : State) (c : Call) : Except Fault State := do
  let n ← st.here
  let types ← st.typesOf c.args
  let (t, notes) ← callType (st.scopes.resolve n) c types
  .ok (st.note (notes ++ Notes.typed (.call c) t))

def checkParameter (st : State) (p : Parameter) : Except Fault State := do
  let n ← st.here
  let _ ← named p.type
  .ok (st.enter n (parameter (st.scopes.scope n) p))

def checkVarDec (st : State) (v : VarDec) : Except Fault State := do
  let n ← st.here
  let _ ← named v.type
  let value ← v.init.elim (.ok none) fun e => do return some (← st.typeOf e)
  .ok (st.enter n (closeVarDec (st.scopes.scope n) v value))

def checkStmt (st : State) : Stmt → Except Fault State
  | .assign p x e => do
    let t ← st.typeOf e
    let n ← st.here
    .ok (st.note (assignment (st.scopes.resolve n) (.assign p x e) x t))
  | .loop p e body => do
    let t ← st.typeOf e
    .ok (st.note (loopCondition (.loop p e body) t))
  | .ifThen p e yes => do
    let t ← st.typeOf e
    .ok (st.note (ifCondition (.ifThen p e yes) e t))
  | .ifElse p e yes no => do
    let t ← st.typeOf e
    .ok (st.note (ifCondition (.ifElse p e yes no) e t))
  | .print p e => do
    let t ← st.typeOf e
    .ok (st.note (Notes.require (t != .error) (.statement (.print p e)) .unprintableExpression
      ("Can't print expression of type " ++ Ty.error.spell ++ ".")))
  | .leave p none => do
    let n ← st.here
    .ok (st.note (returned (st.scopes.scope n).returns (.leave p none) none))
  | .leave p (some e) => do
    let n ← st.here
    let t ← st.typeOf e
    .ok (st.note (returned (st.scopes.scope n).returns (.leave p (some e)) (some t)))
  | .call _ => .ok st

/-- What is found at the end of a function's block. -/
def missing (of : Option FuncDef) : List Finding :=
  of.elim [] fun f => if f.returns.isSome then missingReturn f.body.block else []

/-- Judges the phrases. -/
def check (st : State) : Event → Except Fault State
  | .enterFunction f => do
    let n ← st.here
    .ok { st with current := st.scopes.childNamed n f.name }
  | .enterMain => do
    let n ← st.here
    .ok { st with current := st.scopes.childNamed n "$main" }
  | .exitFunction | .exitMain => do
    let n ← st.here
    .ok { st with current := st.scopes.enclosing n }
  | .exitBlock statements of => .ok (st.note (Notes.ofFindings (markAfterStop statements ++ missing of)))
  | .exit (.expr e) => checkExpr st e
  | .exit (.call c) => checkCall st c
  | .exit (.varDec v) => checkVarDec st v
  | .exit (.parameter p) => checkParameter st p
  | .exit (.statement s) => checkStmt st s
  | .exit (.block _) => .ok st

end Walk

end NimbleLang
