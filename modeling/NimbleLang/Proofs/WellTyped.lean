import Mathlib.Data.List.Forall2
import Mathlib.Logic.Function.Basic
import NimbleLang.Proofs.Paths

/-!
The rules a script has to keep, said without the checks. `HasType` gives types to expressions from the bottom up,
`Accepted` judges statements, `Declares` the first values of variables, and `WellTyped` is all that a script is
judged by: names declared once in a body, first values of the declared types, accepted statements, no statement that
no way leads to, and no way to the end of a function that has to return something.

A context says what a name means. In a body its own names come first, then the functions. An argument without a
parameter has to have a type, but it may be any; a parameter without an argument is not looked at.
-/

namespace NimbleLang

/-- What a name means. -/
inductive Meaning where
  | value (type : Declared)
  | function (parameters : List Declared) (returns : Option Declared)
  deriving DecidableEq, Repr, Inhabited

abbrev Meanings := String → Option Meaning

namespace Meanings

def declare (Γ : Meanings) (x : String) (τ : Declared) : Meanings := Function.update Γ x (some (.value τ))

def parameters (Γ : Meanings) (ps : List Parameter) : Meanings := ps.foldl (fun Γ p => Γ.declare p.name p.type) Γ

def varDecs (Γ : Meanings) (vs : List VarDec) : Meanings := vs.foldl (fun Γ v => Γ.declare v.name v.type) Γ

end Meanings

/-- What a function means to its callers. -/
def FuncDef.meaning (f : FuncDef) : Meaning := .function (f.parameters.map (·.type)) f.returns

/-- What names mean outside of all bodies. -/
def Script.meanings (s : Script) : Meanings := fun x => (s.functions.find? (·.name = x)).map FuncDef.meaning

/-! ## Expressions -/

/-- Where an argument and a parameter stand in the same position, their types are the same. -/
def Fit (given wanted : List Declared) : Prop := ∀ q ∈ given.zip wanted, q.1 = q.2

inductive HasType (Γ : Meanings) : Expr → Declared → Prop
  | parens {p e τ} : HasType Γ e τ → HasType Γ (.parens p e) τ
  | minus {p e} : HasType Γ e .int → HasType Γ (.signed p .minus e) .int
  | not {p e} : HasType Γ e .bool → HasType Γ (.signed p .not e) .bool
  | arithmetic {op l r} : op ∈ [.times, .divide, .plus, .minus] → HasType Γ l .int → HasType Γ r .int →
      HasType Γ (.binary op l r) .int
  | comparison {op l r} : op ∈ [.less, .lessOrEqual, .equal] → HasType Γ l .int → HasType Γ r .int →
      HasType Γ (.binary op l r) .bool
  | call {p f as ps τ τs} : Γ f = some (.function ps (some τ)) → List.Forall₂ (HasType Γ) as τs → Fit τs ps →
      HasType Γ (.call p f as) τ
  | reference {p x τ} : Γ x = some (.value τ) → HasType Γ (.reference p x) τ
  | string {p t} : HasType Γ (.stringLiteral p t) .string
  | int {p t} : HasType Γ (.intLiteral p t) .int
  | bool {p t} : HasType Γ (.boolLiteral p t) .bool

/-! ## Statements and declarations -/

/-- A statement of a body that returns what `returns` says, if anything. -/
inductive Accepted (Γ : Meanings) (returns : Option Declared) : Stmt → Prop
  | assign {p x e τ} : Γ x = some (.value τ) → HasType Γ e τ → Accepted Γ returns (.assign p x e)
  | loop {p e body} : HasType Γ e .bool → (∀ s ∈ body, Accepted Γ returns s) → Accepted Γ returns (.loop p e body)
  | ifThen {p e yes} : HasType Γ e .bool → (∀ s ∈ yes, Accepted Γ returns s) → Accepted Γ returns (.ifThen p e yes)
  | ifElse {p e yes no} : HasType Γ e .bool → (∀ s ∈ yes, Accepted Γ returns s) → (∀ s ∈ no, Accepted Γ returns s) →
      Accepted Γ returns (.ifElse p e yes no)
  | print {p e τ} : HasType Γ e τ → Accepted Γ returns (.print p e)
  | leave {p} : returns = none → Accepted Γ returns (.leave p none)
  | leaveWith {p e τ} : returns = some τ → HasType Γ e τ → Accepted Γ returns (.leave p (some e))
  | call {c ps r τs} : Γ c.name = some (.function ps r) → List.Forall₂ (HasType Γ) c.args τs → Fit τs ps →
      Accepted Γ returns (.call c)

/-- Every first value is of the declared type, in the context of the declarations before it. -/
inductive Declares : Meanings → List VarDec → Prop
  | nil {Γ} : Declares Γ []
  | cons {Γ v vs} : (∀ e, v.init = some e → HasType Γ e v.type) → Declares (Γ.declare v.name v.type) vs →
      Declares Γ (v :: vs)

/-! ## Bodies and scripts -/

structure Body.WellTyped (Γ : Meanings) (parameters : List Parameter) (returns : Option Declared) (b : Body) : Prop where
  distinct : (parameters.map (·.name) ++ b.declared.map (·.name)).Nodup
  declared : Declares (Γ.parameters parameters) b.declared
  accepted : ∀ s ∈ b.block.statements, Accepted ((Γ.parameters parameters).varDecs b.declared) returns s
  reached : ∀ q ∈ b.block.spots, b.block.Reaches q.address
  returning : returns.isSome → ¬ b.block.FallsOff

structure Script.WellTyped (s : Script) : Prop where
  functions : ∀ f ∈ s.functions, f.body.WellTyped s.meanings f.parameters f.returns
  main : s.main.WellTyped s.meanings [] none

/-! ## Calls of variables -/

mutual
/-- The names called in an expression. -/
def Expr.callees : Expr → List String
  | .parens _ e | .signed _ _ e => e.callees
  | .binary _ l r => l.callees ++ r.callees
  | .call _ f as => argCallees as ++ [f]
  | _ => []

def Expr.argCallees : List Expr → List String
  | [] => []
  | e :: rest => e.callees ++ argCallees rest
end

mutual
/-- The names called in a statement. -/
def Stmt.callees : Stmt → List String
  | .assign _ _ e | .print _ e | .leave _ (some e) => e.callees
  | .loop _ e body => e.callees ++ blockCallees body
  | .ifThen _ e yes => e.callees ++ blockCallees yes
  | .ifElse _ e yes no => e.callees ++ blockCallees yes ++ blockCallees no
  | .leave _ none => []
  | .call c => Expr.argCallees c.args ++ [c.name]

def Stmt.blockCallees : List Stmt → List String
  | [] => []
  | s :: rest => s.callees ++ blockCallees rest
end

/-- No first value calls a name that is declared before it. -/
def InitialCalls : List String → List VarDec → Prop
  | _, [] => True
  | names, v :: vs => (∀ f ∈ v.init.elim [] Expr.callees, f ∉ names) ∧ InitialCalls (names ++ [v.name]) vs

instance InitialCalls.decide : (names : List String) → (vs : List VarDec) → Decidable (InitialCalls names vs)
  | _, [] => instDecidableTrue
  | names, v :: vs =>
    have := InitialCalls.decide (names ++ [v.name]) vs
    inferInstanceAs (Decidable (_ ∧ _))

/-- No call in a body is of a name that is a parameter or a variable there. -/
def Body.CallsFunctions (parameters : List String) (b : Body) : Prop :=
  InitialCalls parameters b.declared ∧
    ∀ f ∈ Stmt.blockCallees b.block.statements, f ∉ parameters ++ b.declared.map (·.name)

instance (parameters : List String) (b : Body) : Decidable (b.CallsFunctions parameters) :=
  inferInstanceAs (Decidable (_ ∧ _))

/-- No call in a script is of a name that is a parameter or a variable where it is called. -/
def Script.CallsFunctions (s : Script) : Prop :=
  (∀ f ∈ s.functions, f.body.CallsFunctions (f.parameters.map (·.name))) ∧ s.main.CallsFunctions []

instance (s : Script) : Decidable s.CallsFunctions := inferInstanceAs (Decidable (_ ∧ _))

/-- The scopes of a script have different names. That no function is named like the main part is asked of a script; in a
    source it cannot be, as no rule of the lexer matches `$main`. -/
def Script.NamesDistinct (s : Script) : Prop := (s.functions.map (·.name)).Nodup ∧ ∀ f ∈ s.functions, f.name ≠ "$main"

instance (s : Script) : Decidable s.NamesDistinct := inferInstanceAs (Decidable (_ ∧ _))

end NimbleLang
