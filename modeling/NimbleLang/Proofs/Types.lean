import NimbleLang.Proofs.Rooms

/-!
The types an analysis gives to expressions are those of a reference that knows no notes and no faults. `typeOf` is
a plain recursion on an expression, given what names stand for; what names stand for in a body is followed from
declaration to declaration (`Locals`). A name that is declared again, or whose first value is of another type than
declared, has the type `error` from there on.

Functions of one name share what is declared in them: the next one of the name goes on where the last one ended. So
does the main part, but no function is named like it.

- `types_exactly_reference`: the types an analysis notes are the reference types of all expressions and calls of the
  script, each where it stands, and besides these `error` for every declaration whose first value does not fit.
-/

namespace NimbleLang.Typing

open Fault (bind_eq_ok bind_bind_eq_ok)

/-- What names stand for. -/
abbrev Env := String → Option SymbolType

/-- The type of a call. Only positions that have both an argument and a parameter are compared. -/
def typeOfCall (env : Env) (f : String) (types : List Ty) : Ty :=
  match env f with
  | some (.function ps r) => if ∀ p ∈ types.zip ps, p.1 = p.2 then r else .error
  | _ => .error

mutual
/-- The type of an expression. -/
def typeOf (env : Env) : Expr → Ty
  | .parens _ e => typeOf env e
  | .signed _ .minus e => if typeOf env e = .int then .int else .error
  | .signed _ .not e => if typeOf env e = .bool then .bool else .error
  | .binary op l r =>
    if typeOf env l = .int ∧ typeOf env r = .int then
      if op = .less ∨ op = .lessOrEqual ∨ op = .equal then .bool else .int
    else .error
  | .call _ f as => if typeOfCall env f (typesOf env as) = .void then .error else typeOfCall env f (typesOf env as)
  | .reference _ x =>
    match env x with
    | some (.value t) => t
    | _ => .error
  | .stringLiteral _ _ => .string
  | .intLiteral _ _ => .int
  | .boolLiteral _ _ => .bool

def typesOf (env : Env) : List Expr → List Ty
  | [] => []
  | e :: rest => typeOf env e :: typesOf env rest
end

/-! ## What has a type -/

mutual
/-- The expressions and calls in an expression, each after those inside it. -/
def exprNodes : Expr → List Node
  | .parens p e => exprNodes e ++ [.expr (.parens p e)]
  | .signed p s e => exprNodes e ++ [.expr (.signed p s e)]
  | .binary op l r => exprNodes l ++ exprNodes r ++ [.expr (.binary op l r)]
  | .call p f as => argNodes as ++ [.call ⟨p, f, as⟩, .expr (.call p f as)]
  | e => [.expr e]

def argNodes : List Expr → List Node
  | [] => []
  | e :: rest => exprNodes e ++ argNodes rest
end

mutual
/-- The expressions and calls in a statement. -/
def stmtNodes : Stmt → List Node
  | .assign _ _ e | .print _ e | .leave _ (some e) => exprNodes e
  | .loop _ e body => exprNodes e ++ blockNodes body
  | .ifThen _ e yes => exprNodes e ++ blockNodes yes
  | .ifElse _ e yes no => exprNodes e ++ blockNodes yes ++ blockNodes no
  | .leave _ none => []
  | .call c => argNodes c.args ++ [.call c]

def blockNodes : List Stmt → List Node
  | [] => []
  | s :: rest => stmtNodes s ++ blockNodes rest
end

/-- A phrase, and what names stand for where it stands. -/
structure Site where
  env : Env
  node : Node

/-- Whether the first value of a variable, if it has one, is of the declared type. -/
def fits (env : Env) (v : VarDec) : Bool := v.init.all fun e => typeOf env e = v.type.ty

/-- What the table of types has to say of a phrase. -/
def Site.entry? (q : Site) : Option (Node × Ty) :=
  match q.node with
  | .expr e => some (.expr e, typeOf q.env e)
  | .call c => some (.call c, typeOfCall q.env c.name (typesOf q.env c.args))
  | .varDec v => if fits q.env v then none else some (.varDec v, .error)
  | _ => none

/-! ## What names stand for -/

/-- The types of the names declared in a body so far. -/
abbrev Locals := String → Option Ty

namespace Locals

/-- What names stand for in a body; what is not declared there is looked up around it. -/
def inside (l : Locals) (outer : Env) : Env := fun x =>
  match l x with
  | some t => some (.value t)
  | none => outer x

/-- Declares a name, with the type `error` if it is declared already. -/
def declare (l : Locals) (x : String) (t : Ty) : Locals :=
  Function.update l x (some (if (l x).isSome then .error else t))

theorem declare_error (l : Locals) (x : String) : l.declare x .error = Function.update l x (some .error) := by
  rw [declare, ite_self]

def parameters (l : Locals) (ps : List Parameter) : Locals := ps.foldl (fun l p => l.declare p.name p.type.ty) l

def varDec (outer : Env) (l : Locals) (v : VarDec) : Locals :=
  l.declare v.name (if fits (l.inside outer) v then v.type.ty else .error)

def varDecs (outer : Env) (l : Locals) (vs : List VarDec) : Locals := vs.foldl (varDec outer) l

end Locals

/-! ## The phrases of a script -/

def varDecSites (outer : Env) (l : Locals) : List VarDec → List Site
  | [] => []
  | v :: rest =>
    ((v.init.elim [] exprNodes ++ [Node.varDec v]).map fun node => ⟨l.inside outer, node⟩) ++
      varDecSites outer (l.varDec outer v) rest

def bodySites (outer : Env) (l : Locals) (b : Body) : List Site :=
  varDecSites outer l b.declared ++
    (blockNodes b.block.statements).map fun node => ⟨(l.varDecs outer b.declared).inside outer, node⟩

/-- The names declared in a function, after those that are there already. -/
def afterFunction (outer : Env) (l : Locals) (f : FuncDef) : Locals :=
  (l.parameters f.parameters).varDecs outer f.body.declared

/-- What is declared under each name after some functions. -/
def afterFunctions (outer : Env) : (String → Locals) → List FuncDef → (String → Locals)
  | rooms, [] => rooms
  | rooms, f :: fs => afterFunctions outer (Function.update rooms f.name (afterFunction outer (rooms f.name) f)) fs

def functionSites (outer : Env) : (String → Locals) → List FuncDef → List Site
  | _, [] => []
  | rooms, f :: fs =>
    bodySites outer ((rooms f.name).parameters f.parameters) f.body ++
      functionSites outer (Function.update rooms f.name (afterFunction outer (rooms f.name) f)) fs

/-- What names stand for outside of all bodies. -/
def functionEnv (fs : List FuncDef) : Env := fun x => (lastNamed fs x).map FuncDef.type

/-- All that can have a type in a script, in the order it is checked, each where it stands. -/
def scriptSites (s : Script) : List Site :=
  functionSites (functionEnv s.functions) (fun _ _ => none) s.functions ++
    bodySites (functionEnv s.functions)
      (afterFunctions (functionEnv s.functions) (fun _ _ => none) s.functions "$main") s.main

/-! ## Lookups and scopes that agree with these -/

/-- A lookup finds symbols of the types the names stand for. -/
def Agrees (look : Check.Lookup) (env : Env) : Prop := ∀ x, (look x).map (·.type) = (env x).map some

/-- A scope holds variables of the given types. -/
def Holds (s : Scope) (l : Locals) : Prop := ∀ x, (s.find? x).map (·.type) = (l x).map fun t => some (.value t)

theorem Holds.agrees {s : Scope} {l : Locals} (hs : Holds s l) {outer : Check.Lookup} {env : Env}
    (ho : Agrees outer env) : Agrees (Check.lookIn outer s) (l.inside env) := by
  intro x
  have h := hs x
  simp only [Check.lookIn, Locals.inside]
  cases hf : s.find? x with
  | none =>
    cases hl : l x with
    | none => exact ho x
    | some t => simp [hf, hl] at h
  | some sym =>
    cases hl : l x with
    | none => simp [hf, hl] at h
    | some t => simpa [hf, hl] using h

theorem Holds.taken {s : Scope} {l : Locals} (hs : Holds s l) (x : String) : (s.find? x).isSome = (l x).isSome := by
  simpa using congrArg Option.isSome (hs x)

theorem find?_defineValue (s : Scope) (x y : String) (t : Ty) (p : Bool) :
    ((s.defineValue x t p).find? y).map (·.type) =
      if y = x then some (some (.value t)) else (s.find? y).map (·.type) := by
  have h : ∃ sym : Symbol, sym.type = some (.value t) ∧ (s.defineValue x t p).symbols = Assoc.put x sym s.symbols := by
    cases p
    · exact ⟨_, rfl, rfl⟩
    · exact ⟨_, rfl, rfl⟩
  obtain ⟨sym, ht, hs⟩ := h
  by_cases e : y = x
  · simp [Scope.find?, hs, e, ht]
  · simp [Scope.find?, hs, e, Assoc.get?_put_of_ne]

theorem Holds.defineValue {s : Scope} {l : Locals} (hs : Holds s l) (x : String) (t : Ty) (p : Bool) :
    Holds (s.defineValue x t p) (Function.update l x (some t)) := by
  intro y
  rw [find?_defineValue]
  by_cases e : y = x
  · simp [e]
  · simp [e, hs y]

theorem holds_empty {s : Scope} (h : s.symbols = []) : Holds s fun _ => none := by
  intro x
  simp [Scope.find?, h, Assoc.get?]

theorem globals_agrees (fs : List FuncDef) : Agrees (globals fs) (functionEnv fs) := by
  intro x
  simp [globals, functionEnv, Function.comp_def]

/-! ## Expressions -/

/-- What the table of types has to say of phrases that stand at one place. -/
def entries (env : Env) (nodes : List Node) : List (Node × Ty) := nodes.filterMap fun node => Site.entry? ⟨env, node⟩

@[simp] theorem entries_append (env : Env) (l m : List Node) : entries env (l ++ m) = entries env l ++ entries env m :=
  List.filterMap_append

@[simp] theorem entries_expr (env : Env) (e : Expr) : entries env [.expr e] = [(.expr e, typeOf env e)] := rfl

open Check

variable {look : Lookup} {env : Env} {n : Notes}

@[simp] theorem types_none : Notes.none.types = [] := rfl
@[simp] theorem types_typed (node : Node) (t : Ty) : (Notes.typed node t).types = [(node, t)] := rfl
@[simp] theorem types_found (node : Node) (c : Category) (m : String) : (Notes.found node c m).types = [] := rfl
@[simp] theorem types_ofFindings (fs : List Finding) : (Notes.ofFindings fs).types = [] := rfl

@[simp] theorem types_require (well : Bool) (node : Node) (c : Category) (m : String) :
    (Notes.require well node c m).types = [] := by
  cases well <;> rfl

theorem misfits_eq_nil {as : List Expr} {ts ps : List Ty} (h : as.length = ts.length) :
    misfits (as.zip ts) ps = [] ↔ ∀ p ∈ ts.zip ps, p.1 = p.2 := by
  induction as generalizing ts ps with
  | nil =>
    cases ts with
    | nil => simp [misfits]
    | cons => cases h
  | cons a as ih =>
    cases ts with
    | nil => cases h
    | cons t ts =>
      cases ps with
      | nil => simp [misfits]
      | cons p ps =>
        have := @ih ts ps (Nat.succ.inj h)
        by_cases e : t = p <;> simp [misfits, e, this]

variable {x : String} {st : SymbolType} {c : Call} {types : List Ty} {t : Ty} {outer : Lookup} {v : VarDec}
  {declared : String → Locals}

section

variable (ha : Agrees look env)
include ha

theorem Agrees.of_some {s : Symbol} (hf : look x = some s) (hs : s.type = some st) : env x = some st := by
  simpa [hf, hs] using (ha x).symm

theorem Agrees.symbol (he : env x = some st) : ∃ s, look x = some s ∧ s.type = some st := by
  have h := ha x
  rw [he] at h
  cases hf : look x with
  | none => simp [hf] at h
  | some s => exact ⟨s, rfl, by simpa [hf] using h⟩

theorem Agrees.of_none (hf : look x = none) : env x = none := by
  simpa [hf] using (ha x).symm

theorem callType_types (hl : c.args.length = types.length) (h : callType look c types = .ok (t, n)) :
    t = typeOfCall env c.name types ∧ n.types = [] := by
  unfold typeOfCall
  rcases callType_ok h with ⟨s, ps, hf, hs, hm, rfl⟩ | ⟨rfl, ⟨m, rfl⟩, hf | ⟨s, ps, r, hf, hs, hm⟩⟩
  · rw [ha.of_some hf hs]
    exact ⟨(if_pos ((misfits_eq_nil hl).mp hm)).symm, rfl⟩
  · rw [ha.of_none hf]
    exact ⟨rfl, rfl⟩
  · rw [ha.of_some hf hs]
    exact ⟨(if_neg (mt (misfits_eq_nil hl).mpr hm)).symm, rfl⟩

theorem closeCall_types {m : Notes} (hl : c.args.length = types.length) (h : closeCall look c types m = .ok (t, n)) :
    t = typeOfCall env c.name types ∧ n.types = m.types ++ [(.call c, t)] := by
  obtain ⟨r, hr, h⟩ := bind_eq_ok.1 h
  cases h
  obtain ⟨ht, hn⟩ := callType_types ha hl hr
  exact ⟨ht, by simp [hn]⟩

theorem referenceType_types (e : Expr) (p : Place) (x : String) :
    (referenceType look e x).1 = typeOf env (.reference p x) ∧ (referenceType look e x).2.types = [] := by
  rw [typeOf]
  rcases referenceType_cases look e x with ⟨s, t, hf, hs, -, h⟩ | ⟨hn, c, m, -, h⟩
  · rw [h, ha.of_some hf hs]
    exact ⟨rfl, rfl⟩
  · rw [h]
    refine ⟨?_, rfl⟩
    cases he : env x with
    | none => rfl
    | some st =>
      cases st with
      | function ps r => rfl
      | value t =>
        obtain ⟨s, hf, hs⟩ := ha.symbol he
        rw [hn s t hf hs]

end

mutual
/-- The check of an expression gives its type and notes the types of all in it. -/
theorem expr_types (ha : Agrees look env) {e : Expr} {t : Ty} {n : Notes} (h : expr look e = .ok (t, n)) :
    t = typeOf env e ∧ n.types = entries env (exprNodes e) := by
  cases e with
  | parens p e =>
    obtain ⟨r, hr, h⟩ := bind_eq_ok.1 h
    cases h
    obtain ⟨ht, hn⟩ := expr_types ha hr
    simp [exprNodes, typeOf, ht, hn]
  | signed p s e =>
    obtain ⟨r, hr, h⟩ := bind_eq_ok.1 h
    cases h
    obtain ⟨ht, hn⟩ := expr_types ha hr
    have hs : signType s r.1 = typeOf env (.signed p s e) := by
      cases s <;> cases hr1 : r.1 <;> simp [typeOf, ← ht, hr1, signType]
    simp [exprNodes, hs, hn]
  | binary op l r =>
    obtain ⟨left, right, hl, hr, h⟩ := bind_bind_eq_ok.1 h
    cases h
    obtain ⟨htl, hnl⟩ := expr_types ha hl
    obtain ⟨htr, hnr⟩ := expr_types ha hr
    have ho : operatorType op left.1 right.1 = typeOf env (.binary op l r) := by
      cases op <;> simp [typeOf, operatorType, resultType, htl, htr]
    simp [exprNodes, ho, hnl, hnr]
  | call p f as =>
    obtain ⟨r, c, hr, hc, h⟩ := bind_bind_eq_ok.1 h
    cases h
    obtain ⟨hts, hn, hl⟩ := args_types ha hr
    obtain ⟨ht, hcn⟩ := closeCall_types ha hl hc
    rw [hts] at ht
    refine ⟨by rw [typeOf, ht], ?_⟩
    simp only [Notes.types_append, hcn, hn, types_typed, types_require, exprNodes, entries_append, ht]
    simp [entries, Site.entry?, typeOf]
  | reference p x =>
    obtain ⟨ht, hn⟩ := referenceType_types ha (.reference p x) p x
    rw [expr_reference] at h
    obtain ⟨rfl, rfl⟩ := Prod.mk.inj (Except.ok.inj h)
    exact ⟨ht, by simp [hn, ht, exprNodes]⟩
  | stringLiteral | intLiteral | boolLiteral =>
    cases h
    exact ⟨rfl, rfl⟩

theorem args_types (ha : Agrees look env) {as : List Expr} {ts : List Ty} {n : Notes} (h : args look as = .ok (ts, n)) :
    ts = typesOf env as ∧ n.types = entries env (argNodes as) ∧ as.length = ts.length := by
  cases as with
  | nil =>
    cases h
    exact ⟨rfl, rfl, rfl⟩
  | cons e rest =>
    obtain ⟨r, rs, hr, hrs, h⟩ := bind_bind_eq_ok.1 h
    cases h
    obtain ⟨ht, hn⟩ := expr_types ha hr
    obtain ⟨hts, hns, hl⟩ := args_types ha hrs
    exact ⟨by rw [typesOf, ht, hts], by simp [argNodes, hn, hns], congrArg (· + 1) hl⟩
end

theorem call_types (ha : Agrees look env) (h : call look c = .ok (t, n)) :
    n.types = entries env (argNodes c.args ++ [.call c]) := by
  obtain ⟨r, hr, h⟩ := bind_eq_ok.1 h
  obtain ⟨hts, hn, hl⟩ := args_types ha hr
  obtain ⟨ht, hcn⟩ := closeCall_types ha hl h
  rw [entries_append, hcn, hn, ht, hts]
  rfl

/-! ## Declarations -/

variable {s s' : Scope} {l : Locals}

/-- A name that is taken gets the type `error`, whatever it is declared with. -/
theorem Holds.duplicate (hs : Holds s l) (hx : (s.find? x).isSome = true) (node : Node) (t : Ty) :
    Holds (duplicate s node x).1 (l.declare x t) := by
  rw [hs.taken] at hx
  rw [Locals.declare, if_pos hx]
  exact hs.defineValue x .error false

theorem Holds.declare (hs : Holds s l) (hx : s.find? x = none) (t : Ty) (p : Bool) :
    Holds (s.defineValue x t p) (l.declare x t) := by
  have : ¬ (l x).isSome = true := by rw [← hs.taken, hx]; exact Bool.false_ne_true
  rw [Locals.declare, if_neg this]
  exact hs.defineValue x t p

theorem parameter_types (hs : Holds s l) (p : Parameter) :
    Holds (parameter s p).1 (l.declare p.name p.type.ty) ∧ (parameter s p).2.types = [] := by
  unfold parameter
  cases hf : s.find? p.name with
  | none => exact ⟨hs.declare hf _ true, rfl⟩
  | some sym => exact ⟨hs.duplicate (by rw [hf]; rfl) _ _, rfl⟩

theorem parameters_types (hs : Holds s l) (ps : List Parameter) :
    Holds (parameters s ps).1 (l.parameters ps) ∧ (parameters s ps).2.types = [] := by
  induction ps generalizing s l with
  | nil => exact ⟨hs, rfl⟩
  | cons p ps ih =>
    obtain ⟨hp, hn⟩ := parameter_types hs p
    obtain ⟨hps, hns⟩ := ih hp
    exact ⟨hps, by simp [parameters, hn, hns]⟩

theorem initialiser_types (ha : Agrees (lookIn outer s) env) {value : Option Ty}
    (h : initialiser outer s v = .ok (value, n)) :
    (misfit v value = none ↔ fits env v = true) ∧ n.types = entries env (v.init.elim [] exprNodes) := by
  unfold initialiser at h
  cases hi : v.init with
  | none =>
    rw [hi] at h
    cases h
    exact ⟨by simp [misfit, fits, hi], rfl⟩
  | some e =>
    rw [hi] at h
    obtain ⟨r, hr, h⟩ := bind_eq_ok.1 h
    cases h
    obtain ⟨ht, hn⟩ := expr_types ha hr
    exact ⟨by simp [misfit, fits, hi, ht], hn⟩

theorem closeVarDec_types (hs : Holds s l) (v : VarDec) (value : Option Ty) :
    Holds (closeVarDec s v value).1 (l.declare v.name (if misfit v value = none then v.type.ty else .error)) ∧
      (closeVarDec s v value).2.types = if misfit v value = none then [] else [(.varDec v, .error)] := by
  unfold closeVarDec enterVariable
  cases hf : s.find? v.name with
  | none =>
    cases hm : misfit v value with
    | none | some t => exact ⟨hs.declare hf _ false, rfl⟩
  | some sym =>
    have hx : (s.find? v.name).isSome = true := by rw [hf]; rfl
    cases hm : misfit v value with
    | none => exact ⟨hs.duplicate hx (.varDec v) _, rfl⟩
    | some t =>
      refine ⟨?_, rfl⟩
      -- the name is declared twice here, to the same effect
      have hd := (hs.duplicate hx (.varDec v) .error).defineValue v.name .error false
      rw [Locals.declare_error, Function.update_idem, ← Locals.declare_error] at hd
      exact hd

theorem varDec_types (ho : Agrees outer env) (hs : Holds s l)
    (h : varDec outer s v = .ok (s', n)) :
    Holds s' (l.varDec env v) ∧ n.types = entries (l.inside env) (v.init.elim [] exprNodes ++ [.varDec v]) := by
  obtain ⟨value, m, hm, rfl, rfl⟩ := varDec_eq_ok.1 h
  obtain ⟨hv, hi⟩ := initialiser_types (hs.agrees ho) hm
  obtain ⟨hc, hn⟩ := closeVarDec_types hs v value
  simp only [hv] at hc hn
  refine ⟨hc, ?_⟩
  rw [entries_append, Notes.types_append, hi, hn]
  cases hf : fits (l.inside env) v <;> simp [entries, Site.entry?, hf]

theorem varDecs_types (ho : Agrees outer env) (hs : Holds s l) {vs : List VarDec}
    (h : varDecs outer s vs = .ok (s', n)) :
    Holds s' (l.varDecs env vs) ∧ n.types = (varDecSites env l vs).filterMap Site.entry? := by
  induction vs generalizing s l n with
  | nil =>
    cases h
    exact ⟨hs, rfl⟩
  | cons v vs ih =>
    obtain ⟨r, rs, hr, hrs, h⟩ := bind_bind_eq_ok.1 h
    obtain ⟨rfl, rfl⟩ := Prod.mk.inj (Except.ok.inj h)
    obtain ⟨hv, hn⟩ := varDec_types ho hs hr
    obtain ⟨hvs, hns⟩ := ih hv hrs
    refine ⟨hvs, ?_⟩
    rw [varDecSites, List.filterMap_append, List.filterMap_map, Notes.types_append, hn, hns]
    rfl

/-! ## Statements -/

theorem assignment_types (own : Stmt) (x : String) (t : Ty) : (assignment look own x t).types = [] := by
  unfold assignment
  split
  · rfl
  · exact types_require ..

theorem returned_types (returns : Option SymbolType) (own : Stmt) (value : Option Ty) :
    (returned returns own value).types = [] := by
  unfold returned
  dsimp only
  split
  · split <;> rfl
  · split
    · rfl
    · split <;> rfl

variable {returns : Option SymbolType}

mutual
theorem statement_types (ha : Agrees look env) {st : Stmt} {n : Notes} (h : statement look returns st = .ok n) :
    n.types = entries env (stmtNodes st) := by
  cases st with
  | assign p x e =>
    obtain ⟨r, hr, h⟩ := bind_eq_ok.1 h
    cases h
    simp [stmtNodes, (expr_types ha hr).2, assignment_types]
  | loop p e body =>
    obtain ⟨r, inner, hr, hi, h⟩ := bind_bind_eq_ok.1 h
    cases h
    simp [stmtNodes, (expr_types ha hr).2, statements_types ha hi, loopCondition]
  | ifThen p e yes =>
    obtain ⟨r, inner, hr, hi, h⟩ := bind_bind_eq_ok.1 h
    cases h
    simp [stmtNodes, (expr_types ha hr).2, statements_types ha hi, ifCondition]
  | ifElse p e yes no =>
    obtain ⟨r, innerYes, hr, hy, h⟩ := bind_bind_eq_ok.1 h
    obtain ⟨innerNo, hn, h⟩ := bind_eq_ok.1 h
    cases h
    simp [stmtNodes, (expr_types ha hr).2, statements_types ha hy, statements_types ha hn, ifCondition]
  | print p e =>
    obtain ⟨r, hr, h⟩ := bind_eq_ok.1 h
    cases h
    simp [stmtNodes, (expr_types ha hr).2]
  | leave p v =>
    cases v with
    | none =>
      cases h
      exact returned_types ..
    | some e =>
      obtain ⟨r, hr, h⟩ := bind_eq_ok.1 h
      cases h
      simp [stmtNodes, (expr_types ha hr).2, returned_types]
  | call c =>
    obtain ⟨r, hr, h⟩ := bind_eq_ok.1 h
    cases h
    exact call_types ha hr

theorem statements_types (ha : Agrees look env) {ss : List Stmt} {n : Notes} (h : statements look returns ss = .ok n) :
    n.types = entries env (blockNodes ss) := by
  cases ss with
  | nil =>
    cases h
    rfl
  | cons st rest =>
    obtain ⟨m, more, hm, hmore, h⟩ := bind_bind_eq_ok.1 h
    cases h
    simp [blockNodes, statement_types ha hm, statements_types ha hmore]
end

/-! ## Bodies and scripts -/

theorem body_types (ho : Agrees outer env) (hs : Holds s l) {b : Body}
    (h : body outer s b = .ok (s', n)) :
    Holds s' (l.varDecs env b.declared) ∧ n.types = (bodySites env l b).filterMap Site.entry? := by
  obtain ⟨m, more, hv, hst, rfl⟩ := body_eq_ok.1 h
  obtain ⟨hh, hm⟩ := varDecs_types ho hs hv
  refine ⟨hh, ?_⟩
  rw [bodySites, List.filterMap_append, List.filterMap_map, Notes.types_append, Notes.types_append, hm,
    statements_types (hh.agrees ho) hst, types_ofFindings, List.append_nil]
  rfl

theorem function_types (ho : Agrees outer env) (hs : Holds s l) {f : FuncDef}
    (h : function outer s f = .ok (s', n)) :
    Holds s' (afterFunction env l f) ∧
      n.types = (bodySites env (l.parameters f.parameters) f.body).filterMap Site.entry? := by
  obtain ⟨m, hb, rfl⟩ := function_eq_ok.1 h
  obtain ⟨hp, hpn⟩ := parameters_types hs f.parameters
  obtain ⟨hh, hm⟩ := body_types ho hp hb
  exact ⟨hh, by simp [hpn, hm]⟩

/-- Every room holds what is declared under its name. -/
def HoldsAll (rooms : Rooms) (declared : String → Locals) : Prop := ∀ x, Holds (rooms x) (declared x)

theorem HoldsAll.update {rooms : Rooms} (h : HoldsAll rooms declared) (x : String)
    (hs : Holds s l) : HoldsAll (Function.update rooms x s) (Function.update declared x l) := by
  intro y
  by_cases e : y = x
  · subst e
    simpa using hs
  · simpa [e] using h y

theorem surveyFunctions_types (ho : Agrees outer env) {rooms rooms' : Rooms}
    (hr : HoldsAll rooms declared) {fs : List FuncDef}
    (h : surveyFunctions outer rooms fs = .ok (rooms', n)) :
    HoldsAll rooms' (afterFunctions env declared fs) ∧ n.types = (functionSites env declared fs).filterMap Site.entry? := by
  induction fs generalizing rooms declared n with
  | nil =>
    cases h
    exact ⟨hr, rfl⟩
  | cons f fs ih =>
    obtain ⟨r, rs, hf, hrs, h⟩ := bind_bind_eq_ok.1 h
    obtain ⟨rfl, rfl⟩ := Prod.mk.inj (Except.ok.inj h)
    obtain ⟨hh, hn⟩ := function_types ho (hr f.name) hf
    obtain ⟨hhs, hns⟩ := ih (hr.update f.name hh) hrs
    exact ⟨hhs, by rw [functionSites, List.filterMap_append, Notes.types_append, hn, hns]⟩

theorem holds_rooms (s : Script) : HoldsAll s.rooms fun _ _ => none := by
  intro x
  apply holds_empty
  by_cases e : x = "$main"
  · subst e
    rfl
  · rw [Script.rooms, Function.update_of_ne e]
    rfl

end NimbleLang.Typing

namespace NimbleLang.Analysis

open Typing

/-- The types noted by an analysis are the reference types of all expressions and calls of the script, one entry for
    each in the order they are checked; the only other entries are `error` for the declarations of variables
    whose first value is not of the declared type. -/
theorem types_exactly_reference {s : Script} {a : Analysis} (h : run (.script s) false = .ok a) :
    a.notes.types = (scriptSites s).filterMap Site.entry? := by
  obtain ⟨rooms, hs, -⟩ := survey_of_run h
  obtain ⟨r, m, hr, hm, hs⟩ := Fault.bind_bind_eq_ok.1 hs
  obtain ⟨-, hn⟩ := Prod.mk.inj (Except.ok.inj hs)
  have ho := globals_agrees s.functions
  obtain ⟨hh, hf⟩ := surveyFunctions_types ho (holds_rooms s) hr
  obtain ⟨-, hb⟩ := body_types ho (hh "$main") hm
  rw [← hn, Notes.types_append, hf, hb, scriptSites, List.filterMap_append]

/-- A variable with a first value of another type, used in a sum; and a call with an argument of another type. -/
def wrongTypes : Script where
  functions := [{
    name := "same"
    parameters := [⟨⟨1, 3⟩, "n", .int⟩]
    returns := some .int
    body := ⟨[], ⟨⟨1, 10⟩, [.leave ⟨1, 10⟩ (some (.reference ⟨1, 11⟩ "n"))]⟩⟩ }]
  main :=
    { declared := [⟨⟨3, 14⟩, "x", .int, some (.boolLiteral ⟨3, 19⟩ "true")⟩]
      block := ⟨⟨4, 20⟩, [
        .print ⟨4, 20⟩ (.binary .plus (.reference ⟨4, 21⟩ "x") (.intLiteral ⟨4, 23⟩ "1")),
        .call ⟨⟨5, 24⟩, "same", [.stringLiteral ⟨5, 26⟩ "\"2\""]⟩,
        .print ⟨6, 28⟩ (.call ⟨6, 29⟩ "same" [.intLiteral ⟨6, 31⟩ "2"])]⟩ }

theorem wrongTypes_types :
    ∃ a, run (.script wrongTypes) false = .ok a ∧ a.notes.types.map (fun (node, t) => (node.text, t)) =
      [("n", .int), ("true", .bool), ("varx:Int=true", .error), ("x", .error), ("1", .int), ("x+1", .error),
        ("\"2\"", .string), ("same(\"2\")", .error), ("2", .int), ("same(2)", .int), ("same(2)", .int)] := by
  obtain ⟨t, h, -⟩ := run_script wrongTypes
  refine ⟨_, h, ?_⟩
  rw [types_exactly_reference h]
  rfl

end NimbleLang.Analysis
