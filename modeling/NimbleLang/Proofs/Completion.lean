import NimbleLang.Proofs.Types
import NimbleLang.Proofs.WellTyped

/-!
When a check comes to its end. The one thing that cannot be checked is a call of a name that is a variable where it is
called, so a check comes to its end exactly when there is no such call in what it checks (`survey_completes`). Which
names are variables does not depend on what is found: a name that is declared wrongly is declared all the same.
-/

namespace NimbleLang

/-! ## Checks that come to their end -/

def Completes {α : Type} (x : Except Fault α) : Prop := ∃ r, x = .ok r

theorem completes_ok {α : Type} (r : α) : Completes (.ok r) := ⟨r, rfl⟩

theorem completes_bind {α β : Type} {x : Except Fault α} {f : α → Except Fault β} {P : Prop}
    (h : ∀ a, x = .ok a → (Completes (f a) ↔ P)) : Completes (x >>= f) ↔ Completes x ∧ P := by
  constructor
  · intro h
    obtain ⟨r, hr⟩ := h
    obtain ⟨a, ha, hf⟩ := Fault.bind_eq_ok.1 hr
    exact ⟨⟨a, ha⟩, (h a ha).mp ⟨r, hf⟩⟩
  · intro h
    obtain ⟨⟨a, ha⟩, hP⟩ := h
    obtain ⟨r, hr⟩ := (h a ha).mpr hP
    exact ⟨r, Fault.bind_eq_ok.2 ⟨a, ha, hr⟩⟩

/-- What comes last cannot fail. -/
theorem completes_map {α β : Type} {x : Except Fault α} {f : α → Except Fault β} (h : ∀ a, Completes (f a)) :
    Completes (x >>= f) ↔ Completes x := by
  rw [completes_bind fun a _ => iff_of_true (h a) trivial, and_true]

namespace Check

open Typing

variable {look : Lookup}

/-- A name that a check can take a call of. -/
def Callable (look : Lookup) (f : String) : Prop := ∀ s, look f = some s → ∃ ps r, s.type = some (.function ps r)

theorem callType_completes (c : Call) (types : List Ty) : Completes (callType look c types) ↔ Callable look c.name := by
  unfold callType Callable
  cases hf : look c.name with
  | none => exact iff_of_true (completes_ok _) nofun
  | some s =>
    dsimp only
    cases hs : s.type with
    | none => exact iff_of_false nofun fun h => by obtain ⟨ps, r, h⟩ := h s rfl; cases hs.symm.trans h
    | some st =>
      cases st with
      | value t => exact iff_of_false nofun fun h => by obtain ⟨ps, r, h⟩ := h s rfl; cases hs.symm.trans h
      | function ps r =>
        refine iff_of_true ?_ fun s' h => by cases h; exact ⟨ps, r, hs⟩
        dsimp only
        split <;> exact completes_ok _

theorem closeCall_completes (c : Call) (types : List Ty) (m : Notes) :
    Completes (closeCall look c types m) ↔ Callable look c.name :=
  (completes_map fun _ => completes_ok _).trans (callType_completes c types)

mutual
/-- The check of an expression comes to its end exactly when no name called in it is a variable. -/
theorem expr_completes (e : Expr) : Completes (expr look e) ↔ ∀ f ∈ e.callees, Callable look f := by
  cases e with
  | parens p e | signed p s e => exact (completes_map fun _ => completes_ok _).trans (expr_completes e)
  | binary op l r =>
    rw [Expr.callees, List.forall_mem_append, ← expr_completes l, ← expr_completes r]
    exact completes_bind fun _ _ => completes_map fun _ => completes_ok _
  | call p f as =>
    rw [Expr.callees, List.forall_mem_append, ← args_completes as, List.forall_mem_singleton]
    exact completes_bind fun r _ => (completes_map fun _ => completes_ok _).trans (closeCall_completes ⟨p, f, as⟩ r.1 r.2)
  | reference p x | stringLiteral | intLiteral | boolLiteral => exact iff_of_true (completes_ok _) nofun

theorem args_completes (as : List Expr) : Completes (args look as) ↔ ∀ f ∈ Expr.argCallees as, Callable look f := by
  cases as with
  | nil => exact iff_of_true (completes_ok _) nofun
  | cons e rest =>
    rw [Expr.argCallees, List.forall_mem_append, ← expr_completes e, ← args_completes rest]
    exact completes_bind fun _ _ => completes_map fun _ => completes_ok _
end

variable {returns : Option SymbolType}

mutual
theorem statement_completes (st : Stmt) :
    Completes (statement look returns st) ↔ ∀ f ∈ st.callees, Callable look f := by
  cases st with
  | assign p x e | print p e => exact (completes_map fun _ => completes_ok _).trans (expr_completes e)
  | loop p e body | ifThen p e body =>
    rw [Stmt.callees, List.forall_mem_append, ← expr_completes e, ← statements_completes body]
    exact completes_bind fun _ _ => completes_map fun _ => completes_ok _
  | ifElse p e yes no =>
    rw [Stmt.callees, List.append_assoc, List.forall_mem_append, List.forall_mem_append, ← expr_completes e,
      ← statements_completes yes, ← statements_completes no]
    exact completes_bind fun _ _ => completes_bind fun _ _ => completes_map fun _ => completes_ok _
  | leave p v =>
    cases v with
    | none => exact iff_of_true (completes_ok _) nofun
    | some e => exact (completes_map fun _ => completes_ok _).trans (expr_completes e)
  | call c =>
    rw [Stmt.callees, List.forall_mem_append, ← args_completes c.args, List.forall_mem_singleton]
    refine (completes_map fun _ => completes_ok _).trans ?_
    exact completes_bind fun r _ => closeCall_completes c r.1 r.2

theorem statements_completes (ss : List Stmt) :
    Completes (statements look returns ss) ↔ ∀ f ∈ Stmt.blockCallees ss, Callable look f := by
  cases ss with
  | nil => exact iff_of_true (completes_ok _) nofun
  | cons st rest =>
    rw [Stmt.blockCallees, List.forall_mem_append, ← statement_completes st, ← statements_completes rest]
    exact completes_bind fun _ _ => completes_map fun _ => completes_ok _
end

/-! ## Which names are variables -/

/-- The names that are declared are those of the list. -/
def Names (l : Locals) (xs : List String) : Prop := ∀ x, (l x).isSome = true ↔ x ∈ xs

theorem Names.declare {l : Locals} {xs : List String} (h : Names l xs) (x : String) (t : Ty) :
    Names (l.declare x t) (xs ++ [x]) := by
  intro y
  by_cases e : y = x
  · simp [Locals.declare, e]
  · simp [Locals.declare, e, h y]

theorem Names.parameters {l : Locals} {xs : List String} (h : Names l xs) (ps : List Parameter) :
    Names (l.parameters ps) (xs ++ ps.map (·.name)) := by
  induction ps generalizing l xs with
  | nil =>
    rw [List.map_nil, List.append_nil]
    exact h
  | cons p ps ih =>
    have hp := ih (h.declare p.name p.type.ty)
    rw [List.append_assoc] at hp
    exact hp

theorem Names.varDecs {env : Env} {l : Locals} {xs : List String} (h : Names l xs) (vs : List VarDec) :
    Names (l.varDecs env vs) (xs ++ vs.map (·.name)) := by
  induction vs generalizing l xs with
  | nil =>
    rw [List.map_nil, List.append_nil]
    exact h
  | cons v vs ih =>
    have hv := ih (h.declare v.name (if fits (l.inside env) v then v.type.ty else .error))
    rw [List.append_assoc] at hv
    exact hv

theorem names_nothing : Names (fun _ => none) [] := fun x => by simp

variable {outer : Lookup} {env : Env} {s : Scope} {l : Locals} {xs : List String}

/-- Where only functions are around a body, a name can be called if it is not declared in the body. -/
theorem callable_inside (hc : ∀ f, Callable outer f) (hs : Holds s l) (hx : Names l xs) (f : String) :
    Callable (lookIn outer s) f ↔ f ∉ xs := by
  rw [← hx f, ← hs.taken]
  unfold Callable lookIn
  cases hf : s.find? f with
  | none => exact iff_of_true (hc f) Bool.false_ne_true
  | some sym =>
    refine iff_of_false (fun h => ?_) (not_not_intro rfl)
    obtain ⟨ps, r, ht⟩ := h sym rfl
    have := hs f
    cases hl : l f <;> simp [hf, hl, ht] at this

theorem globals_callable (fs : List FuncDef) (f : String) : Callable (globals fs) f := by
  intro s hs
  obtain ⟨g, -, rfl⟩ := Option.map_eq_some_iff.mp hs
  exact ⟨_, _, rfl⟩

theorem varDec_completes (v : VarDec) :
    Completes (varDec outer s v) ↔ ∀ f ∈ v.init.elim [] Expr.callees, Callable (lookIn outer s) f := by
  rw [varDec_eq]
  refine (completes_map fun _ => completes_ok _).trans ?_
  unfold initialiser
  cases v.init with
  | none => exact iff_of_true (completes_ok _) nofun
  | some e => exact (completes_map fun _ => completes_ok _).trans (expr_completes e)

section

variable (hc : ∀ f, Callable outer f) (ho : Agrees outer env) (hs : Holds s l) (hx : Names l xs)
include hc ho hs hx

theorem varDecs_completes (vs : List VarDec) : Completes (varDecs outer s vs) ↔ InitialCalls xs vs := by
  induction vs generalizing s l xs with
  | nil => exact iff_of_true (completes_ok _) trivial
  | cons v vs ih =>
    have hv : Completes (varDec outer s v) ↔ ∀ f ∈ v.init.elim [] Expr.callees, f ∉ xs := by
      simp only [varDec_completes, callable_inside hc hs hx]
    rw [InitialCalls, ← hv]
    refine completes_bind fun r hr => (completes_map fun _ => completes_ok _).trans ?_
    exact ih (varDec_types ho hs hr).1 (hx.declare v.name _)

theorem body_completes (b : Body) : Completes (body outer s b) ↔ b.CallsFunctions xs := by
  rw [Body.CallsFunctions, ← varDecs_completes hc ho hs hx]
  refine completes_bind fun r hr => (completes_map fun _ => completes_ok _).trans ?_
  have hh := (varDecs_types ho hs hr).1
  refine (completes_map fun _ => completes_ok _).trans ?_
  simp only [statements_completes, callable_inside hc hh (hx.varDecs b.declared)]

theorem function_completes
    (f : FuncDef) : Completes (function outer s f) ↔ f.body.CallsFunctions (xs ++ f.parameters.map (·.name)) := by
  refine (completes_map fun _ => completes_ok _).trans ?_
  exact body_completes hc ho (parameters_types hs f.parameters).1 (hx.parameters f.parameters) f.body

end

/-- Functions of different names do not see each other's variables. -/
theorem surveyFunctions_completes (hc : ∀ f, Callable outer f) (ho : Agrees outer env) {rooms : Rooms} {fs : List FuncDef}
    (hd : (fs.map (·.name)).Nodup) (hr : ∀ f ∈ fs, Holds (rooms f.name) fun _ => none) :
    Completes (surveyFunctions outer rooms fs) ↔ ∀ f ∈ fs, f.body.CallsFunctions (f.parameters.map (·.name)) := by
  induction fs generalizing rooms with
  | nil => exact iff_of_true (completes_ok _) nofun
  | cons f fs ih =>
    have hf := function_completes hc ho (hr f (.head _)) names_nothing f
    rw [List.nil_append] at hf
    rw [List.forall_mem_cons, ← hf]
    refine completes_bind fun r _ => (completes_map fun _ => completes_ok _).trans (ih (List.nodup_cons.mp hd).2 ?_)
    intro g hg
    rw [room_of_other hd hg]
    exact hr g (.tail _ hg)

theorem surveyFunctions_others {rooms rooms' : Rooms} {fs : List FuncDef} {n : Notes}
    (h : surveyFunctions outer rooms fs = .ok (rooms', n)) {x : String} (hx : ∀ f ∈ fs, f.name ≠ x) : rooms' x = rooms x := by
  induction fs generalizing rooms n with
  | nil =>
    cases h
    rfl
  | cons f fs ih =>
    obtain ⟨r, rs, -, hrs, h⟩ := Fault.bind_bind_eq_ok.1 h
    obtain ⟨rfl, -⟩ := Prod.mk.inj (Except.ok.inj h)
    rw [ih hrs fun g hg => hx g (.tail _ hg), Function.update_of_ne (hx f (.head _)).symm]

/-- With scopes of different names, all bodies are checked to the end exactly when no variable is called. -/
theorem survey_completes (script : Script) (hd : script.NamesDistinct) :
    Completes (survey script) ↔ script.CallsFunctions := by
  have hc := globals_callable script.functions
  have ho := globals_agrees script.functions
  rw [Script.CallsFunctions, ← surveyFunctions_completes hc ho hd.1 fun f _ => holds_rooms script f.name]
  refine completes_bind fun r hr => (completes_map fun _ => completes_ok _).trans ?_
  rw [surveyFunctions_others hr hd.2]
  exact body_completes hc ho (holds_rooms script "$main") names_nothing script.main

end Check

end NimbleLang
