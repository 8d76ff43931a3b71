import NimbleLang.Proofs.Verdict

/-!
What a function returns, and which header it is held to. Functions of one name share one scope, the one made for the
last of them, and the type that is to be returned is read from the scope. So with nothing found, what each function
returns is what the last function of its name declares (`returns_fit_last_header`). For functions of different names
this is their own header; otherwise it need not be (`undeclared_return_passes`).
-/

namespace NimbleLang

open Fault (bind_eq_ok bind_bind_eq_ok)

mutual
/-- The values that a statement can return with; `none` is a return without a value. -/
def Stmt.returned : Stmt → List (Option Expr)
  | .leave _ v => [v]
  | .loop _ _ body => blockReturned body
  | .ifThen _ _ yes => blockReturned yes
  | .ifElse _ _ yes no => blockReturned yes ++ blockReturned no
  | _ => []

def Stmt.blockReturned : List Stmt → List (Option Expr)
  | [] => []
  | s :: rest => s.returned ++ blockReturned rest
end

/-- The values that a function can return with. -/
def FuncDef.returned (f : FuncDef) : List (Option Expr) := Stmt.blockReturned f.body.block.statements

/-- There is a value exactly if a type is declared, and then it is noted to be of this type. -/
def Fulfils (types : List (Node × Ty)) : Option Declared → Option Expr → Prop
  | none, none => True
  | some τ, some e => (.expr e, τ.ty) ∈ types
  | _, _ => False

theorem Fulfils.mono {types types' : List (Node × Ty)} {r : Option Declared} {v : Option Expr} (h : Fulfils types r v)
    (hsub : types ⊆ types') : Fulfils types' r v := by
  cases r with
  | none => cases v <;> exact h
  | some τ =>
    cases v with
    | none => exact h
    | some e => exact hsub h

namespace Check

open Typing

variable {look outer : Lookup} {s s' : Scope} {r : Option Declared} {n : Notes}

/-! ## Statements -/

theorem expr_noted {e : Expr} {t : Ty} (h : expr look e = .ok (t, n)) : (.expr e, t) ∈ n.types := by
  cases e with
  | parens p e | signed p s e =>
    obtain ⟨q, -, h⟩ := bind_eq_ok.1 h
    cases h
    simp
  | binary op l r =>
    obtain ⟨left, right, -, -, h⟩ := bind_bind_eq_ok.1 h
    cases h
    simp
  | call p f as =>
    obtain ⟨q, c, -, -, h⟩ := bind_bind_eq_ok.1 h
    cases h
    simp
  | reference p x =>
    rw [expr_reference] at h
    obtain ⟨rfl, rfl⟩ := Prod.mk.inj (Except.ok.inj h)
    simp
  | stringLiteral | intLiteral | boolLiteral =>
    cases h
    exact List.mem_singleton_self _

/-- A value that nothing is found wrong with is there if and only if it has to be, and of the right type. -/
theorem returned_clean {own : Stmt} {value : Option Ty}
    (h : (Check.returned (some (.value (returnTy r))) own value).findings = []) : value = r.map Declared.ty :=
  (returned_judged r own value).mp ((Notes.findings_eq_nil _).mp h).1

mutual
theorem statement_fulfils {st : Stmt} {n : Notes} (h : statement look (some (.value (returnTy r))) st = .ok n)
    (hn : n.findings = []) : ∀ v ∈ st.returned, Fulfils n.types r v := by
  cases st with
  | loop p e body | ifThen p e yes =>
    obtain ⟨q, inner, -, hi, h⟩ := bind_bind_eq_ok.1 h
    cases h
    simp only [Notes.findings_append, List.append_eq_nil_iff] at hn
    obtain ⟨⟨⟨-, hin⟩, -⟩, -⟩ := hn
    intro v hv
    exact (statements_fulfils hi hin v hv).mono (by intro x hx; simp [hx])
  | ifElse p e yes no =>
    obtain ⟨q, innerYes, -, hy, h⟩ := bind_bind_eq_ok.1 h
    obtain ⟨innerNo, hno, h⟩ := bind_eq_ok.1 h
    cases h
    simp only [Notes.findings_append, List.append_eq_nil_iff] at hn
    obtain ⟨⟨⟨⟨⟨-, hyn⟩, -⟩, hnn⟩, -⟩, -⟩ := hn
    intro v hv
    rcases List.mem_append.mp hv with hv | hv
    · exact (statements_fulfils hy hyn v hv).mono (by intro x hx; simp [hx])
    · exact (statements_fulfils hno hnn v hv).mono (by intro x hx; simp [hx])
  | leave p v =>
    refine List.forall_mem_singleton.mpr ?_
    cases v with
    | none =>
      cases h
      cases r with
      | none => trivial
      | some τ => cases returned_clean hn
    | some e =>
      obtain ⟨q, hq, h⟩ := bind_eq_ok.1 h
      cases h
      obtain ⟨-, hn⟩ := List.append_eq_nil_iff.mp hn
      have ht := returned_clean hn
      cases r with
      | none => cases ht
      | some τ =>
        have ht : q.1 = τ.ty := Option.some.inj ht
        have he : (.expr e, τ.ty) ∈ q.2.types := ht ▸ expr_noted hq
        exact List.mem_append_left _ he
  | assign | print | call => exact nofun

theorem statements_fulfils {ss : List Stmt} {n : Notes} (h : statements look (some (.value (returnTy r))) ss = .ok n)
    (hn : n.findings = []) : ∀ v ∈ Stmt.blockReturned ss, Fulfils n.types r v := by
  cases ss with
  | nil => exact nofun
  | cons st rest =>
    obtain ⟨m, more, hm, hmore, h⟩ := bind_bind_eq_ok.1 h
    cases h
    obtain ⟨hmn, hmoren⟩ := List.append_eq_nil_iff.mp hn
    intro v hv
    rcases List.mem_append.mp hv with hv | hv
    · exact (statement_fulfils hm hmn v hv).mono (List.subset_append_left _ _)
    · exact (statements_fulfils hmore hmoren v hv).mono (List.subset_append_right _ _)
end

/-! ## Functions -/

theorem function_fulfils {f : FuncDef} (hr : s.returns = some (.value (returnTy r)))
    (h : function outer s f = .ok (s', n)) (hn : n.findings = []) : ∀ v ∈ f.returned, Fulfils n.types r v := by
  obtain ⟨m, hb, rfl⟩ := function_eq_ok.1 h
  obtain ⟨d, more, hv, hst, rfl⟩ := body_eq_ok.1 hb
  rw [varDecs_returns hv, parameters_returns, hr] at hst
  simp only [Notes.findings_append, List.append_eq_nil_iff] at hn
  obtain ⟨⟨-, -, hmore, -⟩, -⟩ := hn
  intro v hv
  exact (statements_fulfils hst hmore v hv).mono (by intro x hx; simp [hx])

theorem function_returns {f : FuncDef} (h : function outer s f = .ok (s', n)) : s'.returns = s.returns := by
  obtain ⟨m, hb, -⟩ := function_eq_ok.1 h
  obtain ⟨d, more, hv, -, -⟩ := body_eq_ok.1 hb
  rw [varDecs_returns hv, parameters_returns]

/-- Functions are held to what is to be returned in the rooms of their names, which no check changes. -/
theorem surveyFunctions_fulfil {header : String → Option Declared} {rooms rooms' : Rooms} {fs : List FuncDef}
    (hr : ∀ f ∈ fs, (rooms f.name).returns = some (.value (returnTy (header f.name))))
    (h : surveyFunctions outer rooms fs = .ok (rooms', n)) (hn : n.findings = []) :
    ∀ f ∈ fs, ∀ v ∈ f.returned, Fulfils n.types (header f.name) v := by
  induction fs generalizing rooms n with
  | nil => exact nofun
  | cons f fs ih =>
    obtain ⟨q, qs, hq, hqs, h⟩ := bind_bind_eq_ok.1 h
    obtain ⟨rfl, rfl⟩ := Prod.mk.inj (Except.ok.inj h)
    obtain ⟨hqn, hqsn⟩ := List.append_eq_nil_iff.mp hn
    have hrest : ∀ g ∈ fs, (Function.update rooms f.name q.1 g.name).returns =
        some (.value (returnTy (header g.name))) := by
      intro g hg
      by_cases e : g.name = f.name
      · rw [e, Function.update_self, function_returns hq]
        exact hr f List.mem_cons_self
      · rw [Function.update_of_ne e]
        exact hr g (List.mem_cons_of_mem f hg)
    intro g hg v hv
    rcases List.mem_cons.mp hg with rfl | hg
    · exact (function_fulfils (hr g List.mem_cons_self) hq hqn v hv).mono (List.subset_append_left _ _)
    · exact (ih hrest hqs hqsn g hg v hv).mono (List.subset_append_right _ _)

end Check

/-! ## Scripts -/

theorem exists_lastNamed {fs : List FuncDef} {f : FuncDef} (hf : f ∈ fs) : ∃ g ∈ fs, lastNamed fs f.name = some g := by
  have h : (lastNamed fs f.name).isSome = true := by
    rw [lastNamed, List.find?_isSome]
    exact ⟨f, List.mem_reverse.mpr hf, by simp⟩
  obtain ⟨g, hg⟩ := Option.isSome_iff_exists.mp h
  exact ⟨g, List.mem_reverse.mp (List.mem_of_find?_eq_some hg), hg⟩

/-- The type that functions of a name are held to. -/
def Script.header (s : Script) (x : String) : Option Declared := (lastNamed s.functions x).bind (·.returns)

theorem Script.rooms_header {s : Script} {f : FuncDef} (hf : f ∈ s.functions) (hm : f.name ≠ "$main") :
    (s.rooms f.name).returns = some (.value (returnTy (s.header f.name))) := by
  obtain ⟨g, -, hg⟩ := exists_lastNamed hf
  rw [rooms, Function.update_of_ne hm, emptyRooms, header, hg]
  rfl

namespace Analysis

/-- Where an analysis finds nothing, each return of a function has a value exactly if the last function of this name
    declares a type to return, and the value is of this type. With functions of different names, that is what the
    function itself declares. -/
theorem returns_fit_last_header {s : Script} {a : Analysis} (named : ∀ f ∈ s.functions, f.name ≠ "$main")
    (h : run (.script s) false = .ok a) (clean : a.log.total = 0) :
    (∀ f ∈ s.functions, ∃ g ∈ s.functions, lastNamed s.functions f.name = some g ∧
      ∀ v ∈ f.returned, Fulfils a.notes.types g.returns v) ∧
    ((s.functions.map (·.name)).Nodup → ∀ f ∈ s.functions, ∀ v ∈ f.returned, Fulfils a.notes.types f.returns v) := by
  have hn : a.notes.findings = [] := (ErrorLog.total_ofFindings_eq_zero _).mp clean
  obtain ⟨rooms, hs, -⟩ := survey_of_run h
  obtain ⟨q, m, hq, -, hs⟩ := bind_bind_eq_ok.1 hs
  obtain ⟨-, hnotes⟩ := Prod.mk.inj (Except.ok.inj hs)
  rw [← hnotes] at hn ⊢
  obtain ⟨hqn, -⟩ := List.append_eq_nil_iff.mp hn
  have hall := Check.surveyFunctions_fulfil (fun f hf => s.rooms_header hf (named f hf)) hq hqn
  have hlast : ∀ f ∈ s.functions, ∀ g, lastNamed s.functions f.name = some g →
      ∀ v ∈ f.returned, Fulfils (q.2 ++ m.2).types g.returns v := by
    intro f hf g hg v hv
    have hv := (hall f hf v hv).mono (List.subset_append_left _ m.2.types)
    rw [Script.header, hg] at hv
    exact hv
  constructor
  · intro f hf
    obtain ⟨g, hmem, hg⟩ := exists_lastNamed hf
    exact ⟨g, hmem, hg, hlast f hf g hg⟩
  · intro hd f hf
    exact hlast f hf f (lastNamed_named hd hf)

/-- A function that declares no type to return and returns a value, and another one of the same name that declares the
    type of this value. -/
def sharedName : Script where
  functions := [
    { name := "f", parameters := [], returns := none
      body := ⟨[], ⟨⟨1, 5⟩, [.leave ⟨1, 5⟩ (some (.intLiteral ⟨1, 6⟩ "1"))]⟩⟩ },
    { name := "f", parameters := [], returns := some .int
      body := ⟨[], ⟨⟨2, 15⟩, [.leave ⟨2, 15⟩ (some (.intLiteral ⟨2, 16⟩ "2"))]⟩⟩ }]
  main := ⟨[], ⟨⟨3, 18⟩, []⟩⟩

theorem sharedName_fits_last : ∃ a, run (.script sharedName) false = .ok a ∧ a.log.total = 0 ∧
    ∀ f ∈ sharedName.functions, ∃ g ∈ sharedName.functions, lastNamed sharedName.functions f.name = some g ∧
      ∀ v ∈ f.returned, Fulfils a.notes.types g.returns v := by
  obtain ⟨t, h, -⟩ := run_script sharedName
  exact ⟨_, h, rfl, (returns_fit_last_header (by decide) h rfl).1⟩

/-- Nothing is found, although the first function returns a value and does not declare a type. -/
theorem undeclared_return_passes : ∃ a, run (.script sharedName) false = .ok a ∧ a.log.total = 0 ∧
    ∃ f ∈ sharedName.functions, ∃ v ∈ f.returned, ¬ Fulfils a.notes.types f.returns v := by
  obtain ⟨t, h, -⟩ := run_script sharedName
  exact ⟨_, h, rfl, _, List.mem_cons_self, _, List.mem_cons_self, id⟩

end Analysis

end NimbleLang
