import NimbleLang.Proofs.Independence

/-!
What the declarations of a body come to. However often a name is declared, and with whatever first values, a scope has one
symbol for it in the end, at the place of its first declaration. The type of the symbol is the declared one, unless the
name was declared again or its first value is of another type: then it is `error` (`declarations_settled`).

One declaration can define its name up to two times, and each definition takes the place of the one before. What is left is
read off the reference (`Locals.after`), where a declaration is one step.
-/

namespace NimbleLang

/-- A name declared in a body: a parameter, or a variable with perhaps a first value. -/
structure Declaration where
  name : String
  type : Declared
  init : Option Expr

def Parameter.declaration (p : Parameter) : Declaration := ⟨p.name, p.type, none⟩

def VarDec.declaration (v : VarDec) : Declaration := ⟨v.name, v.type, v.init⟩

/-- The declarations of a body in their order, the parameters first. -/
def declarations (ps : List Parameter) (vs : List VarDec) : List Declaration :=
  ps.map Parameter.declaration ++ vs.map VarDec.declaration

namespace Typing

/-! ## The reference -/

/-- Whether the first value of a declared name, if there is one, is of the declared type. -/
def suits (env : Env) (d : Declaration) : Bool := d.init.all fun e => typeOf env e = d.type.ty

/-- The types of names after some declarations. -/
def Locals.after (outer : Env) (ds : List Declaration) : Locals :=
  ds.foldl (fun l d => l.declare d.name (if suits (l.inside outer) d then d.type.ty else .error)) fun _ => none

/-- Some declaration of a name has a first value that is not of the declared type, with names standing for what they
    do after the declarations before it. -/
def Mistyped (outer : Env) (ds : List Declaration) (x : String) : Prop :=
  ∃ before d later e, ds = before ++ d :: later ∧ d.name = x ∧ d.init = some e ∧
    typeOf ((Locals.after outer before).inside outer) e ≠ d.type.ty

variable {outer : Env} {ds : List Declaration} {d : Declaration} {x : String}

theorem suits_eq_false {env : Env} : suits env d = false ↔ ∃ e, d.init = some e ∧ typeOf env e ≠ d.type.ty := by
  unfold suits
  cases d.init <;> simp

theorem after_snoc (outer : Env) (ds : List Declaration) (d : Declaration) :
    Locals.after outer (ds ++ [d]) = (Locals.after outer ds).declare d.name
      (if suits ((Locals.after outer ds).inside outer) d then d.type.ty else .error) := by
  rw [Locals.after, List.foldl_append]
  rfl

theorem after_declarations (outer : Env) (ps : List Parameter) (vs : List VarDec) :
    Locals.after outer (declarations ps vs) = (Locals.parameters (fun _ => none) ps).varDecs outer vs := by
  rw [Locals.after, declarations, List.foldl_append, List.foldl_map, List.foldl_map]
  rfl

theorem mistyped_snoc : Mistyped outer (ds ++ [d]) x ↔
    Mistyped outer ds x ∨ (d.name = x ∧ suits ((Locals.after outer ds).inside outer) d = false) := by
  constructor
  · rintro ⟨before, d', later, e, hds, hx, he, ht⟩
    rcases List.eq_nil_or_concat later with rfl | ⟨later, d'', rfl⟩
    · obtain ⟨rfl, hd⟩ := List.append_inj' hds rfl
      cases hd
      exact .inr ⟨hx, suits_eq_false.2 ⟨e, he, ht⟩⟩
    · rw [List.concat_eq_append, ← List.cons_append, ← List.append_assoc] at hds
      exact .inl ⟨before, d', later, e, (List.append_inj' hds rfl).1, hx, he, ht⟩
  · rintro (⟨before, d', later, e, rfl, hx, he, ht⟩ | ⟨hx, hs⟩)
    · exact ⟨before, d', later ++ [d], e, by simp, hx, he, ht⟩
    · obtain ⟨e, he, ht⟩ := suits_eq_false.1 hs
      exact ⟨ds, d, [], e, rfl, hx, he, ht⟩

/-- What the type of a name tells of its declarations. -/
structure Told (outer : Env) (ds : List Declaration) (x : String) (t : Ty) : Prop where
  error_iff : t = .error ↔ 1 < (ds.map (·.name)).count x ∨ Mistyped outer ds x
  declared : t ≠ .error → ∃ d ∈ ds, d.name = x ∧ t = d.type.ty

theorem Declared.ty_ne_error (d : Declared) : d.ty ≠ .error := by
  cases d <;> exact nofun

theorem not_mistyped_of_absent (h : x ∉ ds.map (·.name)) : ¬ Mistyped outer ds x := by
  rintro ⟨before, d, later, e, rfl, rfl, -⟩
  simp at h

/-- The types of names after some declarations: a name that was not declared has none, and that of any other is told by its
    declarations. -/
theorem after_told (outer : Env) (ds : List Declaration) (x : String) :
    match Locals.after outer ds x with
    | none => x ∉ ds.map (·.name)
    | some t => x ∈ ds.map (·.name) ∧ Told outer ds x t := by
  induction ds using List.reverseRecOn with
  | nil => exact List.not_mem_nil
  | append_singleton ds d ih =>
    rw [after_snoc, Locals.declare]
    by_cases hx : x = d.name
    · subst hx
      rw [Function.update_self]
      refine ⟨by simp, ?_⟩
      cases hl : Locals.after outer ds d.name with
      | some t =>
        -- declared again
        rw [hl] at ih
        have hcount : 1 < ((ds ++ [d]).map (·.name)).count d.name := by
          have := List.count_pos_iff.mpr ih.1
          simp only [List.map_append, List.map_cons, List.map_nil, List.count_append, List.count_singleton_self]
          omega
        exact ⟨iff_of_true rfl (.inl hcount), fun h => absurd rfl h⟩
      | none =>
        rw [hl] at ih
        have hcount : ((ds ++ [d]).map (·.name)).count d.name = 1 := by
          simp only [List.map_append, List.map_cons, List.map_nil, List.count_append, List.count_singleton_self,
            List.count_eq_zero.mpr ih]
        have hmis : Mistyped outer (ds ++ [d]) d.name ↔ suits ((Locals.after outer ds).inside outer) d = false := by
          simp only [mistyped_snoc, not_mistyped_of_absent ih, false_or, true_and]
        cases hs : suits ((Locals.after outer ds).inside outer) d with
        | true =>
          refine ⟨iff_of_false (Declared.ty_ne_error d.type) ?_, fun _ => ⟨d, by simp, rfl, rfl⟩⟩
          rw [hcount, hmis, hs]
          simp
        | false => exact ⟨iff_of_true rfl (.inr (hmis.mpr hs)), fun h => absurd rfl h⟩
    · rw [Function.update_of_ne hx]
      have hcount : ((ds ++ [d]).map (·.name)).count x = (ds.map (·.name)).count x := by
        simp [Ne.symm hx]
      have hmem : x ∈ (ds ++ [d]).map (·.name) ↔ x ∈ ds.map (·.name) := by simp [hx]
      have hmis : Mistyped outer (ds ++ [d]) x ↔ Mistyped outer ds x := by
        rw [mistyped_snoc]
        exact or_iff_left fun h => hx h.1.symm
      cases hl : Locals.after outer ds x with
      | none =>
        rw [hl] at ih
        exact mt hmem.mp ih
      | some t =>
        rw [hl] at ih
        refine ⟨hmem.mpr ih.1, by rw [hcount, hmis]; exact ih.2.error_iff, fun ht => ?_⟩
        obtain ⟨d', hd', hname, htype⟩ := ih.2.declared ht
        exact ⟨d', List.mem_append_left _ hd', hname, htype⟩

end Typing

/-! ## The order of symbols -/

namespace Scope

/-- The names of a scope, in the order of their symbols. -/
def names (s : Scope) : List String := s.symbols.map Prod.fst

theorem names_defineValue (s : Scope) (x : String) (t : Ty) (p : Bool) :
    (s.defineValue x t p).names = if x ∈ s.names then s.names else s.names ++ [x] := by
  cases p with
  | true | false => exact Assoc.keys_put x _ s.symbols

/-- Whatever is defined under the name of a new declaration, the names stay in the order of first declarations. -/
theorem names_defineValue_eraseDups {s : Scope} {xs : List String} (h : s.names = xs.eraseDups) (x : String) (t : Ty)
    (p : Bool) : (s.defineValue x t p).names = (xs ++ [x]).eraseDups := by
  rw [names_defineValue, h, List.eraseDups_append]
  by_cases hx : x ∈ xs
  · simp [hx, List.removeAll]
  · simp only [List.mem_eraseDups, hx, if_false, List.removeAll]
    rw [List.filter_cons_of_pos (by simp [hx])]
    rfl

/-- Defining a name once more does not move it. -/
theorem names_defineValue_again {s : Scope} {xs : List String} {x : String} (h : s.names = (xs ++ [x]).eraseDups) (t : Ty)
    (p : Bool) : (s.defineValue x t p).names = (xs ++ [x]).eraseDups := by
  rw [names_defineValue, if_pos, h]
  rw [h, List.mem_eraseDups]
  simp

end Scope

/-! ## Bodies -/

namespace Check

variable {s s' : Scope} {n : Notes} {xs : List String} {outer : Lookup}

theorem parameter_names (h : s.names = xs.eraseDups) (p : Parameter) :
    (parameter s p).1.names = (xs ++ [p.name]).eraseDups := by
  unfold parameter
  split
  · exact Scope.names_defineValue_eraseDups h p.name .error false
  · exact Scope.names_defineValue_eraseDups h p.name p.type.ty true

theorem parameters_names (h : s.names = xs.eraseDups) (ps : List Parameter) :
    (parameters s ps).1.names = (xs ++ ps.map (·.name)).eraseDups := by
  induction ps generalizing s xs with
  | nil => simpa [parameters] using h
  | cons p ps ih =>
    rw [parameters, List.map_cons, List.append_cons]
    exact ih (parameter_names h p)

theorem closeVarDec_names (h : s.names = xs.eraseDups) (v : VarDec) (value : Option Ty) :
    (closeVarDec s v value).1.names = (xs ++ [v.name]).eraseDups := by
  have hone := Scope.names_defineValue_eraseDups h v.name
  unfold closeVarDec enterVariable
  cases s.find? v.name with
  | none =>
    cases misfit v value with
    | none => exact hone _ false
    | some t => exact hone _ false
  | some sym =>
    cases misfit v value with
    | none => exact hone .error false
    | some t => exact Scope.names_defineValue_again (hone .error false) .error false

theorem varDecs_names (h : s.names = xs.eraseDups) {vs : List VarDec} (hv : varDecs outer s vs = .ok (s', n)) :
    s'.names = (xs ++ vs.map (·.name)).eraseDups := by
  induction vs generalizing s xs n with
  | nil =>
    cases hv
    simpa using h
  | cons v vs ih =>
    obtain ⟨q, qs, hq, hqs, hv⟩ := Fault.bind_bind_eq_ok.1 hv
    obtain ⟨rfl, -⟩ := Prod.mk.inj (Except.ok.inj hv)
    obtain ⟨value, m, -, hs, -⟩ := varDec_eq_ok.1 hq
    rw [List.map_cons, List.append_cons]
    exact ih (hs ▸ closeVarDec_names h v value) hqs

end Check

/-! ## What is left of the declarations -/

/-- A scope in which the declarations of a body are settled: it lists their names in the order of first declarations, and
    has for each a symbol of the declared type, or of the type `error` if the name is declared more than once or its first
    value is of another type. -/
structure Scope.Settled (s : Scope) (outer : Typing.Env) (ds : List Declaration) : Prop where
  listed : s.names = (ds.map (·.name)).eraseDups
  undeclared : ∀ x, x ∉ ds.map (·.name) → s.find? x = none
  declared : ∀ x ∈ ds.map (·.name), ∃ sym t, s.find? x = some sym ∧ sym.type = some (.value t) ∧
    (t = .error ↔ 1 < (ds.map (·.name)).count x ∨ Typing.Mistyped outer ds x) ∧
    (t ≠ .error → ∃ d ∈ ds, d.name = x ∧ t = d.type.ty)

theorem Scope.settled_of_holds {s : Scope} {outer : Typing.Env} {ds : List Declaration}
    (hs : Typing.Holds s (Typing.Locals.after outer ds)) (hn : s.names = (ds.map (·.name)).eraseDups) :
    s.Settled outer ds := by
  refine ⟨hn, ?_, ?_⟩
  · intro x hx
    have htold := Typing.after_told outer ds x
    have hheld := hs x
    cases hl : Typing.Locals.after outer ds x with
    | some t =>
      rw [hl] at htold
      exact absurd htold.1 hx
    | none => simpa [hl] using hheld
  · intro x hx
    have htold := Typing.after_told outer ds x
    have hheld := hs x
    cases hl : Typing.Locals.after outer ds x with
    | none =>
      rw [hl] at htold
      exact absurd hx htold
    | some t =>
      rw [hl] at htold hheld
      obtain ⟨sym, hfind, htype⟩ := Option.map_eq_some_iff.mp hheld
      exact ⟨sym, t, hfind, htype, htold.2.error_iff, htold.2.declared⟩

theorem declarations_names (ps : List Parameter) (vs : List VarDec) :
    (declarations ps vs).map (·.name) = ps.map (·.name) ++ vs.map (·.name) := by
  rw [declarations, List.map_append, List.map_map, List.map_map]
  rfl

namespace Check

variable {s s' : Scope} {n : Notes} {outer : Lookup} {env : Typing.Env}

/-- A body that is checked after its parameters in an empty scope settles the declarations of both. -/
theorem body_settled (ho : Typing.Agrees outer env) (hempty : s.symbols = []) (ps : List Parameter) {b : Body}
    (h : body outer (parameters s ps).1 b = .ok (s', n)) : s'.Settled env (declarations ps b.declared) := by
  have hparameters := (Typing.parameters_types (Typing.holds_empty hempty) ps).1
  have hnames : s.names = ([] : List String).eraseDups := by
    rw [Scope.names, hempty]
    rfl
  obtain ⟨m, more, hv, -, -⟩ := body_eq_ok.1 h
  apply Scope.settled_of_holds
  · rw [Typing.after_declarations]
    exact (Typing.body_types ho hparameters h).1
  · rw [declarations_names]
    exact varDecs_names (parameters_names hnames ps) hv

end Check

namespace Analysis

/-- The main part is checked in the empty scope that was made for it. -/
theorem main_alone {s : Script} {a : Analysis} (distinct : s.NamesDistinct) (h : run (.script s) false = .ok a) :
    ∃ scope n, Check.body (globals s.functions) mainRoom s.main = .ok (scope, n) ∧ a.scopeOf "$main" = some scope := by
  obtain ⟨rooms, hs, hfur⟩ := survey_of_run h
  obtain ⟨q, m, hq, hm, hs⟩ := Fault.bind_bind_eq_ok.1 hs
  obtain ⟨rfl, -⟩ := Prod.mk.inj (Except.ok.inj hs)
  rw [Check.surveyFunctions_others hq distinct.2, Script.rooms, Function.update_self] at hm
  obtain ⟨k, hk, hscope⟩ := hfur.room "$main" (.inl rfl)
  rw [Function.update_self] at hscope
  exact ⟨m.1, m.2, hm, by rw [scopeOf, hk, Option.map_some, hscope]⟩

/-- When an analysis has come to its end, the declarations of every function are settled in its scope, and those of the
    main part in its own, whatever was found. -/
theorem declarations_settled {s : Script} {a : Analysis} (distinct : s.NamesDistinct)
    (h : run (.script s) false = .ok a) :
    (∀ f ∈ s.functions, ∃ scope, a.scopeOf f.name = some scope ∧
      scope.Settled (Typing.functionEnv s.functions) (declarations f.parameters f.body.declared)) ∧
    ∃ scope, a.scopeOf "$main" = some scope ∧
      scope.Settled (Typing.functionEnv s.functions) (declarations [] s.main.declared) := by
  have ho := Typing.globals_agrees s.functions
  constructor
  · intro f hf
    obtain ⟨scope, n, hfunction, -, hscope⟩ := function_alone distinct h hf
    obtain ⟨m, hbody, -⟩ := Check.function_eq_ok.1 hfunction
    exact ⟨scope, hscope, Check.body_settled ho rfl f.parameters hbody⟩
  · obtain ⟨scope, n, hbody, hscope⟩ := main_alone distinct h
    exact ⟨scope, hscope, Check.body_settled ho (s := mainRoom) rfl [] hbody⟩

/-- A function in which a parameter is declared again as a variable, with a first value of another type, and in which two
    variables follow, one with a wrong first value and one with a right one. -/
def manyDeclarations : Script where
  functions := [{
    name := "f", parameters := [⟨⟨1, 3⟩, "a", .int⟩, ⟨⟨1, 7⟩, "b", .bool⟩], returns := none
    body :=
      { declared := [⟨⟨2, 12⟩, "a", .int, some (.reference ⟨2, 17⟩ "b")⟩,
          ⟨⟨3, 18⟩, "c", .int, some (.reference ⟨3, 23⟩ "a")⟩, ⟨⟨4, 24⟩, "d", .bool, some (.reference ⟨4, 29⟩ "b")⟩]
        block := ⟨⟨5, 30⟩, []⟩ } }]
  main := ⟨[], ⟨⟨6, 32⟩, []⟩⟩

theorem manyDeclarations_settled : ∃ a scope sym, run (.script manyDeclarations) false = .ok a ∧
    a.scopeOf "f" = some scope ∧ scope.names = ["a", "b", "c", "d"] ∧ scope.find? "x" = none ∧
    scope.find? "a" = some sym ∧ sym.type = some (.value .error) := by
  obtain ⟨t, h, -⟩ := run_script manyDeclarations
  obtain ⟨hfunctions, -⟩ := declarations_settled (by decide) h
  obtain ⟨scope, hscope, hsettled⟩ := hfunctions _ (.head _)
  obtain ⟨sym, t, hfind, htype, herror, -⟩ := hsettled.declared "a" (by decide)
  rw [herror.mpr (.inl (by decide))] at htype
  exact ⟨_, scope, sym, h, hscope, hsettled.listed.trans rfl, hsettled.undeclared "x" (by decide), hfind, htype⟩

end Analysis

end NimbleLang
