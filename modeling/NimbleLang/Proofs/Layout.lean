import NimbleLang.Proofs.LogEntries
import NimbleLang.Proofs.Verdict

/-!
How the scopes of a script are laid out when nothing was found wrong with it. A scope of a body then holds its parameters
and after them its variables, in the order of their declarations, each kind numbered from zero on without a gap
(`Scope.laidOut`). Both counters move on errors too, so this is a matter of what was found: as long as nothing is found,
a declaration adds one symbol at the end, and the next number of its kind (`parameters_laidOut`, `varDecs_laidOut`).

The first phase defines the functions and makes the scopes, the second fills them; `layout_of_clean` puts the two
together.
-/

namespace NimbleLang

/-! ## Scopes that are filled in order -/

theorem Assoc.put_of_absent {κ ν : Type} [DecidableEq κ] {k : κ} {m : List (κ × ν)} (h : get? k m = none) (v : ν) :
    put k v m = m ++ [(k, v)] := by
  induction m with
  | nil => rfl
  | cons p m ih =>
    rw [get?] at h
    split at h
    · cases h
    · rename_i e
      rw [put, if_neg e, ih h, List.cons_append]

def Parameter.symbol (i : Nat) (p : Parameter) : Symbol :=
  { name := p.name, type := some (.value p.type.ty), isParameter := true, index := i }

def VarDec.symbol (i : Nat) (v : VarDec) : Symbol := { name := v.name, type := some (.value v.type.ty), index := i }

namespace Scope

/-- The scope that has just these parameters and variables, in order. -/
def laidOut (name : String) (returns : Option SymbolType) (ps : List Parameter) (vs : List VarDec) : Scope where
  name := name
  returns := returns
  symbols := ps.mapIdx (fun i p => (p.name, p.symbol i)) ++ vs.mapIdx fun i v => (v.name, v.symbol i)
  locals := vs.length
  parameters := ps.length

/-- A scope as the generator of code reads it: what is returned, the parameters and the variables with their numbers,
    and no functions. -/
structure Layout (s : Scope) (returns : Ty) (ps : List Parameter) (vs : List VarDec) : Prop where
  returns : s.returns = some (.value returns)
  parameters : s.parameterSymbols = ps.mapIdx Parameter.symbol
  locals : s.localVariables = vs.mapIdx VarDec.symbol
  functions : s.functions = []

variable {name : String} {returns : Option SymbolType} {ps : List Parameter} {vs : List VarDec}

/-- The symbols of a scope that is laid out: parameters first. -/
theorem laidOut_symbols : (laidOut name returns ps vs).symbols.map (·.2) =
    ps.mapIdx Parameter.symbol ++ vs.mapIdx VarDec.symbol := by
  rw [laidOut, List.map_append]
  congr 1 <;> exact (List.mapIdx_eq_iff.mpr fun i => by simp [Function.comp_def]).symm

theorem laidOut_layout {t : Ty} : Layout (laidOut name (some (.value t)) ps vs) t ps vs := by
  have hp : ∀ x ∈ ps.mapIdx Parameter.symbol, x.isParameter = true ∧ x.isFunction = false := by
    intro x hx
    obtain ⟨i, hi, rfl⟩ := List.mem_mapIdx.mp hx
    exact ⟨rfl, rfl⟩
  have hv : ∀ x ∈ vs.mapIdx VarDec.symbol, x.isParameter = false ∧ x.isFunction = false := by
    intro x hx
    obtain ⟨i, hi, rfl⟩ := List.mem_mapIdx.mp hx
    exact ⟨rfl, rfl⟩
  refine ⟨rfl, ?_, ?_, ?_⟩
  · rw [parameterSymbols, laidOut_symbols, List.filter_append, List.filter_eq_self.mpr fun x hx => (hp x hx).1,
      List.filter_eq_nil_iff.mpr fun x hx => by simp [hv x hx], List.append_nil]
  · rw [localVariables, laidOut_symbols, List.filter_append, List.filter_eq_nil_iff.mpr fun x hx => by simp [hp x hx],
      List.filter_eq_self.mpr fun x hx => by simp [hv x hx], List.nil_append]
  · rw [functions, laidOut_symbols, List.filter_append, List.filter_eq_nil_iff.mpr fun x hx => by simp [hp x hx],
      List.filter_eq_nil_iff.mpr fun x hx => by simp [hv x hx], List.nil_append]

/-- A new parameter comes after those there are, as long as there are no variables. -/
theorem defineValue_parameter {p : Parameter} (h : (laidOut name returns ps []).find? p.name = none) :
    (laidOut name returns ps []).defineValue p.name p.type.ty true = laidOut name returns (ps ++ [p]) [] := by
  have hput := Assoc.put_of_absent h (p.symbol ps.length)
  simp only [laidOut, List.mapIdx_nil, List.append_nil] at hput
  simp only [defineValue, define, laidOut, if_true, List.mapIdx_nil, List.append_nil, List.length_append, List.length_singleton,
    List.mapIdx_concat, List.length_nil]
  rw [← hput]
  rfl

/-- A new variable comes after all that is there. -/
theorem defineValue_variable {v : VarDec} (h : (laidOut name returns ps vs).find? v.name = none) :
    (laidOut name returns ps vs).defineValue v.name v.type.ty false = laidOut name returns ps (vs ++ [v]) := by
  have hput := Assoc.put_of_absent h (v.symbol vs.length)
  simp only [laidOut, List.append_assoc] at hput
  simp only [defineValue, define, laidOut, Bool.false_eq_true, if_false, List.length_append, List.length_singleton,
    List.mapIdx_concat]
  rw [← hput]
  rfl

end Scope

/-! ## Bodies -/

namespace Check

open Scope (laidOut)

variable {outer : Lookup} {name : String} {returns : Option SymbolType} {ps : List Parameter} {vs : List VarDec} {s' : Scope}
  {n : Notes}

/-- As long as nothing is found, parameters are added one after the other. -/
theorem parameters_laidOut {more : List Parameter} (hn : (parameters (laidOut name returns ps []) more).2.findings = []) :
    (parameters (laidOut name returns ps []) more).1 = laidOut name returns (ps ++ more) [] := by
  induction more generalizing ps with
  | nil => rw [List.append_nil, parameters]
  | cons p more ih =>
    obtain ⟨hp, hmore⟩ := List.append_eq_nil_iff.mp hn
    rw [parameters, List.append_cons]
    cases hf : (laidOut name returns ps []).find? p.name with
    | some x =>
      rw [hf] at hp
      cases hp
    | none =>
      rw [hf, Scope.defineValue_parameter hf] at hmore
      rw [parameter, hf, Scope.defineValue_parameter hf]
      exact ih hmore

/-- Where nothing is found, the name of a declared variable is new and its first value fits. -/
theorem varDec_plain {s : Scope} {v : VarDec} (h : varDec outer s v = .ok (s', n)) (hn : n.findings = []) :
    s.find? v.name = none ∧ s' = s.defineValue v.name v.type.ty false := by
  obtain ⟨value, m, -, rfl, rfl⟩ := varDec_eq_ok.1 h
  obtain ⟨-, hclose⟩ := List.append_eq_nil_iff.mp hn
  unfold closeVarDec enterVariable at hclose ⊢
  cases hf : s.find? v.name with
  | some x =>
    rw [hf] at hclose
    cases hm : misfit v value <;> simp [hm, duplicate, Notes.found] at hclose
  | none =>
    rw [hf] at hclose
    cases hm : misfit v value with
    | some t => simp [hm, Notes.found] at hclose
    | none => simp

/-- As long as nothing is found, variables are added one after the other. -/
theorem varDecs_laidOut {more : List VarDec} (h : varDecs outer (laidOut name returns ps vs) more = .ok (s', n))
    (hn : n.findings = []) : s' = laidOut name returns ps (vs ++ more) := by
  induction more generalizing vs n with
  | nil =>
    cases h
    rw [List.append_nil]
  | cons v more ih =>
    obtain ⟨q, qs, hq, hqs, h⟩ := Fault.bind_bind_eq_ok.1 h
    obtain ⟨rfl, rfl⟩ := Prod.mk.inj (Except.ok.inj h)
    obtain ⟨hqn, hqsn⟩ := List.append_eq_nil_iff.mp hn
    obtain ⟨hf, hs⟩ := varDec_plain hq hqn
    rw [hs, Scope.defineValue_variable hf] at hqs
    rw [List.append_cons]
    exact ih hqs hqsn

theorem body_laidOut {b : Body} (h : body outer (laidOut name returns ps []) b = .ok (s', n)) (hn : n.findings = []) :
    s' = laidOut name returns ps b.declared := by
  obtain ⟨m, more, hv, -, rfl⟩ := body_eq_ok.1 h
  exact varDecs_laidOut hv (List.append_eq_nil_iff.mp hn).1

theorem function_laidOut {f : FuncDef} (h : function outer (laidOut name returns [] []) f = .ok (s', n))
    (hn : n.findings = []) : s' = laidOut name returns f.parameters f.body.declared := by
  obtain ⟨m, hb, rfl⟩ := function_eq_ok.1 h
  obtain ⟨hpm, -⟩ := List.append_eq_nil_iff.mp hn
  obtain ⟨hp, hm⟩ := List.append_eq_nil_iff.mp hpm
  rw [parameters_laidOut hp] at hb
  exact body_laidOut hb hm

/-- With functions of different names, each fills its own room. -/
theorem surveyFunctions_laidOut {rooms rooms' : Rooms} {fs : List FuncDef} (hd : (fs.map (·.name)).Nodup)
    (hr : ∀ f ∈ fs, rooms f.name = laidOut f.name (some (.value f.returnType)) [] [])
    (h : surveyFunctions outer rooms fs = .ok (rooms', n)) (hn : n.findings = []) :
    ∀ f ∈ fs, rooms' f.name = laidOut f.name (some (.value f.returnType)) f.parameters f.body.declared := by
  induction fs generalizing rooms n with
  | nil => exact nofun
  | cons f fs ih =>
    obtain ⟨q, qs, hq, hqs, h⟩ := Fault.bind_bind_eq_ok.1 h
    obtain ⟨rfl, rfl⟩ := Prod.mk.inj (Except.ok.inj h)
    obtain ⟨hqn, hqsn⟩ := List.append_eq_nil_iff.mp hn
    obtain ⟨hf, hfs⟩ := List.nodup_cons.mp hd
    intro g hg
    rcases List.mem_cons.mp hg with rfl | hg
    · rw [hr g List.mem_cons_self] at hq
      have hothers : ∀ f ∈ fs, f.name ≠ g.name := fun f hm e => hf (List.mem_map.mpr ⟨f, hm, e⟩)
      rw [surveyFunctions_others hqs hothers, Function.update_self]
      exact function_laidOut hq hqn
    · refine ih hfs ?_ hqs hqsn g hg
      intro k hk
      rw [room_of_other hd hk]
      exact hr k (List.mem_cons_of_mem f hk)

theorem survey_laidOut {s : Script} (hd : s.NamesDistinct) {rooms : Rooms} (h : survey s = .ok (rooms, n))
    (hn : n.findings = []) :
    (∀ f ∈ s.functions, rooms f.name = laidOut f.name (some (.value f.returnType)) f.parameters f.body.declared) ∧
      rooms "$main" = laidOut "$main" (some (.value .void)) [] s.main.declared := by
  obtain ⟨q, m, hq, hm, h⟩ := Fault.bind_bind_eq_ok.1 h
  obtain ⟨rfl, rfl⟩ := Prod.mk.inj (Except.ok.inj h)
  obtain ⟨hqn, hmn⟩ := List.append_eq_nil_iff.mp hn
  constructor
  · intro f hf
    rw [Function.update_of_ne (hd.2 f hf)]
    refine surveyFunctions_laidOut hd.1 ?_ hq hqn f hf
    intro g hg
    rw [Script.rooms, Function.update_of_ne (hd.2 g hg), emptyRooms, lastNamed_named hd.1 hg]
    rfl
  · rw [surveyFunctions_others hq hd.2] at hm
    rw [Function.update_self]
    exact body_laidOut hm hmn

end Check

/-! ## The scopes inside the outermost one -/

/-- The names of the scopes inside a scope, in order. -/
def Scopes.childNames (t : Scopes) (n : Nat) : List String := (t.getD n default).children.map Prod.fst

namespace Analysis

theorem childNames_update (t : Scopes) (n m : Nat) (f : Scope → Scope) :
    (t.update n f).childNames m = t.childNames m := by
  simp only [Scopes.childNames, Scopes.update, Scopes.getD_modify]
  split <;> rfl

theorem childNames_createChild {t : Scopes} {n : Nat} (h : n < t.size) {name : String} (hname : name ∉ t.childNames n)
    (r : Option SymbolType) : (t.createChild n name r).childNames n = t.childNames n ++ [name] := by
  have habsent : Assoc.get? name (t.getD n default).children = none := by
    cases hg : Assoc.get? name (t.getD n default).children with
    | none => rfl
    | some m => exact absurd (List.mem_map.mpr ⟨_, Assoc.mem_of_get? hg, rfl⟩) hname
  simp only [Scopes.childNames, Scopes.createChild, Scopes.getD_push, Array.size_modify, Scopes.getD_modify,
    if_neg (Nat.ne_of_lt h), h, and_self, if_true, Assoc.put_of_absent habsent, List.map_append, List.map_cons, List.map_nil]

/-- The first phase makes the scopes of functions in the order of the functions. -/
theorem childNames_functions {fs : List FuncDef} (hd : (fs.map (·.name)).Nodup) :
    (fs.foldl declareFunction start.scopes).childNames global = fs.map (·.name) := by
  induction fs using List.reverseRecOn with
  | nil => rfl
  | append_singleton fs f ih =>
    rw [List.map_append, List.nodup_append] at hd
    obtain ⟨hfs, -, hf⟩ := hd
    have hsize := (furnished_functions fs).nonempty
    rw [List.foldl_append, List.map_append, List.foldl_cons, List.foldl_nil, declareFunction, Scopes.define,
      childNames_createChild, childNames_update, ih hfs]
    · rfl
    · simpa using hsize
    · rw [childNames_update, ih hfs]
      intro hm
      exact hf f.name hm f.name (by simp) rfl

/-- Checks change what is in the scopes, not which scopes there are. -/
theorem childNames_inside {a a' : Analysis} {x : String} {check : Check.Lookup → Scope → Except Fault (Scope × Notes)}
    (h : a.inside x check = .ok a') (n : Nat) : a'.scopes.childNames n = a.scopes.childNames n := by
  obtain ⟨k, r, -, -, h⟩ := Fault.bind_bind_eq_ok.1 h
  cases h
  exact childNames_update a.scopes k n _

theorem childNames_checkFunctions {a a' : Analysis} {fs : List FuncDef} (h : fs.foldlM checkFunction a = .ok a') (n : Nat) :
    a'.scopes.childNames n = a.scopes.childNames n := by
  induction fs generalizing a with
  | nil =>
    cases h
    rfl
  | cons f fs ih =>
    rw [List.foldlM_cons] at h
    obtain ⟨b, hb, h⟩ := Fault.bind_eq_ok.1 h
    exact (ih h).trans (childNames_inside hb n)

theorem childNames_run {s : Script} (hd : s.NamesDistinct) {a : Analysis} (h : run (.script s) false = .ok a) :
    a.scopes.childNames global = s.functions.map (·.name) ++ ["$main"] := by
  obtain ⟨b, hb, h⟩ := Fault.bind_eq_ok.1 h
  rw [childNames_inside h, childNames_checkFunctions hb]
  show (declareMain (s.functions.foldl declareFunction start.scopes)).childNames global = _
  rw [declareMain, childNames_createChild (furnished_functions s.functions).nonempty, childNames_functions hd.1]
  rw [childNames_functions hd.1]
  intro hm
  obtain ⟨f, hf, e⟩ := List.mem_map.mp hm
  exact hd.2 f hf e

/-- Where an analysis finds nothing, the outermost scope has each function with its type, and inside it are the scopes
    of the functions in their order and that of the main part. The scope of a function has its parameters and variables
    as they are declared, each kind numbered from zero on, and so has that of the main part. -/
theorem layout_of_clean {s : Script} (distinct : s.NamesDistinct) {a : Analysis} (h : run (.script s) false = .ok a)
    (clean : a.log.total = 0) :
    a.scopes.childNames global = s.functions.map (·.name) ++ ["$main"] ∧
    (∀ f ∈ s.functions,
      (a.scopes.resolve global f.name).bind (·.type) = some (.function (f.parameters.map (·.type.ty)) f.returnType) ∧
      ∃ n, a.scopes.childNamed global f.name = some n ∧
        (a.scopes.scope n).Layout f.returnType f.parameters f.body.declared) ∧
    ∃ n, a.scopes.childNamed global "$main" = some n ∧ (a.scopes.scope n).Layout .void [] s.main.declared := by
  have hn : a.notes.findings = [] := (ErrorLog.total_ofFindings_eq_zero _).mp clean
  obtain ⟨rooms, hs, hfur⟩ := survey_of_run h
  obtain ⟨hfs, hmain⟩ := Check.survey_laidOut distinct hs hn
  refine ⟨childNames_run distinct h, ?_, ?_⟩
  · intro f hf
    obtain ⟨n, hc, hscope⟩ := hfur.room f.name (.inr ⟨f, hf, rfl⟩)
    refine ⟨?_, n, hc, ?_⟩
    · rw [Scopes.resolve_outermost hfur.outermost, hfur.around, globals, lastNamed_named distinct.1 hf]
      rfl
    · rw [hscope, hfs f hf]
      exact Scope.laidOut_layout
  · obtain ⟨n, hc, hscope⟩ := hfur.room "$main" (.inl rfl)
    refine ⟨n, hc, ?_⟩
    rw [hscope, hmain]
    exact Scope.laidOut_layout

/-- Two functions and a main part, with parameters and variables in all of them. -/
def threeBodies : Script where
  functions := [
    { name := "add", parameters := [⟨⟨1, 3⟩, "x", .int⟩, ⟨⟨1, 7⟩, "y", .int⟩], returns := some .int
      body :=
        { declared := [⟨⟨1, 14⟩, "z", .int, some (.binary .plus (.reference ⟨1, 19⟩ "x") (.reference ⟨1, 21⟩ "y"))⟩]
          block := ⟨⟨1, 22⟩, [.leave ⟨1, 22⟩ (some (.reference ⟨1, 23⟩ "z"))]⟩ } },
    { name := "show", parameters := [⟨⟨2, 28⟩, "b", .bool⟩], returns := none
      body := { declared := [], block := ⟨⟨2, 33⟩, [.print ⟨2, 33⟩ (.reference ⟨2, 34⟩ "b")]⟩ } }]
  main :=
    { declared := [⟨⟨3, 36⟩, "n", .int, some (.intLiteral ⟨3, 41⟩ "1")⟩, ⟨⟨4, 42⟩, "b", .bool, none⟩]
      block := ⟨⟨5, 46⟩, [.assign ⟨5, 46⟩ "n" (.call ⟨5, 48⟩ "add" [.reference ⟨5, 50⟩ "n", .intLiteral ⟨5, 52⟩ "2"]),
        .call ⟨⟨6, 54⟩, "show", [.reference ⟨6, 56⟩ "b"]⟩]⟩ }

theorem threeBodies_layout : ∃ a, run (.script threeBodies) false = .ok a ∧ a.log.total = 0 ∧
    a.scopes.childNames global = ["add", "show", "$main"] ∧
    ∃ n, a.scopes.childNamed global "$main" = some n ∧ (a.scopes.scope n).Layout .void [] threeBodies.main.declared := by
  obtain ⟨t, h, -⟩ := run_script threeBodies
  obtain ⟨hnames, -, hmain⟩ := layout_of_clean (by decide) h rfl
  exact ⟨_, h, rfl, hnames, hmain⟩

end Analysis

end NimbleLang
