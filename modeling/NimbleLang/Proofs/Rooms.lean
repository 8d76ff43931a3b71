import Mathlib.Data.List.Induction
import Mathlib.Logic.Function.Basic
import NimbleLang.Check.Analysis
import NimbleLang.Proofs.Checks

/-!
The two phases of an analysis, seen from the bodies. A script has one room, the scope of a body, for each name among
its functions and one for the main part. The first phase leaves every room empty, and in the scope around them the
functions, the last one of each name. The second phase goes from body to body: each is checked in the room of its
name as the bodies before it left it, and changes no other room.

`survey` says just that, without numbers of scopes; `run_script` is that an analysis does what the survey does, with
the same findings, the same types and the same faults. The scopes at the end are the rooms at the end (`Furnished`).
-/

namespace NimbleLang

/-! ## Tables of scopes -/

namespace Scopes

theorem getD_modify (t : Scopes) (n m : Nat) (g : Nested → Nested) :
    (t.modify n g).getD m default = if n = m ∧ m < t.size then g (t.getD m default) else t.getD m default := by
  simp only [Array.getD_eq_getD_getElem?, Array.getElem?_modify]
  by_cases hm : m < t.size
  · by_cases hn : n = m <;> simp [hn, hm]
  · simp [hm]

@[simp] theorem size_update (t : Scopes) (n : Nat) (f : Scope → Scope) : (t.update n f).size = t.size :=
  Array.size_modify

theorem scope_update_self {t : Scopes} {n : Nat} (h : n < t.size) (f : Scope → Scope) :
    (t.update n f).scope n = f (t.scope n) := by
  simp only [scope, update, getD_modify, h, and_self, if_true]

theorem scope_update_ne (t : Scopes) {n m : Nat} (h : m ≠ n) (f : Scope → Scope) :
    (t.update n f).scope m = t.scope m := by
  simp only [scope, update, getD_modify]
  rw [if_neg fun hn => h hn.1.symm]

@[simp] theorem childNamed_update (t : Scopes) (n m : Nat) (f : Scope → Scope) (x : String) :
    (t.update n f).childNamed m x = t.childNamed m x := by
  simp only [childNamed, update, getD_modify]
  split <;> rfl

@[simp] theorem enclosing_update (t : Scopes) (n m : Nat) (f : Scope → Scope) :
    (t.update n f).enclosing m = t.enclosing m := by
  simp only [enclosing, update, getD_modify]
  split <;> rfl

theorem getD_push (t : Scopes) (x : Nested) (m : Nat) :
    (t.push x).getD m default = if m = t.size then x else t.getD m default := by
  simp only [Array.getD_eq_getD_getElem?, Array.getElem?_push]
  split <;> rfl

@[simp] theorem size_createChild (t : Scopes) (n : Nat) (name : String) (r : Option SymbolType) :
    (t.createChild n name r).size = t.size + 1 := by
  simp [createChild]

theorem scope_createChild (t : Scopes) (n m : Nat) (name : String) (r : Option SymbolType) :
    (t.createChild n name r).scope m = if m = t.size then { name, returns := r } else t.scope m := by
  simp only [scope, createChild, getD_push, Array.size_modify, getD_modify]
  split
  · rfl
  · split <;> rfl

theorem enclosing_createChild (t : Scopes) (n m : Nat) (name : String) (r : Option SymbolType) :
    (t.createChild n name r).enclosing m = if m = t.size then some n else t.enclosing m := by
  simp only [enclosing, createChild, getD_push, Array.size_modify, getD_modify]
  split
  · rfl
  · split <;> rfl

theorem childNamed_createChild {t : Scopes} {n : Nat} (h : n < t.size) (name x : String) (r : Option SymbolType) :
    (t.createChild n name r).childNamed n x = if x = name then some t.size else t.childNamed n x := by
  simp only [childNamed, createChild, getD_push, Array.size_modify, getD_modify, if_neg (Nat.ne_of_lt h), h, and_self,
    if_true]
  by_cases hx : x = name
  · rw [if_pos hx, hx, Assoc.get?_put_self]
  · rw [if_neg hx, Assoc.get?_put_of_ne hx]

/-- Outside of all scopes there is nothing to look in. -/
theorem resolve_outermost {t : Scopes} {n : Nat} (h : t.enclosing n = none) (x : String) :
    t.resolve n x = (t.scope n).find? x := by
  rw [resolve, h]
  cases (t.scope n).find? x <;> rfl

end Scopes

/-! ## Rooms -/

/-- The scope of each name that has one. -/
abbrev Rooms := String → Scope

/-- The last function of a name. -/
def lastNamed (fs : List FuncDef) (x : String) : Option FuncDef := fs.reverse.find? (·.name = x)

theorem lastNamed_snoc (fs : List FuncDef) (f : FuncDef) (x : String) :
    lastNamed (fs ++ [f]) x = if f.name = x then some f else lastNamed fs x := by
  by_cases h : f.name = x <;> simp [lastNamed, h]

/-- What names stand for outside of all bodies. -/
def globals (fs : List FuncDef) : Check.Lookup := fun x =>
  (lastNamed fs x).map fun f => { name := x, type := some f.type }

/-- The rooms before anything is checked. -/
def emptyRooms (fs : List FuncDef) : Rooms := fun x =>
  { name := x, returns := (lastNamed fs x).map fun f => .value f.returnType }

/-- With functions of different names, a change of one room leaves the others as they are. -/
theorem room_of_other {f g : FuncDef} {fs : List FuncDef} (hd : ((f :: fs).map (·.name)).Nodup) (hg : g ∈ fs)
    (rooms : Rooms) (s : Scope) : Function.update rooms f.name s g.name = rooms g.name := by
  have hf := (List.nodup_cons.mp hd).1
  have hne : g.name ≠ f.name := by
    intro e
    exact hf (List.mem_map.mpr ⟨g, hg, e⟩)
  exact Function.update_of_ne hne s rooms

def mainRoom : Scope := { name := "$main", returns := some (.value .void) }

/-- The rooms of a script before anything is checked; that of the main part comes last. -/
def Script.rooms (s : Script) : Rooms := Function.update (emptyRooms s.functions) "$main" mainRoom

namespace Check

/-- Checks functions one after the other, each in the room of its name. -/
def surveyFunctions (outer : Lookup) (rooms : Rooms) : List FuncDef → Except Fault (Rooms × Notes)
  | [] => .ok (rooms, Notes.none)
  | f :: fs => do
    let (s, notes) ← function outer (rooms f.name) f
    let (rooms, more) ← surveyFunctions outer (Function.update rooms f.name s) fs
    .ok (rooms, notes ++ more)

/-- Checks all bodies of a script, the main part last. -/
def survey (s : Script) : Except Fault (Rooms × Notes) := do
  let (rooms, notes) ← surveyFunctions (globals s.functions) s.rooms s.functions
  let (own, more) ← body (globals s.functions) (rooms "$main") s.main
  .ok (Function.update rooms "$main" own, notes ++ more)

end Check

/-! ## Tables that hold rooms -/

/-- A table holds the rooms of some names: they are its scopes of these names, each apart from the others and inside
    the outermost scope, in which names stand for what `outer` says. -/
structure Furnished (t : Scopes) (outer : Check.Lookup) (named : String → Prop) (rooms : Rooms) : Prop where
  nonempty : Analysis.global < t.size
  outermost : t.enclosing Analysis.global = none
  around : ∀ x, (t.scope Analysis.global).find? x = outer x
  inside : ∀ x n, t.childNamed Analysis.global x = some n →
    n ≠ Analysis.global ∧ n < t.size ∧ t.enclosing n = some Analysis.global
  apart : ∀ x y n, t.childNamed Analysis.global x = some n → t.childNamed Analysis.global y = some n → x = y
  room : ∀ x, named x → ∃ n, t.childNamed Analysis.global x = some n ∧ t.scope n = rooms x

namespace Furnished

variable {t : Scopes} {outer : Check.Lookup} {named : String → Prop} {rooms : Rooms}

section

variable (h : Furnished t outer named rooms)
include h

theorem around_room {x : String} {n : Nat} (hn : t.childNamed Analysis.global x = some n) : Analysis.around t n = outer := by
  funext y
  rw [Analysis.around, (h.inside x n hn).2.2]
  show t.resolve Analysis.global y = outer y
  rw [Scopes.resolve_outermost h.outermost, h.around]

/-- A change of one scope is a change of one room. -/
theorem update {x : String} {n : Nat} (hn : t.childNamed Analysis.global x = some n) (s : Scope) :
    Furnished (t.update n fun _ => s) outer named (Function.update rooms x s) := by
  have hglobal : Analysis.global ≠ n := (h.inside x n hn).1.symm
  refine ⟨by simpa using h.nonempty, by simpa using h.outermost, ?_, by simpa using h.inside, by simpa using h.apart, ?_⟩
  · intro y
    rw [Scopes.scope_update_ne t hglobal, h.around]
  · intro y hy
    obtain ⟨m, hm, hs⟩ := h.room y hy
    refine ⟨m, by simpa using hm, ?_⟩
    by_cases e : y = x
    · subst e
      have : m = n := Option.some.inj (hm.symm.trans hn)
      rw [this, Scopes.scope_update_self (h.inside y n hn).2.1, Function.update_self]
    · have : m ≠ n := fun e' => e (h.apart y x m hm (e' ▸ hn))
      rw [Scopes.scope_update_ne t this, Function.update_of_ne e, hs]

/-- A new scope inside the outermost one is one more room. -/
theorem createChild (x : String) (r : Option SymbolType) :
    Furnished (t.createChild Analysis.global x r) outer (fun y => y = x ∨ named y)
      (Function.update rooms x { name := x, returns := r }) := by
  have hg := Nat.ne_of_lt h.nonempty
  refine ⟨by rw [Scopes.size_createChild]; exact Nat.lt_succ_of_lt h.nonempty, ?_, ?_, ?_, ?_, ?_⟩
  · rw [Scopes.enclosing_createChild, if_neg hg, h.outermost]
  · intro y
    rw [Scopes.scope_createChild, if_neg hg, h.around]
  · intro y n hn
    rw [Scopes.childNamed_createChild h.nonempty] at hn
    rw [Scopes.enclosing_createChild, Scopes.size_createChild]
    split at hn
    · cases hn
      exact ⟨hg.symm, Nat.lt_succ_self _, if_pos rfl⟩
    · obtain ⟨h1, h2, h3⟩ := h.inside y n hn
      exact ⟨h1, by omega, by rw [if_neg (Nat.ne_of_lt h2), h3]⟩
  · intro y z n hy hz
    rw [Scopes.childNamed_createChild h.nonempty] at hy hz
    split at hy <;> split at hz
    · simp_all
    · cases hy
      exact absurd (h.inside z _ hz).2.1 (Nat.lt_irrefl _)
    · cases hz
      exact absurd (h.inside y _ hy).2.1 (Nat.lt_irrefl _)
    · exact h.apart y z n hy hz
  · intro y hy
    rw [Scopes.childNamed_createChild h.nonempty]
    by_cases e : y = x
    · subst e
      exact ⟨t.size, if_pos rfl, by rw [Scopes.scope_createChild, if_pos rfl, Function.update_self]⟩
    · obtain ⟨n, hn, hs⟩ := h.room y (hy.resolve_left e)
      refine ⟨n, by rw [if_neg e, hn], ?_⟩
      rw [Scopes.scope_createChild, if_neg (Nat.ne_of_lt (h.inside y n hn).2.1), Function.update_of_ne e, hs]

/-- A function defined in the outermost scope changes what names stand for around the rooms, and no room. -/
theorem define (x : String) (ps : List Ty) (r : Ty) : Furnished (t.define Analysis.global x (some (.function ps r)) false)
      (Function.update outer x (some { name := x, type := some (.function ps r) })) named rooms := by
  refine ⟨by simpa [Scopes.define] using h.nonempty, by simpa [Scopes.define] using h.outermost, ?_,
    by simpa [Scopes.define] using h.inside, by simpa [Scopes.define] using h.apart, ?_⟩
  · intro y
    rw [Scopes.define, Scopes.scope_update_self h.nonempty]
    show Assoc.get? y (Assoc.put x _ _) = _
    by_cases e : y = x
    · rw [e, Assoc.get?_put_self, Function.update_self]
    · rw [Assoc.get?_put_of_ne e, Function.update_of_ne e]
      exact h.around y
  · intro y hy
    obtain ⟨n, hn, hs⟩ := h.room y hy
    refine ⟨n, by simpa [Scopes.define] using hn, ?_⟩
    rw [Scopes.define, Scopes.scope_update_ne t (h.inside y n hn).1, hs]

end

end Furnished

/-! ## The first phase -/

theorem globals_snoc (fs : List FuncDef) (f : FuncDef) :
    globals (fs ++ [f]) = Function.update (globals fs) f.name (some { name := f.name, type := some f.type }) := by
  funext x
  by_cases h : x = f.name
  · subst h
    simp [globals, lastNamed_snoc]
  · simp [globals, lastNamed_snoc, h, Ne.symm h]

theorem emptyRooms_snoc (fs : List FuncDef) (f : FuncDef) :
    emptyRooms (fs ++ [f]) =
      Function.update (emptyRooms fs) f.name { name := f.name, returns := some (.value f.returnType) } := by
  funext x
  by_cases h : x = f.name
  · subst h
    simp [emptyRooms, lastNamed_snoc]
  · simp [emptyRooms, lastNamed_snoc, h, Ne.symm h]

theorem furnished_functions (fs : List FuncDef) :
    Furnished (fs.foldl Analysis.declareFunction Analysis.start.scopes) (globals fs) (fun x => ∃ f ∈ fs, f.name = x)
      (emptyRooms fs) := by
  induction fs using List.reverseRecOn with
  | nil =>
    refine ⟨Nat.zero_lt_one, rfl, fun _ => rfl, ?_, ?_, ?_⟩
    · intro x n h
      cases h
    · intro x y n h
      cases h
    · intro x hx
      obtain ⟨f, hf, -⟩ := hx
      cases hf
  | append_singleton fs f ih =>
    rw [List.foldl_append, globals_snoc, emptyRooms_snoc]
    have h := (ih.define f.name (f.parameters.map (·.type.ty)) f.returnType).createChild f.name
      (some (.value f.returnType))
    refine { h with room := ?_ }
    intro x hx
    obtain ⟨g, hg, rfl⟩ := hx
    apply h.room
    rcases List.mem_append.mp hg with hg | hg
    · exact .inr ⟨g, hg, rfl⟩
    · exact .inl (congrArg FuncDef.name (List.mem_singleton.mp hg))

/-- The names of a script's rooms. -/
def Script.Named (s : Script) (x : String) : Prop := x = "$main" ∨ ∃ f ∈ s.functions, f.name = x

/-- The first phase makes the rooms and leaves them empty. -/
theorem declare_script (s : Script) :
    Furnished (Analysis.declare Analysis.start.scopes (.script s)) (globals s.functions) s.Named s.rooms :=
  (furnished_functions s.functions).createChild "$main" (some (.value .void))

/-! ## The second phase -/

namespace Analysis

variable {a : Analysis} {outer : Check.Lookup} {named : String → Prop} {rooms : Rooms}

/-- A check inside a name is a check in its room. -/
theorem inside_room (h : Furnished a.scopes outer named rooms) {x : String} (hx : named x)
    (check : Check.Lookup → Scope → Except Fault (Scope × Notes)) :
    match check outer (rooms x) with
    | .error e => a.inside x check = .error e
    | .ok (s, notes) => ∃ t, a.inside x check = .ok ⟨t, a.notes ++ notes⟩ ∧
        Furnished t outer named (Function.update rooms x s) := by
  obtain ⟨n, hn, hs⟩ := h.room x hx
  have hin : a.inside x check = a.within n check := by
    rw [inside, hn]
    rfl
  rw [hin, within, h.around_room hn, hs]
  cases check outer (rooms x) with
  | error e => rfl
  | ok r => exact ⟨_, rfl, h.update hn r.1⟩

theorem checkFunctions_survey (fs : List FuncDef) (h : Furnished a.scopes outer named rooms)
    (hfs : ∀ f ∈ fs, named f.name) :
    match Check.surveyFunctions outer rooms fs with
    | .error e => fs.foldlM checkFunction a = .error e
    | .ok (rooms', notes) => ∃ t, fs.foldlM checkFunction a = .ok ⟨t, a.notes ++ notes⟩ ∧
        Furnished t outer named rooms' := by
  induction fs generalizing a rooms with
  | nil =>
    refine ⟨a.scopes, ?_, h⟩
    rw [Notes.append_none]
    rfl
  | cons f fs ih =>
    have hf := inside_room h (hfs f List.mem_cons_self) fun outer s => Check.function outer s f
    rw [Check.surveyFunctions, List.foldlM_cons, checkFunction]
    cases hc : Check.function outer (rooms f.name) f with
    | error e =>
      rw [hc] at hf
      rw [hf]
      rfl
    | ok r =>
      rw [hc] at hf
      obtain ⟨t, ht, hfur⟩ := hf
      have hrest := ih (a := ⟨t, a.notes ++ r.2⟩) hfur (fun g hg => hfs g (List.mem_cons_of_mem f hg))
      rw [ht]
      cases hs : Check.surveyFunctions outer (Function.update rooms f.name r.1) fs with
      | error e =>
        rw [hs] at hrest
        simpa [bind, Except.bind, hs] using hrest
      | ok r' =>
        rw [hs] at hrest
        simpa [bind, Except.bind, hs, Notes.append_assoc] using hrest

/-- An analysis of a script does what the survey of its bodies does. -/
theorem run_script (s : Script) :
    match Check.survey s with
    | .error e => run (.script s) false = .error e
    | .ok (rooms, notes) => ∃ t, run (.script s) false = .ok ⟨t, notes⟩ ∧
        Furnished t (globals s.functions) s.Named rooms := by
  have hfs := checkFunctions_survey (a := { start with scopes := declare start.scopes (.script s) }) s.functions
    (declare_script s) (fun f hf => .inr ⟨f, hf, rfl⟩)
  show match Check.survey s with
    | .error e => (s.functions.foldlM checkFunction _ >>= fun a => a.checkMain s.main) = .error e
    | .ok (rooms, notes) => ∃ t, (s.functions.foldlM checkFunction _ >>= fun a => a.checkMain s.main) = .ok ⟨t, notes⟩ ∧
        Furnished t (globals s.functions) s.Named rooms
  rw [Check.survey]
  cases hc : Check.surveyFunctions (globals s.functions) s.rooms s.functions with
  | error e =>
    rw [hc] at hfs
    rw [hfs]
    rfl
  | ok r =>
    rw [hc] at hfs
    obtain ⟨t, ht, hfur⟩ := hfs
    have hmain := inside_room (a := ⟨t, r.2⟩) hfur (.inl rfl) fun outer own => Check.body outer own s.main
    rw [ht]
    cases hb : Check.body (globals s.functions) (r.1 "$main") s.main with
    | error e | ok r' =>
      rw [hb] at hmain
      simp only [bind, Except.bind, hb]
      exact hmain

/-- What an analysis that comes to its end has found, its survey has found. -/
theorem survey_of_run {s : Script} {a : Analysis} (h : run (.script s) false = .ok a) :
    ∃ rooms, Check.survey s = .ok (rooms, a.notes) ∧ Furnished a.scopes (globals s.functions) s.Named rooms := by
  have hr := run_script s
  cases hs : Check.survey s with
  | error e =>
    rw [hs] at hr
    exact absurd (hr.symm.trans h) nofun
  | ok r =>
    rw [hs] at hr
    obtain ⟨t, ht, hfur⟩ := hr
    cases ht.symm.trans h
    exact ⟨r.1, rfl, hfur⟩

end Analysis

end NimbleLang
