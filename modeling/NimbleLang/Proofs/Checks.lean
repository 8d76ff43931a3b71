import NimbleLang.Check.Body

/-!
How checks are put together. A check that goes on after another one succeeds if both do; notes are added at the end
of notes. The check of a declared variable falls into two parts, the check of its first value (`initialiser`) and
what is then entered in the scope (`closeVarDec`); only the first can fail.
-/

namespace NimbleLang

/-- A computation that goes on after another one succeeds if both do. -/
theorem Fault.bind_eq_ok {α β : Type} {x : Except Fault α} {f : α → Except Fault β} {r : β} :
    (x >>= f) = .ok r ↔ ∃ a, x = .ok a ∧ f a = .ok r := by
  cases x with
  | error e => exact ⟨nofun, nofun⟩
  | ok a => exact ⟨fun h => ⟨a, rfl, h⟩, fun ⟨_, h, hf⟩ => by cases h; exact hf⟩

theorem Fault.bind_bind_eq_ok {α β γ : Type} {x : Except Fault α} {f : α → Except Fault β} {g : α → β → Except Fault γ}
    {r : γ} : (x >>= fun a => f a >>= g a) = .ok r ↔ ∃ a b, x = .ok a ∧ f a = .ok b ∧ g a b = .ok r := by
  simp only [bind_eq_ok, exists_and_left]

theorem Fault.bind_eq_error {α β : Type} {x : Except Fault α} {f : α → Except Fault β} {e : Fault} :
    (x >>= f) = .error e ↔ x = .error e ∨ ∃ a, x = .ok a ∧ f a = .error e := by
  cases x with
  | error e' => exact ⟨fun h => .inl (congrArg Except.error (Except.error.inj h)), fun
    | .inl h => congrArg Except.error (Except.error.inj h)⟩
  | ok a => exact ⟨fun h => .inr ⟨a, rfl, h⟩, fun
    | .inr ⟨_, h, hf⟩ => Except.ok.inj h ▸ hf⟩

namespace Notes

theorem append_none (a : Notes) : a ++ none = a := by
  show Notes.mk (a.findings ++ []) (a.types ++ []) = a
  rw [List.append_nil, List.append_nil]

theorem append_assoc (a b c : Notes) : a ++ b ++ c = a ++ (b ++ c) := by
  show Notes.mk (a.findings ++ b.findings ++ c.findings) (a.types ++ b.types ++ c.types) = _
  rw [List.append_assoc, List.append_assoc]
  rfl

end Notes

namespace Check

/-! ## Names in expressions -/

/-- What a call comes to: the result of a function that all arguments fit, or a finding. -/
theorem callType_ok {look : Lookup} {c : Call} {types : List Ty} {t : Ty} {n : Notes}
    (h : callType look c types = .ok (t, n)) :
    (∃ s ps, look c.name = some s ∧ s.type = some (.function ps t) ∧ misfits (c.args.zip types) ps = [] ∧
      n = Notes.none) ∨
    (t = .error ∧ (∃ m, n = Notes.found (.call c) .invalidCall m) ∧
      (look c.name = none ∨ ∃ s ps r, look c.name = some s ∧ s.type = some (.function ps r) ∧
        misfits (c.args.zip types) ps ≠ [])) := by
  unfold callType at h
  split at h
  · rename_i hf
    cases h
    exact .inr ⟨rfl, ⟨_, rfl⟩, .inl hf⟩
  · rename_i s hf
    split at h
    · rename_i ps r hs
      split at h
      · rename_i hm
        cases h
        exact .inl ⟨s, ps, hf, hs, hm, rfl⟩
      · rename_i hm
        cases h
        exact .inr ⟨rfl, ⟨_, rfl⟩, .inr ⟨s, ps, r, hf, hs, hm⟩⟩
    · cases h

/-- What a name used as a variable comes to: the type of a variable, or a finding. -/
theorem referenceType_cases (look : Lookup) (e : Expr) (x : String) :
    (∃ s t, look x = some s ∧ s.type = some (.value t) ∧ t ≠ .error ∧ referenceType look e x = (t, Notes.none)) ∨
    ((∀ s t, look x = some s → s.type = some (.value t) → t = .error) ∧
      ∃ c m, (c = .undefinedName ∨ c = .functionUsedAsVariable) ∧
        referenceType look e x = (.error, Notes.found (.expr e) c m)) := by
  unfold referenceType
  cases hf : look x with
  | none => exact .inr ⟨nofun, _, _, .inl rfl, rfl⟩
  | some s =>
    dsimp only
    cases hs : s.type with
    | none =>
      refine .inr ⟨?_, _, _, .inr rfl, rfl⟩
      intro s' t h ht
      cases h
      cases hs.symm.trans ht
    | some st =>
      cases st with
      | function ps r =>
        refine .inr ⟨?_, _, _, .inr rfl, rfl⟩
        intro s' t h ht
        cases h
        cases hs.symm.trans ht
      | value t =>
        by_cases e : t = .error
        · subst e
          refine .inr ⟨?_, _, _, .inl rfl, rfl⟩
          intro s' t h ht
          cases h
          cases hs.symm.trans ht
          rfl
        · refine .inl ⟨s, t, rfl, hs, e, ?_⟩
          cases t <;> first | rfl | exact absurd rfl e

theorem expr_reference (look : Lookup) (p : Place) (x : String) :
    expr look (.reference p x) =
      .ok ((referenceType look (.reference p x) x).1,
        Notes.typed (.expr (.reference p x)) (referenceType look (.reference p x) x).1 ++
          (referenceType look (.reference p x) x).2) := rfl

/-! ## Declared variables -/

/-- The type of a declared variable's first value, if it has one. -/
def initialiser (outer : Lookup) (s : Scope) (v : VarDec) : Except Fault (Option Ty × Notes) :=
  match v.init with
  | none => .ok (none, Notes.none)
  | some e => do
    let (t, notes) ← expr (lookIn outer s) e
    return (some t, notes)

/-- The type of a first value that is not of the declared type. -/
def misfit (v : VarDec) : Option Ty → Option Ty
  | none => none
  | some t => if t = v.type.ty then none else some t

/-- Enters a declaration whose first value has the given type. -/
def closeVarDec (s : Scope) (v : VarDec) (value : Option Ty) : Scope × Notes :=
  let (s', doubled, taken) := enterVariable s v
  match misfit v value with
  | none => (if taken then s' else s'.defineValue v.name v.type.ty false, doubled)
  | some t => (s'.defineValue v.name .error false, doubled ++ Notes.typed (.varDec v) .error ++
        Notes.found (.varDec v) .assignToWrongType ("Can't assign " ++ t.spell ++ " to variable of type " ++ v.type.name))

theorem varDec_eq (outer : Lookup) (s : Scope) (v : VarDec) :
    varDec outer s v = (do
      let (value, notes) ← initialiser outer s v
      let (s, more) := closeVarDec s v value
      return (s, notes ++ more)) := by
  unfold varDec initialiser
  cases v.init with
  | none => rfl
  | some e =>
    dsimp only
    cases expr (lookIn outer s) e with
    | error f => rfl
    | ok r =>
      by_cases h : r.1 = v.type.ty
      · simp only [bind, Except.bind, pure, Except.pure, closeVarDec, misfit, h, if_true]
      · simp only [bind, Except.bind, pure, Except.pure, closeVarDec, misfit, h, if_false, Notes.append_assoc]

theorem varDec_eq_ok {outer : Lookup} {s s' : Scope} {v : VarDec} {n : Notes} :
    varDec outer s v = .ok (s', n) ↔ ∃ value m, initialiser outer s v = .ok (value, m) ∧
      s' = (closeVarDec s v value).1 ∧ n = m ++ (closeVarDec s v value).2 := by
  rw [varDec_eq, Fault.bind_eq_ok]
  constructor
  · intro h
    obtain ⟨⟨value, m⟩, hi, h⟩ := h
    obtain ⟨hs, hn⟩ := Prod.mk.inj (Except.ok.inj h)
    exact ⟨value, m, hi, hs.symm, hn.symm⟩
  · intro h
    obtain ⟨value, m, hi, rfl, rfl⟩ := h
    exact ⟨(value, m), hi, rfl⟩

/-! ## Bodies -/

theorem body_eq_ok {outer : Lookup} {s s' : Scope} {b : Body} {n : Notes} :
    body outer s b = .ok (s', n) ↔ ∃ m more, varDecs outer s b.declared = .ok (s', m) ∧
      statements (lookIn outer s') s'.returns b.block.statements = .ok more ∧
      n = m ++ (more ++ Notes.ofFindings (markAfterStop b.block.statements)) := by
  rw [body, Fault.bind_eq_ok]
  constructor
  · intro h
    obtain ⟨⟨s₁, m⟩, hv, h⟩ := h
    obtain ⟨k, hk, h⟩ := Fault.bind_eq_ok.1 h
    obtain ⟨more, hm, hk⟩ := Fault.bind_eq_ok.1 hk
    obtain ⟨hs, hn⟩ := Prod.mk.inj (Except.ok.inj h)
    subst hs
    exact ⟨m, more, hv, hm, hn.symm.trans (congrArg (m ++ ·) (Except.ok.inj hk).symm)⟩
  · intro h
    obtain ⟨m, more, hv, hm, rfl⟩ := h
    exact ⟨(s', m), hv, Fault.bind_eq_ok.2 ⟨_, Fault.bind_eq_ok.2 ⟨more, hm, rfl⟩, rfl⟩⟩

theorem function_eq_ok {outer : Lookup} {s s' : Scope} {f : FuncDef} {n : Notes} :
    function outer s f = .ok (s', n) ↔ ∃ m, body outer (parameters s f.parameters).1 f.body = .ok (s', m) ∧
      n = (parameters s f.parameters).2 ++ m ++
        Notes.ofFindings (if f.returns.isSome then missingReturn f.body.block else []) := by
  rw [function, Fault.bind_eq_ok]
  constructor
  · intro h
    obtain ⟨⟨s₁, m⟩, hb, h⟩ := h
    obtain ⟨hs, hn⟩ := Prod.mk.inj (Except.ok.inj h)
    subst hs
    exact ⟨m, hb, hn.symm⟩
  · intro h
    obtain ⟨m, hb, rfl⟩ := h
    exact ⟨(s', m), hb, rfl⟩

end Check

end NimbleLang
