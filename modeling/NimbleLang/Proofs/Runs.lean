import NimbleLang.Fault
import Mathlib.Data.List.Basic

/-!
How runs are reasoned about. `Run.outcome` of a composed run is that of its parts, one after the other (`outcome_bind`).
On top of that stand three ways to say what a run does, each with one rule for every way to compose runs: how it ends
from one state (`Run.Ends`), what it keeps from every state (`Run.Keeps`), and what it does alike from two states
(`Run.Paired`). The proofs about single functions
follow their text with these rules.
-/

namespace NimbleLang

theorem Fault.unless_eq_ok {α : Type} {f : Fault} {o : Option α} {a : α} : f.unless o = .ok a ↔ o = some a := by
  cases o with
  | none => exact ⟨nofun, nofun⟩
  | some b => exact ⟨fun h => congrArg some (Except.ok.inj h), fun h => congrArg Except.ok (Option.some.inj h)⟩

namespace Run

variable {σ τ α β : Type}

/-! ## Outcomes -/

@[simp] theorem outcome_pure (a : α) (s : σ) : (pure a : Run σ α).outcome s = (.ok a, s) := rfl

@[simp] theorem outcome_get (s : σ) : (get : Run σ σ).outcome s = (.ok s, s) := rfl

@[simp] theorem outcome_set (t s : σ) : (set t : Run σ PUnit).outcome s = (.ok ⟨⟩, t) := rfl

@[simp] theorem outcome_modify (f : σ → σ) (s : σ) : (modify f : Run σ PUnit).outcome s = (.ok ⟨⟩, f s) := rfl

@[simp] theorem outcome_lift (x : Except Fault α) (s : σ) : (liftM x : Run σ α).outcome s = (x, s) := by
  cases x <;> rfl

theorem outcome_unless_some (f : Fault) (a : α) (s : σ) : (liftM (f.unless (some a)) : Run σ α).outcome s = (.ok a, s) := rfl

theorem outcome_unless_none (f : Fault) (s : σ) : (liftM (f.unless none) : Run σ α).outcome s = (.error f, s) := rfl

theorem outcome_bind (x : Run σ α) (f : α → Run σ β) (s : σ) :
    (x >>= f).outcome s = match x.outcome s with
      | (.ok a, s') => (f a).outcome s'
      | (.error e, s') => (.error e, s') := by
  simp only [outcome, ExceptT.run_bind, StateT.run_bind]
  rcases StateT.run (ExceptT.run x) s with ⟨_ | _, _⟩ <;> rfl

theorem outcome_bind_ok {x : Run σ α} {s s' : σ} {a : α} (h : x.outcome s = (.ok a, s')) (f : α → Run σ β) :
    (x >>= f).outcome s = (f a).outcome s' := by
  rw [outcome_bind, h]

theorem outcome_bind_error {x : Run σ α} {s s' : σ} {e : Fault} (h : x.outcome s = (.error e, s')) (f : α → Run σ β) :
    (x >>= f).outcome s = (.error e, s') := by
  rw [outcome_bind, h]

theorem outcome_get_bind (f : σ → Run σ β) (s : σ) : ((get : Run σ σ) >>= f).outcome s = (f s).outcome s := rfl

theorem outcome_modify_bind (g : σ → σ) (f : PUnit → Run σ β) (s : σ) :
    ((modify g : Run σ PUnit) >>= f).outcome s = (f ⟨⟩).outcome (g s) := rfl

@[simp] theorem outcome_ofOutcome (f : σ → Except Fault α × σ) (s : σ) : (ofOutcome f).outcome s = f s := rfl

@[simp] theorem outcome_attempt (x : Run σ α) (s : σ) :
    x.attempt.outcome s = (.ok (x.outcome s).1, (x.outcome s).2) := rfl

@[simp] theorem outcome_onPart (read : σ → τ) (write : τ → σ → σ) (x : Run τ α) (s : σ) :
    (onPart read write x).outcome s = ((x.outcome (read s)).1, write (x.outcome (read s)).2 s) := rfl

/-- The last part of a run has the last word only if it fails. -/
theorem outcome_always {x : Run σ α} {last : Run σ Unit} {s s' : σ} {r : Except Fault α} (h : x.outcome s = (r, s')) :
    (always x last).outcome s = match last.outcome s' with
      | (.ok _, s'') => (r, s'')
      | (.error f, s'') => (.error f, s'') := by
  unfold always
  rw [outcome_ofOutcome, h]
  cases r <;> rfl

/-- A fold whose steps leave the state as it is, as long as what `P` says of the rest is kept. -/
theorem outcome_foldlM {f : β → α → Run σ β} {g : β → α → β} {P : β → List α → Prop} {s : σ}
    (h : ∀ b a l, P b (a :: l) → (f b a).outcome s = (.ok (g b a), s) ∧ P (g b a) l) {l : List α} {b : β} (hb : P b l) :
    (l.foldlM f b).outcome s = (.ok (l.foldl g b), s) := by
  induction l generalizing b with
  | nil => rfl
  | cons a l ih =>
    obtain ⟨hstep, hrest⟩ := h b a l hb
    rw [List.foldlM_cons, outcome_bind_ok hstep, ih hrest]
    rfl

/-! ## How a run ends -/

/-- The result of a run and the state it leaves are as `Q` says, or its fault and that state are as `E` says. -/
def Ends (act : Run σ α) (s : σ) (Q : α → σ → Prop) (E : Fault → σ → Prop) : Prop :=
  match act.outcome s with
  | (.ok a, s') => Q a s'
  | (.error f, s') => E f s'

namespace Ends

variable {s : σ} {Q : α → σ → Prop} {R : β → σ → Prop} {E : Fault → σ → Prop} {x : Run σ α}

variable {a : α} {s' : σ} {f : α → Run σ β} {Q' : α → σ → Prop} {E' : Fault → σ → Prop}

theorem of_ok (h : x.outcome s = (.ok a, s')) (hQ : Q a s') : x.Ends s Q E := by
  rw [Ends, h]
  exact hQ

theorem of_outcome {y : Run σ α} {s' : σ} (h : x.outcome s = y.outcome s') (hy : y.Ends s' Q E) : x.Ends s Q E := by
  rw [Ends, h]
  exact hy

/-- A first part whose outcome is known is passed over. -/
theorem after (h : x.outcome s = (.ok a, s')) (hf : (f a).Ends s' R E) :
    (x >>= f).Ends s R E :=
  of_outcome (outcome_bind_ok h f) hf

theorem after_get {f : σ → Run σ β} (hf : (f s).Ends s R E) : ((get : Run σ σ) >>= f).Ends s R E :=
  after (outcome_get s) hf

theorem after_modify {g : σ → σ} {f : PUnit → Run σ β} (hf : (f ⟨⟩).Ends (g s) R E) :
    ((modify g : Run σ PUnit) >>= f).Ends s R E :=
  after (outcome_modify g s) hf

theorem ok (h : x.Ends s Q E) (hx : x.outcome s = (.ok a, s')) : Q a s' := by
  rw [Ends, hx] at h
  exact h

theorem error (h : x.Ends s Q E) {f : Fault} (hx : x.outcome s = (.error f, s')) : E f s' := by
  rw [Ends, hx] at h
  exact h

theorem lift {y : Except Fault α} (hQ : ∀ a, y = .ok a → Q a s) (hE : ∀ f, y = .error f → E f s) :
    Ends (liftM y : Run σ α) s Q E := by
  cases y with
  | ok a => exact hQ a rfl
  | error f => exact hE f rfl

theorem bind (hx : x.Ends s Q E) (hf : ∀ a s', Q a s' → (f a).Ends s' R E) : (x >>= f).Ends s R E := by
  unfold Ends at hx ⊢
  rw [outcome_bind]
  rcases he : x.outcome s with ⟨e | a, s'⟩ <;> rw [he] at hx
  · exact hx
  · exact hf a s' hx

theorem trivial (x : Run σ α) (s : σ) : x.Ends s (fun _ _ => True) fun _ _ => True := by
  unfold Ends
  split <;> exact True.intro

theorem imp (h : x.Ends s Q E) (hQ : ∀ a s', Q a s' → Q' a s')
    (hE : ∀ f s', E f s' → E' f s') : x.Ends s Q' E' := by
  unfold Ends at h ⊢
  rcases he : x.outcome s with ⟨e | a, s'⟩ <;> rw [he] at h
  · exact hE e s' h
  · exact hQ a s' h

theorem and (h : x.Ends s Q E) (h' : x.Ends s Q' E') :
    x.Ends s (fun a s' => Q a s' ∧ Q' a s') fun f s' => E f s' ∧ E' f s' := by
  unfold Ends at h h' ⊢
  rcases he : x.outcome s with ⟨e | a, s'⟩ <;> rw [he] at h h' <;> exact ⟨h, h'⟩

theorem always {last : Run σ Unit} {E' : Fault → σ → Prop} {Q' : α → σ → Prop} (hx : x.Ends s Q E)
    (hlast : ∀ a s', Q a s' → last.Ends s' (fun _ => Q' a) E') (hfail : ∀ f s', E f s' → last.Ends s' (fun _ => E' f) E') :
    (always x last).Ends s Q' E' := by
  unfold Ends at hx ⊢
  rcases he : x.outcome s with ⟨e | a, s'⟩ <;> rw [he] at hx <;> rw [outcome_always he]
  · have h := hfail e s' hx
    unfold Ends at h
    rcases hl : last.outcome s' with ⟨e' | u, s''⟩ <;> rw [hl] at h <;> exact h
  · have h := hlast a s' hx
    unfold Ends at h
    rcases hl : last.outcome s' with ⟨e' | u, s''⟩ <;> rw [hl] at h <;> exact h

end Ends

/-! ## What a run keeps -/

/-- What holds before a run holds after it; after a run that fails, `J` does. -/
def Keeps (I : σ → Prop) (J : Fault → σ → Prop) (act : Run σ α) : Prop := ∀ s, I s → act.Ends s (fun _ => I) J

namespace Keeps

variable {I : σ → Prop} {J : Fault → σ → Prop}

theorem pure (a : α) : Keeps I J (pure a : Run σ α) := fun _ h => h

theorem get : Keeps I J (get : Run σ σ) := fun _ h => h

theorem throw {f : Fault} (weaken : ∀ s, I s → J f s) : Keeps I J (throw f : Run σ α) := fun s h => weaken s h

theorem modify {f : σ → σ} (h : ∀ s, I s → I (f s)) : Keeps I J (modify f : Run σ PUnit) := h

theorem lift {x : Except Fault α} (weaken : ∀ f, x = .error f → ∀ s, I s → J f s) : Keeps I J (liftM x : Run σ α) :=
  fun s h => .lift (fun _ _ => h) fun f hf => weaken f hf s h

variable {f : α → Run σ β}

theorem bind {x : Run σ α} (hx : Keeps I J x) (hf : ∀ a, Keeps I J (f a)) : Keeps I J (x >>= f) :=
  fun s hs => (hx s hs).bind fun a s' hs' => hf a s' hs'

theorem ite {c : Prop} [Decidable c] {x y : Run σ α} (hx : Keeps I J x) (hy : Keeps I J y) :
    Keeps I J (if c then x else y) := by
  split
  · exact hx
  · exact hy

theorem attempt {x : Run σ α} (h : Keeps I (fun _ => I) x) : Keeps I J x.attempt := by
  intro s hs
  have hx := h s hs
  unfold Ends at hx ⊢
  rw [outcome_attempt]
  rcases he : x.outcome s with ⟨e | a, t⟩ <;> rw [he] at hx <;> exact hx

theorem always {x : Run σ α} {last : Run σ Unit} (hx : Keeps I J x) (hlast : Keeps I J last)
    (hfail : ∀ f, Keeps (J f) J last) : Keeps I J (always x last) :=
  fun s hs => (hx s hs).always (fun _ s' h => hlast s' h) fun f s' h => hfail f s' h

end Keeps

/-! ## Two runs side by side -/

/-- From related states two runs come to related states, with the same result or the same fault. Of the result `V`
    holds, of the fault `E`. -/
def Paired (S : σ → σ → Prop) (V : α → Prop) (E : Fault → Prop) (x y : Run σ α) : Prop :=
  ∀ s t, S s t → ∃ r s' t', x.outcome s = (r, s') ∧ y.outcome t = (r, t') ∧ S s' t' ∧ match r with
    | .ok a => V a
    | .error f => E f

namespace Paired

variable {S : σ → σ → Prop} {V : α → Prop} {W : β → Prop} {E : Fault → Prop}

theorem pure {a : α} (h : V a) : Paired S V E (pure a) (pure a) := fun s t hs => ⟨.ok a, s, t, rfl, rfl, hs, h⟩

theorem throw {f : Fault} (h : E f) : Paired S V E (throw f) (throw f) := fun s t hs => ⟨.error f, s, t, rfl, rfl, hs, h⟩

theorem modify {f g : σ → σ} (h : ∀ s t, S s t → S (f s) (g t)) :
    Paired S (fun _ => True) E (modify f) (modify g) := fun s t hs => ⟨.ok ⟨⟩, f s, g t, rfl, rfl, h s t hs, trivial⟩

theorem set {s' t' : σ} (h : S s' t') : Paired S (fun _ => True) E (set s') (set t') :=
  fun _ _ _ => ⟨.ok ⟨⟩, s', t', rfl, rfl, h, trivial⟩

theorem lift {x : Except Fault α} (hV : ∀ a, x = .ok a → V a) (hE : ∀ f, x = .error f → E f) :
    Paired S V E (liftM x) (liftM x) := by
  intro s t hs
  refine ⟨x, s, t, outcome_lift x s, outcome_lift x t, hs, ?_⟩
  cases x with
  | ok a => exact hV a rfl
  | error f => exact hE f rfl

theorem bind {x y : Run σ α} {f g : α → Run σ β} (hx : Paired S V E x y) (hf : ∀ a, V a → Paired S W E (f a) (g a)) :
    Paired S W E (x >>= f) (y >>= g) := by
  intro s t hs
  obtain ⟨r, s', t', hxs, hyt, hs', hr⟩ := hx s t hs
  cases r with
  | error e => exact ⟨.error e, s', t', outcome_bind_error hxs f, outcome_bind_error hyt g, hs', hr⟩
  | ok a =>
    rw [outcome_bind_ok hxs, outcome_bind_ok hyt]
    exact hf a hr s' t' hs'

/-- The state itself is no common result: what comes after has to be paired for every two related states. -/
theorem get {f g : σ → Run σ β} (h : ∀ s t, S s t → Paired S W E (f s) (g t)) :
    Paired S W E (get >>= f) (get >>= g) := fun s t hs => h s t hs s t hs

theorem foldlM {f g : β → α → Run σ β} {l : List α} (h : ∀ b, ∀ a ∈ l, W b → Paired S W E (f b a) (g b a)) {b : β}
    (hb : W b) : Paired S W E (l.foldlM f b) (l.foldlM g b) := by
  induction l generalizing b with
  | nil => exact .pure hb
  | cons a l ih =>
    rw [List.foldlM_cons, List.foldlM_cons]
    exact .bind (h b a List.mem_cons_self hb) fun c hc => ih (fun b a ha => h b a (List.mem_cons_of_mem _ ha)) hc

theorem attempt {x y : Run σ α} (h : Paired S V E x y) :
    Paired S (fun r => (∀ a, r = .ok a → V a) ∧ ∀ f, r = .error f → E f) E x.attempt y.attempt := by
  intro s t hs
  obtain ⟨r, s', t', hxs, hyt, hs', hr⟩ := h s t hs
  refine ⟨.ok r, s', t', by rw [outcome_attempt, hxs], by rw [outcome_attempt, hyt], hs', ?_, ?_⟩
  · rintro a rfl
    exact hr
  · rintro f rfl
    exact hr

theorem always {x y : Run σ α} {last last' : Run σ Unit} (h : Paired S V E x y)
    (hlast : Paired S (fun _ => True) E last last') : Paired S V E (always x last) (always y last') := by
  intro s t hs
  obtain ⟨r, s', t', hxs, hyt, hs', hr⟩ := h s t hs
  obtain ⟨u, s'', t'', hls, hlt, hs'', hu⟩ := hlast s' t' hs'
  rw [outcome_always hxs, outcome_always hyt, hls, hlt]
  cases u with
  | ok _ => exact ⟨r, s'', t'', rfl, rfl, hs'', hr⟩
  | error f => exact ⟨.error f, s'', t'', rfl, rfl, hs'', hu⟩

end Paired

/-- From related states two runs come to related states, and end alike. -/
abbrev Parallel (S : σ → σ → Prop) (x y : Run σ α) : Prop := Paired S (fun _ => True) (fun _ => True) x y

namespace Parallel

variable {S : σ → σ → Prop}

theorem pure (a : α) : Parallel S (pure a) (pure a) := Paired.pure trivial

theorem throw (f : Fault) : Parallel S (throw f : Run σ α) (throw f) := Paired.throw trivial

theorem lift (x : Except Fault α) : Parallel S (liftM x) (liftM x) := Paired.lift (fun _ _ => trivial) fun _ _ => trivial

theorem modify {f g : σ → σ} (h : ∀ s t, S s t → S (f s) (g t)) : Parallel S (modify f) (modify g) := Paired.modify h

theorem set {s t : σ} (h : S s t) : Parallel S (set s) (set t) := Paired.set h

theorem get {f g : σ → Run σ β} (h : ∀ s t, S s t → Parallel S (f s) (g t)) : Parallel S (get >>= f) (get >>= g) :=
  Paired.get h

variable {f g : α → Run σ β}

theorem bind {x y : Run σ α} (hx : Parallel S x y) (hf : ∀ a, Parallel S (f a) (g a)) :
    Parallel S (x >>= f) (y >>= g) := Paired.bind hx fun a _ => hf a

theorem ite {c : Prop} [Decidable c] {x y x' y' : Run σ α} (hx : Parallel S x x') (hy : Parallel S y y') :
    Parallel S (if c then x else y) (if c then x' else y') := by
  split
  · exact hx
  · exact hy

theorem foldlM {f g : β → α → Run σ β} (h : ∀ b a, Parallel S (f b a) (g b a)) (l : List α) (b : β) :
    Parallel S (l.foldlM f b) (l.foldlM g b) := Paired.foldlM (fun b a _ _ => h b a) trivial

theorem onPart {τ : Type} {read : σ → τ} {write : τ → σ → σ} (hread : ∀ s t, S s t → read s = read t)
    (hwrite : ∀ s t x, S s t → S (write x s) (write x t)) (act : Run τ α) :
    Parallel S (Run.onPart read write act) (Run.onPart read write act) := by
  intro s t h
  rw [outcome_onPart, outcome_onPart, hread s t h]
  exact ⟨_, _, _, rfl, rfl, hwrite s t _ h, by split <;> trivial⟩

end Parallel

end Run

end NimbleLang
