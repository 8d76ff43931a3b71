import Mathlib.Data.List.Nodup
import NimbleLang.Proofs.Completion
import NimbleLang.Proofs.Reachability

/-!
The verdict of an analysis is right: with functions of different names and no call of a variable, an analysis comes to
its end, and its log is empty exactly when the script keeps the rules (`clean_iff_wellTyped`).

A finding is about the ways through a block, or about types and names. The first are known already; so a check is
shown here to find nothing of the second kind exactly when the phrase is judged well. What is found in a declaration
changes what its name stands for, so along declarations this is shown only as far as they are well.
-/

namespace NimbleLang

open Fault (bind_eq_ok bind_bind_eq_ok)

/-! ## The log is empty if nothing was found -/

theorem Assoc.put_ne_nil {κ ν : Type} [DecidableEq κ] (k : κ) (v : ν) (m : List (κ × ν)) : Assoc.put k v m ≠ [] := by
  cases m with
  | nil => exact List.cons_ne_nil _ _
  | cons p m =>
    unfold Assoc.put
    split
    · exact List.cons_ne_nil _ _
    · exact List.cons_ne_nil _ _

namespace ErrorLog

/-- A log with an entry on a line is not empty. -/
theorem total_put_pos (line : Int) (es : List (String × LogEntry)) (hes : es ≠ [])
    (ls : List (Int × List (String × LogEntry))) : 0 < ErrorLog.total ⟨Assoc.put line es ls⟩ := by
  have hpos : 0 < es.length := List.length_pos_iff.mpr hes
  induction ls with
  | nil => exact Nat.lt_of_lt_of_le hpos (Nat.le_add_right _ _)
  | cons l ls ih =>
    unfold Assoc.put
    split
    · exact Nat.lt_of_lt_of_le hpos (Nat.le_add_right _ _)
    · exact Nat.lt_of_lt_of_le ih (Nat.le_add_left _ _)

theorem total_ofFindings_eq_zero (fs : List Finding) : (ofFindings fs).total = 0 ↔ fs = [] := by
  induction fs using List.reverseRecOn with
  | nil => exact iff_of_true rfl rfl
  | append_singleton fs f _ =>
    have h : 0 < (ofFindings (fs ++ [f])).total := by
      rw [ofFindings, List.foldl_append]
      exact total_put_pos _ _ (Assoc.put_ne_nil _ _ _) _
    exact iff_of_false (Nat.ne_of_gt h) (by simp)

end ErrorLog

/-! ## Findings that are not about ways -/

/-- Nothing is found wrong with types and names: all findings are about the ways through blocks. -/
def Notes.FlowOnly (n : Notes) : Prop := ∀ f ∈ n.findings, f.category.isFlow = true

namespace Notes

@[simp] theorem flowOnly_append (a b : Notes) : (a ++ b).FlowOnly ↔ a.FlowOnly ∧ b.FlowOnly := List.forall_mem_append
@[simp] theorem flowOnly_none : Notes.none.FlowOnly := List.forall_mem_nil _
@[simp] theorem flowOnly_typed (node : Node) (t : Ty) : (typed node t).FlowOnly := List.forall_mem_nil _

@[simp] theorem flowOnly_found (node : Node) (c : Category) (m : String) :
    (found node c m).FlowOnly ↔ c.isFlow = true := List.forall_mem_singleton

@[simp] theorem flowOnly_require {c : Category} (h : c.isFlow = false) (well : Bool) (node : Node) (m : String) :
    (require well node c m).FlowOnly ↔ well = true := by
  cases well <;> simp [require, h]

@[simp] theorem flowOnly_marks (ss : List Stmt) : (ofFindings (Check.markAfterStop ss)).FlowOnly := by
  intro f hf
  rw [Check.markAfterStop_unreachable hf]
  rfl

theorem flowOnly_missingReturn (f : FuncDef) :
    (ofFindings (if f.returns.isSome then Check.missingReturn f.body.block else [])).FlowOnly := by
  intro g hg
  obtain ⟨-, hg⟩ := List.mem_ite_nil_right.mp hg
  rw [Check.missingReturn_category hg]
  rfl

theorem findings_eq_nil (n : Notes) : n.findings = [] ↔ n.FlowOnly ∧ n.flow = [] := by
  rw [flow, List.filter_eq_nil_iff, FlowOnly]
  constructor
  · intro h
    rw [h]
    exact ⟨List.forall_mem_nil _, List.forall_mem_nil _⟩
  · intro h
    obtain ⟨hy, hn⟩ := h
    exact List.eq_nil_iff_forall_not_mem.mpr fun f hf => hn f hf (hy f hf)

end Notes

/-! ## What names mean, as types -/

namespace Declared

@[simp] theorem ty_inj {a b : Declared} : a.ty = b.ty ↔ a = b := by
  cases a <;> cases b <;> decide

@[simp] theorem ty_ne_error (a : Declared) : a.ty ≠ .error := by
  cases a <;> decide

@[simp] theorem ty_ne_void (a : Declared) : a.ty ≠ .void := by
  cases a <;> decide

end Declared

/-- The type of what a function returns. -/
def returnTy (r : Option Declared) : Ty := (r.map Declared.ty).getD .void

def Meaning.type : Meaning → SymbolType
  | .value τ => .value τ.ty
  | .function ps r => .function (ps.map Declared.ty) (returnTy r)

namespace Meanings

def env (Γ : Meanings) : Typing.Env := fun x => (Γ x).map Meaning.type

variable {x : String}

theorem env_value {Γ : Meanings} {t : Ty} :
    Γ.env x = some (.value t) ↔ ∃ τ : Declared, Γ x = some (.value τ) ∧ t = τ.ty := by
  rw [env, Option.map_eq_some_iff]
  constructor
  · intro h
    obtain ⟨m, hm, ht⟩ := h
    cases m with
    | value τ =>
      cases ht
      exact ⟨τ, hm, rfl⟩
    | function => cases ht
  · intro h
    obtain ⟨τ, hm, rfl⟩ := h
    exact ⟨_, hm, rfl⟩

theorem env_function {Γ : Meanings} {ts : List Ty} {t : Ty} :
    Γ.env x = some (.function ts t) ↔
      ∃ ps r, Γ x = some (.function ps r) ∧ ts = ps.map Declared.ty ∧ t = returnTy r := by
  rw [env, Option.map_eq_some_iff]
  constructor
  · intro h
    obtain ⟨m, hm, ht⟩ := h
    cases m with
    | value => cases ht
    | function ps r =>
      cases ht
      exact ⟨ps, r, hm, rfl, rfl⟩
  · intro h
    obtain ⟨ps, r, hm, rfl, rfl⟩ := h
    exact ⟨_, hm, rfl⟩

end Meanings

theorem fit_iff {τs ps : List Declared} :
    Fit τs ps ↔ ∀ q ∈ (τs.map Declared.ty).zip (ps.map Declared.ty), q.1 = q.2 := by
  simp only [Fit, List.zip_map, List.forall_mem_map, Prod.map_fst, Prod.map_snd, Declared.ty_inj]

namespace Check

open Typing

variable {look : Lookup} {Γ : Meanings} {n : Notes}

/-! ## Expressions -/

variable {t : Ty} {p : Place} {e : Expr} {τ : Declared} {x : String} {c : Call} {τs ps : List Declared}
  {r : Option Declared} {m : Notes} {v : VarDec} {vs : List VarDec}

theorem signType_declared {s : Sign} (h : signType s t ≠ .error) : ∃ τ : Declared, signType s t = τ.ty := by
  cases s <;> cases t <;> first | exact ⟨.int, rfl⟩ | exact ⟨.bool, rfl⟩ | exact absurd rfl h

theorem resultType_declared (op : Operator) : ∃ τ : Declared, resultType op = τ.ty := by
  cases op <;> first | exact ⟨.int, rfl⟩ | exact ⟨.bool, rfl⟩

theorem hasType_signed {s : Sign} :
    HasType Γ (.signed p s e) τ ↔ ∃ ρ, HasType Γ e ρ ∧ signType s ρ.ty = τ.ty := by
  constructor
  · intro h
    cases h with
    | minus h => exact ⟨.int, h, rfl⟩
    | not h => exact ⟨.bool, h, rfl⟩
  · intro h
    obtain ⟨ρ, h, ht⟩ := h
    cases s <;> cases ρ <;> cases τ <;> first | exact .minus h | exact .not h | cases ht

theorem hasType_binary {op : Operator} {l r : Expr} :
    HasType Γ (.binary op l r) τ ↔ HasType Γ l .int ∧ HasType Γ r .int ∧ resultType op = τ.ty := by
  constructor
  · intro h
    cases h with
    | arithmetic ho hl hr | comparison ho hl hr => exact ⟨hl, hr, by cases op <;> first | rfl | simp at ho⟩
  · intro h
    obtain ⟨hl, hr, ht⟩ := h
    cases op <;> cases τ <;> first | exact .arithmetic (by decide) hl hr | exact .comparison (by decide) hl hr | cases ht

section

variable (ha : Agrees look Γ.env)
include ha

theorem referenceType_sound (hn : (referenceType look e x).2.FlowOnly) :
    ∃ τ : Declared, (referenceType look e x).1 = τ.ty ∧ Γ x = some (.value τ) := by
  rcases referenceType_cases look e x with ⟨s, t, hf, hs, -, h⟩ | ⟨-, c, m, hc, h⟩
  · obtain ⟨τ, hτ, ht⟩ := Meanings.env_value.1 (ha.of_some hf hs)
    exact ⟨τ, by rw [h, ht], hτ⟩
  · rw [h] at hn
    rcases hc with rfl | rfl <;> simp [Category.isFlow] at hn

theorem referenceType_complete (e : Expr) (hx : Γ x = some (.value τ)) : referenceType look e x = (τ.ty, Notes.none) := by
  obtain ⟨s, hf, hs⟩ := ha.symbol (Meanings.env_value.2 ⟨τ, hx, rfl⟩)
  rcases referenceType_cases look e x with ⟨s', t, hf', hs', -, h⟩ | ⟨hn, -⟩
  · cases hf.symm.trans hf'
    cases hs.symm.trans hs'
    exact h
  · exact absurd (hn s τ.ty hf hs) τ.ty_ne_error

section

variable (hl : c.args.length = (τs.map Declared.ty).length)
include hl

theorem callType_sound (h : callType look c (τs.map Declared.ty) = .ok (t, n))
    (hn : n.FlowOnly) : ∃ ps r, Γ c.name = some (.function ps r) ∧ Fit τs ps ∧ t = returnTy r := by
  rcases callType_ok h with ⟨s, ts, hf, hs, hm, -⟩ | ⟨-, ⟨m, rfl⟩, -⟩
  · obtain ⟨ps, r, hΓ, rfl, ht⟩ := Meanings.env_function.1 (ha.of_some hf hs)
    exact ⟨ps, r, hΓ, fit_iff.2 ((misfits_eq_nil hl).mp hm), ht⟩
  · simp [Category.isFlow] at hn

theorem callType_complete (hΓ : Γ c.name = some (.function ps r)) (hfit : Fit τs ps)
    (h : callType look c (τs.map Declared.ty) = .ok (t, n)) : n.FlowOnly ∧ t = returnTy r := by
  obtain ⟨s, hf, hs⟩ := ha.symbol (Meanings.env_function.2 ⟨ps, r, hΓ, rfl, rfl⟩)
  rcases callType_ok h with ⟨s', ts, hf', hs', -, rfl⟩ | ⟨-, -, hf' | ⟨s', ts, r', hf', hs', hm⟩⟩
  · cases hf.symm.trans hf'
    cases hs.symm.trans hs'
    exact ⟨Notes.flowOnly_none, rfl⟩
  · cases hf.symm.trans hf'
  · cases hf.symm.trans hf'
    cases hs.symm.trans hs'
    exact absurd ((misfits_eq_nil hl).mpr (fit_iff.1 hfit)) hm

theorem closeCall_sound (h : closeCall look c (τs.map Declared.ty) m = .ok (t, n))
    (hn : n.FlowOnly) : ∃ ps r, Γ c.name = some (.function ps r) ∧ Fit τs ps ∧ t = returnTy r := by
  obtain ⟨q, hq, h⟩ := bind_eq_ok.1 h
  cases h
  obtain ⟨-, hn⟩ : m.FlowOnly ∧ q.2.FlowOnly := by simpa using hn
  exact callType_sound ha hl hq hn

end

end

theorem closeCall_flowOnly {ts : List Ty} (h : closeCall look c ts m = .ok (t, n))
    (hn : n.FlowOnly) : m.FlowOnly := by
  obtain ⟨q, -, h⟩ := bind_eq_ok.1 h
  cases h
  obtain ⟨hm, -⟩ : m.FlowOnly ∧ q.2.FlowOnly := by simpa using hn
  exact hm

theorem closeCall_complete (ha : Agrees look Γ.env)
    (hl : c.args.length = (τs.map Declared.ty).length) (hm : m.FlowOnly)
    (hΓ : Γ c.name = some (.function ps r)) (hfit : Fit τs ps)
    (h : closeCall look c (τs.map Declared.ty) m = .ok (t, n)) : n.FlowOnly ∧ t = returnTy r := by
  obtain ⟨q, hq, h⟩ := bind_eq_ok.1 h
  cases h
  obtain ⟨hn, ht⟩ := callType_complete ha hl hΓ hfit hq
  exact ⟨by simp [hm, hn], ht⟩

mutual
theorem expr_sound (ha : Agrees look Γ.env) {e : Expr} {t : Ty} {n : Notes} (h : expr look e = .ok (t, n))
    (hn : n.FlowOnly) : ∃ τ : Declared, t = τ.ty ∧ HasType Γ e τ := by
  cases e with
  | parens p e =>
    obtain ⟨r, hr, h⟩ := bind_eq_ok.1 h
    cases h
    obtain ⟨hn, -⟩ : r.2.FlowOnly ∧ r.1 ≠ .error := by simpa [Category.isFlow] using hn
    obtain ⟨τ, ht, hτ⟩ := expr_sound ha hr hn
    exact ⟨τ, ht, .parens hτ⟩
  | signed p s e =>
    obtain ⟨r, hr, h⟩ := bind_eq_ok.1 h
    cases h
    obtain ⟨hn, hs⟩ : r.2.FlowOnly ∧ signType s r.1 ≠ .error := by simpa [Category.isFlow] using hn
    obtain ⟨ρ, hρ, he⟩ := expr_sound ha hr hn
    obtain ⟨τ, ht⟩ := signType_declared hs
    exact ⟨τ, ht, hasType_signed.2 ⟨ρ, he, hρ ▸ ht⟩⟩
  | binary op l r =>
    obtain ⟨left, right, hl, hr, h⟩ := bind_bind_eq_ok.1 h
    cases h
    obtain ⟨⟨hnl, hnr⟩, ho⟩ : (left.2.FlowOnly ∧ right.2.FlowOnly) ∧ operatorType op left.1 right.1 ≠ .error := by
      simpa [Category.isFlow] using hn
    obtain ⟨lτ, hlt, hlτ⟩ := expr_sound ha hl hnl
    obtain ⟨rτ, hrt, hrτ⟩ := expr_sound ha hr hnr
    have hi : left.1 = .int ∧ right.1 = .int := by
      by_contra hi
      exact ho (if_neg hi)
    obtain ⟨τ, hτ⟩ := resultType_declared op
    obtain rfl : lτ = .int := Declared.ty_inj.1 (hlt.symm.trans hi.1)
    obtain rfl : rτ = .int := Declared.ty_inj.1 (hrt.symm.trans hi.2)
    exact ⟨τ, (if_pos hi).trans hτ, hasType_binary.2 ⟨hlτ, hrτ, hτ⟩⟩
  | call p f as =>
    obtain ⟨r, c, hr, hc, h⟩ := bind_bind_eq_ok.1 h
    cases h
    obtain ⟨hn, hv⟩ : c.2.FlowOnly ∧ c.1 ≠ .void := by simpa [Category.isFlow] using hn
    obtain ⟨τs, hts, hτs⟩ := args_sound ha hr (closeCall_flowOnly hc hn)
    rw [hts] at hc
    obtain ⟨ps, q, hΓ, hfit, ht⟩ := closeCall_sound ha (by simp [hτs.length_eq]) hc hn
    cases q with
    | none => exact absurd ht hv
    | some τ => exact ⟨τ, (if_neg hv).trans ht, .call hΓ hτs hfit⟩
  | reference p x =>
    rw [expr_reference] at h
    obtain ⟨rfl, rfl⟩ := Prod.mk.inj (Except.ok.inj h)
    rw [Notes.flowOnly_append] at hn
    obtain ⟨τ, ht, hτ⟩ := referenceType_sound ha hn.2
    exact ⟨τ, ht, .reference hτ⟩
  | stringLiteral =>
    cases h
    exact ⟨.string, rfl, .string⟩
  | intLiteral =>
    cases h
    exact ⟨.int, rfl, .int⟩
  | boolLiteral =>
    cases h
    exact ⟨.bool, rfl, .bool⟩

theorem args_sound (ha : Agrees look Γ.env) {as : List Expr} {ts : List Ty} {n : Notes} (h : args look as = .ok (ts, n))
    (hn : n.FlowOnly) : ∃ τs : List Declared, ts = τs.map Declared.ty ∧ List.Forall₂ (HasType Γ) as τs := by
  cases as with
  | nil =>
    cases h
    exact ⟨[], rfl, .nil⟩
  | cons e rest =>
    obtain ⟨r, rs, hr, hrs, h⟩ := bind_bind_eq_ok.1 h
    cases h
    obtain ⟨hn, hns⟩ : r.2.FlowOnly ∧ rs.2.FlowOnly := by simpa using hn
    obtain ⟨τ, ht, hτ⟩ := expr_sound ha hr hn
    obtain ⟨τs, hts, hτs⟩ := args_sound ha hrs hns
    exact ⟨τ :: τs, by rw [ht, hts, List.map_cons], .cons hτ hτs⟩
end

mutual
theorem expr_complete (ha : Agrees look Γ.env) {e : Expr} {τ : Declared} (hτ : HasType Γ e τ) {t : Ty} {n : Notes}
    (h : expr look e = .ok (t, n)) : n.FlowOnly ∧ t = τ.ty := by
  cases e with
  | parens p e =>
    cases hτ with | parens hτ =>
    obtain ⟨r, hr, h⟩ := bind_eq_ok.1 h
    cases h
    obtain ⟨hn, ht⟩ := expr_complete ha hτ hr
    exact ⟨by simp [hn, ht, Category.isFlow], ht⟩
  | signed p s e =>
    obtain ⟨ρ, hρ, hs⟩ := hasType_signed.1 hτ
    obtain ⟨r, hr, h⟩ := bind_eq_ok.1 h
    cases h
    obtain ⟨hn, ht⟩ := expr_complete ha hρ hr
    exact ⟨by simp [hn, ht, hs, Category.isFlow], ht ▸ hs⟩
  | binary op l r =>
    obtain ⟨hlτ, hrτ, ho⟩ := hasType_binary.1 hτ
    obtain ⟨left, right, hl, hr, h⟩ := bind_bind_eq_ok.1 h
    cases h
    obtain ⟨hnl, hlt⟩ := expr_complete ha hlτ hl
    obtain ⟨hnr, hrt⟩ := expr_complete ha hrτ hr
    have ht : operatorType op left.1 right.1 = τ.ty := (if_pos ⟨hlt, hrt⟩).trans ho
    exact ⟨by simp [hnl, hnr, ht, Category.isFlow], ht⟩
  | call p f as =>
    cases hτ with | call hΓ hτs hfit =>
    obtain ⟨r, c, hr, hc, h⟩ := bind_bind_eq_ok.1 h
    cases h
    obtain ⟨hm, hts⟩ := args_complete ha hτs hr
    rw [hts] at hc
    obtain ⟨hn, ht⟩ := closeCall_complete ha (by simp [hτs.length_eq]) hm hΓ hfit hc
    have hv : c.1 = τ.ty := ht
    exact ⟨by simp [hn, hv, Category.isFlow], by simp [hv]⟩
  | reference p x =>
    cases hτ with | reference hx =>
    rw [expr_reference, referenceType_complete ha _ hx] at h
    obtain ⟨rfl, rfl⟩ := Prod.mk.inj (Except.ok.inj h)
    exact ⟨by simp, rfl⟩
  | stringLiteral | intLiteral | boolLiteral =>
    cases hτ
    cases h
    exact ⟨Notes.flowOnly_typed _ _, rfl⟩

theorem args_complete (ha : Agrees look Γ.env) {as : List Expr} {τs : List Declared}
    (hτs : List.Forall₂ (HasType Γ) as τs) {ts : List Ty} {n : Notes} (h : args look as = .ok (ts, n)) :
    n.FlowOnly ∧ ts = τs.map Declared.ty := by
  cases as with
  | nil =>
    cases hτs
    cases h
    exact ⟨Notes.flowOnly_none, rfl⟩
  | cons e rest =>
    cases hτs with | cons hτ hτs =>
    obtain ⟨r, rs, hr, hrs, h⟩ := bind_bind_eq_ok.1 h
    cases h
    obtain ⟨hn, ht⟩ := expr_complete ha hτ hr
    obtain ⟨hns, hts⟩ := args_complete ha hτs hrs
    exact ⟨by simp [hn, hns], by rw [ht, hts, List.map_cons]⟩
end

/-- The two together: what the check says of an expression is what the rules say. -/
theorem expr_judged (ha : Agrees look Γ.env) (h : expr look e = .ok (t, n)) (τ : Declared) :
    n.FlowOnly ∧ t = τ.ty ↔ HasType Γ e τ := by
  constructor
  · intro h
    obtain ⟨hn, ht⟩ := h
    obtain ⟨ρ, hρ, he⟩ := expr_sound ha h hn
    rwa [Declared.ty_inj.1 (ht.symm.trans hρ)]
  · exact fun hτ => expr_complete ha hτ h

theorem call_judged (ha : Agrees look Γ.env) (h : call look c = .ok (t, n)) :
    n.FlowOnly ↔ ∃ ps r τs, Γ c.name = some (.function ps r) ∧ List.Forall₂ (HasType Γ) c.args τs ∧ Fit τs ps := by
  obtain ⟨⟨ts, m⟩, hq, h⟩ := bind_eq_ok.1 h
  constructor
  · intro hn
    obtain ⟨τs, rfl, hτs⟩ := args_sound ha hq (closeCall_flowOnly h hn)
    obtain ⟨ps, r, hΓ, hfit, -⟩ := closeCall_sound ha (by simp [hτs.length_eq]) h hn
    exact ⟨ps, r, τs, hΓ, hτs, hfit⟩
  · intro h
    obtain ⟨ps, r, τs, hΓ, hτs, hfit⟩ := h
    obtain ⟨hm, rfl⟩ := args_complete ha hτs hq
    exact (closeCall_complete ha (by simp [hτs.length_eq]) hm hΓ hfit h).1

/-! ## Statements -/

theorem assignment_judged (ha : Agrees look Γ.env) (own : Stmt) (x : String) (t : Ty) :
    (assignment look own x t).FlowOnly ↔ Γ.env x = some (.value t) := by
  unfold assignment
  cases hf : look x with
  | none => simp [ha.of_none hf, Category.isFlow]
  | some s =>
    have h := ha x
    simp only [hf, Option.map_some] at h
    cases he : Γ.env x with
    | none => simp [he] at h
    | some st =>
      have hs : s.type = some st := by simpa [he] using h
      simp [hs, Category.isFlow]

theorem returned_judged (r : Option Declared) (own : Stmt) (value : Option Ty) :
    (returned (some (.value (returnTy r))) own value).FlowOnly ↔ value = r.map Declared.ty := by
  unfold returned
  cases r with
  | none => cases value <;> simp [returnTy, Category.isFlow]
  | some τ =>
    cases value with
    | none => simp [returnTy, Category.isFlow]
    | some t =>
      by_cases e : τ.ty = t
      · subst e
        simp [returnTy]
      · simp [returnTy, e, Ne.symm e, Category.isFlow]

theorem loopCondition_flowOnly (own : Stmt) (t : Ty) : (loopCondition own t).FlowOnly ↔ t = .bool := by
  simp [loopCondition, Category.isFlow]

theorem ifCondition_flowOnly (own : Stmt) (e : Expr) (t : Ty) : (ifCondition own e t).FlowOnly ↔ t = .bool := by
  simp [ifCondition, Category.isFlow]

theorem accepted_loop {body : List Stmt} :
    Accepted Γ r (.loop p e body) ↔ HasType Γ e .bool ∧ ∀ s ∈ body, Accepted Γ r s :=
  ⟨fun h => by cases h with | loop he hb => exact ⟨he, hb⟩, fun h => .loop h.1 h.2⟩

theorem accepted_ifThen {yes : List Stmt} :
    Accepted Γ r (.ifThen p e yes) ↔ HasType Γ e .bool ∧ ∀ s ∈ yes, Accepted Γ r s :=
  ⟨fun h => by cases h with | ifThen he hy => exact ⟨he, hy⟩, fun h => .ifThen h.1 h.2⟩

theorem accepted_ifElse {yes no : List Stmt} :
    Accepted Γ r (.ifElse p e yes no) ↔
      HasType Γ e .bool ∧ (∀ s ∈ yes, Accepted Γ r s) ∧ ∀ s ∈ no, Accepted Γ r s :=
  ⟨fun h => by cases h with | ifElse he hy hn => exact ⟨he, hy, hn⟩, fun h => .ifElse h.1 h.2.1 h.2.2⟩

mutual
theorem statement_judged (ha : Agrees look Γ.env) {r : Option Declared} {st : Stmt} {n : Notes}
    (h : statement look (some (.value (returnTy r))) st = .ok n) : n.FlowOnly ↔ Accepted Γ r st := by
  cases st with
  | assign p x e =>
    obtain ⟨q, hq, h⟩ := bind_eq_ok.1 h
    cases h
    rw [Notes.flowOnly_append, assignment_judged ha]
    constructor
    · intro h
      obtain ⟨hn, hx⟩ := h
      obtain ⟨τ, hx, ht⟩ := Meanings.env_value.1 hx
      exact .assign hx ((expr_judged ha hq τ).mp ⟨hn, ht⟩)
    · intro h
      cases h with | assign hx he =>
      obtain ⟨hn, ht⟩ := expr_complete ha he hq
      exact ⟨hn, Meanings.env_value.2 ⟨_, hx, ht⟩⟩
  | loop p e body =>
    obtain ⟨q, inner, hq, hi, h⟩ := bind_bind_eq_ok.1 h
    cases h
    rw [accepted_loop, ← expr_judged ha hq, ← statements_judged ha hi]
    simp only [Notes.flowOnly_append, Notes.flowOnly_marks, and_true, loopCondition_flowOnly]
    exact and_right_comm
  | ifThen p e yes =>
    obtain ⟨q, inner, hq, hi, h⟩ := bind_bind_eq_ok.1 h
    cases h
    rw [accepted_ifThen, ← expr_judged ha hq, ← statements_judged ha hi]
    simp only [Notes.flowOnly_append, Notes.flowOnly_marks, and_true, ifCondition_flowOnly]
    exact and_right_comm
  | ifElse p e yes no =>
    obtain ⟨q, innerYes, hq, hy, h⟩ := bind_bind_eq_ok.1 h
    obtain ⟨innerNo, hn, h⟩ := bind_eq_ok.1 h
    cases h
    rw [accepted_ifElse, ← expr_judged ha hq, ← statements_judged ha hy, ← statements_judged ha hn]
    simp only [Notes.flowOnly_append, Notes.flowOnly_marks, and_true, ifCondition_flowOnly]
    constructor
    · intro h
      obtain ⟨⟨⟨he, hy⟩, hn⟩, ht⟩ := h
      exact ⟨⟨he, ht⟩, hy, hn⟩
    · intro h
      obtain ⟨⟨he, ht⟩, hy, hn⟩ := h
      exact ⟨⟨⟨he, hy⟩, hn⟩, ht⟩
  | print p e =>
    obtain ⟨q, hq, h⟩ := bind_eq_ok.1 h
    cases h
    constructor
    · intro hn
      obtain ⟨hn, -⟩ : q.2.FlowOnly ∧ q.1 ≠ .error := by simpa [Category.isFlow] using hn
      obtain ⟨τ, -, he⟩ := expr_sound ha hq hn
      exact .print he
    · intro h
      cases h with | print he =>
      obtain ⟨hn, ht⟩ := expr_complete ha he hq
      simp [hn, ht, Category.isFlow]
  | leave p v =>
    cases v with
    | none =>
      cases h
      rw [returned_judged]
      cases r with
      | none => exact iff_of_true rfl (.leave rfl)
      | some τ => exact iff_of_false nofun fun h => by cases h with | leave h => cases h
    | some e =>
      obtain ⟨q, hq, h⟩ := bind_eq_ok.1 h
      cases h
      rw [Notes.flowOnly_append, returned_judged]
      cases r with
      | none => exact iff_of_false (fun h => nomatch h.2) fun h => by cases h with | leaveWith h => cases h
      | some τ =>
        rw [Option.map_some, Option.some_inj, expr_judged ha hq]
        exact ⟨.leaveWith rfl, fun h => by cases h with | leaveWith h he => cases h; exact he⟩
  | call c =>
    obtain ⟨q, hq, h⟩ := bind_eq_ok.1 h
    cases h
    rw [call_judged ha hq]
    constructor
    · intro h
      obtain ⟨ps, r, τs, hΓ, hτs, hfit⟩ := h
      exact .call hΓ hτs hfit
    · intro h
      cases h with | call hΓ hτs hfit =>
      exact ⟨_, _, _, hΓ, hτs, hfit⟩

theorem statements_judged (ha : Agrees look Γ.env) {r : Option Declared} {ss : List Stmt} {n : Notes}
    (h : statements look (some (.value (returnTy r))) ss = .ok n) : n.FlowOnly ↔ ∀ s ∈ ss, Accepted Γ r s := by
  cases ss with
  | nil =>
    cases h
    exact iff_of_true Notes.flowOnly_none nofun
  | cons st rest =>
    obtain ⟨m, more, hm, hmore, h⟩ := bind_bind_eq_ok.1 h
    cases h
    rw [Notes.flowOnly_append, List.forall_mem_cons, statement_judged ha hm, statements_judged ha hmore]
end

/-! ## Declarations -/

/-- Names that are different from each other and from those there are. -/
def Fresh (xs ys : List String) : Prop := ys.Nodup ∧ ∀ y ∈ ys, y ∉ xs

theorem fresh_nothing (ys : List String) : Fresh [] ys ↔ ys.Nodup := by
  simp [Fresh]

theorem fresh_cons {xs ys : List String} {y : String} : Fresh xs (y :: ys) ↔ y ∉ xs ∧ Fresh (xs ++ [y]) ys := by
  unfold Fresh
  rw [List.nodup_cons, List.forall_mem_cons]
  constructor
  · intro h
    obtain ⟨⟨hy, hys⟩, hx, hxs⟩ := h
    refine ⟨hx, hys, fun z hz hm => ?_⟩
    rcases List.mem_append.mp hm with hm | hm
    · exact hxs z hz hm
    · exact hy (List.mem_singleton.mp hm ▸ hz)
  · intro h
    obtain ⟨hx, hys, hxs⟩ := h
    refine ⟨⟨fun hy => hxs y hy ?_, hys⟩, hx, fun z hz hm => hxs z hz (List.mem_append_left _ hm)⟩
    exact List.mem_append_right _ (List.mem_singleton_self y)

theorem fresh_append {xs ys zs : List String} : Fresh xs (ys ++ zs) ↔ Fresh xs ys ∧ Fresh (xs ++ ys) zs := by
  induction ys generalizing xs with
  | nil => simp [Fresh]
  | cons y ys ih => rw [List.cons_append, fresh_cons, fresh_cons, ih, and_assoc, List.append_cons xs y ys]

theorem nodup_append_iff {ys zs : List String} : (ys ++ zs).Nodup ↔ Fresh [] ys ∧ Fresh ys zs := by
  rw [← fresh_nothing, fresh_append, List.nil_append]

variable {outer : Lookup} {env : Env} {s s' : Scope} {l : Locals} {xs : List String}

/-- What is declared for the first time means what is declared. -/
theorem inside_declare (hΓ : l.inside env = Γ.env) (hx : l x = none) (τ : Declared) :
    (l.declare x τ.ty).inside env = (Γ.declare x τ).env := by
  funext y
  have hy := congrFun hΓ y
  by_cases e : y = x
  · subst e
    simp [Locals.inside, Locals.declare, Meanings.env, Meanings.declare, hx, Meaning.type]
  · simpa [Locals.inside, Locals.declare, Meanings.env, Meanings.declare, e] using hy

theorem not_taken (hx : Names l xs) : l x = none ↔ x ∉ xs := by
  rw [← hx x]
  cases l x <;> simp

theorem duplicate_not_flowOnly (s : Scope) (node : Node) (x : String) : ¬ (duplicate s node x).2.FlowOnly := by
  simp [duplicate, Category.isFlow]

theorem parameter_judged (hs : Holds s l) (hx : Names l xs) (p : Parameter) :
    (parameter s p).2.FlowOnly ↔ p.name ∉ xs := by
  rw [← hx p.name, ← hs.taken]
  unfold parameter
  cases hf : s.find? p.name with
  | none => exact iff_of_true Notes.flowOnly_none Bool.false_ne_true
  | some sym => exact iff_of_false (duplicate_not_flowOnly s (.parameter p) p.name) (not_not_intro rfl)

theorem parameters_judged (hs : Holds s l) (hx : Names l xs) (ps : List Parameter) :
    (parameters s ps).2.FlowOnly ↔ Fresh xs (ps.map (·.name)) := by
  induction ps generalizing s l xs with
  | nil => simp [parameters, Fresh]
  | cons p ps ih =>
    have hp := ih (parameter_types hs p).1 (hx.declare p.name p.type.ty)
    rw [List.map_cons, fresh_cons, ← parameter_judged hs hx, ← hp]
    exact Notes.flowOnly_append _ _

theorem parameters_meaning (hx : Names l xs) (hΓ : l.inside env = Γ.env) {ps : List Parameter}
    (hf : Fresh xs (ps.map (·.name))) : (l.parameters ps).inside env = (Γ.parameters ps).env := by
  induction ps generalizing l xs Γ with
  | nil => exact hΓ
  | cons p ps ih =>
    obtain ⟨hp, hf⟩ := fresh_cons.1 hf
    exact ih (hx.declare p.name p.type.ty) (inside_declare hΓ ((not_taken hx).mpr hp) p.type) hf

theorem initialiser_judged (ha : Agrees (lookIn outer s) Γ.env) {value : Option Ty}
    (h : initialiser outer s v = .ok (value, n)) :
    n.FlowOnly ∧ misfit v value = none ↔ ∀ e, v.init = some e → HasType Γ e v.type := by
  unfold initialiser at h
  cases hi : v.init with
  | none =>
    rw [hi] at h
    cases h
    exact iff_of_true ⟨Notes.flowOnly_none, rfl⟩ nofun
  | some e =>
    rw [hi] at h
    obtain ⟨r, hr, h⟩ := bind_eq_ok.1 h
    cases h
    have hm : misfit v (some r.1) = none ↔ r.1 = v.type.ty := by simp [misfit]
    rw [hm, expr_judged ha hr]
    simp

theorem closeVarDec_judged (hs : Holds s l) (hx : Names l xs) (v : VarDec) (value : Option Ty) :
    (closeVarDec s v value).2.FlowOnly ↔ v.name ∉ xs ∧ misfit v value = none := by
  rw [← hx v.name, ← hs.taken]
  unfold closeVarDec enterVariable
  cases hf : s.find? v.name with
  | none => cases hm : misfit v value <;> simp [Category.isFlow]
  | some sym => cases hm : misfit v value <;> simp [duplicate, Category.isFlow]

section

variable (ho : Agrees outer env) (hs : Holds s l) (hx : Names l xs) (hΓ : l.inside env = Γ.env) (h : varDec outer s v = .ok (s', n))
include ho hs hx hΓ h

theorem varDec_judged : n.FlowOnly ↔ v.name ∉ xs ∧ ∀ e, v.init = some e → HasType Γ e v.type := by
  obtain ⟨value, m, hm, -, rfl⟩ := varDec_eq_ok.1 h
  have ha := hs.agrees ho
  rw [hΓ] at ha
  rw [Notes.flowOnly_append, closeVarDec_judged hs hx, ← initialiser_judged ha hm, and_left_comm]

theorem varDec_meaning (hn : n.FlowOnly) : (l.varDec env v).inside env = (Γ.declare v.name v.type).env := by
  obtain ⟨value, m, hm, -, rfl⟩ := varDec_eq_ok.1 h
  obtain ⟨hf, hv⟩ := (closeVarDec_judged hs hx v value).mp ((Notes.flowOnly_append _ _).mp hn).2
  rw [Locals.varDec, if_pos ((initialiser_types (hs.agrees ho) hm).1.mp hv)]
  exact inside_declare hΓ ((not_taken hx).mpr hf) v.type

end

theorem declares_cons {v : VarDec} {vs : List VarDec} :
    Declares Γ (v :: vs) ↔ (∀ e, v.init = some e → HasType Γ e v.type) ∧ Declares (Γ.declare v.name v.type) vs :=
  ⟨fun h => by cases h with | cons hv hvs => exact ⟨hv, hvs⟩, fun h => .cons h.1 h.2⟩

/-- What the check says of declarations is what the rules say, and then names mean what is declared. -/
theorem varDecs_judged (ho : Agrees outer env) (hs : Holds s l) (hx : Names l xs) (hΓ : l.inside env = Γ.env)
    (h : varDecs outer s vs = .ok (s', n)) :
    (n.FlowOnly ↔ Fresh xs (vs.map (·.name)) ∧ Declares Γ vs) ∧
      (n.FlowOnly → (l.varDecs env vs).inside env = (Γ.varDecs vs).env) := by
  induction vs generalizing s l xs Γ n with
  | nil =>
    cases h
    exact ⟨iff_of_true Notes.flowOnly_none ⟨⟨.nil, nofun⟩, .nil⟩, fun _ => hΓ⟩
  | cons v vs ih =>
    obtain ⟨r, rs, hr, hrs, h⟩ := bind_bind_eq_ok.1 h
    obtain ⟨rfl, rfl⟩ := Prod.mk.inj (Except.ok.inj h)
    have hv := varDec_judged ho hs hx hΓ hr
    -- once something is wrong with a declaration, nothing is known of the names after it
    have hvs := fun hn => ih (varDec_types ho hs hr).1 (hx.declare v.name _) (varDec_meaning ho hs hx hΓ hr hn) hrs
    rw [Notes.flowOnly_append, List.map_cons, fresh_cons, declares_cons]
    refine ⟨?_, fun hn => (hvs hn.1).2 hn.2⟩
    rw [and_congr_right fun hn => (hvs hn).1, hv, and_and_and_comm]

/-! ## Bodies -/

theorem parameters_returns (s : Scope) (ps : List Parameter) : (parameters s ps).1.returns = s.returns := by
  induction ps generalizing s with
  | nil => rfl
  | cons p ps ih =>
    refine (ih _).trans ?_
    show (parameter s p).1.returns = s.returns
    unfold parameter
    split <;> rfl

theorem varDec_returns (h : varDec outer s v = .ok (s', n)) : s'.returns = s.returns := by
  obtain ⟨value, m, -, rfl, -⟩ := varDec_eq_ok.1 h
  unfold closeVarDec enterVariable
  cases s.find? v.name <;> cases misfit v value <;> rfl

theorem varDecs_returns (h : varDecs outer s vs = .ok (s', n)) : s'.returns = s.returns := by
  induction vs generalizing s n with
  | nil =>
    cases h
    rfl
  | cons v vs ih =>
    obtain ⟨r, rs, hr, hrs, h⟩ := bind_bind_eq_ok.1 h
    obtain ⟨rfl, -⟩ := Prod.mk.inj (Except.ok.inj h)
    exact (ih hrs).trans (varDec_returns hr)

theorem body_judged (ho : Agrees outer env) (hs : Holds s l) (hx : Names l xs) (hΓ : l.inside env = Γ.env)
    (hr : s.returns = some (.value (returnTy r))) {b : Body} (h : body outer s b = .ok (s', n)) :
    n.FlowOnly ↔ Fresh xs (b.declared.map (·.name)) ∧ Declares Γ b.declared ∧
      ∀ st ∈ b.block.statements, Accepted (Γ.varDecs b.declared) r st := by
  obtain ⟨m, more, hv, hst, rfl⟩ := body_eq_ok.1 h
  obtain ⟨hm, hΓ'⟩ := varDecs_judged ho hs hx hΓ hv
  rw [varDecs_returns hv, hr] at hst
  have ha := (varDecs_types ho hs hv).1.agrees ho
  have hmore : m.FlowOnly → (more.FlowOnly ↔ ∀ st ∈ b.block.statements, Accepted (Γ.varDecs b.declared) r st) := by
    intro hn
    rw [hΓ' hn] at ha
    exact statements_judged ha hst
  rw [Notes.flowOnly_append, Notes.flowOnly_append, and_iff_left (Notes.flowOnly_marks _), and_congr_right hmore, hm,
    and_assoc]

theorem blockMarks_eq_nil (b : Block) : blockMarks b = [] ↔ ∀ q ∈ b.spots, b.Reaches q.address := by
  rw [List.eq_nil_iff_forall_not_mem]
  constructor
  · intro h q hq
    by_contra hr
    exact h _ ((mem_blockMarks b _).mpr ⟨q, hq, hr, rfl⟩)
  · intro h f hf
    obtain ⟨q, hq, hr, -⟩ := (mem_blockMarks b f).mp hf
    exact hr (h q hq)

theorem missingReturn_eq_nil (b : Block) : missingReturn b = [] ↔ ¬ b.FallsOff := by
  rw [Block.fallsOff_iff]
  unfold missingReturn
  cases stopsAny b.statements <;> simp

theorem main_clean (ho : Agrees outer Γ.env) (hs : Holds s fun _ => none) (hr : s.returns = some (.value .void)) {b : Body}
    (h : body outer s b = .ok (s', n)) : n.findings = [] ↔ b.WellTyped Γ [] none := by
  have hb := body_judged (Γ := Γ) (r := none) ho hs names_nothing rfl hr h
  rw [Notes.findings_eq_nil, body_flow h, hb, blockMarks_eq_nil, fresh_nothing]
  constructor
  · intro h
    obtain ⟨⟨hd, hv, hst⟩, hq⟩ := h
    exact ⟨hd, hv, hst, hq, nofun⟩
  · intro hw
    exact ⟨⟨hw.distinct, hw.declared, hw.accepted⟩, hw.reached⟩

theorem function_clean (ho : Agrees outer Γ.env) (hs : Holds s fun _ => none) {f : FuncDef}
    (hr : s.returns = some (.value f.returnType)) (h : function outer s f = .ok (s', n)) :
    n.findings = [] ↔ f.body.WellTyped Γ f.parameters f.returns := by
  have hflow := function_flow h
  obtain ⟨m, hb, rfl⟩ := function_eq_ok.1 h
  have hp := parameters_judged hs names_nothing f.parameters
  have hps := (parameters_types hs f.parameters).1
  have hpx := (names_nothing).parameters f.parameters
  have hret := (parameters_returns s f.parameters).trans hr
  have hbody : Fresh [] (f.parameters.map (·.name)) → (m.FlowOnly ↔
      Fresh (f.parameters.map (·.name)) (f.body.declared.map (·.name)) ∧ Declares (Γ.parameters f.parameters) f.body.declared ∧
        ∀ st ∈ f.body.block.statements, Accepted ((Γ.parameters f.parameters).varDecs f.body.declared) f.returns st) :=
    fun hf => body_judged ho hps hpx (parameters_meaning names_nothing rfl hf) hret hb
  rw [Notes.findings_eq_nil, hflow, Notes.flowOnly_append, Notes.flowOnly_append,
    and_iff_left (Notes.flowOnly_missingReturn f), hp, and_congr_right hbody, ← and_assoc, ← nodup_append_iff,
    functionMarks, List.append_eq_nil_iff, blockMarks_eq_nil]
  have hm : (if f.returns.isSome then missingReturn f.body.block else []) = [] ↔
      (f.returns.isSome → ¬ f.body.block.FallsOff) := by
    rw [← missingReturn_eq_nil]
    split <;> simp [*]
  rw [hm]
  constructor
  · intro h
    obtain ⟨⟨hd, hv, hst⟩, hq, hf⟩ := h
    exact ⟨hd, hv, hst, hq, hf⟩
  · intro hw
    exact ⟨⟨hw.distinct, hw.declared, hw.accepted⟩, hw.reached, hw.returning⟩

theorem surveyFunctions_clean (ho : Agrees outer Γ.env) {rooms rooms' : Rooms} {fs : List FuncDef}
    (hd : (fs.map (·.name)).Nodup)
    (hr : ∀ f ∈ fs, Holds (rooms f.name) (fun _ => none) ∧ (rooms f.name).returns = some (.value f.returnType))
    (h : surveyFunctions outer rooms fs = .ok (rooms', n)) :
    n.findings = [] ↔ ∀ f ∈ fs, f.body.WellTyped Γ f.parameters f.returns := by
  induction fs generalizing rooms n with
  | nil =>
    cases h
    exact iff_of_true rfl nofun
  | cons f fs ih =>
    obtain ⟨q, qs, hq, hqs, h⟩ := bind_bind_eq_ok.1 h
    obtain ⟨rfl, rfl⟩ := Prod.mk.inj (Except.ok.inj h)
    have hrest : ∀ g ∈ fs, Holds (Function.update rooms f.name q.1 g.name) (fun _ => none) ∧
        (Function.update rooms f.name q.1 g.name).returns = some (.value g.returnType) := by
      intro g hg
      rw [room_of_other hd hg]
      exact hr g (.tail _ hg)
    obtain ⟨hs, hret⟩ := hr f (.head _)
    have hfs := ih (List.nodup_cons.mp hd).2 hrest hqs
    rw [Notes.findings_append, List.append_eq_nil_iff, List.forall_mem_cons, function_clean ho hs hret hq, hfs]

end Check

/-! ## Scripts -/

variable {fs : List FuncDef} {f : FuncDef}

theorem find?_named (hd : (fs.map (·.name)).Nodup) (hf : f ∈ fs) :
    fs.find? (·.name = f.name) = some f := by
  induction fs with
  | nil => cases hf
  | cons g fs ih =>
    obtain ⟨hg, hd⟩ := List.nodup_cons.mp hd
    rcases List.mem_cons.mp hf with rfl | hf
    · exact List.find?_cons_of_pos (by simp)
    · have hne : g.name ≠ f.name := fun e => hg (List.mem_map.mpr ⟨f, hf, e.symm⟩)
      rw [List.find?_cons_of_neg (by simpa using hne)]
      exact ih hd hf

theorem lastNamed_named (hd : (fs.map (·.name)).Nodup) (hf : f ∈ fs) :
    lastNamed fs f.name = some f := by
  refine find?_named ?_ (List.mem_reverse.mpr hf)
  rw [List.map_reverse]
  exact List.nodup_reverse.mpr hd

theorem FuncDef.type_meaning (f : FuncDef) : f.meaning.type = f.type := by
  simp [FuncDef.meaning, Meaning.type, FuncDef.type, FuncDef.returnType, returnTy]

namespace Script

variable {s : Script}

/-- With functions of different names, what a name means is what it stands for. -/
theorem meanings_env (hd : s.NamesDistinct) : s.meanings.env = Typing.functionEnv s.functions := by
  funext x
  have hm : s.meanings.env x = (s.functions.find? (·.name = x)).map FuncDef.type := by
    simp [Meanings.env, meanings, FuncDef.type_meaning, Function.comp_def]
  rw [hm, Typing.functionEnv]
  cases hf : s.functions.find? (·.name = x) with
  | none =>
    have hl : lastNamed s.functions x = none := by
      simpa [lastNamed] using hf
    rw [hl]
  | some f =>
    have hx : f.name = x := by simpa using List.find?_some hf
    subst hx
    rw [lastNamed_named hd.1 (List.mem_of_find?_eq_some hf)]

theorem rooms_returns (hd : s.NamesDistinct) {f : FuncDef} (hf : f ∈ s.functions) :
    (s.rooms f.name).returns = some (.value f.returnType) := by
  rw [rooms, Function.update_of_ne (hd.2 f hf), emptyRooms, lastNamed_named hd.1 hf]
  rfl

end Script

theorem Check.survey_clean {s : Script} (hd : s.NamesDistinct) {rooms : Rooms} {n : Notes}
    (h : survey s = .ok (rooms, n)) : n.findings = [] ↔ s.WellTyped := by
  obtain ⟨q, m, hq, hm, h⟩ := bind_bind_eq_ok.1 h
  obtain ⟨-, rfl⟩ := Prod.mk.inj (Except.ok.inj h)
  have ho : Typing.Agrees (globals s.functions) s.meanings.env := by
    rw [s.meanings_env hd]
    exact Typing.globals_agrees s.functions
  rw [surveyFunctions_others hq hd.2] at hm
  have hf := surveyFunctions_clean ho hd.1 (fun f hf => ⟨Typing.holds_rooms s f.name, s.rooms_returns hd hf⟩) hq
  have hb := main_clean ho (Typing.holds_rooms s "$main") rfl hm
  rw [Notes.findings_append, List.append_eq_nil_iff, hf, hb]
  exact ⟨fun h => ⟨h.1, h.2⟩, fun h => ⟨h.functions, h.main⟩⟩

namespace Analysis

/-- The verdict of an analysis is right. With scopes of different names, and no call of a variable or parameter, an
    analysis comes to its end; and nothing is in its log exactly when the script is well typed. -/
theorem clean_iff_wellTyped (s : Script) (distinct : s.NamesDistinct) (calls : s.CallsFunctions) :
    ∃ a, run (.script s) false = .ok a ∧ (a.log.total = 0 ↔ s.WellTyped) := by
  obtain ⟨⟨rooms, notes⟩, hs⟩ := (Check.survey_completes s distinct).mpr calls
  have hrun := run_script s
  rw [hs] at hrun
  obtain ⟨t, hrun, -⟩ := hrun
  refine ⟨_, hrun, ?_⟩
  rw [log, ErrorLog.total_ofFindings_eq_zero]
  exact Check.survey_clean distinct hs

/-- A function with a loop, and a main part that calls it in a first value and in a branch. -/
def factorials : Script where
  functions := [{
    name := "factorial"
    parameters := [⟨⟨1, 3⟩, "n", .int⟩]
    returns := some .int
    body :=
      { declared := [⟨⟨2, 10⟩, "r", .int, some (.intLiteral ⟨2, 15⟩ "1")⟩]
        block := ⟨⟨3, 16⟩, [
          .loop ⟨3, 16⟩ (.binary .less (.intLiteral ⟨3, 17⟩ "0") (.reference ⟨3, 19⟩ "n")) [
            .assign ⟨4, 21⟩ "r" (.binary .times (.reference ⟨4, 23⟩ "r") (.reference ⟨4, 25⟩ "n")),
            .assign ⟨5, 26⟩ "n" (.binary .minus (.reference ⟨5, 28⟩ "n") (.intLiteral ⟨5, 30⟩ "1"))],
          .leave ⟨6, 32⟩ (some (.reference ⟨6, 33⟩ "r"))]⟩ } }]
  main :=
    { declared := [⟨⟨8, 36⟩, "six", .bool, some
        (.binary .equal (.call ⟨8, 41⟩ "factorial" [.intLiteral ⟨8, 43⟩ "3"]) (.intLiteral ⟨8, 46⟩ "6"))⟩]
      block := ⟨⟨9, 47⟩, [
        .ifElse ⟨9, 47⟩ (.reference ⟨9, 48⟩ "six")
          [.print ⟨10, 50⟩ (.stringLiteral ⟨10, 51⟩ "\"six\"")]
          [.print ⟨12, 55⟩ (.call ⟨12, 56⟩ "factorial" [.intLiteral ⟨12, 58⟩ "3"])]]⟩ }

theorem factorials_wellTyped : factorials.NamesDistinct ∧ factorials.CallsFunctions ∧ factorials.WellTyped := by
  have hd : factorials.NamesDistinct := by decide
  have hc : factorials.CallsFunctions := by decide
  obtain ⟨a, ha, hw⟩ := clean_iff_wellTyped factorials hd hc
  obtain ⟨rooms, hs, -⟩ := survey_of_run ha
  have hn : (Check.survey factorials).map (·.2.findings) = .ok [] := rfl
  rw [hs] at hn
  have hn : a.notes.findings = [] := Except.ok.inj hn
  exact ⟨hd, hc, hw.mp (by rw [log, hn]; rfl)⟩

end Analysis

end NimbleLang
