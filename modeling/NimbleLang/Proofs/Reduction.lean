import Mathlib.Data.List.ReduceOption
import NimbleLang.Proofs.Runs
import NimbleLang.Token.Edits

/-!
Before its text is put together, a program of edits is reduced, and stays so. Edits with no position in common are apart
(`Edit.Apart`). A program of edits that are apart is left as it is (`Independent.reduce`): no replacement takes in what stands
before it, and no insertion finds another one to join or a replacement to give itself to.
-/

namespace NimbleLang

namespace Edit

variable {e : Edit}

/-- The last position that an edit is about; an insertion is about one position. -/
def stop (e : Edit) : Int := e.last?.getD e.index

theorem stop_of_last {last : Int} (h : e.last? = some last) : e.stop = last := by
  rw [stop, h, Option.getD_some]

theorem stop_of_insert (h : e.last? = none) : e.stop = e.index := by
  rw [stop, h, Option.getD_none]

/-- Edits of which each is about positions that the other one is not about. -/
def Apart (d e : Edit) : Prop := d.stop < e.index ∨ e.stop < d.index

instance (d e : Edit) : Decidable (d.Apart e) := inferInstanceAs (Decidable (_ ∨ _))

instance : Std.Symm Apart := ⟨fun _ _ => Or.symm⟩

end Edit

namespace Program

variable {p : Program} {e r : Edit} {i k : Nat} {last : Int}

theorem map_fst_zipIdx {f : Option Edit × Nat → Option (Edit × Nat)} (hf : ∀ o k, f (o, k) = o.map fun e => (e, k)) (p : Program)
    (n : Nat) : ((p.zipIdx n).filterMap f).map (·.1) = p.reduceOption := by
  induction p generalizing n with
  | nil => rfl
  | cons o p ih =>
    rw [List.zipIdx_cons, List.filterMap_cons, hf]
    cases o with
    | none => exact ih (n + 1)
    | some e => exact congrArg (e :: ·) (ih (n + 1))

theorem map_fst_earlier (p : Program) (i : Nat) : (p.earlier i).map (·.1) = (p.take i).reduceOption := map_fst_zipIdx (fun _ _ => rfl) _ 0

/-! ## Edits that are apart -/

/-- Every range has a position, and no two edits are about one position. -/
structure Independent (p : Program) : Prop where
  ranges : ∀ e ∈ p.reduceOption, e.index ≤ e.stop
  apart : p.reduceOption.Pairwise Edit.Apart

theorem Independent.earlier (h : p.Independent) (hr : p[i]? = some (some r)) :
    ∀ x ∈ p.earlier i, x.1.index ≤ x.1.stop ∧ x.1.Apart r := by
  intro x hx
  have hmem : x.1 ∈ (p.take i).reduceOption := map_fst_earlier p i ▸ List.mem_map_of_mem hx
  obtain ⟨hlt, hget⟩ := List.getElem?_eq_some_iff.mp hr
  have hsplit : p.reduceOption = (p.take i).reduceOption ++ r :: (p.drop (i + 1)).reduceOption := by
    conv_lhs => rw [← List.take_append_drop i p, List.drop_eq_getElem_cons hlt, hget]
    rw [List.reduceOption_append, List.reduceOption_cons_of_some]
  have hranges := h.ranges
  have hapart := h.apart
  rw [hsplit] at hranges hapart
  exact ⟨hranges _ (List.mem_append_left _ hmem), (List.pairwise_append.mp hapart).2.2 _ hmem r List.mem_cons_self⟩

theorem takeInserts_idle {l : List (Edit × Nat)} (h : ∀ x ∈ l, takeInsert r last x.1 = none) :
    (takeInserts i last l r).outcome p = (.ok r, p) := by
  induction l with
  | nil => rfl
  | cons x l ih =>
    obtain ⟨hx, hl⟩ := List.forall_mem_cons.mp h
    rw [takeInserts, hx]
    exact ih hl

theorem takeReplacements_idle {l : List (Edit × Nat)} (hr : r.stop = last)
    (h : ∀ x ∈ l, x.1.index ≤ x.1.stop ∧ x.1.Apart r) : (takeReplacements i r last l).outcome p = (.ok none, p) := by
  induction l with
  | nil => rfl
  | cons x l ih =>
    obtain ⟨⟨hrange, hapart⟩, hl⟩ := List.forall_mem_cons.mp h
    rw [takeReplacements]
    cases hlast : x.1.last? with
    | none => exact ih hl
    | some stop =>
      rw [Edit.stop_of_last hlast] at hrange
      rw [Edit.Apart, Edit.stop_of_last hlast, hr] at hapart
      dsimp only
      rw [if_neg (by simp; omega), if_pos (by simpa using hapart)]
      exact ih hl

theorem joinInserts_idle {l : List Edit} (h : ∀ x ∈ l, x.index ≠ e.index) : (joinInserts i k l e).outcome p = (.ok e, p) := by
  induction l generalizing k with
  | nil => rfl
  | cons x l ih =>
    obtain ⟨hx, hl⟩ := List.forall_mem_cons.mp h
    rw [joinInserts, if_neg hx]
    exact ih hl

theorem giveInsert_idle {l : List (Edit × Nat)} (he : e.stop = e.index)
    (h : ∀ x ∈ l, x.1.isInsert = false → x.1.index ≤ x.1.stop ∧ x.1.Apart e) : (giveInsert i e l).outcome p = (.ok none, p) := by
  induction l with
  | nil => rfl
  | cons x l ih =>
    obtain ⟨hx, hl⟩ := List.forall_mem_cons.mp h
    rw [giveInsert]
    cases hlast : x.1.last? with
    | none => exact ih hl
    | some last =>
      obtain ⟨hrange, hapart⟩ := hx (by rw [Edit.isInsert, hlast]; rfl)
      rw [Edit.stop_of_last hlast] at hrange
      rw [Edit.Apart, Edit.stop_of_last hlast, he] at hapart
      dsimp only
      rw [if_neg (by omega), if_neg (by simp; omega)]
      exact ih hl

theorem Independent.settleReplacement (h : p.Independent) (i : Nat) :
    (settleReplacement i).outcome p = (.ok none, p) := by
  rw [Program.settleReplacement, Run.outcome_bind_ok (Run.outcome_get p)]
  split
  case h_1 r hr =>
    split
    case h_1 last hlast =>
      have hstop := Edit.stop_of_last hlast
      have hearlier := h.earlier hr
      have hinserts : ∀ x ∈ (p.earlier i).filter (·.1.isInsert), takeInsert r last x.1 = none := by
        intro x hx
        obtain ⟨hx, hinsert⟩ := List.mem_filter.mp hx
        obtain ⟨-, hapart⟩ := hearlier x hx
        have hrange := h.ranges r (List.reduceOption_mem_iff.mpr (List.mem_of_getElem? hr))
        rw [Edit.Apart, hstop, Edit.stop_of_insert (Option.isNone_iff_eq_none.mp hinsert)] at hapart
        rw [takeInsert, if_neg (by omega), if_neg (by simp; omega)]
      rw [Run.outcome_bind_ok (Run.outcome_get p), Run.outcome_bind_ok (takeInserts_idle hinserts),
        Run.outcome_bind_ok (Run.outcome_get p), takeReplacements_idle hstop hearlier]
    case h_2 => rfl
  case h_2 => rfl

theorem Independent.settleInsert (h : p.Independent) (i : Nat) :
    (settleInsert i).outcome p = (.ok none, p) := by
  rw [Program.settleInsert, Run.outcome_bind_ok (Run.outcome_get p)]
  split
  case h_1 e he =>
    split
    case isTrue hinsert =>
      have hstop := Edit.stop_of_insert (Option.isNone_iff_eq_none.mp hinsert)
      have hearlier := h.earlier he
      have hinserts : ∀ x ∈ ((p.earlier i).map (·.1)).filter Edit.isInsert, x.index ≠ e.index := by
        intro x hx
        obtain ⟨y, hy, rfl⟩ := List.mem_map.mp (List.mem_of_mem_filter hx)
        obtain ⟨hrange, hapart⟩ := hearlier y hy
        rw [Edit.Apart, hstop] at hapart
        omega
      rw [Run.outcome_bind_ok (Run.outcome_get p), Run.outcome_bind_ok (joinInserts_idle hinserts),
        Run.outcome_bind_ok (Run.outcome_get p), giveInsert_idle hstop fun x hx _ => hearlier x hx]
    case isFalse => rfl
  case h_2 => rfl

theorem eachPlace_idle {pass : Nat → Act (Option Clash)} (h : ∀ i, (pass i).outcome p = (.ok none, p)) (l : List Nat) :
    (eachPlace pass l).outcome p = (.ok none, p) := by
  induction l with
  | nil => rfl
  | cons i l ih => rw [eachPlace, Run.outcome_bind_ok (h i), ih]

/-- The check of what is left passes exactly if no two edits are at one position. -/
theorem distinct_cases (l : List Edit) : distinct l = .ok () ∧ l.Pairwise (fun d e => d.index ≠ e.index) ∨
    distinct l = .error (.invalidValue "should be only one op per index") ∧ ¬ l.Pairwise (fun d e => d.index ≠ e.index) := by
  induction l with
  | nil => exact .inl ⟨rfl, .nil⟩
  | cons e l ih =>
    rw [distinct, List.pairwise_cons]
    by_cases he : ∀ d ∈ l, e.index ≠ d.index
    · rw [if_neg (by simpa using fun d hd => (he d hd).symm)]
      exact ih.imp (.imp_right fun hl => ⟨he, hl⟩) (.imp_right fun hl h => hl h.2)
    · obtain ⟨d, hd, heq⟩ : ∃ d ∈ l, e.index = d.index := by simpa using he
      rw [if_pos (List.any_eq_true.mpr ⟨d, hd, by simp [heq]⟩)]
      exact .inr ⟨rfl, fun h => he h.1⟩

/-- A program that its passes leave with some edits is reduced to them, if no two are at one position. -/
theorem reduce_outcome {q : Program} (hreplace : (eachPlace settleReplacement (List.range p.length)).outcome p = (.ok none, p))
    (hinsert : (eachPlace settleInsert (List.range p.length)).outcome p = (.ok none, q)) :
    reduce.outcome p = ((distinct q.reduceOption).map fun _ => .ok q.reduceOption, q) := by
  rw [Program.reduce, Run.outcome_bind_ok (Run.outcome_get p), Run.outcome_bind_ok hreplace]
  dsimp only
  rw [Run.outcome_bind_ok hinsert]
  dsimp only
  rw [Run.outcome_bind_ok (Run.outcome_get q)]
  change (liftM (Program.distinct q.reduceOption) >>= fun _ => pure (.ok q.reduceOption) : Act (Except Clash (List Edit))).outcome q = _
  cases Program.distinct q.reduceOption <;> rfl

/-- A program of edits that are apart is reduced as it is. -/
theorem Independent.reduce (h : p.Independent) : Program.reduce.outcome p = (.ok (.ok p.reduceOption), p) := by
  have hdistinct : p.reduceOption.Pairwise fun d e => d.index ≠ e.index := by
    refine h.apart.imp_of_mem fun {d e} hd he hapart => ?_
    have := h.ranges d hd
    have := h.ranges e he
    rw [Edit.Apart] at hapart
    omega
  rw [reduce_outcome (eachPlace_idle h.settleReplacement _) (eachPlace_idle h.settleInsert _),
    ((distinct_cases p.reduceOption).resolve_right fun hno => hno.2 hdistinct).1]
  rfl

end Program

end NimbleLang
