import NimbleLang.Interval
import Mathlib.Data.List.Basic

/-!
Interval sets as sets. As long as the spans of a set stand in increasing order and are apart from each other, adding a span,
a number or another set adds just its numbers and taking a number out takes out just that number; and the spans stay so.

How this is said leaves one thing open, where spans may be empty (`Ranked P`: only where `P` holds). Sets that are built from
spans that are not empty have none at all (`IntervalSet.Proper`). The set of the symbols that an edge does not have may come with
an empty span above zero.
-/

namespace NimbleLang

variable {P : Int → Prop}

namespace Span

variable {v : Span} {x : Int}

@[simp] theorem contains_iff : v.contains x = true ↔ v.lo ≤ x ∧ x < v.hi := by
  simp [contains]

/-- Not backwards, and empty only where `P` holds. -/
def Upright (P : Int → Prop) (v : Span) : Prop := v.lo ≤ v.hi ∧ (v.lo = v.hi → P v.lo)

theorem upright_of_lt (h : v.lo < v.hi) : v.Upright P := ⟨Int.le_of_lt h, fun he => absurd he (Int.ne_of_lt h)⟩

/-- Two spans that meet or overlap make one. -/
theorem Upright.join {w : Span} (hv : v.Upright P) (hw : w.Upright P) : (Span.mk (min w.lo v.lo) (max w.hi v.hi)).Upright P := by
  obtain ⟨hle, hempty⟩ := hv
  obtain ⟨hle', -⟩ := hw
  refine ⟨by dsimp only; omega, fun he => ?_⟩
  dsimp only at he ⊢
  have hlo : min w.lo v.lo = v.lo := by omega
  rw [hlo]
  exact hempty (by omega)

end Span

namespace IntervalSet

/-! ## Lists of spans -/

/-- Whether a number is in one of the spans. -/
def Holds (l : List Span) (x : Int) : Prop := ∃ v ∈ l, v.lo ≤ x ∧ x < v.hi

/-- Spans that are not empty, in increasing order and apart from each other. -/
def Apart (l : List Span) : Prop := (∀ v ∈ l, v.lo < v.hi) ∧ l.Pairwise fun v w => v.hi < w.lo

/-- Spans in increasing order and apart from each other, none of them backwards, and empty ones only where `P` holds. -/
def Ranked (P : Int → Prop) (l : List Span) : Prop := (∀ v ∈ l, v.Upright P) ∧ l.Pairwise fun v w => v.hi < w.lo

variable {v i : Span} {l rest : List Span} {x y b : Int}

@[simp] theorem holds_nil : ¬ Holds [] x := by simp [Holds]

@[simp] theorem holds_cons : Holds (v :: l) x ↔ (v.lo ≤ x ∧ x < v.hi) ∨ Holds l x := by simp [Holds]

theorem ranked_nil : Ranked P [] := by simp [Ranked]

theorem ranked_cons : Ranked P (v :: l) ↔ v.Upright P ∧ (∀ w ∈ l, v.hi < w.lo) ∧ Ranked P l := by
  simp only [Ranked, List.forall_mem_cons, List.pairwise_cons]
  tauto

theorem apart_iff_ranked : Apart l ↔ Ranked (fun _ => False) l := by
  have hspan (v : Span) : v.Upright (fun _ => False) ↔ v.lo < v.hi := by
    constructor
    · intro h
      exact Int.lt_iff_le_and_ne.mpr h
    · exact Span.upright_of_lt
  simp only [Apart, Ranked, hspan]

theorem Ranked.mono {Q : Int → Prop} (h : Ranked P l) (hPQ : ∀ x, P x → Q x) : Ranked Q l :=
  ⟨fun v hv => ⟨(h.1 v hv).1, fun he => hPQ _ ((h.1 v hv).2 he)⟩, h.2⟩

/-- A span that joins those it reaches begins where it began. -/
theorem lt_absorb (hv : b < v.lo) (h : ∀ w ∈ l, b < w.lo) : ∀ w ∈ absorb v l, b < w.lo := by
  induction l with
  | nil => simpa [absorb] using hv
  | cons r rest ih =>
    simp only [List.forall_mem_cons] at h
    rw [absorb]
    split
    · exact ih h.2
    · split <;> simp only [List.forall_mem_cons] <;> exact ⟨hv, by tauto⟩

theorem absorb_ranked (hv : v.Upright P) (hl : Ranked P l) (h : ∀ w ∈ l, v.lo ≤ w.lo) : Ranked P (absorb v l) := by
  induction l with
  | nil => exact ranked_cons.2 ⟨hv, by simp, ranked_nil⟩
  | cons r rest ih =>
    obtain ⟨hr, hafter, hrest⟩ := ranked_cons.1 hl
    simp only [List.forall_mem_cons] at h
    rw [absorb]
    split
    · exact ih hrest h.2
    · have hv' := hv.1
      split
      · refine ranked_cons.2 ⟨Span.upright_of_lt ?_, hafter, hrest⟩
        dsimp only
        omega
      · refine ranked_cons.2 ⟨hv, ?_, hl⟩
        intro w hw
        have hr' := hr.1
        rcases List.mem_cons.mp hw with rfl | hw
        · omega
        · have := hafter w hw
          omega

theorem holds_absorb (hl : Ranked P l) (h : ∀ w ∈ l, v.lo ≤ w.lo) : Holds (absorb v l) x ↔ (v.lo ≤ x ∧ x < v.hi) ∨ Holds l x := by
  induction l with
  | nil => simp [absorb]
  | cons r rest ih =>
    obtain ⟨hr, hafter, hrest⟩ := ranked_cons.1 hl
    simp only [List.forall_mem_cons] at h
    rw [absorb]
    split
    · rw [ih hrest h.2, holds_cons]
      have := h.1
      constructor
      · tauto
      · rintro (h' | h' | h')
        · exact .inl h'
        · exact .inl (by omega)
        · exact .inr h'
    · split
      · simp only [holds_cons]
        have := h.1
        constructor
        · rintro (h' | h')
          · by_cases hx : x < v.hi
            · exact .inl ⟨h'.1, hx⟩
            · exact .inr (.inl (by omega))
          · exact .inr (.inr h')
        · rintro (h' | h' | h')
          · exact .inl (by omega)
          · exact .inl (by omega)
          · exact .inr h'
      · simp only [holds_cons]

theorem lt_insertSpan (hv : b < v.lo) (h : ∀ w ∈ l, b < w.lo) : ∀ w ∈ insertSpan v l, b < w.lo := by
  induction l with
  | nil => simpa [insertSpan] using hv
  | cons i rest ih =>
    have hi := h i List.mem_cons_self
    simp only [List.forall_mem_cons] at h
    rw [insertSpan]
    split
    · simp only [List.forall_mem_cons]
      exact ⟨hv, h⟩
    · split
      · simp only [List.forall_mem_cons]
        exact ⟨hv, h.2⟩
      · split
        · refine lt_absorb ?_ h.2
          dsimp only
          omega
        · simp only [List.forall_mem_cons]
          exact ⟨hi, ih h.2⟩

theorem insertSpan_ranked (hv : v.Upright P) (hl : Ranked P l) : Ranked P (insertSpan v l) := by
  induction l with
  | nil => exact ranked_cons.2 ⟨hv, by simp, hl⟩
  | cons i rest ih =>
    obtain ⟨hi, hafter, hrest⟩ := ranked_cons.1 hl
    have hi' := hi.1
    have hv' := hv.1
    rw [insertSpan]
    split
    · refine ranked_cons.2 ⟨hv, ?_, hl⟩
      intro w hw
      rcases List.mem_cons.mp hw with rfl | hw
      · assumption
      · have := hafter w hw
        omega
    · split
      · have hjoin := hv.join hi
        have hlo : min i.lo v.lo = v.lo := by omega
        have hhi : max i.hi v.hi = i.hi := by omega
        rw [hlo, hhi] at hjoin
        exact ranked_cons.2 ⟨hjoin, hafter, hrest⟩
      · split
        · refine absorb_ranked (hv.join hi) hrest ?_
          intro w hw
          have := hafter w hw
          dsimp only
          omega
        · exact ranked_cons.2 ⟨hi, lt_insertSpan (by omega) hafter, ih hrest⟩

theorem holds_insertSpan (hv : v.Upright P) (hl : Ranked P l) :
    Holds (insertSpan v l) x ↔ (v.lo ≤ x ∧ x < v.hi) ∨ Holds l x := by
  induction l with
  | nil => simp [insertSpan]
  | cons i rest ih =>
    obtain ⟨hi, hafter, hrest⟩ := ranked_cons.1 hl
    have hi' := hi.1
    have hv' := hv.1
    rw [insertSpan]
    split
    · simp only [holds_cons]
    · split
      · simp only [holds_cons]
        constructor
        · rintro (h | h)
          · by_cases hx : x < v.hi
            · exact .inl ⟨h.1, hx⟩
            · exact .inr (.inl (by omega))
          · exact .inr (.inr h)
        · rintro (h | h | h)
          · exact .inl (by omega)
          · exact .inl (by omega)
          · exact .inr h
      · split
        · rw [holds_absorb hrest (fun w hw => by have := hafter w hw; dsimp only; omega), holds_cons, ← or_assoc]
          have hspan : (min i.lo v.lo ≤ x ∧ x < max i.hi v.hi) ↔ (v.lo ≤ x ∧ x < v.hi) ∨ (i.lo ≤ x ∧ x < i.hi) := by omega
          rw [hspan]
        · rw [holds_cons, ih hrest, holds_cons]
          tauto

theorem insertSpan_of_mem (hl : Apart l) (hv : v ∈ l) : insertSpan v l = l := by
  induction l with
  | nil => cases hv
  | cons i rest ih =>
    obtain ⟨hne, hafter⟩ := hl
    simp only [List.forall_mem_cons, List.pairwise_cons] at hne hafter
    have hi := hne.1
    rw [insertSpan]
    rcases List.mem_cons.mp hv with rfl | hv
    · have habsorb : absorb v rest = v :: rest := by
        cases rest with
        | nil => rfl
        | cons r rest =>
          have hr := hafter.1 r List.mem_cons_self
          have hr' := hne.2 r List.mem_cons_self
          rw [absorb, if_neg (by omega), if_neg (by omega)]
      rw [if_neg (by omega), if_neg (by omega), if_pos (by omega), Int.min_self, Int.max_self, habsorb]
    · have hlater := hafter.1 v hv
      have hv' := hne.2 v hv
      rw [if_neg (by omega), if_neg (by omega), if_neg (by omega), ih ⟨hne.2, hafter.2⟩ hv]

theorem lt_removeValue (h : ∀ w ∈ l, b < w.lo) (hl : Ranked P l) : ∀ w ∈ removeValue x l, b < w.lo := by
  induction l with
  | nil => simp [removeValue]
  | cons i rest ih =>
    obtain ⟨hi, hafter, hrest⟩ := ranked_cons.1 hl
    have hb := h i List.mem_cons_self
    have hbrest : ∀ w ∈ rest, b < w.lo := fun w hw => h w (List.mem_cons_of_mem _ hw)
    rw [removeValue]
    repeat' split
    · exact h
    · exact hbrest
    · simp only [List.forall_mem_cons]
      exact ⟨by omega, hbrest⟩
    · simp only [List.forall_mem_cons]
      exact ⟨hb, hbrest⟩
    · simp only [List.forall_mem_cons]
      exact ⟨hb, by omega, hbrest⟩
    · simp only [List.forall_mem_cons]
      exact ⟨hb, ih hbrest hrest⟩

/-- Where no empty span may be, a span that begins there has something in it. -/
theorem lt_of_upright (hx : ¬ P x) (hi : i.Upright P) (hlo : i.lo = x) : i.lo < i.hi := by
  have hle := hi.1
  have hne : i.lo ≠ i.hi := fun he => hx (hlo ▸ hi.2 he)
  omega

theorem removeValue_ranked (hx : ¬ P x) (hl : Ranked P l) : Ranked P (removeValue x l) := by
  induction l with
  | nil => exact hl
  | cons i rest ih =>
    obtain ⟨hi, hafter, hrest⟩ := ranked_cons.1 hl
    rw [removeValue]
    repeat' split
    · exact hl
    · exact hrest
    · rename_i hlo
      have hlt := lt_of_upright hx hi hlo.symm
      exact ranked_cons.2 ⟨Span.upright_of_lt (by dsimp only; omega), hafter, hrest⟩
    · refine ranked_cons.2 ⟨Span.upright_of_lt (by dsimp only; omega), ?_, hrest⟩
      intro w hw
      have := hafter w hw
      dsimp only
      omega
    · refine ranked_cons.2 ⟨Span.upright_of_lt (by dsimp only; omega), ?_,
        ranked_cons.2 ⟨Span.upright_of_lt (by dsimp only; omega), hafter, hrest⟩⟩
      intro w hw
      dsimp only
      rcases List.mem_cons.mp hw with rfl | hw
      · dsimp only
        omega
      · have := hafter w hw
        omega
    · exact ranked_cons.2 ⟨hi, lt_removeValue hafter hrest, ih hrest⟩

theorem holds_removeValue (hx : ¬ P x) (hl : Ranked P l) : Holds (removeValue x l) y ↔ Holds l y ∧ y ≠ x := by
  induction l with
  | nil => simp [removeValue]
  | cons i rest ih =>
    obtain ⟨hi, hafter, hrest⟩ := ranked_cons.1 hl
    have hi' := hi.1
    -- what comes later lies above this span
    have hlater : Holds rest y → i.hi < y := by
      rintro ⟨w, hw, hy⟩
      have := hafter w hw
      omega
    -- so only what is made of this span counts
    have hkeep {a : Prop} (hhi : x ≤ i.hi) (ha : a ↔ (i.lo ≤ y ∧ y < i.hi) ∧ y ≠ x) :
        a ∨ Holds rest y ↔ Holds (i :: rest) y ∧ y ≠ x := by
      have hne : Holds rest y → y ≠ x := fun h => by have := hlater h; omega
      rw [holds_cons, ha, or_and_right, and_iff_left_of_imp hne]
    rw [removeValue]
    repeat' split
    · exact (holds_cons).trans (hkeep (by omega) (by omega))
    · exact (iff_of_eq (false_or _)).symm.trans (hkeep (by omega) ⟨False.elim, by omega⟩)
    · rename_i hlo
      have hlt := lt_of_upright hx hi hlo.symm
      exact (holds_cons).trans (hkeep (by omega) (by dsimp only; omega))
    · exact (holds_cons).trans (hkeep (by omega) (by dsimp only; omega))
    · refine (holds_cons).trans ((or_congr_right holds_cons).trans (or_assoc.symm.trans ?_))
      refine hkeep (by omega) ?_
      dsimp only
      omega
    · rw [holds_cons, ih hrest, holds_cons]
      constructor
      · rintro (h | h)
        · exact ⟨.inl h, by omega⟩
        · exact ⟨.inr h.1, h.2⟩
      · rintro ⟨h | h, hne⟩
        · exact .inl h
        · exact .inr ⟨h, hne⟩

/-! ## Sets -/

/-- The spans of the set are not empty, in increasing order and apart from each other. -/
def Proper (s : IntervalSet) : Prop := Apart (s.spans.getD [])

instance (l : List Span) : Decidable (Apart l) := inferInstanceAs (Decidable (_ ∧ _))

instance (s : IntervalSet) : Decidable s.Proper := inferInstanceAs (Decidable (Apart _))

/-- The spans of the set are in order, with empty ones only where `P` holds. -/
def Tidy (P : Int → Prop) (s : IntervalSet) : Prop := Ranked P (s.spans.getD [])

variable {s t : IntervalSet}

theorem contains_iff : s.contains x = true ↔ Holds (s.spans.getD []) x := by
  simp [contains, Holds]

theorem proper_iff_tidy : s.Proper ↔ s.Tidy fun _ => False := apart_iff_ranked

theorem Proper.tidy (h : s.Proper) : s.Tidy P := (proper_iff_tidy.1 h).mono fun _ => False.elim

theorem tidy_empty : Tidy P {} := ranked_nil

theorem proper_empty : Proper {} := by simp [Proper, Apart]

theorem addRange_tidy (hs : s.Tidy P) (hv : v.Upright P) : (s.addRange v).Tidy P := by
  unfold addRange Tidy
  cases h : s.spans with
  | none => exact ranked_cons.2 ⟨hv, by simp, ranked_nil⟩
  | some spans =>
    rw [Tidy, h] at hs
    exact insertSpan_ranked hv hs

theorem contains_addRange (hs : s.Tidy P) (hv : v.Upright P) :
    (s.addRange v).contains x = true ↔ s.contains x = true ∨ (v.lo ≤ x ∧ x < v.hi) := by
  rw [contains_iff, contains_iff]
  unfold addRange
  cases h : s.spans with
  | none => simp
  | some spans =>
    rw [Tidy, h, Option.getD_some] at hs
    rw [Option.getD_some, Option.getD_some, holds_insertSpan hv hs, or_comm]

theorem addRange_proper (hs : s.Proper) (hv : v.lo < v.hi) : (s.addRange v).Proper :=
  proper_iff_tidy.2 (addRange_tidy (proper_iff_tidy.1 hs) (Span.upright_of_lt hv))

theorem addOne_tidy (hs : s.Tidy P) (x : Int) : (s.addOne x).Tidy P :=
  addRange_tidy hs (Span.upright_of_lt (by dsimp only; omega))

theorem addOne_proper (hs : s.Proper) (x : Int) : (s.addOne x).Proper := addRange_proper hs (by dsimp only; omega)

theorem contains_addOne (hs : s.Tidy P) {y : Int} : (s.addOne y).contains x = true ↔ s.contains x = true ∨ x = y := by
  rw [addOne, contains_addRange hs (Span.upright_of_lt (by dsimp only; omega))]
  dsimp only
  have hy : y ≤ x ∧ x < y + 1 ↔ x = y := by omega
  rw [hy]

/-- Spans added one after another, in whatever order: each adds its numbers. -/
theorem foldl_addRange (hs : s.Tidy P) (hl : ∀ v ∈ l, v.Upright P) :
    (l.foldl addRange s).Tidy P ∧ ∀ x, (l.foldl addRange s).contains x = true ↔ s.contains x = true ∨ Holds l x := by
  induction l generalizing s with
  | nil => exact ⟨hs, by simp⟩
  | cons v l ih =>
    simp only [List.forall_mem_cons] at hl
    obtain ⟨htidy, hcontains⟩ := ih (addRange_tidy hs hl.1) hl.2
    refine ⟨htidy, ?_⟩
    intro x
    rw [List.foldl_cons, hcontains, contains_addRange hs hl.1, holds_cons, or_assoc]

/-- None of the spans is backwards, and empty ones are only where `P` holds; their order does not matter. -/
def Upright (P : Int → Prop) (s : IntervalSet) : Prop := ∀ v ∈ s.spans.getD [], v.Upright P

theorem Tidy.upright (h : s.Tidy P) : s.Upright P := h.1

theorem addSet_tidy (hs : s.Tidy P) (ht : t.Upright P) : (s.addSet t).Tidy P := (foldl_addRange hs ht).1

theorem contains_addSet (hs : s.Tidy P) (ht : t.Upright P) :
    (s.addSet t).contains x = true ↔ s.contains x = true ∨ t.contains x = true := by
  rw [addSet, (foldl_addRange hs ht).2 x, contains_iff (s := t)]

theorem addSet_proper (hs : s.Proper) (ht : t.Proper) : (s.addSet t).Proper :=
  proper_iff_tidy.2 (addSet_tidy (proper_iff_tidy.1 hs) (proper_iff_tidy.1 ht).upright)

theorem removeOne_tidy (hx : ¬ P x) (hs : s.Tidy P) : (s.removeOne x).Tidy P := by
  unfold removeOne Tidy
  cases h : s.spans with
  | none => exact ranked_nil
  | some spans =>
    rw [Tidy, h, Option.getD_some] at hs
    exact removeValue_ranked hx hs

theorem removeOne_proper (hs : s.Proper) : (s.removeOne x).Proper :=
  proper_iff_tidy.2 (removeOne_tidy id (proper_iff_tidy.1 hs))

theorem contains_removeOne (hx : ¬ P x) (hs : s.Tidy P) :
    (s.removeOne x).contains y = true ↔ s.contains y = true ∧ y ≠ x := by
  rw [contains_iff, contains_iff]
  unfold removeOne
  cases h : s.spans with
  | none => simp
  | some spans =>
    rw [Tidy, h, Option.getD_some] at hs
    exact holds_removeValue hx hs

/-! ## What a set excludes

The numbers from 1 on that are not in a set are found by taking its spans out of one large span. That may leave an empty span
behind, but never one at zero or below. -/

/-- Spans above zero that begin at a place or before it, and are not backwards. -/
def Below (b : Int) (l : List Span) : Prop := ∀ i ∈ l, 1 ≤ i.lo ∧ i.lo ≤ i.hi ∧ i.lo ≤ b

theorem below_cons {b : Int} {i : Span} : Below b (i :: l) ↔ (1 ≤ i.lo ∧ i.lo ≤ i.hi ∧ i.lo ≤ b) ∧ Below b l :=
  List.forall_mem_cons

theorem Below.mono {b c : Int} (h : Below b l) (hle : b ≤ c) : Below c l := by
  intro i hi
  obtain ⟨hlow, hup, hb⟩ := h i hi
  exact ⟨hlow, hup, by omega⟩

theorem removeSpanFrom_below (hv : v.lo < v.hi) {fuel read write : Nat} (h : Below v.lo l) :
    Below v.hi (removeSpanFrom v fuel read write l) := by
  have hle : v.lo ≤ v.hi := Int.le_of_lt hv
  induction fuel generalizing read write l with
  | zero => exact h.mono hle
  | succ fuel ih =>
    unfold removeSpanFrom
    split
    · exact h.mono hle
    · rename_i i hi
      obtain ⟨hlow, hup, hbefore⟩ := h i (List.mem_of_getElem? hi)
      have hcut : Below v.lo (l.set write ⟨i.lo, v.lo⟩) := by
        intro w hw
        rcases List.mem_or_eq_of_mem_set hw with hw | rfl
        · exact h w hw
        · exact ⟨hlow, hbefore, hbefore⟩
      split
      · exact h.mono hle
      · split
        · intro w hw
          rcases List.mem_append.mp hw with hw | hw
          · exact hcut.mono hle w (List.mem_of_mem_take hw)
          · rcases List.mem_cons.mp hw with rfl | hw
            · dsimp only
              omega
            · exact hcut.mono hle w (List.mem_of_mem_drop hw)
        · split
          · exact ih fun w hw => h w (List.mem_of_mem_eraseIdx hw)
          · split
            · exact ih hcut
            · split
              -- the span ends after `v` and begins before its end, which is none of the cases above
              · omega
              · exact ih h

theorem removeValue_below (h : Below x l) (hempty : ∀ i ∈ l, i.lo = x → i.lo < i.hi) : Below (x + 1) (removeValue x l) := by
  induction l with
  | nil => exact h.mono (by omega)
  | cons i rest ih =>
    obtain ⟨hi, hrest⟩ := below_cons.1 h
    obtain ⟨hi', hempty⟩ := List.forall_mem_cons.mp hempty
    have hlater : Below (x + 1) rest := hrest.mono (by omega)
    rw [removeValue]
    repeat' split
    · exact below_cons.2 ⟨by omega, hlater⟩
    · exact hlater
    · rename_i hx
      have := hi' hx.symm
      exact below_cons.2 ⟨by dsimp only; omega, hlater⟩
    · exact below_cons.2 ⟨by dsimp only; omega, hlater⟩
    · exact below_cons.2 ⟨by dsimp only; omega, below_cons.2 ⟨by dsimp only; omega, hlater⟩⟩
    · exact below_cons.2 ⟨by omega, ih hrest hempty⟩

theorem removeRange_below (hv : v.lo < v.hi) (h : Below v.lo (s.spans.getD []))
    (hempty : ∀ i ∈ s.spans.getD [], i.lo = v.lo → i.lo < i.hi) : Below v.hi ((s.removeRange v).spans.getD []) := by
  obtain ⟨spans⟩ := s
  unfold removeRange
  cases spans with
  | none => split <;> simp [removeOne, Below]
  | some l =>
    split
    · have hhi : v.hi = v.lo + 1 := by omega
      rw [hhi]
      exact removeValue_below h hempty
    · exact removeSpanFrom_below hv h

/-- A span below all others takes nothing out. -/
theorem removeRange_outside (h : ∀ i ∈ s.spans.getD [], v.hi ≤ i.lo) : s.removeRange v = s := by
  obtain ⟨spans⟩ := s
  cases spans with
  | none => simp [removeRange, removeOne]
  | some l =>
    cases l with
    | nil => simp [removeRange, removeOne, removeValue, removeSpanFrom]
    | cons i rest =>
      have hi : v.hi ≤ i.lo := h i List.mem_cons_self
      unfold removeRange
      split
      · simp only [removeOne, Option.map_some, removeValue]
        rw [if_pos (by omega)]
      · simp only [Option.map_some, List.length_cons, removeSpanFrom, List.getElem?_cons_zero]
        rw [if_pos hi]

theorem foldl_removeRange_upright (hl : Apart l) (hsides : ∀ v ∈ l, v.hi ≤ 0 ∨ 1 ≤ v.lo)
    (h : ∀ i ∈ s.spans.getD [], 1 ≤ i.lo ∧ i.lo ≤ i.hi)
    (hnext : ∀ v ∈ l, 1 ≤ v.lo → ∀ i ∈ s.spans.getD [], i.lo ≤ v.lo ∧ (i.lo = v.lo → i.lo < i.hi)) :
    (l.foldl removeRange s).Upright (0 < ·) := by
  induction l generalizing s with
  | nil =>
    intro i hi
    obtain ⟨hlow, hup⟩ := h i hi
    exact ⟨hup, fun _ => by omega⟩
  | cons v l ih =>
    obtain ⟨hne, hafter⟩ := hl
    simp only [List.forall_mem_cons, List.pairwise_cons] at hne hafter hsides hnext
    rw [List.foldl_cons]
    rcases hsides.1 with hbelow | habove
    · rw [removeRange_outside fun i hi => by have := (h i hi).1; omega]
      exact ih ⟨hne.2, hafter.2⟩ hsides.2 h hnext.2
    · have hready := hnext.1 habove
      have hbelow : Below v.hi ((s.removeRange v).spans.getD []) :=
        removeRange_below hne.1 (fun i hi => ⟨(h i hi).1, (h i hi).2, (hready i hi).1⟩) fun i hi => (hready i hi).2
      refine ih ⟨hne.2, hafter.2⟩ hsides.2 (fun i hi => ⟨(hbelow i hi).1, (hbelow i hi).2.1⟩) ?_
      -- what is left begins before the next span, so that one cannot begin with an empty rest
      intro w hw _ i hi
      have hi := (hbelow i hi).2.2
      have hw := hafter.1 w hw
      exact ⟨by omega, fun heq => by omega⟩

theorem complement_upright {limit : Int} (hlimit : 0 ≤ limit) (hs : s.Proper) (hspans : s.spans.isSome = true)
    (hcontains : ∀ t, s.contains t = true → t ≠ 0 ∧ t ≤ limit) :
    ∃ rest, s.complement 1 limit = .ok rest ∧ rest.Upright (0 < ·) := by
  obtain ⟨spans⟩ := s
  obtain ⟨l, rfl⟩ := Option.isSome_iff_exists.mp hspans
  have hl : Apart l := hs
  have hmem (v : Span) (hv : v ∈ l) (t : Int) (ht : v.lo ≤ t ∧ t < v.hi) : t ≠ 0 ∧ t ≤ limit :=
    hcontains t (contains_iff.2 ⟨v, hv, ht⟩)
  refine ⟨_, rfl, foldl_removeRange_upright hl ?_ ?_ ?_⟩
  · intro v hv
    have hne := hl.1 v hv
    by_contra hnot
    exact (hmem v hv 0 (by omega)).1 rfl
  · intro i hi
    cases List.mem_singleton.mp hi
    dsimp only
    omega
  · intro v hv hlo i hi
    have hne := hl.1 v hv
    have hle := (hmem v hv v.lo (by omega)).2
    cases List.mem_singleton.mp hi
    dsimp only
    omega

end IntervalSet

end NimbleLang
