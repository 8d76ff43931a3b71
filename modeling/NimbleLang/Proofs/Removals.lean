import NimbleLang.Proofs.Elements

/-!
What taking a span out of an interval set leaves. The pass over the spans keeps in step with the list as long as it drops no
span; from the first drop on it writes behind the place it reads from. So it leaves a part of what was there (`holds_removal`),
but not always the part that it should. Three things go wrong, and nothing else does:

- a span that begins in the one taken out and goes on after it (`Outruns`) loses its end as well;
- of two spans that lie in the one taken out (`Doubles`), the last stays;
- a span that is split (`Splits`) leaves its two halves in the wrong order, though with the right numbers.

Single numbers are taken out by another pass, which is right. `removal_exact_iff` says so for every set that was made by
additions: the numbers left are those of the difference just if none of the first two happens, and the spans are in order as
well just if none of the three does. The complement of a set takes its spans out of one large span; there only the first can
do harm, and only at the beginning: if `start` and a neighbour of it are in the set, nothing is left at all.
-/

namespace NimbleLang

namespace IntervalSet

variable {v w i : Span} {l rest pre : List Span} {x : Int} {fuel read write : Nat}

/-! ## What goes wrong -/

/-- A span begins in `v` and goes on after it. -/
def Outruns (v : Span) (l : List Span) : Prop := ∃ i ∈ l, v.lo ≤ i.lo ∧ i.lo < v.hi ∧ v.hi < i.hi

/-- Two spans lie in `v`. -/
def Doubles (v : Span) (l : List Span) : Prop :=
  ∃ i ∈ l, ∃ j ∈ l, i.hi < j.lo ∧ v.lo ≤ i.lo ∧ j.hi ≤ v.hi

/-- A span begins before `v` and goes on after it. -/
def Splits (v : Span) (l : List Span) : Prop := ∃ i ∈ l, i.lo < v.lo ∧ v.hi < i.hi

/-- The second list has the numbers of the first that are not in `v`. -/
def Lacks (v : Span) (l l' : List Span) : Prop := ∀ x, Holds l' x ↔ Holds l x ∧ ¬(v.lo ≤ x ∧ x < v.hi)

theorem apart_cons : Apart (v :: l) ↔ v.lo < v.hi ∧ (∀ w ∈ l, v.hi < w.lo) ∧ Apart l := by
  simp only [Apart, List.forall_mem_cons, List.pairwise_cons]
  tauto

variable {b a e start : Int} {l' pieces : List Span}

theorem lt_of_holds (h : ∀ w ∈ l, b < w.lo) (hx : Holds l x) : b < x := by
  obtain ⟨w, hw, hlo, -⟩ := hx
  have := h w hw
  omega

/-! ## The pass -/

/-- What stands before the place written to stays as it is. -/
theorem removeSpanFrom_append (pre l : List Span) (fuel read write : Nat) :
    removeSpanFrom v fuel (pre.length + read) (pre.length + write) (pre ++ l) = pre ++ removeSpanFrom v fuel read write l := by
  induction fuel generalizing read write l with
  | zero => rfl
  | succ fuel ih =>
    have hget : (pre ++ l)[pre.length + read]? = l[read]? := by
      rw [List.getElem?_append_right (Nat.le_add_right ..), Nat.add_sub_cancel_left]
    have hset (w : Span) : (pre ++ l).set (pre.length + write) w = pre ++ l.set write w := by
      rw [List.set_append_right _ _ (Nat.le_add_right ..), Nat.add_sub_cancel_left]
    have herase : (pre ++ l).eraseIdx (pre.length + write) = pre ++ l.eraseIdx write := by
      rw [List.eraseIdx_append_of_length_le (Nat.le_add_right ..), Nat.add_sub_cancel_left]
    rw [removeSpanFrom, removeSpanFrom, hget]
    cases l[read]? with
    | none => rfl
    | some i =>
      dsimp only
      repeat' split
      · rfl
      · rw [hset, List.take_length_add_append, List.drop_length_add_append, List.append_assoc]
      · rw [herase, Nat.add_assoc, ih]
      · rw [hset, Nat.add_assoc, Nat.add_assoc, ih]
      · rw [hset, Nat.add_assoc, Nat.add_assoc, ih]
      · rw [Nat.add_assoc, Nat.add_assoc, ih]

/-- One step of a pass that is still in step with the list. -/
theorem removeSpanFrom_cons (hv : v.lo < v.hi) :
    removeSpanFrom v (fuel + 1) 0 0 (i :: rest) =
      if v.hi ≤ i.lo then i :: rest
      else if v.lo > i.lo ∧ v.hi < i.hi then ⟨v.hi, i.hi⟩ :: ⟨i.lo, v.lo⟩ :: rest
      else if v.lo ≤ i.lo ∧ v.hi ≥ i.hi then removeSpanFrom v fuel 1 0 rest
      else if v.lo < i.hi then ⟨i.lo, v.lo⟩ :: removeSpanFrom v fuel 0 0 rest
      else i :: removeSpanFrom v fuel 0 0 rest := by
  have hlater (w : Span) : removeSpanFrom v fuel 1 1 (w :: rest) = w :: removeSpanFrom v fuel 0 0 rest :=
    removeSpanFrom_append [w] rest fuel 0 0
  rw [removeSpanFrom]
  simp only [List.getElem?_cons_zero, List.set_cons_zero, List.take_zero, List.nil_append, List.drop_zero, List.eraseIdx_cons_zero,
    Nat.zero_add, hlater]
  repeat' split
  · rfl
  · rfl
  · rfl
  · rfl
  -- a span that ends after `v` and not before it begins meets `v`
  · omega
  · rfl

/-- From a place on where all spans come after `v`, nothing is done any more. -/
theorem removeSpanFrom_done (h : ∀ w, l[read]? = some w → v.hi ≤ w.lo) : removeSpanFrom v fuel read write l = l := by
  cases fuel with
  | zero => rfl
  | succ fuel =>
    rw [removeSpanFrom]
    split
    · rfl
    · rename_i w hw
      rw [if_pos (h w hw)]

/-- What a pass may leave of a span. -/
inductive Piece (v i : Span) : Span → Prop
  | whole : Piece v i i
  | low : v.lo < i.hi → Piece v i ⟨i.lo, v.lo⟩
  | high : i.lo < v.lo → v.hi < i.hi → Piece v i ⟨v.hi, i.hi⟩

theorem Piece.of_low (hv : v.lo < v.hi) (hi : v.lo < i.hi) (h : Piece v ⟨i.lo, v.lo⟩ w) : Piece v i w := by
  cases h with
  | whole => exact .low hi
  | low h => exact absurd h (Int.lt_irrefl _)
  | high _ h => exact absurd h (by dsimp only; omega)

theorem mem_removal (hv : v.lo < v.hi) (hw : w ∈ removeSpanFrom v fuel read write l) : ∃ i ∈ l, Piece v i w := by
  induction fuel generalizing read write l with
  | zero => exact ⟨w, hw, .whole⟩
  | succ fuel ih =>
    rw [removeSpanFrom] at hw
    split at hw
    · exact ⟨w, hw, .whole⟩
    · rename_i i hi
      have himem := List.mem_of_getElem? hi
      have hlow (hcut : v.lo < i.hi) {u : Span} (hu : u ∈ l.set write ⟨i.lo, v.lo⟩) (hpiece : Piece v u w) : ∃ i ∈ l, Piece v i w := by
        rcases List.mem_or_eq_of_mem_set hu with hu | rfl
        · exact ⟨u, hu, hpiece⟩
        · exact ⟨i, himem, hpiece.of_low hv hcut⟩
      repeat' split at hw
      · exact ⟨w, hw, .whole⟩
      · rename_i hsplit
        rcases List.mem_append.mp hw with hw | hw
        · exact hlow (by omega) (List.mem_of_mem_take hw) .whole
        · rcases List.mem_cons.mp hw with rfl | hw
          · exact ⟨i, himem, .high hsplit.1 hsplit.2⟩
          · exact hlow (by omega) (List.mem_of_mem_drop hw) .whole
      · obtain ⟨u, hu, hpiece⟩ := ih hw
        exact ⟨u, List.mem_of_mem_eraseIdx hu, hpiece⟩
      · obtain ⟨u, hu, hpiece⟩ := ih hw
        exact hlow (by assumption) hu hpiece
      -- a span that ends after `v` and not before it begins meets `v`
      · omega
      · exact ih hw

/-- A pass leaves a part of what was there. -/
theorem holds_removal (hv : v.lo < v.hi) (hx : Holds (removeSpanFrom v fuel read write l) x) : Holds l x := by
  obtain ⟨w, hw, hwx⟩ := hx
  obtain ⟨i, hi, hpiece⟩ := mem_removal hv hw
  refine ⟨i, hi, ?_⟩
  cases hpiece with
  | whole => exact hwx
  | low h | high hlo hhi =>
    dsimp only at hwx
    omega

theorem lt_removal (hv : v.lo < v.hi) (h : ∀ i ∈ l, b < i.lo) : ∀ w ∈ removeSpanFrom v fuel read write l, b < w.lo := by
  intro w hw
  obtain ⟨i, hi, hpiece⟩ := mem_removal hv hw
  have hb := h i hi
  cases hpiece with
  | whole => exact hb
  | low => exact hb
  | high hlo =>
    dsimp only
    omega

/-- Once the pass writes behind the place it reads from, the last span that meets `v` stays: it would have to be dropped at a
span after it. -/
theorem last_stays (hdrift : write < read) {p : Nat} (hp : l[p]? = some w) (hlast : ∀ q u, p < q → l[q]? = some u → v.hi ≤ u.lo) :
    w ∈ removeSpanFrom v fuel read write l := by
  induction fuel generalizing read write l p with
  | zero => exact List.mem_of_getElem? hp
  | succ fuel ih =>
    by_cases hpr : p < read
    · rw [removeSpanFrom_done fun u hu => hlast read u hpr hu]
      exact List.mem_of_getElem? hp
    · have hwp : write < p := by omega
      have hset (u : Span) : (l.set write u)[p]? = some w := by
        rw [List.getElem?_set_ne (by omega)]
        exact hp
      have hset_last (u : Span) : ∀ q u', p < q → (l.set write u)[q]? = some u' → v.hi ≤ u'.lo := by
        intro q u' hq hu'
        rw [List.getElem?_set_ne (by omega)] at hu'
        exact hlast q u' hq hu'
      rw [removeSpanFrom]
      split
      · exact List.mem_of_getElem? hp
      · rename_i i hi
        repeat' split
        · exact List.mem_of_getElem? hp
        · refine List.mem_append_right _ (List.mem_cons_of_mem _ (List.mem_of_getElem? (i := p - write) ?_))
          rw [List.getElem?_drop, Nat.add_sub_cancel' (by omega)]
          exact hset _
        · refine ih (p := p - 1) (by omega) ?_ ?_
          · rw [List.getElem?_eraseIdx_of_ge (by omega), Nat.sub_add_cancel (by omega)]
            exact hp
          · intro q u hq hu
            rw [List.getElem?_eraseIdx_of_ge (by omega)] at hu
            exact hlast (q + 1) u (by omega) hu
        · exact ih (by omega) (hset _) (hset_last _)
        · exact ih (by omega) (hset _) (hset_last _)
        · exact ih (by omega) hp hlast

/-! ## The numbers that are left -/

/-- No span begins in `v` and goes on after it, and no two lie in `v`. -/
def Fits (v : Span) (l : List Span) : Prop := ¬Outruns v l ∧ ¬Doubles v l

theorem outruns_cons : Outruns v (i :: l) ↔ (v.lo ≤ i.lo ∧ i.lo < v.hi ∧ v.hi < i.hi) ∨ Outruns v l := List.exists_mem_cons_iff ..

theorem splits_cons : Splits v (i :: l) ↔ (i.lo < v.lo ∧ v.hi < i.hi) ∨ Splits v l := List.exists_mem_cons_iff ..

/-- Of spans apart from each other, two lie in `v` if the first and a later one do, or two later ones. -/
theorem doubles_cons (h : Apart (i :: l)) : Doubles v (i :: l) ↔ (v.lo ≤ i.lo ∧ ∃ j ∈ l, j.hi ≤ v.hi) ∨ Doubles v l := by
  obtain ⟨hne, hafter, hl⟩ := apart_cons.1 h
  constructor
  · rintro ⟨a, ha, b, hb, hab, hlo, hhi⟩
    rcases List.mem_cons.mp ha with rfl | ha'
    · rcases List.mem_cons.mp hb with rfl | hb'
      · omega
      · exact .inl ⟨hlo, b, hb', hhi⟩
    · rcases List.mem_cons.mp hb with rfl | hb'
      · have := hafter a ha'
        have := hl.1 a ha'
        omega
      · exact .inr ⟨a, ha', b, hb', hab, hlo, hhi⟩
  · rintro (⟨hlo, j, hj, hhi⟩ | ⟨a, ha, b, hb, h⟩)
    · exact ⟨i, List.mem_cons_self, j, List.mem_cons_of_mem i hj, hafter j hj, hlo, hhi⟩
    · exact ⟨a, List.mem_cons_of_mem i ha, b, List.mem_cons_of_mem i hb, h⟩

/-- Nothing goes wrong with spans that come after `v`. -/
theorem fits_of_after (hl : Apart l) (h : ∀ w ∈ l, v.hi ≤ w.lo) : Fits v l := by
  constructor
  · rintro ⟨i, hi, -, hlo, -⟩
    have := h i hi
    omega
  · rintro ⟨i, hi, j, hj, hij, hlo, hhi⟩
    have := h j hj
    have := hl.1 j hj
    omega

/-- A span that begins before `v` makes no difference. -/
theorem fits_cons_of_lt (h : Apart (i :: l)) (hi : i.lo < v.lo) : Fits v (i :: l) ↔ Fits v l := by
  rw [Fits, Fits, outruns_cons, doubles_cons h]
  have hnot : ¬v.lo ≤ i.lo := by omega
  simp only [hnot, false_and, false_or]

/-- Behind a span that lies in `v`, nothing else may meet `v`. -/
theorem fits_cons_of_within (h : Apart (i :: l)) (hlo : v.lo ≤ i.lo) (hhi : i.hi ≤ v.hi) :
    Fits v (i :: l) ↔ ∀ w ∈ l, v.hi ≤ w.lo := by
  obtain ⟨hne, hafter, hl⟩ := apart_cons.1 h
  constructor
  · rintro ⟨hout, hdouble⟩ w hw
    have hbefore := hafter w hw
    by_contra hlt
    rcases Int.lt_or_le v.hi w.hi with hover | hin
    · exact hout (outruns_cons.2 (.inr ⟨w, hw, by omega, by omega, hover⟩))
    · exact hdouble ((doubles_cons h).mpr (.inl ⟨hlo, w, hw, hin⟩))
  · intro hall
    obtain ⟨hout, hdouble⟩ := fits_of_after hl hall
    refine ⟨fun h' => ?_, fun h' => ?_⟩
    · rcases outruns_cons.1 h' with h' | h'
      · omega
      · exact hout h'
    · rcases (doubles_cons h).mp h' with ⟨-, j, hj, hj'⟩ | h'
      · have := hall j hj
        have := hl.1 j hj
        omega
      · exact hdouble h'

/-- Where one span keeps what it should, the rest decides. -/
theorem lacks_cons {res : List Span} (hafter : ∀ w ∈ rest, i.hi < w.lo) (hres : ∀ x, Holds res x → Holds rest x)
    (hw : ∀ x, w.lo ≤ x ∧ x < w.hi ↔ (i.lo ≤ x ∧ x < i.hi) ∧ ¬(v.lo ≤ x ∧ x < v.hi)) :
    Lacks v (i :: rest) (w :: res) ↔ Lacks v rest res := by
  constructor
  · intro h x
    have hx := h x
    rw [holds_cons, holds_cons, hw] at hx
    constructor
    · intro hr
      exact ⟨hres x hr, (hx.mp (.inr hr)).2⟩
    · rintro ⟨hr, hnot⟩
      rcases hx.mpr ⟨.inr hr, hnot⟩ with hi | hr'
      · have := lt_of_holds hafter hr
        omega
      · exact hr'
  · intro h x
    rw [holds_cons, holds_cons, hw, h x]
    tauto

theorem lacks_of_after (h : ∀ w ∈ l, v.hi ≤ w.lo) : Lacks v l l := by
  intro x
  constructor
  · intro hx
    have := lt_of_holds (b := v.hi - 1) (fun w hw => by have := h w hw; omega) hx
    exact ⟨hx, by omega⟩
  · exact And.left

/-- The last of the spans that begin before a number. -/
theorem exists_last {b : Int} (h : ∃ w ∈ l, w.lo < b) :
    ∃ (p : Nat) (w : Span), l[p]? = some w ∧ w.lo < b ∧ ∀ q u, p < q → l[q]? = some u → b ≤ u.lo := by
  induction l with
  | nil => simp at h
  | cons i l ih =>
    by_cases hl : ∃ w ∈ l, w.lo < b
    · obtain ⟨p, w, hp, hw, hlast⟩ := ih hl
      refine ⟨p + 1, w, hp, hw, ?_⟩
      intro q u hq hu
      obtain ⟨q, rfl⟩ : ∃ n, q = n + 1 := ⟨q - 1, by omega⟩
      exact hlast q u (by omega) hu
    · refine ⟨0, i, rfl, ?_, ?_⟩
      · exact ((List.exists_mem_cons_iff ..).mp h).resolve_right hl
      · intro q u hq hu
        obtain ⟨q, rfl⟩ : ∃ n, q = n + 1 := ⟨q - 1, by omega⟩
        by_contra hlt
        exact hl ⟨u, List.mem_of_getElem? hu, by omega⟩

/-- After a span was dropped, the pass leaves what it should only if no other span meets `v`. -/
theorem lacks_of_dropped (h : Apart (i :: rest)) (hlo : v.lo ≤ i.lo) (hhi : i.hi ≤ v.hi) :
    Lacks v (i :: rest) (removeSpanFrom v fuel 1 0 rest) ↔ ∀ w ∈ rest, v.hi ≤ w.lo := by
  obtain ⟨hne, hafter, hl⟩ := apart_cons.1 h
  constructor
  · intro hlacks
    by_contra hmeets
    obtain ⟨p, w, hp, hw, hlast⟩ := exists_last (l := rest) (b := v.hi) (by simpa using hmeets)
    have hmem := List.mem_of_getElem? hp
    have hstays : w ∈ removeSpanFrom v fuel 1 0 rest := last_stays Nat.zero_lt_one hp hlast
    have hbefore := hafter w hmem
    have hwne := hl.1 w hmem
    exact ((hlacks w.lo).mp ⟨w, hstays, by omega⟩).2 ⟨by omega, hw⟩
  · intro hall x
    have hkept := lacks_of_after hall x
    rw [removeSpanFrom_done fun w hw => hall w (List.mem_of_getElem? hw), holds_cons]
    constructor
    · intro hx
      exact ⟨.inr hx, (hkept.mp hx).2⟩
    · rintro ⟨hx | hx, hnot⟩
      · omega
      · exact hx

/-- The numbers that a pass leaves are those of the difference just if the spans fit. -/
theorem lacks_removal_iff (hv : v.lo < v.hi) (hl : Apart l) (hfuel : l.length < fuel) :
    Lacks v l (removeSpanFrom v fuel 0 0 l) ↔ Fits v l := by
  induction l generalizing fuel with
  | nil =>
    rw [removeSpanFrom_done (by simp)]
    exact iff_of_true (lacks_of_after (by simp)) (fits_of_after hl (by simp))
  | cons i rest ih =>
    obtain ⟨hne, hafter, hrest⟩ := apart_cons.1 hl
    obtain ⟨fuel, rfl⟩ : ∃ n, fuel = n + 1 := ⟨fuel - 1, by omega⟩
    have hih : Lacks v rest (removeSpanFrom v fuel 0 0 rest) ↔ Fits v rest := ih hrest (by simpa using hfuel)
    have hpart (x : Int) : Holds (removeSpanFrom v fuel 0 0 rest) x → Holds rest x := holds_removal hv
    rw [removeSpanFrom_cons hv]
    repeat' split
    · have hall : ∀ w ∈ i :: rest, v.hi ≤ w.lo := by
        rintro w hw
        rcases List.mem_cons.mp hw with rfl | hw
        · assumption
        · have := hafter w hw
          omega
      exact iff_of_true (lacks_of_after hall) (fits_of_after hl hall)
    · rename_i hsplit
      have hall : ∀ w ∈ rest, v.hi ≤ w.lo := fun w hw => by have := hafter w hw; omega
      refine iff_of_true ?_ ((fits_cons_of_lt hl hsplit.1).mpr (fits_of_after hrest hall))
      intro x
      have hkept := lacks_of_after hall x
      simp only [holds_cons]
      constructor
      · rintro (hx | hx | hx)
        · exact ⟨.inl (by omega), by omega⟩
        · exact ⟨.inl (by omega), by omega⟩
        · exact ⟨.inr hx, (hkept.mp hx).2⟩
      · rintro ⟨hx | hx, hnot⟩
        · by_cases hlow : x < v.lo
          · exact .inr (.inl ⟨hx.1, hlow⟩)
          · exact .inl (by omega)
        · exact .inr (.inr hx)
    · rename_i hin
      rw [fits_cons_of_within hl hin.1 hin.2]
      exact lacks_of_dropped hl hin.1 hin.2
    · by_cases hlow : i.lo < v.lo
      · rw [fits_cons_of_lt hl hlow, ← hih]
        exact lacks_cons hafter hpart (by dsimp only; omega)
      · -- all that is left of the span would be backwards, so its end is missing
        refine iff_of_false (fun hlacks => ?_) fun hfits => hfits.1 (outruns_cons.2 (.inl (by omega)))
        rcases holds_cons.1 ((hlacks v.hi).mpr ⟨holds_cons.2 (.inl (by omega)), by omega⟩) with hx | hx
        · dsimp only at hx
          omega
        · have := lt_of_holds hafter (hpart _ hx)
          omega
    · rw [fits_cons_of_lt hl (by omega), ← hih]
      exact lacks_cons hafter hpart (by omega)

/-! ## The order of what is left -/

/-- Where the numbers are right, the spans are in order just if none was split. -/
theorem apart_removal_iff (hv : v.lo < v.hi) (hl : Apart l) (hfits : Fits v l) (hfuel : l.length < fuel) :
    Apart (removeSpanFrom v fuel 0 0 l) ↔ ¬Splits v l := by
  induction l generalizing fuel with
  | nil =>
    rw [removeSpanFrom_done (by simp)]
    exact iff_of_true hl (by simp [Splits])
  | cons i rest ih =>
    obtain ⟨hne, hafter, hrest⟩ := apart_cons.1 hl
    obtain ⟨fuel, rfl⟩ : ∃ n, fuel = n + 1 := ⟨fuel - 1, by omega⟩
    have hih (hfits : Fits v rest) : Apart (removeSpanFrom v fuel 0 0 rest) ↔ ¬Splits v rest := ih hrest hfits (by simpa using hfuel)
    have hlater : ∀ w ∈ removeSpanFrom v fuel 0 0 rest, i.hi < w.lo := lt_removal hv hafter
    rw [removeSpanFrom_cons hv, splits_cons]
    repeat' split
    · refine iff_of_true hl ?_
      rintro (h | ⟨w, hw, h⟩)
      · omega
      · have := hafter w hw
        omega
    · rename_i hsplit
      refine iff_of_false (fun h => ?_) (not_not_intro (.inl hsplit))
      have := (apart_cons.1 h).2.1 _ List.mem_cons_self
      dsimp only at this
      omega
    · rename_i hin
      have hall := (fits_cons_of_within hl hin.1 hin.2).mp hfits
      rw [removeSpanFrom_done fun w hw => hall w (List.mem_of_getElem? hw)]
      refine iff_of_true hrest ?_
      rintro (h | ⟨w, hw, h⟩)
      · omega
      · have := hall w hw
        omega
    · have hlow : i.lo < v.lo := by
        by_contra hlow
        exact hfits.1 (outruns_cons.2 (.inl (by omega)))
      have hnot : ¬(i.lo < v.lo ∧ v.hi < i.hi) := by omega
      rw [apart_cons, hih ((fits_cons_of_lt hl hlow).mp hfits)]
      simp only [hnot, false_or]
      refine ⟨fun h => h.2.2, fun h => ⟨hlow, fun w hw => ?_, h⟩⟩
      have := hlater w hw
      omega
    · have hnot : ¬(i.lo < v.lo ∧ v.hi < i.hi) := by omega
      rw [apart_cons, hih ((fits_cons_of_lt hl (by omega)).mp hfits)]
      simp only [hnot, false_or]
      exact ⟨fun h => h.2.2, fun h => ⟨hne, hlater, h⟩⟩

/-! ## What a set excludes

The spans of a set are taken out of one large span from the lowest on. The pieces below the span at hand stay as they are
(`Clear`), so that only the piece up to the end counts; it is cut down from below, until the set ends or goes on after it. -/

/-- The spans that are left of some, whichever way `v` is taken out of them. -/
def without (v : Span) (l : List Span) : List Span :=
  if v.lo = v.hi - 1 then removeValue v.lo l else removeSpanFrom v (l.length + 1) 0 0 l

theorem removeRange_some (l : List Span) (v : Span) : (IntervalSet.mk (some l)).removeRange v = ⟨some (without v l)⟩ := by
  unfold removeRange without
  split <;> rfl

theorem foldl_removeRange (vs l : List Span) :
    vs.foldl removeRange ⟨some l⟩ = ⟨some (vs.foldl (fun l v => without v l) l)⟩ := by
  induction vs generalizing l with
  | nil => rfl
  | cons v vs ih => rw [List.foldl_cons, removeRange_some, ih, List.foldl_cons]

/-- Spans that begin and end before a number. -/
def Clear (b : Int) (l : List Span) : Prop := ∀ w ∈ l, w.lo < b ∧ w.hi ≤ b

theorem clear_cons : Clear b (w :: l) ↔ (w.lo < b ∧ w.hi ≤ b) ∧ Clear b l := List.forall_mem_cons

theorem clear_append : Clear b (l ++ l') ↔ Clear b l ∧ Clear b l' := List.forall_mem_append

theorem without_append (hv : v.lo < v.hi) (h : Clear v.lo pre) : without v (pre ++ l) = pre ++ without v l := by
  induction pre with
  | nil => rfl
  | cons w pre ih =>
    obtain ⟨hw, hpre⟩ := clear_cons.1 h
    have ih := ih hpre
    unfold without at ih ⊢
    rw [List.cons_append]
    split
    · rw [if_pos ‹_›, if_pos ‹_›] at ih
      rw [removeValue, if_neg (by omega), if_neg (by omega), if_neg (by omega), if_neg (by omega), if_neg (by omega), ih]
      rfl
    · rw [if_neg ‹_›, if_neg ‹_›] at ih
      rw [List.length_cons, removeSpanFrom_cons hv, if_neg (by omega), if_neg (by omega), if_neg (by omega), if_neg (by omega), ih]
      rfl

theorem without_nil (v : Span) : without v [] = [] := by
  unfold without
  split <;> rfl

theorem without_clear (hv : v.lo < v.hi) (h : Clear v.lo l) : without v l = l := by
  have happend := without_append (l := []) hv h
  rw [without_nil, List.append_nil] at happend
  exact happend

/-- A span that begins inside a piece cuts it off, or in two. -/
theorem without_inside (hv : v.lo < v.hi) (ha : a < v.lo) (he : v.lo < e) (h : Clear v.lo l) :
    without v (⟨a, e⟩ :: l) =
      if e ≤ v.hi then ⟨a, v.lo⟩ :: l
      else if v.lo = v.hi - 1 then ⟨a, v.lo⟩ :: ⟨v.hi, e⟩ :: l
      else ⟨v.hi, e⟩ :: ⟨a, v.lo⟩ :: l := by
  by_cases hone : v.lo = v.hi - 1
  · have hhi : v.hi = v.lo + 1 := by omega
    rw [without, if_pos hone, if_pos hone, removeValue]
    dsimp only
    rw [if_neg (by omega), if_neg (by omega), if_neg (by omega)]
    split
    · rw [if_pos (by omega)]
      have hlast : e - 1 = v.lo := by omega
      rw [hlast]
    · rw [if_pos (by omega), if_neg (by omega), hhi]
  · have hrest : removeSpanFrom v (l.length + 1) 0 0 l = l := by
      have hclear := without_clear hv h
      rwa [without, if_neg hone] at hclear
    rw [without, if_neg hone, if_neg hone, List.length_cons, removeSpanFrom_cons hv]
    dsimp only
    rw [if_neg (by omega)]
    by_cases hend : e ≤ v.hi
    · rw [if_pos hend, if_neg (by omega), if_neg (by omega), if_pos he, hrest]
    · rw [if_neg hend, if_pos (by omega)]

theorem foldl_without_clear (hl : Apart l) (h : ∀ v ∈ l, Clear v.lo pieces) :
    l.foldl (fun p v => without v p) pieces = pieces := by
  induction l with
  | nil => rfl
  | cons v l ih =>
    obtain ⟨hne, -, hl⟩ := apart_cons.1 hl
    obtain ⟨hv, hrest⟩ := List.forall_mem_cons.mp h
    rw [List.foldl_cons, without_clear hne hv, ih hl hrest]

/-- Spans that come after all pieces have none of their numbers. -/
theorem not_holds_of_clear (h : ∀ v ∈ l, Clear v.lo pieces) (hx : Holds pieces x) : ¬Holds l x := by
  rintro ⟨v, hv, hvx⟩
  obtain ⟨w, hw, hwx⟩ := hx
  have := h v hv w hw
  omega

theorem holds_append : Holds (l ++ l') x ↔ Holds l x ∨ Holds l' x := by
  simp only [Holds, List.mem_append, or_and_right, exists_or]

theorem holds_without_inside (hv : v.lo < v.hi) {a e : Int} (ha : a < v.lo) (he : v.lo < e) {low high : List Span}
    (hlow : Clear v.lo low) (hhigh : Clear v.lo high) :
    Holds (without v (low ++ ⟨a, e⟩ :: high)) x ↔ Holds (low ++ ⟨a, e⟩ :: high) x ∧ ¬(v.lo ≤ x ∧ x < v.hi) := by
  have hbelow {l : List Span} (h : Clear v.lo l) (hx : Holds l x) : ¬(v.lo ≤ x ∧ x < v.hi) := by
    obtain ⟨w, hw, hwx⟩ := hx
    have := h w hw
    omega
  have hpieces : Holds (without v (⟨a, e⟩ :: high)) x ↔ ((a ≤ x ∧ x < v.lo) ∨ (v.hi ≤ x ∧ x < e)) ∨ Holds high x := by
    rw [without_inside hv ha he hhigh]
    repeat' split
    · simp only [holds_cons]
      refine or_congr_left ⟨.inl, ?_⟩
      omega
    · simp only [holds_cons, or_assoc]
    · simp only [holds_cons, or_assoc, or_left_comm]
  have hcut : (a ≤ x ∧ x < v.lo) ∨ (v.hi ≤ x ∧ x < e) ↔ (a ≤ x ∧ x < e) ∧ ¬(v.lo ≤ x ∧ x < v.hi) := by omega
  rw [without_append hv hlow, holds_append, holds_append, holds_cons, hpieces, hcut]
  constructor
  · rintro (h | h | h)
    · exact ⟨.inl h, hbelow hlow h⟩
    · exact ⟨.inr (.inl h.1), h.2⟩
    · exact ⟨.inr (.inr h), hbelow hhigh h⟩
  · rintro ⟨h | h | h, hnot⟩
    · exact .inl h
    · exact .inr (.inl ⟨h, hnot⟩)
    · exact .inr (.inr h)

/-- As long as the spans begin inside the piece up to the end, each takes out just its numbers. -/
theorem holds_foldl_without (hl : Apart l) (e : Int) (low high : List Span) (ha : ∀ v ∈ l, a < v.lo)
    (hlow : ∀ v ∈ l, Clear v.lo low) (hhigh : ∀ v ∈ l, Clear v.lo high) :
    Holds (l.foldl (fun p v => without v p) (low ++ ⟨a, e⟩ :: high)) x ↔ Holds (low ++ ⟨a, e⟩ :: high) x ∧ ¬Holds l x := by
  induction l generalizing a low high with
  | nil => simp
  | cons v l ih =>
    obtain ⟨hne, hafter, hrest⟩ := apart_cons.1 hl
    by_cases hend : e ≤ v.lo
    · have hclear : ∀ u ∈ v :: l, Clear u.lo (low ++ ⟨a, e⟩ :: high) := by
        intro u hu
        refine clear_append.2 ⟨hlow u hu, clear_cons.2 ⟨⟨ha u hu, ?_⟩, hhigh u hu⟩⟩
        rcases List.mem_cons.mp hu with rfl | hu
        · exact hend
        · have := hafter u hu
          dsimp only
          omega
      rw [foldl_without_clear hl hclear]
      exact ⟨fun hx => ⟨hx, not_holds_of_clear hclear hx⟩, And.left⟩
    · obtain ⟨hav, ha⟩ := List.forall_mem_cons.mp ha
      obtain ⟨hlowv, hlow⟩ := List.forall_mem_cons.mp hlow
      obtain ⟨hhighv, hhigh⟩ := List.forall_mem_cons.mp hhigh
      have hpiece : ∀ u ∈ l, a < u.lo ∧ v.lo ≤ u.lo := by
        intro u hu
        have := hafter u hu
        omega
      have hfold : Holds (l.foldl (fun p v => without v p) (without v (low ++ ⟨a, e⟩ :: high))) x ↔
          Holds (without v (low ++ ⟨a, e⟩ :: high)) x ∧ ¬Holds l x := by
        rw [without_append hne hlowv, without_inside hne hav (by omega) hhighv]
        repeat' split
        · have hclear : ∀ u ∈ l, Clear u.lo (low ++ ⟨a, v.lo⟩ :: high) := fun u hu =>
            clear_append.2 ⟨hlow u hu, clear_cons.2 ⟨hpiece u hu, hhigh u hu⟩⟩
          rw [foldl_without_clear hrest hclear]
          exact ⟨fun hx => ⟨hx, not_holds_of_clear hclear hx⟩, And.left⟩
        · rw [List.append_cons]
          exact ih hrest _ _ hafter (fun u hu => clear_append.2 ⟨hlow u hu, clear_cons.2 ⟨hpiece u hu, by simp [Clear]⟩⟩) hhigh
        · exact ih hrest _ _ hafter hlow fun u hu => clear_cons.2 ⟨hpiece u hu, hhigh u hu⟩
      rw [List.foldl_cons, hfold, holds_without_inside hne hav (by omega) hlowv hhighv, holds_cons]
      tauto

/-- One of the spans has a number and another one next to it. -/
def Engulfs (l : List Span) (start : Int) : Prop := ∃ v ∈ l, v.lo ≤ start ∧ start < v.hi ∧ v.lo + 1 < v.hi

theorem engulfs_cons : Engulfs (v :: l) start ↔ (v.lo ≤ start ∧ start < v.hi ∧ v.lo + 1 < v.hi) ∨ Engulfs l start :=
  List.exists_mem_cons_iff ..

theorem not_engulfs_of_lt (h : ∀ v ∈ l, start < v.lo) : ¬Engulfs l start := by
  rintro ⟨v, hv, hlo, -⟩
  have := h v hv
  omega

theorem without_before {start e : Int} (h : v.hi ≤ start) : without v [⟨start, e⟩] = [⟨start, e⟩] := by
  have houtside : (IntervalSet.mk (some [⟨start, e⟩])).removeRange v = ⟨some [⟨start, e⟩]⟩ :=
    removeRange_outside (by simpa using h)
  rw [removeRange_some] at houtside
  injection houtside with houtside
  exact Option.some.inj houtside

/-- A span that has the first number of a piece takes all of it, unless it is a single number. -/
theorem without_first {start e : Int} (hse : start < e) (hlo : v.lo ≤ start) (hhi : start < v.hi) :
    without v [⟨start, e⟩] = if e ≤ v.hi then [] else if v.lo + 1 < v.hi then [⟨start, v.lo⟩] else [⟨v.hi, e⟩] := by
  by_cases hone : v.lo = v.hi - 1
  · have hstart : v.lo = start := by omega
    rw [without, if_pos hone, removeValue]
    dsimp only
    rw [if_neg (by omega)]
    by_cases hend : e ≤ v.hi
    · rw [if_pos (by omega), if_pos hend]
    · have hnext : start + 1 = v.hi := by omega
      rw [if_neg (by omega), if_pos hstart, if_neg hend, if_neg (by omega), hnext]
  · have hnil (fuel read : Nat) : removeSpanFrom v fuel read 0 [] = [] := removeSpanFrom_done (by simp)
    rw [without, if_neg hone, List.length_singleton, removeSpanFrom_cons (by omega)]
    dsimp only
    rw [if_neg (by omega), if_neg (by omega), hnil, hnil]
    by_cases hend : e ≤ v.hi
    · rw [if_pos (by omega), if_pos hend]
    · rw [if_neg (by omega), if_pos (by omega), if_neg hend, if_pos (by omega)]

/-- What is left of one large span when others are taken out of it: the numbers that they do not have, unless they engulf the
first number. Then nothing is left. -/
theorem holds_excluded (hl : Apart l) (hse : start < e) :
    Holds (l.foldl (fun p v => without v p) [⟨start, e⟩]) x ↔ ((start ≤ x ∧ x < e) ∧ ¬Holds l x) ∧ ¬Engulfs l start := by
  induction l with
  | nil => simp [Engulfs]
  | cons v l ih =>
    obtain ⟨hne, hafter, hrest⟩ := apart_cons.1 hl
    have hfold {a : Int} {vs : List Span} (hvs : Apart vs) (ha : ∀ u ∈ vs, a < u.lo) :
        Holds (vs.foldl (fun p v => without v p) [⟨a, e⟩]) x ↔ (a ≤ x ∧ x < e) ∧ ¬Holds vs x := by
      simpa using holds_foldl_without (x := x) hvs e [] [] ha (by simp [Clear]) (by simp [Clear])
    -- `v` comes after the first number, has it, or comes before it
    rcases Int.lt_or_le start v.lo with hlater | hlo
    · have hall : ∀ u ∈ v :: l, start < u.lo := by
        intro u hu
        rcases List.mem_cons.mp hu with rfl | hu
        · exact hlater
        · have := hafter u hu
          omega
      rw [hfold hl hall, and_iff_left (not_engulfs_of_lt hall)]
    · rcases Int.lt_or_le start v.hi with hin | hbefore
      · have hbehind : ¬Engulfs l start := not_engulfs_of_lt fun u hu => by have := hafter u hu; omega
        rw [List.foldl_cons, without_first hse hlo hin, engulfs_cons, holds_cons]
        repeat' split
        · rw [foldl_without_clear hrest (by simp [Clear])]
          refine iff_of_false holds_nil ?_
          rintro ⟨⟨hx, hnot⟩, -⟩
          exact hnot (.inl (by omega))
        · have hclear : ∀ u ∈ l, Clear u.lo [⟨start, v.lo⟩] := by
            intro u hu
            have := hafter u hu
            refine clear_cons.2 ⟨?_, by simp [Clear]⟩
            dsimp only
            omega
          rw [foldl_without_clear hrest hclear, holds_cons]
          refine iff_of_false ?_ fun h => h.2 (.inl ⟨hlo, hin, by assumption⟩)
          rintro (hx | hx)
          · dsimp only at hx
            omega
          · exact holds_nil hx
        · rw [hfold hrest hafter]
          constructor
          · rintro ⟨hx, hnot⟩
            refine ⟨⟨by omega, ?_⟩, ?_⟩
            · rintro (h | h)
              · omega
              · exact hnot h
            · rintro (h | h)
              · omega
              · exact hbehind h
          · rintro ⟨⟨hx, hnot⟩, -⟩
            refine ⟨?_, fun h => hnot (.inr h)⟩
            by_contra hlt
            exact hnot (.inl (by omega))
      · have hsame : ¬(v.lo ≤ start ∧ start < v.hi ∧ v.lo + 1 < v.hi) := by omega
        rw [List.foldl_cons, without_before hbefore, ih hrest, engulfs_cons, or_iff_right hsame, holds_cons]
        refine and_congr_left fun _ => and_congr_right fun hx => ?_
        rw [or_iff_right]
        omega

/-! ## Sets -/

theorem spans_removeRange (s : IntervalSet) (v : Span) : (s.removeRange v).spans.getD [] = without v (s.spans.getD []) := by
  obtain ⟨spans⟩ := s
  cases spans with
  | none =>
    unfold removeRange
    split <;> exact (without_nil v).symm
  | some l => rw [removeRange_some, Option.getD_some, Option.getD_some]

theorem lacks_without_iff (hv : v.lo < v.hi) (hl : Apart l) : Lacks v l (without v l) ↔ v.hi = v.lo + 1 ∨ Fits v l := by
  by_cases hone : v.hi = v.lo + 1
  · refine iff_of_true (fun x => ?_) (.inl hone)
    have hx : x ≠ v.lo ↔ ¬(v.lo ≤ x ∧ x < v.hi) := by omega
    rw [without, if_pos (by omega), holds_removeValue id (apart_iff_ranked.1 hl), hx]
  · rw [without, if_neg (by omega), lacks_removal_iff hv hl (Nat.lt_succ_self _), or_iff_right hone]

theorem apart_without_iff (hv : v.lo < v.hi) (hl : Apart l) (h : v.hi = v.lo + 1 ∨ Fits v l) :
    Apart (without v l) ↔ v.hi = v.lo + 1 ∨ ¬Splits v l := by
  by_cases hone : v.hi = v.lo + 1
  · refine iff_of_true ?_ (.inl hone)
    rw [without, if_pos (by omega)]
    exact apart_iff_ranked.2 (removeValue_ranked id (apart_iff_ranked.1 hl))
  · rw [without, if_neg (by omega), apart_removal_iff hv hl (h.resolve_left hone) (Nat.lt_succ_self _), or_iff_right hone]

/-- Spans that are not apart are the same. -/
theorem Apart.eq_of_near (hl : Apart l) (hi : i ∈ l) (hw : w ∈ l) (hiw : w.lo ≤ i.hi) (hwi : i.lo ≤ w.hi) : i = w := by
  induction l with
  | nil => cases hi
  | cons a l ih =>
    obtain ⟨-, hafter, hrest⟩ := apart_cons.1 hl
    rcases List.mem_cons.mp hi with rfl | hi' <;> rcases List.mem_cons.mp hw with rfl | hw'
    · rfl
    · have := hafter w hw'
      omega
    · have := hafter i hi'
      omega
    · exact ih hrest hi' hw'

theorem engulfs_iff (hl : Apart l) {start : Int} :
    Engulfs l start ↔ Holds l start ∧ (Holds l (start - 1) ∨ Holds l (start + 1)) := by
  constructor
  · rintro ⟨v, hv, hlo, hhi, hwide⟩
    refine ⟨⟨v, hv, hlo, hhi⟩, ?_⟩
    rcases Int.lt_or_le v.lo start with h | h
    · exact .inl ⟨v, hv, by omega⟩
    · exact .inr ⟨v, hv, by omega⟩
  · rintro ⟨⟨v, hv, hvs⟩, ⟨w, hw, hws⟩ | ⟨w, hw, hws⟩⟩
    · obtain rfl := hl.eq_of_near hv hw (by omega) (by omega)
      exact ⟨v, hv, by omega⟩
    · obtain rfl := hl.eq_of_near hv hw (by omega) (by omega)
      exact ⟨v, hv, by omega⟩

/-- What a set excludes: the numbers from `start` to `stop` that it does not have, unless it has `start` and a neighbour. -/
theorem contains_complement {s : IntervalSet} (hs : s.Proper) (hspans : s.spans.isSome = true) {stop : Int} (hle : start ≤ stop) :
    ∃ rest, s.complement start stop = .ok rest ∧ ∀ x, rest.contains x = true ↔
      ((start ≤ x ∧ x ≤ stop) ∧ ¬s.contains x = true) ∧
        ¬(s.contains start = true ∧ (s.contains (start - 1) = true ∨ s.contains (start + 1) = true)) := by
  obtain ⟨spans⟩ := s
  obtain ⟨l, rfl⟩ := Option.isSome_iff_exists.mp hspans
  have hl : Apart l := hs
  refine ⟨_, rfl, fun x => ?_⟩
  have hstart : empty.addRange ⟨start, stop + 1⟩ = ⟨some [⟨start, stop + 1⟩]⟩ := rfl
  simp only [contains_iff, Option.getD_some]
  rw [hstart, foldl_removeRange, Option.getD_some, holds_excluded hl (by omega), engulfs_iff hl, Int.lt_add_one_iff]

namespace Making

instance (v : Span) (l : List Span) : Decidable (Outruns v l) := inferInstanceAs (Decidable (∃ _ ∈ l, _))

instance (v : Span) (l : List Span) : Decidable (Doubles v l) := inferInstanceAs (Decidable (∃ _ ∈ l, ∃ _ ∈ l, _))

instance (v : Span) (l : List Span) : Decidable (Splits v l) := inferInstanceAs (Decidable (∃ _ ∈ l, _))

/-- The spans of the set that has come of it. -/
def spans (m : Making) : List Span := m.made.spans.getD []

theorem holds_spans (m : Making) (x : Int) : Holds m.spans x ↔ x ∈ m.elements := by
  rw [← m.contains_made, contains_iff, spans]

theorem lacks_iff (m : Making) (v : Span) :
    (∀ x, (m.made.removeRange v).contains x = true ↔ x ∈ m.elements ∧ ¬(v.lo ≤ x ∧ x < v.hi)) ↔
      Lacks v m.spans (without v m.spans) := by
  refine forall_congr' fun x => ?_
  rw [contains_iff, spans_removeRange, m.holds_spans, spans]

/-- Taking a span out of a set that was made by additions leaves the numbers of the set that are not in the span, just if the
span is a single number, or no span of the set begins in it and goes on after it and no two lie in it. The spans that are left
are not empty, in increasing order and apart as well, just if moreover none was split. The complement of a set that is not
empty has the numbers from `start` to `stop` that the set does not have; but it has none of them if the set has `start` and the
number before or after it. -/
theorem removal_exact_iff (m : Making) (v : Span) (hv : v.lo < v.hi) :
    ((∀ x, (m.made.removeRange v).contains x = true ↔ x ∈ m.elements ∧ ¬(v.lo ≤ x ∧ x < v.hi)) ↔
      v.hi = v.lo + 1 ∨ ¬Outruns v m.spans ∧ ¬Doubles v m.spans) ∧
    ((∀ x, (m.made.removeRange v).contains x = true ↔ x ∈ m.elements ∧ ¬(v.lo ≤ x ∧ x < v.hi)) ∧ (m.made.removeRange v).Proper ↔
      v.hi = v.lo + 1 ∨ (¬Outruns v m.spans ∧ ¬Doubles v m.spans) ∧ ¬Splits v m.spans) ∧
    ∀ start stop, start ≤ stop → m.elements.Nonempty →
      ∃ rest, m.made.complement start stop = .ok rest ∧ ∀ x, rest.contains x = true ↔
        ((start ≤ x ∧ x ≤ stop) ∧ x ∉ m.elements) ∧ ¬(start ∈ m.elements ∧ (start - 1 ∈ m.elements ∨ start + 1 ∈ m.elements)) := by
  have happart : Apart m.spans := m.made_proper
  have hnumbers := (m.lacks_iff v).trans (lacks_without_iff hv happart)
  refine ⟨hnumbers, ?_, ?_⟩
  · have horder : (m.made.removeRange v).Proper ↔ Apart (without v m.spans) := by
      rw [Proper, spans_removeRange, spans]
    rw [horder, hnumbers]
    constructor
    · rintro ⟨hnumbers, horder⟩
      rcases (apart_without_iff hv happart hnumbers).mp horder with hone | hsplit
      · exact .inl hone
      · exact hnumbers.imp_right fun hfits => ⟨hfits, hsplit⟩
    · intro h
      have hnumbers : v.hi = v.lo + 1 ∨ Fits v m.spans := h.imp_right And.left
      exact ⟨hnumbers, (apart_without_iff hv happart hnumbers).mpr (h.imp_right And.right)⟩
  · rintro start stop hle ⟨y, hy⟩
    have hspans : m.made.spans.isSome = true := by
      obtain ⟨v, hv, -⟩ := contains_iff.1 ((m.contains_made y).mpr hy)
      cases hnone : m.made.spans with
      | none =>
        rw [hnone] at hv
        cases hv
      | some l => rfl
    simpa only [contains_made] using contains_complement m.made_proper hspans hle

/-- Of the numbers from `0` to `5` and from `8` to `9`, taking out those from `4` to `9` leaves those from `0` to `3`: the end of
one span and all of another go. From `6` to `12` the set excludes what it does not have. -/
theorem removal_exact_twoSpans :
    let m : Making := (Making.new.addRange ⟨0, 6⟩ (by decide)).addRange ⟨8, 10⟩ (by decide)
    ((4 : Int) < 10 ∧ (∀ x, (m.made.removeRange ⟨4, 10⟩).contains x = true ↔ x ∈ m.elements ∧ ¬(4 ≤ x ∧ x < 10)) ∧
      (m.made.removeRange ⟨4, 10⟩).Proper) ∧
    ((6 : Int) ≤ 12 ∧ 8 ∈ m.elements ∧ ∃ rest, m.made.complement 6 12 = .ok rest ∧ rest.contains 7 = true) := by
  intro m
  obtain ⟨-, hleft, hexcluded⟩ := m.removal_exact_iff ⟨4, 10⟩ (by decide)
  have hmem : 8 ∈ m.elements := .inr (by decide)
  obtain ⟨rest, hrest, hcontains⟩ := hexcluded 6 12 (by decide) ⟨8, hmem⟩
  refine ⟨⟨by decide, hleft.mpr (.inr (by decide))⟩, by decide, hmem, rest, hrest, (hcontains 7).mpr ?_⟩
  simp [m, elements]

/-- Taking `0` and `1` out of the numbers from `0` to `5` loses the others as well; taking out `2` and `3` leaves the rest in
the wrong order; taking the numbers from `0` to `5` out of `0`, `2` and `4` leaves `4`; and what a set with `0` and `1` excludes
from `0` to `5` is nothing. -/
theorem removal_not_difference :
    let run : Making := Making.new.addRange ⟨0, 6⟩ (by decide)
    let even : Making := ((Making.new.addOne 0).addOne 2).addOne 4
    let pair : Making := Making.new.addRange ⟨0, 2⟩ (by decide)
    (run.made.contains 3 = true ∧ (run.made.removeRange ⟨0, 2⟩).contains 3 = false) ∧
    ¬(run.made.removeRange ⟨2, 4⟩).Proper ∧
    (even.made.removeRange ⟨0, 6⟩).contains 4 = true ∧
    (pair.made.contains 3 = false ∧ (pair.made.complement 0 5).map (·.contains 3) = .ok false) := by
  decide

end Making

end IntervalSet

end NimbleLang
