import Mathlib.Data.Set.Card
import NimbleLang.Proofs.Intervals

/-!
What an interval set holds after any number of additions and removals. A `Making` is all that was done to a set since it was new;
`elements` is the mathematical set that the same additions and removals give. The set that comes of it (`made`) has spans that are
not empty, in increasing order and apart from each other, and shows just these elements: it contains them, lists them in
increasing order, finds the one at a place and counts them (`makes_its_elements`).

Adding a set to itself goes through its spans while it adds them; each is there already, so nothing changes
(`addSelf_of_proper`).
-/

namespace NimbleLang

namespace Span

variable {v : Span} {x : Int}

theorem mem_toList : x ∈ v.toList ↔ v.lo ≤ x ∧ x < v.hi := by
  simp only [toList, size, List.mem_map, List.mem_range]
  constructor
  · rintro ⟨k, hk, rfl⟩
    omega
  · intro h
    exact ⟨(x - v.lo).toNat, by omega, by omega⟩

theorem toList_ascends (v : Span) : v.toList.Pairwise (· < ·) := by
  rw [toList, List.pairwise_map]
  refine List.pairwise_lt_range.imp ?_
  intro a b hab
  omega

theorem length_toList (v : Span) : v.toList.length = v.size := by simp [toList]

end Span

namespace IntervalSet

variable {s : IntervalSet} {l : List Span} {x : Int}

/-! ## Listing -/

theorem mem_flatMap_toList : x ∈ l.flatMap Span.toList ↔ Holds l x := by
  simp only [List.mem_flatMap, Span.mem_toList, Holds]

theorem flatMap_toList_ascends (h : Apart l) : (l.flatMap Span.toList).Pairwise (· < ·) := by
  induction l with
  | nil => simp
  | cons v l ih =>
    obtain ⟨hne, hafter⟩ := h
    simp only [List.forall_mem_cons, List.pairwise_cons] at hne hafter
    rw [List.flatMap_cons, List.pairwise_append]
    refine ⟨v.toList_ascends, ih ⟨hne.2, hafter.2⟩, ?_⟩
    intro a ha b hb
    obtain ⟨w, hw, hb⟩ := mem_flatMap_toList.1 hb
    have hbefore := hafter.1 w hw
    have ha := Span.mem_toList.1 ha
    omega

theorem mem_toList : x ∈ s.toList ↔ s.contains x = true := by
  rw [toList, mem_flatMap_toList, contains_iff]

theorem toList_ascends (h : s.Proper) : s.toList.Pairwise (· < ·) := flatMap_toList_ascends h

theorem size?_eq (h : s.spans ≠ none) : s.size? = some s.toList.length := by
  have hsum (l : List Span) : l.foldr (fun v n => v.size + n) 0 = (l.flatMap Span.toList).length := by
    induction l with
    | nil => rfl
    | cons v l ih => simp [ih, Span.length_toList]
  obtain ⟨l, hl⟩ := Option.ne_none_iff_exists'.mp h
  simp [size?, toList, hl, hsum]

/-! ## Places in a list -/

/-- Of the elements of an increasing list, those below the one at a place stand before it. -/
theorem mem_take_iff {l : List Int} (h : l.Pairwise (· < ·)) {i : Nat} (hi : i < l.length) :
    x ∈ l.take i ↔ x ∈ l ∧ x < l[i] := by
  have hless (j k : Nat) (hj : j < l.length) (hk : k < l.length) (hjk : j < k) : l[j] < l[k] :=
    List.pairwise_iff_getElem.mp h j k hj hk hjk
  rw [List.mem_take_iff_getElem, List.mem_iff_getElem]
  constructor
  · rintro ⟨j, hj, rfl⟩
    exact ⟨⟨j, by omega, rfl⟩, hless j i (by omega) hi (by omega)⟩
  · rintro ⟨⟨j, hj, rfl⟩, hlt⟩
    refine ⟨j, ?_, rfl⟩
    by_contra hji
    rcases Nat.lt_or_eq_of_le (show i ≤ j by omega) with hij | hij
    · have := hless i j hi hj hij
      omega
    · subst hij
      omega

/-- The number of elements of a set that a list without repetitions lists. -/
theorem ncard_of_list {l : List Int} (h : l.Pairwise (· < ·)) {S : Set Int} (hS : ∀ x, x ∈ l ↔ x ∈ S) : S.ncard = l.length := by
  have hnodup : l.Nodup := h.imp fun hab => ne_of_lt hab
  have hset : S = ↑l.toFinset := by
    ext x
    simp [hS]
  rw [hset, Set.ncard_coe_finset, List.toFinset_card_of_nodup hnodup]

theorem elementAt_eq {i : Nat} (hi : i < s.toList.length) : s.elementAt i = s.toList[i] := by
  simp [elementAt, hi]

theorem elementAt_outside {i : Int} (hi : i < 0 ∨ s.toList.length ≤ i) : s.elementAt i = 0 := by
  unfold elementAt
  split
  · have hnone : s.toList[i.toNat]? = none := List.getElem?_eq_none (by omega)
    rw [hnone]
    rfl
  · rfl

/-! ## Adding a set to itself -/

theorem addSelfFrom_of_apart (h : Apart l) (fuel k : Nat) : addSelfFrom fuel k l = l := by
  induction fuel generalizing k with
  | zero => rfl
  | succ fuel ih =>
    unfold addSelfFrom
    split
    · rfl
    · rename_i v hv
      rw [insertSpan_of_mem h (List.mem_of_getElem? hv), ih]

theorem addSelf_of_proper (h : s.Proper) : s.addSelf = s := by
  obtain ⟨spans⟩ := s
  cases spans with
  | none => rfl
  | some l =>
    have hl : Apart l := h
    simp only [addSelf, Option.map_some, addSelfFrom_of_apart hl]

/-! ## Histories -/

/-- What was done to a set since it was new. Ranges are not empty, and sets that are added were made in the same way. -/
inductive Making where
  | new
  | addOne (before : Making) (x : Int)
  | addRange (before : Making) (v : Span) (h : v.lo < v.hi)
  | addSet (before other : Making)
  | addSelf (before : Making)
  | removeOne (before : Making) (x : Int)

namespace Making

/-- The set that has come of it. -/
def made : Making → IntervalSet
  | new => {}
  | addOne m x => m.made.addOne x
  | addRange m v _ => m.made.addRange v
  | addSet m other => m.made.addSet other.made
  | addSelf m => m.made.addSelf
  | removeOne m x => m.made.removeOne x

/-- The mathematical set that it comes to. -/
def elements : Making → Set Int
  | new => ∅
  | addOne m x => m.elements ∪ {x}
  | addRange m v _ => m.elements ∪ {x | v.lo ≤ x ∧ x < v.hi}
  | addSet m other => m.elements ∪ other.elements
  | addSelf m => m.elements ∪ m.elements
  | removeOne m x => m.elements \ {x}

/-- Something was added, whatever was removed again. -/
def Fed : Making → Prop
  | new => False
  | addOne .. | addRange .. => True
  | addSet m other => m.Fed ∨ other.elements.Nonempty
  | addSelf m | removeOne m _ => m.Fed

theorem made_proper (m : Making) : m.made.Proper := by
  induction m with
  | new => exact proper_empty
  | addOne m x ih => exact addOne_proper ih x
  | addRange m v h ih => exact addRange_proper ih h
  | addSet m other ih ih' => exact addSet_proper ih ih'
  | addSelf m ih =>
    rw [made, addSelf_of_proper ih]
    exact ih
  | removeOne m x ih => exact removeOne_proper ih

theorem made_tidy (m : Making) : m.made.Tidy fun _ => False := proper_iff_tidy.1 m.made_proper

theorem contains_made (m : Making) : ∀ x, m.made.contains x = true ↔ x ∈ m.elements := by
  induction m with
  | new =>
    intro x
    simp [made, elements, contains]
  | addOne m y ih =>
    intro x
    rw [made, contains_addOne m.made_tidy, ih]
    rfl
  | addRange m v h ih =>
    intro x
    rw [made, contains_addRange m.made_tidy (Span.upright_of_lt h), ih]
    rfl
  | addSet m other ih ih' =>
    intro x
    rw [made, contains_addSet m.made_tidy other.made_tidy.upright, ih, ih']
    rfl
  | addSelf m ih =>
    intro x
    rw [made, addSelf_of_proper m.made_proper, ih, elements, Set.union_self]
  | removeOne m y ih =>
    intro x
    rw [made, contains_removeOne id m.made_tidy, ih]
    rfl

theorem addRange_spans (s : IntervalSet) (v : Span) : (s.addRange v).spans ≠ none := by
  unfold IntervalSet.addRange
  split <;> simp

/-- Spans that are added one after another leave a list, if there are any or there was one. -/
theorem foldl_addRange_spans {l : List Span} {s : IntervalSet} (h : s.spans ≠ none ∨ l ≠ []) :
    (l.foldl IntervalSet.addRange s).spans ≠ none := by
  induction l generalizing s with
  | nil => simpa using h
  | cons v l ih => exact ih (.inl (addRange_spans s v))

theorem spans_of_fed {m : Making} (h : m.Fed) : m.made.spans ≠ none := by
  induction m with
  | new => cases h
  | addOne m x => exact addRange_spans _ _
  | addRange m v => exact addRange_spans _ _
  | addSet m other ih =>
    refine foldl_addRange_spans ?_
    rcases h with h | ⟨x, hx⟩
    · exact .inl (ih h)
    · obtain ⟨v, hv, -⟩ := contains_iff.1 ((other.contains_made x).mpr hx)
      exact .inr (List.ne_nil_of_mem hv)
  | addSelf m ih =>
    rw [made, addSelf_of_proper m.made_proper]
    exact ih h
  | removeOne m x ih =>
    rw [made, IntervalSet.removeOne]
    simpa using ih h

theorem mem_toList_made (m : Making) (x : Int) : x ∈ m.made.toList ↔ x ∈ m.elements := by
  rw [mem_toList, m.contains_made]

theorem ncard_elements (m : Making) : m.elements.ncard = m.made.toList.length :=
  ncard_of_list (toList_ascends m.made_proper) m.mem_toList_made

theorem elements_finite (m : Making) : m.elements.Finite := by
  refine (List.finite_toSet m.made.toList).subset ?_
  intro x hx
  exact (m.mem_toList_made x).mpr hx

/-- The element at a place is the one that has as many smaller elements as the place says. -/
theorem elementAt_made (m : Making) {i : Nat} (hi : i < m.elements.ncard) :
    m.made.elementAt i ∈ m.elements ∧ {x ∈ m.elements | x < m.made.elementAt i}.ncard = i := by
  have hlist := toList_ascends m.made_proper
  rw [ncard_elements] at hi
  rw [elementAt_eq hi]
  refine ⟨(m.mem_toList_made _).mp (List.getElem_mem hi), ?_⟩
  rw [ncard_of_list (hlist.sublist (List.take_sublist i _)), List.length_take, Nat.min_eq_left (Nat.le_of_lt hi)]
  intro x
  rw [mem_take_iff hlist hi, m.mem_toList_made]
  rfl

/-- Whatever is added to a new set and removed from it, its spans are not empty, in increasing order and apart from each other;
it contains just the elements that the same additions and removals give a mathematical set; it lists them in strictly
increasing order; at a place it has the element with so many smaller ones, and zero where there is none; and once anything was
added, its size is the number of elements. -/
theorem makes_its_elements (m : Making) :
    m.made.Proper ∧
    (∀ x, m.made.contains x = true ↔ x ∈ m.elements) ∧
    (m.made.toList.Pairwise (· < ·) ∧ ∀ x, x ∈ m.made.toList ↔ x ∈ m.elements) ∧
    (∀ i : Nat, i < m.elements.ncard →
      m.made.elementAt i ∈ m.elements ∧ {x ∈ m.elements | x < m.made.elementAt i}.ncard = i) ∧
    (∀ i : Int, i < 0 ∨ m.elements.ncard ≤ i → m.made.elementAt i = 0) ∧
    m.elements.Finite ∧ (m.Fed → m.made.size? = some m.elements.ncard) := by
  refine ⟨m.made_proper, m.contains_made, ⟨toList_ascends m.made_proper, m.mem_toList_made⟩, ?_, ?_, m.elements_finite, ?_⟩
  · intro i hi
    exact m.elementAt_made hi
  · intro i hi
    rw [ncard_elements] at hi
    exact elementAt_outside hi
  · intro hfed
    rw [size?_eq (spans_of_fed hfed), ncard_elements]

end Making

end IntervalSet

end NimbleLang
