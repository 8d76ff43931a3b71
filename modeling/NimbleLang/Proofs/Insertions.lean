import Mathlib.Data.List.Nodup
import NimbleLang.Proofs.Splicing

/-!
Texts put in front of tokens, some of them in front of the same one. At its turn, an insertion takes in the earlier ones at its
position, and gaps should come to their places. But they come to the places that are the numbers of these insertions among those
that are left (`wipe`), which are other places behind a gap (`turn`).

So it matters in which order positions come up again. As long as none comes up that has come up behind one that came up again
(`Nested`), the gaps come where they should; each position is left with one insertion that has all its texts, the latest first
(`Gathered`). At the first one out of order two insertions stay at one position, behind a gap, and from then on there are always
two (`Spoilt`). Texts accumulate in the first case, and there is no text in the second one (`insertions_accumulate_iff`).
-/

namespace NimbleLang

open TokenStream

namespace Program

/-- Insertions, each with its position and text, and gaps. -/
abbrev Slots := List (Option (Nat × String))

variable {p : Slots} {xs : List Nat} {c d : Nat × String} {x : Nat} {l bs cs : List (Nat × String)}

/-! ## One turn -/

/-- The text at a position, put in front of the token there. -/
def insertion (c : Nat × String) : Edit := ⟨.before, c.1, some c.2⟩

theorem index_insertion : (insertion d).index = (insertion c).index ↔ d.1 = c.1 := Int.ofNat_inj

def ofSlots (p : Slots) : Program := p.map (Option.map insertion)

/-- The texts at a position, one after the other. -/
def textsAt (x : Nat) (l : List (Nat × String)) : String := String.join ((l.filter (·.1 = x)).map (·.2))

/-- Gaps at the places that are the numbers of the insertions at a position. -/
def wipe (x : Nat) : List (Nat × String) → Slots → Slots
  | _, [] => []
  | [], p => p
  | d :: l, o :: p => (if d.1 = x then none else o) :: wipe x l p

/-- What stands up to an insertion after its turn. -/
def turn (p : Slots) (c : Nat × String) : Slots :=
  wipe c.1 p.reduceOption p ++ [some (c.1, c.2 ++ textsAt c.1 p.reduceOption)]

@[simp] theorem textsAt_nil (x : Nat) : textsAt x [] = "" := rfl

theorem textsAt_cons (x : Nat) (d : Nat × String) (l : List (Nat × String)) :
    textsAt x (d :: l) = (if d.1 = x then d.2 else "") ++ textsAt x l := by
  by_cases hd : d.1 = x <;> simp [textsAt, hd, String.join_cons]

theorem length_wipe (x : Nat) (l : List (Nat × String)) (p : Slots) : (wipe x l p).length = p.length := by
  fun_induction wipe x l p with
  | case1 => rfl
  | case2 => rfl
  | case3 d l o p ih => rw [List.length_cons, ih, List.length_cons]

@[simp] theorem length_turn (p : Slots) (c : Nat × String) : (turn p c).length = p.length + 1 := by
  rw [turn, List.length_append, length_wipe, List.length_singleton]

theorem outcome_put (p : Slots) (k : Nat) (o : Option (Nat × String)) :
    (put k (o.map insertion)).outcome (ofSlots p) = (.ok (), ofSlots (p.set k o)) := by
  rw [ofSlots, ofSlots, List.map_set]
  rfl

/-- An insertion takes in those of a list, and its own place keeps up with it. -/
theorem joinInserts_slots (pre rest todo : Slots) (hl : l.length ≤ rest.length) (c : Nat × String) :
    (joinInserts (pre.length + rest.length) pre.length (l.map insertion) (insertion c)).outcome (ofSlots (pre ++ rest ++ some c :: todo)) =
      (.ok (insertion (c.1, c.2 ++ textsAt c.1 l)),
        ofSlots (pre ++ wipe c.1 l rest ++ some (c.1, c.2 ++ textsAt c.1 l) :: todo)) := by
  induction l generalizing pre rest c with
  | nil =>
    have htexts : c.2 ++ textsAt c.1 [] = c.2 := String.append_empty
    have hwipe : wipe c.1 [] rest = rest := by cases rest <;> rfl
    rw [htexts, hwipe]
    rfl
  | cons d l ih =>
    obtain ⟨o, rest, rfl⟩ : ∃ o rest', rest = o :: rest' := List.exists_cons_of_length_pos (by simp at hl; omega)
    have hplace : pre.length + (o :: rest).length = (pre ++ [o]).length + rest.length := by simp; omega
    rw [List.map_cons, joinInserts, textsAt_cons, wipe, ← String.append_assoc]
    by_cases hd : d.1 = c.1
    · rw [if_pos (index_insertion.2 hd), if_pos hd, if_pos hd]
      change (put _ (Option.map insertion (some (c.1, c.2 ++ d.2))) >>= fun _ => put _ (Option.map insertion none) >>= fun _ =>
        joinInserts _ _ (l.map insertion) (insertion (c.1, c.2 ++ d.2))).outcome _ = _
      rw [Run.outcome_bind_ok (outcome_put _ _ _), Run.outcome_bind_ok (outcome_put _ _ _)]
      have hset : ((pre ++ o :: rest ++ some c :: todo).set (pre.length + (o :: rest).length) (some (c.1, c.2 ++ d.2))).set
          pre.length none = pre ++ [none] ++ rest ++ some (c.1, c.2 ++ d.2) :: todo := by simp
      have hrest := ih (pre ++ [none]) rest (by simpa using hl) (c.1, c.2 ++ d.2)
      rw [hset, hplace]
      simpa using hrest
    · have hrest := ih (pre ++ [o]) rest (by simpa using hl) c
      rw [if_neg (mt index_insertion.1 hd), if_neg hd, if_neg hd, String.append_empty, hplace]
      simpa using hrest

theorem map_fst_slots (p : Slots) (i : Nat) : ((ofSlots p).earlier i).map (·.1) = (p.take i).reduceOption.map insertion := by
  rw [map_fst_earlier, ofSlots, ← List.map_take, List.reduceOption_map]

theorem settleInsert_slots (p todo : Slots) (c : Nat × String) :
    (settleInsert p.length).outcome (ofSlots (p ++ some c :: todo)) = (.ok none, ofSlots (turn p c ++ todo)) := by
  have hhere : (ofSlots (p ++ some c :: todo))[p.length]? = some (some (insertion c)) := by simp [ofSlots]
  have hearlier : (((ofSlots (p ++ some c :: todo)).earlier p.length).map (·.1)).filter Edit.isInsert = p.reduceOption.map insertion := by
    rw [map_fst_slots, List.take_left]
    exact List.filter_eq_self.mpr (List.forall_mem_map.mpr fun d _ => rfl)
  have hjoin := joinInserts_slots [] p todo (List.reduceOption_length_le p) c
  rw [List.length_nil, Nat.zero_add, List.nil_append, List.nil_append] at hjoin
  rw [settleInsert, Run.outcome_get_bind, hhere]
  dsimp only
  rw [if_pos (show (insertion c).isInsert = true from rfl), Run.outcome_get_bind, hearlier, Run.outcome_bind_ok hjoin, Run.outcome_get_bind,
    giveInsert_idle rfl fun x hx hno => ?_, turn, List.append_assoc, List.singleton_append]
  have hx := List.mem_map_of_mem (f := (·.1)) hx
  rw [map_fst_slots] at hx
  obtain ⟨d, -, hd⟩ := List.mem_map.mp hx
  rw [← hd] at hno
  cases hno

theorem eachPlace_slots (p : Slots) (cs : List (Nat × String)) :
    (eachPlace settleInsert (List.range' p.length cs.length)).outcome (ofSlots (p ++ cs.map some)) =
      (.ok none, ofSlots (cs.foldl turn p)) := by
  induction cs generalizing p with
  | nil =>
    rw [List.map_nil, List.append_nil]
    rfl
  | cons c cs ih =>
    have hrest := ih (turn p c)
    rw [length_turn] at hrest
    rw [List.length_cons, List.range'_succ, eachPlace, List.map_cons, Run.outcome_bind_ok (settleInsert_slots p _ c), hrest,
      List.foldl_cons]

theorem settleReplacement_slots (p : Slots) (i : Nat) : (settleReplacement i).outcome (ofSlots p) = (.ok none, ofSlots p) := by
  rw [settleReplacement, Run.outcome_get_bind, ofSlots, List.getElem?_map]
  rcases p[i]? with _ | _ | d <;> rfl

/-- A program of insertions is reduced to what stands after their turns. -/
theorem reduce_insertions (cs : List (Nat × String)) :
    reduce.outcome ((cs.map insertion).map some) =
      ((distinct ((cs.foldl turn []).reduceOption.map insertion)).map fun _ => .ok ((cs.foldl turn []).reduceOption.map insertion),
        ofSlots (cs.foldl turn [])) := by
  have hprogram : (cs.map insertion).map some = ofSlots (cs.map some) := by simp [ofSlots]
  have hturns := eachPlace_slots [] cs
  rw [List.length_nil, List.nil_append, ← List.range_eq_range'] at hturns
  rw [hprogram, reduce_outcome (eachPlace_idle (settleReplacement_slots _) _) (by simpa [ofSlots] using hturns), ofSlots,
    List.reduceOption_map]

/-! ## Gaps where they should come -/

/-- The positions of the insertions that are left. -/
def positions (p : Slots) : List Nat := p.reduceOption.map (·.1)

@[simp] theorem positions_gap (p : Slots) : positions (none :: p) = positions p := rfl

@[simp] theorem positions_entry (d : Nat × String) (p : Slots) : positions (some d :: p) = d.1 :: positions p := rfl

@[simp] theorem positions_concat (p : Slots) (d : Nat × String) : positions (p ++ [some d]) = positions p ++ [d.1] := by
  simp [positions, List.reduceOption_append]

/-- Each insertion at a position becomes a gap. -/
def clear (x : Nat) (p : Slots) : Slots := p.map (Option.filter (·.1 ≠ x))

@[simp] theorem clear_gap (x : Nat) (p : Slots) : clear x (none :: p) = none :: clear x p := rfl

theorem clear_entry (x : Nat) (d : Nat × String) (p : Slots) :
    clear x (some d :: p) = (if d.1 = x then none else some d) :: clear x p := by
  by_cases hd : d.1 = x <;> simp [clear, Option.filter, hd]

/-- There is no insertion at the position behind a gap. -/
def Clean (x : Nat) : Slots → Prop
  | [] => True
  | none :: p => x ∉ positions p
  | some _ :: p => Clean x p

theorem wipe_none (h : x ∉ l.map (·.1)) : wipe x l p = p := by
  fun_induction wipe x l p with
  | case1 => rfl
  | case2 => rfl
  | case3 d l o p ih =>
    rw [List.map_cons, List.mem_cons, not_or] at h
    rw [if_neg (Ne.symm h.1), ih h.2]

theorem clear_none (h : x ∉ positions p) : clear x p = p := by
  refine (List.map_congr_left fun o ho => ?_).trans (List.map_id p)
  cases o with
  | none => rfl
  | some d =>
    have hd : d.1 ≠ x := fun hd => h (List.mem_map.mpr ⟨d, List.reduceOption_mem_iff.mpr ho, hd⟩)
    rw [Option.filter_some, if_pos (by simpa using hd), id]

/-- In front of all gaps, numbers are places. -/
theorem wipe_clean (h : Clean x p) : wipe x p.reduceOption p = clear x p := by
  induction p with
  | nil => rfl
  | cons o p ih =>
    cases o with
    | none => exact (wipe_none h).trans (clear_none (p := none :: p) h).symm
    | some d => rw [List.reduceOption_cons_of_some, wipe, ih h, clear_entry]

/-- Just the positions that come up again have gaps. -/
inductive Marked : Slots → List Nat → Prop
  | nil : Marked [] []
  | gap {p : Slots} {x : Nat} {xs : List Nat} (hx : x ∈ xs) (h : Marked p xs) : Marked (none :: p) (x :: xs)
  | entry {p : Slots} {x : Nat} {xs : List Nat} (a : String) (hx : x ∉ xs) (h : Marked p xs) : Marked (some (x, a) :: p) (x :: xs)

theorem Marked.mem_iff (h : Marked p xs) : x ∈ positions p ↔ x ∈ xs := by
  induction h with
  | nil => rfl
  | @gap p y xs hy _ ih =>
    rw [positions_gap, ih, List.mem_cons]
    exact ⟨.inr, fun h => h.elim (· ▸ hy) id⟩
  | entry a hy _ ih => rw [positions_entry, List.mem_cons, List.mem_cons, ih]

theorem Marked.nodup (h : Marked p xs) : (positions p).Nodup := by
  induction h with
  | nil => exact .nil
  | gap _ _ ih => exact ih
  | entry a hy h ih => exact List.nodup_cons.mpr ⟨mt h.mem_iff.mp hy, ih⟩

theorem Marked.clear_concat (h : Marked p xs) (x : Nat) (a : String) : Marked (clear x p ++ [some (x, a)]) (xs ++ [x]) := by
  induction h with
  | nil => exact .entry a List.not_mem_nil .nil
  | gap hy _ ih => exact .gap (List.mem_append_left _ hy) ih
  | @entry p y xs b hy _ ih =>
    rw [clear_entry]
    by_cases hx : y = x
    · rw [if_pos hx]
      exact .gap (by simp [hx]) ih
    · rw [if_neg hx]
      exact .entry b (by simp [hx, hy]) ih

/-- Behind the first position that comes up again, `x` does not come up. -/
def Free (x : Nat) : List Nat → Prop
  | [] => True
  | y :: ys => if y ∈ ys then x ∉ ys else Free x ys

instance Free.decidable (x : Nat) : (ys : List Nat) → Decidable (Free x ys)
  | [] => .isTrue trivial
  | y :: ys =>
    have := Free.decidable x ys
    inferInstanceAs (Decidable (if y ∈ ys then x ∉ ys else Free x ys))

theorem Marked.clean_iff (h : Marked p xs) : Clean x p ↔ Free x xs := by
  induction h with
  | nil => rfl
  | gap hy h _ => rw [Free, if_pos hy, ← h.mem_iff, Clean]
  | entry a hy _ ih => rw [Free, if_neg hy, Clean, ih]

/-- No position comes up that has come up behind one that came up again. -/
def Nested (xs : List Nat) : Prop := ∀ (i : Nat) (h : i < xs.length), Free xs[i] (xs.take i)

instance (xs : List Nat) : Decidable (Nested xs) := inferInstanceAs (Decidable (∀ (i : Nat) (h : i < xs.length), Free xs[i] (xs.take i)))

theorem nested_concat : Nested (xs ++ [x]) ↔ Nested xs ∧ Free x xs := by
  constructor
  · intro h
    refine ⟨fun i hi => ?_, by simpa using h xs.length (by simp)⟩
    have := h i (by simp; omega)
    rwa [List.getElem_append_left hi, List.take_append_of_le_length (Nat.le_of_lt hi)] at this
  · rintro ⟨h, hx⟩ i hi
    by_cases hlt : i < xs.length
    · rw [List.getElem_append_left hlt, List.take_append_of_le_length (Nat.le_of_lt hlt)]
      exact h i hlt
    · obtain rfl : i = xs.length := by simp at hi; omega
      simpa using hx

/-- Each position has one insertion, with all its texts. -/
structure Gathered (bs : List (Nat × String)) (p : Slots) : Prop where
  marked : Marked p (bs.map (·.1))
  texts : ∀ x, textsAt x p.reduceOption = textsAt x bs.reverse

theorem textsAt_clear (x : Nat) (p : Slots) (d : Nat × String) (y : Nat) :
    textsAt y (clear x p ++ [some d]).reduceOption =
      (if x = y then "" else textsAt y p.reduceOption) ++ if d.1 = y then d.2 else "" := by
  induction p with
  | nil => by_cases hx : x = y <;> simp [clear, textsAt_cons]
  | cons o p ih =>
    cases o with
    | none => exact ih
    | some e =>
      rw [clear_entry]
      by_cases he : e.1 = x
      · rw [if_pos he, List.cons_append, List.reduceOption_cons_of_none, ih]
        by_cases hx : x = y <;> simp [textsAt_cons, he, hx]
      · rw [if_neg he, List.cons_append, List.reduceOption_cons_of_some, textsAt_cons, ih]
        by_cases hx : x = y
        · rw [if_pos hx, if_pos hx, if_neg (hx ▸ he), String.empty_append]
        · rw [if_neg hx, if_neg hx, List.reduceOption_cons_of_some, textsAt_cons, String.append_assoc]

theorem Gathered.turn (h : Gathered bs p) (hfree : Free c.1 (bs.map (·.1))) : Gathered (bs ++ [c]) (turn p c) := by
  rw [Program.turn, wipe_clean (h.marked.clean_iff.mpr hfree)]
  refine ⟨by simpa using h.marked.clear_concat c.1 _, fun y => ?_⟩
  rw [textsAt_clear, List.reverse_concat, textsAt_cons]
  by_cases hy : c.1 = y
  · rw [if_pos hy, if_pos hy, if_pos hy, hy, h.texts, String.empty_append]
  · rw [if_neg hy, if_neg hy, if_neg hy, h.texts, String.empty_append, String.append_empty]

/-! ## Gaps elsewhere -/

/-- Two insertions are at one position, behind a gap. -/
def Spoilt : Slots → Prop
  | [] => False
  | none :: p => ¬(positions p).Nodup
  | some _ :: p => Spoilt p

theorem Spoilt.not_nodup (h : Spoilt p) : ¬(positions p).Nodup := by
  induction p with
  | nil => exact h.elim
  | cons o p ih =>
    cases o with
    | none => exact h
    | some d => exact fun hd => ih h (List.nodup_cons.mp hd).2

theorem Spoilt.cons (h : Spoilt p) (o : Option (Nat × String)) : Spoilt (o :: p) := by
  cases o with
  | none => exact h.not_nodup
  | some d => exact h

/-- Where numbers fall short of places, an insertion at the position is kept. -/
theorem mem_wipe (hl : l <:+ p.reduceOption) (hlt : l.length < p.reduceOption.length) (hx : x ∈ positions p) :
    x ∈ positions (wipe x l p) := by
  induction p generalizing l with
  | nil => cases hx
  | cons o p ih =>
    cases l with
    | nil => rwa [wipe_none (by simp)]
    | cons d l =>
      have hsuffix : d :: l <:+ p.reduceOption := by
        cases o with
        | none => exact hl
        | some e => exact (List.suffix_cons_iff.mp hl).resolve_left fun heq => Nat.ne_of_lt hlt (congrArg _ heq)
      rw [wipe]
      by_cases hmem : x ∈ positions p
      · have hkept := ih ((List.suffix_cons d l).trans hsuffix) hsuffix.length_le hmem
        cases (if d.1 = x then none else o) with
        | none => exact hkept
        | some e => exact List.mem_cons_of_mem _ hkept
      · have hd : d.1 ≠ x := fun hd => hmem (List.mem_map.mpr ⟨d, hsuffix.subset List.mem_cons_self, hd⟩)
        rw [if_neg hd]
        cases o with
        | none => exact absurd hx hmem
        | some e => exact List.mem_cons.mpr (.inl ((List.mem_cons.mp hx).resolve_right hmem))

theorem spoilt_of_not_clean (h : ¬ Clean x p) (a : String) : Spoilt (wipe x p.reduceOption p ++ [some (x, a)]) := by
  induction p with
  | nil => exact absurd trivial h
  | cons o p ih =>
    cases o with
    | none =>
      have hx : x ∈ positions p := not_not.mp h
      rw [List.reduceOption_cons_of_none]
      cases hleft : p.reduceOption with
      | nil => simp [positions, hleft] at hx
      | cons d l =>
        have hkept : x ∈ positions (wipe x l p) := mem_wipe (hleft ▸ List.suffix_cons d l) (by simp [hleft]) hx
        rw [wipe, ite_self, List.cons_append, Spoilt, positions_concat]
        exact fun hnodup => (List.nodup_append.mp hnodup).2.2 x hkept x List.mem_cons_self rfl
    | some d => exact (ih h).cons _

theorem Spoilt.clear_concat (h : Spoilt p) (hclean : Clean x p) (d : Nat × String) : Spoilt (clear x p ++ [some d]) := by
  induction p with
  | nil => exact h.elim
  | cons o p ih =>
    cases o with
    | none =>
      rw [clear_gap, clear_none hclean, List.cons_append, Spoilt, positions_concat]
      exact fun hnodup => h (List.nodup_append.mp hnodup).1
    | some e => exact (ih h hclean).cons _

theorem Spoilt.turn (h : Spoilt p) (c : Nat × String) : Spoilt (turn p c) := by
  by_cases hclean : Clean c.1 p
  · rw [Program.turn, wipe_clean hclean]
    exact h.clear_concat hclean _
  · exact spoilt_of_not_clean hclean _

/-! ## All turns -/

theorem turns (cs : List (Nat × String)) :
    if Nested (cs.map (·.1)) then Gathered cs (cs.foldl turn []) else Spoilt (cs.foldl turn []) := by
  induction cs using List.reverseRecOn with
  | nil => exact ⟨.nil, fun _ => rfl⟩
  | append_singleton cs c ih =>
    rw [List.foldl_concat, List.map_append, List.map_singleton]
    by_cases hnested : Nested (cs.map (·.1))
    · rw [if_pos hnested] at ih
      by_cases hfree : Free c.1 (cs.map (·.1))
      · rw [if_pos (nested_concat.2 ⟨hnested, hfree⟩)]
        exact ih.turn hfree
      · rw [if_neg fun h => hfree (nested_concat.1 h).2]
        exact spoilt_of_not_clean (mt ih.marked.clean_iff.mp hfree) _
    · rw [if_neg hnested] at ih
      rw [if_neg fun h => hnested (nested_concat.1 h).1]
      exact ih.turn c

/-- The check of what is left passes exactly if no two insertions are at one position. -/
theorem distinct_insertions (p : Slots) :
    ((positions p).Nodup → distinct (p.reduceOption.map insertion) = .ok ()) ∧
      (¬(positions p).Nodup → distinct (p.reduceOption.map insertion) = .error (.invalidValue "should be only one op per index")) := by
  have hiff : (p.reduceOption.map insertion).Pairwise (fun d e => d.index ≠ e.index) ↔ (positions p).Nodup := by
    rw [List.pairwise_map, positions, List.Nodup, List.pairwise_map]
    simp only [ne_eq, index_insertion]
  rw [← hiff]
  rcases distinct_cases (p.reduceOption.map insertion) with ⟨hok, hdistinct⟩ | ⟨herror, hdistinct⟩
  · exact ⟨fun _ => hok, fun h => absurd hdistinct h⟩
  · exact ⟨fun h => absurd h hdistinct, fun _ => herror⟩

theorem Gathered.ahead {n : Nat} (h : Gathered cs p) (hcs : ∀ c ∈ cs, c.1 < n) : Ahead 0 n (p.reduceOption.map insertion) where
  starts := List.forall_mem_map.mpr fun d _ => Int.natCast_nonneg d.1
  ranges := List.forall_mem_map.mpr fun d _ => Int.le_refl _
  ends := List.forall_mem_map.mpr fun d hd => by
    obtain ⟨c, hc, heq⟩ := List.mem_map.mp (h.marked.mem_iff.mp (List.mem_map_of_mem hd))
    exact Int.ofNat_lt.mpr (heq ▸ hcs c hc)
  apart := List.forall_mem_map.mpr fun d hd => List.forall_mem_map.mpr fun e he => by
    by_cases hde : d.1 = e.1
    · exact .inl (congrArg insertion (List.inj_on_of_nodup_map h.marked.nodup hd he hde))
    · exact .inr (Int.lt_or_gt_of_ne (mt index_insertion.1 hde))

theorem textsAt_nodup (h : (l.map (·.1)).Nodup) (x : Nat) : textsAt x l = ((l.find? (·.1 == x)).map (·.2)).getD "" := by
  induction l with
  | nil => rfl
  | cons d l ih =>
    obtain ⟨hd, hl⟩ := List.nodup_cons.mp h
    by_cases hx : d.1 = x
    · have hnone : l.find? (·.1 == x) = none := List.find?_eq_none.mpr fun e he heq =>
        hd (List.mem_map.mpr ⟨e, he, (beq_iff_eq.mp heq).trans hx.symm⟩)
      rw [textsAt_cons, ih hl, hnone, if_pos hx, List.find?_cons_of_pos (by simpa using hx)]
      exact String.append_empty
    · rw [textsAt_cons, ih hl, if_neg hx, List.find?_cons_of_neg (by simpa using hx), String.empty_append]

/-- The text that insertions of one text at each position are spliced into. -/
theorem piece_insertions (h : (l.map (·.1)).Nodup) (t : Token) (i : Nat) :
    piece (l.map insertion) t i = (own? t).map (textsAt i l ++ ·) := by
  have hcovered : ¬ ∃ e ∈ l.map insertion, e.Covers i := by
    rintro ⟨e, he, hcovers⟩
    obtain ⟨d, -, rfl⟩ := List.mem_map.mp he
    exact absurd hcovers.1 (Int.not_lt.mpr hcovers.2)
  have hindex : (fun e : Edit => e.index == (i : Int)) ∘ insertion = fun d => d.1 == i := by
    funext d
    rw [Bool.eq_iff_iff, Function.comp_apply, beq_iff_eq, beq_iff_eq]
    exact Int.ofNat_inj
  rw [piece, if_neg hcovered, textsAt_nodup h, List.find?_map, hindex]
  cases l.find? (·.1 == i) with
  | none => cases own? t <;> simp
  | some d => rfl

end Program

namespace Edits

open Program

variable {σ : Type}

theorem issue_insertions {stream : TokenStream σ} {cs : List (Nat × String)} (hcs : ∀ c ∈ cs, c.1 < stream.tokens.size) :
    ∃ s, (issueAll (cs.map insertion)).outcome { stream } = (.ok (), s) ∧ s.stream = stream ∧
      s.program standard = (cs.map insertion).map some := by
  refine issue_all fun e he => ?_
  obtain ⟨c, hc, rfl⟩ := List.mem_map.mp he
  exact ⟨Int.natCast_nonneg c.1, Int.le_refl _, Int.ofNat_lt.mpr (hcs c hc)⟩

variable [TokenSource σ]

theorem wholeText_unreduced {s : Edits σ} {f : Fault} {q : Program}
    (hreduce : Program.reduce.outcome (s.program standard) = (.error f, q)) : (wholeText.outcome s).1 = .error f := by
  have hne : s.program standard ≠ [] := by
    intro hnil
    rw [hnil] at hreduce
    cases congrArg Prod.fst hreduce
  rw [wholeText, Run.outcome_bind_ok (Run.outcome_get s), outcome_unreduced hne hreduce]

/-- For texts put in front of tokens, in any order: if no position comes up that has come up behind one that came up again, each
token is written with all texts in front of it, the latest first. Otherwise there is no text. -/
theorem insertions_accumulate_iff {ts : List Token} {last : Token} {stream : TokenStream σ} (hfilled : Filled ts last stream)
    (cs : List (Nat × String)) (hcs : ∀ c ∈ cs, c.1 < stream.tokens.size) :
    ((do issueAll (cs.map insertion); wholeText : Act σ String).outcome { stream }).1 =
      if Program.Nested (cs.map (·.1)) then
        assembled (stream.tokens.toList.mapIdx fun i t => (own? t).map (textsAt i cs.reverse ++ ·))
      else .error (.invalidValue "should be only one op per index") := by
  obtain ⟨s, hissue, rfl, hprogram⟩ := issue_insertions hcs
  have hreduce := reduce_insertions cs
  have hturns := turns cs
  rw [← hprogram] at hreduce
  rw [Run.outcome_bind_ok hissue]
  by_cases hnested : Program.Nested (cs.map (·.1))
  · rw [if_pos hnested] at hturns ⊢
    rw [(distinct_insertions _).1 hturns.marked.nodup] at hreduce
    rw [outcome_wholeText hfilled hreduce (hturns.ahead hcs), spliced, pieces]
    simp only [piece_insertions hturns.marked.nodup, hturns.texts]
  · rw [if_neg hnested] at hturns ⊢
    rw [(distinct_insertions _).2 hturns.not_nodup] at hreduce
    exact wholeText_unreduced hreduce

/-- Two texts in front of the name, and between them two in front of the sign. -/
theorem insertions_accumulate_iff_spaced : ∃ s, TokenStream.fill.outcome { source := spacedFrom 0, channel := none } = (.ok (), s) ∧
    Filled (spacedFrom 0).tokens.toList (spacedFrom 3).makeEnding s ∧
    (∀ c ∈ [(0, "a"), (2, "b"), (2, "c"), (0, "d")], c.1 < s.tokens.size) ∧
    ((do issueAll ([(0, "a"), (2, "b"), (2, "c"), (0, "d")].map insertion); wholeText : Act Listed String).outcome { stream := s }).1 =
      .ok "dax cb=" := by
  obtain ⟨s, hfill, hfilled⟩ := exists_filled
  have hcs : ∀ c ∈ [(0, "a"), (2, "b"), (2, "c"), (0, "d")], c.1 < s.tokens.size := by
    rw [hfilled.size]
    decide
  refine ⟨s, hfill, hfilled, hcs, ?_⟩
  rw [insertions_accumulate_iff hfilled _ hcs, if_pos (by decide), hfilled.tokens]
  decide

/-- With three texts in front of the name there is no text, where all of them should be there. -/
theorem third_insertion_fails : ∃ s, TokenStream.fill.outcome { source := spacedFrom 0, channel := none } = (.ok (), s) ∧
    ((do issueAll ([(0, "a"), (0, "b"), (0, "c")].map insertion); wholeText : Act Listed String).outcome { stream := s }).1 =
      .error (.invalidValue "should be only one op per index") ∧
    assembled (s.tokens.toList.mapIdx fun i t => (own? t).map (textsAt i [(0, "c"), (0, "b"), (0, "a")] ++ ·)) = .ok "cbax =" := by
  obtain ⟨s, hfill, hfilled⟩ := exists_filled
  obtain ⟨s', hissue, rfl, hprogram⟩ := issue_insertions
    (show ∀ c ∈ [(0, "a"), (0, "b"), (0, "c")], c.1 < s.tokens.size by rw [hfilled.size]; decide)
  have hreduce := reduce_insertions [(0, "a"), (0, "b"), (0, "c")]
  rw [← hprogram, (distinct_insertions _).2 (by decide)] at hreduce
  refine ⟨_, hfill, ?_, ?_⟩
  · rw [Run.outcome_bind_ok hissue, wholeText_unreduced hreduce]
  · rw [hfilled.tokens]
    decide

end Edits

end NimbleLang
