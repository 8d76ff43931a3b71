import NimbleLang.Interval
import Mathlib.Data.List.Basic

/-!
Shapes of lexemes: regular expressions over characters. `Shape.Spells` says which texts have a shape. What is left of a
shape after a character is a shape again (`Shape.after`, its derivative), so the texts of a shape can be read from left to
right:

- `spells_cons`: a text that begins with `c` has a shape if its rest has the shape after `c`;
- `spells_nil`: the empty text has a shape that is `nullable`;
- `exists_spells`: a shape that is `alive` has some text.

A shape tells characters apart only by the bounds of its spans (`after_congr`).
-/

namespace NimbleLang

/-- The shape of a lexeme. -/
inductive Shape where
  /-- Of no text at all. -/
  | void
  /-- Of the empty text. -/
  | empty
  /-- Of one character in a span. -/
  | one (spans : List Span)
  | seq (a b : Shape)
  | either (a b : Shape)
  | many (a : Shape)
  deriving DecidableEq, Repr, Inhabited

namespace Shape

/-- The texts of a shape. -/
inductive Spells : Shape → List Char → Prop
  | empty : Spells .empty []
  | one {spans : List Span} {c : Char} : spans.any (·.contains c.toNat) = true → Spells (.one spans) [c]
  | seq {a b : Shape} {u v : List Char} : Spells a u → Spells b v → Spells (.seq a b) (u ++ v)
  | left {a b : Shape} {u : List Char} : Spells a u → Spells (.either a b) u
  | right {a b : Shape} {u : List Char} : Spells b u → Spells (.either a b) u
  | stop {a : Shape} : Spells (.many a) []
  | more {a : Shape} {u v : List Char} : Spells a u → Spells (.many a) v → Spells (.many a) (u ++ v)

/-! ## Shapes by name -/

def char (c : Char) : Shape := .one [⟨c.toNat, c.toNat + 1⟩]

/-- The shape of one text. -/
def text (t : List Char) : Shape := t.foldr (fun c rest => .seq (char c) rest) .empty

/-- One of the characters of a text. -/
def oneOf (t : List Char) : Shape := .one (t.map fun c => ⟨c.toNat, c.toNat + 1⟩)

def atLeastOnce (a : Shape) : Shape := .seq a (.many a)

/-! ## Joining shapes -/

/-- One shape after the other. -/
def join (a b : Shape) : Shape :=
  match a, b with
  | .void, _ => .void
  | _, .void => .void
  | .empty, b => b
  | a, b => .seq a b

/-- Either shape, written once if both are the same. -/
def union (a b : Shape) : Shape :=
  match a, b with
  | .void, b => b
  | a, .void => a
  | a, b => if a = b then a else .either a b

def nullable : Shape → Bool
  | .void | .one _ => false
  | .empty | .many _ => true
  | .seq a b => a.nullable && b.nullable
  | .either a b => a.nullable || b.nullable

/-- What is left of a shape after a character. -/
def after (x : Int) : Shape → Shape
  | .void | .empty => .void
  | .one spans => if spans.any (·.contains x) then .empty else .void
  | .seq a b =>
    if a.nullable then union (join (a.after x) b) (b.after x) else join (a.after x) b
  | .either a b => union (a.after x) (b.after x)
  | .many a => join (a.after x) (.many a)

variable {a b : Shape} {w : List Char}

theorem not_spells_void : ¬Spells .void w := nofun

theorem spells_empty : Spells .empty w ↔ w = [] := by
  constructor
  · intro h
    cases h
    rfl
  · intro h
    rw [h]
    exact .empty

theorem spells_seq : Spells (.seq a b) w ↔ ∃ u v, w = u ++ v ∧ Spells a u ∧ Spells b v := by
  constructor
  · intro h
    cases h with
    | seq ha hb => exact ⟨_, _, rfl, ha, hb⟩
  · intro ⟨u, v, hw, ha, hb⟩
    rw [hw]
    exact .seq ha hb

theorem spells_either : Spells (.either a b) w ↔ Spells a w ∨ Spells b w := by
  constructor
  · intro h
    cases h with
    | left h => exact .inl h
    | right h => exact .inr h
  · intro h
    rcases h with h | h
    · exact .left h
    · exact .right h

theorem spells_join : Spells (join a b) w ↔ Spells (.seq a b) w := by
  unfold join
  split
  · simp [spells_seq, not_spells_void]
  · simp [spells_seq, not_spells_void]
  · simp [spells_seq, spells_empty]
  · rfl

theorem spells_union : Spells (union a b) w ↔ Spells a w ∨ Spells b w := by
  unfold union
  split
  · simp [not_spells_void]
  · simp [not_spells_void]
  · split
    · rename_i h
      rw [h, or_self]
    · exact spells_either

/-! ## Reading a text from left to right -/

theorem spells_nil : Spells a [] ↔ a.nullable = true := by
  induction a with
  | void => simp [nullable, not_spells_void]
  | empty => simp [nullable, spells_empty]
  | one spans =>
    constructor
    · intro h
      cases h
    · intro h
      cases h
  | seq a b iha ihb =>
    rw [nullable, Bool.and_eq_true, ← iha, ← ihb, spells_seq]
    constructor
    · intro ⟨u, v, huv, ha, hb⟩
      obtain ⟨rfl, rfl⟩ := List.append_eq_nil_iff.mp huv.symm
      exact ⟨ha, hb⟩
    · intro ⟨ha, hb⟩
      exact ⟨[], [], rfl, ha, hb⟩
  | either a b iha ihb => rw [nullable, Bool.or_eq_true, ← iha, ← ihb, spells_either]
  | many a _ => exact ⟨fun _ => rfl, fun _ => .stop⟩

/-- A repetition that is not empty has a first turn that is not empty. -/
theorem spells_many_cons {c : Char} : Spells (.many a) (c :: w) ↔
    ∃ u v, w = u ++ v ∧ Spells a (c :: u) ∧ Spells (.many a) v := by
  constructor
  · intro h
    -- the turns before the first that consumes something are empty, so the induction is on the turns
    generalize ht : c :: w = t at h
    generalize hm : Shape.many a = m at h
    induction h with
    | stop => cases ht
    | @more a' u v ha hrest _ ih =>
      cases hm
      cases u with
      | nil => exact ih ht rfl
      | cons d u =>
        rw [List.cons_append] at ht
        obtain ⟨rfl, rfl⟩ := List.cons.inj ht
        exact ⟨u, v, rfl, ha, hrest⟩
    | _ => cases hm
  · intro ⟨u, v, hw, ha, hrest⟩
    rw [hw]
    exact .more ha hrest

theorem spells_cons {c : Char} : Spells a (c :: w) ↔ Spells (a.after c.toNat) w := by
  induction a generalizing w with
  | void => simp [after, not_spells_void]
  | empty => simp [after, not_spells_void, spells_empty]
  | one spans =>
    unfold after
    constructor
    · intro h
      cases h with
      | one h =>
        rw [if_pos h]
        exact .empty
    · intro h
      split at h
      · rw [spells_empty.1 h]
        exact .one ‹_›
      · cases h
  | seq a b iha ihb =>
    have hfirst : (∃ u v, w = u ++ v ∧ Spells a (c :: u) ∧ Spells b v) ↔ Spells (join (a.after c.toNat) b) w := by
      simp only [spells_join, spells_seq, iha]
    have hsplit : Spells (.seq a b) (c :: w) ↔
        (∃ u v, w = u ++ v ∧ Spells a (c :: u) ∧ Spells b v) ∨ (Spells a [] ∧ Spells b (c :: w)) := by
      rw [spells_seq]
      constructor
      · intro ⟨u, v, huv, ha, hb⟩
        cases u with
        | nil => exact .inr ⟨ha, huv ▸ hb⟩
        | cons d u =>
          obtain ⟨rfl, rfl⟩ := List.cons.inj huv
          exact .inl ⟨u, v, rfl, ha, hb⟩
      · intro h
        rcases h with ⟨u, v, hw, ha, hb⟩ | ⟨ha, hb⟩
        · exact ⟨c :: u, v, by rw [hw, List.cons_append], ha, hb⟩
        · exact ⟨[], c :: w, rfl, ha, hb⟩
    rw [hsplit, hfirst, spells_nil, ihb, after]
    split
    · rename_i h
      simp [spells_union, h]
    · rename_i h
      simp [h]
  | either a b iha ihb => rw [after, spells_union, spells_either, iha, ihb]
  | many a iha => simp only [after, spells_join, spells_seq, spells_many_cons, iha]

/-! ## Shapes of some text -/

/-- Whether every part of a shape has some text. A span counts if its first code point is a character. -/
def alive : Shape → Bool
  | .void => false
  | .empty | .many _ => true
  | .one spans => spans.any fun s => decide (0 ≤ s.lo ∧ s.lo < 0xd800 ∧ s.lo < s.hi)
  | .seq a b => a.alive && b.alive
  | .either a b => a.alive || b.alive

theorem exists_spells (h : a.alive = true) : ∃ w, Spells a w := by
  induction a with
  | void => cases h
  | empty => exact ⟨[], .empty⟩
  | one spans =>
    obtain ⟨s, hs, hlo⟩ := List.any_eq_true.mp h
    obtain ⟨hpos, hchar, hlt⟩ := of_decide_eq_true hlo
    have hcode : ((Char.ofNat s.lo.toNat).toNat : Int) = s.lo := by
      have hvalid : s.lo.toNat.isValidChar := .inl (by omega)
      rw [Char.ofNat, dif_pos hvalid]
      exact Int.toNat_of_nonneg hpos
    refine ⟨[Char.ofNat s.lo.toNat], .one (List.any_eq_true.mpr ⟨s, hs, ?_⟩)⟩
    rw [hcode]
    simp [Span.contains, hlt]
  | seq a b iha ihb =>
    obtain ⟨ha, hb⟩ := Bool.and_eq_true_iff.mp h
    obtain ⟨u, hu⟩ := iha ha
    obtain ⟨v, hv⟩ := ihb hb
    exact ⟨u ++ v, .seq hu hv⟩
  | either a b iha ihb =>
    rcases (Bool.or_eq_true _ _).mp h with h | h
    · obtain ⟨u, hu⟩ := iha h
      exact ⟨u, .left hu⟩
    · obtain ⟨u, hu⟩ := ihb h
      exact ⟨u, .right hu⟩
  | many a _ => exact ⟨[], .stop⟩

/-! ## Characters that count as the same -/

/-- The places where the spans of a shape begin and end. -/
def bounds : Shape → List Int
  | .void | .empty => []
  | .one spans => spans.flatMap fun s => [s.lo, s.hi]
  | .seq a b | .either a b => a.bounds ++ b.bounds
  | .many a => a.bounds

end Shape

/-- Two symbols on the same side of each of these bounds. -/
def SameSide (bounds : List Int) (x y : Int) : Prop := ∀ b ∈ bounds, b ≤ x ↔ b ≤ y

theorem SameSide.mono {bounds bounds' : List Int} {x y : Int} (h : SameSide bounds x y) (hb : bounds' ⊆ bounds) :
    SameSide bounds' x y := fun b hmem => h b (hb hmem)

theorem Span.contains_congr {spans : List Span} {x y : Int} (h : SameSide (spans.flatMap fun s => [s.lo, s.hi]) x y) :
    spans.any (·.contains x) = spans.any (·.contains y) := by
  induction spans with
  | nil => rfl
  | cons s spans ih =>
    have hlo := h s.lo (by simp)
    have hhi := h s.hi (by simp)
    have hrest := ih fun b hb => h b (List.mem_append_right _ hb)
    have hs : s.contains x = s.contains y := by
      unfold contains
      rw [decide_eq_decide.mpr hlo, decide_eq_decide.mpr (by omega : x < s.hi ↔ y < s.hi)]
    rw [List.any_cons, List.any_cons, hs, hrest]

namespace Shape

theorem after_congr {a : Shape} {x y : Int} (h : SameSide a.bounds x y) : a.after x = a.after y := by
  induction a with
  | void => rfl
  | empty => rfl
  | one spans => rw [after, after, Span.contains_congr h]
  | seq a b iha ihb | either a b iha ihb =>
    rw [after, after, iha (h.mono (List.subset_append_left _ _)), ihb (h.mono (List.subset_append_right _ _))]
  | many a iha => rw [after, after, iha h]

end Shape

end NimbleLang
