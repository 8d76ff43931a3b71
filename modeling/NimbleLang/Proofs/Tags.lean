import Mathlib.Data.List.Forall2
import NimbleLang.Pattern.Split

/-!
Tags of a pattern, between `<` and `>`, and the texts around them. What a pattern means is read off it mark by mark, where a mark
counts unless an escape stands in front of it (`read`). The splitter looks for places instead, and cuts the pattern by them.

If the marks are those of tags, nothing of the pattern is lost but the escapes in its texts (`split_exchanges_parts`). But the two
parts of a tag change places in its chunk, and a pattern cannot be split if it has a tag and does not begin with one.
-/

namespace NimbleLang.Pattern

/-! ## A pattern as it is meant -/

/-- The texts in front of marks, each with its mark, and the text behind the last mark. -/
structure Reading where
  pieces : List (List Char × Char)
  last : List Char

namespace Reading

def push (c : Char) : Reading → Reading
  | ⟨[], last⟩ => ⟨[], c :: last⟩
  | ⟨(t, m) :: pieces, last⟩ => ⟨(c :: t, m) :: pieces, last⟩

def text (r : Reading) : List Char := r.pieces.flatMap (fun p => p.1 ++ [p.2]) ++ r.last

def tags (r : Reading) : List (List Char) := (r.pieces.filter (·.2 = '>')).map Prod.fst

/-- Without the escapes in the texts outside of tags. -/
def unescaped (r : Reading) : Reading where
  pieces := r.pieces.map fun p => if p.2 = '>' then p else (p.1.filter (· ≠ '\\'), p.2)
  last := r.last.filter (· ≠ '\\')

end Reading

def isMark (c : Char) : Bool := c = '<' || c = '>'

/-- Reads a pattern; `escaped` tells whether an escape stands in front of it. -/
def read : Bool → List Char → Reading
  | _, [] => ⟨[], []⟩
  | escaped, c :: cs =>
    if !escaped && isMark c then ⟨([], c) :: (read false cs).pieces, (read false cs).last⟩ else (read (c = '\\') cs).push c

/-- The marks are those of tags: each `<` is followed by a `>`. -/
inductive Tagged : List (List Char × Char) → Prop
  | nil : Tagged []
  | tag (t g : List Char) {pieces : List (List Char × Char)} : Tagged pieces → Tagged ((t, '<') :: (g, '>') :: pieces)

/-- The name in a tag is what is behind its first colon, and the label what is in front of it. -/
def Parts (tag : List Char) : Option String → String → Prop
  | none, name => ':' ∉ tag ∧ name.toList = tag
  | some label, name => ':' ∉ label.toList ∧ tag = label.toList ++ ':' :: name.toList

def Chunk.parts? : Chunk → Option (Option String × String)
  | .tag name label => some (name, label)
  | .text _ => none

/-- A chunk written back, its tag taken for the label and its label for the name. -/
def Chunk.exchanged : Chunk → List Char
  | .tag none label => '<' :: (label.toList ++ ['>'])
  | .tag (some name) label => '<' :: (name.toList ++ ':' :: (label.toList ++ ['>']))
  | .text s => s.toList

/-- What chunks tell of a pattern: its tags in order, and its text, with the parts of tags in each other's place. -/
def Tells (chunks : List Chunk) (r : Reading) : Prop :=
  List.Forall₂ (fun g c => Parts g c.1 c.2) r.tags (chunks.filterMap Chunk.parts?) ∧
    chunks.flatMap Chunk.exchanged = r.unescaped.text

variable {pieces : List (List Char × Char)} {last : List Char}

theorem text_push (c : Char) (r : Reading) : (r.push c).text = c :: r.text := by
  obtain ⟨_ | _, last⟩ := r <;> rfl

/-- Nothing of a pattern is lost. -/
theorem text_read (escaped : Bool) (s : List Char) : (read escaped s).text = s := by
  induction s generalizing escaped with
  | nil => rfl
  | cons c s ih =>
    rw [read]
    split
    · exact congrArg (c :: ·) (ih false)
    · rw [text_push, ih]

/-! ## Where the marks are -/

/-- The places of the marks behind texts from place `p` on. -/
def placed : Nat → List (List Char × Char) → List Nat × List Nat
  | _, [] => ([], [])
  | p, (t, m) :: pieces =>
    let later := placed (p + t.length + 1) pieces
    if m = '<' then ((p + t.length) :: later.1, later.2) else (later.1, (p + t.length) :: later.2)

theorem placed_push (p : Nat) (c : Char) (r : Reading) : placed p (r.push c).pieces = placed (p + 1) r.pieces := by
  obtain ⟨_ | ⟨⟨t, m⟩, pieces⟩, last⟩ := r
  · rfl
  · simp only [Reading.push, placed, List.length_cons, Nat.add_assoc, Nat.add_comm 1]

theorem findDelimiters_escaped {m : Char} (hm : isMark m) (fuel p : Nat) (s : List Char) :
    findDelimiters {} (fuel + 1) p ('\\' :: m :: s) = findDelimiters {} fuel (p + 2) s := by
  rcases Bool.or_eq_true_iff.mp hm with hm | hm <;> cases of_decide_eq_true hm <;> rfl

theorem findDelimiters_mark {m : Char} (hm : isMark m) (fuel p : Nat) (s : List Char) :
    findDelimiters {} (fuel + 1) p (m :: s) =
      if m = '<' then (p :: (findDelimiters {} fuel (p + 1) s).1, (findDelimiters {} fuel (p + 1) s).2)
      else ((findDelimiters {} fuel (p + 1) s).1, p :: (findDelimiters {} fuel (p + 1) s).2) := by
  rcases Bool.or_eq_true_iff.mp hm with hm | hm <;> cases of_decide_eq_true hm <;> rfl

theorem findDelimiters_plain {c : Char} (hc : ¬ isMark c) {s : List Char} (h : ∀ m r, s = m :: r → isMark m → c ≠ '\\')
    (fuel p : Nat) : findDelimiters {} (fuel + 1) p (c :: s) = findDelimiters {} fuel (p + 1) s := by
  have hpair (m : Char) (hm : isMark m) : ¬ ['\\', m].isPrefixOf (c :: s) := fun hpre => by
    obtain ⟨r, hr⟩ := List.isPrefixOf_iff_prefix.mp hpre
    obtain ⟨hescape, hs⟩ := List.cons.inj hr
    exact h m r hs.symm hm hescape.symm
  have hsingle (m : Char) (hm : isMark m) : ¬ [m].isPrefixOf (c :: s) := fun hpre => by
    obtain ⟨r, hr⟩ := List.isPrefixOf_iff_prefix.mp hpre
    exact hc ((List.cons.inj hr).1 ▸ hm)
  exact (if_neg (hpair '<' rfl)).trans ((if_neg (hpair '>' rfl)).trans
    ((if_neg (hsingle '<' rfl)).trans (if_neg (hsingle '>' rfl))))

/-- The scan jumps over an escape together with its mark, where the reading remembers it. -/
theorem findDelimiters_eq_placed (fuel p : Nat) (s : List Char) (h : s.length < fuel) :
    findDelimiters {} fuel p s = placed p (read false s).pieces := by
  induction fuel generalizing p s with
  | zero => omega
  | succ fuel ih =>
    rcases s with _ | ⟨c, s⟩
    · rfl
    rw [List.length_cons] at h
    by_cases hc : isMark c
    · rw [findDelimiters_mark hc, ih _ _ (by omega)]
      simp only [read, hc, Bool.not_false, Bool.and_self, if_true]
      rfl
    have hread : read false (c :: s) = (read (c = '\\') s).push c := by simp [read, hc]
    rw [hread, placed_push]
    by_cases hescape : c = '\\'
    · subst hescape
      rcases s with _ | ⟨m, r⟩
      · cases fuel <;> rfl
      rw [List.length_cons] at h
      by_cases hm : isMark m
      · have hm' : m ≠ '\\' := fun e => by cases e; cases hm
        rw [findDelimiters_escaped hm, ih _ _ (by omega), read, if_neg (by simp), placed_push]
        simp [hm']
      · rw [findDelimiters_plain hc (fun _ _ e hm' => by cases e; exact absurd hm' hm), ih _ _ (by simp; omega)]
        simp [read, hm]
    · rw [findDelimiters_plain hc (fun _ _ _ _ => hescape), ih _ _ (by omega)]
      simp only [hescape, decide_false]

/-! ## Tags in turn with texts -/

/-- The places of the marks of tags. -/
def spans : Nat → List (List Char × Char) → List (Nat × Nat)
  | p, (t, _) :: (g, _) :: pieces =>
    (p + t.length, p + t.length + 1 + g.length) :: spans (p + t.length + 1 + g.length + 1) pieces
  | _, _ => []

theorem Tagged.placed (h : Tagged pieces) (p : Nat) :
    placed p pieces = ((spans p pieces).map Prod.fst, (spans p pieces).map Prod.snd) := by
  induction h generalizing p with
  | nil => rfl
  | tag t g _ ih => simp [Pattern.placed, spans, ih]

theorem lt_of_mem_spans {p : Nat} {x : Nat × Nat} (h : x ∈ spans p pieces) : x.1 < x.2 := by
  fun_induction spans p pieces with
  | case1 p t _ g _ pieces ih =>
    rcases List.mem_cons.mp h with rfl | h
    · dsimp only
      omega
    · exact ih h
  | case2 => cases h

theorem eraseMark_escape (fuel : Nat) (s : List Char) (h : s.length < fuel) :
    eraseMark ['\\'] fuel s = s.filter (· ≠ '\\') := by
  induction fuel generalizing s with
  | zero => omega
  | succ fuel ih =>
    cases s with
    | nil => rfl
    | cons c s =>
      rw [List.length_cons] at h
      by_cases hc : c = '\\'
      · subst hc
        exact (ih s (by omega)).trans (List.filter_cons_of_neg (by decide)).symm
      · have hpre : ¬ ['\\'].isPrefixOf (c :: s) := by simp [List.isPrefixOf, Ne.symm hc]
        rw [List.filter_cons_of_pos (by simpa using hc), ← ih s (by omega), eraseMark]
        simp [hpre]

theorem unescape_text (t : List Char) : ((Chunk.text (String.ofList t)).unescape {}).exchanged = t.filter (· ≠ '\\') := by
  rw [Chunk.unescape, Chunk.exchanged, String.toList_ofList, String.toList_ofList, eraseMark_escape _ _ (by simp)]

theorem tagChunk_parts (g : List Char) : ∃ label name, tagChunk g = .tag label name ∧ Parts g label name := by
  rw [tagChunk]
  split
  · rename_i h
    obtain ⟨label, name, rfl, hlabel⟩ := List.eq_append_cons_of_mem (List.contains_iff_mem.mp h)
    have hfirst : (label ++ ':' :: name).takeWhile (· ≠ ':') = label := by
      rw [List.takeWhile_append_of_pos fun c hc => decide_eq_true (ne_of_mem_of_not_mem hc hlabel)]
      simp
    rw [hfirst]
    exact ⟨_, _, rfl, by simpa using hlabel, by simp⟩
  · rename_i h
    exact ⟨_, _, rfl, by simpa using h, String.toList_ofList⟩

theorem exchanged_of_parts {g : List Char} {label : Option String} {name : String} (h : Parts g label name) :
    (Chunk.tag label name).exchanged = '<' :: (g ++ ['>']) := by
  cases label with
  | none => rw [Chunk.exchanged, h.2]
  | some label => rw [Chunk.exchanged, h.2, List.append_assoc, List.cons_append]

theorem tells_last (last : List Char) : Tells [(Chunk.text (String.ofList last)).unescape {}] ⟨[], last⟩ :=
  ⟨.nil, by rw [List.flatMap_singleton, unescape_text]; rfl⟩

theorem Tells.tag {chunks : List Chunk} (h : Tells chunks ⟨pieces, last⟩) (g : List Char) :
    Tells ((tagChunk g).unescape {} :: chunks) ⟨([], '<') :: (g, '>') :: pieces, last⟩ := by
  obtain ⟨label, name, hchunk, hparts⟩ := tagChunk_parts g
  rw [hchunk]
  refine ⟨.cons hparts h.1, ?_⟩
  show (Chunk.tag label name).exchanged ++ chunks.flatMap Chunk.exchanged = _
  rw [exchanged_of_parts hparts, h.2]
  simp [Reading.unescaped, Reading.text]

/-- The text behind a tag comes to the chunks behind it. -/
theorem Tells.text {chunks : List Chunk} (h : Tells chunks ⟨([], '<') :: pieces, last⟩) (t : List Char) :
    Tells ((Chunk.text (String.ofList t)).unescape {} :: chunks) ⟨(t, '<') :: pieces, last⟩ := by
  refine ⟨h.1, ?_⟩
  rw [List.flatMap_cons, unescape_text, h.2]
  simp [Reading.unescaped, Reading.text]

theorem between_append (before s after : List Char) {a b : Nat} (ha : a = before.length) (hb : b = a + s.length) :
    between (before ++ (s ++ after)) a b = s := by
  subst ha hb
  rw [between, List.drop_left, Nat.add_sub_cancel_left, List.take_left]

/-- A tag somewhere in a text, and what is behind it. -/
theorem cut_tag {s before t g rest : List Char} (hs : s = before ++ (t ++ '<' :: (g ++ '>' :: rest))) :
    between s (before.length + t.length + 1) (before.length + t.length + 1 + g.length) = g ∧
      s = (before ++ t ++ '<' :: (g ++ ['>'])) ++ rest ∧
      (before ++ t ++ '<' :: (g ++ ['>'])).length = before.length + t.length + 1 + g.length + 1 := by
  have hopened : s = (before ++ t ++ ['<']) ++ (g ++ '>' :: rest) := by simp [hs]
  exact ⟨hopened ▸ between_append _ _ _ (by simp [Nat.add_assoc]) rfl, by simp [hs], by simp [Nat.add_assoc, Nat.add_comm 1]⟩

theorem text_tag (t g : List Char) :
    Reading.text ⟨(t, '<') :: (g, '>') :: pieces, last⟩ = t ++ '<' :: (g ++ '>' :: Reading.text ⟨pieces, last⟩) := by
  simp [Reading.text]

/-- The chunks of tags that begin somewhere in a text, whatever is in front of the first one. -/
theorem Tagged.tells (h : Tagged pieces) {s t g : List Char} (before : List Char)
    (hs : s = before ++ (t ++ '<' :: (g ++ '>' :: Reading.text ⟨pieces, last⟩))) :
    Tells ((tagChunks {} s (spans before.length ((t, '<') :: (g, '>') :: pieces))).map (Chunk.unescape {}))
      ⟨([], '<') :: (g, '>') :: pieces, last⟩ := by
  induction h generalizing before t g with
  | nil =>
    obtain ⟨htag, hs, hlength⟩ := cut_tag hs
    have hdrop : s.drop (before.length + t.length + 1 + g.length + 1) = last := by rw [hs, List.drop_left' hlength]; rfl
    show Tells (List.map _ (tagChunk (between s (before.length + t.length + 1) _) ::
      if _ < _ then [.text (String.ofList (s.drop (before.length + t.length + 1 + g.length + 1)))] else [])) _
    rw [htag, hdrop]
    refine Tells.tag ?_ g
    split
    · exact tells_last last
    · rename_i hend
      obtain rfl : last = [] := hdrop ▸ List.drop_eq_nil_of_le (Nat.le_of_not_lt hend)
      exact ⟨.nil, rfl⟩
  | tag t' g' _ ih =>
    obtain ⟨htag, hs, hlength⟩ := cut_tag hs
    rw [text_tag] at hs
    have htext : between s (before.length + t.length + 1 + g.length + 1)
        (before.length + t.length + 1 + g.length + 1 + t'.length) = t' := hs ▸ between_append _ _ _ hlength.symm rfl
    have ih := ih _ hs
    rw [hlength] at ih
    show Tells (List.map _ (tagChunk (between s (before.length + t.length + 1) _) ::
      .text (String.ofList (between s (before.length + t.length + 1 + g.length + 1) _)) ::
        tagChunks {} s (spans _ ((t', '<') :: (g', '>') :: _)))) _
    rw [htag, htext]
    exact (ih.text t').tag g

/-! ## The pattern in chunks -/

theorem split_of_places {pattern : String} {places : List (Nat × Nat)}
    (h : findDelimiters {} (pattern.toList.length + 1) 0 pattern.toList = (places.map Prod.fst, places.map Prod.snd))
    (hordered : ∀ x ∈ places, x.1 < x.2) :
    split {} pattern =
      if places = [] then .ok [(Chunk.text pattern).unescape {}]
      else if 0 < (places.headD default).1 then .error .absent
      else .ok ((tagChunks {} pattern.toList places).map (Chunk.unescape {})) := by
  have hzip : (places.map Prod.fst).zip (places.map Prod.snd) = places := by simp [List.zip_map']
  have hany : (places.any fun x => x.1 ≥ x.2) = false := by simpa using fun a b hx => hordered (a, b) hx
  simp only [split, h, List.length_map, hzip, hany, Nat.lt_irrefl, gt_iff_lt, if_false, Bool.false_eq_true]
  cases places with
  | nil => rfl
  | cons x rest =>
    simp only [List.cons_ne_nil, if_false, List.headD_cons]
    by_cases hfront : 0 < x.1 <;> simp only [hfront, if_true, if_false] <;> rfl

/-- A pattern whose marks are those of tags fails if there is text in front of the first tag. Else its chunks tell its tags and, but
for the escapes outside of tags, its text. -/
theorem split_exchanges_parts (pattern : String) (h : Tagged (read false pattern.toList).pieces) :
    if ((read false pattern.toList).pieces.headD ([], '<')).1 ≠ [] then split {} pattern = .error .absent
    else ∃ chunks, split {} pattern = .ok chunks ∧ Tells chunks (read false pattern.toList) := by
  have hplaces := findDelimiters_eq_placed (pattern.toList.length + 1) 0 pattern.toList (Nat.lt_succ_self _)
  have htext := text_read false pattern.toList
  generalize read false pattern.toList = r at *
  obtain ⟨pieces, last⟩ := r
  dsimp only at h hplaces ⊢
  have hsplit := split_of_places (hplaces.trans (h.placed 0)) fun _ => lt_of_mem_spans
  cases h with
  | nil =>
    have hpattern : pattern = String.ofList last := by rw [← String.ofList_toList (s := pattern), ← htext]; rfl
    exact ⟨_, hsplit, hpattern ▸ tells_last last⟩
  | @tag t g rest hrest =>
    have hfirst : ((spans 0 ((t, '<') :: (g, '>') :: rest)).headD default).1 = t.length := Nat.zero_add _
    rw [if_neg (by simp [spans]), hfirst] at hsplit
    by_cases ht : t = []
    · subst ht
      exact ⟨_, hsplit, hrest.tells (t := []) [] (htext.symm.trans (text_tag [] g))⟩
    · rw [List.headD_cons, if_pos ht, hsplit, if_pos (List.length_pos_iff.mpr ht)]

theorem split_twoTags :
    (read false "<e:expr> \\< <a\\>b>;".toList).tags = ["e:expr", "a\\>b"].map String.toList ∧
      ∃ chunks, split {} "<e:expr> \\< <a\\>b>;" = .ok chunks ∧ Tells chunks (read false "<e:expr> \\< <a\\>b>;".toList) :=
  ⟨by decide, split_exchanges_parts "<e:expr> \\< <a\\>b>;" (.tag _ _ (.tag _ _ .nil))⟩

/-- The name in a tag becomes the label of its chunk, and text in front of the first tag cannot be cut out. -/
theorem name_taken_for_label :
    split {} "<e:expr>" = .ok [.tag (some "e") "expr"] ∧ split {} "x<ID>" = .error .absent := by
  decide

end NimbleLang.Pattern
