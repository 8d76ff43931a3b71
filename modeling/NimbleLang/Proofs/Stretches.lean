import Mathlib.Data.List.DropRight
import Mathlib.Data.List.Find
import NimbleLang.Proofs.Cursors

/-!
Stretches of a stream that has read all its tokens. The tokens off the default channel are the hidden ones. Those before a token
are found by walking back, and those behind it by walking on; both give the run of hidden tokens next to it (`Filled.hiddenToLeft`,
`Filled.hiddenToRight`), so that the hidden tokens between two neighbours are the same from both sides, and each token is met
once (`hidden_tokens_agree`). A stretch of tokens ends before its last place, while a stretch of text ends behind it
(`stretches_agree_iff`).
-/

namespace NimbleLang

theorem numbered_take (ts : List Token) (n : Nat) : (numbered ts).take n = numbered (ts.take n) := by
  refine List.ext_getElem? fun i => ?_
  rw [getElem?_numbered, List.getElem?_take, List.getElem?_take, getElem?_numbered]
  split <;> rfl

namespace TokenStream

variable {σ : Type} {s s' : TokenStream σ} {ts us l : List Token} {t u e : Token} {i j : Nat}

/-! ## Runs of hidden tokens -/

def isHidden (t : Token) : Bool := t.channel ≠ 0

/-- Tokens that were looked for, if there are any. -/
def anyOf (l : List Token) : Option (List Token) := if l.isEmpty then none else some l

/-- Of a run and the token that ends it, the run is what is hidden. -/
theorem filter_take_run (p : Token → Bool) (l : List Token) : (l.take ((l.takeWhile p).length + 1)).filter p = l.takeWhile p := by
  induction l with
  | nil => rfl
  | cons t l ih =>
    by_cases ht : p t = true
    · rw [List.takeWhile_cons_of_pos ht, List.length_cons, List.take_succ_cons, List.filter_cons_of_pos ht, ih]
    · rw [List.takeWhile_cons_of_neg ht, List.length_nil, List.take_succ_cons, List.take_zero, List.filter_cons_of_neg ht, List.filter_nil]

/-- The run that a token ends is as long as the way to the token. -/
theorem index_of_find (p : Token → Bool) (h : ((numbered us).drop i).find? (!p ·) = some t) :
    t.index = i + (((numbered us).drop i).takeWhile p).length := by
  rw [List.find?_eq_getElem?_findIdx] at h
  have hlt := (List.getElem?_eq_some_iff.mp h).1
  rw [List.getElem?_drop] at h
  rw [index_numbered h, List.takeWhile_eq_take_findIdx_not, List.length_take, Nat.min_eq_left (Nat.le_of_lt hlt), Int.natCast_add]

/-- The last token of the default channel stands before the run of hidden tokens at the end. -/
theorem index_of_getLast (us : List Token) :
    ((numbered us).filter (·.channel = 0)).getLast?.elim (-1) Token.index = us.length - 1 - ((numbered us).rtakeWhile isHidden).length := by
  induction us using List.reverseRecOn with
  | nil => rfl
  | append_singleton us u ih =>
    rw [numbered_concat, List.filter_append, List.length_append, List.length_singleton]
    by_cases hu : u.channel = 0
    · rw [List.filter_cons_of_pos (by simp [hu]), List.filter_nil, List.getLast?_concat,
        List.rtakeWhile_concat_neg _ _ _ (by simp [isHidden, hu])]
      simp
    · rw [List.filter_cons_of_neg (by simp [hu]), List.filter_nil, List.append_nil, ih,
        List.rtakeWhile_concat_pos _ _ _ (by simp [isHidden, hu]), List.length_append, List.length_singleton]
      omega

/-- The run at the end of a beginning, cut out of the whole. -/
theorem cut_run (p : Token → Bool) {n : Nat} (hn : n ≤ l.length) :
    ((l.drop (n - ((l.take n).rtakeWhile p).length)).take ((l.take n).rtakeWhile p).length).filter p = (l.take n).rtakeWhile p := by
  obtain ⟨before, hbefore⟩ := List.rtakeWhile_suffix p (l.take n)
  have hall : ((l.take n).rtakeWhile p).filter p = (l.take n).rtakeWhile p :=
    List.filter_eq_self.mpr fun t ht => List.mem_rtakeWhile_imp ht
  generalize (l.take n).rtakeWhile p = run at hbefore hall ⊢
  have hlength := congrArg List.length hbefore
  rw [List.length_append, List.length_take, Nat.min_eq_left hn] at hlength
  have hstart : n - run.length = before.length := by omega
  rw [hstart, ← List.take_append_drop n l, ← hbefore, List.append_assoc, List.drop_left, List.take_left, hall]

/-! ## Filled streams -/

theorem hiddenBetween_outcome (s : TokenStream σ) (left right : Int) :
    (hiddenBetween left right (-1)).outcome s =
      (.ok (anyOf (((s.tokens.toList.drop left.toNat).take (right - left + 1).toNat).filter isHidden)), s) := by
  rw [hiddenBetween, Run.outcome_get_bind]
  simp only [anyOf, if_pos]
  rfl

/-- The place of a token of the default channel. -/
def OnDefault (s : TokenStream σ) (i : Nat) : Prop := ∃ t, s.tokens[i]? = some t ∧ isHidden t = false

/-- Places between two others, none of them on the default channel. -/
theorem hidden_of_between (h : ∀ k, i ≤ k → k < j → ¬ OnDefault s k) :
    ∀ u ∈ (s.tokens.toList.take j).drop i, isHidden u = true := by
  intro u hu
  obtain ⟨k, hk⟩ := List.mem_iff_getElem?.mp hu
  rw [List.getElem?_drop, List.getElem?_take] at hk
  split at hk
  · rename_i hlt
    by_contra hshown
    rw [Array.getElem?_toList] at hk
    exact h (i + k) (by omega) hlt ⟨u, hk, Bool.eq_false_iff.mpr hshown⟩
  · cases hk

variable [TokenSource σ]

section

variable (h : Filled ts e s)
include h

theorem Filled.lazyInit : lazyInit.outcome s = (.ok (), s) := by
  rw [TokenStream.lazyInit, Run.outcome_get_bind, if_neg h.begun]
  rfl

theorem Filled.fill : fill.outcome s = (.ok (), s) := by
  rw [TokenStream.fill, Run.outcome_bind_ok h.lazyInit, Run.outcome_get_bind, Run.outcome_bind_ok (fetch_ended h.ended _)]
  rfl

theorem Filled.tokens : s.tokens.toList = numbered (ts ++ [e]) := h.buffered.all h.ended

theorem Filled.size : s.tokens.size = ts.length + 1 := h.buffered.ended h.ended

/-- If the end token is on the default channel, then that channel is all that a walk stops at. -/
theorem Filled.isStop_eq (he : e.channel = 0) (hu : u ∈ numbered (ts ++ [e])) : isStop 0 u = !isHidden u := by
  obtain ⟨v, hv, k, rfl⟩ := mem_numbered hu
  rcases List.mem_append.mp hv with hv | hv
  · by_cases hc : v.channel = 0 <;> simp [isStop, isHidden, h.buffered.inner v hv, hc]
  · obtain rfl := List.mem_singleton.mp hv
    simp [isStop, isHidden, he]

/-- Behind a token, the run of hidden tokens up to the next one of the default channel. -/
theorem Filled.hiddenToRight (he : e.channel = 0) (hi : i < s.tokens.size) :
    (hiddenToRight (i : Int) (-1)).outcome s = (.ok (anyOf ((s.tokens.toList.drop (i + 1)).takeWhile isHidden)), s) := by
  obtain ⟨t, ht⟩ := exists_stop 0 ts e (i + 1)
  obtain ⟨s', hnext, hgrows, -⟩ := h.buffered.nextOnChannel ht
  obtain rfl := hgrows.still h.ended
  obtain ⟨k, hk, -⟩ := stop_place ht
  have hsize := h.size
  rw [Int.natCast_succ] at hnext
  rw [TokenStream.hiddenToRight, Run.outcome_bind_ok h.lazyInit, Run.outcome_get_bind]
  dsimp only
  rw [if_neg (by simpa using by omega), Run.outcome_bind_ok hnext, Run.outcome_get_bind, if_neg (by omega),
    hiddenBetween_outcome]
  have hplace : ((i : Int) + 1).toNat = i + 1 := by omega
  rw [hplace]
  congr 3
  by_cases hlast : i + 1 < ts.length + 1
  · have hfind := find?_stopFrom h.buffered.inner h.buffered.last hlast ht
    rw [List.find?_congr fun u hu => h.isStop_eq he (List.mem_of_mem_drop hu)] at hfind
    have hindex := index_of_find isHidden hfind
    have hlength : (t.index - ((i : Int) + 1) + 1).toNat = ((s'.tokens.toList.drop (i + 1)).takeWhile isHidden).length + 1 := by
      rw [h.tokens]
      omega
    rw [hlength, filter_take_run]
  · have hnone : s'.tokens.toList.drop (i + 1) = [] := List.drop_eq_nil_of_le (by simpa using by omega)
    rw [hnone, List.take_nil]
    rfl

/-- Before a token, the run of hidden tokens back to the one before it of the default channel. -/
theorem Filled.hiddenToLeft (hj : j < s.tokens.size) :
    (hiddenToLeft (j : Int) (-1)).outcome s = (.ok (anyOf ((s.tokens.toList.take j).rtakeWhile isHidden)), s) := by
  have hsize := h.size
  have hprevious : (previousOnChannel ((j : Int) - 1) 0).outcome s =
      (.ok ((j : Int) - 1 - ((s.tokens.toList.take j).rtakeWhile isHidden).length), s) := by
    have hbefore : s.tokens.toList.take j = numbered (ts.take j) := by
      rw [h.tokens, numbered_take, List.take_append_of_le_length (by omega)]
    have hlength : ((ts.take j).length : Int) = j := by
      rw [List.length_take]
      omega
    rw [previousOnChannel, h.buffered.previousFrom (by omega) (by omega) (by omega), numbered_take, index_of_getLast, hbefore, hlength]
  have hle : ((s.tokens.toList.take j).rtakeWhile isHidden).length ≤ j := by
    have := (List.rtakeWhile_suffix isHidden (s.tokens.toList.take j)).length_le
    rw [List.length_take] at this
    omega
  rw [TokenStream.hiddenToLeft, Run.outcome_bind_ok h.lazyInit, Run.outcome_get_bind]
  dsimp only
  rw [if_neg (by simpa using by omega), Run.outcome_bind_ok hprevious]
  generalize hrun : (s.tokens.toList.take j).rtakeWhile isHidden = run at hle ⊢
  by_cases hnone : run = []
  · rw [hnone, if_pos (by simp)]
    rfl
  · have hpos := List.length_pos_iff.mpr hnone
    have hcut := cut_run (l := s.tokens.toList) isHidden (n := j) (by simpa using Nat.le_of_lt hj)
    rw [hrun] at hcut
    have hfrom : ((j : Int) - 1 - run.length + 1).toNat = j - run.length := by omega
    have hcount : ((j : Int) - 1 - ((j : Int) - 1 - run.length + 1) + 1).toNat = run.length := by omega
    rw [if_neg (by omega), hiddenBetween_outcome, hfrom, hcount, hcut]

end

/-! ## From both sides -/

/-- What stands before a token, back to the one before it of the default channel. -/
def attachedLeft (s : TokenStream σ) (t : Token) : List Token := ((TokenStream.hiddenToLeft t.index (-1)).outcome s).1.toOption.join.getD []

/-- What stands behind a token, up to the next one of the default channel. -/
def attachedRight (s : TokenStream σ) (t : Token) : List Token := ((TokenStream.hiddenToRight t.index (-1)).outcome s).1.toOption.join.getD []

theorem getD_anyOf (l : List Token) : (anyOf l).getD [] = l := by
  cases l <;> rfl

theorem takeWhile_upTo {p : Token → Bool} {n : Nat} (hp : ∀ u ∈ l.take n, p u = true) (ht : l[n]? = some t) (hn : p t = false) :
    l.takeWhile p = l.take n := by
  have hlt := (List.getElem?_eq_some_iff.mp ht).1
  have hsplit : l = l.take n ++ t :: l.drop (n + 1) := by
    rw [← (List.getElem?_eq_some_iff.mp ht).2, ← List.drop_eq_getElem_cons hlt, List.take_append_drop]
  conv_lhs => rw [hsplit]
  rw [List.takeWhile_append_of_pos hp, List.takeWhile_cons_of_neg (by simp [hn]), List.append_nil]

theorem rtakeWhile_from {p : Token → Bool} (hp : ∀ u ∈ l, p u = true) (hn : p t = false) (us : List Token) :
    (us ++ t :: l).rtakeWhile p = l := by
  rw [List.rtakeWhile, List.reverse_append, List.reverse_cons, List.append_assoc,
    List.takeWhile_append_of_pos (by simpa using hp), List.singleton_append, List.takeWhile_cons_of_neg (by simp [hn]), List.append_nil,
    List.reverse_reverse]

theorem Filled.attachedLeft_eq (h : Filled ts e s) (ht : s.tokens[i]? = some t) :
    attachedLeft s t = (s.tokens.toList.take i).rtakeWhile isHidden := by
  rw [attachedLeft, (h.buffered.buffer ht).1, h.hiddenToLeft (lt_size_of_token ht)]
  exact getD_anyOf _

theorem Filled.attachedRight_eq (h : Filled ts e s) (he : e.channel = 0) (ht : s.tokens[i]? = some t) :
    attachedRight s t = (s.tokens.toList.drop (i + 1)).takeWhile isHidden := by
  rw [attachedRight, (h.buffered.buffer ht).1, h.hiddenToRight he (lt_size_of_token ht)]
  exact getD_anyOf _

/-- A beginning of the tokens is put together from the tokens of the default channel with what stands before each. -/
theorem Filled.beginning_eq (h : Filled ts e s) (hl : s.tokens.toList = us ++ l) :
    us = (us.filter (!isHidden ·)).flatMap (fun t => attachedLeft s t ++ [t]) ++ us.rtakeWhile isHidden := by
  induction us using List.reverseRecOn generalizing l with
  | nil => rfl
  | append_singleton us u ih =>
    rw [List.append_assoc] at hl
    have hus := ih hl
    by_cases hu : isHidden u = true
    · rw [List.filter_append, List.filter_cons_of_neg (by simp [hu]), List.filter_nil, List.append_nil,
        List.rtakeWhile_concat_pos _ _ _ hu, ← List.append_assoc, ← hus]
    · have hget : s.tokens[us.length]? = some u := by
        rw [← Array.getElem?_toList, hl, List.getElem?_append_right (Nat.le_refl _), Nat.sub_self]
        rfl
      have hleft : attachedLeft s u = us.rtakeWhile isHidden := by rw [h.attachedLeft_eq hget, hl, List.take_left]
      rw [List.filter_append, List.filter_cons_of_pos (by simp [hu]), List.filter_nil, List.flatMap_append, List.flatMap_singleton, hleft,
        List.rtakeWhile_concat_neg _ _ _ hu, List.append_nil, ← List.append_assoc, ← hus]

/-- The rest of the tokens is put together from the tokens of the default channel with what stands behind each. -/
theorem Filled.rest_eq (h : Filled ts e s) (he : e.channel = 0) (hl : s.tokens.toList = us ++ l) :
    l = l.takeWhile isHidden ++ (l.filter (!isHidden ·)).flatMap (fun t => t :: attachedRight s t) := by
  induction l generalizing us with
  | nil => rfl
  | cons u l ih =>
    have hnext : s.tokens.toList = (us ++ [u]) ++ l := by rw [hl, List.append_assoc, List.singleton_append]
    have hrest := ih hnext
    by_cases hu : isHidden u = true
    · rw [List.takeWhile_cons_of_pos hu, List.filter_cons_of_neg (by simp [hu]), List.cons_append, ← hrest]
    · have hget : s.tokens[us.length]? = some u := by
        rw [← Array.getElem?_toList, hl, List.getElem?_append_right (Nat.le_refl _), Nat.sub_self]
        rfl
      have hright : attachedRight s u = l.takeWhile isHidden := by
        rw [h.attachedRight_eq he hget, hl, List.drop_append, List.drop_eq_nil_of_le (by omega), Nat.add_sub_cancel_left]
        rfl
      rw [List.takeWhile_cons_of_neg hu, List.filter_cons_of_pos (by simp [hu]), List.flatMap_cons, hright, List.nil_append,
        List.cons_append, ← hrest]

/-- Between two neighbours of the default channel the hidden tokens are found from both sides, and before the first one all. So
the tokens are put together from those of the default channel, each with what stands before it, or each with what stands behind
it and what stands before the first. -/
theorem hidden_tokens_agree (h : Filled ts e s) (he : e.channel = 0) :
    (∀ i j : Nat, i < j → OnDefault s i → OnDefault s j → (∀ k, i < k → k < j → ¬ OnDefault s k) →
      (TokenStream.hiddenToRight (i : Int) (-1)).outcome s = (.ok (anyOf ((s.tokens.toList.take j).drop (i + 1))), s) ∧
      (TokenStream.hiddenToLeft (j : Int) (-1)).outcome s = (.ok (anyOf ((s.tokens.toList.take j).drop (i + 1))), s)) ∧
    (∀ j : Nat, OnDefault s j → (∀ k < j, ¬ OnDefault s k) →
      (TokenStream.hiddenToLeft (j : Int) (-1)).outcome s = (.ok (anyOf (s.tokens.toList.take j)), s)) ∧
    s.tokens.toList = (s.tokens.toList.filter (!isHidden ·)).flatMap (fun t => attachedLeft s t ++ [t]) ∧
    s.tokens.toList = s.tokens.toList.takeWhile isHidden ++
      (s.tokens.toList.filter (!isHidden ·)).flatMap (fun t => t :: attachedRight s t) := by
  refine ⟨?_, ?_, ?_, h.rest_eq he (List.nil_append _).symm⟩
  · rintro i j hij ⟨t, ht, hshown⟩ ⟨u, hu, hshown'⟩ hbetween
    have hi := lt_size_of_token ht
    have hj := lt_size_of_token hu
    have hhidden := hidden_of_between (i := i + 1) (j := j) hbetween
    rw [← Array.getElem?_toList] at ht hu
    have hright : (s.tokens.toList.drop (i + 1)).takeWhile isHidden = (s.tokens.toList.take j).drop (i + 1) := by
      have hget : (s.tokens.toList.drop (i + 1))[j - (i + 1)]? = some u := by
        rw [List.getElem?_drop, Nat.add_sub_cancel' hij, hu]
      rw [List.drop_take] at hhidden ⊢
      exact takeWhile_upTo hhidden hget hshown'
    have hleft : (s.tokens.toList.take j).rtakeWhile isHidden = (s.tokens.toList.take j).drop (i + 1) := by
      have hget : (s.tokens.toList.take j)[i]? = some t := by rw [List.getElem?_take_of_lt hij, ht]
      have hlt := (List.getElem?_eq_some_iff.mp hget).1
      have hsplit : s.tokens.toList.take j = (s.tokens.toList.take j).take i ++ t :: (s.tokens.toList.take j).drop (i + 1) := by
        rw [← (List.getElem?_eq_some_iff.mp hget).2, ← List.drop_eq_getElem_cons hlt, List.take_append_drop]
      conv_lhs => rw [hsplit]
      exact rtakeWhile_from hhidden hshown _
    rw [h.hiddenToRight he hi, h.hiddenToLeft hj, hright, hleft]
    exact ⟨rfl, rfl⟩
  · rintro j ⟨t, ht, -⟩ hfirst
    have hhidden := hidden_of_between (i := 0) (j := j) fun k _ hk => hfirst k hk
    rw [List.drop_zero] at hhidden
    rw [h.hiddenToLeft (lt_size_of_token ht), List.rtakeWhile_eq_self_iff.mpr hhidden]
  · have hlast : s.tokens.toList.rtakeWhile isHidden = [] := by
      rw [h.tokens, numbered_concat]
      exact List.rtakeWhile_concat_neg _ _ _ (by simp [isHidden, he])
    have hall := h.beginning_eq (List.append_nil s.tokens.toList).symm
    rwa [hlast, List.append_nil] at hall

/-- A stream of a name, a blank and a sign that has read them all. -/
theorem exists_filled : ∃ s, TokenStream.fill.outcome { source := spacedFrom 0, channel := none } = (.ok (), s) ∧
    Filled (spacedFrom 0).tokens.toList (spacedFrom 3).makeEnding s :=
  (Buffered.fresh spacedFrom_yields none).fill

/-- The blank is what stands behind the name and before the sign. -/
theorem hidden_tokens_agree_spaced : ∃ s, TokenStream.fill.outcome { source := spacedFrom 0, channel := none } = (.ok (), s) ∧
    Filled (spacedFrom 0).tokens.toList (spacedFrom 3).makeEnding s ∧ (spacedFrom 3).makeEnding.channel = 0 ∧
    OnDefault s 0 ∧ OnDefault s 2 ∧ ¬ OnDefault s 1 ∧
    (TokenStream.hiddenToRight 0 (-1)).outcome s = (.ok (some [{ type := 29, channel := 1, index := 1, given := some " " }]), s) ∧
    (TokenStream.hiddenToLeft 2 (-1)).outcome s = (.ok (some [{ type := 29, channel := 1, index := 1, given := some " " }]), s) := by
  obtain ⟨s, hfill, hfilled⟩ := exists_filled
  have htoken (i : Nat) : s.tokens[i]? = (numbered ((spacedFrom 0).tokens.toList ++ [(spacedFrom 3).makeEnding]))[i]? := by
    rw [← Array.getElem?_toList, hfilled.tokens]
  have hname : OnDefault s 0 := ⟨_, htoken 0, rfl⟩
  have hsign : OnDefault s 2 := ⟨_, htoken 2, rfl⟩
  have hblank : ¬ OnDefault s 1 := by
    rintro ⟨t, ht, hshown⟩
    rw [htoken 1] at ht
    obtain rfl := Option.some.inj ht
    cases hshown
  have hbetween (k : Nat) (hk : 0 < k) (hk' : k < 2) : ¬ OnDefault s k := by
    obtain rfl : k = 1 := by omega
    exact hblank
  have hagree := (hidden_tokens_agree hfilled rfl).1 0 2 (by decide) hname hsign hbetween
  rw [hfilled.tokens] at hagree
  exact ⟨s, hfill, hfilled, rfl, hname, hsign, hblank, hagree.1, hagree.2⟩

/-! ## Tokens and text -/

/-- Without types, every token is wanted. -/
def wanted (types : Option (List Int)) (t : Token) : Bool := types.elim true (·.contains t.type)

/-- The tokens from one place to another, both included, up to the end token. -/
def stretch (s : TokenStream σ) (start stop : Nat) : List Token := ((s.tokens.toList.take (stop + 1)).drop start).takeWhile (!·.isEof)

/-- The texts of tokens, one after the other; each must have one. -/
def texts (l : List Token) : Except Fault String :=
  if l.all (·.text?.isSome) then .ok (String.join (l.map (·.text?.getD ""))) else .error .mistyped

theorem texts_cons (t : Token) (l : List Token) :
    texts (t :: l) = do return (← Fault.mistyped.unless t.text?) ++ (← texts l) := by
  rw [texts, texts, List.all_cons, List.map_cons, String.join_cons]
  cases t.text? with
  | none => rfl
  | some a =>
    rw [Option.isSome_some, Bool.true_and]
    split <;> rfl

theorem joinTexts_eq (l : List Token) : joinTexts l = texts (l.takeWhile (!·.isEof)) := by
  induction l with
  | nil => rfl
  | cons t l ih =>
    rw [joinTexts]
    by_cases ht : t.isEof = true
    · rw [if_pos ht, List.takeWhile_cons_of_neg (by simp [ht])]
      rfl
    · rw [if_neg ht, List.takeWhile_cons_of_pos (by simp [ht]), texts_cons, ih]

/-- A last token does not show in the text if it has an empty one, or if there is no text at all. -/
theorem texts_concat_iff (l : List Token) (t : Token) :
    texts l = texts (l ++ [t]) ↔ (∃ u ∈ l, u.text? = none) ∨ t.text? = some "" := by
  rw [texts, texts, List.all_append, List.map_append, String.join_append]
  by_cases hall : l.all (·.text?.isSome) = true
  · have hsome : ¬ ∃ u ∈ l, u.text? = none := by
      rintro ⟨u, hu, hnone⟩
      have := List.all_eq_true.mp hall u hu
      rw [hnone] at this
      cases this
    rw [if_pos hall, hall, Bool.true_and, or_iff_right hsome]
    cases ht : t.text? with
    | none => simp [ht]
    | some a =>
      have hempty (x : String) : x = x ++ a ↔ a = "" := by
        rw [← String.toList_inj, String.toList_append, List.self_eq_append_right, String.toList_eq_nil_iff]
      simp [ht, hempty]
  · obtain ⟨u, hu, hnone⟩ : ∃ u ∈ l, u.text? = none := by simpa using hall
    rw [if_neg hall, Bool.eq_false_iff.mpr hall, Bool.false_and]
    exact iff_of_true rfl (.inl ⟨u, hu, hnone⟩)

/-- Of the tokens between two places, those before the end token. -/
theorem Filled.takeWhile_inner (h : Filled ts e s) (start n : Nat) :
    ((s.tokens.toList.take n).drop start).takeWhile (!·.isEof) = ((numbered ts).take n).drop start := by
  have hinner : ∀ t ∈ ((numbered ts).take n).drop start, (!t.isEof) = true := by
    intro t ht
    obtain ⟨u, hu, i, rfl⟩ := mem_numbered (List.mem_of_mem_take (List.mem_of_mem_drop ht))
    simp [h.buffered.inner u hu]
  have hlast : ∀ k m, (([e.placed ts.length].take k).drop m).takeWhile (!·.isEof) = [] := by
    intro k m
    have heof : (e.placed ts.length).isEof = true := h.buffered.last
    cases k <;> cases m <;> simp [heof]
  rw [h.tokens, numbered_concat, List.take_append, List.drop_append, List.takeWhile_append_of_pos hinner, hlast, List.append_nil]

theorem Filled.stretch_eq (h : Filled ts e s) (start stop : Nat) : stretch s start stop = ((numbered ts).take (stop + 1)).drop start :=
  h.takeWhile_inner start (stop + 1)

/-- Tokens are given up to the last place, which is left out. -/
theorem Filled.between (h : Filled ts e s) (start stop : Nat) (types : Option (List Int)) :
    (between (start : Int) (stop : Int) types).outcome s =
      (.ok (some ((((numbered ts).take stop).drop start).filter (wanted types))), s) := by
  have hsize := h.size
  have hlength : s.tokens.toList.length = ts.length + 1 := by simpa using hsize
  have hcount : (min (stop : Int) ((s.tokens.toList.length : Int) - 1) - start).toNat = min stop ts.length - start := by omega
  have hall : ((numbered ts).take (min stop ts.length)).drop start = ((numbered ts).take stop).drop start := by
    rw [← List.take_take, ← length_numbered ts, List.take_length]
  rw [TokenStream.between, if_neg (by simp), Run.outcome_bind_ok h.lazyInit, Run.outcome_get_bind,
    Run.outcome_pure, hcount, Int.toNat_natCast, ← List.drop_take, h.takeWhile_inner, hall]
  cases types <;> rfl

/-- Text is given up to the last place, which counts. -/
theorem Filled.text (h : Filled ts e s) {start stop : Nat} (hle : start ≤ stop) (hstop : stop < s.tokens.size) :
    (text (some (start : Int)) (some (stop : Int))).outcome s = (texts (stretch s start stop), s) := by
  have hlength : s.tokens.toList.length = s.tokens.size := by simp
  have hcount : (min (stop : Int) ((s.tokens.toList.length : Int) - 1) - start + 1).toNat = stop + 1 - start := by omega
  rw [TokenStream.text, Run.outcome_bind_ok h.fill, Run.outcome_get_bind]
  dsimp only [Option.getD_some]
  rw [if_neg (by simp only [Bool.or_eq_true, decide_eq_true_eq]; omega), Run.outcome_lift, hcount, Int.toNat_natCast, ← List.drop_take, joinTexts_eq]
  rfl

/-- One place more is the token there, if it is not the end token. -/
theorem Filled.stretch_concat (h : Filled ts e s) {start stop : Nat} (hle : start ≤ stop) (hstop : stop < s.tokens.size) :
    stop + 1 = s.tokens.size ∧ stretch s start stop = ((numbered ts).take stop).drop start ∨
      ∃ t, s.tokens[stop]? = some t ∧ stop + 1 ≠ s.tokens.size ∧ stretch s start stop = ((numbered ts).take stop).drop start ++ [t] := by
  have hsize := h.size
  rw [h.stretch_eq]
  by_cases hlast : stop = ts.length
  · refine .inl ⟨by omega, ?_⟩
    rw [List.take_of_length_le (by simpa using by omega), List.take_of_length_le (by simpa using by omega)]
  · have hlt : stop < (numbered ts).length := by simpa using by omega
    have ht := List.getElem?_eq_getElem hlt
    refine .inr ⟨(numbered ts)[stop], ?_, by omega, ?_⟩
    · rw [h.buffered.token hstop, numbered_concat, List.getElem?_append_left hlt, ht]
    · rw [List.take_add_one, ht, Option.toList_some, List.drop_append_of_le_length (by rw [List.length_take]; omega)]

/-- Text counts the last place of a stretch, and tokens leave it out. So the tokens of a stretch are those whose text is given only
where the last place has the end token or a token that is not wanted; and to ask for one place more always gives them. -/
theorem stretches_agree_iff (h : Filled ts e s) {start stop : Nat} (hle : start ≤ stop) (hstop : stop < s.tokens.size)
    (types : Option (List Int)) :
    (TokenStream.between (start : Int) ((stop : Int) + 1) types).outcome s = (.ok (some ((stretch s start stop).filter (wanted types))), s) ∧
    (TokenStream.text (some (start : Int)) (some (stop : Int))).outcome s = (texts (stretch s start stop), s) ∧
    (TokenStream.between (start : Int) (stop : Int) types).outcome s =
      (.ok (some (((stretch s start stop).take (stop - start)).filter (wanted types))), s) ∧
    (((stretch s start stop).take (stop - start)).filter (wanted types) = (stretch s start stop).filter (wanted types) ↔
      stop + 1 = s.tokens.size ∨ ∃ t, s.tokens[stop]? = some t ∧ wanted types t = false) ∧
    (texts ((stretch s start stop).take (stop - start)) = texts (stretch s start stop) ↔
      stop + 1 = s.tokens.size ∨ (∃ u ∈ (stretch s start stop).take (stop - start), u.text? = none) ∨
        ∃ t, s.tokens[stop]? = some t ∧ t.text? = some "") := by
  have hsize := h.size
  have hbefore : (stretch s start stop).take (stop - start) = ((numbered ts).take stop).drop start := by
    rw [h.stretch_eq, ← List.drop_take, List.take_take, Nat.min_eq_left (Nat.le_succ stop)]
  have hmore := h.between start (stop + 1) types
  rw [Int.natCast_succ, ← h.stretch_eq] at hmore
  refine ⟨hmore, h.text hle hstop, by rw [hbefore, h.between], ?_, ?_⟩
  · rw [hbefore]
    rcases h.stretch_concat hle hstop with ⟨hlast, heq⟩ | ⟨t, ht, hinner, heq⟩
    · rw [heq]
      exact iff_of_true rfl (.inl hlast)
    · rw [heq, List.filter_append, ht]
      simp [hinner, List.filter_cons]
  · rw [hbefore]
    rcases h.stretch_concat hle hstop with ⟨hlast, heq⟩ | ⟨t, ht, hinner, heq⟩
    · rw [heq]
      exact iff_of_true rfl (.inl hlast)
    · rw [heq, texts_concat_iff, ht]
      simp [hinner]

/-- From the name to the sign: the text has the sign, the tokens do not. -/
theorem stretches_agree_iff_spaced : ∃ s, TokenStream.fill.outcome { source := spacedFrom 0, channel := none } = (.ok (), s) ∧
    Filled (spacedFrom 0).tokens.toList (spacedFrom 3).makeEnding s ∧ 0 ≤ 2 ∧ 2 < s.tokens.size ∧
    (TokenStream.between 0 3 none).outcome s = (.ok (some (stretch s 0 2)), s) ∧
    (TokenStream.text (some 0) (some 2)).outcome s = (.ok "x =", s) := by
  obtain ⟨s, hfill, hfilled⟩ := exists_filled
  have hsize : s.tokens.size = 4 := hfilled.size
  obtain ⟨hmore, htext, -⟩ := stretches_agree_iff hfilled (Nat.zero_le 2) (by omega) none
  rw [hfilled.stretch_eq] at htext
  refine ⟨s, hfill, hfilled, by decide, by omega, ?_, htext⟩
  rw [show wanted none = fun _ => true from rfl, List.filter_true] at hmore
  exact hmore

/-- The tokens from the name to the sign are not those whose text is given. -/
theorem tokens_end_before_text : ∃ s, TokenStream.fill.outcome { source := spacedFrom 0, channel := none } = (.ok (), s) ∧
    ∃ l, (TokenStream.between 0 2 none).outcome s = (.ok (some l), s) ∧ l ≠ stretch s 0 2 ∧
      texts l = .ok "x " ∧ (TokenStream.text (some 0) (some 2)).outcome s = (.ok "x =", s) := by
  obtain ⟨s, hfill, hfilled⟩ := exists_filled
  have hsize : s.tokens.size = 4 := hfilled.size
  have htext := hfilled.text (Nat.zero_le 2) (by omega)
  rw [hfilled.stretch_eq] at htext
  refine ⟨s, hfill, _, hfilled.between 0 2 none, ?_, rfl, htext⟩
  rw [hfilled.stretch_eq]
  decide

end TokenStream

end NimbleLang
