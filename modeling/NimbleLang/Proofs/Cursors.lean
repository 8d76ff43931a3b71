import NimbleLang.Proofs.Buffers

/-!
A stream on a channel is a cursor over its stops, the tokens of the channel and the end token. Tokens are read only as far as
they are looked at, and those of other channels are passed over by three different loops; but whatever is asked of a stream, and
in whatever order, it answers as the cursor does (`stream_is_cursor`). One lemma for each question says what it does where
the stream stands (`AtStop`), and that the stream stands at a stop again after it.
-/

namespace NimbleLang.TokenStream

open TokenSource
open Run (outcome_bind_ok outcome_get_bind)

variable {σ : Type} {s s' : TokenStream σ} {source : σ} {ts : List Token} {t u e : Token} {c : Int} {p i : Nat}

/-! ## Stops in order -/

theorem stops_ascend (c : Int) (ts : List Token) (e : Token) : (stops c ts e).Pairwise fun t u => t.index < u.index := by
  refine List.Pairwise.sublist (stops_sublist c ts e) (List.pairwise_iff_getElem.mpr ?_)
  intro i j hi hj hij
  rw [index_numbered (List.getElem?_eq_getElem hi), index_numbered (List.getElem?_eq_getElem hj)]
  omega

theorem stop_place (h : (stops c ts e)[p]? = some t) :
    ∃ i : Nat, t.index = i ∧ i < ts.length + 1 ∧ (numbered (ts ++ [e]))[i]? = some t := by
  obtain ⟨i, hi⟩ := List.mem_iff_getElem?.mp ((stops_sublist c ts e).subset (List.mem_of_getElem? h))
  have hlt := (List.getElem?_eq_some_iff.mp hi).1
  rw [length_numbered, List.length_append, List.length_singleton] at hlt
  exact ⟨i, index_numbered hi, hlt, hi⟩

theorem length_stops_pos (c : Int) (ts : List Token) (e : Token) : 0 < (stops c ts e).length := by simp [stops]

/-- The stop after a stop is the next one, up to the end token. -/
theorem stopFrom_succ (h : (stops c ts e)[p]? = some t) (hi : t.index = i) :
    stopFrom (stops c ts e) (i + 1) = min (p + 1) ((stops c ts e).length - 1) := by
  obtain ⟨hp, ht⟩ := List.getElem?_eq_some_iff.mp h
  have hless := List.pairwise_iff_getElem.mp (stops_ascend c ts e)
  have hbefore (j : Nat) (hj : j < p + 1) (hlt : j < (stops c ts e).length) : ((stops c ts e)[j]).index ≤ i := by
    rcases Nat.lt_or_eq_of_le (Nat.le_of_lt_succ hj) with hjp | rfl
    · have := hless j p hlt hp hjp
      rw [ht] at this
      omega
    · rw [ht]
      omega
  have hfirst : (stops c ts e).findIdx (fun t => ((i + 1 : Nat) : Int) ≤ t.index) = p + 1 := by
    rcases Nat.lt_or_ge (p + 1) (stops c ts e).length with hnext | hend
    · refine (List.findIdx_eq hnext).mpr ⟨?_, fun j hj => ?_⟩
      · have := hless p (p + 1) hp hnext (Nat.lt_succ_self p)
        rw [ht] at this
        exact decide_eq_true (by omega)
      · have := hbefore j hj (by omega)
        exact decide_eq_false (by omega)
    · have hlength : p + 1 = (stops c ts e).length := by omega
      rw [hlength, List.findIdx_eq_length]
      intro u hu
      obtain ⟨j, hj, rfl⟩ := List.mem_iff_getElem.mp hu
      have := hbefore j (by omega) hj
      exact decide_eq_false (by omega)
  rw [stopFrom, hfirst]

theorem stopFrom_zero (c : Int) (ts : List Token) (e : Token) : stopFrom (stops c ts e) 0 = 0 := by
  have hfirst : (stops c ts e).findIdx (fun t => ((0 : Nat) : Int) ≤ t.index) = 0 := by
    refine (List.findIdx_eq (length_stops_pos c ts e)).mpr ⟨?_, fun j hj => by omega⟩
    obtain ⟨i, hi, -⟩ := stop_place (List.getElem?_eq_getElem (length_stops_pos c ts e))
    exact decide_eq_true (by omega)
  rw [stopFrom, hfirst, Nat.zero_min]

section

variable (hinner : ∀ t ∈ ts, t.isEof = false) (hlast : e.isEof = true) (h : (stops c ts e)[p]? = some t)
include hinner hlast h

/-- The stops before one are the tokens of the channel before it. -/
theorem take_stops (hi : t.index = i) : (stops c ts e).take p = ((numbered ts).take i).filter (·.channel = c) := by
  obtain ⟨j, hj, hlt, htoken⟩ := stop_place h
  obtain rfl : j = i := by omega
  have hlength : j < (numbered (ts ++ [e])).length := (List.getElem?_eq_some_iff.mp htoken).1
  have hstop : isStop c t = true := by
    have hmem := List.mem_of_getElem? h
    rw [stops_eq_filter hinner hlast] at hmem
    exact (List.mem_filter.mp hmem).2
  have hbefore : ((numbered (ts ++ [e])).take j).filter (isStop c) = ((numbered ts).take j).filter (·.channel = c) := by
    rw [numbered_concat, List.take_append_of_le_length (by simpa using by omega)]
    refine List.filter_congr fun u hu => ?_
    obtain ⟨v, hv, k, rfl⟩ := mem_numbered (List.mem_of_mem_take hu)
    simp [isStop, hinner v hv]
  have hsplit : stops c ts e = ((numbered (ts ++ [e])).take j).filter (isStop c) ++
      t :: ((numbered (ts ++ [e])).drop (j + 1)).filter (isStop c) := by
    rw [stops_eq_filter hinner hlast]
    conv_lhs => rw [← List.take_append_drop j (numbered (ts ++ [e])), List.drop_eq_getElem_cons hlength,
      (List.getElem?_eq_some_iff.mp htoken).2]
    rw [List.filter_append, List.filter_cons_of_pos hstop]
  have hplace : p = (((numbered (ts ++ [e])).take j).filter (isStop c)).length := by
    have hnodup : (stops c ts e).Nodup := (stops_ascend c ts e).imp fun hlt heq => by rw [heq] at hlt; omega
    refine (List.getElem?_inj (List.getElem?_eq_some_iff.mp h).1 hnodup).mp ?_
    rw [h, hsplit, List.getElem?_append_right (Nat.le_refl _), Nat.sub_self, List.getElem?_cons_zero]
  rw [← hbefore, hplace, hsplit, List.take_left']
  rfl

theorem le_index_of_stop : (p : Int) ≤ t.index := by
  obtain ⟨i, hi, -, -⟩ := stop_place h
  have hp := (List.getElem?_eq_some_iff.mp h).1
  have hlength := congrArg List.length (take_stops hinner hlast h hi)
  have hle := List.length_filter_le (fun t : Token => decide (t.channel = c)) ((numbered ts).take i)
  rw [List.length_take] at hlength hle
  omega

/-- Only the last stop is the end token. -/
theorem isEof_iff_last : t.isEof = true ↔ p + 1 = (stops c ts e).length := by
  have hp := (List.getElem?_eq_some_iff.mp h).1
  constructor
  · intro heof
    by_contra hne
    have hshort : p < ((numbered ts).filter (·.channel = c)).length := by
      rw [stops, List.length_append, List.length_singleton] at hp hne
      omega
    rw [stops, List.getElem?_append_left hshort] at h
    obtain ⟨u, hu, i, rfl⟩ := mem_numbered (List.mem_of_mem_filter (List.mem_of_getElem? h))
    rw [Token.placed_isEof, hinner u hu] at heof
    cases heof
  · intro hp
    obtain rfl : p = (stops c ts e).length - 1 := by omega
    rw [getElem?_stops_last] at h
    obtain rfl := Option.some.inj h
    exact hlast

end

/-! ## Walking ahead and back -/

theorem previousOnChannel_before {i : Int} (hi : i < 0) (c : Int) : (previousOnChannel i c).outcome s = (.ok i, s) := by
  rw [previousOnChannel, previousFrom, if_pos hi]
  rfl

theorem backFrom_before (c : Int) (k : Nat) {i : Int} (hi : i < 0) : (backFrom c k i).outcome s = (.ok (i - k), s) := by
  induction k generalizing i with
  | zero =>
    rw [Int.natCast_zero, Int.sub_zero]
    rfl
  | succ k ih =>
    rw [backFrom, outcome_bind_ok (previousOnChannel_before (by omega) c), ih (by omega)]
    congr 2
    omega

variable [TokenSource σ]

section

variable (h : Buffered ts e s) (ht : (stops c ts e)[p]? = some t)
include h ht

theorem Buffered.tokenAt_stop (hin : t.index < s.tokens.size) : (tokenAt t.index).outcome s = (.ok t, s) := by
  obtain ⟨i, hi, -, htoken⟩ := stop_place ht
  rw [hi] at hin ⊢
  exact tokenAt_inside ((h.token (by omega)).trans htoken)

theorem Buffered.ahead_one (hu : (stops c ts e)[min (p + 1) ((stops c ts e).length - 1)]? = some u) :
    ∃ s', (do if ← TokenStream.sync (t.index + 1) then TokenStream.nextOnChannel (t.index + 1) c else return t.index : Act σ Int).outcome s =
      (.ok u.index, s') ∧ Grows ts e s s' ∧ u.index < s'.tokens.size := by
  obtain ⟨i, hi, hlt, -⟩ := stop_place ht
  rw [← stopFrom_succ ht hi] at hu
  obtain ⟨s₁, hsync, hgrows, hsize⟩ := h.sync (i + 1)
  rw [Int.natCast_succ] at hsync
  rw [hi, outcome_bind_ok hsync]
  by_cases hnext : i + 1 < ts.length + 1
  · obtain ⟨s', hwalk, hgrows', hin⟩ := hgrows.buffered.nextOnChannel hu
    rw [Int.natCast_succ] at hwalk
    rw [if_pos (decide_eq_true hnext)]
    exact ⟨s', hwalk, hgrows.trans hgrows', hin⟩
  · obtain rfl := stopFrom_outside (by omega) hu
    obtain rfl : i = ts.length := by omega
    rw [if_neg (by simp)]
    exact ⟨s₁, rfl, hgrows, by rw [Token.placed_index]; omega⟩

theorem Buffered.aheadFrom (hin : t.index < s.tokens.size) (k : Nat)
    (hu : (stops c ts e)[min (p + k) ((stops c ts e).length - 1)]? = some u) :
    ∃ s', (aheadFrom c k t.index).outcome s = (.ok u.index, s') ∧ Grows ts e s s' ∧ u.index < s'.tokens.size := by
  have hp := (List.getElem?_eq_some_iff.mp ht).1
  induction k generalizing s t p with
  | zero =>
    rw [Nat.add_zero, Nat.min_eq_left (by omega), ht] at hu
    obtain rfl := Option.some.inj hu
    exact ⟨s, rfl, h.refl, hin⟩
  | succ k ih =>
    have hlt : min (p + 1) ((stops c ts e).length - 1) < (stops c ts e).length := by omega
    have hv := List.getElem?_eq_getElem hlt
    obtain ⟨s₁, hone, hgrows, hin₁⟩ := h.ahead_one ht hv
    have hplace : min (min (p + 1) ((stops c ts e).length - 1) + k) ((stops c ts e).length - 1) =
        min (p + (k + 1)) ((stops c ts e).length - 1) := by omega
    obtain ⟨s', hwalk, hgrows', hin'⟩ := ih hgrows.buffered hv hin₁ (by rw [hplace, hu]) hlt
    rw [TokenStream.aheadFrom, outcome_bind_ok hone]
    exact ⟨s', hwalk, hgrows.trans hgrows', hin'⟩

end

/-- Back from a place, the last token of the channel before it is found, or else a place before the first. -/
theorem Buffered.previousFrom (h : Buffered ts e s) {n fuel : Nat} (hn : n ≤ ts.length) (hsize : n ≤ s.tokens.size) (hfuel : n ≤ fuel) :
    (previousFrom c fuel ((n : Int) - 1)).outcome s =
      (.ok ((((numbered ts).take n).filter (·.channel = c)).getLast?.elim (-1) Token.index), s) := by
  induction n generalizing fuel with
  | zero =>
    cases fuel with
    | zero => rfl
    | succ fuel => rfl
  | succ n ih =>
    obtain ⟨fuel, rfl⟩ : ∃ m, fuel = m + 1 := ⟨fuel - 1, by omega⟩
    have hlength : n < (numbered ts).length := by simpa using Nat.lt_of_succ_le hn
    have hu := List.getElem?_eq_getElem hlength
    have htoken : s.tokens[n]? = some (numbered ts)[n] := by
      rw [h.token hsize, numbered_concat, List.getElem?_append_left hlength, hu]
    have hplace : ((n + 1 : Nat) : Int) - 1 = n := by omega
    rw [hplace, TokenStream.previousFrom, if_neg (by omega), outcome_bind_ok (tokenAt_inside htoken), List.take_add_one, hu]
    rw [Option.toList_some, List.filter_append]
    by_cases hc : (numbered ts)[n].channel = c
    · rw [if_pos hc, List.filter_cons_of_pos (by simpa using hc), List.filter_nil, List.getLast?_concat, Option.elim_some,
        index_numbered hu]
      rfl
    · rw [if_neg hc, List.filter_cons_of_neg (by simpa using hc), List.filter_nil, List.append_nil]
      exact ih (by omega) (by omega) (by omega)

theorem Buffered.back_one (h : Buffered ts e s) (ht : (stops c ts e)[p]? = some t) (hin : t.index < s.tokens.size) :
    (previousOnChannel (t.index - 1) c).outcome s = (.ok (((stops c ts e).take p).getLast?.elim (-1) Token.index), s) := by
  obtain ⟨i, hi, hlt, -⟩ := stop_place ht
  rw [take_stops h.inner h.last ht hi, previousOnChannel, hi]
  exact h.previousFrom (by omega) (by omega) (by omega)

/-- Back over stops, and then one place at a time. -/
theorem Buffered.backFrom (h : Buffered ts e s) (ht : (stops c ts e)[p]? = some t) (hin : t.index < s.tokens.size) (k : Nat) :
    (backFrom c k t.index).outcome s =
      (.ok (if p < k then (p : Int) - k else (stops c ts e)[p - k]?.elim (-1) Token.index), s) := by
  induction k generalizing p t with
  | zero =>
    rw [if_neg (by omega), Nat.sub_zero, ht]
    rfl
  | succ k ih =>
    have hp := (List.getElem?_eq_some_iff.mp ht).1
    rw [TokenStream.backFrom, outcome_bind_ok (h.back_one ht hin)]
    cases p with
    | zero =>
      rw [List.take_zero, List.getLast?_nil, Option.elim_none, backFrom_before c k (by decide), if_pos (by omega)]
      congr 2
      omega
    | succ p =>
      have hu : (stops c ts e)[p]? = some (stops c ts e)[p] := List.getElem?_eq_getElem (by omega)
      have hless := List.pairwise_iff_getElem.mp (stops_ascend c ts e) p (p + 1) (by omega) hp (Nat.lt_succ_self p)
      rw [(List.getElem?_eq_some_iff.mp ht).2] at hless
      rw [List.take_add_one, hu, Option.toList_some, List.getLast?_concat, Option.elim_some, ih hu (by omega)]
      by_cases hk : p < k
      · rw [if_pos hk, if_pos (by omega)]
        congr 2
        omega
      · rw [if_neg hk, if_neg (by omega), Nat.add_sub_add_right]

/-! ## Standing at a stop -/

/-- The stream is tuned to the channel and stands at the stop `t`, the one at place `p`. -/
structure AtStop (c : Int) (ts : List Token) (e : Token) (s : TokenStream σ) (p : Nat) (t : Token) : Prop where
  buffered : Buffered ts e s
  channel : s.channel = some c
  stop : (stops c ts e)[p]? = some t
  index : s.index = t.index
  inside : t.index < s.tokens.size

/-- A stream of which nothing was asked yet counts as one at its first stop. -/
inductive Stands (c : Int) (ts : List Token) (e : Token) (s : TokenStream σ) : Nat → Prop
  | unread : Buffered ts e s → s.channel = some c → s.index = -1 → Stands c ts e s 0
  | atStop {p : Nat} {t : Token} : AtStop c ts e s p t → Stands c ts e s p

theorem AtStop.grown (h : AtStop c ts e s p t) (hgrows : Grows ts e s s') : AtStop c ts e s' p t where
  buffered := hgrows.buffered
  channel := hgrows.channel.trans h.channel
  stop := h.stop
  index := hgrows.index.trans h.index
  inside := by
    have := h.inside
    have := hgrows.size_le
    omega

theorem AtStop.token (h : AtStop c ts e s p t) : s.tokens[s.index.toNat]? = some t := by
  obtain ⟨i, hi, -, htoken⟩ := stop_place h.stop
  have hin := h.inside
  rw [h.index, hi, Int.toNat_natCast, h.buffered.token (by omega), htoken]

/-- Sent to a place, a tuned stream stands at the stop for it. -/
theorem Buffered.sent (h : Buffered ts e s) (hc : s.channel = some c) (i : Nat) :
    ∃ s' t, (do let j ← TokenStream.adjust (i : Int); modify fun s => { s with index := j } : Act σ Unit).outcome s = (.ok (), s') ∧
      AtStop c ts e s' (stopFrom (stops c ts e) i) t := by
  obtain ⟨t, ht⟩ := exists_stop c ts e i
  obtain ⟨s', hnext, hgrows, hin⟩ := h.nextOnChannel ht
  have hadjust : (TokenStream.adjust (i : Int)).outcome s = (.ok t.index, s') := by
    rw [TokenStream.adjust, outcome_get_bind, hc]
    exact hnext
  refine ⟨{ s' with index := t.index }, t, ?_, hgrows.buffered.moved _, hgrows.channel.trans hc, ht, rfl, hin⟩
  rw [outcome_bind_ok hadjust, Run.outcome_modify]

theorem Stands.begin (h : Stands c ts e s p) : ∃ s' t, lazyInit.outcome s = (.ok (), s') ∧ AtStop c ts e s' p t := by
  cases h with
  | unread hbuffered hc hindex =>
    obtain ⟨s₁, hsync, hgrows, -⟩ := hbuffered.sync 0
    obtain ⟨s', t, hsent, hstop⟩ := hgrows.buffered.sent (hgrows.channel.trans hc) 0
    rw [Int.natCast_zero] at hsync hsent
    rw [stopFrom_zero] at hstop
    refine ⟨s', t, ?_, hstop⟩
    rw [lazyInit, outcome_get_bind, if_pos hindex, setup, outcome_bind_ok hsync]
    exact hsent
  | @atStop _ t hstop =>
    refine ⟨s, t, ?_, hstop⟩
    obtain ⟨i, hi, -⟩ := stop_place hstop.stop
    have hindex := hstop.index
    rw [lazyInit, outcome_get_bind, if_neg (by omega)]
    rfl

/-! ## What is asked of a stream -/

theorem Stands.look_ahead (h : Stands c ts e s p) (k : Nat)
    (hu : (stops c ts e)[min (p + k) ((stops c ts e).length - 1)]? = some u) :
    ∃ s' t, (look ((k : Int) + 1)).outcome s = (.ok (some u), s') ∧ AtStop c ts e s' p t := by
  obtain ⟨s₁, t, hbegin, hstop⟩ := h.begin
  obtain ⟨s', hwalk, hgrows, hin⟩ := hstop.buffered.aheadFrom hstop.stop hstop.inside k hu
  have hk : ((k : Int) + 1 - 1).toNat = k := by omega
  refine ⟨s', t, ?_, hstop.grown hgrows⟩
  rw [look, outcome_bind_ok hbegin, if_neg (by omega), if_neg (by omega), outcome_get_bind, hstop.channel]
  dsimp only
  rw [hk, hstop.index, outcome_bind_ok hwalk, outcome_bind_ok (hgrows.buffered.tokenAt_stop hu hin), Run.outcome_pure]

theorem AtStop.lookBack (h : AtStop c ts e s p t) (k : Nat) :
    (lookBack ((k : Int) + 1)).outcome s = (.ok (if p < k + 1 then none else (stops c ts e)[p - (k + 1)]?), s) := by
  have hle := le_index_of_stop h.buffered.inner h.buffered.last h.stop
  have hback := h.buffered.backFrom h.stop h.inside (k + 1)
  have hk : ((k : Int) + 1).toNat = k + 1 := by omega
  rw [TokenStream.lookBack, outcome_get_bind, h.channel]
  dsimp only
  by_cases hshort : s.index - ((k : Int) + 1) < 0
  · have hindex := h.index
    rw [if_pos (by simp [hshort]), if_pos (by omega)]
    rfl
  rw [if_neg (by simp [hshort]; omega), hk, h.index, outcome_bind_ok hback]
  by_cases hp : p < k + 1
  · rw [if_pos hp, if_pos (by omega), if_pos hp]
    rfl
  · have hlt : p - (k + 1) < (stops c ts e).length := by
      have := (List.getElem?_eq_some_iff.mp h.stop).1
      omega
    have hu := List.getElem?_eq_getElem hlt
    obtain ⟨i, hi, -⟩ := stop_place hu
    have hless := List.pairwise_iff_getElem.mp (stops_ascend c ts e) (p - (k + 1)) p hlt (List.getElem?_eq_some_iff.mp h.stop).1 (by omega)
    rw [(List.getElem?_eq_some_iff.mp h.stop).2] at hless
    have hin := h.inside
    rw [if_neg hp, if_neg hp, hu, Option.elim_some, if_neg (by omega), outcome_bind_ok (h.buffered.tokenAt_stop hu (by omega)),
      Run.outcome_pure]

theorem Stands.look_back (h : Stands c ts e s p) (k : Nat) :
    ∃ s' t, (look (-((k : Int) + 1))).outcome s = (.ok (if p < k + 1 then none else (stops c ts e)[p - (k + 1)]?), s') ∧
      AtStop c ts e s' p t := by
  obtain ⟨s', t, hbegin, hstop⟩ := h.begin
  refine ⟨s', t, ?_, hstop⟩
  rw [look, outcome_bind_ok hbegin, if_neg (by omega), if_pos (by omega), Int.neg_neg, hstop.lookBack k]

theorem Stands.lookType (h : Stands c ts e s p) (k : Nat)
    (hu : (stops c ts e)[min (p + k) ((stops c ts e).length - 1)]? = some u) :
    ∃ s' t, (lookType ((k : Int) + 1)).outcome s = (.ok u.type, s') ∧ AtStop c ts e s' p t := by
  obtain ⟨s', t, hlook, hstop⟩ := h.look_ahead k hu
  refine ⟨s', t, ?_, hstop⟩
  rw [TokenStream.lookType, outcome_bind_ok hlook]
  rfl

theorem Stands.seek (h : Stands c ts e s p) (i : Nat) :
    ∃ s' t, (seek (i : Int)).outcome s = (.ok (), s') ∧ AtStop c ts e s' (stopFrom (stops c ts e) i) t := by
  obtain ⟨s₁, t₁, hbegin, hstop⟩ := h.begin
  obtain ⟨s', t, hsent, hstop'⟩ := hstop.buffered.sent hstop.channel i
  refine ⟨s', t, ?_, hstop'⟩
  rw [TokenStream.seek, outcome_bind_ok hbegin]
  exact hsent

/-- What `consume` does once it knows that there is something to pass. -/
theorem AtStop.advance (h : AtStop c ts e s p t) (hp : p + 1 < (stops c ts e).length) :
    ∃ s' u, (do
      let i := (← get).index
      if ← sync (i + 1) then
        let i ← adjust (i + 1)
        modify fun s => { s with index := i } : Act σ Unit).outcome s = (.ok (), s') ∧ AtStop c ts e s' (p + 1) u := by
  obtain ⟨i, hi, hlt, -⟩ := stop_place h.stop
  have hless := List.pairwise_iff_getElem.mp (stops_ascend c ts e) p (p + 1) (by omega) hp (Nat.lt_succ_self p)
  have hlast := index_lt_of_mem ((stops_sublist c ts e).subset (List.getElem_mem hp))
  rw [(List.getElem?_eq_some_iff.mp h.stop).2] at hless
  rw [List.length_append, List.length_singleton] at hlast
  obtain ⟨s₁, hsync, hgrows, -⟩ := h.buffered.sync (i + 1)
  obtain ⟨s', u, hsent, hstop⟩ := hgrows.buffered.sent (hgrows.channel.trans h.channel) (i + 1)
  rw [stopFrom_succ h.stop hi, Nat.min_eq_left (by omega)] at hstop
  rw [Int.natCast_succ] at hsync hsent
  refine ⟨s', u, ?_, hstop⟩
  rw [outcome_get_bind, h.index, hi, outcome_bind_ok hsync, if_pos (decide_eq_true (by omega))]
  exact hsent

/-- As far as the buffer tells, there is a token after the current one. -/
def seesMore (s : TokenStream σ) : Bool :=
  s.index ≥ 0 && (if s.fetchedEnd then s.index < (s.tokens.size : Int) - 1 else s.index < s.tokens.size)

theorem Stands.consume_inside (h : Stands c ts e s p) (hp : p + 1 < (stops c ts e).length) :
    ∃ s' u, consume.outcome s = (.ok (), s') ∧ AtStop c ts e s' (p + 1) u := by
  rw [consume, outcome_get_bind]
  show ∃ s' u, Run.outcome (if (!seesMore s) = true then _ else _) s = _ ∧ _
  cases hmore : seesMore s with
  | true =>
    rw [if_neg (by decide)]
    cases h with
    | unread _ _ hindex => simp [seesMore, hindex] at hmore
    | atStop hstop => exact hstop.advance hp
  | false =>
    have hfirst : (stops c ts e)[min (p + 0) ((stops c ts e).length - 1)]? = some (stops c ts e)[p] := by
      rw [Nat.add_zero, Nat.min_eq_left (by omega), List.getElem?_eq_getElem]
    obtain ⟨s₁, t, htype, hstop⟩ := h.lookType 0 hfirst
    rw [Int.natCast_zero, Int.zero_add] at htype
    have hinner : ¬ (stops c ts e)[p].type = Token.eof := by
      intro heof
      have := (isEof_iff_last hstop.buffered.inner hstop.buffered.last (List.getElem?_eq_getElem _)).mp (beq_iff_eq.mpr heof)
      omega
    rw [if_pos (by decide), outcome_bind_ok htype, if_neg hinner]
    exact hstop.advance hp

theorem Stands.consume_end (h : Stands c ts e s p) (hp : p + 1 = (stops c ts e).length) :
    ∃ s' u, consume.outcome s = (.error (.illegalState "cannot consume EOF"), s') ∧ AtStop c ts e s' p u := by
  have hlast : (stops c ts e)[min (p + 0) ((stops c ts e).length - 1)]? = some (e.placed ts.length) := by
    rw [Nat.min_eq_right (by omega), getElem?_stops_last]
  obtain ⟨s', t, htype, hstop⟩ := h.lookType 0 hlast
  rw [Int.natCast_zero, Int.zero_add] at htype
  have heof : (e.placed ts.length).type = Token.eof := beq_iff_eq.mp hstop.buffered.last
  have hmore : seesMore s = false := by
    cases h with
    | unread _ _ hindex => simp [seesMore, hindex]
    | @atStop _ u hat =>
      have hu := hat.stop
      obtain rfl : p = (stops c ts e).length - 1 := by omega
      rw [getElem?_stops_last, Option.some.injEq] at hu
      subst hu
      have hindex := hat.index
      have hin := hat.inside
      rw [Token.placed_index] at hindex hin
      have hsize := hat.buffered.size_le
      have hend := hat.buffered.fetchedEnd_iff.mpr (by omega)
      simp [seesMore, hend]
      omega
  refine ⟨s', t, ?_, hstop⟩
  rw [consume, outcome_get_bind]
  show Run.outcome (if (!seesMore s) = true then _ else _) s = _
  rw [hmore, if_pos (by decide), outcome_bind_ok htype, if_pos heof]
  rfl

/-! ## The cursor -/

/-- What may be asked of a stream; ahead and back are counted from the nearest. -/
inductive Move
  | ahead (k : Nat)
  | typeAhead (k : Nat)
  | back (k : Nat)
  | consume
  | seek (i : Nat)
  | reset

inductive Answer
  | token (t : Option Token)
  | type (n : Int)
  | done

def Move.run : Move → Act σ Answer
  | .ahead k => return .token (← look ((k : Int) + 1))
  | .typeAhead k => return .type (← TokenStream.lookType ((k : Int) + 1))
  | .back k => return .token (← look (-((k : Int) + 1)))
  | .consume => do TokenStream.consume; return .done
  | .seek i => do TokenStream.seek (i : Int); return .done
  | .reset => do TokenStream.reset; return .done

/-- Asks one thing after the other; what fails is answered by its fault. -/
def perform : List Move → Act σ (List (Except Fault Answer))
  | [] => return []
  | m :: ms => return (← m.run.attempt) :: (← perform ms)

/-- What a cursor at place `p` of a list answers, and its place after that. -/
def Move.onCursor (stops : List Token) (p : Nat) : Move → Except Fault Answer × Nat
  | .ahead k => (.ok (.token stops[min (p + k) (stops.length - 1)]?), p)
  | .typeAhead k => (stops[min (p + k) (stops.length - 1)]?.elim (.error .absent) fun t => .ok (.type t.type), p)
  | .back k => (.ok (.token (if p < k + 1 then none else stops[p - (k + 1)]?)), p)
  | .consume => if p + 1 < stops.length then (.ok .done, p + 1) else (.error (.illegalState "cannot consume EOF"), p)
  | .seek i => (.ok .done, stopFrom stops i)
  | .reset => (.ok .done, 0)

def cursor (stops : List Token) : Nat → List Move → List (Except Fault Answer) × Nat
  | p, [] => ([], p)
  | p, m :: ms =>
    let rest := cursor stops (m.onCursor stops p).2 ms
    ((m.onCursor stops p).1 :: rest.1, rest.2)

theorem Stands.move (h : Stands c ts e s p) (m : Move) :
    ∃ s' t, m.run.outcome s = ((m.onCursor (stops c ts e) p).1, s') ∧ AtStop c ts e s' (m.onCursor (stops c ts e) p).2 t := by
  have hpos := length_stops_pos c ts e
  have hahead (k : Nat) : (stops c ts e)[min (p + k) ((stops c ts e).length - 1)]? =
      some ((stops c ts e)[min (p + k) ((stops c ts e).length - 1)]) := List.getElem?_eq_getElem (by omega)
  cases m with
  | ahead k =>
    obtain ⟨s', t, hlook, hstop⟩ := h.look_ahead k (hahead k)
    refine ⟨s', t, ?_, hstop⟩
    rw [Move.run, outcome_bind_ok hlook, ← hahead k]
    rfl
  | typeAhead k =>
    obtain ⟨s', t, htype, hstop⟩ := h.lookType k (hahead k)
    refine ⟨s', t, ?_, hstop⟩
    rw [Move.run, outcome_bind_ok htype, Move.onCursor, hahead k]
    rfl
  | back k =>
    obtain ⟨s', t, hlook, hstop⟩ := h.look_back k
    refine ⟨s', t, ?_, hstop⟩
    rw [Move.run, outcome_bind_ok hlook]
    rfl
  | consume =>
    by_cases hp : p + 1 < (stops c ts e).length
    · obtain ⟨s', t, hconsume, hstop⟩ := h.consume_inside hp
      rw [Move.run, outcome_bind_ok hconsume, Move.onCursor, if_pos hp]
      exact ⟨s', t, rfl, hstop⟩
    · obtain ⟨s₁, t₁, -, hat⟩ := h.begin
      have hlt := (List.getElem?_eq_some_iff.mp hat.stop).1
      obtain ⟨s', t, hconsume, hstop⟩ := h.consume_end (by omega)
      rw [Move.run, Run.outcome_bind_error hconsume, Move.onCursor, if_neg hp]
      exact ⟨s', t, rfl, hstop⟩
  | seek i =>
    obtain ⟨s', t, hseek, hstop⟩ := h.seek i
    refine ⟨s', t, ?_, hstop⟩
    rw [Move.run, outcome_bind_ok hseek]
    rfl
  | reset =>
    obtain ⟨s', t, hseek, hstop⟩ := h.seek 0
    rw [Int.natCast_zero] at hseek
    rw [stopFrom_zero] at hstop
    refine ⟨s', t, ?_, hstop⟩
    rw [Move.run, TokenStream.reset, outcome_bind_ok hseek]
    rfl

theorem Stands.perform (h : Stands c ts e s p) (ms : List Move) :
    ∃ s', (perform ms).outcome s = (.ok (cursor (stops c ts e) p ms).1, s') ∧ Stands c ts e s' (cursor (stops c ts e) p ms).2 ∧
      (s.index ≠ -1 ∨ ms ≠ [] → s'.index ≠ -1) := by
  induction ms generalizing s p with
  | nil => exact ⟨s, rfl, h, fun hbegun => hbegun.resolve_right (fun hne => hne rfl)⟩
  | cons m ms ih =>
    obtain ⟨s₁, t, hmove, hstop⟩ := h.move m
    obtain ⟨s', hrest, hstands, hbegun⟩ := ih (.atStop hstop)
    obtain ⟨i, hi, -⟩ := stop_place hstop.stop
    have hindex := hstop.index
    refine ⟨s', ?_, hstands, fun _ => hbegun (.inl (by omega))⟩
    rw [TokenStream.perform, outcome_bind_ok (Run.outcome_attempt _ _), hmove, outcome_bind_ok hrest, Run.outcome_pure]
    rfl

theorem Stands.buffered (h : Stands c ts e s p) : Buffered ts e s := by
  cases h with
  | unread hbuffered _ _ => exact hbuffered
  | atStop hstop => exact hstop.buffered

/-- Tokens stand in the buffer at their numbers, and nothing stands behind the end token. -/
theorem Buffered.buffer (h : Buffered ts e s) (ht : s.tokens[i]? = some t) :
    t.index = i ∧ (t.isEof = true → i + 1 = s.tokens.size) := by
  have hi := lt_size_of_token ht
  have hle := h.size_le
  rw [h.token hi] at ht
  refine ⟨index_numbered ht, fun heof => ?_⟩
  by_contra hne
  have hlt : i < ts.length := by omega
  rw [getElem?_numbered, List.getElem?_append_left hlt, List.getElem?_eq_getElem hlt, Option.map_some, Option.some.injEq] at ht
  subst ht
  rw [Token.placed_isEof, h.inner _ (List.getElem_mem hlt)] at heof
  cases heof

/-- Whatever is asked of a stream on a channel, it answers as a cursor over the tokens of the channel and the end token does, and
it stands where the cursor does. Its buffer is a beginning of the tokens of the source, numbered by their places, in which the end
token comes last if at all. -/
theorem stream_is_cursor (h : Yields source ts e) (c : Int) (ms : List Move) :
    ∃ s', (perform ms).outcome { source, channel := some c : TokenStream σ } = (.ok (cursor (stops c ts e) 0 ms).1, s') ∧
      (ms ≠ [] → ∃ t, (stops c ts e)[(cursor (stops c ts e) 0 ms).2]? = some t ∧ s'.index = t.index ∧
        s'.tokens[s'.index.toNat]? = some t) ∧
      s'.tokens.toList <+: numbered (ts ++ [e]) ∧
      ∀ (i : Nat) (t : Token), s'.tokens[i]? = some t → t.index = i ∧ (t.isEof = true → i + 1 = s'.tokens.size) := by
  have hfresh : Stands c ts e { source, channel := some c : TokenStream σ } 0 := .unread (.fresh h (some c)) rfl rfl
  obtain ⟨s', hrun, hstands, hbegun⟩ := hfresh.perform ms
  refine ⟨s', hrun, fun hne => ?_, hstands.buffered.held, fun i t ht => hstands.buffered.buffer ht⟩
  generalize hp : (cursor (stops c ts e) 0 ms).2 = p at hstands
  cases hstands with
  | unread _ _ hindex => exact absurd hindex (hbegun (.inr hne))
  | @atStop _ t hstop => exact ⟨t, hstop.stop, hstop.index, hstop.token⟩

/-- A name, a blank on a channel of its own, and a sign, from one of them on. -/
def spacedFrom (pos : Nat) : Listed where
  tokens := #[{ type := 28, given := some "x" }, { type := 29, channel := 1, given := some " " }, { type := 10, given := some "=" }]
  pos := pos

theorem spacedFrom_yields : Yields (spacedFrom 0) (spacedFrom 0).tokens.toList (spacedFrom 3).makeEnding := by
  have hend : Yields (spacedFrom 3) [] (spacedFrom 3).makeEnding :=
    .ending (show _ = (_, { spacedFrom 3 with ending := some (spacedFrom 3).makeEnding }) from rfl) rfl (by decide)
  have hsign : Yields (spacedFrom 2) ((spacedFrom 0).tokens.toList.drop 2) (spacedFrom 3).makeEnding := .token rfl rfl (by decide) hend
  have hblank : Yields (spacedFrom 1) ((spacedFrom 0).tokens.toList.drop 1) (spacedFrom 3).makeEnding := .token rfl rfl (by decide) hsign
  exact .token rfl rfl (by decide) hblank

/-- The blank is passed over on the way ahead, on the way back and by a jump to it; the end is not passed. -/
theorem stream_is_cursor_spaced :
    Yields (spacedFrom 0) (spacedFrom 0).tokens.toList (spacedFrom 3).makeEnding ∧
      ∃ s', (perform [.ahead 1, .consume, .back 0, .consume, .consume, .typeAhead 0, .seek 1, .ahead 0]).outcome
          { source := spacedFrom 0, channel := some 0 } =
        (.ok [.ok (.token (some { type := 10, index := 2, given := some "=" })), .ok .done,
          .ok (.token (some { type := 28, index := 0, given := some "x" })), .ok .done,
          .error (.illegalState "cannot consume EOF"), .ok (.type Token.eof), .ok .done,
          .ok (.token (some { type := 10, index := 2, given := some "=" }))], s') ∧ s'.index = 2 := by
  refine ⟨spacedFrom_yields, ?_⟩
  obtain ⟨s', hrun, hstop, -⟩ :=
    stream_is_cursor spacedFrom_yields 0 [.ahead 1, .consume, .back 0, .consume, .consume, .typeAhead 0, .seek 1, .ahead 0]
  obtain ⟨t, ht, hindex, -⟩ := hstop (by simp)
  obtain rfl := Option.some.inj ht
  exact ⟨s', hrun, hindex⟩

end NimbleLang.TokenStream
