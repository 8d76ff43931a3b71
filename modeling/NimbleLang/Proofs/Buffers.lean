import NimbleLang.Proofs.Runs
import NimbleLang.Token.Stream

/-!
Streams over sources that come to an end. A source may hand out some tokens and then the end token (`TokenSource.Yields`). The
buffer of a stream over it is at all times a beginning of these tokens, each numbered by its place, and has the end token last
if at all (`TokenStream.Buffered`). Looking at the stream only ever adds to the buffer (`TokenStream.Grows`), and nothing is
added once the end token is there. For each function that reads ahead there is one lemma, which says what it answers and how
far the buffer reaches after it.
-/

namespace NimbleLang

open Run (outcome_bind_ok outcome_get_bind)

namespace TokenSource

variable {σ : Type} [TokenSource σ]

/-- The source hands out the tokens `ts` and then the end token `e`, and its bound covers what is still to come. -/
inductive Yields : σ → List Token → Token → Prop
  | ending {source source' : σ} {e : Token} : next source = (.ok e, source') → e.isEof = true → 0 < bound source → Yields source [] e
  | token {source source' : σ} {t e : Token} {ts : List Token} : next source = (.ok t, source') → t.isEof = false →
      ts.length + 1 < bound source → Yields source' ts e → Yields source (t :: ts) e

variable {source : σ} {ts : List Token} {e : Token}

theorem Yields.inner (h : Yields source ts e) : ∀ t ∈ ts, t.isEof = false := by
  induction h with
  | ending => simp
  | token _ ht _ _ ih => exact List.forall_mem_cons.mpr ⟨ht, ih⟩

theorem Yields.last (h : Yields source ts e) : e.isEof = true := by
  induction h with
  | ending _ he _ => exact he
  | token _ _ _ _ ih => exact ih

theorem Yields.length_lt (h : Yields source ts e) : ts.length < bound source := by
  cases h with
  | ending _ _ hbound => exact hbound
  | token _ _ hbound _ => exact hbound

end TokenSource

open TokenSource

/-! ## Numbered tokens -/

/-- The token as the one at a place of a stream. -/
def Token.placed (t : Token) (i : Nat) : Token := { t with index := (i : Int) }

namespace Token

@[simp] theorem placed_index (t : Token) (i : Nat) : (t.placed i).index = i := rfl
@[simp] theorem placed_type (t : Token) (i : Nat) : (t.placed i).type = t.type := rfl
@[simp] theorem placed_channel (t : Token) (i : Nat) : (t.placed i).channel = t.channel := rfl
@[simp] theorem placed_isEof (t : Token) (i : Nat) : (t.placed i).isEof = t.isEof := rfl
@[simp] theorem placed_text? (t : Token) (i : Nat) : (t.placed i).text? = t.text? := rfl

end Token

/-- Tokens as a stream numbers them. -/
def numbered (ts : List Token) : List Token := ts.mapIdx fun i t => { t with index := (i : Int) }

@[simp] theorem length_numbered (ts : List Token) : (numbered ts).length = ts.length := List.length_mapIdx

@[simp] theorem getElem?_numbered (ts : List Token) (i : Nat) : (numbered ts)[i]? = ts[i]?.map (·.placed i) := List.getElem?_mapIdx

theorem numbered_concat (ts : List Token) (e : Token) : numbered (ts ++ [e]) = numbered ts ++ [e.placed ts.length] :=
  List.mapIdx_concat

namespace TokenStream

variable {σ : Type} {s s' : TokenStream σ} {ts : List Token} {t e : Token} {source : σ} {k : Nat}

/-! ## Single steps -/

/-- One more token in the buffer. -/
def push (s : TokenStream σ) (t : Token) (source : σ) : TokenStream σ :=
  { s with source, tokens := s.tokens.push { t with index := (s.tokens.size : Int) }, fetchedEnd := t.isEof }

theorem size_push (s : TokenStream σ) (t : Token) (source : σ) : (s.push t source).tokens.size = s.tokens.size + 1 := Array.size_push _

theorem lt_size_of_token (h : s.tokens[k]? = some t) : k < s.tokens.size := (Array.getElem?_eq_some_iff.mp h).1

theorem wrap?_inside {size : Nat} (h : k < size) : Indexing.wrap? size (k : Int) = some k := by
  unfold Indexing.wrap?
  rw [if_pos (by omega), if_pos (by omega)]
  rfl

theorem tokenAt_inside (ht : s.tokens[k]? = some t) : (tokenAt (k : Int)).outcome s = (.ok t, s) := by
  rw [tokenAt, outcome_get_bind, Indexing.arrayAt?, wrap?_inside (lt_size_of_token ht)]
  simp only [Option.bind_some, ht]
  rfl

variable [TokenSource σ]

theorem fetchLoop_ok {n count : Nat} (h : TokenSource.next s.source = (.ok t, source)) :
    (fetchLoop (n + 1) count).outcome s =
      if t.isEof then (.ok (count + 1), s.push t source) else (fetchLoop n (count + 1)).outcome (s.push t source) := by
  rw [fetchLoop, outcome_get_bind]
  simp only [h]
  rw [outcome_bind_ok (Run.outcome_set _ _), outcome_bind_ok (Run.outcome_lift _ _),
    Run.outcome_modify_bind]
  show Run.outcome (if t.isEof then _ else _) _ = _
  split <;> rfl

theorem sync_inside {i : Int} (h : i < s.tokens.size) : (sync i).outcome s = (.ok true, s) := by
  rw [sync, outcome_get_bind]
  dsimp only
  rw [if_neg (by omega)]
  rfl

theorem fetch_ended (h : s.fetchedEnd = true) (n : Nat) : (fetch n).outcome s = (.ok 0, s) := by
  rw [fetch, outcome_get_bind, if_pos h]
  rfl

/-! ## The buffer -/

/-- The buffer is a beginning of the tokens `ts` and the end token `e`, and what is not in it is still to come. -/
structure Buffered (ts : List Token) (e : Token) (s : TokenStream σ) : Prop where
  inner : ∀ t ∈ ts, t.isEof = false
  last : e.isEof = true
  held : s.tokens.toList <+: numbered (ts ++ [e])
  ended : s.fetchedEnd = true → s.tokens.size = ts.length + 1
  unread : s.fetchedEnd = false → s.tokens.size ≤ ts.length ∧ Yields s.source (ts.drop s.tokens.size) e

/-- The second stream has read on, if its end was not read before; its position is the same. -/
structure Grows (ts : List Token) (e : Token) (s s' : TokenStream σ) : Prop where
  buffered : Buffered ts e s'
  size_le : s.tokens.size ≤ s'.tokens.size
  index : s'.index = s.index
  channel : s'.channel = s.channel
  still : s.fetchedEnd = true → s' = s

theorem Buffered.fresh (h : Yields source ts e) (channel : Option Int) : Buffered ts e { source, channel : TokenStream σ } where
  inner := h.inner
  last := h.last
  held := List.nil_prefix
  ended h := nomatch h
  unread _ := ⟨Nat.zero_le _, h⟩

theorem Buffered.refl (h : Buffered ts e s) : Grows ts e s s := ⟨h, Nat.le_refl _, rfl, rfl, fun _ => rfl⟩

theorem Grows.trans {s'' : TokenStream σ} (h : Grows ts e s s') (h' : Grows ts e s' s'') : Grows ts e s s'' where
  buffered := h'.buffered
  size_le := Nat.le_trans h.size_le h'.size_le
  index := h'.index.trans h.index
  channel := h'.channel.trans h.channel
  still hend := by
    obtain rfl := h.still hend
    exact h'.still hend

section

variable (h : Buffered ts e s)
include h

theorem Buffered.moved (i : Int) : Buffered ts e { s with index := i } :=
  { h with }

theorem Buffered.token (hk : k < s.tokens.size) : s.tokens[k]? = (numbered (ts ++ [e]))[k]? := by
  obtain ⟨more, hmore⟩ := h.held
  rw [← hmore, List.getElem?_append_left (by simpa using hk), Array.getElem?_toList]

theorem Buffered.size_le : s.tokens.size ≤ ts.length + 1 := by
  simpa using h.held.length_le

theorem Buffered.fetchedEnd_iff : s.fetchedEnd = true ↔ s.tokens.size = ts.length + 1 := by
  refine ⟨h.ended, fun hsize => ?_⟩
  by_contra hopen
  have := (h.unread (Bool.eq_false_iff.mpr hopen)).1
  omega

/-- Once all is read, the buffer has all tokens. -/
theorem Buffered.all (hend : s.fetchedEnd = true) : s.tokens.toList = numbered (ts ++ [e]) := by
  refine h.held.eq_of_length ?_
  simpa using h.ended hend

theorem Buffered.push (hopen : s.fetchedEnd = false) :
    ∃ t source, TokenSource.next s.source = (.ok t, source) ∧ Buffered ts e (s.push t source) := by
  obtain ⟨hsize, hyields⟩ := h.unread hopen
  have hheld {t : Token} {source : σ} (ht : (ts ++ [e])[s.tokens.size]? = some t) :
      (s.push t source).tokens.toList <+: numbered (ts ++ [e]) := by
    obtain ⟨more, hmore⟩ := h.held
    have hfirst : more[0]? = some (t.placed s.tokens.size) := by
      have hget := getElem?_numbered (ts ++ [e]) s.tokens.size
      rw [← hmore, List.getElem?_append_right (by simp), ht] at hget
      simpa using hget
    obtain ⟨rest, rfl⟩ : ∃ rest, more = t.placed s.tokens.size :: rest := by
      cases more with
      | nil => simp at hfirst
      | cons u rest => exact ⟨rest, congrArg (· :: rest) (Option.some.inj hfirst)⟩
    refine ⟨rest, ?_⟩
    rw [← hmore, TokenStream.push, Array.toList_push, List.append_assoc]
    rfl
  generalize hrest : ts.drop s.tokens.size = rest at hyields
  cases hyields with
  | @ending _ source' _ hnext hlast _ =>
    have hall : s.tokens.size = ts.length := by
      have := List.drop_eq_nil_iff.mp hrest
      omega
    refine ⟨e, source', hnext, h.inner, h.last, hheld (by simp [hall]), fun _ => ?_, fun hend => ?_⟩
    · rw [size_push, hall]
    · exact absurd (hlast.symm.trans hend) (by decide)
  | @token _ source' t _ rest hnext ht _ hyields =>
    have hget : ts[s.tokens.size]? = some t := by
      rw [← List.head?_drop, hrest, List.head?_cons]
    have hlt := (List.getElem?_eq_some_iff.mp hget).1
    refine ⟨t, source', hnext, h.inner, h.last, hheld (by rw [List.getElem?_append_left hlt, hget]), fun hend => ?_, fun _ => ?_⟩
    · exact absurd (ht.symm.trans hend) (by decide)
    · rw [size_push, ← List.tail_drop, hrest]
      exact ⟨hlt, hyields⟩

end

theorem Buffered.grows_push (hopen : s.fetchedEnd = false) (h' : Buffered ts e (s.push t source)) :
    Grows ts e s (s.push t source) where
  buffered := h'
  size_le := by
    rw [size_push]
    omega
  index := rfl
  channel := rfl
  still hend := absurd (hopen.symm.trans hend) (by decide)

/-! ## Reading on -/

theorem Buffered.fetchLoop (h : Buffered ts e s) (hopen : s.fetchedEnd = false) (n count : Nat) :
    ∃ s', (fetchLoop n count).outcome s = (.ok (count + (s'.tokens.size - s.tokens.size)), s') ∧ Grows ts e s s' ∧
      s'.tokens.size = min (s.tokens.size + n) (ts.length + 1) := by
  have hsize := (h.unread hopen).1
  induction n generalizing s count with
  | zero =>
    refine ⟨s, ?_, h.refl, by omega⟩
    rw [Nat.sub_self]
    rfl
  | succ n ih =>
    obtain ⟨t, source, hnext, hpush⟩ := h.push hopen
    have hgrows := Buffered.grows_push hopen hpush
    have hpushed := size_push s t source
    rw [fetchLoop_ok hnext]
    by_cases heof : t.isEof = true
    · have hall := hpush.ended heof
      rw [if_pos heof]
      exact ⟨_, by rw [hpushed, Nat.add_sub_cancel_left], hgrows, by omega⟩
    · have hopen' := Bool.eq_false_iff.mpr heof
      obtain ⟨s', hloop, hgrows', hsize'⟩ := ih hpush hopen' (count + 1) (hpush.unread hopen').1
      have hle := hgrows'.size_le
      rw [if_neg heof, hloop]
      refine ⟨s', ?_, hgrows.trans hgrows', by omega⟩
      congr 2
      omega

theorem Buffered.fetch (h : Buffered ts e s) (n : Nat) :
    ∃ s', (fetch n).outcome s = (.ok (s'.tokens.size - s.tokens.size), s') ∧ Grows ts e s s' ∧
      s'.tokens.size = min (s.tokens.size + n) (ts.length + 1) := by
  by_cases hend : s.fetchedEnd = true
  · have hall := h.ended hend
    refine ⟨s, ?_, h.refl, by omega⟩
    rw [fetch_ended hend, Nat.sub_self]
  · have hloop := h.fetchLoop (Bool.eq_false_iff.mpr hend) n 0
    rw [TokenStream.fetch, outcome_get_bind, if_neg hend]
    simpa using hloop

/-- The buffer reaches a place after `sync`, or has all tokens. -/
theorem Buffered.sync (h : Buffered ts e s) (i : Nat) :
    ∃ s', (sync (i : Int)).outcome s = (.ok (decide (i < ts.length + 1)), s') ∧ Grows ts e s s' ∧
      min (i + 1) (ts.length + 1) ≤ s'.tokens.size := by
  have hle := h.size_le
  by_cases hin : i < s.tokens.size
  · refine ⟨s, ?_, h.refl, by omega⟩
    rw [sync_inside (by omega), decide_eq_true (by omega)]
  · obtain ⟨s', hfetch, hgrows, hsize⟩ := h.fetch ((i : Int) - s.tokens.size + 1).toNat
    refine ⟨s', ?_, hgrows, by omega⟩
    rw [TokenStream.sync, outcome_get_bind]
    dsimp only
    rw [if_pos (by omega), outcome_bind_ok hfetch, Run.outcome_pure]
    congr 2
    rw [decide_eq_decide]
    omega

/-! ## Walking to a stop -/

/-- A stream on a channel stops at the tokens of the channel and at the end token. -/
def isStop (c : Int) (t : Token) : Bool := t.channel = c || t.isEof

/-- The tokens that a stream on a channel stops at. -/
def stops (c : Int) (ts : List Token) (e : Token) : List Token := (numbered ts).filter (·.channel = c) ++ [e.placed ts.length]

/-- The stop that a stream comes to when it is sent to a place: the first one that is not before it, or else the last. -/
def stopFrom (stops : List Token) (i : Nat) : Nat := min (stops.findIdx fun t => (i : Int) ≤ t.index) (stops.length - 1)

theorem mem_numbered {us : List Token} {u : Token} (h : u ∈ numbered us) : ∃ v ∈ us, ∃ i, u = v.placed i := by
  obtain ⟨i, hi, rfl⟩ := List.mem_mapIdx.mp h
  exact ⟨_, List.getElem_mem hi, i, rfl⟩

theorem stops_eq_filter (hinner : ∀ t ∈ ts, t.isEof = false) (hlast : e.isEof = true) (c : Int) :
    stops c ts e = (numbered (ts ++ [e])).filter (isStop c) := by
  rw [stops, numbered_concat, List.filter_append]
  congr 1
  · refine List.filter_congr fun t ht => ?_
    obtain ⟨u, hu, i, rfl⟩ := mem_numbered ht
    simp [isStop, hinner u hu]
  · simp [isStop, hlast]

theorem index_numbered {us : List Token} {i : Nat} (h : (numbered us)[i]? = some t) : t.index = i := by
  rw [getElem?_numbered] at h
  obtain ⟨u, -, rfl⟩ := Option.map_eq_some_iff.mp h
  rfl

theorem index_lt_of_mem {us : List Token} (h : t ∈ numbered us) : t.index < us.length := by
  obtain ⟨i, hi⟩ := List.mem_iff_getElem?.mp h
  have hindex := index_numbered hi
  have hlength : i < us.length := by simpa using (List.getElem?_eq_some_iff.mp hi).1
  omega

theorem stops_sublist (c : Int) (ts : List Token) (e : Token) : (stops c ts e).Sublist (numbered (ts ++ [e])) := by
  rw [numbered_concat]
  exact List.filter_sublist.append (List.Sublist.refl _)

theorem getElem?_stops_last (c : Int) (ts : List Token) (e : Token) :
    (stops c ts e)[(stops c ts e).length - 1]? = some (e.placed ts.length) := by
  simp [stops]

/-- The first stop from a place on is found among the stops as among all tokens. -/
theorem find?_filter_numbered (p : Token → Bool) (us : List Token) (i : Nat) :
    ((numbered us).filter p).find? (fun t => (i : Int) ≤ t.index) = ((numbered us).drop i).find? p := by
  have hbefore : (((numbered us).take i).filter p).find? (fun t => (i : Int) ≤ t.index) = none := by
    refine List.find?_eq_none.mpr fun t ht => ?_
    obtain ⟨k, hk⟩ := List.mem_iff_getElem?.mp (List.mem_of_mem_filter ht)
    rw [List.getElem?_take] at hk
    split at hk
    · have := index_numbered hk
      simp
      omega
    · cases hk
  have hafter : ∀ t ∈ ((numbered us).drop i).filter p, (i : Int) ≤ t.index := by
    intro t ht
    obtain ⟨k, hk⟩ := List.mem_iff_getElem?.mp (List.mem_of_mem_filter ht)
    rw [List.getElem?_drop] at hk
    have := index_numbered hk
    omega
  have hfirst : (((numbered us).drop i).filter p).find? (fun t => (i : Int) ≤ t.index) = ((numbered us).drop i).find? p := by
    have hhead : (((numbered us).drop i).filter p).head? = ((numbered us).drop i).find? p := List.head?_filter
    rw [← hhead]
    cases hl : ((numbered us).drop i).filter p with
    | nil => rfl
    | cons t l =>
      have ht : decide ((i : Int) ≤ t.index) = true := decide_eq_true (hafter t (by simp [hl]))
      rw [List.find?_cons, ht, List.head?_cons]
  have hsplit : (numbered us).filter p = ((numbered us).take i).filter p ++ ((numbered us).drop i).filter p := by
    rw [← List.filter_append, List.take_append_drop]
  rw [hsplit, List.find?_append, hbefore, Option.none_or, hfirst]

theorem Buffered.nextFrom (h : Buffered ts e s) {c : Int} {i fuel : Nat} (hi : i < s.tokens.size) (hfuel : ts.length + 1 - i < fuel)
    (ht : ((numbered (ts ++ [e])).drop i).find? (isStop c) = some t) :
    ∃ s', (nextFrom c fuel (i : Int)).outcome s = (.ok t.index, s') ∧ Grows ts e s s' ∧ t.index < s'.tokens.size := by
  induction fuel generalizing s i with
  | zero => omega
  | succ fuel ih =>
    have hle := h.size_le
    have htoken := h.token hi
    have hlength : i < (numbered (ts ++ [e])).length := by simpa using by omega
    obtain ⟨u, hu⟩ : ∃ u, (numbered (ts ++ [e]))[i]? = some u := ⟨_, List.getElem?_eq_getElem hlength⟩
    rw [hu] at htoken
    rw [List.drop_eq_getElem_cons hlength, (List.getElem?_eq_some_iff.mp hu).2, List.find?_cons] at ht
    rw [TokenStream.nextFrom, outcome_bind_ok (tokenAt_inside htoken)]
    show ∃ s', Run.outcome (if isStop c u = true then _ else _) s = _ ∧ _
    cases hstop : isStop c u with
    | true =>
      rw [hstop] at ht
      obtain rfl := Option.some.inj ht
      rw [if_pos rfl, index_numbered hu]
      exact ⟨s, rfl, h.refl, by omega⟩
    | false =>
      rw [hstop] at ht
      -- only the end token has nothing behind it
      have hne : i ≠ ts.length := by
        rintro rfl
        have heof : isStop c (e.placed ts.length) = true := by simp [isStop, h.last]
        rw [getElem?_numbered, List.getElem?_concat_length, Option.map_some, Option.some.injEq] at hu
        rw [hu, hstop] at heof
        cases heof
      obtain ⟨s₁, hsync, hgrows, hsize⟩ := h.sync (i + 1)
      obtain ⟨s', hwalk, hgrows', hin⟩ := ih hgrows.buffered (i := i + 1) (by omega) (by omega) ht
      rw [Int.natCast_succ] at hsync hwalk
      rw [if_neg (by decide), outcome_bind_ok hsync]
      exact ⟨s', hwalk, hgrows.trans hgrows', hin⟩

/-- There is time to walk over all tokens, and to read them. -/
theorem Buffered.length_le (h : Buffered ts e s) : ts.length + 1 ≤ s.tokens.size + TokenSource.bound s.source := by
  by_cases hend : s.fetchedEnd = true
  · have := h.ended hend
    omega
  · have hlt := (h.unread (Bool.eq_false_iff.mpr hend)).2.length_lt
    rw [List.length_drop] at hlt
    omega

theorem find?_stopFrom {c : Int} (hinner : ∀ t ∈ ts, t.isEof = false) (hlast : e.isEof = true) {i : Nat} (hi : i < ts.length + 1)
    (ht : (stops c ts e)[stopFrom (stops c ts e) i]? = some t) : ((numbered (ts ++ [e])).drop i).find? (isStop c) = some t := by
  have hlt : (stops c ts e).findIdx (fun t => (i : Int) ≤ t.index) < (stops c ts e).length := by
    refine List.findIdx_lt_length.mpr ⟨e.placed ts.length, List.mem_append_right _ (List.mem_singleton_self _), ?_⟩
    simp
    omega
  rw [stopFrom, Nat.min_eq_left (by omega), ← List.find?_eq_getElem?_findIdx, stops_eq_filter hinner hlast, find?_filter_numbered] at ht
  exact ht

theorem stopFrom_outside {c : Int} {i : Nat} (hi : ts.length + 1 ≤ i) (ht : (stops c ts e)[stopFrom (stops c ts e) i]? = some t) :
    t = e.placed ts.length := by
  have hnone : (stops c ts e).findIdx (fun t => (i : Int) ≤ t.index) = (stops c ts e).length := by
    refine List.findIdx_eq_length.mpr fun u hu => decide_eq_false ?_
    have hlt := index_lt_of_mem ((stops_sublist c ts e).subset hu)
    rw [List.length_append, List.length_singleton] at hlt
    omega
  rw [stopFrom, hnone, Nat.min_eq_right (Nat.sub_le _ _), getElem?_stops_last] at ht
  exact (Option.some.inj ht).symm

/-- Sent to a place, a stream on a channel comes to the first stop that is not before it, or else to the end token. -/
theorem Buffered.nextOnChannel (h : Buffered ts e s) {c : Int} {i : Nat}
    (ht : (stops c ts e)[stopFrom (stops c ts e) i]? = some t) :
    ∃ s', (nextOnChannel (i : Int) c).outcome s = (.ok t.index, s') ∧ Grows ts e s s' ∧ t.index < s'.tokens.size := by
  obtain ⟨s₁, hsync, hgrows, hsize⟩ := h.sync i
  have hle := hgrows.buffered.size_le
  rw [TokenStream.nextOnChannel, outcome_bind_ok hsync, outcome_get_bind]
  by_cases hi : i < ts.length + 1
  · have hlength := hgrows.buffered.length_le
    have hfuel : ts.length + 1 - i < s₁.walkFuel i := by
      unfold walkFuel
      omega
    obtain ⟨s', hwalk, hgrows', hin⟩ := hgrows.buffered.nextFrom (by omega) hfuel (find?_stopFrom h.inner h.last hi ht)
    rw [if_neg (by omega)]
    exact ⟨s', hwalk, hgrows.trans hgrows', hin⟩
  · obtain rfl := stopFrom_outside (by omega) ht
    have hall : (s₁.tokens.size : Int) - 1 = ts.length := by omega
    rw [if_pos (by omega), hall]
    exact ⟨s₁, rfl, hgrows, by simp only [Token.placed_index]; omega⟩

/-! ## Reading all -/

theorem exists_stop (c : Int) (ts : List Token) (e : Token) (i : Nat) :
    ∃ t, (stops c ts e)[stopFrom (stops c ts e) i]? = some t := by
  have hpos : 0 < (stops c ts e).length := by simp [stops]
  exact ⟨_, List.getElem?_eq_getElem (by unfold stopFrom; omega)⟩

/-- A plain stream goes where it is sent, a tuned one to a stop. -/
theorem Buffered.adjust (h : Buffered ts e s) (i : Nat) :
    ∃ (j : Nat) (s' : TokenStream σ), (adjust (i : Int)).outcome s = (.ok (j : Int), s') ∧ Grows ts e s s' := by
  rw [TokenStream.adjust, outcome_get_bind]
  cases s.channel with
  | none => exact ⟨i, s, rfl, h.refl⟩
  | some c =>
    obtain ⟨t, ht⟩ := exists_stop c ts e i
    obtain ⟨s', hnext, hgrows, -⟩ := h.nextOnChannel ht
    obtain ⟨j, hj⟩ := List.mem_iff_getElem?.mp ((stops_sublist c ts e).subset (List.mem_of_getElem? ht))
    rw [index_numbered hj] at hnext
    exact ⟨j, s', hnext, hgrows⟩

theorem Buffered.lazyInit (h : Buffered ts e s) :
    ∃ s', lazyInit.outcome s = (.ok (), s') ∧ Buffered ts e s' ∧ s'.index ≠ -1 := by
  rw [TokenStream.lazyInit, outcome_get_bind]
  by_cases hindex : s.index = -1
  · obtain ⟨s₁, hsync, hgrows, -⟩ := h.sync 0
    obtain ⟨j, s₂, hadjust, hgrows'⟩ := hgrows.buffered.adjust 0
    rw [Int.natCast_zero] at hsync hadjust
    rw [if_pos hindex, setup, outcome_bind_ok hsync, outcome_bind_ok hadjust, Run.outcome_modify]
    exact ⟨_, rfl, hgrows'.buffered.moved j, by dsimp only; omega⟩
  · rw [if_neg hindex]
    exact ⟨s, rfl, h, hindex⟩

/-- A stream that has begun and read its end token. -/
structure Filled (ts : List Token) (e : Token) (s : TokenStream σ) : Prop where
  buffered : Buffered ts e s
  ended : s.fetchedEnd = true
  begun : s.index ≠ -1

theorem Buffered.fill (h : Buffered ts e s) : ∃ s', fill.outcome s = (.ok (), s') ∧ Filled ts e s' := by
  obtain ⟨s₁, hlazy, hbuffered, hbegun⟩ := h.lazyInit
  obtain ⟨s₂, hfetch, hgrows, hsize⟩ := hbuffered.fetch (TokenSource.bound s₁.source)
  have hlength := hbuffered.length_le
  refine ⟨s₂, ?_, hgrows.buffered, hgrows.buffered.fetchedEnd_iff.mpr (by omega), ?_⟩
  · rw [TokenStream.fill, outcome_bind_ok hlazy, outcome_get_bind, outcome_bind_ok hfetch,
      Run.outcome_pure]
  · rw [hgrows.index]
    exact hbegun

end TokenStream

end NimbleLang
