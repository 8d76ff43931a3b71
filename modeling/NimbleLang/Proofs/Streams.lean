import NimbleLang.Proofs.Cursors
import NimbleLang.Proofs.Scanning
import NimbleLang.Token.Supply

/-!
Token streams whose tokens are all on the first channel. Such a stream reads a `Tape`: its buffer is a beginning of the tape, and
its supply hands out the rest, whatever becomes of what the supply has noted (`TokenStream.Reading`). Every function on streams
leaves it so, and only ever adds to the buffer (`Further`). The second half of the module says where the functions used by a
parser leave the position; most of it is read off the cursor that a stream is.
-/

namespace NimbleLang

open Run (outcome_bind_ok outcome_get_bind)
open TokenSource (Yields)

/-! ## Tapes -/

/-- The tokens that a stream is to read, all on the first channel: so many, and then the end token. -/
structure Tape where
  inner : List Token
  last : Token
  unended : ∀ t ∈ inner, t.isEof = false
  ended : last.isEof = true
  first : ∀ t ∈ inner ++ [last], t.channel = 0

namespace Tape

/-- The tokens as a stream numbers them. -/
def tokens (o : Tape) : List Token := numbered (o.inner ++ [o.last])

/-- The token at a place, if there is one. -/
def token? (o : Tape) (k : Nat) : Option Token := o.tokens[k]?

/-- The type of the token at a place, if there is one. -/
def type (o : Tape) (k : Nat) : Int := ((o.token? k).map Token.type).getD 0

/-- The place after a token: the end token is not passed. -/
def after (k : Nat) (t : Token) : Nat := if t.isEof then k else k + 1

/-- The tokens from one place to another. -/
inductive Spells (o : Tape) : Nat → List Token → Nat → Prop
  | nil (k : Nat) : Spells o k [] k
  | cons {k k' : Nat} {t : Token} {ts : List Token} : o.token? k = some t → Spells o (after k t) ts k' → Spells o k (t :: ts) k'

variable {o : Tape}

theorem Spells.append {k k' k'' : Nat} {ts us : List Token} (h : o.Spells k ts k') (h' : o.Spells k' us k'') :
    o.Spells k (ts ++ us) k'' := by
  induction h with
  | nil => exact h'
  | cons ht _ ih => exact .cons ht (ih h')

/-- A stream on the first channel stops at every token. -/
theorem stops_eq : TokenStream.stops 0 o.inner o.last = o.tokens := by
  have hall : (numbered o.inner).filter (·.channel = 0) = numbered o.inner := by
    refine List.filter_eq_self.mpr fun t ht => decide_eq_true ?_
    obtain ⟨u, hu, i, rfl⟩ := TokenStream.mem_numbered ht
    exact o.first u (List.mem_append_left _ hu)
  rw [TokenStream.stops, hall, tokens, numbered_concat]

theorem token_channel {k : Nat} {t : Token} (h : o.token? k = some t) : t.channel = 0 := by
  obtain ⟨u, hu, i, rfl⟩ := TokenStream.mem_numbered (List.mem_of_getElem? h)
  exact o.first u hu

end Tape

/-! ## Supplies -/

namespace Supply

/-- The supply hands out some tokens and then an end token, whatever it has noted. It blames no token. -/
inductive Hands : Supply → List Token → Token → Prop
  | scanned {command : Command} {source : Source} {i : Nat} {s : Scan.Scanner} {j j' : Journal} {ps : List Scan.Piece} :
      Grammar.Between command source i s → ¬s.journal.Marred → Grammar.Course command source i j ps j' →
      Hands (.scanned s) (Scan.tokensOf ps) (Grammar.endToken source)
  | listed {l : Listed} {ts : List Token} {e : Token} : Yields (Supply.listed l) ts e → Hands (.listed l) ts e

variable {a : Supply} {ts : List Token} {t e : Token}

/-- Nothing was noted since the last time. -/
def Drained (a : Supply) : Prop := a.drain.2 = a ∧ ∀ j : Journal, j.append a.drain.1 = j

theorem drained_drain (a : Supply) : a.drain.2.Drained := by
  cases a
  all_goals exact ⟨rfl, fun j => by simp [drain, Journal.append, Journal.blank]⟩

theorem drained_scanned {s : Scan.Scanner} (h : s.journal = {}) : (Supply.scanned s).Drained := by
  obtain ⟨⟩ := s
  subst h
  exact ⟨rfl, fun j => by simp [drain, Journal.append]⟩

theorem not_marred_listed (l : Listed) : ¬(Supply.listed l).drain.1.Marred := fun ⟨_, hr, _⟩ => nomatch Array.mem_def.mp hr

/-- A scanner hands out the tokens among the pieces of its source. -/
theorem hands_scanner {source : Source} {keepBlanks : Bool} {j j' : Journal} {ps : List Scan.Piece}
    (hc : Grammar.Course (Grammar.blankCommand keepBlanks) source 0 j ps j') :
    (Supply.scanned (Grammar.scanner source keepBlanks)).Hands (Scan.tokensOf ps) (Grammar.endToken source) :=
  .scanned (Grammar.between_scanner source keepBlanks) (fun ⟨_, hr, _⟩ => nomatch Array.mem_def.mp hr) hc

theorem Hands.notes (h : a.Hands ts e) : ¬a.drain.1.Marred := by
  cases h with
  | scanned _ hnotes _ => exact hnotes
  | listed => exact not_marred_listed _

theorem Hands.drain (h : a.Hands ts e) : a.drain.2.Hands ts e := by
  cases h with
  | scanned hb _ hc => exact .scanned ⟨hb.marks, ⟨⟨hb.studied.above.network, hb.studied.above.traced⟩, hb.studied.faithful⟩,
      ⟨hb.placed.cursor, hb.placed.line, hb.placed.column⟩, hb.inside, hb.mode, hb.plain, hb.unended⟩ (Journal.not_marred_blank _) hc
  | listed h => exact .listed h

/-- What comes next is the first of the tokens, and the others are left; at last the end token comes. -/
theorem Hands.next (h : a.Hands ts e) : ∃ b, ¬b.drain.1.Marred ∧ ((ts = [] ∧ a.next = (.ok e, b) ∧ e.isEof = true) ∨
    ∃ t us, ts = t :: us ∧ a.next = (.ok t, b) ∧ t.isEof = false ∧ b.Hands us e) := by
  cases h with
  | @scanned command source i s j j' ps hb hnotes hc =>
    obtain ⟨himpersonal, hhands⟩ := hb.nextToken_eq hc
    have hnext : Supply.next (.scanned s) = ((Scan.nextToken.outcome s).1, .scanned (Scan.nextToken.outcome s).2) := rfl
    refine ⟨.scanned (Scan.nextToken.outcome s).2, mt himpersonal hnotes, ?_⟩
    rw [hnext]
    rcases hhands with ⟨t, n, rest, j₁, j₂, ht, heof, hb', hc', htokens⟩ | ⟨he, -, htokens⟩
    · exact .inr ⟨t, _, htokens, by rw [ht], heof, .scanned hb' (mt himpersonal hnotes) hc'⟩
    · exact .inl ⟨htokens, by rw [he], rfl⟩
  | @listed l _ _ h =>
    refine ⟨.listed l.next.2, not_marred_listed _, ?_⟩
    cases h with
    | ending hnext he _ =>
      obtain rfl : l.next.1 = e := Except.ok.inj (congrArg Prod.fst hnext)
      exact .inl ⟨rfl, rfl, he⟩
    | token hnext ht _ hrest =>
      obtain ⟨ht', rfl⟩ := Prod.mk.inj hnext
      obtain rfl := Except.ok.inj ht'
      exact .inr ⟨_, _, rfl, rfl, ht, .listed hrest⟩

theorem Hands.length_lt (h : a.Hands ts e) : ts.length < a.bound := by
  cases h with
  | @scanned command source i s j j' ps hb _ hc =>
    have hlength := hc.length_le
    have hfilter := List.length_filterMap_le Scan.Piece.token? ps
    have hcursor := hb.placed.cursor
    show _ < (s.cursor.source.size - s.cursor.index).toNat + 2
    rw [hcursor]
    dsimp only [Scan.tokensOf]
    omega
  | listed h => exact h.length_lt

theorem Hands.yields (h : a.Hands ts e) : Yields a ts e := by
  induction ts generalizing a with
  | nil =>
    obtain ⟨b, -, ⟨-, hnext, he⟩ | ⟨t, us, hts, -⟩⟩ := h.next
    · exact .ending hnext he h.length_lt
    · cases hts
  | cons t ts ih =>
    obtain ⟨b, -, ⟨hts, -⟩ | ⟨t', us, hts, hnext, ht, hrest⟩⟩ := h.next
    · cases hts
    · obtain ⟨rfl, rfl⟩ := List.cons.inj hts
      exact .token hnext ht h.length_lt (ih hrest)

end Supply

namespace TokenStream

/-- The stream holds a beginning of the tape, and its supply hands out the rest. -/
structure Reading (o : Tape) (s : TokenStream Supply) : Prop where
  channel : s.channel = some 0
  buffered : Buffered o.inner o.last s
  unread : s.fetchedEnd = false → s.source.Hands (o.inner.drop s.tokens.size) o.last
  notes : ¬s.source.drain.1.Marred

/-- The stream reads some tape. -/
def Legible (s : TokenStream Supply) : Prop := ∃ o, Reading o s

/-- A stream that holds at least what another one holds. -/
structure Further (o : Tape) (a b : TokenStream Supply) : Prop where
  reading : Reading o b
  tokens : a.tokens.toList <+: b.tokens.toList

variable {o : Tape} {s a : TokenStream Supply}

/-- A stream that has not read anything. -/
theorem Reading.fresh {source : Supply} (h : source.Hands o.inner o.last) : Reading o { source } :=
  ⟨rfl, .fresh h.yields _, fun _ => h, h.notes⟩

theorem Reading.legible (h : Reading o s) : s.Legible := ⟨o, h⟩

theorem Reading.further (h : Reading o s) : Further o s s := ⟨h, List.prefix_refl _⟩

theorem Further.trans {b c : TokenStream Supply} (hab : Further o a b) (hbc : Further o b c) : Further o a c :=
  ⟨hbc.reading, hab.tokens.trans hbc.tokens⟩

theorem Reading.moved (h : Reading o s) (i : Int) : Reading o { s with index := i } := ⟨h.channel, h.buffered.moved i, h.unread, h.notes⟩

theorem Reading.drained (h : Reading o s) : Reading o { s with source := s.source.drain.2 } where
  channel := h.channel
  buffered := { h.buffered with unread := fun hopen => ⟨(h.buffered.unread hopen).1, (h.unread hopen).drain.yields⟩ }
  unread hopen := (h.unread hopen).drain
  notes := by
    cases s.source with
    | scanned => exact Journal.not_marred_blank _
    | listed => exact Supply.not_marred_listed _

theorem Further.moved (h : Further o a s) (i : Int) : Further o a { s with index := i } := ⟨h.reading.moved i, h.tokens⟩

theorem Reading.push (h : Reading o s) (hopen : s.fetchedEnd = false) :
    ∃ t source, s.source.next = (.ok t, source) ∧ Further o s (s.push t source) := by
  obtain ⟨t, source, hnext, hbuffered⟩ := h.buffered.push hopen
  obtain ⟨b, hnotes, hhands⟩ := (h.unread hopen).next
  have hnext : s.source.next = (.ok t, source) := hnext
  refine ⟨t, source, hnext, ⟨h.channel, hbuffered, fun hunended => ?_, ?_⟩, by simp [TokenStream.push]⟩
  · rcases hhands with ⟨-, hlast, he⟩ | ⟨u, us, hdrop, hu, -, hrest⟩
    · obtain rfl := Except.ok.inj (Prod.mk.inj (hnext.symm.trans hlast)).1
      exact absurd (he.symm.trans hunended) (by decide)
    · rw [size_push, ← List.tail_drop, hdrop]
      exact (Prod.mk.inj (hu.symm.trans hnext)).2 ▸ hrest
  · rcases hhands with ⟨-, hlast, -⟩ | ⟨u, us, -, hu, -⟩
    · exact (Prod.mk.inj (hlast.symm.trans hnext)).2 ▸ hnotes
    · exact (Prod.mk.inj (hu.symm.trans hnext)).2 ▸ hnotes

/-! ## What the functions keep -/

theorem Further.fetchLoop (h : Further o a s) (hopen : s.fetchedEnd = false) (n k : Nat) :
    (fetchLoop n k).Ends s (fun _ s' => Further o a s' ∧ s'.index = s.index) fun _ _ => False := by
  induction n generalizing s k with
  | zero => exact ⟨h, rfl⟩
  | succ n ih =>
    obtain ⟨t, source, hnext, hpush⟩ := h.reading.push hopen
    unfold Run.Ends
    rw [fetchLoop_ok hnext]
    by_cases heof : t.isEof = true
    · rw [if_pos heof]
      exact ⟨h.trans hpush, rfl⟩
    · rw [if_neg heof]
      exact ih (h.trans hpush) (Bool.eq_false_iff.mpr heof) (k + 1)

theorem Further.fetch (h : Further o a s) (n : Nat) :
    (fetch n).Ends s (fun _ s' => Further o a s' ∧ s'.index = s.index) fun _ _ => False := by
  refine .after_get ?_
  by_cases hend : s.fetchedEnd = true
  · rw [if_pos hend]
    exact ⟨h, rfl⟩
  · rw [if_neg hend]
    exact h.fetchLoop (Bool.eq_false_iff.mpr hend) n 0

/-- An act that keeps something even where it fails, and fails soberly if it does. -/
abbrev Careful {α : Type} (I : TokenStream Supply → Prop) (act : Act Supply α) : Prop := act.Keeps I fun f s => f.Sober ∧ I s

theorem Careful.kept {α : Type} {I : TokenStream Supply → Prop} {act : Act Supply α} (h : Careful I act) (hs : I s) :
    I (act.outcome s).2 := by
  have hends := h s hs
  unfold Run.Ends at hends
  rcases hout : act.outcome s with ⟨f | x, s'⟩ <;> rw [hout] at hends
  · exact hends.2
  · exact hends

/-- What reading keeps is kept by all acts that look around. -/
def Lasting (I : TokenStream Supply → Prop) : Prop := ∀ n, Careful I (fetch n)

/-- What reading and moving keep is kept by all acts of a stream. -/
structure Stable (I : TokenStream Supply → Prop) : Prop where
  lasting : Lasting I
  moved : ∀ s i, I s → I { s with index := i }

theorem further_stable : Stable (Further o a) where
  lasting n _ h := (h.fetch n).imp (fun _ _ h => h.1) fun _ _ => False.elim
  moved _ i h := h.moved i

theorem legible_stable : Stable Legible where
  lasting n s h := by
    obtain ⟨o, ho⟩ := h
    exact (ho.further.fetch n).imp (fun _ _ h => h.1.reading.legible) fun _ _ => False.elim
  moved _ i h := by
    obtain ⟨o, ho⟩ := h
    exact (ho.moved i).legible

theorem joinTexts_sober {ts : List Token} {f : Fault} (h : joinTexts ts = .error f) : f.Sober := by
  induction ts with
  | nil => cases h
  | cons t ts ih =>
    unfold joinTexts at h
    split at h
    · cases h
    · rcases Fault.bind_eq_error.1 h with h | ⟨text, -, h⟩
      · exact Fault.sober_unless h trivial
      · rcases Fault.bind_eq_error.1 h with h | ⟨rest, -, h⟩
        · exact ih h
        · cases h

variable {I : TokenStream Supply → Prop}

theorem throw_careful {α : Type} {f : Fault} (hf : f.Sober) : Careful I (throw f : Act Supply α) := .throw fun _ h => ⟨hf, h⟩

theorem tokenAt_careful (i : Int) : Careful I (tokenAt i) := .bind .get fun _ => .lift fun _ h _ hs => ⟨Fault.sober_unless h trivial, hs⟩

theorem previousFrom_careful (channel : Int) (fuel : Nat) (i : Int) : Careful I (previousFrom channel fuel i) := by
  induction fuel generalizing i with
  | zero => exact .pure i
  | succ fuel ih => exact .ite (.pure i) (.bind (tokenAt_careful i) fun _ => .ite (.pure i) (ih (i - 1)))

theorem backFrom_careful (channel : Int) (k : Nat) (i : Int) : Careful I (backFrom channel k i) := by
  induction k generalizing i with
  | zero => exact .pure i
  | succ k ih => exact .bind (previousFrom_careful channel _ (i - 1)) ih

theorem lookBack_careful (k : Int) : Careful I (lookBack k) := by
  refine .bind .get fun s => ?_
  cases s.channel with
  | none => exact .ite (.pure none) (.bind (tokenAt_careful _) fun t => .pure (some t))
  | some c =>
    exact .ite (.pure none) (.bind (backFrom_careful c _ _) fun i =>
      .ite (.pure none) (.bind (tokenAt_careful i) fun t => .pure (some t)))

section Lasting

variable (hI : Lasting I)
include hI

theorem sync_careful (i : Int) : Careful I (sync i) :=
  .bind .get fun _ => .ite (.bind (hI _) fun _ => .pure _) (.pure _)

theorem nextFrom_careful (channel : Int) (fuel : Nat) (i : Int) : Careful I (nextFrom channel fuel i) := by
  induction fuel generalizing i with
  | zero => exact throw_careful trivial
  | succ fuel ih =>
    exact .bind (tokenAt_careful i) fun _ => .ite (.pure i) (.bind (sync_careful hI (i + 1)) fun _ => ih (i + 1))

theorem nextOnChannel_careful (i channel : Int) : Careful I (nextOnChannel i channel) :=
  .bind (sync_careful hI i) fun _ => .bind .get fun _ => .ite (.pure _) (nextFrom_careful hI channel _ i)

theorem adjust_careful (i : Int) : Careful I (adjust i) := by
  refine .bind .get fun s => ?_
  cases s.channel with
  | none => exact .pure i
  | some c => exact nextOnChannel_careful hI i c

theorem aheadFrom_careful (channel : Int) (k : Nat) (i : Int) : Careful I (aheadFrom channel k i) := by
  induction k generalizing i with
  | zero => exact .pure i
  | succ k ih =>
    exact .bind (.bind (sync_careful hI (i + 1)) fun _ => .ite (nextOnChannel_careful hI (i + 1) channel) (.pure i)) ih

variable (hbegun : Careful I lazyInit)
include hbegun

theorem look_begun (k : Int) : Careful I (look k) := by
  refine .bind hbegun fun _ => .ite (.pure none) (.ite (lookBack_careful _) ?_)
  refine .bind .get fun s => ?_
  cases s.channel with
  | none => exact .bind (sync_careful hI _) fun _ => .bind .get fun _ => .bind (tokenAt_careful _) fun t => .pure (some t)
  | some c => exact .bind (aheadFrom_careful hI c _ _) fun i => .bind (tokenAt_careful i) fun t => .pure (some t)

theorem lookType_begun (k : Int) : Careful I (lookType k) := by
  refine .bind (look_begun hI hbegun k) fun t => ?_
  cases t with
  | none => exact throw_careful trivial
  | some t => exact .pure t.type

theorem fill_begun : Careful I fill :=
  .bind hbegun fun _ => .bind .get fun _ => .bind (hI _) fun _ => .pure ()

theorem text_begun (start stop : Option Int) : Careful I (text start stop) :=
  .bind (fill_begun hI hbegun) fun _ => .bind .get fun _ => .ite (.pure "") (.lift fun _ h _ hs => ⟨joinTexts_sober h, hs⟩)

end Lasting

section Stable

variable (hI : Stable I)
include hI

theorem moveTo_careful (i : Int) : Careful I (modify fun s => { s with index := i }) := .modify fun s h => hI.moved s i h

theorem setup_careful : Careful I setup :=
  .bind (sync_careful hI.lasting 0) fun _ => .bind (adjust_careful hI.lasting 0) (moveTo_careful hI)

theorem lazyInit_careful : Careful I lazyInit := .bind .get fun _ => .ite (setup_careful hI) (.pure ())

theorem seek_careful (i : Int) : Careful I (seek i) :=
  .bind (lazyInit_careful hI) fun _ => .bind (adjust_careful hI.lasting i) (moveTo_careful hI)

theorem read_careful (i : Int) : Careful I (read i) := .bind (lazyInit_careful hI) fun _ => tokenAt_careful i

theorem look_careful (k : Int) : Careful I (look k) := look_begun hI.lasting (lazyInit_careful hI) k

theorem lookType_careful (k : Int) : Careful I (lookType k) := lookType_begun hI.lasting (lazyInit_careful hI) k

theorem consume_careful : Careful I consume := by
  have hrest : Careful I (do
      let i := (← get).index
      if ← sync (i + 1) then
        let i ← adjust (i + 1)
        modify fun s => { s with index := i }) :=
    .bind .get fun _ => .bind (sync_careful hI.lasting _) fun _ => .ite (.bind (adjust_careful hI.lasting _) (moveTo_careful hI)) (.pure ())
  refine .bind .get fun s => .ite (.bind (lookType_careful hI 1) fun t => .ite ?_ hrest) hrest
  exact .bind (throw_careful trivial) fun _ => hrest

theorem text_careful (start stop : Option Int) : Careful I (text start stop) :=
  text_begun hI.lasting (lazyInit_careful hI) start stop

end Stable

/-! ## Positions -/

/-- The stream stands at place `k`, before the token `t`. -/
structure Standing (o : Tape) (s : TokenStream Supply) (k : Nat) (t : Token) : Prop where
  reading : Reading o s
  index : s.index = k
  token : s.tokens[k]? = some t

variable {k : Nat} {t : Token}

theorem Reading.token? (h : Reading o s) (ht : s.tokens[k]? = some t) : o.token? k = some t :=
  (h.buffered.token (lt_size_of_token ht)).symm.trans ht

theorem Reading.type (h : Reading o s) (ht : s.tokens[k]? = some t) : o.type k = t.type := by
  rw [Tape.type, h.token? ht]
  rfl

theorem Further.token {b : TokenStream Supply} (h : Further o a b) (ht : a.tokens[k]? = some t) : b.tokens[k]? = some t := by
  obtain ⟨more, hmore⟩ := h.tokens
  rw [← Array.getElem?_toList] at ht ⊢
  rw [← hmore, List.getElem?_append_left (List.getElem?_eq_some_iff.mp ht).1]
  exact ht

/-- On the first channel no token is passed over. -/
theorem nextOnChannel_inside (hs : Reading o s) (ht : s.tokens[k]? = some t) :
    (nextOnChannel (k : Int) 0).outcome s = (.ok (k : Int), s) := by
  have hk := lt_size_of_token ht
  have hchannel := Tape.token_channel (hs.token? ht)
  rw [nextOnChannel, outcome_bind_ok (sync_inside (by omega)), outcome_get_bind, if_neg (by omega)]
  rw [walkFuel, show s.tokens.size + TokenSource.bound s.source + (-(k : Int)).toNat + 2 =
    s.tokens.size + TokenSource.bound s.source + (-(k : Int)).toNat + 1 + 1 from rfl, nextFrom,
    outcome_bind_ok (tokenAt_inside ht), if_pos (by simp [hchannel])]
  rfl

theorem adjust_inside (hs : Reading o s) (ht : s.tokens[k]? = some t) :
    (adjust (k : Int)).outcome s = (.ok (k : Int), s) := by
  rw [adjust, outcome_get_bind]
  simp only [hs.channel]
  exact nextOnChannel_inside hs ht

/-- A stream can be sent to every token it holds. -/
theorem seek_inside (hs : Reading o s) (ht : s.tokens[k]? = some t) :
    (seek (k : Int)).outcome s = (.ok (), { s with index := k }) := by
  have hlazy : ∃ i, lazyInit.outcome s = (.ok (), { s with index := i }) := by
    rw [lazyInit, outcome_get_bind]
    by_cases hi : s.index = -1
    · have h0 : ∃ u, s.tokens[0]? = some u := ⟨_, Array.getElem?_eq_getElem (Nat.zero_lt_of_lt (lt_size_of_token ht))⟩
      obtain ⟨u, hu⟩ := h0
      have hfirst : (adjust 0).outcome s = (.ok 0, s) := adjust_inside hs hu
      have hsize := lt_size_of_token hu
      refine ⟨0, ?_⟩
      rw [if_pos hi, setup, outcome_bind_ok (sync_inside (by omega)), outcome_bind_ok hfirst]
      rfl
    · rw [if_neg hi]
      exact ⟨s.index, rfl⟩
  obtain ⟨i, hi⟩ := hlazy
  have hadjust := adjust_inside (s := { s with index := i }) (hs.moved i) ht
  rw [seek, outcome_bind_ok hi, outcome_bind_ok hadjust]
  rfl

section

variable (h : Standing o s k t)
include h

theorem Standing.lazyInit : lazyInit.outcome s = (.ok (), s) := by
  have hindex := h.index
  rw [TokenStream.lazyInit, outcome_get_bind, if_neg (by omega)]
  rfl

theorem Standing.look : (look 1).outcome s = (.ok (some t), s) := by
  rw [TokenStream.look, outcome_bind_ok h.lazyInit, if_neg (by decide), if_neg (by decide),
    outcome_get_bind]
  simp only [h.reading.channel, h.index]
  rw [show ((1 : Int) - 1).toNat = 0 from rfl, aheadFrom, outcome_bind_ok (Run.outcome_pure _ _),
    outcome_bind_ok (tokenAt_inside h.token)]
  rfl

theorem Standing.lookType : (lookType 1).outcome s = (.ok t.type, s) := by
  rw [TokenStream.lookType, outcome_bind_ok h.look]
  rfl

/-- Looking around further away reads more at most. -/
theorem Standing.around {α : Type} {act : Act Supply α} (hact : ∀ {I}, Lasting I → Careful I TokenStream.lazyInit → Careful I act) :
    act.Ends s (fun _ s' => Standing o s' k t) fun f s' => f.Sober ∧ Standing o s' k t := by
  have hstands (s' : TokenStream Supply) (hs' : Further o s s' ∧ s'.index = s.index) : Standing o s' k t :=
    ⟨hs'.1.reading, hs'.2.trans h.index, hs'.1.token h.token⟩
  have hlasting : Lasting fun s' => Further o s s' ∧ s'.index = s.index := fun n s' hs' =>
    (hs'.1.fetch n).imp (fun _ _ h => ⟨h.1, h.2.trans hs'.2⟩) fun _ _ => False.elim
  refine (hact hlasting ?_ s ⟨h.reading.further, rfl⟩).imp (fun _ s' h => hstands s' h) fun _ s' h => ⟨h.1, hstands s' h.2⟩
  intro s' hs'
  exact .of_ok (hstands s' hs').lazyInit hs'

/-- There are tokens all the way to where the stream stands. -/
theorem Standing.token_before {k₀ : Nat} (hk : k₀ ≤ k) : ∃ t₀, s.tokens[k₀]? = some t₀ :=
  ⟨_, Array.getElem?_eq_getElem (Nat.lt_of_le_of_lt hk (lt_size_of_token h.token))⟩

theorem Standing.read {k₀ : Nat} {t₀ : Token} (ht : s.tokens[k₀]? = some t₀) : (read (k₀ : Int)).outcome s = (.ok t₀, s) := by
  rw [TokenStream.read, outcome_bind_ok h.lazyInit, tokenAt_inside ht]

theorem Standing.atStop : AtStop 0 o.inner o.last s k t := by
  have htoken := h.reading.token? h.token
  have hindex := index_numbered htoken
  exact ⟨h.reading.buffered, h.reading.channel, by rw [Tape.stops_eq]; exact htoken, h.index.trans hindex.symm,
    by rw [hindex]; exact Int.ofNat_lt.mpr (lt_size_of_token h.token)⟩

/-- Looking back changes nothing, and finds the token before or none. -/
theorem Standing.lookBack : (TokenStream.look (-1)).outcome s = (.ok (if k = 0 then none else s.tokens[k - 1]?), s) := by
  have hback := h.atStop.lookBack 0
  rw [Int.natCast_zero, Int.zero_add, Tape.stops_eq] at hback
  rw [TokenStream.look, outcome_bind_ok h.lazyInit, if_neg (by decide), if_pos (by decide), Int.neg_neg, hback]
  by_cases hk : k = 0
  · rw [if_pos (by omega), if_pos hk]
  · have hbefore := h.reading.buffered.token (Nat.lt_of_le_of_lt (Nat.sub_le k 1) (lt_size_of_token h.token))
    rw [if_neg (by omega), if_neg hk, hbefore]
    rfl

end

theorem AtStop.standing (h : AtStop 0 o.inner o.last s k t) (hs : Reading o s) : Standing o s k t := by
  have hstop := h.stop
  rw [Tape.stops_eq] at hstop
  have hindex := index_numbered hstop
  have hin := h.inside
  have hsize : k < s.tokens.size := by omega
  exact ⟨hs, h.index.trans hindex, (hs.buffered.token hsize).trans hstop⟩

/-- Looking further ahead finds the token there, or the end token. -/
theorem Standing.lookAhead (h : Standing o s k t) (n : Nat) : ∃ u s', o.token? (min (k + n) (o.tokens.length - 1)) = some u ∧
    (TokenStream.lookType (n + 1)).outcome s = (.ok u.type, s') ∧ Standing o s' k t := by
  have hlength := length_stops_pos 0 o.inner o.last
  have hu := List.getElem?_eq_getElem (l := stops 0 o.inner o.last) (show min (k + n) ((stops 0 o.inner o.last).length - 1) < _ by omega)
  obtain ⟨s', t', hlook, hat⟩ := (Stands.atStop h.atStop).lookType n hu
  have hs' := (lookType_careful further_stable _ s h.reading.further).ok hlook
  cases Option.some.inj (hat.stop.symm.trans h.atStop.stop)
  refine ⟨_, s', ?_, hlook, hat.standing hs'.reading⟩
  rw [Tape.token?, ← Tape.stops_eq]
  exact hu

/-- After the end token nothing comes but the end token. -/
theorem Standing.lookAtEnd (h : Standing o s k t) (heof : t.isEof = true) (n : Nat) :
    ∃ s', (TokenStream.lookType (n + 1)).outcome s = (.ok t.type, s') ∧ Standing o s' k t := by
  obtain ⟨u, s', hu, hlook, hs'⟩ := h.lookAhead n
  have hlast := (isEof_iff_last o.unended o.ended h.atStop.stop).mp heof
  rw [Tape.stops_eq] at hlast
  have hplace : min (k + n) (o.tokens.length - 1) = k := by omega
  rw [hplace, h.reading.token? h.token] at hu
  exact ⟨s', Option.some.inj hu ▸ hlook, hs'⟩

/-- The first look puts the stream before its first token. -/
theorem look_first (hs : Reading o s) (hindex : s.index = -1) :
    ∃ t s', (look 1).outcome s = (.ok (some t), s') ∧ Further o s s' ∧ Standing o s' 0 t := by
  obtain ⟨u, hu⟩ : ∃ u, (stops 0 o.inner o.last)[min (0 + 0) ((stops 0 o.inner o.last).length - 1)]? = some u :=
    ⟨_, List.getElem?_eq_getElem (by have := length_stops_pos 0 o.inner o.last; omega)⟩
  obtain ⟨s', t, hlook, hat⟩ := (Stands.unread hs.buffered hs.channel hindex).look_ahead 0 hu
  rw [Int.natCast_zero, Int.zero_add] at hlook
  rw [Nat.zero_add, Nat.zero_min, hat.stop] at hu
  have hfurther := (look_careful further_stable 1 s hs.further).ok hlook
  exact ⟨t, s', hu ▸ hlook, hfurther, hat.standing hfurther.reading⟩

/-- Moving over a token leads to the next one; there is one, because the end token comes last. -/
theorem Standing.consume (h : Standing o s k t) (heof : t.isEof = false) :
    ∃ t' s', consume.outcome s = (.ok (), s') ∧ Further o s s' ∧ Standing o s' (k + 1) t' := by
  have hlast := isEof_iff_last o.unended o.ended h.atStop.stop
  have hlt := (List.getElem?_eq_some_iff.mp h.atStop.stop).1
  have hmore : k + 1 < (stops 0 o.inner o.last).length := by
    refine Nat.lt_of_le_of_ne hlt fun heq => ?_
    rw [hlast.mpr heq] at heof
    cases heof
  obtain ⟨s', u, hconsume, hat⟩ := (Stands.atStop h.atStop).consume_inside hmore
  have hfurther := (consume_careful further_stable s h.reading.further).ok hconsume
  exact ⟨u, s', hconsume, hfurther, hat.standing hfurther.reading⟩

end TokenStream

end NimbleLang
