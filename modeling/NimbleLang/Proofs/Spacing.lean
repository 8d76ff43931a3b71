import NimbleLang.Proofs.Parses

/-!
Complaints are spaced. Once the parser has complained, it stays silent until it has moved over a token; so no two complaints
are made at one place of the stream, and each is made further on than the one before (`Grammar.complaints_ascend`).

The parser is silent as long as it is recovering, and recovering ends when a token is matched. The one token that it does not
move over when it matches it is the end token. The end token is matched only at the end of a script, where nothing is left to
complain about; dropping a token ends recovering as well, but the end token is never dropped, because it is not among the
tokens that are expected in the states where tokens are dropped (`Session.Shut`).
-/

namespace NimbleLang

open Grammar

/-- The places of complaints, the last one first, when the parser stands at `k`. -/
structure Spaced (k : Nat) (recovering : Bool) (places : List Int) : Prop where
  ascending : places.Pairwise (· > ·)
  behind : ∀ i ∈ places, 0 ≤ i ∧ i ≤ k ∧ (recovering = false → i < k)

namespace Spaced

variable {k : Nat} {b : Bool} {places : List Int}

theorem nil (k : Nat) (b : Bool) : Spaced k b [] := ⟨.nil, by simp⟩

theorem loose (h : Spaced k b places) : Spaced k true places :=
  ⟨h.ascending, fun i hi => ⟨(h.behind i hi).1, (h.behind i hi).2.1, nofun⟩⟩

theorem weaken (h : Spaced k false places) (b : Bool) : Spaced k b places :=
  ⟨h.ascending, fun i hi => ⟨(h.behind i hi).1, (h.behind i hi).2.1, fun _ => (h.behind i hi).2.2 rfl⟩⟩

theorem moved (h : Spaced k b places) : Spaced (k + 1) false places := by
  refine ⟨h.ascending, fun i hi => ?_⟩
  have := h.behind i hi
  omega

/-- A complaint that is made while the parser is not recovering stands behind all others. -/
theorem complain (h : Spaced k false places) : Spaced k true ((k : Int) :: places) := by
  refine ⟨List.pairwise_cons.mpr ⟨fun i hi => (h.behind i hi).2.2 rfl, h.ascending⟩, fun i hi => ?_⟩
  rcases List.mem_cons.mp hi with rfl | hi
  · exact ⟨by omega, by omega, nofun⟩
  · exact h.loose.behind i hi

end Spaced

namespace Session

open Lookahead (Memory)

/-- The session is in order: it is in state `n` and has complained at some places. -/
structure Orderly (o : Tape) (n : Int) (recovering : Bool) (places : List Int) (s : Session) : Prop where
  net : s.net = States.network
  memory : Memory.Faithful States.network s.lookahead
  attached : s.attached = true
  undiagnosed : s.diagnosis = none
  quiet : s.traces = {}
  state : s.state = n
  recovering : s.recovering = recovering
  places : s.errorsAt = places

/-- The session is in order and stands at place `k`. -/
structure Rests (o : Tape) (k : Nat) (n : Int) (recovering : Bool) (places : List Int) (s : Session) : Prop extends
    Orderly o n recovering places s where
  standing : ∃ t, TokenStream.Standing o s.stream k t

variable {o : Tape} {k k' : Nat} {n : Int} {b : Bool} {places : List Int} {s : Session} {α : Type} {E : Fault → Session → Prop}

/-! ## Looking around -/

theorem Orderly.recogniser (h : Orderly o n b places s) {r : Recogniser} (hrest : r.bare = s.inside.bare)
    (hplaces : r.errorsAt = places) {t : Token} (hs : TokenStream.Standing o r.stream k t) :
    Rests o k n b places { s with toRecogniser := r } where
  net := (congrArg Recogniser.net hrest).trans h.net
  memory := by
    have hmemory := congrArg Recogniser.lookahead hrest
    exact hmemory ▸ h.memory
  attached := (congrArg Recogniser.attached hrest).trans h.attached
  undiagnosed := (congrArg Recogniser.diagnosis hrest).trans h.undiagnosed
  quiet := (congrArg Recogniser.traces hrest).trans h.quiet
  state := (congrArg Recogniser.state hrest).trans h.state
  recovering := h.recovering
  places := hplaces
  standing := ⟨t, hs⟩

theorem onStream_rests (h : Orderly o n b places s) {act : TokenStream.Act Supply α} {P : α → Prop}
    (hact : act.Ends s.stream (fun a stream => P a ∧ ∃ t, TokenStream.Standing o stream k t)
      fun _ stream => ∃ t, TokenStream.Standing o stream k t) :
    (onStream act).Ends s (fun a s' => P a ∧ Rests o k n b places s') fun _ => Rests o k n b places := by
  refine onRecogniser_ends ?_
  unfold Run.Ends Recogniser.onStream
  have hattached : s.inside.attached = true := h.attached
  have hstream : s.inside.stream = s.stream := rfl
  rw [Run.outcome_ofOutcome, if_pos hattached, hstream]
  rcases hout : act.outcome s.stream with ⟨f | x, stream⟩
  · obtain ⟨t, ht⟩ := hact.error hout
    exact h.recogniser rfl h.places ⟨ht.reading.drained, ht.index, ht.token⟩
  · obtain ⟨hx, t, ht⟩ := hact.ok hout
    exact ⟨hx, h.recogniser rfl h.places ⟨ht.reading.drained, ht.index, ht.token⟩⟩

instance : Steady (Rests o k n b places) where
  framed {s s'} heq _ hrecovering h := by
    refine ⟨⟨(congrArg Recogniser.net heq).trans h.net, ?_, (congrArg Recogniser.attached heq).trans h.attached,
      (congrArg Recogniser.diagnosis heq).trans h.undiagnosed, (congrArg Recogniser.traces heq).trans h.quiet,
      (congrArg Recogniser.state heq).trans h.state, hrecovering.trans h.recovering,
      (congrArg Recogniser.errorsAt heq).trans h.places⟩, ?_⟩
    · rw [congrArg Recogniser.lookahead heq]
      exact h.memory
    · rw [congrArg Recogniser.stream heq]
      exact h.standing
  around hact s h := by
    obtain ⟨t, ht⟩ := h.standing
    refine (onStream_rests (P := fun _ => True) h.toOrderly ((ht.around hact).imp ?_ ?_)).imp (fun _ _ h => h.2) fun _ _ h => h
    · exact fun _ _ hs => ⟨trivial, t, hs⟩
    · exact fun _ _ hs => ⟨t, hs.2⟩
  print line s h := by
    obtain ⟨t, ht⟩ := h.standing
    exact onRecogniser_ends (.of_ok (Run.outcome_modify _ _) (h.recogniser rfl h.places ht))
  remember {s m} hstep h := by
    rw [h.net] at hstep
    exact ⟨{ h with memory := h.memory.step network_plain hstep }, h.standing⟩

theorem currentToken_rests (h : Rests o k n b places s) :
    currentToken.Ends s (fun t s' => o.token? k = some t ∧ Rests o k n b places s') E := by
  obtain ⟨t, ht⟩ := h.standing
  refine onRecogniser_ends (.of_outcome (Run.outcome_bind_ok
    (Recogniser.onStream_ok (r := s.inside) h.attached ht.look) _) ?_)
  exact .of_ok (Run.outcome_lift _ _) ⟨ht.reading.token? ht.token, h.recogniser rfl h.places ⟨ht.reading.drained, ht.index, ht.token⟩⟩

theorem nextType_rests (h : Rests o k n b places s) :
    nextType.Ends s (fun x s' => x = o.type k ∧ Rests o k n b places s') fun _ => Rests o k n b places := by
  obtain ⟨t, ht⟩ := h.standing
  exact onStream_rests h.toOrderly (.of_ok ht.lookType ⟨(ht.reading.type ht.token).symm, t, ht⟩)

/-- A decision leads back to where it was taken. -/
theorem choose_rests (decision : Int) : Lasts (Rests o k n b places) (choose decision) := by
  intro s h
  obtain ⟨t, ht⟩ := h.standing
  refine .after_get (onRecogniser_ends ?_)
  cases hn : Indexing.wrap? s.inside.automata.size decision with
  | none =>
    unfold Run.Ends
    rw [Predict.choose_absent (r := s.inside) h.quiet hn]
    exact h.recogniser rfl h.places ht
  | some m =>
    refine (Predict.choose_returns (r := s.inside) h.quiet h.attached hn ht _).imp ?_ ?_
    all_goals
      intro _ r hr
      have hstream := hr.1.stream o ht.reading
      exact h.recogniser hr.1.rest ((hr.1.places h.undiagnosed).trans h.places) ⟨hstream.reading, hr.2.1, hstream.token ht.token⟩

/-! ## Moving -/

/-- The session rests somewhere, and `P` holds of where it is and what it has complained about. -/
def Led (o : Tape) (P : Nat → Int → Bool → List Int → Prop) (s : Session) : Prop :=
  ∃ k n b places, Rests o k n b places s ∧ P k n b places

variable {P Q : Nat → Int → Bool → List Int → Prop}

theorem Led.imp (h : Led o P s) (hPQ : ∀ k n b places, P k n b places → Q k n b places) : Led o Q s := by
  obtain ⟨k, n, b, places, hs, hP⟩ := h
  exact ⟨k, n, b, places, hs, hPQ k n b places hP⟩

theorem Led.lasts {act : Act α} (h : ∀ k n b places, Lasts (Rests o k n b places) act) : Lasts (Led o P) act := by
  intro s hs
  obtain ⟨k, n, b, places, hs, hP⟩ := hs
  exact (h k n b places s hs).imp (fun _ _ h => ⟨k, n, b, places, h, hP⟩) fun _ _ h => ⟨k, n, b, places, h, hP⟩

instance : Steady (Led o P) where
  framed heq hbail hrecovering h := by
    obtain ⟨k, n, b, places, hs, hP⟩ := h
    exact ⟨k, n, b, places, Steady.framed heq hbail hrecovering hs, hP⟩
  around hact := Led.lasts fun _ _ _ _ => Steady.around hact
  print line := Led.lasts fun _ _ _ _ => Steady.print line
  remember hstep h := by
    obtain ⟨k, n, b, places, hs, hP⟩ := h
    exact ⟨k, n, b, places, Steady.remember hstep hs, hP⟩

/-- All is well at a place. -/
abbrev Paced (o : Tape) (k : Nat) (n : Int) : Session → Prop :=
  Led o fun k' n' b places => k' = k ∧ n' = n ∧ Spaced k b places

/-- All complaints were made before the place. -/
abbrev Cleared (o : Tape) (k : Nat) (n : Int) : Session → Prop :=
  Led o fun k' n' _ places => k' = k ∧ n' = n ∧ Spaced k false places

/-- All is well. -/
abbrev Level (o : Tape) : Session → Prop := Led o fun k _ b places => Spaced k b places

/-- Complaints were made one after the other; but the next one might be made at the place of the last one. -/
abbrev Loose (o : Tape) : Session → Prop := Led o fun k _ _ places => Spaced k true places

theorem Paced.level (h : Paced o k n s) : Level o s := h.imp fun _ _ _ _ h => h.1 ▸ h.2.2

theorem Cleared.paced (h : Cleared o k n s) : Paced o k n s := h.imp fun _ _ b _ h => ⟨h.1, h.2.1, h.2.2.weaken b⟩

theorem Level.loose (h : Level o s) : Loose o s := h.imp fun _ _ _ _ h => Spaced.loose h

/-- Consuming moves over the token, unless it is the end token. -/
theorem consume_rests (h : Rests o k n b places s) (hk : k' = if o.type k = Token.eof then k else k + 1) :
    consume.Ends s (fun _ => Rests o k' n b places) fun _ => Rests o k' n b places := by
  refine (currentToken_rests h).bind ?_
  intro t s₁ ht
  obtain ⟨u, hu⟩ := ht.2.standing
  have hsame : u = t := Option.some.inj ((hu.reading.token? hu.token).symm.trans ht.1)
  subst hsame
  have htype := hu.reading.type hu.token
  by_cases heof : u.isEof = true
  · have hend : o.type k = Token.eof := htype.trans (beq_iff_eq.mp heof)
    rw [if_pos hend] at hk
    subst hk
    rw [if_neg (by simp [heof])]
    refine Run.Keeps.bind .get (fun s => .ite ?_ (.pure _)) s₁ ht.2
    exact .bind (modifyTop_indelible _) fun _ => .bind (announceLeaf_indelible _) fun _ => .pure _
  · have hopen : o.type k ≠ Token.eof := fun hend => heof (beq_iff_eq.mpr (htype.symm.trans hend))
    rw [if_neg hopen] at hk
    subst hk
    rw [if_pos (by simp [heof])]
    obtain ⟨t', stream, hconsume, -, ht'⟩ := hu.consume (Bool.eq_false_iff.mpr heof)
    have hmove := onStream_rests (P := fun _ => True) ht.2.toOrderly (.of_ok hconsume ⟨trivial, t', ht'⟩)
    refine hmove.bind fun _ s₂ h₂ => ?_
    refine Run.Keeps.bind .get (fun s => .ite ?_ (.pure _)) s₂ h₂.2
    exact .bind (modifyTop_indelible _) fun _ => .bind (announceLeaf_indelible _) fun _ => .pure _

theorem consume_cleared (h : Rests o k n b places s) (hspaced : Spaced k true places) (hk : o.type k ≠ Token.eof) :
    consume.Ends s (fun _ => Cleared o (k + 1) n) fun _ => Cleared o (k + 1) n :=
  (consume_rests h (if_neg hk).symm).imp (fun _ _ h => ⟨_, _, _, _, h, rfl, rfl, hspaced.moved⟩)
    fun _ _ h => ⟨_, _, _, _, h, rfl, rfl, hspaced.moved⟩

theorem consume_level : Lasts (Level o) consume := by
  intro s hs
  obtain ⟨k, n, b, places, h, hspaced⟩ := hs
  by_cases hk : o.type k = Token.eof
  · exact (consume_rests h (if_pos hk).symm).imp (fun _ _ h => ⟨_, _, _, _, h, hspaced⟩) fun _ _ h => ⟨_, _, _, _, h, hspaced⟩
  · exact (consume_cleared h hspaced.loose hk).imp (fun _ _ h => h.paced.level) fun _ _ h => h.paced.level

theorem dropUntil_level (set_ : IntervalSet) (fuel : Nat) : Lasts (Level o) (dropUntil set_ fuel) := by
  induction fuel with
  | zero => exact throw_indelible _
  | succ fuel ih => exact .bind nextType_indelible fun _ => .ite (.bind consume_level fun _ => ih) (.pure _)

theorem consumeUntil_level (set_ : IntervalSet) : Lasts (Level o) (consumeUntil set_) :=
  .bind .get fun _ => dropUntil_level _ _

theorem Rests.settled (h : Rests o k n b places s) (b' : Bool) (states : Option (List Int)) (place : Int) :
    Rests o k n b' places { s with recovering := b', lastErrorStates := states, lastErrorAt := place } :=
  ⟨{ h with recovering := rfl }, h.standing⟩

theorem Rests.placed (h : Rests o k n b places s) (n' : Int) (frames : List Frame) (precedences : List Int) :
    Rests o k n' b places { s with state := n', frames, precedences } :=
  ⟨{ h with state := rfl }, h.standing⟩

theorem endCondition_cleared : Lasts (Cleared o k n) endCondition := by
  refine .modify fun s hs => ?_
  obtain ⟨_, _, b, places, h, hk, hn, hspaced⟩ := hs
  exact ⟨_, _, _, _, h.settled false none (-1), hk, hn, hspaced⟩

/-! ## Reporting -/

theorem complain_paced (h : Rests o k n true places s) (hspaced : Spaced k false places) (token : Token) (message : String)
    (kind : Option Recognition.Kind) : (complain token message kind).Ends s (fun _ => Paced o k n) E := by
  obtain ⟨t, ht⟩ := h.standing
  refine onRecogniser_ends (.after_modify (.of_ok (Run.outcome_modify _ _) ?_))
  refine ⟨k, n, true, (k : Int) :: places, ?_, rfl, rfl, hspaced.complain⟩
  have hplaces : (s.stream.index :: s.errorsAt) = (k : Int) :: places := by rw [ht.index, h.places]
  exact ⟨{ h with places := hplaces }, t, ht⟩

/-- What is reported once, and not while the session is recovering. -/
theorem unlessRecovering_paced {rest : Act Unit} (hrest : ∀ places, Spaced k false places → ∀ s, Rests o k n true places s →
      rest.Ends s (fun _ => Paced o k n) fun _ => Paced o k n) :
    Lasts (Paced o k n) (unlessRecovering rest) := by
  intro s hs
  obtain ⟨_, _, b, places, h, rfl, rfl, hspaced⟩ := hs
  refine .after_get ?_
  cases b with
  | true =>
    rw [if_pos h.recovering]
    exact ⟨_, _, _, _, h, rfl, rfl, hspaced⟩
  | false =>
    rw [if_neg (by simp [h.recovering])]
    refine .after_modify (hrest places hspaced _ ?_)
    exact h.settled true s.lastErrorStates s.lastErrorAt

theorem Rests.paced (h : Rests o k n true places s) (hspaced : Spaced k false places) : Paced o k n s :=
  ⟨k, n, true, places, h, rfl, rfl, hspaced.loose⟩

theorem paced_bind {x : Act α} {f : α → Act Unit} (hspaced : Spaced k false places)
    (hx : Lasts (Rests o k n true places) x) (hf : ∀ a s, Rests o k n true places s →
      (f a).Ends s (fun _ => Paced o k n) fun _ => Paced o k n) (h : Rests o k n true places s) :
    (x >>= f).Ends s (fun _ => Paced o k n) fun _ => Paced o k n :=
  ((hx s h).imp (fun _ _ h => h) fun _ _ h => h.paced hspaced).bind fun a s' h' => hf a s' h'

theorem reportFailure_paced (r : Recognition) : Lasts (Paced o k n) (reportFailure r) := by
  refine unlessRecovering_paced fun places hspaced s h => ?_
  have hrest : ∀ s, Rests o k n true places s → (do
      let message ← wording r
      complain (← blamed r) (message.getD "None") (some r.kind)).Ends s (fun _ => Paced o k n) fun _ => Paced o k n := by
    intro s h
    refine paced_bind hspaced (wording_indelible r) (fun message s h => ?_) h
    exact paced_bind hspaced (blamed_indelible r) (fun token s h => complain_paced h hspaced _ _ _) h
  split
  · exact paced_bind hspaced (Steady.print _) (fun _ => hrest) h
  · exact hrest s h

theorem reportExpecting_paced (wording : Token → String → String) : Lasts (Paced o k n) (reportExpecting wording) := by
  refine unlessRecovering_paced fun places hspaced s h => ?_
  refine paced_bind hspaced currentToken_indelible (fun t s h => ?_) h
  refine paced_bind hspaced expectedTokens_indelible (fun q s h => ?_) h
  exact paced_bind hspaced (spellSet_indelible _) (fun _ s h => complain_paced h hspaced _ _ _) h

/-! ## Recovering -/

/-- A state in which the end of input is not expected, whatever is remembered. -/
def Shut (n : Int) : Prop := ∀ m cs set own m', Memory.Faithful States.network m →
  Lookahead.expected States.network m n cs = .ok (set, own, m') → set.contains Token.eof = false

theorem expectedTokens_shut (h : Rests o k n b places s) (hshut : Shut n) :
    expectedTokens.Ends s (fun q s' => q.1.contains Token.eof = false ∧ Rests o k n b places s')
      fun _ => Rests o k n b places := by
  refine .after_get (remembering_ends (fun q m hq => ?_) fun _ _ => h)
  have hexpected := expecting_grows hq
  refine ⟨?_, Steady.history (Lookahead.expected_grows hexpected).1.history h⟩
  rw [h.net, h.state] at hexpected
  exact hshut _ _ _ _ _ h.memory hexpected

theorem level_bind {β : Type} {x : Act α} {f : α → Act β} {I : Session → Prop} {R : β → Session → Prop} (hI : ∀ s, I s → Level o s)
    (hx : Lasts I x) (hs : I s) (hf : ∀ a s, I s → (f a).Ends s R fun _ => Level o) : (x >>= f).Ends s R fun _ => Level o :=
  ((hx s hs).imp (fun _ _ h => h) fun _ s' h => hI s' h).bind hf

/-- Where a token is dropped, the session has moved; the end token is not dropped. -/
theorem dropUnwanted_paced (hs : Paced o k n s) (hshut : o.type k = Token.eof → Shut n) :
    dropUnwanted.Ends s (fun dropped s' => dropped = none ∧ Paced o k n s' ∨ Cleared o (k + 1) n s') fun _ => Level o := by
  obtain ⟨k, n, b, places, h, rfl, rfl, hspaced⟩ := hs
  have hpaced (s : Session) (h : Rests o k n b places s) : Paced o k n s := ⟨k, n, b, places, h, rfl, rfl, hspaced⟩
  have hlevel (s : Session) (h : Rests o k n b places s) : Level o s := (hpaced s h).level
  obtain ⟨t, ht⟩ := h.standing
  have htype := ht.reading.type ht.token
  by_cases hk : o.type k = Token.eof
  · -- the token after the end token is the end token, and that is not expected
    have heof : t.isEof = true := beq_iff_eq.mpr (htype.symm.trans hk)
    obtain ⟨stream, hlook, hstream⟩ := ht.lookAtEnd heof 1
    have hafter := onStream_rests (P := fun a => a = Token.eof) h.toOrderly (.of_ok hlook ⟨htype.symm.trans hk, t, hstream⟩)
    refine (hafter.imp (fun _ _ h => h) fun _ => hlevel).bind ?_
    intro after s₁ h₁
    refine ((expectedTokens_shut h₁.2 (hshut hk)).imp (fun _ _ h => h) fun _ => hlevel).bind ?_
    intro q s₂ h₂
    dsimp only
    rw [h₁.1, h₂.1]
    exact .inl ⟨rfl, hpaced s₂ h₂.2⟩
  · refine level_bind hlevel (Steady.around fun hl hb => TokenStream.lookType_begun hl hb 2) h fun after s h => ?_
    refine level_bind hlevel expectedTokens_indelible h fun q s h => ?_
    dsimp only
    split
    · exact .inl ⟨rfl, hpaced s h⟩
    refine level_bind (fun _ h => h.level) (reportExpecting_paced _) (hpaced s h) fun _ s h' => ?_
    obtain ⟨k, n, b', places', h', rfl, rfl, hspaced'⟩ := h'
    refine ((consume_cleared h' hspaced'.loose hk).imp (fun _ _ h => h) fun _ _ h => h.paced.level).bind fun _ s h => ?_
    refine level_bind (fun _ h => h.paced.level) currentToken_indelible h fun t s h => ?_
    refine level_bind (fun _ h => h.paced.level) endCondition_cleared h fun _ s h => ?_
    exact .inr h

theorem canInsert_paced : Lasts (Paced o k n) canInsert := by
  refine .bind nextType_indelible fun type => .bind .get fun s => .bind stateHere_indelible fun _ =>
    .bind (lift_indelible _) fun first => .bind (.ite (nextTokens_indelible _) (lift_indelible _)) fun after => ?_
  exact .ite (.bind (reportExpecting_paced _) fun _ => .pure _) (.pure _)

theorem Level.lasts {act : Act α} (h : ∀ k n, Lasts (Paced o k n) act) : Lasts (Level o) act := by
  intro s hs
  obtain ⟨k, n, b, places, hs, hspaced⟩ := hs
  exact (h k n s ⟨k, n, b, places, hs, rfl, rfl, hspaced⟩).imp (fun _ _ h => h.level) fun _ _ h => h.level

theorem recoverInline_level (hs : Paced o k n s) (hshut : o.type k = Token.eof → Shut n) :
    recoverInline.Ends s (fun _ => Level o) fun _ => Level o := by
  refine .after_get ?_
  split
  · refine level_bind (fun _ h => h.level) mismatch_indelible hs fun r s₁ h₁ => ?_
    refine Run.Ends.bind (Q := fun _ _ => False) ?_ fun _ _ h => h.elim
    exact level_bind (fun _ h => h.level) (frame_indelible fun _ => ⟨rfl, rfl, rfl⟩) h₁ fun _ _ h => h.level
  · refine (dropUnwanted_paced hs hshut).bind ?_
    intro dropped s₁ h₁
    cases dropped with
    | some t =>
      have hcleared := h₁.resolve_left nofun
      exact level_bind (fun _ h => h) consume_level hcleared.paced.level fun _ _ h => h
    | none =>
      have hlevel : Level o s₁ := h₁.elim (fun h => h.2.level) fun h => h.paced.level
      refine level_bind (fun _ h => h) (Level.lasts fun _ _ => canInsert_paced) hlevel fun inserted s₂ h₂ => ?_
      split
      · exact missingToken_indelible s₂ h₂
      · exact level_bind (fun _ h => h) mismatch_indelible h₂ fun _ _ h => h

theorem recover_level (r : Recognition) : Lasts (Level o) (recover r) := by
  have hnoted (f : Session → Session) (hf : ∀ s, (f s).toRecogniser = s.toRecogniser ∧ (f s).bail = s.bail ∧
      (f s).recovering = s.recovering) : Lasts (Level o) (do
        modify f
        consumeUntil (← recoverySet)) :=
    .bind (frame_indelible hf) fun _ => .bind recoverySet_indelible fun _ => consumeUntil_level _
  refine .bind .get fun s => .ite (.bind (cancel_indelible _) ?rest) (?rest ())
  refine fun _ => .bind .get fun s => .ite (.bind consume_level fun _ => ?_) ?_
  all_goals exact hnoted _ fun _ => ⟨rfl, rfl, rfl⟩

theorem dropOrFail_level (hs : Paced o k n s) (hshut : o.type k = Token.eof → Shut n) :
    dropOrFail.Ends s (fun _ => Level o) fun _ => Level o := by
  refine (dropUnwanted_paced hs hshut).bind ?_
  intro dropped s₁ h₁
  have hlevel : Level o s₁ := h₁.elim (fun h => h.2.level) fun h => h.paced.level
  cases dropped with
  | some t => exact hlevel
  | none => exact level_bind (fun _ h => h) mismatch_indelible hlevel fun _ _ h => h

/-- In a state whose lookahead set is as found, the end of input is not expected if that set lacks it. -/
theorem shut_of_look {i : Nat} {set : IntervalSet} (hi : Indexing.wrap? States.network.states.size n = some i)
    (hloop : (States.network.state i).endsLoop = false) (hlook : Lookahead.look States.network i none none = .ok set)
    (hepsilon : set.contains Token.epsilon = false) (heof : set.contains Token.eof = false) : Shut n := by
  intro m cs set' own m' hm hexpected
  unfold Lookahead.expected at hexpected
  split at hexpected
  · cases hexpected
  rename_i hn
  simp only [Bool.or_eq_true, decide_eq_true_eq, not_or, Int.not_lt] at hn
  have hplace : n.toNat = i := by
    rw [Indexing.wrap?, if_pos hn.1] at hi
    split at hi
    · exact Option.some.inj hi
    · cases hi
  rw [hplace] at hexpected
  obtain ⟨⟨next, m₁⟩, hnext, hexpected⟩ := Fault.bind_eq_ok.1 hexpected
  obtain ⟨found, hfound, -, hsame⟩ := (hm.next network_plain hnext).found
  rw [hlook] at hfound
  have hset : next = set := (hsame hloop).trans (Except.ok.inj hfound).symm
  subst hset
  dsimp only at hexpected
  rw [hepsilon] at hexpected
  cases hexpected
  exact heof

theorem sync_level : Lasts (Level o) sync := by
  intro s hs
  obtain ⟨k, n, b, places, h, hspaced⟩ := hs
  have hlevel (s : Session) (h : Rests o k n b places s) : Level o s := ⟨k, n, b, places, h, hspaced⟩
  have hpaced (s : Session) (h : Rests o k n b places s) : Paced o k n s := ⟨k, n, b, places, h, rfl, rfl, hspaced⟩
  refine .after_get ?_
  split
  · exact hlevel s h
  refine Run.Ends.bind (Q := fun i s' => Indexing.wrap? States.network.states.size n = some i ∧ s = s') ?_ ?_
  · refine .after_get (.lift (fun i hi => ?_) fun _ _ => hlevel s h)
    rw [Fault.unless_eq_ok, h.net, h.state] at hi
    exact ⟨hi, rfl⟩
  intro i s' hi
  obtain ⟨hi, rfl⟩ := hi
  refine ((nextType_rests h).imp (fun _ _ h => h) fun _ => hlevel).bind ?_
  intro type s₁ h₁
  obtain ⟨rfl, h₁⟩ := h₁
  refine Run.Ends.bind (Q := fun next s' => Memory.Recalled States.network i next ∧ Rests o k n b places s') ?_ ?_
  · refine remembering_ends (fun next m hnext => ?_) fun _ _ => hlevel s₁ h₁
    refine ⟨?_, Steady.history (Lookahead.next_grows hnext).1.history h₁⟩
    rw [h₁.net] at hnext
    exact h₁.memory.next network_plain hnext
  intro next s₂ h₂
  obtain ⟨hrecalled, h₂⟩ := h₂
  split
  · exact hlevel s₂ h₂
  rename_i hunfit
  simp only [Bool.or_eq_true, not_or, Bool.not_eq_true] at hunfit
  have hshut (hloop : (States.network.state i).endsLoop = false) (hk : o.type k = Token.eof) : Shut n := by
    obtain ⟨found, hfound, -, hsame⟩ := hrecalled.found
    rw [← hsame hloop] at hfound
    rw [hk] at hunfit
    exact shut_of_look hi hloop hfound hunfit.2 hunfit.1
  rw [h.net]
  split
  case h_1 hkind | h_2 hkind | h_3 hkind | h_4 hkind =>
    exact dropOrFail_level (hpaced s₂ h₂) (hshut (by simp [State.endsLoop, hkind]))
  case h_5 hkind | h_6 hkind =>
    refine dropUnfit_indelible hi (by simp [State.endsLoop, hkind]) ?_ consumeUntil_level (hlevel s₂ h₂) ⟨h₂.net, h₂.state⟩
    exact fun s hs => (Level.lasts (fun _ _ => reportExpecting_paced _) s hs.1).and (reportExpecting_indelible _ s hs.2)
  case h_7 => exact hlevel s₂ h₂

theorem endCondition_rests (h : Rests o k n b places s) : endCondition.Ends s (fun _ => Rests o k n false places) E :=
  h.settled false none (-1)

theorem takeToken_level (h : Rests o k n b places s) (hspaced : Spaced k b places) (hk : o.type k ≠ Token.eof) :
    takeToken.Ends s (fun _ => Level o) fun _ => Level o :=
  (endCondition_rests h).bind fun _ _ h =>
    (consume_cleared h hspaced.loose hk).imp (fun _ _ h => h.paced.level) fun _ _ h => h.paced.level

/-- A token is matched, or another one is dropped, made up or complained about. -/
theorem matchToken_level {type : Int} (htype : type ≠ Token.eof) (hshut : Shut n) (hs : Paced o k n s) :
    (matchToken (·.type == type)).Ends s (fun _ => Level o) fun _ => Level o := by
  obtain ⟨k, n, b, places, h, rfl, rfl, hspaced⟩ := hs
  refine (currentToken_rests h).bind ?_
  intro t s₁ h₁
  split
  · rename_i hfits
    have hk : o.type k ≠ Token.eof := by
      rw [Tape.type, h₁.1]
      exact fun heof => htype ((beq_iff_eq.mp hfits).symm.trans heof)
    exact (takeToken_level h₁.2 hspaced hk).bind fun _ _ h => h
  · refine (recoverInline_level ⟨k, n, b, places, h₁.2, rfl, rfl, hspaced⟩ fun _ => hshut).bind fun t s h => ?_
    refine Run.Keeps.bind (I := Level o) (J := fun _ => Level o) .get (fun _ => ?_) s h
    exact .ite (.bind (modifyTop_indelible _) fun _ => .pure _) (.pure _)

theorem takeOperator_level {types : List Int} (htypes : Token.eof ∉ types) (hshut : Shut n) (hs : Paced o k n s) :
    (takeOperator types).Ends s (fun _ => Level o) fun _ => Level o := by
  obtain ⟨k, n, b, places, h, rfl, rfl, hspaced⟩ := hs
  have hlevel (s : Session) (h : Rests o k n b places s) : Level o s := ⟨k, n, b, places, h, hspaced⟩
  refine (currentToken_rests h).bind ?_
  intro t s₁ h₁
  refine level_bind hlevel (modifyLabel_indelible _) h₁.2 fun _ s h => ?_
  split
  · rename_i hfits
    have hk : o.type k ≠ Token.eof := by
      rw [Tape.type, h₁.1]
      intro heof
      exact htypes (heof ▸ List.contains_iff_mem.mp hfits)
    exact (takeToken_level h hspaced hk).bind fun _ _ h => h
  · refine (recoverInline_level ⟨k, n, b, places, h, rfl, rfl, hspaced⟩ fun _ => hshut).bind fun t s h => ?_
    exact modifyLabel_indelible _ s h

/-- A failure that is not complained about, unless all is well. -/
def Withheld (o : Tape) (f : Fault) (s : Session) : Prop := Loose o s ∧ (f.Sober ∨ Level o s)

theorem Level.withheld (h : Level o s) (f : Fault) : Withheld o f s := ⟨h.loose, .inr h⟩

/-- Where the end token is matched, the session does not move, and the next complaint might be made in the same place. -/
theorem matchEnd_loose (hs : Level o s) : (matchToken (·.type == Token.eof)).Ends s (fun _ => Loose o) (Withheld o) := by
  obtain ⟨k, n, b, places, h, hspaced⟩ := hs
  refine (currentToken_rests h).bind ?_
  intro t s₁ h₁
  have htype : o.type k = t.type := by
    rw [Tape.type, h₁.1]
    rfl
  split
  · rename_i hfits
    have hk : o.type k = Token.eof := htype.trans (beq_iff_eq.mp hfits)
    refine ((endCondition_rests h₁.2).bind fun _ s h => ?_).bind fun _ _ h => h
    obtain ⟨u, hu⟩ := h.standing
    have hconsume := (consume_rests h (if_pos hk).symm).and (consume_sane s hu.reading.legible)
    exact hconsume.imp (fun _ _ h => ⟨_, _, _, _, h.1, hspaced.loose⟩) fun f s h => ⟨⟨_, _, _, _, h.1, hspaced.loose⟩, .inl h.2.1⟩
  · rename_i hunfit
    have hk : o.type k ≠ Token.eof := fun heof => hunfit (beq_iff_eq.mpr (htype.symm.trans heof))
    have hinline := recoverInline_level ⟨k, n, b, places, h₁.2, rfl, rfl, hspaced⟩ fun heof => absurd heof hk
    refine (hinline.imp (fun _ _ h => h) fun f _ h => h.withheld f).bind fun t s h => ?_
    refine (Run.Keeps.bind (I := Level o) (J := fun _ => Level o) .get (fun _ => ?_) s h).imp (fun _ _ h => h.loose)
      fun f _ h => h.withheld f
    exact .ite (.bind (modifyTop_indelible _) fun _ => .pure _) (.pure _)

/-! ## Rules -/

/-- Whether the end of input is not expected in a state. -/
def shutAt (n : Int) : Bool :=
  match Lookahead.look States.network n.toNat none none with
  | .ok set => !set.contains Token.epsilon && !set.contains Token.eof && !(States.network.state n.toNat).endsLoop &&
      Indexing.wrap? States.network.states.size n = some n.toNat
  | .error _ => false

theorem shut_of_shutAt (h : shutAt n = true) : Shut n := by
  unfold shutAt at h
  split at h
  · rename_i set hlook
    simp only [Bool.and_eq_true, Bool.not_eq_true', decide_eq_true_eq] at h
    exact shut_of_look h.2 h.1.2 hlook h.1.1.1 h.1.1.2
  · cases h

/-- A step that does not take the end token, in a state where the end is not expected. -/
def inner : Step → Bool
  | .token state type => type ≠ Token.eof && shutAt state
  | .operator state types => !types.contains Token.eof && shutAt state
  | .phrase _ rule _ => rule ≠ .script
  | _ => true

set_option maxRecDepth 4000 in
theorem leaves_inner {rule : Rule} (hrule : rule ≠ .script) : ∀ l ∈ (body rule).leaves, inner l = true := by
  have hall : ∀ rule ∈ Rule.all, rule ≠ .script → (body rule).leaves.all inner = true := by decide
  intro l hl
  have hmem : rule ∈ Rule.all := by cases rule <;> decide
  exact List.all_eq_true.mp (hall rule hmem hrule) l hl

theorem shift_led {P : Nat → Bool → List Int → Prop} (h : Led o (fun k _ => P k) s) (state : Int) (frames : List Frame)
    (precedences : List Int) : Led o (fun k _ => P k) { s with state, frames, precedences } := by
  obtain ⟨k, n, b, places, h, hP⟩ := h
  exact ⟨k, state, b, places, h.placed state frames precedences, hP⟩

theorem framed_led {P : Nat → Bool → List Int → Prop} : Framed (Led o fun k _ => P k) where
  shift state frames precedences h := shift_led h state frames precedences
  currentToken := currentToken_indelible
  previousToken := previousToken_indelible
  announceEntry := announceEntry_indelible
  announceExit := announceExit_indelible

theorem precedenceHolds_rests (level : Int) :
    Lasts (Rests o k n b places) (onRecogniser (Recogniser.precedenceHolds level)) := by
  intro s h
  obtain ⟨t, ht⟩ := h.standing
  refine onRecogniser_ends (.after_get ?_)
  split
  · exact h.recogniser rfl h.places ht
  · exact h.recogniser rfl h.places ht

/-- Every step that does not take the end token keeps all well. -/
theorem upheld_level : Upheld (Level o) fun l => inner l = true where
  toFramed := framed_led
  nextType := nextType_indelible
  precedenceHolds level := Led.lasts fun _ _ _ _ => precedenceHolds_rests level
  choose decision := Led.lasts fun _ _ _ _ => choose_rests decision
  sync := sync_level
  token {state type} hfits s hs := by
    simp only [inner, Bool.and_eq_true, decide_eq_true_eq] at hfits
    obtain ⟨k, n, b, places, h, hspaced⟩ := hs
    refine .after_modify ?_
    have hpaced : Paced o k state { s with state } := ⟨k, state, b, places, h.placed _ _ _, rfl, rfl, hspaced⟩
    exact (matchToken_level hfits.1 (shut_of_shutAt hfits.2) hpaced).bind fun _ _ h => h
  operator {state types} hfits s hs := by
    simp only [inner, Bool.and_eq_true, Bool.not_eq_true'] at hfits
    obtain ⟨k, n, b, places, h, hspaced⟩ := hs
    refine .after_modify ?_
    have hpaced : Paced o k state { s with state } := ⟨k, state, b, places, h.placed _ _ _, rfl, rfl, hspaced⟩
    refine takeOperator_level (fun hmem => ?_) (shut_of_shutAt hfits.2) hpaced
    rw [List.contains_iff_mem.mpr hmem] at hfits
    exact absurd hfits.1 (by decide)
  reportFailure r := Level.lasts fun _ _ => reportFailure_paced r
  recover := recover_level

theorem runRule_level (fuel : Nat) {rule : Rule} (hrule : rule ≠ .script) (p : Int) : Lasts (Level o) (runRule fuel rule p) := by
  refine (upheld_level).runRule (fun state r q hr => leaves_inner ?_) fuel (leaves_inner hrule) p
  exact of_decide_eq_true hr

/-- The session is in order and has not looked at a token yet. -/
structure Unbegun (o : Tape) (n : Int) (s : Session) : Prop extends Orderly o n false [] s where
  reading : TokenStream.Reading o s.stream
  before : s.stream.index = -1

theorem Unbegun.placed (h : Unbegun o n s) (n' : Int) (frames : List Frame) : Unbegun o n' { s with state := n', frames } :=
  ⟨{ h with state := rfl }, h.reading, h.before⟩

/-- The first look puts a session at the beginning. -/
theorem Unbegun.currentToken (h : Unbegun o n s) : currentToken.Ends s (fun _ => Level o) fun _ => Level o := by
  have hlevel (s : Session) (h : Rests o 0 n false [] s) : Level o s := ⟨0, n, false, [], h, .nil 0 false⟩
  refine .of_outcome (currentToken_outcome s) ?_
  obtain ⟨t, stream, hlook, -, ht⟩ := TokenStream.look_first h.reading h.before
  have hrests := onStream_rests (P := fun _ => True) h.toOrderly (.of_ok hlook ⟨trivial, t, ht⟩)
  refine (hrests.imp (fun _ _ h => h) fun _ => hlevel).bind fun t s h => ?_
  exact lift_indelible _ s (hlevel s h.2)

theorem Unbegun.enterScript (h : Unbegun o n s) : (enterPhrase .script 0).Ends s (fun _ => Level o) fun _ => Level o := by
  rw [enterPhrase, if_neg (by decide)]
  refine .after_get ?_
  have hopen : (openFrame (Form.ofRule .script) s.state (Rule.startState .script)).Ends s (fun _ => Level o) fun _ => Level o := by
    refine .after_modify ?_
    refine (h.placed _ _).currentToken.bind fun _ s h => ?_
    exact modifyLabel_indelible _ s h
  exact hopen.bind fun _ s h => announceEntry_indelible s h

/-- In the body of a script the end token is the last one that is matched. -/
theorem scriptBody_loose {call : Rule → Int → Act Unit}
    (hcall : ∀ state rule p, inner (.phrase state rule p) = true → Lasts (Level o) (call rule p)) (invoking : Int) (hs : Level o s) :
    (runBody call invoking (body .script)).Ends s (fun _ => Loose o) (Withheld o) := by
  have hstep (step : Step) (hfits : ∀ l ∈ step.leaves, inner l = true) (s : Session) (hs : Level o s) :
      (runStep call step).Ends s (fun _ => Level o) (Withheld o) :=
    ((upheld_level).runStep hcall step hfits s hs).imp (fun _ _ h => h) fun f _ h => h.withheld f
  refine (hstep _ (by decide) s hs).bind fun _ s h => ?_
  refine (hstep _ (by decide) s h).bind fun _ s h => ?_
  refine Run.Ends.bind (Q := fun _ => Loose o) ?_ fun _ _ h => h
  refine .after_modify ?_
  exact (matchEnd_loose (shift_led h _ _ _)).bind fun _ _ h => h

theorem guarded_loose {body : Act Unit} (h : body.Ends s (fun _ => Loose o) (Withheld o)) :
    (guarded body).Ends s (fun _ => Loose o) fun _ => Loose o := by
  rcases hout : body.outcome s with ⟨f | _, s'⟩
  · refine .after (Run.outcome_attempt _ _) ?_
    rw [hout]
    have hf := h.error hout
    cases f with
    | recognition r =>
      have hlevel : Level o s' := hf.2.resolve_left id
      have hhandled : Lasts (Level o) (do
          modifyLabel fun l => { l with stuck := some r.kind }
          reportFailure r
          recover r) :=
        .bind (modifyLabel_indelible _) fun _ => .bind ((upheld_level).reportFailure r) fun _ => recover_level r
      exact (hhandled s' hlevel).imp (fun _ _ h => h.loose) fun _ _ h => h.loose
    | _ => exact hf.1
  · refine .after (Run.outcome_attempt _ _) ?_
    rw [hout]
    exact h.ok hout

theorem runScript_loose (fuel : Nat) (h : Unbegun o n s) :
    (runRule (fuel + 1) .script 0).Ends s (fun _ => Loose o) fun _ => Loose o := by
  refine .after_get ?_
  refine (h.enterScript.imp (fun _ _ h => h) fun _ _ h => h.loose).bind fun _ s₁ h₁ => ?_
  have hcall (state : Int) (r : Rule) (q : Int) (hr : inner (.phrase state r q) = true) :
      Lasts (Level o) (do let _ ← runRule fuel r q) :=
    .bind (runRule_level fuel (of_decide_eq_true hr) q) fun _ => .pure _
  have hguarded := guarded_loose (scriptBody_loose hcall s.state h₁)
  have hleave : Lasts (Loose o) (leavePhrase .script) := (framed_led).leavePhrase .script
  refine .after (Run.outcome_attempt _ _) ?_
  rcases hout : (guarded (runBody (fun r q => do let _ ← runRule fuel r q) s.state (body .script))).outcome s₁ with ⟨f | _, s₂⟩
  · exact (hleave s₂ (hguarded.error hout)).bind fun _ _ h => h
  · exact hleave s₂ (hguarded.ok hout)

theorem ofStream_begin (net : Network) (stream : TokenStream Supply) : (ofStream net stream).stream = stream ∧
    (ofStream net stream).attached = true ∧ (ofStream net stream).diagnosis = none ∧ (ofStream net stream).traces = {} ∧
      (ofStream net stream).state = -1 ∧ (ofStream net stream).recovering = false ∧ (ofStream net stream).errorsAt = [] :=
  ⟨rfl, rfl, rfl, rfl, rfl, rfl, rfl⟩

/-- A session over a supply begins in order. -/
theorem unbegun_ofStream {source : Supply} (h : source.Hands o.inner o.last) :
    Unbegun o (-1) (ofStream States.network { source }) := by
  obtain ⟨hstream, hattached, hdiagnosis, htraces, hstate, hrecovering, hplaces⟩ := ofStream_begin States.network { source }
  refine ⟨⟨ofStream_net _ _, ?_, hattached, hdiagnosis, htraces, hstate, hrecovering, hplaces⟩, ?_, ?_⟩
  · rw [ofStream_lookahead]
    exact Memory.faithful_ofNetwork States.network
  · rw [hstream]
    exact .fresh h
  · rw [hstream]

/-- Where the stream stood at each complaint in a parse of a script, the last one first. -/
def complaintPlaces (s : Session) : List Int := ((parse .script 0).outcome s).2.errorsAt

theorem parse_loose (h : Unbegun o n s) : Loose o ((parse .script 0).outcome s).2 := by
  have hends : (parse .script 0).Ends s (fun _ => Loose o) fun _ => Loose o :=
    .after (tokenFuel_eq s) (runScript_loose _ h)
  unfold Run.Ends at hends
  split at hends
  all_goals
    rename_i hout
    rw [hout]
    exact hends

end Session

theorem Session.Loose.places {o : Tape} {s : Session} (h : Session.Loose o s) :
    s.errorsAt.Pairwise (· > ·) ∧ ∀ i ∈ s.errorsAt, 0 ≤ i ∧ i < (o.inner ++ [o.last]).length := by
  obtain ⟨k, n, b, places, h, hspaced⟩ := h
  obtain ⟨t, ht⟩ := h.standing
  obtain ⟨hk, -⟩ := List.getElem?_eq_some_iff.mp (ht.reading.token? ht.token)
  rw [Tape.tokens, length_numbered] at hk
  rw [h.places]
  refine ⟨hspaced.ascending, fun i hi => ?_⟩
  have hbehind := hspaced.behind i hi
  omega

namespace Grammar

open Scan

theorem length_le_of_descending {places : List Int} {n : Int} (h : places.Pairwise (· > ·)) (hn : ∀ i ∈ places, 0 ≤ i ∧ i < n) :
    places.length ≤ n.toNat := by
  induction h generalizing n with
  | nil => exact Nat.zero_le _
  | @cons i places hi _ ih =>
    have hfirst := hn i List.mem_cons_self
    have hrest := ih fun j hj => ⟨(hn j (List.mem_cons_of_mem _ hj)).1, hi j hj⟩
    rw [List.length_cons]
    omega

/-- Whatever the source, and however its parse ends, if it begins with nothing learnt: each complaint of the parser is made
further on in the tokens than the one before, and so there are no more complaints than tokens. -/
theorem complaints_ascend (source : Source) : (Session.ofSource source).complaintPlaces.Pairwise (· > ·) ∧
    ∃ (ts : List Token) (s' : Scanner), (tokensUpTo (source.size + 1)).outcome (scanner source false) = (.ok (ts.map .ok), s') ∧
      (∀ i ∈ (Session.ofSource source).complaintPlaces, 0 ≤ i ∧ i < ts.length) ∧
      ((Session.parse .script 0).outcome (Session.ofSource source)).2.errorCount ≤ ts.length := by
  obtain ⟨o, s', htokens, hhands, -⟩ := tokens_handed source
  have hbegin : Session.Unbegun o (-1) (Session.ofSource source) := by
    rw [Session.ofSource_eq_ofStream, parserNetwork_eq]
    exact Session.unbegun_ofStream hhands
  obtain ⟨hascend, hbounds⟩ := (Session.parse_loose hbegin).places
  rw [Session.complaintPlaces]
  refine ⟨hascend, o.inner ++ [o.last], s', htokens, hbounds, ?_⟩
  rw [Recogniser.errorCount]
  exact length_le_of_descending hascend hbounds

end Grammar

end NimbleLang
