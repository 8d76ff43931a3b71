import NimbleLang.Proofs.Sessions

/-!
Failures do not go unnoticed. Where a token does not fit, a complaint is made, now or by the rule that catches the failure:
an act `Leads` to what it should, or has complained, or has failed in such a way that the rule around it complains
(`Session.Alarm`).

What comes before a complaint can fail as well, but never in a way that a rule recovers from (`Session.Sane`).
-/

namespace NimbleLang

namespace Session

open Predict Grammar Recogniser

variable {α β : Type} {o : Tape} {k : Nat} {t : Token} {s s' : Session} {Q : α → Session → Prop} {R : β → Session → Prop}

/-! ## What comes before a complaint -/

/-- A failure that no rule recovers from. -/
def Fatal (f : Fault) (s : Session) : Prop := f.Sober ∧ s.stream.Legible

/-- An act whose failures no rule recovers from. -/
abbrev Sane (act : Act α) : Prop := act.Keeps (·.stream.Legible) Fatal

theorem lift_sane {x : Except Fault α} (h : Fault.Safe x) : Sane (liftM x : Act α) := .lift fun f hf _ hs => ⟨h f hf, hs⟩

theorem throw_sane {f : Fault} (h : f.Sober) : Sane (throw f : Act α) := .throw fun _ hs => ⟨h, hs⟩

theorem onRecogniser_sane {act : Recogniser.Act α}
    (h : act.Keeps (·.stream.Legible) fun f r => f.Sober ∧ r.stream.Legible) : Sane (onRecogniser act) :=
  fun s hs => onRecogniser_ends (h s.inside hs)

theorem onStream_sane {act : TokenStream.Act Supply α} (hact : ∀ {I}, TokenStream.Stable I → TokenStream.Careful I act) :
    Sane (onStream act) := onRecogniser_sane fun r hr =>
  (Recogniser.onStream_ends (d := 0) hact r).imp (fun _ _ h => h.legible hr) fun _ _ h => ⟨h.1 hr, h.2.legible hr⟩

theorem currentToken_sane : Sane currentToken := by
  refine onRecogniser_sane (.bind (fun r hr => ?_) fun x => .lift fun f hf _ hr => ⟨Fault.sober_unless hf trivial, hr⟩)
  exact (Recogniser.onStream_ends (d := 0) (fun h => TokenStream.look_careful h 1) r).imp (fun _ _ h => h.legible hr)
    fun _ _ h => ⟨h.1 hr, h.2.legible hr⟩

theorem previousToken_sane : Sane previousToken := onStream_sane fun h => TokenStream.look_careful h _

theorem top_sane : Sane top := .bind .get fun _ => lift_sane (.unless _ trivial)

theorem modifyTop_sane (f : Frame → Frame) : Sane (modifyTop f) := by
  refine .bind .get fun s => ?_
  split
  · exact throw_sane trivial
  · exact .modify fun _ h => h

theorem modifyLabel_sane (f : Label → Label) : Sane (modifyLabel f) := modifyTop_sane _

theorem tracedName_sane (form : Form) : Sane (tracedName form) := .bind .get fun _ => lift_sane (.unless _ trivial)

theorem note_sane (event : String) : Sane (note event) := .modify fun _ h => h

theorem print_sane (line : String) : Sane (onRecogniser (Recogniser.print line)) := onRecogniser_sane (.modify fun _ h => h)

theorem announce_sane {order : List Watcher → List Watcher} {tell : Watcher → Act Unit} (h : ∀ w, Sane (tell w)) :
    Sane (announce order tell) :=
  .bind .get fun _ => .bind (.forIn (fun w _ => .bind (h w) fun _ => .pure _) _ _) fun _ => .pure _

theorem announceLeaf_sane (t : Tree) : Sane (announceLeaf t) := by
  refine announce_sane fun w => ?_
  split
  · exact .bind (lift_sane (.unless _ trivial)) fun _ => note_sane _
  · exact .bind (lift_sane (.unless _ trivial)) fun _ => note_sane _
  · exact .bind top_sane fun _ => .bind (tracedName_sane _) fun _ => print_sane _
  · exact .pure _

theorem consume_sane : Sane consume := by
  refine .bind currentToken_sane fun t => ?_
  refine .ite (.bind (onStream_sane fun h => TokenStream.consume_careful h) ?rest) (?rest ())
  refine fun _ => .bind .get fun s => .ite ?_ (.pure _)
  exact .bind (modifyTop_sane _) fun _ => .bind (announceLeaf_sane _) fun _ => .pure _

theorem remembering_sane {f : Network → Lookahead.Memory → Except Fault (α × Lookahead.Memory)} (h : ∀ net m, Fault.Safe (f net m)) :
    Sane (remembering f) := .bind .get fun _ => .bind (lift_sane (h _ _)) fun _ => .bind (.modify fun _ h => h) fun _ => .pure _

theorem expected_sane (state : Int) (callers : Callers) : Sane (remembering fun net m => do
    let (set_, own, m) ← Lookahead.expected net m state callers
    return ((set_, own), m)) := remembering_sane fun _ _ => .bind (Lookahead.expected_safe _ _ _ _) fun _ => .ok _

theorem expectedTokens_sane : Sane expectedTokens := .bind .get fun _ => expected_sane _ _

theorem nameOf_safe (v : Vocabulary) (a : Int) : Fault.Safe (v.nameOf a) := by
  unfold Vocabulary.nameOf
  refine .ite (.ok _) (.ite (.ok _) ?_)
  have hlast : Fault.Safe (if a < v.symbolic.length then Fault.outOfRange.unless (Indexing.listAt? v.symbolic a)
      else return "<UNKNOWN>") := .ite (.unless _ trivial) (.ok _)
  exact .ite (.bind (.unless _ trivial) fun _ => .ite (.ok _) hlast) hlast

theorem spellSet_sane (set_ : IntervalSet) : Sane (spellSet set_) :=
  .bind .get fun _ => lift_sane (.ite (.ok _) (.bind (.mapM (nameOf_safe _) _) fun _ => .ok _))

theorem blamed_sane (r : Recognition) : Sane (blamed r) := by
  unfold blamed
  split
  · exact .pure _
  · exact currentToken_sane

theorem wording_sane (r : Recognition) : Sane (wording r) := by
  unfold wording
  split
  · refine .bind (lift_sane (.unless _ trivial)) fun start => .bind (.ite (.pure _) ?_) fun _ => .pure _
    exact onStream_sane fun h => TokenStream.text_careful h _ _
  · exact .bind .get fun s => .bind (expected_sane _ _) fun q => .bind (spellSet_sane _) fun _ => .pure _
  · exact .bind top_sane fun _ => .bind (tracedName_sane _) fun _ => .bind (lift_sane (.unless _ trivial)) fun _ => .pure _
  · exact .pure _

/-! ## Complaints are made -/

/-- An act that ends with a complaint. -/
abbrev Complaining (act : Act α) : Prop := ∀ s : Session, s.stream.Legible → act.Ends s (fun _ => Marred) Fatal

theorem Complaining.bind {x : Act α} {f : α → Act β} (hx : Sane x) (hf : ∀ a, Complaining (f a)) : Complaining (x >>= f) :=
  fun s hs => (hx s hs).bind fun a s' hs' => hf a s' hs'

theorem complain_complaining (token : Token) (message : String) (kind : Option Recognition.Kind) :
    Complaining (complain token message kind) := fun s _ => complain_marred s token message kind

theorem unlessRecovering_marred {rest : Act Unit} (hrest : Complaining rest) (hquiet : s.recovering = false) (hs : s.stream.Legible) :
    (unlessRecovering rest).Ends s (fun _ => Marred) Fatal := by
  refine .after_get ?_
  rw [if_neg (by rw [hquiet]; decide)]
  exact .after_modify (hrest _ hs)

section Reports

variable (hquiet : s.recovering = false) (hs : s.stream.Legible)
include hquiet hs

theorem reportFailure_marred (r : Recognition) : (reportFailure r).Ends s (fun _ => Marred) Fatal := by
  have hlast : Complaining (do
      let message ← wording r
      complain (← blamed r) (message.getD "None") (some r.kind)) :=
    .bind (wording_sane r) fun _ => .bind (blamed_sane r) fun _ => complain_complaining _ _ _
  refine unlessRecovering_marred ?_ hquiet hs
  split
  · exact .bind (onRecogniser_sane (.modify fun _ h => h)) fun _ => hlast
  · exact hlast

theorem reportExpecting_marred (wording : Token → String → String) : (reportExpecting wording).Ends s (fun _ => Marred) Fatal :=
  unlessRecovering_marred (.bind currentToken_sane fun _ => .bind expectedTokens_sane fun _ => .bind (spellSet_sane _) fun _ =>
    complain_complaining _ _ _) hquiet hs

end Reports

/-! ## Where acts lead -/

/-- How an act may fail: after a complaint, or fatally, or so that the rule around it complains. -/
def Alarm (f : Fault) (s : Session) : Prop := s.Marred ∨ s.stream.Legible ∧ (f.Sober ∨ s.recovering = false)

theorem Fatal.alarm {f : Fault} (h : Fatal f s) : Alarm f s := .inr ⟨h.2, .inl h.1⟩

theorem Baffled.alarm {f : Fault} (h : Baffled s) : Alarm f s := .inr ⟨h.legible, .inr h.quiet⟩

/-- From a session as `P` says the act leads to one as `Q` says, or a complaint is made; where one was made before, it stays. -/
def Leads (P : Session → Prop) (act : Act α) (Q : α → Session → Prop) : Prop :=
  ∀ s, s.Marred ∨ P s → act.Ends s (fun a s' => s'.Marred ∨ Q a s') Alarm

namespace Leads

variable {P P' : Session → Prop} {x : Act α} {f : α → Act β} {E : Fault → Session → Prop}

theorem of_ends (hx : Indelible x) (h : ∀ s, P s → x.Ends s Q E) (hE : ∀ f s', E f s' → Alarm f s') : Leads P x Q := by
  rintro s (hs | hs)
  · exact (hx s hs).imp (fun _ _ => .inl) fun _ _ => .inl
  · exact (h s hs).imp (fun _ _ => .inr) hE

/-- An act that complains leads anywhere. -/
theorem of_marred (hx : Indelible x) (h : ∀ s, P s → x.Ends s (fun _ => Marred) Fatal) : Leads P x Q := by
  rintro s (hs | hs)
  · exact (hx s hs).imp (fun _ _ => .inl) fun _ _ => .inl
  · exact (h s hs).imp (fun _ _ => .inl) fun _ _ h => h.alarm

theorem of_false (hx : Indelible x) : Leads (fun _ => False) x Q := of_marred hx fun _ => False.elim

theorem pure {a : α} (h : ∀ s, P s → Q a s) : Leads P (pure a) Q := fun s hs => .of_ok (Run.outcome_pure _ _) (hs.imp_right (h s))

theorem bind (hx : Leads P x Q) (hf : ∀ a, Leads (Q a) (f a) R) : Leads P (x >>= f) R :=
  fun s hs => (hx s hs).bind fun a s' => hf a s'

theorem get {g : Session → Act β} (h : ∀ s, Leads (fun s' => s' = s ∧ P s') (g s) R) : Leads P (get >>= g) R :=
  fun s hs => .after_get (h s s (hs.imp_right fun hs => ⟨rfl, hs⟩))

theorem imp (hx : Leads P x Q) {Q' : α → Session → Prop} (hP : ∀ s, P' s → P s) (hQ : ∀ a s, Q a s → Q' a s) : Leads P' x Q' :=
  fun s hs => (hx s (hs.imp_right (hP s))).imp (fun a s' => Or.imp_right (hQ a s')) fun _ _ => id

theorem ite {c : Prop} [Decidable c] {y : Act α} (hx : c → Leads P x Q) (hy : ¬c → Leads P y Q) : Leads P (if c then x else y) Q := by
  split
  · exact hx ‹_›
  · exact hy ‹_›

end Leads

/-! ## Looking around -/

variable {s₀ : Session} {P : α → Prop} {E : Fault → Session → Prop}

theorem Leads.of_still {act : Act α} (hact : Indelible act)
    (h : ∀ s, Calm s → TokenStream.Standing o s.stream k t → act.Ends s (fun a s' => P a ∧ Still o k t s s') E)
    (hE : ∀ f s', E f s' → Alarm f s') : Leads (Still o k t s₀) act fun a s' => P a ∧ Still o k t s₀ s' :=
  .of_ends hact (fun s hs => (h s hs.calm hs.standing).imp (fun _ _ h => ⟨h.1, hs.trans h.2⟩) fun _ _ h => h) hE

theorem currentToken_leads : Leads (Still o k t s₀) currentToken fun x s => x = t ∧ Still o k t s₀ s :=
  .of_still currentToken_indelible (E := Fatal) (fun _ h hs => currentToken_still h hs) fun _ _ h => h.alarm

theorem nextType_leads : Leads (Still o k t s₀) nextType fun x s => x = t.type ∧ Still o k t s₀ s :=
  .of_still nextType_indelible (E := Fatal) (fun _ h hs => nextType_still h hs) fun _ _ h => h.alarm

theorem ahead_leads : Leads (Still o k t s₀) (onStream (TokenStream.lookType 2)) fun _ => Still o k t s₀ := by
  refine .of_ends (onStream_indelible fun h => TokenStream.lookType_careful h _) (E := Fatal) (fun s h => ?_) fun _ _ h => h.alarm
  obtain ⟨u, stream, -, hlook, hstanding⟩ := h.standing.lookAhead 1
  exact (onStream_still h.calm hlook hstanding).imp (fun _ _ h' => h.trans h'.2) fun _ _ h => h

theorem expected_still (h : Calm s) (hs : TokenStream.Standing o s.stream k t) (state : Int) (callers : Callers) :
    (remembering fun net m => do
      let (set_, own, m) ← Lookahead.expected net m state callers
      return ((set_, own), m)).Ends s (fun _ s' => Still o k t s s') Fatal := by
  refine (remembering_still (fun m a m' hm hf => ?_) (fun g hg => ?_) h hs).imp (fun _ _ h => h.2) fun _ _ h => h
  · obtain ⟨⟨set_, own, m₁⟩, hexpected, hrest⟩ := Fault.bind_eq_ok.1 hf
    cases hrest
    exact hm.expected hexpected
  · exact ⟨Fault.Safe.bind (Lookahead.expected_safe _ _ _ _) (fun _ => .ok _) g hg, hs.reading.legible⟩

theorem expectedTokens_leads : Leads (Still o k t s₀) expectedTokens fun _ => Still o k t s₀ :=
  .of_ends expectedTokens_indelible (fun _ h => .after_get
    ((expected_still h.calm h.standing _ _).imp (fun _ _ h' => h.trans h') fun _ _ h => h)) fun _ _ h => h.alarm

theorem nextTokens_still (h : Calm s) (hs : TokenStream.Standing o s.stream k t) (n : Nat) :
    (nextTokens n).Ends s (fun next s' => Lookahead.look States.network n none none = .ok next ∧ Still o k t s s') Fatal := by
  refine (remembering_still (fun m a m' hm hf => (hm.next hf).2) (fun g hg => ?_) h hs).imp ?_ fun _ _ h => h
  · exact ⟨Lookahead.next_safe _ _ _ g hg, hs.reading.legible⟩
  · rintro next s' ⟨⟨m, hm⟩, hstill⟩
    exact ⟨(h.trained.lookahead.next hm).1, hstill⟩

theorem nextTokens_leads (n : Nat) : Leads (Still o k t s₀) (nextTokens n) fun _ => Still o k t s₀ :=
  (Leads.of_still (nextTokens_indelible n) (fun _ h hs => nextTokens_still h hs n) fun _ _ h => h.alarm).imp (fun _ => id)
    fun _ _ h => h.2

theorem lift_leads {x : Except Fault α} (h : Fault.Safe x) : Leads (Still o k t s₀) (liftM x : Act α) fun _ => Still o k t s₀ :=
  .of_ends (lift_indelible x) (E := Fatal)
    (fun _ hs => .lift (fun _ _ => hs) fun f hf => ⟨h f hf, hs.standing.reading.legible⟩) fun _ _ h => h.alarm

theorem mismatch_leads : Leads (Still o k t s₀) mismatch fun _ => Still o k t s₀ :=
  .bind currentToken_leads fun _ => .get fun _ => .pure fun _ h => h.2.2

theorem stateHere_leads : Leads (Still o k t s₀) stateHere fun _ => Still o k t s₀ :=
  .get fun _ => (lift_leads (.unless _ (by trivial))).imp (fun _ h => h.2) fun _ _ => id

/-! ## Recovery complains -/

theorem Still.upset (h : Still o k t s s') : s'.recovering = false ∧ s'.stream.Legible :=
  ⟨h.calm.settled, h.standing.reading.legible⟩

theorem reportExpecting_leads (wording : Token → String → String) : Leads (Still o k t s₀) (reportExpecting wording) fun _ _ => False :=
  .of_marred (reportExpecting_indelible _) fun _ h => reportExpecting_marred h.upset.1 h.upset.2 _

theorem throw_leads (r : Recognition) : Leads (Still o k t s₀) (throw (.recognition r) : Act α) fun _ _ => False :=
  .of_ends (throw_indelible _) (E := fun _ => Still o k t s₀) (fun _ h => h) fun _ _ h => .inr ⟨h.upset.2, .inr h.upset.1⟩

/-- Nothing is dropped without a complaint. -/
theorem dropUnwanted_leads : Leads (Still o k t s₀) dropUnwanted fun r s => r = none ∧ Still o k t s₀ s := by
  refine .bind ahead_leads fun after => .bind expectedTokens_leads fun q => .ite (fun _ => .pure fun _ h => ⟨rfl, h⟩) fun _ => ?_
  exact .bind (reportExpecting_leads _) fun _ => .of_false (.bind consume_indelible fun _ => .bind currentToken_indelible fun _ =>
    .bind endCondition_indelible fun _ => .pure _)

/-- Nothing is made up without a complaint. -/
theorem canInsert_leads : Leads (Still o k t s₀) canInsert fun b s => b = false ∧ Still o k t s₀ s := by
  refine .bind nextType_leads fun type => .get fun s => .bind ((stateHere_leads).imp (fun _ h => h.2.2) fun _ _ => id) fun n =>
    .bind (lift_leads (.unless _ trivial)) fun first => .bind (.ite (fun _ => nextTokens_leads _) fun _ =>
      lift_leads (Lookahead.look_safe _ _ _ _)) fun after => .ite (fun _ => ?_) fun _ => .pure fun _ h => ⟨rfl, h⟩
  exact .bind (reportExpecting_leads _) fun _ => .of_false (.pure _)

theorem cancel_leads (r : Recognition) : Leads (Still o k t s₀) (cancel r : Act α) fun _ _ => False :=
  .of_ends (cancel_indelible r) (E := Fatal) (fun _ h => .of_outcome rfl (⟨trivial, h.upset.2⟩ : Fatal (.cancelled r) _))
    fun _ _ h => h.alarm

theorem recoverInline_leads : Leads (Still o k t s₀) recoverInline fun _ _ => False := by
  refine .get fun s => .ite (fun _ => .bind ((mismatch_leads).imp (fun _ h => h.2) fun _ _ => id) fun r => .bind (cancel_leads r) fun _ =>
    .imp (P := Still o k t s₀) ?_ (fun _ => False.elim) fun _ _ => id) fun _ => .imp (P := Still o k t s₀) ?_ (fun _ h => h.2) fun _ _ => id
  all_goals
    refine .bind dropUnwanted_leads fun dropped => ?_
    split
    · exact (Leads.of_false (.bind consume_indelible fun _ => .pure _)).imp (fun _ h => nomatch h.1) fun _ _ => id
    · refine .bind ((canInsert_leads).imp (fun _ h => h.2) fun _ _ => id) fun inserted => .ite (fun hb => ?_) fun _ => ?_
      · exact (Leads.of_false missingToken_indelible).imp (fun _ h => nomatch hb.symm.trans h.1) fun _ _ => id
      · exact .bind ((mismatch_leads).imp (fun _ h => h.2) fun _ _ => id) fun r => throw_leads r

theorem dropOrFail_leads : Leads (Still o k t s₀) dropOrFail fun _ _ => False := by
  refine .bind dropUnwanted_leads fun dropped => ?_
  split
  · exact (Leads.of_false (.pure _)).imp (fun _ h => nomatch h.1) fun _ _ => id
  · exact .bind ((mismatch_leads).imp (fun _ h => h.2) fun _ _ => id) fun r => throw_leads r

theorem dropUnfit_leads (n : Nat) : Leads (Still o k t s₀) (dropUnfit n) fun _ _ => False := by
  refine .bind (reportExpecting_leads _) fun _ => .of_false (.bind expectedTokens_indelible fun q => .bind recoverySet_indelible fun _ => ?_)
  refine .ite (.bind (.modify fun _ h => h) ?rest) (?rest ())
  exact fun _ => consumeUntil_indelible _

/-- Before a decision, all stays as it is or a complaint is made. -/
theorem sync_leads : Leads (Still o k t s₀) sync fun _ => Still o k t s₀ := by
  refine .get fun s => .imp (P := Still o k t s₀) ?_ (fun _ h => h.2) fun _ _ => id
  refine .ite (fun _ => .pure fun _ => id) fun _ => .bind stateHere_leads fun n => .bind nextType_leads fun type =>
    .bind ((nextTokens_leads n).imp (fun _ h => h.2) fun _ _ => id) fun next => .ite (fun _ => .pure fun _ => id) fun _ => ?_
  split
  case h_1 | h_2 | h_3 | h_4 => exact (dropOrFail_leads).imp (fun _ => id) fun _ _ => False.elim
  case h_5 | h_6 => exact (dropUnfit_leads n).imp (fun _ => id) fun _ _ => False.elim
  case h_7 => exact .pure fun _ => id

/-- A failure inside a rule is complained about, unless that fails. -/
theorem reported_marred (r : Recognition) (hquiet : s.recovering = false) (hs : s.stream.Legible) : Run.Ends (do
    modifyLabel fun l => { l with stuck := some r.kind }
    reportFailure r
    recover r) s (fun _ => Marred) fun f s' => s'.Marred ∨ Fatal f s' := by
  have hlabel : (modifyLabel fun l => { l with stuck := some r.kind }).Ends s
      (fun _ s' => s'.recovering = false ∧ s'.stream.Legible) Fatal := by
    refine .after_get ?_
    split
    · exact ⟨trivial, hs⟩
    · exact ⟨hquiet, hs⟩
  refine (hlabel.imp (fun _ _ h => h) fun _ _ => .inr).bind fun _ s₁ h₁ => ?_
  refine ((reportFailure_marred h₁.1 h₁.2 r).imp (fun _ _ h => h) fun _ _ => .inr).bind fun _ s₂ h₂ => ?_
  exact (recover_indelible r s₂ h₂).imp (fun _ _ h => h) fun _ _ => .inl

theorem guarded_ends {body : Act Unit} {Q : Unit → Session → Prop}
    (hbody : body.Ends s (fun a s' => s'.Marred ∨ Q a s') Alarm) :
    (guarded body).Ends s (fun a s' => s'.Marred ∨ Q a s') fun f s' => s'.Marred ∨ Fatal f s' := by
  rcases hout : body.outcome s with ⟨f | a, s'⟩
  · have halarm := hbody.error hout
    refine .after (Run.outcome_attempt body s) ?_
    rw [hout]
    rcases halarm with hm | ⟨htame, hf⟩
    · -- what the handler does leaves the complaint
      split
      · exact .of_ok (Run.outcome_pure _ _) (.inl hm)
      · exact (Run.Keeps.bind (modifyLabel_indelible _) (fun _ => .bind (reportFailure_indelible _) fun _ => recover_indelible _) s' hm).imp
          (fun _ _ => .inl) fun _ _ => .inl
      · exact .inl hm
    · cases f with
      | recognition r => exact (reported_marred r (hf.resolve_left id) htame).imp (fun _ _ => .inl) fun _ _ => id
      | _ => exact .inr ⟨trivial, htame⟩
  · refine .after (Run.outcome_attempt body s) ?_
    rw [hout]
    exact hbody.ok hout

end Session

end NimbleLang
