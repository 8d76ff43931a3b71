import NimbleLang.Proofs.Growth
import NimbleLang.Proofs.Heedless

/-!
A session that bails next to one that recovers, over the same tokens. As long as nothing is complained about, both do the same;
where the one that bails gives up, the other complains (`Session.Abreast`). What the acts that build a tree lead to is said once
for both of them.
-/

namespace NimbleLang

namespace Run

variable {σ α β : Type} {S : σ → σ → Prop}

theorem Parallel.forIn {f g : α → β → Run σ (ForInStep β)} (h : ∀ a b, Parallel S (f a b) (g a b)) (l : List α) (b : β) :
    Parallel S (ForIn.forIn l b f) (ForIn.forIn l b g) := by
  induction l generalizing b with
  | nil => exact .pure b
  | cons a l ih =>
    rw [List.forIn_cons, List.forIn_cons]
    refine .bind (h a b) fun step => ?_
    split
    · exact .pure _
    · exact ih _

end Run

namespace Session

open Predict Grammar Recogniser

variable {α β : Type}

/-! ## Side by side -/

/-- A session that recovers, and one that bails; what they remember of lookahead may differ. -/
def Beside (d b : Session) : Prop :=
  d.bail = false ∧ ∃ memory callers, b = { d with bail := true, lookahead := memory, callers }

/-- An act that does the same in both. -/
abbrev Impartial (act : Act α) : Prop := Run.Parallel Beside act act

theorem get_impartial {f : Session → Act β}
    (h : ∀ d memory callers, Run.Parallel Beside (f d) (f { d with bail := true, lookahead := memory, callers })) :
    Impartial (get >>= f) := by
  refine .get ?_
  rintro d _ ⟨-, memory, callers, rfl⟩
  exact h d memory callers

theorem modify_impartial {f : Session → Session} (h : ∀ d bail memory callers,
    f { d with bail, lookahead := memory, callers } = { f d with bail, lookahead := memory, callers }) :
    Impartial (modify f) := by
  refine .modify ?_
  rintro d _ ⟨hbail, memory, callers, rfl⟩
  exact ⟨(congrArg Session.bail (h d d.bail d.lookahead d.callers)).trans hbail, memory, callers, h d true memory callers⟩

theorem onRecogniser_impartial {act : Recogniser.Act α} (h : Heedless act) : Impartial (onRecogniser act) := by
  rintro d _ ⟨hbail, memory, callers, rfl⟩
  obtain ⟨x, r, _, hx, hx', ⟨m, rfl⟩, hv⟩ := h d.inside { d.inside with lookahead := memory } ⟨memory, rfl⟩
  refine ⟨x, { d with toRecogniser := r }, { d with toRecogniser := { r with lookahead := m }, bail := true }, ?_, ?_,
    ⟨hbail, m, r.callers, rfl⟩, hv⟩
  · rw [onRecogniser, Run.outcome_onPart]
    exact congrArg (fun q => (q.1, { d with toRecogniser := q.2 })) hx
  · rw [onRecogniser, Run.outcome_onPart]
    exact congrArg (fun q => (q.1, { d with toRecogniser := q.2, bail := true })) hx'

theorem onStream_impartial (act : TokenStream.Act Supply α) : Impartial (onStream act) :=
  onRecogniser_impartial (onStream_heedless act)

theorem currentToken_impartial : Impartial currentToken := onRecogniser_impartial currentToken_heedless

theorem previousToken_impartial : Impartial previousToken := onStream_impartial _

theorem nextType_impartial : Impartial nextType := onStream_impartial _

theorem setState_impartial (n : Int) : Impartial (setState n) := modify_impartial fun _ _ _ _ => rfl

theorem top_impartial : Impartial top := get_impartial fun _ _ _ => .lift _

theorem modifyTop_impartial (f : Frame → Frame) : Impartial (modifyTop f) := by
  refine get_impartial fun d memory callers => ?_
  dsimp only
  split
  · exact .throw _
  · exact modify_impartial fun _ _ _ _ => rfl

theorem modifyLabel_impartial (f : Label → Label) : Impartial (modifyLabel f) := modifyTop_impartial _

theorem dropTop_impartial : Impartial dropTop := modify_impartial fun _ _ _ _ => rfl

theorem choose_impartial (decision : Int) : Impartial (choose decision) :=
  get_impartial fun _ _ _ => onRecogniser_impartial (choose_heedless _ _)

theorem note_impartial (event : String) : Impartial (note event) := modify_impartial fun _ _ _ _ => rfl

theorem tracedName_impartial (form : Form) : Impartial (tracedName form) := get_impartial fun _ _ _ => .lift _

theorem traceRule_impartial (word : String) (form : Form) : Impartial (traceRule word form) :=
  .bind (tracedName_impartial form) fun _ => .bind currentToken_impartial fun _ => .bind (.lift _) fun _ =>
    onRecogniser_impartial (print_heedless _)

theorem told_impartial (form : Form) (word : String) : Impartial (told form word) := .ite (note_impartial _) (.pure _)

theorem announce_impartial {order : List Watcher → List Watcher} {tell : Watcher → Act Unit} (h : ∀ w, Impartial (tell w)) :
    Impartial (announce order tell) :=
  get_impartial fun _ _ _ => .bind (.forIn (fun w _ => .bind (h w) fun _ => .pure _) _ _) fun _ => .pure _

theorem announceEntry_impartial : Impartial announceEntry := by
  refine announce_impartial fun w => .bind top_impartial fun f => ?_
  cases w
  · exact .bind (note_impartial _) fun _ => told_impartial _ _
  · exact traceRule_impartial _ _

theorem announceExit_impartial : Impartial announceExit := by
  refine announce_impartial fun w => .bind top_impartial fun f => ?_
  cases w
  · exact .bind (told_impartial _ _) fun _ => note_impartial _
  · exact traceRule_impartial _ _

theorem announceLeaf_impartial (t : Tree) : Impartial (announceLeaf t) := by
  refine announce_impartial fun w => ?_
  split
  · exact .bind (.lift _) fun _ => note_impartial _
  · exact .bind (.lift _) fun _ => note_impartial _
  · exact .bind top_impartial fun _ => .bind (tracedName_impartial _) fun _ => onRecogniser_impartial (print_heedless _)
  · exact .pure _

theorem endCondition_impartial : Impartial endCondition := modify_impartial fun _ _ _ _ => rfl

theorem consume_impartial : Impartial consume := by
  refine .bind currentToken_impartial fun t => ?_
  refine .ite (.bind (onStream_impartial _) ?rest) (?rest ())
  refine fun _ => get_impartial fun d _ _ => .ite ?_ (.pure _)
  exact .bind (modifyTop_impartial _) fun _ => .bind (announceLeaf_impartial _) fun _ => .pure _

theorem openFrame_impartial (form : Form) (invoking state : Int) : Impartial (openFrame form invoking state) :=
  .bind (modify_impartial fun _ _ _ _ => rfl) fun _ => .bind currentToken_impartial fun _ => modifyLabel_impartial _

theorem enterRule_impartial (form : Form) (state : Int) : Impartial (enterRule form state) :=
  get_impartial fun _ _ _ => .bind (openFrame_impartial _ _ _) fun _ => announceEntry_impartial

theorem attach_impartial (t : Tree) : Impartial (attach t) := get_impartial fun _ _ _ => .ite (modifyTop_impartial _) (.pure _)

theorem relabel_impartial (form : Form) : Impartial (relabel form) := modifyTop_impartial _

theorem wrapTop_impartial (form : Form) (invoking : Int) : Impartial (wrapTop form invoking) :=
  .bind previousToken_impartial fun _ => .bind (modifyLabel_impartial _) fun _ => .bind top_impartial fun _ =>
    .bind dropTop_impartial fun _ => get_impartial fun _ _ _ => .bind (modify_impartial fun _ _ _ _ => rfl) fun _ =>
      announceEntry_impartial

theorem tokenFuel_impartial : Impartial tokenFuel := get_impartial fun _ _ _ => .pure _

theorem enterPhrase_impartial (rule : Rule) (p : Int) : Impartial (enterPhrase rule p) :=
  .ite (.bind (modify_impartial fun _ _ _ _ => rfl) fun _ => get_impartial fun _ _ _ => .bind (openFrame_impartial _ _ _) fun _ =>
    announceEntry_impartial) (enterRule_impartial _ _)

theorem leavePhrase_impartial (rule : Rule) : Impartial (leavePhrase rule) :=
  .bind (.ite (modify_impartial fun _ _ _ _ => rfl) (.pure _)) fun _ => .bind top_impartial fun _ => .bind previousToken_impartial fun _ =>
    .bind (modifyLabel_impartial _) fun _ => .bind announceExit_impartial fun _ => .bind top_impartial fun _ =>
    .bind (.ite (.pure _) (setState_impartial _)) fun _ => .bind dropTop_impartial fun _ => .bind (attach_impartial _) fun _ => .pure _

/-! ## Abreast -/

variable {o : Tape} {k : Nat} {fs : List Frame} {ps : List Int} {P P' : Session → Prop} {Q Q' : α → Session → Prop}
  {R : β → Session → Prop}

/-- From sessions as `P` says both go on, do the same and come to sessions as `Q` says; or the one that bails fails, and the other
complains or fails as well. A complaint that was made before stays. -/
structure Abreast (P : Session → Prop) (act : Act α) (Q : α → Session → Prop) : Prop where
  indelible : Indelible act
  both : ∀ d b, P d → Beside d b →
    (∃ a d' b', act.outcome d = (.ok a, d') ∧ act.outcome b = (.ok a, b') ∧ Q a d' ∧ Beside d' b') ∨
    (∃ f b', act.outcome b = (.error f, b')) ∧ act.Ends d (fun _ => Marred) Alarm

/-- The session that bails fails. -/
def Refused (P : Session → Prop) (act : Act α) : Prop := ∀ d b, P d → Beside d b → ∃ f b', act.outcome b = (.error f, b')

namespace Abreast

variable {x : Act α} {f : α → Act β}

theorem of_ends (hi : Indelible x) (hx : Impartial x) (h : ∀ s, P s → x.Ends s Q Alarm) : Abreast P x Q := by
  refine ⟨hi, fun d b hd hb => ?_⟩
  obtain ⟨r, d', b', hdo, hbo, hbeside, -⟩ := hx d b hb
  cases r with
  | ok a => exact .inl ⟨a, d', b', hdo, hbo, (h d hd).ok hdo, hbeside⟩
  | error f =>
    refine .inr ⟨⟨f, b', hbo⟩, ?_⟩
    rw [Run.Ends, hdo]
    exact (h d hd).error hdo

theorem of_goes (hi : Indelible x) (hx : Impartial x) (h : Goes P x Q) : Abreast P x Q :=
  of_ends hi hx fun s hs => (h s hs).imp (fun _ _ => id) fun _ _ => False.elim

theorem of_refused (hi : Indelible x) (h : Refused P x) (hx : ∀ s, P s → x.Ends s (fun _ => Marred) Alarm) : Abreast P x Q :=
  ⟨hi, fun d b hd hb => .inr ⟨h d b hd hb, hx d hd⟩⟩

theorem pure {a : α} (h : ∀ s, P s → Q a s) : Abreast P (pure a) Q :=
  ⟨.pure a, fun d b hd hb => .inl ⟨a, d, b, rfl, rfl, h d hd, hb⟩⟩

theorem bind (hx : Abreast P x Q) (hf : ∀ a, Abreast (Q a) (f a) R) : Abreast P (x >>= f) R := by
  refine ⟨.bind hx.indelible fun a => (hf a).indelible, fun d b hd hb => ?_⟩
  rcases hx.both d b hd hb with ⟨a, d', b', hdo, hbo, hQ, hbeside⟩ | ⟨⟨g, b', hbo⟩, hends⟩
  · have h := (hf a).both d' b' hQ hbeside
    unfold Run.Ends at h ⊢
    rw [Run.outcome_bind_ok hdo, Run.outcome_bind_ok hbo]
    exact h
  · refine .inr ⟨⟨g, b', Run.outcome_bind_error hbo f⟩, hends.bind fun a s hs => ?_⟩
    exact ((hf a).indelible s hs).imp (fun _ _ => id) fun _ _ => .inl

theorem imp (hx : Abreast P x Q) (hP : ∀ s, P' s → P s) (hQ : ∀ a s, Q a s → Q' a s) : Abreast P' x Q' := by
  refine ⟨hx.indelible, fun d b hd hb => (hx.both d b (hP d hd) hb).imp_left ?_⟩
  rintro ⟨a, d', b', hdo, hbo, hq, hbeside⟩
  exact ⟨a, d', b', hdo, hbo, hQ a d' hq, hbeside⟩

theorem ite {c : Prop} [Decidable c] {y : Act α} (hx : c → Abreast P x Q) (hy : ¬c → Abreast P y Q) :
    Abreast P (if c then x else y) Q := by
  split
  · exact hx ‹_›
  · exact hy ‹_›

theorem cases (hi : Indelible x) (h : ∀ s, P s → ∃ P', P' s ∧ Abreast P' x Q) : Abreast P x Q := by
  refine ⟨hi, fun d b hd hb => ?_⟩
  obtain ⟨P', hd, h⟩ := h d hd
  exact h.both d b hd hb

theorem assuming {c : Prop} (hi : Indelible x) (h : c → Abreast P x Q) : Abreast (fun s => c ∧ P s) x Q :=
  cases hi fun _ hs => ⟨P, hs.2, h hs.1⟩

theorem of_exists {ι : Type} {c : ι → Prop} {P : ι → Session → Prop} (hc : ∃ i, c i) (h : ∀ i, c i → Abreast (P i) x Q) :
    Abreast (fun s => ∃ i, c i ∧ P i s) x Q := by
  obtain ⟨i, hi⟩ := hc
  refine cases (h i hi).indelible ?_
  rintro s ⟨j, hj, hs⟩
  exact ⟨_, hs, h j hj⟩

theorem of_false (hi : Indelible x) : Abreast (fun _ => False) x Q := ⟨hi, fun _ _ => False.elim⟩

theorem get {g : Session → Act β} (hi : Indelible (get >>= g)) (h : ∀ d, P d → Abreast P (g d) R)
    (hg : ∀ d memory callers, g { d with bail := true, lookahead := memory, callers } = g d) : Abreast P (get >>= g) R := by
  refine ⟨hi, ?_⟩
  rintro d _ hd ⟨hbail, memory, callers, rfl⟩
  have h := (h d hd).both d _ hd ⟨hbail, memory, callers, rfl⟩
  unfold Run.Ends at h ⊢
  rw [Run.outcome_get_bind, Run.outcome_get_bind, hg]
  exact h

end Abreast

namespace Refused

variable {x : Act α} {f : α → Act β}

theorem bind (hx : Abreast P x Q) (hf : ∀ a, Refused (Q a) (f a)) : Refused P (x >>= f) := by
  intro d b hd hb
  rcases hx.both d b hd hb with ⟨a, d', b', -, hbo, hQ, hbeside⟩ | ⟨⟨g, b', hbo⟩, -⟩
  · rw [Run.outcome_bind_ok hbo]
    exact hf a d' b' hQ hbeside
  · exact ⟨g, b', Run.outcome_bind_error hbo f⟩

/-- What fails at its beginning fails. -/
theorem first (hx : Refused P x) : Refused P (x >>= f) := fun d b hd hb => by
  obtain ⟨g, b', hbo⟩ := hx d b hd hb
  exact ⟨g, b', Run.outcome_bind_error hbo f⟩

theorem assuming {c : Prop} (h : c → Refused P x) : Refused (fun s => c ∧ P s) x := fun d b hd => h hd.1 d b hd.2

end Refused

/-! ## Giving up -/

theorem fails_of_ends {act : Act α} {s : Session} (h : act.Ends s (fun _ _ => False) fun _ _ => True) :
    ∃ f s', act.outcome s = (.error f, s') := by
  rcases hout : act.outcome s with ⟨f | a, s'⟩
  · exact ⟨f, s', rfl⟩
  · exact (h.ok hout).elim

theorem cancel_bails (r : Recognition) (s : Session) : (cancel r : Act α).Ends s (fun _ _ => False) fun _ _ => True := trivial

theorem exhausted_refused : Refused P (throw .exhausted : Act α) := fun _ _ _ _ => ⟨_, _, rfl⟩

/-! ## Inside a phrase -/

variable {form : Form} {invoking : Int} {cs : List Tree}

theorem exhausted_abreast : Abreast (Within o k form invoking cs fs ps) (throw .exhausted : Act α) Q := by
  refine .of_refused (throw_indelible _) exhausted_refused ?_
  rintro s ⟨label, -, hs⟩
  obtain ⟨t, ht⟩ := hs.standing
  exact .inr ⟨ht.reading.legible, .inl trivial⟩

theorem Abreast.within {act : Act α} (hi : Indelible act) (h : ∀ label : Label, label.form = form → label.invoking = invoking →
    Abreast (At o k (⟨label, cs.toArray⟩ :: fs) ps) act Q) : Abreast (Within o k form invoking cs fs ps) act Q := by
  refine .cases hi ?_
  rintro s ⟨label, ⟨hform, hinvoking⟩, hs⟩
  exact ⟨_, hs, h label hform hinvoking⟩

section

variable {act : Act α} (hi : Indelible act) (hx : Impartial act)
include hi hx

/-- What changes no phrase leaves the innermost one. -/
theorem Abreast.keeping {P : α → Prop} (h : ∀ fs s, At o k fs ps s → act.Ends s (fun a s' => P a ∧ At o k fs ps s') Alarm) :
    Abreast (Within o k form invoking cs fs ps) act fun a s => P a ∧ Within o k form invoking cs fs ps s :=
  .within hi fun _ hform hinvoking => .of_ends hi hx fun s hs => (h _ s hs).imp (fun _ _ h => ⟨h.1, h.2.within hform hinvoking⟩)
    fun _ _ => id

theorem Abreast.keeping_goes {P : α → Prop} (h : ∀ fs, Goes (At o k fs ps) act fun a s' => P a ∧ At o k fs ps s') :
    Abreast (Within o k form invoking cs fs ps) act fun a s => P a ∧ Within o k form invoking cs fs ps s :=
  .keeping hi hx fun fs s hs => (h fs s hs).imp (fun _ _ => id) fun _ _ => False.elim

theorem Abreast.still (h : ∀ label, Goes (At o k (⟨label, cs.toArray⟩ :: fs) ps) act fun _ s' => ∃ label' : Label,
    (label'.form = label.form ∧ label'.invoking = label.invoking) ∧ At o k (⟨label', cs.toArray⟩ :: fs) ps s') :
    Abreast (Within o k form invoking cs fs ps) act fun _ => Within o k form invoking cs fs ps :=
  .of_goes hi hx (.within fun label hform hinvoking => (h label).imp (fun _ => id) fun _ _ ⟨_, heq, hs⟩ =>
    hs.within (heq.1.trans hform) (heq.2.trans hinvoking))

end

theorem currentToken_abreast : Abreast (Within o k form invoking cs fs ps) currentToken fun x s =>
    o.token? k = some x ∧ Within o k form invoking cs fs ps s :=
  .keeping_goes currentToken_indelible currentToken_impartial fun _ => currentToken_goes

theorem nextType_abreast : Abreast (Within o k form invoking cs fs ps) nextType fun x s =>
    x = o.type k ∧ Within o k form invoking cs fs ps s :=
  .keeping_goes nextType_indelible nextType_impartial fun _ => nextType_goes

theorem previousToken_abreast : Abreast (Within o k form invoking cs fs ps) previousToken fun _ =>
    Within o k form invoking cs fs ps :=
  .still previousToken_indelible previousToken_impartial fun label => (previousToken_goes).imp (fun _ => id)
    fun _ _ h => ⟨label, ⟨rfl, rfl⟩, h⟩

/-- A note on the label that changes neither its form nor where it was called. -/
theorem modifyLabel_abreast {f : Label → Label} (hf : ∀ l, (f l).form = l.form ∧ (f l).invoking = l.invoking) :
    Abreast (Within o k form invoking cs fs ps) (modifyLabel f) fun _ => Within o k form invoking cs fs ps :=
  .still (modifyLabel_indelible f) (modifyLabel_impartial f) fun label => (modifyTop_goes _).imp (fun _ => id)
    fun _ _ h => ⟨f label, hf label, h⟩

theorem setState_abreast (n : Int) : Abreast (Within o k form invoking cs fs ps) (setState n) fun _ s =>
    s.state = n ∧ Within o k form invoking cs fs ps s :=
  .of_goes (setState_indelible n) (setState_impartial n) (.within fun _ hform hinvoking => (setState_goes n).imp (fun _ => id)
    fun _ _ h => ⟨h.2, h.1.within hform hinvoking⟩)

theorem setState_within (n : Int) : Abreast (Within o k form invoking cs fs ps) (setState n) fun _ =>
    Within o k form invoking cs fs ps := (setState_abreast n).imp (fun _ => id) fun _ _ h => h.2

theorem tokenFuel_abreast : Abreast (Within o k form invoking cs fs ps) tokenFuel fun _ => Within o k form invoking cs fs ps :=
  .of_ends tokenFuel_indelible tokenFuel_impartial fun _ hs => hs

/-! ## Tokens -/

/-- Where a token does not fit, the session that bails gives up. -/
theorem recoverInline_refused : Refused P recoverInline := by
  rintro d _ - ⟨-, memory, callers, rfl⟩
  refine fails_of_ends ?_
  refine .after_get ?_
  rw [if_pos rfl]
  exact (Run.Ends.trivial mismatch _).bind fun r _ _ => Run.Ends.bind (cancel_bails r _) fun _ _ => False.elim

theorem recoverInline_abreast : Abreast (Within o k form invoking cs fs ps) recoverInline fun _ _ => False := by
  refine .of_refused recoverInline_indelible recoverInline_refused ?_
  rintro s ⟨label, -, hs⟩
  obtain ⟨t, ht⟩ := hs.standing
  exact (recoverInline_leads s (.inr (.refl hs.calm ht))).imp (fun _ _ h => h.resolve_right id) fun _ _ => id

theorem takeToken_abreast : Abreast (Within o k form invoking cs fs ps) takeToken fun x s =>
    o.token? k = some x ∧ Within o (Tape.after k x) form invoking (cs ++ [.leaf x]) fs ps s := by
  refine .of_goes takeToken_indelible (.bind endCondition_impartial fun _ => consume_impartial) ?_
  refine .within fun _ hform hinvoking => (takeToken_goes).imp (fun _ => id) fun x _ h => ⟨h.1, ?_⟩
  rw [addChild_toArray] at h
  exact h.2.within hform hinvoking

/-- The token at the place is one of these, and it was taken. -/
def Taken (o : Tape) (k : Nat) (types : List Int) (form : Form) (invoking : Int) (cs : List Tree) (fs : List Frame) (ps : List Int)
    (s : Session) : Prop :=
  ∃ x, (o.token? k = some x ∧ x.type ∈ types) ∧ Within o (Tape.after k x) form invoking (cs ++ [.leaf x]) fs ps s

theorem takeFitting_abreast {types : List Int} {x : Token} (hx : o.token? k = some x) (hfits : x.type ∈ types) (a : β) :
    Abreast (Within o k form invoking cs fs ps) (do let _ ← takeToken; return a) fun _ => Taken o k types form invoking cs fs ps := by
  refine .bind takeToken_abreast fun y => .pure ?_
  rintro s ⟨hy, hs⟩
  obtain rfl : x = y := Option.some.inj (hx.symm.trans hy)
  exact ⟨x, ⟨hx, hfits⟩, hs⟩

theorem matchToken_abreast (type : Int) : Abreast (Within o k form invoking cs fs ps) (matchToken (·.type == type)) fun _ =>
    Taken o k [type] form invoking cs fs ps := by
  refine .bind currentToken_abreast fun x => .assuming ?_ fun hx => .ite (fun hfits => ?_) fun _ => ?_
  · exact .ite (.bind takeToken_indelible fun _ => .pure _) replaceToken_indelible
  · exact takeFitting_abreast hx (List.mem_singleton.mpr (beq_iff_eq.mp hfits)) x
  · exact .bind recoverInline_abreast fun _ => .of_false (.bind .get fun _ =>
      .ite (.bind (modifyTop_indelible _) fun _ => .pure _) (.pure _))

theorem takeOperator_abreast (types : List Int) : Abreast (Within o k form invoking cs fs ps) (takeOperator types) fun _ =>
    Taken o k types form invoking cs fs ps := by
  have hrest (x : Token) : Indelible (if types.contains x.type then do let _ ← takeToken else do
      let t ← recoverInline
      modifyLabel fun l => { l with op := some t }) :=
    .ite (.bind takeToken_indelible fun _ => .pure _) (.bind recoverInline_indelible fun _ => modifyLabel_indelible _)
  refine .bind currentToken_abreast fun x => .assuming (.bind (modifyLabel_indelible _) fun _ => hrest x) fun hx =>
    .bind (modifyLabel_abreast fun _ => ⟨rfl, rfl⟩) fun _ => .ite (fun hfits => ?_) fun _ => ?_
  · exact takeFitting_abreast hx (List.contains_iff_mem.mp hfits) ()
  · exact .bind recoverInline_abreast fun _ => .of_false (modifyLabel_indelible _)

end Session

end NimbleLang
