import NimbleLang.Proofs.Bodies
import NimbleLang.Proofs.Lookaheads
import NimbleLang.Proofs.Predictions
import NimbleLang.Parse.Strict

/-!
A complaint once made stays. Whatever a session does, and even if it fails in the middle, what was complained about before
is still noted afterwards (`Session.Indelible`). So a parse that ends without complaints made none on its way, and all that
recovery does can be left aside. Whether a session bails does not change either; both are proved at once (`Session.Lasting`).
-/

namespace NimbleLang

namespace Session

variable {α : Type}

/-- Whether the parser has complained. -/
abbrev Marred (s : Session) : Prop := s.journal.Marred

/-- An act that leaves complaints noted. -/
abbrev Indelible (act : Act α) : Prop := act.Keeps Marred fun _ => Marred

/-- The recogniser as the acts of a session see it. -/
def inside (s : Session) : Recogniser := { s.toRecogniser with callers := s.underWay }

/-- What is kept by all that looks around and asks for lookahead sets, without moving or complaining. -/
class Steady (I : Session → Prop) : Prop where
  framed {s s' : Session} : s'.toRecogniser = s.toRecogniser → s'.bail = s.bail → s'.recovering = s.recovering → I s → I s'
  around {α : Type} {act : TokenStream.Act Supply α} : (∀ {I : TokenStream Supply → Prop}, TokenStream.Lasting I →
    TokenStream.Careful I TokenStream.lazyInit → TokenStream.Careful I act) → Lasts I (onStream act)
  print (line : String) : Lasts I (onRecogniser (Recogniser.print line))
  remember {s : Session} {m : Lookahead.Memory} : Lookahead.Memory.Step s.net s.lookahead m → I s → I { s with lookahead := m }

/-- What is kept by all that looks around, complains and asks for lookahead sets. -/
class Enduring (I : Session → Prop) : Prop where
  marked {s s' : Session} : s'.journal = s.journal → s'.bail = s.bail → s'.lookahead = s.lookahead → s'.net = s.net →
    s'.state = s.state → I s → I s'
  recogniser {s : Session} {r : Recogniser} : (s.Marred → r.journal.Marred) → r.bare = s.inside.bare → I s →
    I { s with toRecogniser := r }
  remember {s : Session} {m : Lookahead.Memory} : Lookahead.Memory.Step s.net s.lookahead m → I s → I { s with lookahead := m }

/-- What depends on nothing but the complaints made, the sets remembered and whether the session bails, and is not undone by a
complaint or by a step of the memory. -/
class Lasting (I : Session → Prop) : Prop extends Enduring I where
  part {s s' : Session} : s'.journal = s.journal → s'.bail = s.bail → s'.lookahead = s.lookahead → s'.net = s.net → I s → I s'
  marked hjournal hbail hmemory hnet _ hs := part hjournal hbail hmemory hnet hs

instance : Lasting Marred where
  part hjournal _ _ _ hs := by
    rw [Marred, hjournal]
    exact hs
  recogniser h _ := h
  remember _ hs := hs

instance (b : Bool) : Lasting (·.bail = b) where
  part _ hbail _ _ hs := hbail.trans hs
  recogniser _ _ hs := hs
  remember _ hs := hs

/-- The session is in the given state of the given network. -/
def Placed (net : Network) (n : Int) (s : Session) : Prop := s.net = net ∧ s.state = n

instance (net : Network) (n : Int) : Enduring (Placed net n) where
  marked _ _ _ hnet hstate hs := ⟨hnet.trans hs.1, hstate.trans hs.2⟩
  recogniser _ hrest hs := ⟨(congrArg Recogniser.net hrest).trans hs.1, (congrArg Recogniser.state hrest).trans hs.2⟩
  remember _ hs := hs

instance {I K : Session → Prop} [Enduring I] [Enduring K] : Enduring fun s => I s ∧ K s where
  marked hjournal hbail hmemory hnet hstate hs :=
    ⟨Enduring.marked hjournal hbail hmemory hnet hstate hs.1, Enduring.marked hjournal hbail hmemory hnet hstate hs.2⟩
  recogniser hmarred hrest hs := ⟨Enduring.recogniser hmarred hrest hs.1, Enduring.recogniser hmarred hrest hs.2⟩
  remember hstep hs := ⟨Enduring.remember hstep hs.1, Enduring.remember hstep hs.2⟩

/-! ## Looking around -/

section

variable {I : Session → Prop}

theorem throw_indelible (f : Fault) : Lasts I (throw f : Act α) := .throw fun _ h => h

theorem lift_indelible (x : Except Fault α) : Lasts I (liftM x : Act α) := .lift fun _ _ _ h => h

theorem top_indelible : Lasts I top := .bind .get fun _ => lift_indelible _

theorem tracedName_indelible (form : Grammar.Form) : Lasts I (tracedName form) := .bind .get fun _ => lift_indelible _

theorem stateHere_indelible : Lasts I stateHere := .bind .get fun _ => lift_indelible _

theorem spellSet_indelible (set_ : IntervalSet) : Lasts I (spellSet set_) := .bind .get fun _ => lift_indelible _

theorem tokenFuel_indelible : Lasts I tokenFuel := Upheld.tokenFuel

end

section Recogniser

variable {I : Session → Prop} [Enduring I]

variable {act : Recogniser.Act α}

/-- An act of the recogniser that keeps its complaints and changes nothing but what a decision may change. -/
theorem onRecogniser_lasts (h : ∀ r, act.Ends r
    (fun _ r' => (r.journal.Marred → r'.journal.Marred) ∧ r'.bare = r.bare)
    fun _ r' => (r.journal.Marred → r'.journal.Marred) ∧ r'.bare = r.bare) : Lasts I (onRecogniser act) := by
  intro s hs
  have hact := h s.inside
  unfold onRecogniser Run.Ends
  unfold Run.Ends at hact
  rw [Run.outcome_onPart]
  rcases hout : act.outcome s.inside with ⟨f | a, r⟩
  all_goals
    rw [hout] at hact
    have hout' : act.outcome { s.toRecogniser with callers := s.frames.map Frame.caller } = _ := hout
    rw [hout']
    exact Enduring.recogniser hact.1 hact.2 hs

theorem onRecogniser_indelible {d : Nat} (h : ∀ a, Recogniser.Drifts d a act) :
    Lasts I (onRecogniser act) := by
  refine onRecogniser_lasts fun r => ?_
  exact (h r r (.refl d r)).imp (fun _ _ h => ⟨h.marred, h.rest⟩) fun _ _ h => ⟨h.marred, h.rest⟩

theorem onStream_indelible {act : TokenStream.Act Supply α} (hact : ∀ {I}, TokenStream.Stable I → TokenStream.Careful I act) :
    Lasts I (onStream act) := onRecogniser_indelible (d := 0) fun _ => Recogniser.onStream_drifts hact

instance : Steady I where
  framed h hbail _ hs := Enduring.marked (congrArg Recogniser.journal h) hbail (congrArg Recogniser.lookahead h)
    (congrArg Recogniser.net h) (congrArg Recogniser.state h) hs
  around hact := onStream_indelible fun h => hact h.lasting (TokenStream.lazyInit_careful h)
  print line := onRecogniser_indelible (d := 0) fun _ => Recogniser.print_drifts line
  remember := Enduring.remember

end Recogniser

instance {I K : Session → Prop} [Steady I] [Steady K] : Steady fun s => I s ∧ K s where
  framed h hbail hrecovering hs := ⟨Steady.framed h hbail hrecovering hs.1, Steady.framed h hbail hrecovering hs.2⟩
  around hact s hs := (Steady.around (I := I) hact s hs.1).and (Steady.around (I := K) hact s hs.2)
  print line s hs := (Steady.print (I := I) line s hs.1).and (Steady.print (I := K) line s hs.2)
  remember hstep hs := ⟨Steady.remember hstep hs.1, Steady.remember hstep hs.2⟩

section Steady

variable {I : Session → Prop} [Steady I]

theorem frame_indelible {f : Session → Session} (h : ∀ s, (f s).toRecogniser = s.toRecogniser ∧ (f s).bail = s.bail ∧
    (f s).recovering = s.recovering) : Lasts I (modify f) :=
  .modify fun s => Steady.framed (h s).1 (h s).2.1 (h s).2.2

theorem currentToken_outcome (s : Session) :
    currentToken.outcome s = (onStream (TokenStream.look 1) >>= fun t => liftM (Fault.absent.unless t)).outcome s := by
  unfold currentToken onStream onRecogniser Recogniser.currentToken
  rw [Run.outcome_bind, Run.outcome_onPart, Run.outcome_onPart, Run.outcome_bind]
  rcases (Recogniser.onStream (TokenStream.look 1)).outcome _ with ⟨f | t, r⟩
  · rfl
  · rfl

theorem currentToken_indelible : Lasts I currentToken := by
  intro s hs
  refine .of_outcome (currentToken_outcome s) ?_
  exact (Steady.around fun h hbegun => TokenStream.look_begun h hbegun 1).bind (fun _ => lift_indelible _) s hs

theorem previousToken_indelible : Lasts I previousToken := Steady.around fun h hbegun => TokenStream.look_begun h hbegun _

theorem nextType_indelible : Lasts I nextType := Steady.around fun h hbegun => TokenStream.lookType_begun h hbegun _

theorem modifyTop_indelible (f : Frame → Frame) : Lasts I (modifyTop f) := by
  refine .bind .get fun s => ?_
  split
  · exact throw_indelible _
  · exact frame_indelible fun _ => ⟨rfl, rfl, rfl⟩

theorem modifyLabel_indelible (f : Label → Label) : Lasts I (modifyLabel f) := modifyTop_indelible _

/-! ## Watchers -/

theorem note_indelible (event : String) : Lasts I (note event) := frame_indelible fun _ => ⟨rfl, rfl, rfl⟩

theorem traceRule_indelible (word : String) (form : Grammar.Form) : Lasts I (traceRule word form) :=
  .bind (tracedName_indelible form) fun _ => .bind currentToken_indelible fun _ => .bind (lift_indelible _) fun _ =>
    Steady.print _

theorem told_indelible (form : Grammar.Form) (word : String) : Lasts I (told form word) :=
  .ite (note_indelible _) (.pure _)

omit [Steady I] in
theorem announce_indelible {order : List Watcher → List Watcher} {tell : Watcher → Act Unit} (h : ∀ w, Lasts I (tell w)) :
    Lasts I (announce order tell) :=
  .bind .get fun _ => .bind (.forIn (fun w _ => .bind (h w) fun _ => .pure _) _ _) fun _ => .pure _

theorem announceEntry_indelible : Lasts I announceEntry := by
  refine announce_indelible fun w => .bind top_indelible fun f => ?_
  cases w
  · exact .bind (note_indelible _) fun _ => told_indelible _ _
  · exact traceRule_indelible _ _

theorem announceExit_indelible : Lasts I announceExit := by
  refine announce_indelible fun w => .bind top_indelible fun f => ?_
  cases w
  · exact .bind (told_indelible _ _) fun _ => note_indelible _
  · exact traceRule_indelible _ _

theorem announceLeaf_indelible (t : Tree) : Lasts I (announceLeaf t) := by
  refine announce_indelible fun w => ?_
  split
  · exact .bind (lift_indelible _) fun _ => note_indelible _
  · exact .bind (lift_indelible _) fun _ => note_indelible _
  · exact .bind top_indelible fun _ => .bind (tracedName_indelible _) fun _ => Steady.print _
  · exact .pure _

/-! ## Lookahead sets -/

variable {s : Session} {f : Network → Lookahead.Memory → Except Fault (α × Lookahead.Memory)} {state : Int}
  {net : Network}

theorem Steady.history {m : Lookahead.Memory} (h : Lookahead.Memory.History s.net s.lookahead m) (hs : I s) :
    I { s with lookahead := m } := by
  induction h with
  | refl => exact hs
  | @tail m _ _ hstep ih => exact Steady.remember (s := { s with lookahead := m }) hstep ih

theorem remembering_eq {a : α}
    {memory : Lookahead.Memory} (h : f s.net s.lookahead = .ok (a, memory)) :
    (remembering f).outcome s = (.ok a, { s with lookahead := memory }) := by
  rw [remembering, Run.outcome_get_bind, h]
  rfl

theorem remembering_ends
    {Q : α → Session → Prop} {E : Fault → Session → Prop} (hok : ∀ a m, f s.net s.lookahead = .ok (a, m) → Q a { s with lookahead := m })
    (herror : ∀ e, f s.net s.lookahead = .error e → E e s) : (remembering f).Ends s Q E := by
  refine .after_get ?_
  refine Run.Ends.bind (Q := fun q s' => f s.net s.lookahead = .ok q ∧ s' = s) (.lift (fun _ h => ⟨h, rfl⟩) herror) ?_
  rintro ⟨a, m⟩ _ ⟨h, rfl⟩
  exact .of_ok (Run.outcome_modify_bind _ _ _) (hok a m h)

theorem remembering_indelible
    (hf : ∀ net m a m', f net m = .ok (a, m') → Lookahead.Memory.Grows net m m') : Lasts I (remembering f) := by
  intro s hs
  exact remembering_ends (fun a m h => Steady.history (hf _ _ a m h).history hs) fun _ _ => hs

theorem nextTokens_indelible (n : Nat) : Lasts I (nextTokens n) :=
  remembering_indelible fun _ _ _ _ h => (Lookahead.next_grows h).1

theorem expecting_grows {cs : Callers} {m m' : Lookahead.Memory} {q : IntervalSet × Bool}
    (h : (do
      let (set_, own, m) ← Lookahead.expected net m state cs
      return ((set_, own), m) : Except Fault ((IntervalSet × Bool) × Lookahead.Memory)) = .ok (q, m')) :
    Lookahead.expected net m state cs = .ok (q.1, q.2, m') := by
  obtain ⟨⟨set, own, m₁⟩, hexpected, h⟩ := Fault.bind_eq_ok.1 h
  cases h
  exact hexpected

theorem expectedTokens_indelible : Lasts I expectedTokens :=
  .bind .get fun _ => remembering_indelible fun _ _ _ _ h => (Lookahead.expected_grows (expecting_grows h)).1

theorem followSets_indelible (cs : Callers) : Lasts I (followSets cs) := by
  induction cs with
  | nil => exact .pure _
  | cons c rest ih =>
    unfold followSets
    split
    · exact throw_indelible _
    · exact .ite (.pure _) (.bind .get fun _ => .bind (lift_indelible _) fun _ => .bind (nextTokens_indelible _) fun _ =>
        .bind ih fun _ => .pure _)

theorem recoverySet_indelible : Lasts I recoverySet := .bind .get fun _ => .bind (followSets_indelible _) fun _ => .pure _

theorem mismatch_indelible : Lasts I mismatch := .bind currentToken_indelible fun _ => .bind .get fun _ => .pure _

theorem blamed_indelible (r : Recognition) : Lasts I (blamed r) := by
  unfold blamed
  split
  · exact .pure _
  · exact currentToken_indelible

theorem wording_indelible (r : Recognition) : Lasts I (wording r) := by
  unfold wording
  split
  · refine .bind (lift_indelible _) fun start => .bind (.ite (.pure _) ?_) fun _ => .pure _
    exact Steady.around fun h hbegun => TokenStream.text_begun h hbegun _ _
  · refine .bind .get fun s => .bind (remembering_indelible fun _ _ _ _ h =>
      (Lookahead.expected_grows (expecting_grows h)).1) fun q => ?_
    exact .bind (spellSet_indelible _) fun _ => .pure _
  · exact .bind top_indelible fun _ => .bind (tracedName_indelible _) fun _ => .bind (lift_indelible _) fun _ => .pure _
  · exact .pure _

theorem missingToken_indelible : Lasts I missingToken := by
  refine .bind currentToken_indelible fun t => .bind expectedTokens_indelible fun q => .bind .get fun s => ?_
  exact .bind previousToken_indelible fun _ => .pure _

theorem cancel_indelible (r : Recognition) : Lasts I (cancel r : Act α) :=
  .bind (frame_indelible fun _ => ⟨rfl, rfl, rfl⟩) fun _ => throw_indelible _

/-- What follows the rules under way is remembered, and the memory has only grown. -/
theorem followSets_ends (cs : Callers) {s : Session} (hs : I s) :
    (followSets cs).Ends s (fun sets s' => I s' ∧ s'.net = s.net ∧ Lookahead.Memory.Grows s.net s.lookahead s'.lookahead ∧
      ∀ f ∈ sets, Lookahead.Memory.Known s.net s'.lookahead f) fun _ => I := by
  induction cs generalizing s with
  | nil => exact .of_ok (Run.outcome_pure _ _) ⟨hs, rfl, .refl _ _, by simp⟩
  | cons c rest ih =>
    unfold followSets
    split
    · exact hs
    rename_i n hn
    split
    · exact .of_ok (Run.outcome_pure _ _) ⟨hs, rfl, .refl _ _, by simp⟩
    refine .after_get ?_
    refine Run.Ends.bind (Q := fun _ s' => s = s') (.lift (fun _ _ => rfl) fun _ _ => hs) ?_
    rintro follow _ rfl
    refine Run.Ends.bind (Q := fun f s' => I s' ∧ s'.net = s.net ∧ Lookahead.Memory.Grows s.net s.lookahead s'.lookahead ∧
      Lookahead.Memory.Known s.net s'.lookahead f) ?_ ?_
    · refine remembering_ends (fun f m h => ?_) fun _ _ => hs
      obtain ⟨hgrows, hknown, -⟩ := Lookahead.next_grows h
      exact ⟨Steady.history hgrows.history hs, rfl, hgrows, hknown⟩
    · rintro f s₁ ⟨hs₁, hnet₁, hgrows₁, hknown₁⟩
      refine (ih hs₁).bind ?_
      rintro sets s₂ ⟨hs₂, hnet₂, hgrows₂, hknown₂⟩
      rw [hnet₁] at hgrows₂ hknown₂
      refine .of_ok (Run.outcome_pure _ _) ⟨hs₂, hnet₂.trans hnet₁, hgrows₁.trans hgrows₂, ?_⟩
      simp only [List.forall_mem_cons]
      exact ⟨hknown₁.grows hgrows₂, hknown₂⟩

/-- At the back state of a loop, what is dropped is reported, and the remembered set grows. -/
theorem dropUnfit_indelible {n : Nat} (hn : Indexing.wrap? net.states.size state = some n)
    (hloop : (net.state n).endsLoop = true) (hreport : Lasts (fun s => I s ∧ Placed net state s) reportUnwanted)
    (hdrop : ∀ set_, Lasts I (consumeUntil set_)) (hs : I s) (hplaced : Placed net state s) :
    (dropUnfit n).Ends s (fun _ => I) fun _ => I := by
  refine ((hreport s ⟨hs, hplaced⟩).imp (fun _ _ h => h) fun _ _ h => h.1).bind ?_
  rintro _ s₁ ⟨hs₁, hnet₁, hstate₁⟩
  refine Run.Ends.bind (Q := fun q s' => I s' ∧ s'.net = net ∧ (q.2 = true → s'.lookahead.getD n none = some q.1 ∨
    s'.lookahead.size ≤ n)) ?_ ?_
  · refine .after_get ?_
    refine remembering_ends (fun q m h => ?_) fun _ _ => hs₁
    obtain ⟨hgrows, hlow, hhigh, hown⟩ := Lookahead.expected_grows (expecting_grows h)
    have hplace : s₁.state.toNat = n := by
      rw [hnet₁] at hhigh
      rw [hstate₁] at hlow hhigh ⊢
      rw [Indexing.wrap?, if_pos hlow, if_pos (by omega)] at hn
      exact Option.some.inj hn
    rw [hplace] at hown
    exact ⟨Steady.history hgrows.history hs₁, hnet₁, hown⟩
  rintro ⟨expecting, own⟩ s₂ ⟨hs₂, hnet₂, hown⟩
  refine Run.Ends.bind (Q := fun set s' => I s' ∧ s'.net = net ∧ Lookahead.Memory.Grows net s₂.lookahead s'.lookahead ∧
    ∃ sets, set = Lookahead.gather sets ∧ ∀ f ∈ sets, Lookahead.Memory.Known net s'.lookahead f) ?_ ?_
  · refine .after_get ?_
    refine (followSets_ends s₂.underWay hs₂).bind ?_
    rintro sets s₃ ⟨hs₃, hnet₃, hgrows, hknown⟩
    rw [hnet₂] at hgrows hknown
    exact .of_ok (Run.outcome_pure _ _) ⟨hs₃, hnet₃.trans hnet₂, hgrows, sets, rfl, hknown⟩
  rintro _ s₃ ⟨hs₃, hnet₃, hgrows, sets, rfl, hknown⟩
  have henlarged (h : own = true) :
      I { s₃ with lookahead := s₃.lookahead.setIfInBounds n (some (expecting.addSet (Lookahead.gather sets))) } := by
    rcases hown h with hset | hsize
    · refine Steady.remember ?_ hs₃
      rw [hnet₃]
      exact .enlarge hloop (hgrows.kept n expecting hset) hknown
    · rw [← hgrows.size] at hsize
      rw [Array.setIfInBounds_eq_of_size_le hsize]
      exact hs₃
  dsimp only
  split
  · rename_i h
    exact .after_modify (hdrop _ _ (henlarged h))
  · exact hdrop _ _ hs₃

end Steady

/-! ## Recovery -/

section Enduring

variable {I : Session → Prop} [Enduring I]

theorem mark_indelible {f : Session → Session} (h : ∀ s, (f s).journal = s.journal ∧ (f s).bail = s.bail ∧
    (f s).lookahead = s.lookahead ∧ (f s).net = s.net ∧ (f s).state = s.state) : Lasts I (modify f) :=
  .modify fun s => Enduring.marked (h s).1 (h s).2.1 (h s).2.2.1 (h s).2.2.2.1 (h s).2.2.2.2

theorem choose_indelible (decision : Int) : Lasts I (choose decision) := by
  refine .bind .get fun s => ?_
  refine onRecogniser_lasts fun r => ?_
  have hnumber : ∀ m, Indexing.wrap? r.automata.size decision = some m →
      m = (Indexing.wrap? r.automata.size decision).getD 0 := by
    intro m hm
    rw [hm]
    rfl
  exact (Predict.choose_drifts hnumber _).imp (fun _ _ h => ⟨h.marred, h.rest⟩) fun _ _ h => ⟨h.marred, h.rest⟩

theorem endCondition_indelible : Lasts I endCondition := mark_indelible fun _ => ⟨rfl, rfl, rfl, rfl, rfl⟩

theorem consume_indelible : Lasts I consume := by
  refine .bind currentToken_indelible fun t => ?_
  refine .ite (.bind (onStream_indelible fun h => TokenStream.consume_careful h) ?rest) (?rest ())
  refine fun _ => .bind .get fun s => .ite ?_ (.pure _)
  exact .bind (modifyTop_indelible _) fun _ => .bind (announceLeaf_indelible _) fun _ => .pure _

theorem dropUntil_indelible (set_ : IntervalSet) (fuel : Nat) : Lasts I (dropUntil set_ fuel) := by
  induction fuel with
  | zero => exact throw_indelible _
  | succ fuel ih =>
    exact .bind nextType_indelible fun _ => .ite (.bind consume_indelible fun _ => ih) (.pure _)

theorem consumeUntil_indelible (set_ : IntervalSet) : Lasts I (consumeUntil set_) :=
  .bind .get fun _ => dropUntil_indelible _ _

theorem complain_marred (s : Session) (token : Token) (message : String) (kind : Option Recognition.Kind)
    {E : Fault → Session → Prop} : (complain token message kind).Ends s (fun _ => Marred) E := by
  have h := Recogniser.complainAt_marred { s.toRecogniser with callers := s.frames.map Frame.caller } token message kind
    (E := fun f r => E f { s with toRecogniser := r })
  unfold complain onRecogniser Run.Ends
  unfold Run.Ends at h
  rw [Run.outcome_onPart]
  rcases hout : (Recogniser.complainAt token message kind).outcome _ with ⟨f | _, r⟩ <;> rw [hout] at h <;> exact h

theorem complain_indelible (token : Token) (message : String) (kind : Option Recognition.Kind) :
    Lasts I (complain token message kind) := by
  refine onRecogniser_lasts fun r => ?_
  refine .after_modify (.of_ok (Run.outcome_modify _ _) ⟨?_, rfl⟩)
  exact fun h => h.add _

theorem unlessRecovering_indelible {report : Act Unit} (h : Lasts I report) : Lasts I (unlessRecovering report) :=
  .bind .get fun _ => .ite (.pure _) (.bind (mark_indelible fun _ => ⟨rfl, rfl, rfl, rfl, rfl⟩) fun _ => h)

theorem reportFailure_indelible (r : Recognition) : Lasts I (reportFailure r) := by
  refine unlessRecovering_indelible (.ite (.bind (Steady.print _) ?rest) (?rest ()))
  exact fun _ => .bind (wording_indelible r) fun _ => .bind (blamed_indelible r) fun _ => complain_indelible _ _ _

theorem reportExpecting_indelible (wording : Token → String → String) : Lasts I (reportExpecting wording) :=
  unlessRecovering_indelible (.bind currentToken_indelible fun _ => .bind expectedTokens_indelible fun _ =>
    .bind (spellSet_indelible _) fun _ => complain_indelible _ _ _)

theorem dropUnwanted_indelible : Lasts I dropUnwanted := by
  refine .bind (onStream_indelible fun h => TokenStream.lookType_careful h _) fun after =>
    .bind expectedTokens_indelible fun q => .ite (.pure _) ?_
  exact .bind (reportExpecting_indelible _) fun _ => .bind consume_indelible fun _ => .bind currentToken_indelible fun _ =>
    .bind endCondition_indelible fun _ => .pure _

theorem canInsert_indelible : Lasts I canInsert := by
  refine .bind nextType_indelible fun type => .bind .get fun s => .bind stateHere_indelible fun _ =>
    .bind (lift_indelible _) fun first => .bind (.ite (nextTokens_indelible _) (lift_indelible _)) fun after => ?_
  exact .ite (.bind (reportExpecting_indelible _) fun _ => .pure _) (.pure _)

theorem recoverInline_indelible : Lasts I recoverInline := by
  refine .bind .get fun s => .ite (.bind mismatch_indelible fun _ => .bind (cancel_indelible _) fun _ => ?_) ?_
  all_goals
    refine .bind dropUnwanted_indelible fun dropped => ?_
    split
    · exact .bind consume_indelible fun _ => .pure _
    · exact .bind canInsert_indelible fun _ =>
        .ite missingToken_indelible (.bind mismatch_indelible fun _ => throw_indelible _)

theorem recover_indelible (r : Recognition) : Lasts I (recover r) := by
  refine .bind .get fun s => .ite (.bind (cancel_indelible _) ?rest) (?rest ())
  refine fun _ => .bind .get fun s => .ite (.bind consume_indelible fun _ => ?_) ?_
  all_goals
    exact .bind (mark_indelible fun _ => ⟨rfl, rfl, rfl, rfl, rfl⟩) fun _ => .bind recoverySet_indelible fun _ => consumeUntil_indelible _

theorem dropOrFail_indelible : Lasts I dropOrFail := by
  refine .bind dropUnwanted_indelible fun dropped => ?_
  split
  · exact .pure _
  · exact .bind mismatch_indelible fun _ => throw_indelible _

theorem sync_indelible : Lasts I sync := by
  intro s hs
  refine .after_get ?_
  split
  · exact hs
  refine Run.Ends.bind (Q := fun n s' => Indexing.wrap? s.net.states.size s.state = some n ∧ s = s') ?_ ?_
  · refine .after_get (.lift (fun n hn => ?_) fun _ _ => hs)
    exact ⟨Fault.unless_eq_ok.1 hn, rfl⟩
  rintro n _ ⟨hn, rfl⟩
  have htype := nextType_indelible (I := fun s' => I s' ∧ Placed s.net s.state s') s ⟨hs, rfl, rfl⟩
  refine (htype.imp (fun _ _ h => h) fun _ _ h => h.1).bind fun type s₁ h₁ => ?_
  have hnext := nextTokens_indelible (I := fun s' => I s' ∧ Placed s.net s.state s') n s₁ h₁
  refine (hnext.imp (fun _ _ h => h) fun _ _ h => h.1).bind fun next s₂ h₂ => ?_
  split
  · exact h₂.1
  split
  case h_1 | h_2 | h_3 | h_4 => exact dropOrFail_indelible s₂ h₂.1
  case h_5 hkind | h_6 hkind => 
    exact dropUnfit_indelible hn (by simp [State.endsLoop, hkind]) (reportExpecting_indelible _) consumeUntil_indelible h₂.1 h₂.2
  case h_7 => exact h₂.1

theorem takeToken_indelible : Lasts I takeToken := .bind endCondition_indelible fun _ => consume_indelible

theorem replaceToken_indelible : Lasts I replaceToken :=
  .bind recoverInline_indelible fun _ => .bind .get fun _ => .ite (.bind (modifyTop_indelible _) fun _ => .pure _) (.pure _)

theorem matchToken_indelible (fits : Token → Bool) : Lasts I (matchToken fits) :=
  .bind currentToken_indelible fun _ => .ite (.bind takeToken_indelible fun _ => .pure _) replaceToken_indelible

end Enduring

/-! ## Rules -/

variable {I : Session → Prop} [Lasting I]

theorem modify_indelible {f : Session → Session} (h : ∀ s, (f s).journal = s.journal ∧ (f s).bail = s.bail ∧
    (f s).lookahead = s.lookahead ∧ (f s).net = s.net) : Lasts I (modify f) :=
  .modify fun s => Lasting.part (h s).1 (h s).2.1 (h s).2.2.1 (h s).2.2.2

theorem setState_indelible (n : Int) : Lasts I (setState n) := modify_indelible fun _ => ⟨rfl, rfl, rfl, rfl⟩

theorem takeOperator_indelible (types : List Int) : Lasts I (takeOperator types) :=
  .bind currentToken_indelible fun _ => .bind (modifyLabel_indelible _) fun _ =>
    .ite (.bind takeToken_indelible fun _ => .pure _) (.bind recoverInline_indelible fun _ => modifyLabel_indelible _)

/-- What lasts is kept by every step of every rule. -/
theorem upheld : Upheld I fun _ => True where
  shift {s} _ _ _ := Lasting.part (s := s) rfl rfl rfl rfl
  currentToken := currentToken_indelible
  previousToken := previousToken_indelible
  nextType := nextType_indelible
  announceEntry := announceEntry_indelible
  announceExit := announceExit_indelible
  precedenceHolds _ := onRecogniser_indelible (d := 0) fun _ => Recogniser.precedenceHolds_drifts _
  choose := choose_indelible
  sync := sync_indelible
  token _ := .bind (setState_indelible _) fun _ => .bind (matchToken_indelible _) fun _ => .pure _
  operator _ := .bind (setState_indelible _) fun _ => takeOperator_indelible _
  reportFailure := reportFailure_indelible
  recover := recover_indelible

theorem relabel_indelible (form : Grammar.Form) : Lasts I (relabel form) := (Upheld.toFramed upheld).relabel form

theorem wrapTop_indelible (form : Grammar.Form) (invoking : Int) : Lasts I (wrapTop form invoking) :=
  (Upheld.toFramed upheld).wrapTop form invoking

variable {body : Act Unit}

theorem guarded_indelible (h : Lasts I body) : Lasts I (guarded body) := Upheld.guarded upheld h

section Call

variable {call : Grammar.Rule → Int → Act Unit} (hcall : ∀ rule p, Lasts I (call rule p))
include hcall

theorem runSteps_indelible (steps : List Grammar.Step) : Lasts I (runSteps call steps) :=
  Upheld.runSteps upheld (fun _ rule p _ => hcall rule p) steps fun _ _ => trivial

theorem runTail_indelible (invoking : Int) (t : Grammar.Tail) : Lasts I (runTail call invoking t) :=
  Upheld.runTail upheld (fun _ rule p _ => hcall rule p) invoking t fun _ _ => trivial

theorem runOperator_indelible (invoking tailState tailDecision : Int) (tails : List Grammar.Tail) :
    Lasts I (runOperator call invoking tailState tailDecision tails) :=
  Upheld.runOperator upheld (fun _ rule p _ => hcall rule p) invoking tailState tailDecision fun _ _ => trivial

theorem runTails_indelible (invoking again loopDecision tailState tailDecision : Int) (tails : List Grammar.Tail) (fuel : Nat)
    (alt : Int) : Lasts I (runTails call invoking again loopDecision tailState tailDecision tails fuel alt) :=
  Upheld.runTails upheld (fun _ rule p _ => hcall rule p) invoking again loopDecision tailState tailDecision (fun _ _ => trivial)
    fuel alt

theorem runBody_indelible (invoking : Int) (body : Grammar.Body) : Lasts I (runBody call invoking body) :=
  Upheld.runBody upheld (fun _ rule p _ => hcall rule p) invoking body fun _ _ => trivial

end Call

theorem enterPhrase_indelible (rule : Grammar.Rule) (p : Int) : Lasts I (enterPhrase rule p) :=
  (Upheld.toFramed upheld).enterPhrase rule p

theorem leavePhrase_indelible (rule : Grammar.Rule) : Lasts I (leavePhrase rule) := (Upheld.toFramed upheld).leavePhrase rule

theorem runRule_indelible (fuel : Nat) (rule : Grammar.Rule) (p : Int) : Lasts I (runRule fuel rule p) :=
  Upheld.runRule upheld (fun _ _ _ _ _ _ => trivial) fuel (fun _ _ => trivial) p

theorem parse_indelible (rule : Grammar.Rule) (p : Int) : Lasts I (parse rule p) :=
  .bind tokenFuel_indelible fun _ => runRule_indelible _ _ _

end Session

end NimbleLang
