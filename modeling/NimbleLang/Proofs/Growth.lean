import NimbleLang.Proofs.Failures

/-!
How trees grow. In a calm session the acts that build a tree cannot fail (`Session.Goes`), and do what they are for: a rule opens a
phrase, a token that fits becomes its next leaf, a finished phrase becomes a child of the one around it, and an operator takes the
phrase before it as its first child (`Session.Within`).
-/

namespace NimbleLang

namespace Session

open Predict Grammar Recogniser

variable {α β : Type} {o : Tape} {k : Nat} {t : Token} {s s' : Session} {Q : α → Session → Prop} {R : β → Session → Prop}

/-! ## Acts that cannot go wrong -/

/-- From a session as `P` says the act leads to one as `Q` says. -/
def Goes (P : Session → Prop) (act : Act α) (Q : α → Session → Prop) : Prop := ∀ s, P s → act.Ends s Q fun _ _ => False

namespace Goes

variable {P P' : Session → Prop} {x : Act α} {f : α → Act β}

theorem pure {a : α} (h : ∀ s, P s → Q a s) : Goes P (pure a) Q := fun s hs => .of_ok (Run.outcome_pure _ _) (h s hs)

theorem bind (hx : Goes P x Q) (hf : ∀ a, Goes (Q a) (f a) R) : Goes P (x >>= f) R :=
  fun s hs => (hx s hs).bind fun a s' => hf a s'

theorem get {g : Session → Act β} (h : ∀ s, P s → Goes (fun s' => s' = s ∧ P s') (g s) R) : Goes P (get >>= g) R :=
  fun s hs => .after_get (h s hs s ⟨rfl, hs⟩)

theorem modify {g : Session → Session} {Q : Session → Prop} (h : ∀ s, P s → Q (g s)) : Goes P (modify g) fun _ => Q :=
  fun s hs => .of_ok (Run.outcome_modify _ _) (h s hs)

theorem imp (hx : Goes P x Q) {Q' : α → Session → Prop} (hP : ∀ s, P' s → P s) (hQ : ∀ a s, Q a s → Q' a s) : Goes P' x Q' :=
  fun s hs => (hx s (hP s hs)).imp (fun a s' => hQ a s') fun _ _ => id

end Goes

/-! ## Where a session stands -/

/-- The session stands at place `k`, with these phrases under way. -/
structure At (o : Tape) (k : Nat) (frames : List Frame) (ps : List Int) (s : Session) : Prop where
  calm : Calm s
  standing : ∃ t, TokenStream.Standing o s.stream k t
  frames : s.frames = frames
  precedences : s.precedences = ps
  clean : ¬s.Marred

variable {fr : Frame} {fs : List Frame} {ps : List Int}

theorem At.still (h : At o k fs ps s) (h' : Still o k t s s') : At o k fs ps s' :=
  ⟨h'.calm, ⟨t, h'.standing⟩, h'.frames.trans h.frames, h'.precedences.trans h.precedences, fun hm => h.clean (h'.clean hm)⟩

theorem At.reframed (h : At o k fs ps s) (fs' : List Frame) : At o k fs' ps { s with frames := fs' } := by
  obtain ⟨h, ⟨t, hs⟩, -, hp, hclean⟩ := h
  exact ⟨{ h with }, ⟨t, hs⟩, rfl, hp, hclean⟩

theorem At.placed (h : At o k fs ps s) (n : Int) : At o k fs ps { s with state := n } := by
  obtain ⟨h, ⟨t, hs⟩, hf, hp, hclean⟩ := h
  exact ⟨h.placed n, ⟨t, hs⟩, hf, hp, hclean⟩

theorem Goes.of_still {act : Act α} {P : α → Prop}
    (h : ∀ s t, Calm s → TokenStream.Standing o s.stream k t → act.Ends s (fun a s' => P a ∧ Still o k t s s') fun _ _ => False) :
    Goes (At o k fs ps) act fun a s => P a ∧ At o k fs ps s := by
  intro s hs
  obtain ⟨t, ht⟩ := hs.standing
  exact (h s t hs.calm ht).imp (fun _ _ h => ⟨h.1, hs.still h.2⟩) fun _ _ => id

theorem currentToken_goes : Goes (At o k fs ps) currentToken fun x s => o.token? k = some x ∧ At o k fs ps s :=
  .of_still fun _ _ h ht => (currentToken_still h ht).imp (fun _ _ h => ⟨h.1 ▸ ht.reading.token? ht.token, h.2⟩) fun _ _ => id

theorem previousToken_goes : Goes (At o k fs ps) previousToken fun _ => At o k fs ps :=
  (Goes.of_still (P := fun _ => True) fun _ _ h ht => (previousToken_still h ht).imp (fun _ _ h => ⟨trivial, h⟩) fun _ _ => id).imp
    (fun _ => id) fun _ _ h => h.2

theorem nextType_goes : Goes (At o k fs ps) nextType fun x s => x = o.type k ∧ At o k fs ps s :=
  .of_still fun _ _ h ht => (nextType_still h ht).imp (fun _ _ h => ⟨h.1.trans (ht.reading.type ht.token).symm, h.2⟩) fun _ _ => id

theorem setState_goes (n : Int) : Goes (At o k fs ps) (setState n) fun _ s => At o k fs ps s ∧ s.state = n :=
  .modify fun _ h => ⟨h.placed n, rfl⟩

theorem top_goes : Goes (At o k (fr :: fs) ps) top fun x s => x = fr ∧ At o k (fr :: fs) ps s := by
  refine .get fun s hs => ?_
  rw [hs.frames]
  exact .pure fun _ h => ⟨rfl, h.2⟩

theorem modifyTop_goes (g : Frame → Frame) : Goes (At o k (fr :: fs) ps) (modifyTop g) fun _ => At o k (g fr :: fs) ps := by
  refine .get fun s hs => ?_
  rw [hs.frames]
  exact .modify fun _ h => h.2.reframed _

theorem dropTop_goes : Goes (At o k (fr :: fs) ps) dropTop fun _ => At o k fs ps := by
  refine .modify fun s h => ?_
  have htail : s.frames.tail = fs := by rw [h.frames, List.tail_cons]
  rw [htail]
  exact h.reframed fs

theorem pushFrame_goes (fr : Frame) :
    Goes (At o k fs ps) (modify fun s => { s with frames := fr :: s.frames }) fun _ => At o k (fr :: fs) ps := by
  refine .modify fun s h => ?_
  rw [h.frames]
  exact h.reframed _

theorem announce_goes {order : List Watcher → List Watcher} (horder : order [] = []) (tell : Watcher → Act Unit) :
    Goes (At o k fs ps) (announce order tell) fun _ => At o k fs ps := by
  refine .get fun s hs => ?_
  rw [hs.calm.alone, Option.getD_none, horder]
  exact .pure fun _ h => h.2

theorem announceEntry_goes : Goes (At o k fs ps) announceEntry fun _ => At o k fs ps := announce_goes rfl _

theorem announceExit_goes : Goes (At o k fs ps) announceExit fun _ => At o k fs ps := announce_goes rfl _

theorem endCondition_goes : Goes (At o k fs ps) endCondition fun _ => At o k fs ps := by
  refine .modify fun s h => ?_
  obtain ⟨h, ⟨t, hs⟩, hf, hp, hclean⟩ := h
  exact ⟨{ h with settled := rfl }, ⟨t, hs⟩, hf, hp, hclean⟩

/-! ## Tokens -/

theorem Goes.assuming {c : Prop} {P : Session → Prop} {x : Act α} (h : c → Goes P x Q) : Goes (fun s => c ∧ P s) x Q :=
  fun s hs => h hs.1 s hs.2

theorem move_goes {x : Token} (hx : o.token? k = some x) (heof : x.isEof = false) :
    Goes (At o k fs ps) (onStream TokenStream.consume) fun _ => At o (k + 1) fs ps := by
  intro s h
  obtain ⟨t, ht⟩ := h.standing
  obtain rfl : t = x := Option.some.inj ((ht.reading.token? ht.token).symm.trans hx)
  obtain ⟨t', stream, hconsume, -, hstanding⟩ := ht.consume heof
  refine (onStream_still h.calm hconsume hstanding).imp ?_ fun _ _ => id
  rintro _ s' ⟨-, h'⟩
  exact ⟨h'.calm, ⟨t', h'.standing⟩, h'.frames.trans h.frames, h'.precedences.trans h.precedences,
    fun hm => h.clean (h'.clean hm)⟩

/-- The current token becomes a leaf; the end token is not passed. -/
theorem consume_goes : Goes (At o k (fr :: fs) ps) consume fun x s => o.token? k = some x ∧
    At o (Tape.after k x) (fr.addChild (.leaf x) :: fs) ps s := by
  refine .bind currentToken_goes fun x => .assuming fun hx => ?_
  have hrest : Goes (At o (Tape.after k x) (fr :: fs) ps) (do
      let s ← MonadState.get
      if s.build || !(s.watchers.getD []).isEmpty then
        let leaf := if s.recovering then Tree.error x else Tree.leaf x
        modifyTop (·.addChild leaf)
        announceLeaf leaf
      return x) fun y s => o.token? k = some y ∧ At o (Tape.after k y) (fr.addChild (.leaf y) :: fs) ps s := by
    refine .get fun s hs => ?_
    simp only [hs.calm.build, hs.calm.settled, Bool.true_or, if_true]
    exact .bind ((modifyTop_goes _).imp (fun _ h => h.2) fun _ _ => id) fun _ => .bind (announce_goes rfl _) fun _ =>
      .pure fun _ h => ⟨hx, h⟩
  cases heof : x.isEof with
  | true =>
    rw [Tape.after, if_pos heof] at hrest
    exact hrest
  | false =>
    rw [Tape.after, if_neg (by rw [heof]; decide)] at hrest
    exact .bind (move_goes hx heof) fun _ => hrest

theorem takeToken_goes : Goes (At o k (fr :: fs) ps) takeToken fun x s => o.token? k = some x ∧
    At o (Tape.after k x) (fr.addChild (.leaf x) :: fs) ps s := .bind endCondition_goes fun _ => consume_goes

/-! ## Phrases -/

/-- The innermost phrase has this form and was called from this state; these are its children so far. -/
def Within (o : Tape) (k : Nat) (form : Form) (invoking : Int) (cs : List Tree) (fs : List Frame) (ps : List Int) (s : Session) : Prop :=
  ∃ label : Label, (label.form = form ∧ label.invoking = invoking) ∧ At o k (⟨label, cs.toArray⟩ :: fs) ps s

variable {form : Form} {invoking : Int} {cs : List Tree}

theorem Goes.within {act : Act α} (h : ∀ label : Label, label.form = form → label.invoking = invoking →
    Goes (At o k (⟨label, cs.toArray⟩ :: fs) ps) act Q) : Goes (Within o k form invoking cs fs ps) act Q := by
  rintro s ⟨label, ⟨hform, hinvoking⟩, hs⟩
  exact h label hform hinvoking s hs

theorem At.within {label : Label} (h : At o k (⟨label, cs.toArray⟩ :: fs) ps s) (hform : label.form = form)
    (hinvoking : label.invoking = invoking) : Within o k form invoking cs fs ps s := ⟨label, ⟨hform, hinvoking⟩, h⟩

theorem addChild_toArray (label : Label) (cs : List Tree) (c : Tree) : Frame.addChild ⟨label, cs.toArray⟩ c =
    ⟨{ label with childless := false }, (cs ++ [c]).toArray⟩ := by
  simp [Frame.addChild]

/-- An alternative is chosen before the phrase has any children. -/
theorem relabel_within (form' : Form) :
    Goes (Within o k form invoking [] fs ps) (relabel form') fun _ => Within o k form' invoking [] fs ps :=
  .within fun _ _ hinvoking => (modifyTop_goes _).imp (fun _ => id) fun _ _ h => h.within rfl hinvoking

/-- The phrase before an operator becomes the first child of a new one. -/
theorem wrapTop_within (form' : Form) (invoking' : Int) :
    Goes (Within o k form invoking cs fs ps) (wrapTop form' invoking') fun _ s =>
      ∃ l : Label, l.form = form ∧ Within o k form' invoking' [.node l cs] fs ps s := by
  refine .within fun label hform hinvoking => .bind previousToken_goes fun back => .bind (modifyTop_goes _) fun _ =>
    .bind top_goes fun f => .assuming fun hf => .bind dropTop_goes fun _ => .get fun s hs => ?_
  subst hf
  simp only [hs.calm.build, if_true]
  refine .bind ((pushFrame_goes _).imp (fun _ h => h.2) fun _ _ => id) fun _ => (announceEntry_goes).imp (fun _ => id) fun _ s h => ?_
  exact ⟨{ label with invoking := _, stop := back }, hform, _, ⟨rfl, rfl⟩, h⟩

/-! ## Entering and leaving -/

/-- The session is about to read at place `k`; it may not have read anything before. -/
structure Poised (o : Tape) (k : Nat) (frames : List Frame) (ps : List Int) (s : Session) : Prop where
  calm : Calm s
  standing : (∃ t, TokenStream.Standing o s.stream k t) ∨ k = 0 ∧ s.stream.index = -1 ∧ TokenStream.Reading o s.stream
  frames : s.frames = frames
  precedences : s.precedences = ps
  clean : ¬s.Marred

theorem At.poised (h : At o k fs ps s) : Poised o k fs ps s := ⟨h.calm, .inl h.standing, h.frames, h.precedences, h.clean⟩

theorem currentToken_first : Goes (Poised o k fs ps) currentToken fun _ => At o k fs ps := by
  rintro s ⟨h, ⟨t, ht⟩ | ⟨rfl, hindex, hreading⟩, hf, hp, hclean⟩
  · exact (currentToken_goes s ⟨h, ⟨t, ht⟩, hf, hp, hclean⟩).imp (fun _ _ h => h.2) fun _ _ => id
  · obtain ⟨t, stream, hlook, -, hstanding⟩ := TokenStream.look_first hreading hindex
    refine (currentToken_looked h hlook hstanding).imp ?_ fun _ _ => id
    rintro _ s' ⟨-, h'⟩
    exact ⟨h'.calm, ⟨t, h'.standing⟩, h'.frames.trans hf, h'.precedences.trans hp, fun hm => hclean (h'.clean hm)⟩

/-- The precedence levels inside a rule. -/
def levelsIn (rule : Rule) (p : Int) (ps : List Int) : List Int := if rule = .expr then p :: ps else ps

theorem openFrame_goes (form : Form) (invoking state : Int) : Goes (Poised o k fs ps) (openFrame form invoking state) fun _ =>
    Within o k form invoking [] fs ps := by
  refine .bind (Q := fun _ => Poised o k (⟨{ form, invoking }, #[]⟩ :: fs) ps) (.modify fun s h => ?_) fun _ =>
    .bind currentToken_first fun t => (modifyTop_goes _).imp (fun _ => id) fun _ _ h => h.within rfl rfl
  obtain ⟨h, hs, hf, hp, hclean⟩ := h
  exact ⟨{ h with trained := h.trained.placed state }, hs, congrArg _ hf, hp, hclean⟩

theorem enterPhrase_goes (rule : Rule) {p : Int} (hp : p ∈ levels) {n : Int} :
    Goes (fun s => Poised o k fs ps s ∧ s.state = n) (enterPhrase rule p) fun _ =>
      Within o k (Form.ofRule rule) n [] fs (levelsIn rule p ps) := by
  unfold enterPhrase levelsIn
  split
  · subst_vars
    refine .bind (Q := fun _ s => Poised o k fs (p :: ps) s ∧ s.state = n) (.modify fun s h => ?_) fun _ => .get fun s hs => ?_
    · obtain ⟨⟨h, hs, hf, hps, hclean⟩, hn⟩ := h
      exact ⟨⟨⟨h.trained.levelled ⟨p, hp, rfl⟩, h.build, h.settled, h.alone, h.drained⟩, hs, hf, congrArg _ hps, hclean⟩, hn⟩
    · rw [hs.2]
      exact .bind ((openFrame_goes _ _ _).imp (fun _ h => h.2.1) fun _ _ => id) fun _ => .within fun _ hform hinvoking =>
        (announceEntry_goes).imp (fun _ => id) fun _ _ h => h.within hform hinvoking
  · refine .get fun s hs => ?_
    rw [hs.2]
    exact .bind ((openFrame_goes _ _ _).imp (fun _ h => h.2.1) fun _ _ => id) fun _ => .within fun _ hform hinvoking =>
      (announceEntry_goes).imp (fun _ => id) fun _ _ h => h.within hform hinvoking

/-- The phrases under way once a finished one was added to the innermost. -/
def withChild (t : Tree) : List Frame → List Frame
  | [] => []
  | f :: fs => f.addChild t :: fs

theorem attach_goes (tree : Tree) : Goes (At o k fs ps) (attach tree) fun _ => At o k (withChild tree fs) ps := by
  refine .get fun s hs => ?_
  rw [hs.calm.build, hs.frames]
  cases fs with
  | nil => exact .pure fun _ h => h.2
  | cons f fs => exact (modifyTop_goes _).imp (fun _ h => h.2) fun _ _ => id

theorem leaveLevel_goes (rule : Rule) {p : Int} (hps : ∃ q ∈ levels, ps.head? = some q) :
    Goes (At o k fs (levelsIn rule p ps)) (leaveLevel rule) fun _ => At o k fs ps := by
  unfold leaveLevel levelsIn
  split
  · refine .modify fun s ⟨h, hs, hf, hp, hclean⟩ => ?_
    have htail : s.precedences.tail = ps := by rw [hp, List.tail_cons]
    rw [htail]
    exact ⟨{ h with trained := h.trained.levelled hps }, hs, hf, rfl, hclean⟩
  · exact .pure fun _ => id

theorem goBack_goes (rule : Rule) (n : Int) : Goes (At o k fs ps) (goBack rule n) fun _ => At o k fs ps := by
  unfold goBack
  split
  · exact .pure fun _ => id
  · exact (setState_goes n).imp (fun _ => id) fun _ _ h => h.1

theorem leavePhrase_goes (rule : Rule) {p : Int} (hps : ∃ q ∈ levels, ps.head? = some q) :
    Goes (Within o k form invoking cs fs (levelsIn rule p ps)) (leavePhrase rule) fun tree s =>
      (∃ l : Label, l.form = form ∧ tree = .node l cs) ∧ At o k (withChild tree fs) ps s := by
  refine .within fun label hform hinvoking => .bind (leaveLevel_goes rule hps) fun _ => .bind top_goes fun _ =>
    .bind ((previousToken_goes).imp (fun _ h => h.2) fun _ _ => id) fun back => .bind (modifyTop_goes _) fun _ => .bind announceExit_goes fun _ =>
    .bind top_goes fun f => .assuming fun hf => .bind (goBack_goes rule _) fun _ => .bind dropTop_goes fun _ =>
    .bind (attach_goes _) fun _ => .pure fun s h => ?_
  subst hf
  exact ⟨⟨{ label with stop := back }, hform, rfl⟩, h⟩

end Session

end NimbleLang
