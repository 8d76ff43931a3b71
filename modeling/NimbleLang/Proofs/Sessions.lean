import Mathlib.Data.List.Nodup
import NimbleLang.Proofs.Alternatives
import NimbleLang.Proofs.Complaints
import NimbleLang.Proofs.LexerStates

/-!
Calm sessions: nothing has failed, nothing is traced, trees are built, and what was learnt so far agrees with the network
(`Session.Calm`). Here is what the acts of a session do in this condition: looking changes nothing that counts
(`Session.Still`), and the decisions of the grammar come out as the surveys say.
-/

namespace NimbleLang

/-! ## Sober computations -/

namespace Fault

variable {α β : Type}

/-- A computation whose faults no rule recovers from. -/
def Safe (x : Except Fault α) : Prop := ∀ f, x = .error f → f.Sober

theorem Safe.ok (a : α) : Safe (.ok a) := by
  rintro f h
  cases h

theorem Safe.error {f : Fault} (hf : f.Sober) : Safe (.error f : Except Fault α) := fun _ h => Except.error.inj h ▸ hf

theorem Safe.unless {f : Fault} (o : Option α) (hf : f.Sober) : Safe (f.unless o) := fun _ h => sober_unless h hf

variable {g : α → Except Fault β}

theorem Safe.bind {x : Except Fault α} (hx : Safe x) (hg : ∀ a, Safe (g a)) : Safe (x >>= g) := by
  intro f h
  rcases bind_eq_error.1 h with h | ⟨a, -, h⟩
  · exact hx f h
  · exact hg a f h

theorem Safe.ite {c : Prop} [Decidable c] {x y : Except Fault α} (hx : Safe x) (hy : Safe y) : Safe (if c then x else y) := by
  split
  · exact hx
  · exact hy

theorem Safe.foldlM {g : β → α → Except Fault β} (h : ∀ b a, Safe (g b a)) (l : List α) (b : β) : Safe (l.foldlM g b) := by
  induction l generalizing b with
  | nil => exact .ok b
  | cons a l ih =>
    rw [List.foldlM_cons]
    exact .bind (h b a) ih

theorem Safe.mapM (h : ∀ a, Safe (g a)) (l : List α) : Safe (l.mapM g) := by
  induction l with
  | nil => exact .ok []
  | cons a l ih =>
    rw [List.mapM_cons]
    exact .bind (h a) fun _ => .bind ih fun _ => .ok _

end Fault

namespace Lookahead

open Fault

theorem complement_safe (s : IntervalSet) (start stop : Int) : Safe (s.complement start stop) :=
  .bind (.unless _ trivial) fun _ => .ok _

theorem lookFrom_safe (net : Network) (stop : Option Nat) (fuel n : Nat) (ctx : Context Unit) (rules : List Int) (found : Found) :
    Safe (lookFrom net stop fuel n ctx rules found) := by
  induction fuel generalizing n ctx rules found with
  | zero => exact .error trivial
  | succ fuel ih =>
    unfold lookFrom
    refine .ite (.ok _) (.ite (.ok _) (.ite (.ok _) (.ite (.foldlM (fun _ _ => ?_) _ _) (.foldlM (fun _ e => ?_) _ _))))
    · exact .bind (.unless _ trivial) fun _ => ih _ _ _ _
    · cases e with
      | call => exact .ite (.ok _) (ih _ _ _ _)
      | epsilon | action | predicate | precedence => exact ih _ _ _ _
      | notSet => exact .bind (complement_safe _ _ _) fun _ => .ok _
      | wildcard | atom | range | set => exact .ok _

theorem followOf_safe (net : Network) (state : Int) : Safe (Callers.followOf net state) := by
  refine .bind (.unless _ trivial) fun s => ?_
  split
  · exact .error trivial
  · exact .ok _
  · exact .error trivial

theorem context_safe (net : Network) : (cs : Callers) → Safe (cs.context net)
  | [] => .ok _
  | [_] => .ok _
  | c :: d :: rest => by
    unfold Callers.context
    exact .bind (context_safe net (d :: rest)) fun _ => .bind (.unless _ trivial) fun _ => .bind (followOf_safe _ _) fun _ => .ok _

theorem look_safe (net : Network) (n : Nat) (stop : Option Nat) (callers : Option Callers) : Safe (look net n stop callers) := by
  unfold look
  cases callers with
  | none => exact .bind (.ok _) fun _ => .bind (lookFrom_safe _ _ _ _ _ _ _) fun _ => .ok _
  | some cs => exact .bind (context_safe net cs) fun _ => .bind (lookFrom_safe _ _ _ _ _ _ _) fun _ => .ok _

theorem next_safe (net : Network) (memory : Memory) (n : Nat) : Safe (next net memory n) := by
  unfold next
  split
  · exact .ok _
  · exact .bind (look_safe _ _ _ _) fun _ => .ok _

theorem expectedLoop_safe (net : Network) (cs : Callers) (wanted following : IntervalSet) (memory : Memory) :
    Safe (expectedLoop net cs wanted following memory) := by
  induction cs generalizing wanted following memory with
  | nil => exact .ok _
  | cons c rest ih =>
    unfold expectedLoop
    refine .ite (.ok _) (.bind (.unless _ trivial) fun _ => .ite (.ok _) (.bind (followOf_safe _ _) fun _ =>
      .bind (next_safe _ _ _) fun _ => ih _ _ _))

theorem expected_safe (net : Network) (memory : Memory) (state : Int) (callers : Callers) :
    Safe (expected net memory state callers) := by
  unfold expected
  refine .ite (.bind (.error trivial) ?rest) (?rest ⟨⟩)
  refine fun _ => .bind (next_safe _ _ _) fun q => .ite (.ok _) (.bind (expectedLoop_safe _ _ _ _ _) fun _ => .ok _)

/-! ## What is remembered of lookahead -/

/-- What is remembered is what would be found. -/
def Truthful (net : Network) (memory : Memory) : Prop := ∀ n s, memory.getD n none = some s → look net n none none = .ok s

variable {net : Network} {memory memory' : Memory} {n : Nat}

theorem truthful_ofNetwork (net : Network) : Truthful net (.ofNetwork net) := by
  intro n s h
  unfold Memory.ofNetwork at h
  rw [Array.getD_eq_getD_getElem?, Array.getElem?_replicate] at h
  split at h <;> cases h

theorem Truthful.next (h : Truthful net memory) {s : IntervalSet} (hnext : next net memory n = .ok (s, memory')) :
    look net n none none = .ok s ∧ Truthful net memory' := by
  unfold Lookahead.next at hnext
  split at hnext
  · rename_i s' hs'
    cases hnext
    exact ⟨h n s hs', h⟩
  · obtain ⟨s', hlook, hrest⟩ := bind_eq_ok.1 hnext
    cases hrest
    refine ⟨hlook, fun m u hu => ?_⟩
    rw [Array.getD_eq_getD_getElem?, Array.getElem?_setIfInBounds] at hu
    by_cases hm : n = m
    · subst hm
      rw [if_pos rfl] at hu
      split at hu
      · exact Option.some.inj hu ▸ hlook
      · cases hu
    · rw [if_neg hm, ← Array.getD_eq_getD_getElem?] at hu
      exact h m u hu

variable {cs : Callers}

theorem Truthful.expectedLoop (h : Truthful net memory) {wanted following set : IntervalSet} {atEnd : Bool}
    (hloop : expectedLoop net cs wanted following memory = .ok (set, atEnd, memory')) : Truthful net memory' := by
  induction cs generalizing wanted following memory with
  | nil =>
    cases hloop
    exact h
  | cons c rest ih =>
    unfold Lookahead.expectedLoop at hloop
    split at hloop
    · cases hloop
      exact h
    obtain ⟨invoking, -, hloop⟩ := bind_eq_ok.1 hloop
    split at hloop
    · cases hloop
      exact h
    obtain ⟨follow, -, hloop⟩ := bind_eq_ok.1 hloop
    obtain ⟨⟨s, m⟩, hnext, hloop⟩ := bind_eq_ok.1 hloop
    exact ih (h.next hnext).2 hloop

theorem Truthful.expected (h : Truthful net memory) {state : Int} {set : IntervalSet} {own : Bool}
    (hexpected : expected net memory state cs = .ok (set, own, memory')) : Truthful net memory' := by
  unfold Lookahead.expected at hexpected
  split at hexpected
  · cases hexpected
  obtain ⟨⟨s, m⟩, hnext, hexpected⟩ := bind_eq_ok.1 hexpected
  dsimp only at hexpected
  split at hexpected
  · cases hexpected
    exact (h.next hnext).2
  obtain ⟨⟨s', atEnd, m'⟩, hloop, hexpected⟩ := bind_eq_ok.1 hexpected
  cases hexpected
  exact (h.next hnext).2.expectedLoop hloop

end Lookahead

namespace Session

open Predict Grammar Recogniser

/-! ## The networks -/

/-- A session over a network. -/
def ofStream (net : Network) (stream : TokenStream Supply) : Session :=
  { Recogniser.ofNetwork net literals vocabulary.symbolic phraseRules stream with }

/-- A source as a network scans it. -/
def scannedBy (net : Network) (source : Source) : TokenStream Supply :=
  { source := .scanned { Scan.Scanner.ofNetwork net source .silent with traceNames := lexerTraceNames } }

theorem ofStream_net (net : Network) (stream : TokenStream Supply) : (ofStream net stream).net = net := rfl

theorem ofStream_lookahead (net : Network) (stream : TokenStream Supply) : (ofStream net stream).lookahead = .ofNetwork net := rfl

theorem ofSource_eq_ofStream (source : Source) : ofSource source = ofStream parserNetwork { source := .scanned (scanner source false) } := by
  rw [ofSource, start, ofStream]

/-- A session over a source, with both networks state by state. -/
theorem ofSource_eq (source : Source) :
    ofSource source = ofStream States.network (scannedBy (LexerStates.network .skip) source) := by
  rw [ofSource_eq_ofStream, parserNetwork_eq, scanner, scannedBy, if_neg (by decide), lexerNetwork_eq]

set_option maxRecDepth 4000 in
theorem network_plain : Lookahead.Plain States.network := by
  have hall : ∀ s ∈ States.network.states.toList, ∀ e ∈ s.edges, Lookahead.plainEdge e = true := by decide
  intro s hs
  exact hall s (Array.mem_toList_iff.mpr hs)

/-! ## Calm sessions -/

/-- The decisions that were surveyed. -/
def surveyed : List (Nat × Survey) := [(9, statementSurvey), (10, operandSurvey), (11, tailSurvey), (12, loopSurvey)]

/-- What was learnt of the decisions agrees with their surveys. -/
def Learnt (r : Recogniser) : Prop := ∀ q ∈ surveyed, q.2.Learnt q.1 r

/-- A recogniser of the grammar that is in order. -/
structure Trained (r : Recogniser) : Prop where
  net : r.net = States.network
  mode : r.mode ≠ .exact
  quiet : r.traces = {}
  attached : r.attached = true
  undiagnosed : r.diagnosis = none
  level : ∃ p ∈ levels, r.precedences.head? = some p
  memory : r.merger.memory = none
  learnt : Learnt r
  lookahead : Lookahead.Truthful States.network r.lookahead

namespace Trained

variable {r r' : Recogniser}

theorem placed (h : Trained r) (n : Int) : Trained { r with state := n } :=
  { h with }

theorem called (h : Trained r) (callers : Callers) : Trained { r with callers } :=
  { h with }

theorem streamed (h : Trained r) (stream : TokenStream Supply) (journal : Journal) : Trained { r with stream, journal } :=
  { h with }

theorem levelled (h : Trained r) {ps : List Int} (hps : ∃ p ∈ levels, ps.head? = some p) : Trained { r with precedences := ps } :=
  { h with level := hps }

theorem remembered (h : Trained r) {m : Lookahead.Memory} (hm : Lookahead.Truthful States.network m) :
    Trained { r with lookahead := m } :=
  { h with lookahead := hm }

theorem drifted (h : Trained r) {n : Nat} (hd : Drift n r r') (hmemory : r'.merger.memory = none) (hlearnt : Learnt r') :
    Trained r' where
  net := (hd.part (·.net) fun _ => rfl).trans h.net
  mode := by
    rw [hd.part (·.mode) fun _ => rfl]
    exact h.mode
  quiet := (hd.part (·.traces) fun _ => rfl).trans h.quiet
  attached := (hd.part (·.attached) fun _ => rfl).trans h.attached
  undiagnosed := (hd.part (·.diagnosis) fun _ => rfl).trans h.undiagnosed
  level := by
    rw [hd.part (·.precedences) fun _ => rfl]
    exact h.level
  memory := hmemory
  learnt := hlearnt
  lookahead := by
    rw [hd.part (·.lookahead) fun _ => rfl]
    exact h.lookahead

end Trained

/-- A session in which nothing has gone wrong. -/
structure Calm (s : Session) : Prop where
  trained : Trained s.toRecogniser
  build : s.build = true
  settled : s.recovering = false
  alone : s.watchers = none
  drained : s.stream.source.Drained

/-- What looking around leaves of a session that stands at place `k`, before the token `t`. -/
structure Still (o : Tape) (k : Nat) (t : Token) (s s' : Session) : Prop where
  calm : Calm s'
  standing : TokenStream.Standing o s'.stream k t
  frames : s'.frames = s.frames
  precedences : s'.precedences = s.precedences
  state : s'.state = s.state
  clean : s'.Marred → s.Marred

variable {o : Tape} {k : Nat} {t : Token} {s s' : Session} {α : Type} {E : Fault → Session → Prop} {Q : α → Session → Prop}

theorem Still.refl (h : Calm s) (hs : TokenStream.Standing o s.stream k t) : Still o k t s s :=
  ⟨h, hs, rfl, rfl, rfl, id⟩

theorem Still.trans {s'' : Session} (h : Still o k t s s') (h' : Still o k t s' s'') : Still o k t s s'' :=
  ⟨h'.calm, h'.standing, h'.frames.trans h.frames, h'.precedences.trans h.precedences, h'.state.trans h.state,
    fun hm => h.clean (h'.clean hm)⟩

theorem onRecogniser_ends {act : Recogniser.Act α} (h : act.Ends s.inside (fun a r => Q a { s with toRecogniser := r })
    fun f r => E f { s with toRecogniser := r }) : (onRecogniser act).Ends s Q E := by
  unfold onRecogniser Run.Ends
  unfold Run.Ends at h
  rw [Run.outcome_onPart]
  rcases hout : act.outcome s.inside with ⟨f | a, r⟩
  all_goals
    rw [hout] at h
    have hout' : act.outcome { s.toRecogniser with callers := s.frames.map Frame.caller } = _ := hout
    rw [hout']
    exact h

/-- The session with what an act of the stream has left of the stream. -/
def streamed (s : Session) (stream : TokenStream Supply) : Session := { s with
  toRecogniser := { s.inside with
    stream := { stream with source := stream.source.drain.2 }, journal := s.journal.append stream.source.drain.1 } }

theorem streamed_still (h : Calm s) {stream : TokenStream Supply} (hs : TokenStream.Standing o stream k t) :
    Still o k t s (s.streamed stream) := by
  refine ⟨{ h with trained := (h.trained.called _).streamed _ _, drained := Supply.drained_drain _ },
    ⟨hs.reading.drained, hs.index, hs.token⟩, rfl, rfl, rfl, fun hm => ?_⟩
  have hm' : (s.journal.append stream.source.drain.1).Marred := hm
  exact hm'.of_append hs.reading.notes

variable {act : TokenStream.Act Supply α} {v : Survey}

theorem onStream_still (h : Calm s) {x : α} {stream : TokenStream Supply} (hact : act.outcome s.stream = (.ok x, stream))
    (hs : TokenStream.Standing o stream k t) : (onStream act).Ends s (fun y s' => y = x ∧ Still o k t s s') E :=
  onRecogniser_ends (.of_ok (Recogniser.onStream_ok (r := s.inside) h.trained.attached hact) ⟨rfl, streamed_still h hs⟩)

/-- The token that is read next, once the stream stands before it. -/
theorem currentToken_looked (h : Calm s) {stream : TokenStream Supply}
    (hlook : (TokenStream.look 1).outcome s.stream = (.ok (some t), stream)) (hs : TokenStream.Standing o stream k t) :
    currentToken.Ends s (fun x s' => x = t ∧ Still o k t s s') E := by
  have hout := Recogniser.onStream_ok (r := s.inside) h.trained.attached hlook
  refine onRecogniser_ends (.of_outcome (Run.outcome_bind_ok hout _) ?_)
  exact .of_ok (Run.outcome_lift _ _) ⟨rfl, streamed_still h hs⟩

section

variable (h : Calm s) (hs : TokenStream.Standing o s.stream k t)
include h hs

theorem currentToken_still : currentToken.Ends s (fun x s' => x = t ∧ Still o k t s s') E := currentToken_looked h hs.look hs

theorem previousToken_still : previousToken.Ends s (fun _ s' => Still o k t s s') E :=
  (onStream_still h hs.lookBack hs).imp (fun _ _ h => h.2) fun _ _ h => h

theorem nextType_still : nextType.Ends s (fun x s' => x = t.type ∧ Still o k t s s') E := onStream_still h hs.lookType hs

end

/-! ## Decisions -/

theorem Calm.placed (h : Calm s) (n : Int) : Calm { s with state := n } :=
  { h with trained := h.trained.placed n }

/-- What is known of one decision is not lost in another. -/
theorem learnt_drifted {n : Nat} {r : Recogniser} (h : Learnt s.toRecogniser) (hd : Drift n s.inside r)
    (hn : ∀ q ∈ surveyed, q.1 = n → q.2.Learnt n r) : Learnt r := by
  intro q hq
  by_cases hm : q.1 = n
  · exact hm ▸ hn q hq hm
  · exact (h q hq).imp fun _ ha => ⟨(hd.automata q.1 hm).trans ha.1, ha.2⟩

theorem Still.decided (h : Calm s) (hs : TokenStream.Standing o s.stream k t) {n : Nat} {r : Recogniser} (hd : Drift n s.inside r)
    (hindex : r.stream.index = k) (hmemory : r.merger.memory = none) (hlearnt : Learnt r) :
    Still o k t s { s with toRecogniser := r } := by
  have hstream := hd.stream o hs.reading
  refine ⟨{ h with trained := (h.trained.called _).drifted hd hmemory hlearnt, drained := hd.drained h.drained },
    ⟨hstream.reading, hindex, hstream.token hs.token⟩, rfl, hd.part (·.precedences) fun _ => rfl, hd.part (·.state) fun _ => rfl,
    hd.clean h.trained.undiagnosed hs.reading.legible⟩

/-- A failure that is still to be complained about. -/
structure Baffled (s : Session) : Prop where
  legible : s.stream.Legible
  quiet : s.recovering = false

/-- A decision and its survey. -/
structure Surveyed (n : Nat) (v : Survey) : Prop where
  mem : (n, v) ∈ surveyed
  checked : v.Checked
  brief : v.Brief
  state : States.network.decisions.getD n 0 = v.state
  levels : v.levels = levels

theorem statement_surveyed : Surveyed 9 statementSurvey :=
  ⟨by simp [surveyed], statementSurvey_checked, statementSurvey_brief, rfl, rfl⟩

theorem operand_surveyed : Surveyed 10 operandSurvey := ⟨by simp [surveyed], operandSurvey_checked, operandSurvey_brief, rfl, rfl⟩

theorem tail_surveyed : Surveyed 11 tailSurvey := ⟨by simp [surveyed], tailSurvey_checked, tailSurvey_brief, rfl, rfl⟩

theorem loop_surveyed : Surveyed 12 loopSurvey := ⟨by simp [surveyed], loopSurvey_checked, loopSurvey_brief, rfl, rfl⟩

theorem choose_surveyed {n : Nat} (hv : Surveyed n v) (h : Calm s) (hs : TokenStream.Standing o s.stream k t) {p : Int}
    (hp : s.precedences.head? = some p) :
    (choose n).Ends s (fun alt s' => Still o k t s s' ∧ v.verdict p (o.type k) (o.type (k + 1)) = some alt) fun _ => Baffled := by
  have hready : Ready States.network p s.inside :=
    ⟨h.trained.net, h.trained.mode, h.trained.quiet, h.trained.attached, h.trained.undiagnosed, hp⟩
  have hlevel : p ∈ v.levels := by
    obtain ⟨q, hq, hhead⟩ := h.trained.level
    rw [hv.levels, Option.some.inj (hp.symm.trans hhead)]
    exact hq
  refine .after_get (onRecogniser_ends ?_)
  refine (hv.checked.choose hv.brief hready hv.state hlevel (h.trained.learnt _ hv.mem) h.trained.memory hs _).imp ?_ ?_
  · rintro alt r ⟨hr, hverdict⟩
    refine ⟨.decided h hs hr.drift hr.index hr.memory (learnt_drifted h.trained.learnt hr.drift fun q hq heq => ?_), hverdict⟩
    obtain rfl : q = (n, v) := List.inj_on_of_nodup_map (f := Prod.fst) (by decide) hq hv.mem heq
    exact hr.learnt
  · exact fun _ _ hd => ⟨hd.legible hs.reading.legible, h.settled⟩

/-- The decision that was not surveyed. -/
theorem choose_return (h : Calm s) (hs : TokenStream.Standing o s.stream k t) :
    (choose 8).Ends s (fun _ s' => Still o k t s s') fun _ => Baffled := by
  have hsize : 8 < s.inside.automata.size := by
    obtain ⟨a, ha, -⟩ := h.trained.learnt _ (statement_surveyed).mem
    have := (Array.getElem?_eq_some_iff.mp ha).1
    exact Nat.lt_of_succ_lt this
  refine .after_get (onRecogniser_ends ?_)
  refine (Predict.choose_returns (n := 8) (r := s.inside) h.trained.quiet h.trained.attached
    (TokenStream.wrap?_inside hsize) hs _).imp ?_ fun _ _ hd => ⟨hd.1.legible hs.reading.legible, h.settled⟩
  rintro alt r ⟨hd, hindex, hmemory⟩
  exact .decided h hs hd hindex hmemory (learnt_drifted h.trained.learnt hd (by simp [surveyed]))

/-! ## Lookahead -/

theorem remembering_still {f : Network → Lookahead.Memory → Except Fault (α × Lookahead.Memory)}
    (hf : ∀ m a m', Lookahead.Truthful States.network m → f States.network m = .ok (a, m') → Lookahead.Truthful States.network m')
    (hE : ∀ g, f States.network s.lookahead = .error g → E g s) (h : Calm s) (hs : TokenStream.Standing o s.stream k t) :
    (remembering f).Ends s (fun a s' => (∃ m, f States.network s.lookahead = .ok (a, m)) ∧ Still o k t s s') E := by
  refine .after_get ?_
  rw [h.trained.net]
  refine Run.Ends.bind (Q := fun q s' => f States.network s.lookahead = .ok q ∧ s' = s) (.lift (fun q hq => ⟨hq, rfl⟩) hE) ?_
  rintro ⟨a, m⟩ s' ⟨hq, rfl⟩
  have hcalm := h.trained.remembered (hf _ _ _ h.trained.lookahead hq)
  exact .of_ok rfl ⟨⟨m, hq⟩, { h with trained := hcalm }, ⟨hs.reading, hs.index, hs.token⟩, rfl, rfl, rfl, id⟩

end Session

end NimbleLang
