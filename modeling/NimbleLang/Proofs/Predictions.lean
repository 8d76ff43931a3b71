import NimbleLang.Proofs.Decisions

/-!
What a decision may change. While a recogniser looks for the alternative to take, it reads ahead, notes reports, learns
an automaton, asks predicates and merges contexts; all else stays as it is (`Recogniser.Drift`). In particular the
automata of other decisions stay, tokens once read stay, and a complaint once noted stays, even if the decision fails.

All that has to be seen is what the simple acts change (`drifts_conduct`); `choose_drifts` is what a parser needs.
-/

namespace NimbleLang

namespace Recogniser

/-! ## Drifting -/

/-- A recogniser without what a decision may change. -/
def bare (r : Recogniser) : Recogniser :=
  { r with
    stream := { source := .listed { tokens := #[] } }, journal := {}, automata := #[], questions := #[], merger := {}
    errorsAt := [] }

/-- What `r` may have become of `a` in decision `d`. -/
structure Drift (d : Nat) (a r : Recogniser) : Prop where
  rest : r.bare = a.bare
  stream : ∀ o, TokenStream.Reading o a.stream → TokenStream.Further o a.stream r.stream
  marred : a.journal.Marred → r.journal.Marred
  automata : ∀ i, i ≠ d → r.automata[i]? = a.automata[i]?
  size : r.automata.size = a.automata.size
  drained : a.stream.source.Drained → r.stream.source.Drained
  /-- Nobody complains but those who are asked to. -/
  clean : a.diagnosis = none → a.stream.Legible → r.journal.Marred → a.journal.Marred
  places : a.diagnosis = none → r.errorsAt = a.errorsAt

theorem Drift.refl (d : Nat) (a : Recogniser) : Drift d a a :=
  ⟨rfl, fun _ h => h.further, id, fun _ _ => rfl, rfl, id, fun _ _ => id, fun _ => rfl⟩

/-- What a decision may not change is as it was. -/
theorem Drift.part {β : Type} {d : Nat} {a r : Recogniser} (h : Drift d a r) (part : Recogniser → β)
    (hpart : ∀ r, part r.bare = part r) : part r = part a := by
  rw [← hpart r, h.rest, hpart a]

theorem Drift.legible {d : Nat} {a r : Recogniser} (h : Drift d a r) (ha : a.stream.Legible) : r.stream.Legible := by
  obtain ⟨o, ho⟩ := ha
  exact (h.stream o ho).reading.legible

theorem Drift.trans {d : Nat} {a b c : Recogniser} (hab : Drift d a b) (hbc : Drift d b c) : Drift d a c where
  rest := hbc.rest.trans hab.rest
  stream o ho := (hab.stream o ho).trans (hbc.stream o (hab.stream o ho).reading)
  marred h := hbc.marred (hab.marred h)
  automata i hi := (hbc.automata i hi).trans (hab.automata i hi)
  size := hbc.size.trans hab.size
  drained h := hbc.drained (hab.drained h)
  clean hd hs h := hab.clean hd hs (hbc.clean ((hab.part (·.diagnosis) fun _ => rfl).trans hd) (hab.legible hs) h)
  places hd := (hbc.places ((hab.part (·.diagnosis) fun _ => rfl).trans hd)).trans (hab.places hd)

theorem Drift.merged {d : Nat} {a r : Recogniser} (h : Drift d a r) (merger : Merger Unit) : Drift d a { r with merger } :=
  { h with }

/-- An act of decision `d` on what has become of `a`, even where it fails. -/
abbrev Drifts {α : Type} (d : Nat) (a : Recogniser) (act : Act α) : Prop := act.Keeps (Drift d a) fun _ => Drift d a

variable {d : Nat} {a : Recogniser} {α : Type}

theorem lift_drifts (x : Except Fault α) : Drifts d a (liftM x) := .lift fun _ _ _ h => h

theorem throw_drifts (f : Fault) : Drifts d a (throw f : Act α) := .throw fun _ h => h

variable {act : TokenStream.Act Supply α}

/-- A failure of the stream is sober. -/
theorem onStream_ends (hact : ∀ {I}, TokenStream.Stable I → TokenStream.Careful I act) (r : Recogniser) :
    (onStream act).Ends r (fun _ => Drift d r) fun f r' => (r.stream.Legible → f.Sober) ∧ Drift d r r' := by
  unfold onStream Run.Ends
  rw [Run.outcome_ofOutcome]
  by_cases hattached : r.attached = true
  · rw [if_pos hattached]
    have hlegible (h : r.stream.Legible) : (act.outcome r.stream).2.Legible := (hact TokenStream.legible_stable).kept h
    have hdrift : Drift d r { r with
        stream := { (act.outcome r.stream).2 with source := (act.outcome r.stream).2.source.drain.2 }
        journal := r.journal.append (act.outcome r.stream).2.source.drain.1 } := by
      refine ⟨rfl, fun o ho => ?_, fun h => h.append _, fun _ _ => rfl, rfl, fun _ => Supply.drained_drain _, fun _ h hm => ?_,
        fun _ => rfl⟩
      · have hstream := (hact TokenStream.further_stable).kept ho.further
        exact ⟨hstream.reading.drained, hstream.tokens⟩
      · obtain ⟨o, ho⟩ := hlegible h
        exact hm.of_append ho.notes
    rcases hout : act.outcome r.stream with ⟨f | x, stream⟩ <;> rw [hout] at hdrift
    · exact ⟨fun h => ((hact TokenStream.legible_stable _ h).error hout).1, hdrift⟩
    · exact hdrift
  · rw [if_neg hattached]
    exact ⟨fun _ => trivial, .refl d r⟩

theorem onStream_ok {r : Recogniser} (hr : r.attached = true) {x : α} {stream : TokenStream Supply}
    (h : act.outcome r.stream = (.ok x, stream)) : (onStream act).outcome r = (.ok x, { r with
      stream := { stream with source := stream.source.drain.2 }, journal := r.journal.append stream.source.drain.1 }) := by
  unfold onStream
  rw [Run.outcome_ofOutcome, if_pos hr, h]

theorem onStream_drifts (hact : ∀ {I}, TokenStream.Stable I → TokenStream.Careful I act) : Drifts d a (onStream act) := fun r hr =>
  (onStream_ends hact r).imp (fun _ _ h => hr.trans h) fun _ _ h => hr.trans h.2

theorem merging_drifts (act : Context.Merging Unit α) : Drifts d a (merging act) := by
  intro r hr
  unfold merging Run.Ends
  rw [Run.outcome_onPart]
  cases (act.outcome r.merger).1 <;> exact hr.merged _

theorem print_drifts (line : String) : Drifts d a (print line) :=
  .modify fun _ h => { h with marred := fun hm => (h.marred hm).print line }

theorem printIf_drifts (wanted : Traces → Bool) {line : Act String} (h : Drifts d a line) : Drifts d a (printIf wanted line) :=
  .bind .get fun _ => .ite (.bind h print_drifts) (.pure ())

/-- Complaints are for recognisers whose decisions are diagnosed. -/
theorem report_drifts {entry : Report} (hentry : entry.blamesToken = true → a.diagnosis ≠ none) : Drifts d a (report entry) := by
  refine .modify fun r h => { h with marred := fun hm => (h.marred hm).add entry, clean := fun hd hs hm => ?_ }
  exact h.clean hd hs (hm.of_add (Bool.eq_false_iff.mpr fun hblames => hentry hblames hd))

theorem currentToken_drifts : Drifts d a currentToken :=
  .bind (onStream_drifts fun h => TokenStream.look_careful h 1) fun _ => lift_drifts _

theorem complainAt_drifts (ha : a.diagnosis ≠ none) (token : Token) (message : String) (kind : Option Recognition.Kind) :
    Drifts d a (complainAt token message kind) :=
  .bind (.modify fun _ h => { h with places := fun hd => absurd hd ha }) fun _ =>
    report_drifts fun _ => ha

theorem complainAt_marred (r : Recogniser) (token : Token) (message : String) (kind : Option Recognition.Kind)
    {E : Fault → Recogniser → Prop} : (complainAt token message kind).Ends r (fun _ r' => r'.journal.Marred) E := by
  refine .after_modify (.of_ok (Run.outcome_modify _ _) ?_)
  exact ⟨_, by rw [Journal.add_reports]; exact Array.mem_push_self, rfl⟩

theorem describeDecision_drifts (decision : Nat) : Drifts d a (describeDecision decision) :=
  .bind .get fun _ => .ite (.pure _) (.pure _)

theorem textBetween_drifts (start stop : Int) : Drifts d a (textBetween start stop) :=
  onStream_drifts fun h => TokenStream.text_careful h _ _

theorem diagnose_drifts (ha : a.diagnosis ≠ none) (what : String) (decision : Nat) (detail : String) (start stop : Int) :
    Drifts d a (diagnose what decision detail start stop) :=
  .bind (describeDecision_drifts decision) fun _ => .bind (textBetween_drifts start stop) fun _ =>
    .bind currentToken_drifts fun _ => complainAt_drifts ha _ _ _

theorem diagnosing_drifts {q : Option Bool → Bool} (hq : q none = false) {act rest : Act Unit}
    (hact : a.diagnosis ≠ none → Drifts d a act) (hrest : Drifts d a rest) :
    Drifts d a (get >>= fun (r : Recogniser) => if q r.diagnosis then act >>= fun _ => rest else rest) := by
  intro r hr
  refine .after_get ?_
  have hdiagnosis : r.diagnosis = a.diagnosis := hr.part (·.diagnosis) fun _ => rfl
  rw [hdiagnosis]
  by_cases ha : a.diagnosis = none
  · rw [ha, hq]
    exact hrest r hr
  · exact Run.Keeps.ite (.bind (hact ha) fun _ => hrest) hrest r hr

theorem announce_drifts (what which detail : String) (wanted : Bool → Bool) (decision : Nat) (configs : Predict.ConfigSet)
    (start stop : Int) {entry : Report} (hentry : entry.blamesToken = false) :
    Drifts d a (announce what which detail wanted decision configs start stop entry) :=
  .bind (printIf_drifts _ (.bind (textBetween_drifts start stop) fun _ => .pure _)) fun _ =>
    diagnosing_drifts (q := Option.any wanted) rfl (fun ha => diagnose_drifts ha _ _ _ _ _)
      (report_drifts fun hblames => nomatch hentry.symm.trans hblames)

theorem precedenceHolds_drifts (level : Int) : Drifts d a (precedenceHolds level) := by
  refine .bind .get fun r => ?_
  cases r.precedences with
  | nil => exact throw_drifts _
  | cons current rest => exact .pure _

end Recogniser

namespace Predict

open Recogniser

variable {d : Decision} {a : Recogniser} {n : Nat}

theorem setAutomaton_drifts (b : Automaton ConfigSet) : Drifts d.number a (setAutomaton d b) := by
  refine .modify fun r hr => { hr with automata := fun i hi => ?_, size := ?_ }
  · rw [← hr.automata i hi]
    exact Array.getElem?_setIfInBounds_ne hi.symm
  · exact (Array.size_setIfInBounds ..).trans hr.size

/-- The acts of a decision change nothing but what it may. -/
theorem drifts_conduct (d : Decision) (a : Recogniser) : Conduct d fun _ x y => x = y ∧ Drifts d.number a x where
  pure x := ⟨rfl, .pure x⟩
  throw f := ⟨rfl, throw_drifts f⟩
  lift x := ⟨rfl, lift_drifts x⟩
  bind := by
    rintro α β x _ f g ⟨rfl, hx⟩ hf
    obtain rfl : f = g := funext fun a => (hf a).1
    exact ⟨rfl, .bind hx fun a => (hf a).2⟩
  get := by
    intro β f g h
    obtain rfl : f = g := funext fun r => (h r r.lookahead).1
    exact ⟨rfl, .bind .get fun r => (h r r.lookahead).2⟩
  onStream hact := ⟨rfl, onStream_drifts hact⟩
  merging act := ⟨rfl, merging_drifts act⟩
  remember _ := ⟨rfl, .modify fun _ h => h.merged _⟩
  print line := ⟨rfl, print_drifts line⟩
  ask _ _ _ _ := ⟨rfl, fun _ h => { h with }⟩
  precedenceHolds level := ⟨rfl, precedenceHolds_drifts level⟩
  setAutomaton b := ⟨rfl, setAutomaton_drifts b⟩
  announce what which detail wanted configs start stop _ h := ⟨rfl, announce_drifts what which detail wanted _ configs start stop h⟩

theorem seek_drifts (i : Int) : Drifts n a (onStream (TokenStream.seek i)) :=
  onStream_drifts fun h => TokenStream.seek_careful h i

theorem runDecision_drifts : Drifts d.number a (runDecision d) := (drifts_conduct d a).runDecision.2

theorem conclude_drifts (start : Int) : Drifts n a (conclude start) :=
  .bind (.modify fun _ h => h.merged _) fun _ => seek_drifts start

variable {decision : Int} {r : Recogniser}

theorem choose_drifts (hn : ∀ m, Indexing.wrap? r.automata.size decision = some m → m = n)
    (callers : Option Callers) : (choose decision callers).Ends r (fun _ => Drift n r) fun _ => Drift n r := by
  refine Run.Ends.bind (Q := fun _ => Drift n r) (printIf_drifts _ ?_ r (.refl n r)) fun _ r₁ h₁ => ?_
  · exact ((drifts_conduct (.begun r n callers) r).spellNext _).2
  refine Run.Ends.bind (Q := fun b r₂ => b = r₁ ∧ r₂ = r₁) ⟨rfl, rfl⟩ ?_
  rintro _ r₁ ⟨rfl, rfl⟩
  refine Run.Ends.bind (Q := fun m r₂ => m = n ∧ r₂ = r₁) (.lift (fun m hm => ?_) fun _ _ => h₁) ?_
  · rw [h₁.size, Fault.unless_eq_ok] at hm
    exact ⟨hn m hm, rfl⟩
  · rintro _ r₁ ⟨rfl, rfl⟩
    exact Run.Keeps.always runDecision_drifts (conclude_drifts _) (fun _ => conclude_drifts _) r₁ h₁

theorem printIf_quiet (hr : r.traces = {}) {wanted : Traces → Bool} (h : wanted {} = false)
    (line : Act String) : (printIf wanted line).outcome r = (.ok (), r) := by
  rw [printIf, Run.outcome_get_bind, hr, h]
  rfl

theorem choose_quiet {r : Recogniser} (hr : r.traces = {}) {decision : Int} (hn : Indexing.wrap? r.automata.size decision = some n)
    (callers : Option Callers) :
    (choose decision callers).outcome r = ((runDecision (.begun r n callers)).always (conclude r.stream.index)).outcome r := by
  rw [choose, Run.outcome_bind_ok (printIf_quiet hr rfl _), Run.outcome_get_bind, hn]
  rfl

/-- A decision that there is not leaves everything as it is. -/
theorem choose_absent (hr : r.traces = {}) (hn : Indexing.wrap? r.automata.size decision = none)
    (callers : Option Callers) : (choose decision callers).outcome r = (.error .outOfRange, r) := by
  rw [choose, Run.outcome_bind_ok (printIf_quiet hr rfl _), Run.outcome_get_bind, hn]
  rfl

/-- A decision forgets its merges and goes back to where it began. -/
theorem conclude_inside {r : Recogniser} (hattached : r.attached = true) {o : Tape} (hs : TokenStream.Reading o r.stream)
    {k : Nat} {t : Token} (ht : r.stream.tokens[k]? = some t) :
    ∃ r', (conclude k).outcome r = (.ok (), r') ∧ r'.stream.index = k ∧ r'.merger.memory = none := by
  let forgotten : Recogniser := { r with merger := { r.merger with memory := none } }
  have hseek := onStream_ok (r := forgotten) hattached (TokenStream.seek_inside hs ht)
  exact ⟨_, (Run.outcome_modify_bind _ _ _).trans hseek, rfl, rfl⟩

/-- After a decision the stream stands where it stood, and no merges are remembered, even if the decision fails. -/
theorem choose_returns (hr : r.traces = {}) (hattached : r.attached = true)
    (hn : Indexing.wrap? r.automata.size decision = some n) {o : Tape} {k : Nat} {t : Token}
    (hs : TokenStream.Standing o r.stream k t) (callers : Option Callers) :
    (choose decision callers).Ends r (fun _ r' => Drift n r r' ∧ r'.stream.index = k ∧ r'.merger.memory = none)
      fun _ r' => Drift n r r' ∧ r'.stream.index = k ∧ r'.merger.memory = none := by
  have hconclude (r' : Recogniser) (h : Drift n r r') :
      ∃ r'', (conclude k).outcome r' = (.ok (), r'') ∧ Drift n r r'' ∧ r''.stream.index = k ∧ r''.merger.memory = none := by
    have hstream := h.stream o hs.reading
    obtain ⟨r'', hout, hindex, hmemory⟩ :=
      conclude_inside ((h.part (·.attached) fun _ => rfl).trans hattached) hstream.reading (hstream.token hs.token)
    exact ⟨r'', hout, (conclude_drifts _ _ h).ok hout, hindex, hmemory⟩
  unfold Run.Ends
  rw [choose_quiet hr hn, hs.index]
  refine Run.Ends.always (runDecision_drifts (a := r) r (.refl n r)) (fun _ r' h => ?_) fun _ r' h => ?_
  all_goals
    obtain ⟨r'', hout, hreturned⟩ := hconclude r' h
    exact .of_ok hout hreturned

end Predict

end NimbleLang
