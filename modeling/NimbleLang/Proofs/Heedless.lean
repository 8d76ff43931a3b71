import NimbleLang.Proofs.Predictions

/-!
What decisions leave aside. What a recogniser remembers of lookahead is for recovery: no decision looks at it or changes
it (`Recogniser.Heedless`). Two recognisers that differ in nothing else decide alike (`choose_heedless`).
-/

namespace NimbleLang

namespace Recogniser

/-- Two recognisers that differ in what they remember of lookahead. -/
def Apart (r r' : Recogniser) : Prop := ∃ memory, r' = { r with lookahead := memory }

/-- An act that does not look at what is remembered of lookahead. -/
abbrev Heedless {α : Type} (act : Act α) : Prop := Run.Parallel Apart act act

variable {α β : Type}

theorem get_heedless {f : Recogniser → Act β} (h : ∀ r memory, Run.Parallel Apart (f r) (f { r with lookahead := memory })) :
    Heedless (get >>= f) := by
  refine .get ?_
  rintro r _ ⟨memory, rfl⟩
  exact h r memory

theorem modify_heedless {f : Recogniser → Recogniser} (h : ∀ r memory, f { r with lookahead := memory } = { f r with lookahead := memory }) :
    Heedless (modify f) := by
  refine .modify ?_
  rintro r _ ⟨memory, rfl⟩
  exact ⟨memory, h r memory⟩

theorem onStream_heedless (act : TokenStream.Act Supply α) : Heedless (onStream act) := by
  rintro r _ ⟨memory, rfl⟩
  by_cases h : r.attached = true
  · refine ⟨_, _, _, (Run.outcome_ofOutcome _ _).trans (if_pos h), (Run.outcome_ofOutcome _ _).trans (if_pos h), ⟨memory, rfl⟩, ?_⟩
    split <;> trivial
  · exact ⟨_, _, _, (Run.outcome_ofOutcome _ _).trans (if_neg h), (Run.outcome_ofOutcome _ _).trans (if_neg h), ⟨memory, rfl⟩, trivial⟩

theorem merging_heedless (act : Context.Merging Unit α) : Heedless (merging act) := by
  refine .onPart ?_ ?_ act
  · rintro r _ ⟨memory, rfl⟩
    rfl
  · rintro r _ merger ⟨memory, rfl⟩
    exact ⟨memory, rfl⟩

theorem print_heedless (line : String) : Heedless (print line) := modify_heedless fun _ _ => rfl

theorem printIf_heedless (wanted : Traces → Bool) {line : Act String} (h : Heedless line) : Heedless (printIf wanted line) :=
  get_heedless fun _ _ => .ite (.bind h print_heedless) (.pure ())

theorem report_heedless (entry : Report) : Heedless (report entry) := modify_heedless fun _ _ => rfl

theorem currentToken_heedless : Heedless currentToken := .bind (onStream_heedless _) fun _ => .lift _

theorem complainAt_heedless (token : Token) (message : String) (kind : Option Recognition.Kind) :
    Heedless (complainAt token message kind) := .bind (modify_heedless fun _ _ => rfl) fun _ => report_heedless _

theorem describeDecision_heedless (decision : Nat) : Heedless (describeDecision decision) :=
  get_heedless fun _ _ => .ite (.pure _) (.pure _)

theorem textBetween_heedless (start stop : Int) : Heedless (textBetween start stop) := onStream_heedless _

theorem diagnose_heedless (what : String) (decision : Nat) (detail : String) (start stop : Int) :
    Heedless (diagnose what decision detail start stop) :=
  .bind (describeDecision_heedless decision) fun _ => .bind (textBetween_heedless start stop) fun _ =>
    .bind currentToken_heedless fun _ => complainAt_heedless _ _ _

theorem announce_heedless (what which detail : String) (wanted : Bool → Bool) (decision : Nat) (configs : Predict.ConfigSet)
    (start stop : Int) (entry : Report) : Heedless (announce what which detail wanted decision configs start stop entry) :=
  .bind (printIf_heedless _ (.bind (textBetween_heedless start stop) fun _ => .pure _)) fun _ =>
    get_heedless fun _ _ => .ite (.bind (diagnose_heedless _ _ _ _ _) fun _ => report_heedless _) (report_heedless _)

theorem precedenceHolds_heedless (level : Int) : Heedless (precedenceHolds level) := by
  refine get_heedless fun r _ => ?_
  cases r.precedences with
  | nil => exact .throw _
  | cons current rest => exact .pure _

end Recogniser

namespace Predict

open Recogniser

variable {d : Decision}

/-- No act of a decision looks at what is remembered of lookahead. -/
theorem heedless_conduct (d : Decision) : Conduct d fun _ x y => Run.Parallel Apart x y where
  pure := .pure
  throw := .throw
  lift := .lift
  bind := .bind
  get h := .get fun r r' => by
    rintro ⟨memory, rfl⟩
    exact h r memory
  onStream _ := onStream_heedless _
  merging := merging_heedless
  remember _ := modify_heedless fun _ _ => rfl
  print := print_heedless
  -- the question is noted in the state that was read just before
  ask _ _ _ _ := by
    rintro r _ ⟨memory, rfl⟩
    exact ⟨_, _, _, rfl, rfl, ⟨memory, rfl⟩, trivial⟩
  precedenceHolds := precedenceHolds_heedless
  setAutomaton _ := modify_heedless fun _ _ => rfl
  announce _ _ _ _ _ _ _ _ _ := announce_heedless _ _ _ _ _ _ _ _ _

theorem conclude_heedless (start : Int) : Heedless (conclude start) :=
  .bind (modify_heedless fun _ _ => rfl) fun _ => onStream_heedless _

/-- What is remembered of lookahead makes no difference to a decision. -/
theorem choose_heedless (decision : Int) (callers : Option Callers) : Heedless (choose decision callers) := by
  have hnext := (heedless_conduct ⟨0, 0, 0, 0, none, false⟩).spellNext fun name place =>
    "adaptivePredict decision " ++ toString decision ++ " exec LA(1)==" ++ name ++ place
  refine .bind (printIf_heedless _ hnext) fun _ => get_heedless fun r memory => .bind (.lift _) fun number => ?_
  exact Run.Paired.always (heedless_conduct _).runDecision (conclude_heedless _)

end Predict

end NimbleLang
