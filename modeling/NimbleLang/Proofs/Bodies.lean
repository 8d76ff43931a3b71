import NimbleLang.Parse.Rules
import NimbleLang.Proofs.Runs

/-!
What rules keep. A rule is run by entering a phrase, taking the steps of its body and leaving the phrase; a failure on the way
is reported and recovered from. What all these keep, the rule keeps (`Session.Upheld.runRule`). Of the steps that take a
token or call a rule only those have to keep it that stand in the rules at hand (`Grammar.Step.leaves`).
-/

namespace NimbleLang

namespace Run.Keeps

variable {σ α β : Type} {I : σ → Prop} {J : Fault → σ → Prop}

theorem forIn {f : α → β → Run σ (ForInStep β)} (h : ∀ a b, Keeps I J (f a b)) (l : List α) (b : β) :
    Keeps I J (ForIn.forIn l b f) := by
  induction l generalizing b with
  | nil => exact .pure b
  | cons a l ih =>
    rw [List.forIn_cons]
    refine .bind (h a b) fun step => ?_
    split
    · exact .pure _
    · exact ih _

end Run.Keeps

namespace Grammar

mutual
/-- The steps that take a token or call a rule. -/
def Step.leaves : Step → List Step
  | .optional _ _ body | .decided _ _ body | .many _ _ _ body => leavesOf body
  | .token state type => [.token state type]
  | .operator state types => [.operator state types]
  | .phrase state rule precedence => [.phrase state rule precedence]

def leavesOf : List Step → List Step
  | [] => []
  | s :: rest => s.leaves ++ leavesOf rest
end

def Body.leaves : Body → List Step
  | .sequence steps => leavesOf steps
  | .choice _ _ alternatives => alternatives.flatMap fun a => leavesOf a.steps
  | .operators _ _ operands _ _ _ _ _ tails =>
    operands.flatMap (fun a => leavesOf a.steps) ++ tails.flatMap fun t => leavesOf t.steps

end Grammar

namespace Session

open Grammar

variable {α : Type}

/-- What lasts is kept, even where the act fails. -/
abbrev Lasts (I : Session → Prop) (act : Act α) : Prop := act.Keeps I fun _ => I

/-- What is kept by entering and leaving phrases. -/
structure Framed (I : Session → Prop) : Prop where
  shift {s : Session} (state : Int) (frames : List Frame) (precedences : List Int) :
    I s → I { s with state, frames, precedences }
  currentToken : Lasts I currentToken
  previousToken : Lasts I previousToken
  announceEntry : Lasts I announceEntry
  announceExit : Lasts I announceExit

/-- What is kept by all that rules are made of; of the steps that take a token, those count that `fits` picks. -/
structure Upheld (I : Session → Prop) (fits : Step → Prop) : Prop extends Framed I where
  nextType : Lasts I nextType
  precedenceHolds (level : Int) : Lasts I (onRecogniser (Recogniser.precedenceHolds level))
  choose (decision : Int) : Lasts I (choose decision)
  sync : Lasts I sync
  token {state type : Int} : fits (.token state type) → Lasts I (do
    setState state
    let _ ← matchToken (·.type == type))
  operator {state : Int} {types : List Int} : fits (.operator state types) → Lasts I (do
    setState state
    takeOperator types)
  reportFailure (r : Recognition) : Lasts I (reportFailure r)
  recover (r : Recognition) : Lasts I (recover r)

/-! ## Phrases -/

namespace Framed

variable {I : Session → Prop}

theorem top : Lasts I top := .bind .get fun _ => .lift fun _ _ _ hs => hs

variable (h : Framed I)
include h

theorem setState (n : Int) : Lasts I (setState n) := .modify fun s hs => h.shift n s.frames s.precedences hs

theorem modifyTop (f : Frame → Frame) : Lasts I (modifyTop f) := by
  refine .bind .get fun s => ?_
  split
  · exact .throw fun _ hs => hs
  · exact .modify fun s hs => h.shift s.state _ s.precedences hs

theorem modifyLabel (f : Label → Label) : Lasts I (modifyLabel f) := h.modifyTop _

theorem dropTop : Lasts I dropTop := .modify fun s hs => h.shift s.state _ s.precedences hs

theorem openFrame (form : Form) (invoking state : Int) : Lasts I (openFrame form invoking state) :=
  .bind (.modify fun s hs => h.shift state _ s.precedences hs) fun _ => .bind h.currentToken fun _ => h.modifyLabel _

theorem enterRule (form : Form) (state : Int) : Lasts I (enterRule form state) :=
  .bind .get fun _ => .bind (h.openFrame _ _ _) fun _ => h.announceEntry

theorem attach (t : Tree) : Lasts I (attach t) := .bind .get fun _ => .ite (h.modifyTop _) (.pure _)

theorem relabel (form : Form) : Lasts I (relabel form) := h.modifyTop _

theorem wrapTop (form : Form) (invoking : Int) : Lasts I (wrapTop form invoking) :=
  .bind h.previousToken fun _ => .bind (h.modifyLabel _) fun _ => .bind top fun _ => .bind h.dropTop fun _ =>
    .bind .get fun _ => .bind (.modify fun s hs => h.shift s.state _ s.precedences hs) fun _ => h.announceEntry

theorem enterPhrase (rule : Rule) (p : Int) : Lasts I (enterPhrase rule p) :=
  .ite (.bind (.modify fun s hs => h.shift s.state s.frames _ hs) fun _ => .bind .get fun _ =>
    .bind (h.openFrame _ _ _) fun _ => h.announceEntry) (h.enterRule _ _)

theorem leavePhrase (rule : Rule) : Lasts I (leavePhrase rule) :=
  .bind (.ite (.modify fun s hs => h.shift s.state s.frames _ hs) (.pure _)) fun _ => .bind top fun _ => .bind h.previousToken fun _ =>
    .bind (h.modifyLabel _) fun _ => .bind h.announceExit fun _ => .bind top fun _ => .bind (.ite (.pure _) (h.setState _)) fun _ =>
    .bind h.dropTop fun _ => .bind (h.attach _) fun _ => .pure _

end Framed

/-! ## Bodies -/

namespace Upheld

variable {I : Session → Prop} {fits : Step → Prop}

theorem tokenFuel : Lasts I tokenFuel := .bind .get fun _ => .pure _

variable (h : Upheld I fits)
include h

theorem guarded {body : Act Unit} (hbody : Lasts I body) : Lasts I (guarded body) := by
  refine .bind (.attempt hbody) fun result => ?_
  split
  · exact .pure _
  · exact .bind (h.modifyLabel _) fun _ => .bind (h.reportFailure _) fun _ => h.recover _
  · exact .throw fun _ hs => hs

theorem repeatWhile (first : List Int) (again : Int) {body : Act Unit} (hbody : Lasts I body) (fuel : Nat) :
    Lasts I (repeatWhile first again body fuel) := by
  induction fuel with
  | zero => exact .throw fun _ hs => hs
  | succ fuel ih =>
    exact .bind h.nextType fun _ => .ite (.bind hbody fun _ => .bind (h.setState _) fun _ => .bind h.sync fun _ => ih) (.pure _)

variable {call : Rule → Int → Act Unit}

omit h

mutual
theorem runStep (h : Upheld I fits) (hcall : ∀ state rule p, fits (.phrase state rule p) → Lasts I (call rule p)) :
    (step : Step) → (∀ l ∈ step.leaves, fits l) → Lasts I (runStep call step)
  | .token _ _, hfits => h.token (hfits _ List.mem_cons_self)
  | .operator _ _, hfits => h.operator (hfits _ List.mem_cons_self)
  | .phrase state rule p, hfits => .bind (h.setState _) fun _ => hcall state rule p (hfits _ List.mem_cons_self)
  | .optional _ _ body, hfits => .bind (h.setState _) fun _ => .bind h.sync fun _ => .bind h.nextType fun _ =>
      .ite (runSteps h hcall body hfits) (.pure _)
  | .decided _ _ body, hfits => .bind (h.setState _) fun _ => .bind h.sync fun _ => .bind (h.choose _) fun _ =>
      .ite (runSteps h hcall body hfits) (.pure _)
  | .many _ _ _ body, hfits => .bind (h.setState _) fun _ => .bind h.sync fun _ => .bind tokenFuel fun _ =>
      h.repeatWhile _ _ (runSteps h hcall body hfits) _

theorem runSteps (h : Upheld I fits) (hcall : ∀ state rule p, fits (.phrase state rule p) → Lasts I (call rule p)) :
    (steps : List Step) → (∀ l ∈ leavesOf steps, fits l) → Lasts I (runSteps call steps)
  | [], _ => .pure _
  | step :: rest, hfits => .bind (runStep h hcall step fun l hl => hfits l (List.mem_append_left _ hl)) fun _ =>
      runSteps h hcall rest fun l hl => hfits l (List.mem_append_right _ hl)
end

variable (hcall : ∀ state rule p, fits (.phrase state rule p) → Lasts I (call rule p))
include h hcall

theorem runChoice (state decision : Int) {alternatives : List Alternative}
    (hfits : ∀ l ∈ alternatives.flatMap fun a => leavesOf a.steps, fits l) :
    Lasts I (runChoice call state decision alternatives) := by
  refine .bind (h.setState _) fun _ => .bind h.sync fun _ => .bind (h.choose _) fun n => ?_
  split
  · rename_i a ha
    refine .ite (.bind (h.relabel _) fun _ => h.runSteps hcall _ ?_) (.pure _)
    intro l hl
    exact hfits l (List.mem_flatMap.mpr ⟨a, List.mem_of_getElem? ha, hl⟩)
  · exact .pure _

theorem runTail (invoking : Int) (t : Tail) (hfits : ∀ l ∈ leavesOf t.steps, fits l) : Lasts I (runTail call invoking t) := by
  refine .bind (h.wrapTop _ _) fun _ => .bind (h.setState _) fun _ => .bind (h.precedenceHolds _) fun _ =>
    .ite ?_ (h.runSteps hcall _ hfits)
  exact .bind h.currentToken fun _ => .bind .get fun _ => .bind (.throw fun _ hs => hs) fun _ => h.runSteps hcall _ hfits

theorem runOperator (invoking tailState tailDecision : Int) {tails : List Tail}
    (hfits : ∀ l ∈ tails.flatMap fun t => leavesOf t.steps, fits l) :
    Lasts I (runOperator call invoking tailState tailDecision tails) := by
  refine .bind .get fun s => .ite (.bind h.announceExit ?rest) (?rest ())
  refine fun _ => .bind (h.setState _) fun _ => .bind h.sync fun _ => .bind (h.choose _) fun n => ?_
  split
  · rename_i t ht
    refine .ite (h.runTail hcall _ _ ?_) (.pure _)
    intro l hl
    exact hfits l (List.mem_flatMap.mpr ⟨t, List.mem_of_getElem? ht, hl⟩)
  · exact .pure _

theorem runTails (invoking again loopDecision tailState tailDecision : Int) {tails : List Tail}
    (hfits : ∀ l ∈ tails.flatMap fun t => leavesOf t.steps, fits l) (fuel : Nat) (alt : Int) :
    Lasts I (runTails call invoking again loopDecision tailState tailDecision tails fuel alt) := by
  induction fuel generalizing alt with
  | zero => exact .throw fun _ hs => hs
  | succ fuel ih =>
    refine .ite (.pure _) (.ite (.bind (h.runOperator hcall _ _ _ hfits) ?rest) (?rest ()))
    exact fun _ => .bind (h.setState _) fun _ => .bind h.sync fun _ => .bind (h.choose _) fun _ => ih _

theorem runBody (invoking : Int) (body : Grammar.Body) (hfits : ∀ l ∈ body.leaves, fits l) : Lasts I (runBody call invoking body) := by
  cases body with
  | sequence steps => exact h.runSteps hcall steps hfits
  | choice state decision alternatives => exact h.runChoice hcall _ _ hfits
  | operators =>
    refine .bind (h.runChoice hcall _ _ fun l hl => hfits l (List.mem_append_left _ hl)) fun _ => .bind h.previousToken fun _ =>
      .bind (h.modifyLabel _) fun _ => .bind (h.setState _) fun _ => .bind h.sync fun _ => .bind (h.choose _) fun _ =>
      .bind tokenFuel fun _ => ?_
    exact h.runTails hcall _ _ _ _ _ (fun l hl => hfits l (List.mem_append_right _ hl)) _ _

omit hcall

/-! ## Rules -/

/-- What all parts of the rules keep, the rules keep. -/
theorem runRule (hrules : ∀ state rule p, fits (.phrase state rule p) → ∀ l ∈ (body rule).leaves, fits l) (fuel : Nat)
    {rule : Rule} (hrule : ∀ l ∈ (body rule).leaves, fits l) (p : Int) : Lasts I (runRule fuel rule p) := by
  induction fuel generalizing rule p with
  | zero => exact .throw fun _ hs => hs
  | succ fuel ih =>
    have hcall (state : Int) (r : Rule) (q : Int) (hr : fits (.phrase state r q)) :
        Lasts I (do let _ ← Session.runRule fuel r q) :=
      .bind (ih (hrules state r q hr) q) fun _ => .pure _
    refine .bind .get fun s => .bind (h.enterPhrase rule p) fun _ =>
      .bind (.attempt (h.guarded (h.runBody hcall s.state _ hrule))) fun result => ?_
    split
    · exact h.leavePhrase rule
    · exact .bind (h.leavePhrase rule) fun _ => .throw fun _ hs => hs

end Upheld

end Session

end NimbleLang
