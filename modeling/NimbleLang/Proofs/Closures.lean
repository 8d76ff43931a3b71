import NimbleLang.Proofs.Checks
import NimbleLang.Proofs.Runs
import NimbleLang.Proofs.Shapes
import NimbleLang.Scan.Lexer

/-!
Closures without a scanner. A network that asks its host nothing and has one command, which does not depend on its place,
can be read off a `Plan`: a way to look up its states. The configurations of its lexer are then `Spot`s, which count how
often the command was met, and what a spot reaches is a matter of the plan alone (`Plan.step`). A scanner over the
network comes to the same, and is left as it was: `startClosure_mimics`, `step_mimics`.

Nor do the spots after a character tell apart characters on the same side of all bounds of the edges that lead to them
(`Plan.step_congr`).
-/

namespace NimbleLang

theorem Indexing.wrap?_lt {size k : Nat} {i : Int} (h : wrap? size i = some k) : k < size := by
  unfold wrap? at h
  split at h
  · split at h
    · exact Option.some.inj h ▸ ‹i.toNat < size›
    · cases h
  · split at h
    · cases h
      omega
    · cases h

namespace Edge

/-- Whether an edge is a question to the host. -/
def asks : Edge → Bool
  | .predicate _ _ _ _ => true
  | _ => false

/-- The places where what an edge admits begins and ends. -/
def bounds : Edge → List Int
  | .atom _ l => [l, l + 1]
  | .range _ lo hi => [lo, hi + 1]
  | .set _ l | .notSet _ l => (l.spans.getD []).flatMap fun s => [s.lo, s.hi]
  | _ => []

theorem admits_congr {e : Edge} {x y lo hi : Int} (h : SameSide e.bounds x y) (hx : lo ≤ x ∧ x ≤ hi) (hy : lo ≤ y ∧ y ≤ hi) :
    e.admits x lo hi = e.admits y lo hi := by
  cases e with
  | atom target l =>
    have hl := h l (by simp [bounds])
    have hl' := h (l + 1) (by simp [bounds])
    rw [admits, admits, Bool.eq_iff_iff, beq_iff_eq, beq_iff_eq]
    omega
  | range target a b =>
    have ha := h a (by simp [bounds])
    have hb := h (b + 1) (by simp [bounds])
    rw [admits, admits, Bool.eq_iff_iff]
    simp only [Bool.and_eq_true, decide_eq_true_eq]
    omega
  | set target l => exact Span.contains_congr h
  | notSet target l =>
    have hl : l.contains x = l.contains y := Span.contains_congr h
    simp only [admits, hl, hx, hy]
  | wildcard target => simp only [admits, hx, hy]
  | epsilon | call | predicate | action | precedence => rfl

end Edge

namespace Run

variable {σ α β β' γ γ' : Type}

/-- From the state `s` a run comes to what a computation comes to, seen through `g`, and leaves the state as it is. -/
def Mimics (s : σ) (g : γ → β) (x : Run σ β) (y : Except Fault γ) : Prop := x.outcome s = (y.map g, s)

namespace Mimics

variable {s : σ} {g : γ → β} {g' : γ' → β'} {x : Run σ β} {y : Except Fault γ}

theorem pure (c : γ) : Mimics s g (pure (g c)) (.ok c) := rfl

theorem throw (e : Fault) : Mimics s g (throw e) (.error e) := rfl

/-- A last step that cannot fail. -/
theorem map {f : β → Run σ β'} {k : γ → γ'} (hx : Mimics s g x y) (hf : ∀ c, (f (g c)).outcome s = (.ok (g' (k c)), s)) :
    Mimics s g' (x >>= f) (y.map k) := by
  unfold Mimics at hx ⊢
  cases y with
  | error e => exact outcome_bind_error hx f
  | ok c => exact (outcome_bind_ok hx f).trans (hf c)

theorem foldlM {f : β → α → Run σ β} {k : γ → α → Except Fault γ} {l : List α}
    (h : ∀ a ∈ l, ∀ c, Mimics s g (f (g c) a) (k c a)) (c : γ) : Mimics s g (l.foldlM f (g c)) (l.foldlM k c) := by
  induction l generalizing c with
  | nil => rfl
  | cons a l ih =>
    have hrest := ih fun a ha => h a (List.mem_cons_of_mem _ ha)
    have hstep := h a List.mem_cons_self c
    unfold Mimics at hstep ⊢
    rw [List.foldlM_cons, List.foldlM_cons]
    cases hc : k c a with
    | error e =>
      rw [hc] at hstep
      exact outcome_bind_error hstep _
    | ok c' =>
      rw [hc] at hstep
      exact (outcome_bind_ok hstep _).trans (hrest c')

theorem get {f : σ → Run σ β} (h : Mimics s g (f s) y) : Mimics s g (get >>= f) y := h

/-- A step that changes nothing and yields `a`. -/
theorem after {z : Run σ α} {a : α} (hz : z.outcome s = (.ok a, s)) {f : α → Run σ β} (h : Mimics s g (f a) y) :
    Mimics s g (z >>= f) y := (outcome_bind_ok hz f).trans h

theorem ite {c : Prop} [Decidable c] {x' : Run σ β} {y' : Except Fault γ} (h : c → Mimics s g x y) (h' : ¬c → Mimics s g x' y') :
    Mimics s g (if c then x else x') (if c then y else y') := by
  split
  · exact h ‹_›
  · exact h' ‹_›

end Mimics

end Run

namespace Scan

/-- A scanner over a network that is not traced. -/
structure Over (net : Network) (s : Scanner) : Prop where
  network : s.network = net
  traced : s.traced = false

theorem Over.trace_eq {net : Network} {s : Scanner} (h : Over net s) (line : Unit → Except Fault String) :
    (trace line).outcome s = (.ok (), s) := by
  unfold trace
  rw [Run.outcome_get_bind, if_neg (by rw [h.traced]; decide)]
  rfl

/-! ## Spots -/

/-- A configuration of a lexer with one command: `met` counts how often the command was met. -/
structure Spot where
  state : Nat
  alt : Nat
  stack : List Nat := []
  met : Nat := 0
  viaNonGreedy : Bool := false
  deriving DecidableEq, Repr, Inhabited

/-- The configuration that a spot stands for. -/
def Spot.config (command : Command) (c : Spot) : Config :=
  { state := c.state, alt := c.alt, stack := c.stack, viaNonGreedy := c.viaNonGreedy
    program := if c.met = 0 then none else some (List.replicate c.met { command }) }

/-- A command that does not depend on its place stays as it is. -/
theorem pin_replicate {command : Command} (h : command.positional = false) (offset : Int) (stamp n : Nat) :
    pin offset stamp (List.replicate n { command }) = (List.replicate n { command }, stamp) := by
  have hfree : Step.unpinned { command } = false := by
    unfold Step.unpinned
    cases command <;> first | rfl | exact h
  induction n with
  | zero => rfl
  | succ n ih => simp only [List.replicate_succ, pin, hfree, ih, Bool.false_eq_true, if_false]

theorem Spot.config_inj {command : Command} {c d : Spot} : c.config command = d.config command ↔ c = d := by
  constructor
  · intro h
    obtain ⟨state, alt, stack, met, via⟩ := c
    obtain ⟨state', alt', stack', met', via'⟩ := d
    simp only [Spot.config, Config.mk.injEq] at h
    obtain ⟨rfl, rfl, rfl, hprogram, rfl⟩ := h
    have hmet : met = met' := by
      by_cases h0 : met = 0 <;> by_cases h0' : met' = 0
      · rw [h0, h0']
      · simp [h0, h0'] at hprogram
      · simp [h0, h0'] at hprogram
      · simp only [h0, h0', if_false, Option.some.injEq] at hprogram
        simpa using congrArg List.length hprogram
    rw [hmet]
  · intro h
    rw [h]

/-- Spots in the order they were reached, each once. -/
def Spot.addTo (found : List Spot) (c : Spot) : List Spot := if found.contains c then found else found ++ [c]

/-- What was reached, as the scanner keeps it. -/
def reachOf (command : Command) (found : List Spot) : Reach := { configs := found.map (Spot.config command) }

theorem reachOf_add (command : Command) (found : List Spot) (c : Spot) :
    (reachOf command found).add (c.config command) = reachOf command (c.addTo found) := by
  have hcontains : (found.map (Spot.config command)).contains (c.config command) = found.contains c := by
    rw [Bool.eq_iff_iff, List.contains_iff_mem, List.contains_iff_mem, List.mem_map]
    constructor
    · intro ⟨d, hd, hdc⟩
      exact Spot.config_inj.1 hdc ▸ hd
    · intro h
      exact ⟨c, h, rfl⟩
  have hconfigs : (reachOf command found).configs = found.map (Spot.config command) := rfl
  unfold Reach.add Spot.addTo
  rw [hconfigs, hcontains]
  split
  · rfl
  · rw [reachOf, reachOf, List.map_append]
    rfl

/-! ## Plans -/

/-- How to look up the states of a network, and the numbers of its states and rules. -/
structure Plan where
  state : Nat → State
  states : Nat
  rules : Nat

namespace Plan

variable (plan : Plan)

def moveTo (c : Spot) (n : Nat) : Spot :=
  let s := plan.state n
  { c with state := n, viaNonGreedy := c.viaNonGreedy || (s.kind.decides && s.nonGreedy == some true) }

/-- What follows a spot along an edge that consumes nothing. -/
def follow (atEnd : Bool) (c : Spot) (e : Edge) : Except Fault (Option Spot) :=
  match e with
  | .call _ _ _ follow => .ok (some { plan.moveTo c e.target with stack := follow :: c.stack })
  | .precedence _ _ => .error (.unsupported "Precedence predicates are not supported in lexers.")
  | .action _ _ index _ =>
    if c.stack.isEmpty then
      (Fault.outOfRange.unless (Indexing.wrap? 1 index)).map fun _ => some { plan.moveTo c e.target with met := c.met + 1 }
    else .ok (some (plan.moveTo c e.target))
  | .epsilon _ _ => .ok (some (plan.moveTo c e.target))
  | .atom _ _ | .range _ _ _ | .set _ _ =>
    .ok (if atEnd && e.admits Source.endMark 0 0x10ffff then some (plan.moveTo c e.target) else none)
  | .predicate _ _ _ _ | .notSet _ _ | .wildcard _ => .ok none

/-- Adds what a spot reaches without input. -/
def closure (atEnd : Bool) : Nat → Spot → Bool × List Spot → Except Fault (Bool × List Spot)
  | 0, _, _ => .error .exhausted
  | fuel + 1, c, (ended, found) =>
    let state := plan.state c.state
    if state.kind = .ruleStop then
      match c.stack with
      | [] => .ok (true, c.addTo found)
      | back :: stack => closure atEnd fuel { plan.moveTo c back with stack } (ended, found)
    else
      state.edges.foldlM (fun q e =>
        match plan.follow atEnd c e with
        | .error f => .error f
        | .ok none => .ok q
        | .ok (some c') => closure atEnd fuel c' q)
        (ended, if !state.epsilonOnly && (!ended || !c.viaNonGreedy) then c.addTo found else found)

def fuel (depth : Nat) : Nat := (depth + 1) * Nat.pow (plan.states + 1) (plan.rules + 1) + 1

/-- Enters a rule of a mode, with the number of its alternative. -/
def enter (q : Nat × List Spot) (e : Edge) : Except Fault (Nat × List Spot) :=
  (plan.closure false (plan.fuel 0) { state := e.target, alt := q.1 } (false, q.2)).map fun r => (q.1 + 1, r.2)

/-- The spots at the start of a mode. -/
def start (state : Nat) : Except Fault (List Spot) := ((plan.state state).edges.foldlM plan.enter (1, [])).map (·.2)

/-- Moves a spot along an edge, if the edge admits the character. -/
def cross (x : Int) (c : Spot) (ended : Bool) (q : Nat × List Spot) (e : Edge) : Except Fault (Nat × List Spot) :=
  if e.admits x 0 0x10ffff then
    (plan.closure (x == Source.endMark) (plan.fuel c.stack.length) (plan.moveTo c e.target) (ended, q.2)).map fun r =>
      (if r.1 then c.alt else q.1, r.2)
  else .ok q

def move (x : Int) (q : Nat × List Spot) (c : Spot) : Except Fault (Nat × List Spot) :=
  if c.alt == q.1 && c.viaNonGreedy then .ok q else (plan.state c.state).edges.foldlM (plan.cross x c (c.alt == q.1)) q

/-- The spots after a character. -/
def step (spots : List Spot) (x : Int) : Except Fault (List Spot) := (spots.foldlM (plan.move x) (0, [])).map (·.2)

/-- Characters that all edges admit or refuse together lead to the same. -/
theorem step_congr {spots : List Spot} {x y : Int}
    (h : ∀ c ∈ spots, ∀ e ∈ (plan.state c.state).edges, e.admits x 0 0x10ffff = e.admits y 0 0x10ffff)
    (hend : (x == Source.endMark) = (y == Source.endMark)) : plan.step spots x = plan.step spots y := by
  have hfold : ∀ {α β : Type} {f g : β → α → Except Fault β} (l : List α) (b : β), (∀ a ∈ l, ∀ b, f b a = g b a) →
      l.foldlM f b = l.foldlM g b := by
    intro α β f g l b hfg
    induction l generalizing b with
    | nil => rfl
    | cons a l ih =>
      rw [List.foldlM_cons, List.foldlM_cons, hfg a List.mem_cons_self b]
      exact congrArg (g b a >>= ·) (funext fun b => ih b fun a ha => hfg a (List.mem_cons_of_mem _ ha))
  unfold step
  rw [hfold spots (0, []) fun c hc q => ?_]
  unfold move
  rw [hfold _ q fun e he r => ?_]
  unfold cross
  rw [h c hc e he, hend]

end Plan

/-! ## Scanners over a planned network -/

/-- A network that a plan describes, with its one command. -/
structure Planned (net : Network) (plan : Plan) (command : Command) : Prop where
  state : ∀ n, net.state n = plan.state n
  states : net.states.size = plan.states
  rules : net.ruleStarts.size = plan.rules
  commands : net.commands = some #[command]
  plain : command.positional = false
  silent : ∀ n, ∀ e ∈ (plan.state n).edges, e.asks = false

namespace Planned

variable {net : Network} {plan : Plan} {command : Command} (h : Planned net plan command) {s : Scanner} (hs : Over net s)
include h

theorem moveTo_eq (c : Spot) (n : Nat) : (c.config command).moveTo net n = (plan.moveTo c n).config command := by
  unfold Config.moveTo
  rw [h.state]
  rfl

theorem fuel_eq (depth : Nat) : pathBound net depth = plan.fuel depth := by
  rw [pathBound, Plan.fuel, h.states, h.rules]

/-- The commands met so far, and the one that is met now. -/
theorem program_succ (c : Spot) (k : Nat) :
    some ((c.config command).program.getD [] ++ [Step.ofTable k command]) = (Spot.config command { c with met := c.met + 1 }).program := by
  have hstep : Step.ofTable k command = { command } := by
    unfold Step.ofTable
    rw [h.plain]
    rfl
  unfold Spot.config
  rw [if_neg (Nat.succ_ne_zero c.met), hstep, List.replicate_succ']
  by_cases h0 : c.met = 0
  · rw [if_pos h0, h0]
    rfl
  · rw [if_neg h0]
    rfl

include hs

theorem follow_mimics (c : Spot) {e : Edge} (he : e.asks = false) (reach : Reach) (speculative atEnd : Bool) :
    Run.Mimics s (fun o => (o.map (Spot.config command), reach)) (follow (c.config command) e reach speculative atEnd)
      (plan.follow atEnd c e) := by
  refine .get ?_
  rw [hs.network]
  dsimp only
  rw [h.moveTo_eq]
  cases e with
  | predicate => cases he
  | call | epsilon | precedence | notSet | wildcard => rfl
  | atom | range | set =>
    dsimp only [Plan.follow]
    split
    · exact .pure (some _)
    · exact .pure none
  | action target rule index contextual =>
    have hstack : (c.config command).stack = c.stack := rfl
    have hsize : #[command].size = 1 := rfl
    dsimp only [Plan.follow]
    rw [hstack]
    split
    · rw [h.commands]
      refine .after (Run.outcome_unless_some _ _ _) ?_
      rw [hsize]
      cases hwrap : Indexing.wrap? 1 index with
      | none => rfl
      | some k =>
        obtain rfl : k = 0 := by
          have hlt := Indexing.wrap?_lt hwrap
          omega
        have hprogram := h.program_succ c 0
        have hget : #[command].getD 0 default = command := rfl
        refine .after (Run.outcome_unless_some _ _ _) ?_
        rw [hget, hprogram]
        rfl
    · rfl

/-- What was reached, and whether the alternative has ended, as the scanner keeps it. -/
def kept (command : Command) (q : Bool × List Spot) : Bool × Reach := (q.1, reachOf command q.2)

theorem closure_mimics (speculative atEnd : Bool) (fuel : Nat) (c : Spot) (q : Bool × List Spot) :
    Run.Mimics s (kept command) (closure speculative atEnd fuel (c.config command) (kept command q)) (plan.closure atEnd fuel c q) := by
  induction fuel generalizing c q with
  | zero => exact .throw _
  | succ fuel ih =>
    obtain ⟨ended, found⟩ := q
    have hstate : (c.config command).state = c.state := rfl
    have hstack : (c.config command).stack = c.stack := rfl
    have hvia : (c.config command).viaNonGreedy = c.viaNonGreedy := rfl
    dsimp only [closure, Plan.closure, kept]
    refine .get (.after (hs.trace_eq _) ?_)
    rw [hs.network, hstate, h.state]
    split
    · refine .after (hs.trace_eq _) ?_
      rw [hstack]
      cases hc : c.stack with
      | nil =>
        rw [reachOf_add]
        exact .pure (true, _)
      | cons back stack =>
        dsimp only
        rw [h.moveTo_eq]
        exact ih { plan.moveTo c back with stack } (ended, found)
    · rw [hvia, reachOf_add, ← apply_ite (reachOf command)]
      refine .foldlM (fun e he r => ?_) (ended, _)
      have hfollow := h.follow_mimics hs c (h.silent _ e he) (reachOf command r.2) speculative atEnd
      cases hf : plan.follow atEnd c e with
      | error f =>
        rw [hf] at hfollow
        exact Run.outcome_bind_error hfollow _
      | ok o =>
        rw [hf] at hfollow
        refine .after hfollow ?_
        cases o with
        | none => exact .pure r
        | some c' => exact ih c' r

/-- The number of an alternative, and what was reached, as the scanner keeps them. -/
def counted (command : Command) (q : Nat × List Spot) : Nat × Reach := (q.1, reachOf command q.2)

theorem startClosure_mimics (state : Nat) : Run.Mimics s (reachOf command) (startClosure state) (plan.start state) := by
  have hedges : net.edgesOf state = (plan.state state).edges := by rw [Network.edgesOf, h.state]
  refine .get ?_
  rw [hs.network]
  dsimp only
  rw [hedges]
  refine .map (g := counted command) (.foldlM (fun e _ q => ?_) (1, [])) fun q => rfl
  dsimp only [counted]
  rw [h.fuel_eq 0]
  exact .map (h.closure_mimics hs false false _ { state := e.target, alt := q.1 } (false, q.2)) fun r => rfl

theorem step_mimics (spots : List Spot) (x : Int) :
    Run.Mimics s (reachOf command) (step (spots.map (Spot.config command)) x) (plan.step spots x) := by
  refine .get ?_
  rw [hs.network]
  dsimp only
  rw [List.foldlM_map]
  refine .map (g := counted command) (.foldlM (fun c _ q => ?_) (0, [])) fun q => rfl
  have hedges : net.edgesOf c.state = (plan.state c.state).edges := by rw [Network.edgesOf, h.state]
  have halt : (c.config command).alt = c.alt := rfl
  have hvia : (c.config command).viaNonGreedy = c.viaNonGreedy := rfl
  have hstate : (c.config command).state = c.state := rfl
  dsimp only [counted]
  unfold Plan.move
  rw [halt, hvia, hstate, hedges]
  refine .ite (fun _ => .pure q) fun _ => .after (hs.trace_eq _) (.foldlM (fun e _ r => ?_) q)
  refine .ite (fun _ => .get ?_) fun _ => .pure r
  refine .after (a := (c.config command).program) ?_ ?_
  · -- the commands met so far do not depend on their place
    have hprogram : (c.config command).program = if c.met = 0 then none else some (List.replicate c.met { command }) := rfl
    rw [hprogram]
    split
    · rename_i hnone
      rw [hnone]
      rfl
    · rename_i p hp
      have hp' : p = List.replicate c.met { command } := by
        split at hp
        · cases hp
        · exact (Option.some.inj hp).symm
      rw [hp', pin_replicate h.plain, hp, hp']
      rfl
  have hdepth : (c.config command).stack = c.stack := rfl
  have hmoved : { (c.config command).moveTo net e.target with program := (c.config command).program } =
      (plan.moveTo c e.target).config command := h.moveTo_eq c e.target
  rw [hmoved, hdepth, h.fuel_eq]
  exact .map (h.closure_mimics hs true _ _ (plan.moveTo c e.target) (c.alt == q.1, r.2)) fun t => rfl

end Planned

end Scan

end NimbleLang
