import NimbleLang.Proofs.Learning

/-!
A match without automata. `roam` walks over the configurations themselves and `judge` says what the walk has come to; neither
reads what the scanner has learnt. A scanner with faithful automata walks over the same configurations, under the numbers of
their nodes (`walk_taught`), and what it does at the end of a match does not look at the automata (`Indifferent`). So a match
is to come to a verdict and to carry it out, and the verdict is that without automata (`matchMode_taught`).
-/

namespace NimbleLang

open Run (outcome_bind_error outcome_bind_ok outcome_get_bind)

namespace Scan

open Automaton

variable {net : Network} {s t : Scanner} {as bs : Array (Automaton (List Config))} {k i : Nat} {cs ds : List Config}

/-! ## Runs that do not look at what was learnt -/

/-- The second scanner differs from the first in what it has learnt, and in nothing else. -/
structure Beside (net : Network) (as : Array (Automaton (List Config))) (s t : Scanner) : Prop where
  above : Over net s
  rest : t = { s with automata := as }

/-- What a run does it does whatever the scanner has learnt, and it learns nothing. -/
abbrev Indifferent {α : Type} (net : Network) (as : Array (Automaton (List Config))) (x : Act α) : Prop :=
  Run.Parallel (Beside net as) x x

theorem Beside.studied (h : Beside net as s t) (has : Faithful net as) : Studied net t := by
  obtain ⟨habove, rfl⟩ := h
  exact ⟨⟨habove.network, habove.traced⟩, has⟩

section

variable {α β : Type}

theorem modify_indifferent {f : Scanner → Scanner}
    (h : ∀ s as, f { s with automata := as } = { f s with automata := as } ∧ (f s).network = s.network ∧ (f s).traced = s.traced) :
    Indifferent net as (modify f : Act PUnit) := by
  refine .modify fun s t hs => ?_
  obtain ⟨habove, rfl⟩ := hs
  obtain ⟨hf, hnetwork, htraced⟩ := h s as
  exact ⟨⟨hnetwork.trans habove.network, htraced.trans habove.traced⟩, hf⟩

theorem get_indifferent {f : Scanner → Act β} (h : ∀ s, Indifferent net as (f s)) (hf : ∀ s as, f { s with automata := as } = f s) :
    Indifferent net as (get >>= f) := by
  refine .get fun s t hs => ?_
  obtain ⟨-, rfl⟩ := hs
  rw [hf s as]
  exact h s

theorem forM_indifferent {f : α → Act PUnit} (h : ∀ a, Indifferent net as (f a)) (l : List α) : Indifferent net as (l.forM f) := by
  induction l with
  | nil => exact .pure _
  | cons a l ih =>
    rw [List.forM_eq_forM, List.forM_cons]
    exact .bind (h a) fun _ => ih

end

theorem consume_indifferent : Indifferent net as consume := by
  refine .bind (modify_indifferent fun s as => ?_) fun _ =>
    get_indifferent (fun s => .bind (.lift _) fun c => modify_indifferent fun _ _ => ⟨rfl, rfl, rfl⟩) fun _ _ => rfl
  unfold Scanner.advance
  split <;> exact ⟨rfl, rfl, rfl⟩

theorem trace_indifferent (line : Unit → Except Fault String) : Indifferent net as (trace line) :=
  get_indifferent (fun _ => .ite (.bind (.lift _) fun _ => modify_indifferent fun _ _ => ⟨rfl, rfl, rfl⟩) (.pure _)) fun _ _ => rfl

theorem popMode_indifferent : Indifferent net as popMode := by
  refine .get fun s t hs => ?_
  obtain ⟨habove, rfl⟩ := hs
  dsimp only
  cases s.modeStack.getLast? with
  | none => exact .throw _
  | some m =>
    exact .ite (.bind (.throw _) fun _ => .set ⟨⟨habove.network, habove.traced⟩, rfl⟩)
      (.set ⟨⟨habove.network, habove.traced⟩, rfl⟩)

theorem runPlain_indifferent (c : Command) : Indifferent net as (runPlain c) := by
  cases c with
  | channel | mode | more | skip | type => exact modify_indifferent fun _ _ => ⟨rfl, rfl, rfl⟩
  | custom | stamped => exact .pure _
  | popMode => exact popMode_indifferent
  | pushMode m => exact .bind (trace_indifferent _) fun _ => modify_indifferent fun _ _ => ⟨rfl, rfl, rfl⟩

theorem hostAction_indifferent (rule index : Int) : Indifferent net as (hostAction rule index) := by
  have hdeed : ∀ d, Indifferent net as (runDeed d) := by
    rintro (c | text)
    · exact runPlain_indifferent c
    · exact modify_indifferent fun _ _ => ⟨rfl, rfl, rfl⟩
  refine .get fun s t hs => ?_
  obtain ⟨habove, rfl⟩ := hs
  have htext : Scanner.currentText { s with automata := as } = s.currentText := rfl
  dsimp only
  rw [htext]
  split
  · exact .throw _
  · split
    · exact .throw _
    · refine .ite ?_ (.pure _)
      split
      · exact .throw _
      · exact .set ⟨⟨habove.network, habove.traced⟩, rfl⟩
  · exact .bind (.set ⟨⟨habove.network, habove.traced⟩, rfl⟩) fun _ => forM_indifferent hdeed _

theorem runCommand_indifferent (c : Command) : Indifferent net as (runCommand c) := by
  induction c with
  | custom rule index => exact hostAction_indifferent rule index
  | stamped offset c ih => exact ih
  | _ => exact runPlain_indifferent _

theorem runSteps_indifferent (start stop : Int) (p : Program) (away : Bool) : Indifferent net as (runSteps start stop p away) := by
  have hseek : ∀ i, Indifferent net as (seek i) := fun i => modify_indifferent fun _ _ => ⟨rfl, rfl, rfl⟩
  induction p generalizing away with
  | nil => exact .ite (hseek stop) (.pure _)
  | cons step rest ih =>
    unfold runSteps
    refine .bind ?_ fun away => Run.Paired.bind (runCommand_indifferent _).attempt fun r _ => ?_
    · split
      · exact .bind (hseek _) fun _ => .pure _
      · exact .ite (.bind (hseek stop) fun _ => .pure _) (.pure _)
    · cases r with
      | ok _ => exact ih away
      | error f =>
        dsimp only
        split
        · exact .bind (hseek stop) fun _ _ => .throw trivial
        · exact .throw trivial

theorem runProgram_indifferent (p : Program) (start : Int) : Indifferent net as (runProgram p start) :=
  get_indifferent (fun _ => runSteps_indifferent start _ p false) fun _ _ => rfl

/-! ## Walks -/

/-- The best match so far, with the configurations it was accepted with. -/
structure Found where
  index : Int
  line : Int
  column : Int
  configs : List Config

/-- The match at the place of a scanner, if the configurations accept one. -/
def Found.here? (net : Network) (s : Scanner) (cs : List Config) : Option Found :=
  if (nodeOf net cs).accepts then some ⟨s.cursor.index, s.line, s.column, cs⟩ else none

/-- A walk over lists of configurations: the best match, and the symbol that it ends at. -/
def roam (net : Network) : Nat → List Config → Int → Option Found → Act (Option Found × Int)
  | 0, _, _, _ => throw .exhausted
  | fuel + 1, cs, x, best => do
    let ds ← onward net cs x
    if ds.isEmpty then return (best, x)
    if x ≠ Source.endMark then consume
    let s ← get
    let best := (Found.here? net s ds).or best
    if (nodeOf net ds).accepts && x == Source.endMark then return (best, x)
    roam net fuel ds (s.cursor.peek 1) best

/-- The match is that of the automaton's node. -/
structure Found.In (as : Array (Automaton (List Config))) (k : Nat) (w : Found) (b : Accepted) : Prop where
  index : b.index = w.index
  line : b.line = w.line
  column : b.column = w.column
  node : Holds as k b.node w.configs

variable {w : Option Found} {best : Option Accepted}

theorem found_extends (h : Extends as bs) (hw : Option.Rel (Found.In as k) w best) : Option.Rel (Found.In bs k) w best := by
  cases hw with
  | none => exact .none
  | some hw => exact .some ⟨hw.index, hw.line, hw.column, h _ _ _ hw.node⟩

/-- The walk came to the same match, and ended at the same symbol. -/
def Walked (k : Nat) (as : Array (Automaton (List Config))) (w : Option Found × Int) (q : Option Accepted × Int) : Prop :=
  Option.Rel (Found.In as k) w.1 q.1 ∧ w.2 = q.2

/-- A run without automata, and one with faithful automata, come to the same, as `R` reads the second result in what was
learnt. -/
def Taught {α β : Type} (net : Network) (R : Array (Automaton (List Config)) → α → β → Prop) (x : Act α) (y : Act β)
    (s t : Scanner) : Prop :=
  ∃ r r' s' t' as, x.outcome s = (r, s') ∧ y.outcome t = (r', t') ∧ Beside net as s' t' ∧ Faithful net as ∧ Same (R as) r r'

/-- Where a node accepts, the best match is the one here. -/
theorem found_here (h : Beside net as s t) (hi : Holds as k i cs) (hw : Option.Rel (Found.In as k) w best) :
    Option.Rel (Found.In as k) ((Found.here? net s cs).or w)
      (if (nodeOf net cs).accepts then some ⟨t.cursor.index, t.line, t.column, i⟩ else best) := by
  obtain ⟨-, rfl⟩ := h
  unfold Found.here?
  split
  · exact .some ⟨rfl, rfl, rfl, hi⟩
  · exact hw

theorem walk_taught (hnet : net.Mechanical) (fuel : Nat) (h : Beside net as s t) (has : Faithful net as) (hi : Holds as k i cs) (x : Int)
    (hw : Option.Rel (Found.In as k) w best) : Taught net (Walked k) (roam net fuel cs x w) (walk k fuel i x best) s t := by
  induction fuel generalizing s t as i cs x w best with
  | zero => exact ⟨_, _, s, t, as, rfl, rfl, h, has, .fault _⟩
  | succ fuel ih =>
    have hstudied := h.studied has
    have hautomata : t.automata = as := by rw [h.rest]
    rw [← hautomata] at hi hw
    obtain ⟨_, _, -, -, -, hnode⟩ := outcome_node hi
    obtain ⟨r, bs, hnext, hbs, hext, hsame⟩ := next_learns hnet hstudied hi x
    have hw := found_extends hext hw
    have h : Beside net bs s { t with automata := bs } := ⟨h.above, by rw [h.rest]⟩
    unfold Taught roam walk
    rw [outcome_bind_ok hnode, outcome_bind_ok (hstudied.above.trace_eq _)]
    cases honward : onward net cs x with
    | error f =>
      rw [honward] at hsame
      obtain rfl := hsame.of_error
      exact ⟨_, _, _, _, bs, rfl, outcome_bind_error hnext _, h, hbs, .fault f⟩
    | ok ds =>
      rw [honward] at hsame
      obtain ⟨g, rfl, hg⟩ := hsame.of_ok
      rw [outcome_bind_ok (Run.outcome_lift _ _), outcome_bind_ok hnext]
      by_cases hds : ds = []
      · subst hds
        obtain rfl := hg.eq_error
        exact ⟨_, _, _, _, bs, rfl, rfl, h, hbs, .result ⟨hw, rfl⟩⟩
      obtain ⟨j, rfl, hj⟩ := hg.eq_node hds
      rw [if_neg (mt List.isEmpty_iff.mp hds)]
      -- what both do at the place they have come to
      have harrive : ∀ {s t : Scanner}, Beside net bs s t → Taught net (Walked k)
          (do
            let s ← get
            let best := (Found.here? net s ds).or w
            if (nodeOf net ds).accepts && x == Source.endMark then return (best, x)
            roam net fuel ds (s.cursor.peek 1) best)
          (do
            let target ← node k j
            let s ← get
            let best := if target.accepts then some ⟨s.cursor.index, s.line, s.column, j⟩ else best
            if target.accepts && x == Source.endMark then return (best, x)
            walk k fuel j (s.cursor.peek 1) best) s t := by
        intro s t h
        have hautomata : t.automata = bs := by rw [h.rest]
        obtain ⟨n, hnode, hn⟩ := Faithful.outcome_node (hautomata ▸ hbs) (hautomata ▸ hj)
        have haccepts : n.accepts = (nodeOf net ds).accepts := congrArg (·.accepts) hn
        have hpeek : t.cursor.peek 1 = s.cursor.peek 1 := by rw [h.rest]
        have hhere := found_here h hj hw
        unfold Taught
        rw [outcome_get_bind, outcome_bind_ok hnode, outcome_get_bind, haccepts, hpeek]
        dsimp only
        split
        · exact ⟨_, _, _, _, bs, rfl, rfl, h, hbs, .result ⟨hhere, rfl⟩⟩
        · exact ih h hbs hj _ hhere
      dsimp only
      split
      · -- over a character both move on alike
        obtain ⟨r, s', t', hs', ht', h', -⟩ := consume_indifferent _ _ h
        cases r with
        | error f => exact ⟨_, _, _, _, bs, outcome_bind_error hs' _, outcome_bind_error ht' _, h', hbs, .fault f⟩
        | ok _ =>
          rw [outcome_bind_ok hs', outcome_bind_ok ht']
          exact harrive h'
      · exact harrive h

/-! ## Verdicts -/

/-- What a match has come to, when the scanner stands where it ends. -/
inductive Verdict where
  | fault (f : Fault)
  /-- No rule matches. -/
  | unmatched
  | atEnd
  | matched (type : Int) (program : Option Program)

/-- What is left to do then: the commands are run. -/
def Verdict.carryOut : Verdict → Act (Option Int)
  | .fault f => throw f
  | .unmatched => pure none
  | .atEnd => pure (some Token.eof)
  | .matched type program => do
    match program with
    | some p => runProgram p (← get).startIndex
    | none => pure ()
    return some type

/-- A walk that fails is a verdict too. -/
def Verdict.of : Except Fault Verdict → Verdict
  | .error f => .fault f
  | .ok v => v

theorem carryOut_indifferent (v : Verdict) : Indifferent net as v.carryOut := by
  cases v with
  | fault f => exact .throw f
  | unmatched | atEnd => exact .pure _
  | matched type program =>
    cases program with
    | none => exact .pure _
    | some p => exact get_indifferent (fun s => .bind (runProgram_indifferent p s.startIndex) fun _ => .pure _) fun _ _ => rfl

/-- The scanner at the end of its best match, and what it has come to. -/
def conclude (net : Network) : Option Found × Int → Act Verdict
  | (some b, _) => do
    modify fun s => { s with cursor := s.cursor.seek b.index, line := b.line, column := b.column }
    return .matched (nodeOf net b.configs).prediction (programOf net (nodeOf net b.configs))
  | (none, last) => do
    let s ← get
    return if last = Source.endMark ∧ s.cursor.index = s.startIndex then .atEnd else .unmatched

/-- What a match comes to that starts with given configurations. -/
def judge (net : Network) (cs : List Config) : Act Verdict := do
  let s ← get
  conclude net (← roam net (walkBound net (s.cursor.source.size - s.cursor.index).toNat) cs (s.cursor.peek 1) (Found.here? net s cs))

/-- The second run carries out what the first comes to, with what was learnt faithfully. -/
def CarriesOut (net : Network) (x : Act Verdict) (y : Act (Option Int)) (s t : Scanner) : Prop :=
  ∃ t' as, Beside net as (x.outcome s).2 t' ∧ Faithful net as ∧ y.outcome t = (Verdict.of (x.outcome s).1).carryOut.outcome t'

theorem CarriesOut.of_outcome {x x' : Act Verdict} {y y' : Act (Option Int)} {s' t' : Scanner} (h : CarriesOut net x' y' s' t')
    (hx : x.outcome s = x'.outcome s') (hy : y.outcome t = y'.outcome t') : CarriesOut net x y s t := by
  unfold CarriesOut
  rw [hx, hy]
  exact h

/-- What is done with the best match of a walk. -/
def finish (k : Nat) (best : Option Accepted) (last : Int) : Act (Option Int) := do
  let s ← get
  match best with
  | some b =>
    let n ← node k b.node
    let program := programOf s.network n
    trace fun _ => .ok ("ACTION " ++ if program.isSome then "<LexerActionExecutor>" else "None")
    modify fun s => { s with cursor := s.cursor.seek b.index, line := b.line, column := b.column }
    match program with
    | some p => runProgram p s.startIndex
    | none => pure ()
    return some n.prediction
  | none =>
    if last = Source.endMark ∧ s.cursor.index = s.startIndex then return some Token.eof
    return none

theorem finish_taught (h : Beside net as s t) (has : Faithful net as) (hw : Option.Rel (Found.In as k) w best) (last : Int) :
    CarriesOut net (conclude net (w, last)) (finish k best last) s t := by
  have hstudied := h.studied has
  obtain ⟨habove, rfl⟩ := h
  cases hw with
  | none =>
    refine ⟨_, as, ⟨habove, rfl⟩, has, ?_⟩
    unfold finish conclude
    rw [outcome_get_bind, outcome_get_bind]
    dsimp only
    split <;> rfl
  | some hb =>
    rename_i w b
    obtain ⟨n, hnode, hn⟩ := Faithful.outcome_node has (s := { s with automata := as }) hb.node
    have hprogram : programOf s.network n = programOf net (nodeOf net w.configs) := by
      rw [habove.network, ← hn]
      rfl
    have hprediction : n.prediction = (nodeOf net w.configs).prediction := congrArg (·.prediction) hn
    refine ⟨_, as, ⟨⟨habove.network, habove.traced⟩, rfl⟩, has, ?_⟩
    unfold finish conclude
    rw [outcome_get_bind]
    dsimp only
    rw [outcome_bind_ok hnode, outcome_bind_ok (hstudied.above.trace_eq _), Run.outcome_modify_bind, Run.outcome_modify_bind, hprogram,
      hprediction, hb.index, hb.line, hb.column]
    cases programOf net (nodeOf net w.configs) <;> rfl

theorem execute_taught (hnet : net.Mechanical) (h : Beside net as s t) (has : Faithful net as) (hi : Holds as k i cs) :
    CarriesOut net (judge net cs) (execute k i) s t := by
  have hstudied := h.studied has
  have hautomata : t.automata = as := by rw [h.rest]
  have hcursor : t.cursor = s.cursor := by rw [h.rest]
  have hhere := found_here h hi .none
  rw [Option.or_none, hcursor] at hhere
  obtain ⟨n, hnode, hn⟩ := Faithful.outcome_node (hautomata ▸ has) (hautomata ▸ hi)
  have haccepts : n.accepts = (nodeOf net cs).accepts := congrArg (·.accepts) hn
  obtain ⟨r, r', s', t', bs, hroam, hwalk, h', hbs, hsame⟩ := walk_taught hnet
    (walkBound net (s.cursor.source.size - s.cursor.index).toNat) h has hi (s.cursor.peek 1) hhere
  unfold CarriesOut judge execute
  rw [outcome_bind_ok hnode, outcome_bind_ok (hstudied.above.trace_eq _), outcome_get_bind, outcome_get_bind]
  dsimp only
  rw [hcursor, hstudied.above.network, haccepts]
  cases hsame with
  | fault f =>
    rw [outcome_bind_error hroam, outcome_bind_error hwalk]
    exact ⟨t', bs, h', hbs, rfl⟩
  | result hwalked =>
    rename_i w q
    obtain ⟨best, last⟩ := q
    obtain ⟨w, last'⟩ := w
    obtain ⟨hw, rfl⟩ := hwalked
    rw [outcome_bind_ok hroam, outcome_bind_ok hwalk]
    exact finish_taught h' hbs hw _

/-! ## Matches -/

/-- The configurations that a match in a mode starts with. -/
def opening (net : Network) (mode : Nat) : Except Fault (List Config) :=
  if mode < net.decisions.size ∧ barred net mode = false then beginning net mode else .error .outOfRange

/-- What a match in a mode comes to. -/
def verdictIn (net : Network) (mode : Nat) : Act Verdict := do
  modify fun s => { s with startIndex := s.cursor.index }
  judge net (← opening net mode)

theorem CarriesOut.quiet {x : Act Verdict} {y : Act (Option Int)} (h : CarriesOut net x y s t) : (y.outcome t).2.traced = false := by
  obtain ⟨t', as, hbeside, -, hy⟩ := h
  obtain ⟨r, s', t'', -, ht, h', -⟩ := carryOut_indifferent _ _ _ hbeside
  rw [hy, ht, h'.rest]
  exact h'.above.traced

/-- An untraced scanner prints no automaton after a match. -/
theorem outcome_quiet {x : Act (Option Int)} (h : (x.outcome s).2.traced = false) {f : Option Int → Act (Option Int)} :
    (do
      let type ← x
      if (← get).traced then f type else pure type).outcome s = x.outcome s := by
  rcases hx : x.outcome s with ⟨e | type, s'⟩
  · exact outcome_bind_error hx _
  · rw [hx] at h
    rw [outcome_bind_ok hx, outcome_get_bind, if_neg (by rw [h]; decide), Run.outcome_pure]

/-- A match starts with the configurations of its mode: at its first use they are found, later they are known. -/
theorem matchMode_opens (hnet : net.Mechanical) (h : Studied net s) (mode : Nat) : ∃ as, Faithful net as ∧
    ((∃ f, opening net mode = .error f ∧
        (matchMode mode).outcome s = (.error f, { s with startIndex := s.cursor.index, automata := as })) ∨
      ∃ cs i, opening net mode = .ok cs ∧ Holds as mode i cs ∧
        (matchMode mode).outcome s = (execute mode i).outcome { s with startIndex := s.cursor.index, automata := as }) := by
  have hnow : Studied net { s with startIndex := s.cursor.index } := ⟨⟨h.above.network, h.above.traced⟩, h.faithful⟩
  have hsize := h.faithful.size
  unfold opening matchMode
  rw [Run.outcome_modify_bind, outcome_get_bind]
  dsimp only
  rw [Indexing.wrap?_natCast, h.faithful.size]
  by_cases hmode : mode < net.decisions.size
  · have hlt : mode < s.automata.size := by rw [h.faithful.size]; exact hmode
    have hget := Array.getElem?_eq_getElem hlt
    have hcopies := h.faithful.copies mode _ hget
    generalize s.automata[mode] = a at hget hcopies
    rw [if_pos hmode, outcome_bind_ok (Run.outcome_unless_some _ _ _),
      outcome_bind_ok (outcome_automaton (s := { s with startIndex := s.cursor.index }) hget)]
    have hbarred := hcopies.barred
    unfold Automaton.isPrecedence at hbarred
    cases hstart : a.start with
    | byPrecedence levels =>
      rw [hstart] at hbarred
      refine ⟨s.automata, h.faithful, .inl ⟨.outOfRange, if_neg fun hopen => ?_, rfl⟩⟩
      rw [← hbarred] at hopen
      cases hopen.2
    | node i =>
      rw [hstart] at hbarred
      obtain ⟨cs, hcs, hi⟩ := hcopies.start i hstart
      exact ⟨s.automata, h.faithful, .inr ⟨cs, i, (if_pos ⟨hmode, hbarred.symm⟩).trans hcs, ⟨a, hget, hi⟩, rfl⟩⟩
    | unset =>
      rw [hstart] at hbarred
      rw [if_pos ⟨hmode, hbarred.symm⟩]
      have hmodes : s.network.modes = net.modes := by rw [h.above.network]
      dsimp only
      rw [hmodes]
      cases hstate : Indexing.arrayAt? net.modes mode with
      | none => exact ⟨s.automata, h.faithful, .inl ⟨.outOfRange, beginning_none hstate, rfl⟩⟩
      | some state =>
        rw [outcome_bind_ok (Run.outcome_unless_some _ _ _), outcome_bind_ok (hnow.above.trace_eq _)]
        obtain ⟨hclosure, hreach⟩ := (startClosure_fixed hnet hnow.above over_bare state).outcome_eq
        have hbeginning := beginning_some hstate
        cases hr : ((startClosure state).outcome (bare net)).1 with
        | error f =>
          rw [hr] at hclosure hbeginning
          exact ⟨s.automata, h.faithful, .inl ⟨f, hbeginning, outcome_bind_error hclosure _⟩⟩
        | ok reach =>
          rw [hr] at hclosure hbeginning
          have hunplaced := hreach reach hr
          obtain ⟨r, as, hadd, hfaithful, -, hsame⟩ := addNode_learns hnow hlt hunplaced.configs
          have hsettled : beginning net mode = settled net reach.configs := hbeginning
          rw [outcome_bind_ok hclosure, hsettled]
          cases hcs : settled net reach.configs with
          | error f =>
            rw [hcs] at hsame
            obtain rfl := hsame.of_error
            exact ⟨as, hfaithful, .inl ⟨f, rfl, outcome_bind_error hadd _⟩⟩
          | ok cs =>
            rw [hcs] at hsame
            obtain ⟨i, rfl, a', ha', hi⟩ := hsame.of_ok
            -- the start is known from now on
            have hcopies' := hfaithful.copies mode a' ha'
            obtain ⟨hfaithful', hextends⟩ := hfaithful.replace ha'
              (hcopies'.setStart (hcopies'.barred.trans hbarred.symm) (hsettled.trans hcs) hi) fun _ _ h => h
            have hholds := hextends mode i cs ⟨a', ha', hi⟩
            refine ⟨_, hfaithful', .inr ⟨cs, i, rfl, hholds, ?_⟩⟩
            have hquiet := (execute_taught hnet ⟨hnow.above, rfl⟩ hfaithful' hholds).quiet
            simp only [hunplaced.asked, Bool.not_false, if_true]
            rw [outcome_bind_ok hadd, outcome_bind_ok (outcome_automaton ha'), Run.outcome_modify_bind]
            exact outcome_quiet hquiet
  · refine ⟨s.automata, h.faithful, .inl ⟨.outOfRange, if_neg fun h => hmode h.1, ?_⟩⟩
    rw [if_neg hmode, outcome_bind_error (Run.outcome_unless_none _ _)]

/-- A match carries out the verdict without automata. -/
theorem matchMode_taught (hnet : net.Mechanical) (h : Beside net as s t) (has : Faithful net as) (mode : Nat) :
    CarriesOut net (verdictIn net mode) (matchMode mode) s t := by
  obtain ⟨bs, hbs, hopens⟩ := matchMode_opens hnet (h.studied has) mode
  have hnow : Beside net bs { s with startIndex := s.cursor.index } { t with startIndex := t.cursor.index, automata := bs } :=
    ⟨⟨h.above.network, h.above.traced⟩, by rw [h.rest]⟩
  rcases hopens with ⟨f, hf, ht⟩ | ⟨cs, i, hcs, hi, ht⟩
  · unfold CarriesOut verdictIn
    rw [Run.outcome_modify_bind, hf]
    exact ⟨_, bs, hnow, hbs, ht⟩
  · refine (execute_taught hnet hnow hbs hi).of_outcome ?_ ht
    unfold verdictIn
    rw [Run.outcome_modify_bind, hcs]
    rfl

end Scan

end NimbleLang
