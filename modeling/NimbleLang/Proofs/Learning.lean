import NimbleLang.Proofs.Automata
import NimbleLang.Proofs.Closures

/-!
What a lexer learns. Over a network whose lexer asks its host nothing and has no command that hangs on its place
(`Network.Mechanical`), the configurations after a symbol are a matter of the network alone: `step_fixed` and
`startClosure_fixed` say that all scanners find the same. So the nodes and edges of an automaton are what would be found
again without it (`Faithful`), and looking for the node after a symbol keeps it so, whether the edge is known or not
(`next_learns`).
-/

namespace NimbleLang

theorem Indexing.wrap?_natCast (size k : Nat) : wrap? size (k : Int) = if k < size then some k else none := by
  unfold wrap?
  rw [if_pos (by omega), Int.toNat_natCast]

/-- A lexer that asks its host nothing and has no command that depends on the place it is met at. -/
structure Network.Mechanical (net : Network) : Prop where
  asks : ∀ n, ∀ e ∈ (net.state n).edges, e.asks = false
  commands : ∀ table, net.commands = some table → ∀ c ∈ table, c.positional = false

namespace Scan

theorem Planned.mechanical {net : Network} {plan : Plan} {command : Command} (h : Planned net plan command) : net.Mechanical where
  asks n e he := h.silent n e (h.state n ▸ he)
  commands table htable c hc := by
    obtain rfl := Option.some.inj (h.commands.symm.trans htable)
    obtain rfl := List.mem_singleton.mp (Array.mem_def.mp hc)
    exact h.plain

/-! ## Runs that hang on the network alone -/

section Fixed

/-- From the scanner `s` and from the scanner `t` two runs come to the same, and leave them as they are. Of the result
`V` holds. -/
abbrev Fixed {α : Type} (s t : Scanner) (V : α → Prop) (x y : Act α) : Prop :=
  Run.Paired (fun a b => a = s ∧ b = t) V (fun _ => True) x y

variable {α β : Type} {net : Network} {s t : Scanner} {V : α → Prop} {W : β → Prop}

theorem Fixed.get {f g : Scanner → Act β} (h : Fixed s t W (f s) (g t)) : Fixed s t W (get >>= f) (get >>= g) := by
  refine Run.Paired.get ?_
  rintro _ _ ⟨rfl, rfl⟩
  exact h

theorem Fixed.after {x y : Act α} {a : α} (hx : x.outcome s = (.ok a, s)) (hy : y.outcome t = (.ok a, t)) {f g : α → Act β}
    (h : Fixed s t W (f a) (g a)) : Fixed s t W (x >>= f) (y >>= g) := by
  rintro _ _ ⟨rfl, rfl⟩
  rw [Run.outcome_bind_ok hx, Run.outcome_bind_ok hy]
  exact h _ _ ⟨rfl, rfl⟩

theorem Fixed.outcome_eq {x : Act α} (h : Fixed s t V x x) :
    x.outcome s = ((x.outcome t).1, s) ∧ ∀ a, (x.outcome t).1 = .ok a → V a := by
  obtain ⟨r, _, _, hxs, hxt, ⟨rfl, rfl⟩, hr⟩ := h s t ⟨rfl, rfl⟩
  rw [hxs, hxt]
  refine ⟨rfl, ?_⟩
  rintro a rfl
  exact hr

end Fixed

/-! ## Closures -/

/-- No command of the configuration waits to be pinned to a place. -/
def Config.Unplaced (c : Config) : Prop := ∀ p, c.program = some p → ∀ step ∈ p, step.unpinned = false

/-- Nothing was asked, and no command waits for its place. -/
structure Reach.Unplaced (r : Reach) : Prop where
  asked : r.asked = false
  configs : ∀ c ∈ r.configs, c.Unplaced

variable {c : Config} {reach : Reach} {x mode : Int} {n : Automaton.Node (List Config)} {g : Target}

theorem Reach.Unplaced.add {r : Reach} (h : r.Unplaced) (hc : c.Unplaced) : (r.add c).Unplaced := by
  unfold Reach.add
  split
  · exact h
  · refine ⟨h.asked, fun c' hc' => ?_⟩
    rcases List.mem_append.mp hc' with hc' | hc'
    · exact h.configs c' hc'
    · exact List.mem_singleton.mp hc' ▸ hc

theorem pin_unplaced (offset : Int) (stamp : Nat) {p : Program} (hp : ∀ step ∈ p, step.unpinned = false) :
    pin offset stamp p = (p, stamp) := by
  induction p with
  | nil => rfl
  | cons step rest ih =>
    have hstep : ¬(step.unpinned = true) := by
      rw [hp step List.mem_cons_self]
      decide
    rw [pin, if_neg hstep, ih fun s hs => hp s (List.mem_cons_of_mem _ hs)]

variable {net : Network}

theorem unplaced_program (h : c.Unplaced) {k : Nat} {command : Command} (hcommand : command.positional = false) (n : Nat) :
    Config.Unplaced { c.moveTo net n with program := some (c.program.getD [] ++ [Step.ofTable k command]) } := by
  intro p hp step hstep
  rw [← Option.some.inj hp] at hstep
  rcases List.mem_append.mp hstep with hstep | hstep
  · cases hprogram : c.program with
    | none =>
      rw [hprogram] at hstep
      cases hstep
    | some q =>
      rw [hprogram] at hstep
      exact h q hprogram step hstep
  · rw [List.mem_singleton.mp hstep]
    cases command <;> first | rfl | exact hcommand

variable {s t : Scanner} (hnet : net.Mechanical) (hs : Over net s) (ht : Over net t)
include hnet hs ht

theorem follow_fixed (hc : c.Unplaced) {e : Edge} (he : e.asks = false) (hr : reach.Unplaced)
    (speculative atEnd : Bool) :
    Fixed s t (fun q => (∀ c', q.1 = some c' → c'.Unplaced) ∧ q.2.Unplaced) (follow c e reach speculative atEnd)
      (follow c e reach speculative atEnd) := by
  have hsome : ∀ c' : Config, c'.Unplaced →
      (∀ c'', (some c', reach).1 = some c'' → c''.Unplaced) ∧ (some c', reach).2.Unplaced :=
    fun c' h => ⟨fun c'' hc'' => Option.some.inj hc'' ▸ h, hr⟩
  have hnone : (∀ c', ((none : Option Config), reach).1 = some c' → c'.Unplaced) ∧ ((none : Option Config), reach).2.Unplaced :=
    ⟨nofun, hr⟩
  refine .get ?_
  rw [hs.network, ht.network]
  cases e with
  | predicate => cases he
  | call target rule precedence back => exact .pure (hsome _ hc)
  | precedence => exact .throw trivial
  | epsilon => exact .pure (hsome _ hc)
  | notSet | wildcard => exact .pure hnone
  | atom | range | set =>
    dsimp only
    split
    · exact .pure (hsome _ hc)
    · exact .pure hnone
  | action target rule index contextual =>
    dsimp only
    split
    · refine .bind (.lift (V := fun table => net.commands = some table) (fun table h => Fault.unless_eq_ok.1 h) fun _ _ => trivial)
        fun table htable => ?_
      refine .bind (.lift (V := fun k => Indexing.wrap? table.size index = some k) (fun k h => Fault.unless_eq_ok.1 h) fun _ _ => trivial)
        fun k hk => .pure (hsome _ (unplaced_program hc ?_ target))
      have hlt := Indexing.wrap?_lt hk
      rw [Array.getD_eq_getD_getElem?, Array.getElem?_eq_getElem hlt]
      exact hnet.commands table htable _ (Array.getElem_mem hlt)
    · exact .pure (hsome _ hc)

theorem closure_fixed (speculative atEnd : Bool) (fuel : Nat) (hc : c.Unplaced) {q : Bool × Reach} (hq : q.2.Unplaced) :
    Fixed s t (fun q => q.2.Unplaced) (closure speculative atEnd fuel c q) (closure speculative atEnd fuel c q) := by
  induction fuel generalizing c q with
  | zero => exact .throw trivial
  | succ fuel ih =>
    obtain ⟨ended, reach⟩ := q
    dsimp only [closure]
    refine .get (.after (hs.trace_eq _) (ht.trace_eq _) ?_)
    rw [hs.network, ht.network]
    split
    · refine .after (hs.trace_eq _) (ht.trace_eq _) ?_
      split
      · exact .pure (hq.add hc)
      · rename_i back stack _
        have hback : Config.Unplaced { c.moveTo net back with stack } := hc
        exact ih hback hq
    · refine .foldlM (fun r e he hr => .bind (follow_fixed hnet hs ht hc (hnet.asks _ e he) hr _ _) fun o ho => ?_) ?_
      · obtain ⟨_ | c', reach'⟩ := o
        · exact .pure ho.2
        · exact ih (ho.1 c' rfl) ho.2
      · dsimp only
        split
        · exact hq.add hc
        · exact hq

theorem startClosure_fixed (state : Nat) : Fixed s t Reach.Unplaced (startClosure state) (startClosure state) := by
  refine .get ?_
  rw [hs.network, ht.network]
  refine .bind (V := fun q : Nat × Reach => q.2.Unplaced) (.foldlM (fun q e _ hq => ?_) ⟨rfl, nofun⟩) fun q hq => .pure hq
  have hc : Config.Unplaced { state := e.target, alt := q.1 } := nofun
  exact .bind (closure_fixed hnet hs ht false false _ hc hq) fun r hr => .pure hr

theorem step_fixed {cs : List Config} (hcs : ∀ c ∈ cs, c.Unplaced) (x : Int) : Fixed s t Reach.Unplaced (step cs x) (step cs x) := by
  refine .get ?_
  rw [hs.network, ht.network]
  refine .bind (V := fun q : Nat × Reach => q.2.Unplaced) (.foldlM (fun q c hc hq => ?_) ⟨rfl, nofun⟩) fun q hq => .pure hq
  dsimp only
  split
  · exact .pure hq
  refine Fixed.after (hs.trace_eq _) (ht.trace_eq _) (.foldlM (fun r e _ hr => ?_) hq)
  split
  · -- the commands met so far are taken along as they are
    have hpinned : ∀ (u : Scanner) (p : Program), c.program = some p →
        pin (u.cursor.index - u.startIndex) u.stamps p = (p, u.stamps) := fun u p hp => pin_unplaced _ _ (hcs c hc p hp)
    refine Fixed.get (Fixed.after (a := c.program) ?_ ?_ ?_)
    · cases hp : c.program with
      | none => rfl
      | some p =>
        dsimp only
        rw [hpinned s p hp]
        rfl
    · cases hp : c.program with
      | none => rfl
      | some p =>
        dsimp only
        rw [hpinned t p hp]
        rfl
    · have hmoved : Config.Unplaced { c.moveTo net e.target with program := c.program } := hcs c hc
      exact .bind (closure_fixed hnet hs ht true _ _ hmoved hr) fun q' hq' => .pure hq'
  · exact .pure hr

omit hnet hs ht

/-! ## What there is to learn -/

/-- A scanner over the network that has learnt nothing. -/
def bare (net : Network) : Scanner := { network := net, cursor := default }

theorem over_bare : Over net (bare net) := ⟨rfl, rfl⟩

/-- The node of a list of configurations, before any edge is known. -/
def nodeOf (net : Network) (configs : List Config) : Automaton.Node (List Config) :=
  match makeNode net configs with
  | .ok n => n
  | .error _ => { content := configs }

/-- A list of configurations, if there is a node for it. -/
def settled (net : Network) (cs : List Config) : Except Fault (List Config) := (makeNode net cs).map fun _ => cs

/-- The configurations after a symbol; where there are none, no node is needed. -/
def onward (net : Network) (cs : List Config) (x : Int) : Except Fault (List Config) := do
  let reach ← ((step cs x).outcome (bare net)).1
  if reach.configs.isEmpty then return [] else settled net reach.configs

variable {cs ds : List Config}

theorem settled_eq (h : settled net cs = .ok ds) : cs = ds := by
  unfold settled at h
  cases hn : makeNode net cs with
  | error f =>
    rw [hn] at h
    cases h
  | ok n =>
    rw [hn] at h
    exact Except.ok.inj h

theorem onward_error {f : Fault} (h : ((step cs x).outcome (bare net)).1 = .error f) : onward net cs x = .error f := by
  unfold onward
  rw [h]
  rfl

theorem onward_ok (h : ((step cs x).outcome (bare net)).1 = .ok reach) :
    onward net cs x = if reach.configs.isEmpty then .ok [] else settled net reach.configs := by
  unfold onward
  rw [h]
  rfl

/-- The configurations at the start of a mode. -/
def beginning (net : Network) (mode : Int) : Except Fault (List Config) := do
  let start ← Fault.outOfRange.unless (Indexing.arrayAt? net.modes mode)
  let reach ← ((startClosure start).outcome (bare net)).1
  settled net reach.configs

theorem beginning_none (h : Indexing.arrayAt? net.modes mode = none) : beginning net mode = .error .outOfRange := by
  unfold beginning
  rw [h]
  rfl

theorem beginning_some {state : Nat} (h : Indexing.arrayAt? net.modes mode = some state) :
    beginning net mode = ((startClosure state).outcome (bare net)).1 >>= fun reach => settled net reach.configs := by
  unfold beginning
  rw [h]
  rfl

theorem beginning_ok {state : Nat} (h : Indexing.arrayAt? net.modes mode = some state)
    (hr : ((startClosure state).outcome (bare net)).1 = .ok reach) : beginning net mode = settled net reach.configs := by
  rw [beginning_some h, hr]
  rfl

/-- Whether the automaton of a mode is one by precedence levels, which no lexer can start in. -/
def barred (net : Network) (k : Nat) : Bool := (net.state (net.decisions.getD k 0)).precedenceDecision

open Automaton

/-- The automaton has a node for a list of configurations. -/
def Has (a : Automaton (List Config)) (k : Nat) (cs : List Config) : Prop := ∃ n, a.nodes[k]? = some n ∧ n.content = cs

/-- The target of an edge stands for a list of configurations. -/
def Leads (a : Automaton (List Config)) (cs : List Config) : Target → Prop
  | .error => cs = []
  | .node k => cs ≠ [] ∧ Has a k cs

/-- A node holds what would be found again: the configurations are settled, and each edge leads to those after its
symbol. -/
structure Sound (net : Network) (a : Automaton (List Config)) (n : Automaton.Node (List Config)) : Prop where
  unplaced : ∀ c ∈ n.content, c.Unplaced
  makes : makeNode net n.content = .ok { n with edges := none }
  edges : ∀ x g, n.edge? x = some g → ∃ ds, onward net n.content x = .ok ds ∧ Leads a ds g

/-- The automaton of a mode holds nothing but what would be found again. -/
structure Copies (net : Network) (k : Nat) (a : Automaton (List Config)) : Prop where
  nodes : ∀ (i : Nat) (n : Automaton.Node (List Config)), a.nodes[i]? = some n → Sound net a n
  start : ∀ i, a.start = .node i → ∃ cs, beginning net k = .ok cs ∧ Has a i cs
  barred : a.isPrecedence = barred net k

/-- All automata of a scanner hold nothing but what would be found again. -/
structure Faithful (net : Network) (as : Array (Automaton (List Config))) : Prop where
  size : as.size = net.decisions.size
  copies : ∀ (k : Nat) (a : Automaton (List Config)), as[k]? = some a → Copies net k a

variable {a b : Automaton (List Config)} {as bs : Array (Automaton (List Config))} {k i : Nat}

theorem faithful_fresh (net : Network) : Faithful net (freshAutomata net) where
  size := by simp [freshAutomata]
  copies k a ha := by
    have hk : k < net.decisions.size := by simpa [freshAutomata] using (Array.getElem?_eq_some_iff.mp ha).1
    have hfresh : (freshAutomata net)[k]? = some ({ decision := k, start := if barred net k then .byPrecedence [] else .unset } :
        Automaton (List Config)) := by
      simp [freshAutomata, hk, barred]
    obtain rfl := Option.some.inj (hfresh.symm.trans ha)
    refine ⟨by simp, fun i hi => ?_, ?_⟩
    · dsimp only at hi
      split at hi <;> cases hi
    · cases hbarred : barred net k <;> rfl

theorem Has.grown (h : Has a i cs) (hg : Grown a b) : Has b i cs := by
  obtain ⟨n, hn, hcontent⟩ := h
  obtain ⟨edges, hb⟩ := hg.2 i n hn
  exact ⟨_, hb, hcontent⟩

theorem Leads.grown (h : Leads a cs g) (hg : Grown a b) : Leads b cs g := by
  cases g with
  | error => exact h
  | node k => exact ⟨h.1, h.2.grown hg⟩

theorem Sound.grown (h : Sound net a n) (hg : Grown a b) : Sound net b n where
  unplaced := h.unplaced
  makes := h.makes
  edges x g hx := by
    obtain ⟨ds, hds, hleads⟩ := h.edges x g hx
    exact ⟨ds, hds, hleads.grown hg⟩

theorem makeNode_edges (h : makeNode net cs = .ok n) : n.edges = none := by
  unfold makeNode at h
  split at h
  · rw [← Except.ok.inj h]
  · obtain ⟨types, type, -, -, h⟩ := Fault.bind_bind_eq_ok.1 h
    rw [← Except.ok.inj h]

theorem content_of_makeNode (h : makeNode net cs = .ok n) : n.content = cs := by
  unfold makeNode at h
  split at h
  · cases h
    rfl
  · obtain ⟨types, type, -, -, h⟩ := Fault.bind_bind_eq_ok.1 h
    cases h
    rfl

theorem Copies.of_grown (h : Copies net k a) (hg : Grown a b)
    (hnodes : ∀ (i : Nat) (n : Automaton.Node (List Config)), b.nodes[i]? = some n → Sound net b n) : Copies net k b where
  nodes := hnodes
  start i hi := by
    obtain ⟨cs, hcs, hhas⟩ := h.start i (hg.1 ▸ hi)
    exact ⟨cs, hcs, hhas.grown hg⟩
  barred := by
    rw [← h.barred, Automaton.isPrecedence, Automaton.isPrecedence, hg.1]

theorem Copies.addNode (h : Copies net k a) (hcs : ∀ c ∈ cs, c.Unplaced)
    (hn : makeNode net cs = .ok n) : Copies net k (a.addNode n).1 := by
  have hgrown := grown_addNode a n
  have hedges := makeNode_edges hn
  have hcontent := content_of_makeNode hn
  refine h.of_grown hgrown (forall_addNode (fun i m hm => (h.nodes i m hm).grown hgrown) ⟨hcontent ▸ hcs, ?_, fun x g hx => ?_⟩)
  · have hbare : { n with edges := none } = n := by rw [← hedges]
    rw [hbare, hcontent, hn]
  · rw [Node.edge?, hedges] at hx
    cases hx

theorem Copies.setEdge (h : Copies net k a) (hi : Has a i cs) (hds : onward net cs x = .ok ds)
    (hg : Leads a ds g) : Copies net k (a.setEdge i x g) := by
  have hgrown := grown_setEdge a i x g
  refine h.of_grown hgrown (forall_setEdge (fun j m hm => (h.nodes j m hm).grown hgrown) fun m hm => ?_)
  have hm' := h.nodes i m hm
  refine ⟨hm'.unplaced, hm'.makes, fun y g' hy => ?_⟩
  rw [edge?_setEdge] at hy
  split at hy
  · rename_i hyx
    obtain ⟨n, hn, rfl⟩ := hi
    obtain rfl : m = n := Option.some.inj (hm.symm.trans hn)
    rw [hyx, ← Option.some.inj hy]
    exact ⟨ds, hds, hg.grown hgrown⟩
  · exact (hm'.grown hgrown).edges y g' hy

theorem Copies.setStart (h : Copies net k a) (hbarred : a.isPrecedence = false) (hcs : beginning net k = .ok cs) (hi : Has a i cs) :
    Copies net k { a with start := .node i } where
  nodes j n hn := by
    obtain ⟨hunplaced, hmakes, hedges⟩ := h.nodes j n hn
    exact ⟨hunplaced, hmakes, hedges⟩
  start j hj := by
    obtain rfl : i = j := Start.node.inj hj
    exact ⟨cs, hcs, hi⟩
  barred := by
    rw [← h.barred, hbarred]
    rfl

/-! ## Learning -/

/-- The automaton of a mode has a node for a list of configurations. -/
def Holds (as : Array (Automaton (List Config))) (k i : Nat) (cs : List Config) : Prop := ∃ a, as[k]? = some a ∧ Has a i cs

/-- The target of an edge in the automaton of a mode stands for a list of configurations. -/
def Points (as : Array (Automaton (List Config))) (k : Nat) (cs : List Config) (g : Target) : Prop := ∃ a, as[k]? = some a ∧ Leads a cs g

/-- What there is a node for keeps it. -/
def Extends (as bs : Array (Automaton (List Config))) : Prop := ∀ k i cs, Holds as k i cs → Holds bs k i cs

theorem Extends.refl (as : Array (Automaton (List Config))) : Extends as as := fun _ _ _ h => h

theorem Extends.trans {cs : Array (Automaton (List Config))} (h : Extends as bs) (h' : Extends bs cs) : Extends as cs :=
  fun k i c hc => h' k i c (h k i c hc)

theorem Faithful.replace (h : Faithful net as) (ha : as[k]? = some a) (hb : Copies net k b) (hg : ∀ i cs, Has a i cs → Has b i cs) :
    Faithful net (as.setIfInBounds k b) ∧ Extends as (as.setIfInBounds k b) := by
  have hlt : k < as.size := (Array.getElem?_eq_some_iff.mp ha).1
  have hget : ∀ j, (as.setIfInBounds k b)[j]? = if k = j then some b else as[j]? := by
    intro j
    rw [Array.getElem?_setIfInBounds]
    by_cases hj : k = j
    · rw [if_pos hj, if_pos hj, if_pos (hj ▸ hlt)]
    · rw [if_neg hj, if_neg hj]
  refine ⟨⟨by rw [Array.size_setIfInBounds, h.size], fun j c hc => ?_⟩, fun j i cs hcs => ?_⟩
  · rw [hget] at hc
    split at hc
    · rename_i hj
      exact hj ▸ Option.some.inj hc ▸ hb
    · exact h.copies j c hc
  · obtain ⟨c, hc, hhas⟩ := hcs
    by_cases hj : k = j
    · subst hj
      obtain rfl : a = c := Option.some.inj (ha.symm.trans hc)
      exact ⟨b, by rw [hget, if_pos rfl], hg i cs hhas⟩
    · exact ⟨c, by rw [hget, if_neg hj, hc], hhas⟩

/-- Two computations fail alike, or their results are related. -/
inductive Same {α β : Type} (R : α → β → Prop) : Except Fault α → Except Fault β → Prop
  | fault (f : Fault) : Same R (.error f) (.error f)
  | result {a : α} {b : β} (h : R a b) : Same R (.ok a) (.ok b)

theorem Same.of_ok {α β : Type} {R : α → β → Prop} {a : α} {r : Except Fault β} (h : Same R (.ok a) r) : ∃ b, r = .ok b ∧ R a b := by
  cases h with
  | result h => exact ⟨_, rfl, h⟩

theorem Same.of_error {α β : Type} {R : α → β → Prop} {f : Fault} {r : Except Fault β} (h : Same R (.error f) r) : r = .error f := by
  cases h with
  | fault => rfl

/-- A run of a faithful scanner comes to what a computation comes to, and has learnt faithfully. How its result stands for
that of the computation may hang on what was learnt. -/
def Learns {α β : Type} (net : Network) (s : Scanner) (R : Array (Automaton (List Config)) → α → β → Prop) (y : Except Fault α)
    (x : Act β) : Prop :=
  ∃ r as, x.outcome s = (r, { s with automata := as }) ∧ Faithful net as ∧ Extends s.automata as ∧ Same (R as) y r

/-- A scanner over the network whose automata are faithful. -/
structure Studied (net : Network) (s : Scanner) : Prop where
  above : Over net s
  faithful : Faithful net s.automata

theorem Studied.learn (h : Studied net s) (has : Faithful net as) : Studied net { s with automata := as } :=
  ⟨⟨h.above.network, h.above.traced⟩, has⟩

theorem outcome_automaton (ha : s.automata[k]? = some a) : (automaton k).outcome s = (.ok a, s) := by
  unfold automaton
  rw [Run.outcome_get_bind, Run.outcome_pure, Array.getD_eq_getD_getElem?, ha]
  rfl

theorem outcome_node (h : Holds s.automata k i cs) : ∃ a n, s.automata[k]? = some a ∧ a.nodes[i]? = some n ∧ n.content = cs ∧
    (node k i).outcome s = (.ok n, s) := by
  obtain ⟨a, ha, n, hn, hcontent⟩ := h
  refine ⟨a, n, ha, hn, hcontent, ?_⟩
  unfold node
  rw [Run.outcome_bind_ok (outcome_automaton ha), Run.outcome_pure, Array.getD_eq_getD_getElem?, hn]
  rfl

/-- But for its edges, a node is that of its configurations. -/
theorem Faithful.outcome_node (h : Faithful net s.automata) (hi : Holds s.automata k i cs) :
    ∃ n, (node k i).outcome s = (.ok n, s) ∧ { n with edges := none } = nodeOf net cs := by
  obtain ⟨a, n, ha, hn, rfl, hnode⟩ := Scan.outcome_node hi
  refine ⟨n, hnode, ?_⟩
  unfold nodeOf
  rw [((h.copies k a ha).nodes i n hn).makes]

theorem addNode_learns (h : Studied net s) (hk : k < s.automata.size) (hcs : ∀ c ∈ cs, c.Unplaced) :
    Learns net s (fun as ds i => Holds as k i ds) (settled net cs) (addNode k cs) := by
  have ha := Array.getElem?_eq_getElem hk
  obtain ⟨⟨rfl, -⟩, hfaithful⟩ := h
  unfold Learns addNode settled
  rw [Run.outcome_get_bind]
  cases hn : makeNode s.network cs with
  | error f => exact ⟨.error f, s.automata, rfl, hfaithful, .refl _, .fault f⟩
  | ok n =>
    obtain ⟨m, hm, hsame⟩ := getElem?_addNode s.automata[k] n
    have hgrown := grown_addNode s.automata[k] n
    obtain ⟨hfaithful', hextends⟩ := hfaithful.replace ha ((hfaithful.copies k _ ha).addNode hcs hn) fun i cs hi => hi.grown hgrown
    rw [Run.outcome_bind_ok (Run.outcome_lift _ _), Run.outcome_bind_ok (outcome_automaton ha),
      Run.outcome_modify_bind]
    refine ⟨.ok _, _, rfl, hfaithful', hextends, .result ⟨_, ?_, m, hm, hsame.trans (content_of_makeNode hn)⟩⟩
    rw [Array.getElem?_setIfInBounds, if_pos rfl, if_pos hk]

theorem addEdge_learns (h : Studied net s) (hi : Holds s.automata k i cs) (hds : onward net cs x = .ok ds)
    (hg : Points s.automata k ds g) :
    ∃ as, (addEdge k i x g).outcome s = (.ok (), { s with automata := as }) ∧ Faithful net as ∧ Extends s.automata as := by
  obtain ⟨a, ha, hi⟩ := hi
  obtain ⟨a', ha', hg⟩ := hg
  obtain rfl : a = a' := Option.some.inj (ha.symm.trans ha')
  unfold addEdge
  split
  · have hgrown := grown_setEdge a i x g
    obtain ⟨hfaithful, hextends⟩ :=
      h.faithful.replace ha ((h.faithful.copies k a ha).setEdge hi hds hg) fun i cs hi => hi.grown hgrown
    rw [Run.outcome_bind_ok (outcome_automaton ha), Run.outcome_bind_ok (h.above.trace_eq _), Run.outcome_modify]
    exact ⟨_, rfl, hfaithful, hextends⟩
  · exact ⟨s.automata, rfl, h.faithful, .refl _⟩

theorem next_learns (hnet : net.Mechanical) (h : Studied net s) (hi : Holds s.automata k i cs) (x : Int) :
    Learns net s (fun as ds g => Points as k ds g) (onward net cs x) (next k i x) := by
  obtain ⟨a, n, ha, hn, rfl, hnode⟩ := outcome_node hi
  have hsound := (h.faithful.copies k a ha).nodes i n hn
  unfold Learns next
  rw [Run.outcome_bind_ok hnode]
  dsimp only
  split
  · -- a known edge leads where it would be found to lead
    rename_i g hg
    have hedge : n.edge? x = some g := by
      split at hg
      · exact hg
      · cases hg
    obtain ⟨ds, hds, hleads⟩ := hsound.edges x g hedge
    rw [Run.outcome_bind_ok (h.above.trace_eq _), hds]
    exact ⟨.ok g, s.automata, rfl, h.faithful, .refl _, .result ⟨a, ha, hleads⟩⟩
  · obtain ⟨hstep, hreach⟩ := (step_fixed hnet h.above over_bare hsound.unplaced x).outcome_eq
    cases hr : ((step n.content x).outcome (bare net)).1 with
    | error f =>
      rw [hr] at hstep
      rw [Run.outcome_bind_error hstep, onward_error hr]
      exact ⟨.error f, s.automata, rfl, h.faithful, .refl _, .fault f⟩
    | ok reach =>
      rw [hr] at hstep
      have hunplaced := hreach reach hr
      have honward := onward_ok hr
      rw [Run.outcome_bind_ok hstep]
      simp only [hunplaced.asked, Bool.not_false, if_true]
      by_cases hempty : reach.configs.isEmpty = true
      · rw [if_pos hempty] at honward ⊢
        obtain ⟨as, hedge, hfaithful, hextends⟩ := addEdge_learns h hi (g := .error) honward ⟨a, ha, rfl⟩
        obtain ⟨a', ha', -⟩ := hextends k i _ hi
        rw [Run.outcome_bind_ok hedge, honward]
        exact ⟨.ok .error, as, rfl, hfaithful, hextends, .result ⟨a', ha', rfl⟩⟩
      · rw [if_neg hempty] at honward ⊢
        have hk : k < s.automata.size := (Array.getElem?_eq_some_iff.mp ha).1
        obtain ⟨r, as, hadd, hfaithful, hextends, hsame⟩ := addNode_learns h hk hunplaced.configs
        rw [honward]
        cases hsettled : settled net reach.configs with
        | error f =>
          rw [hsettled] at hsame
          obtain rfl := hsame.of_error
          exact ⟨.error f, as, Run.outcome_bind_error hadd _, hfaithful, hextends, .fault f⟩
        | ok ds =>
          rw [hsettled] at hsame
          obtain ⟨j, rfl, a', ha', hhas⟩ := hsame.of_ok
          have hne : ds ≠ [] := by
            rintro rfl
            rw [settled_eq hsettled] at hempty
            exact hempty rfl
          obtain ⟨bs, hedge, hfaithful', hextends'⟩ := addEdge_learns (h.learn hfaithful) (hextends k i _ hi) (g := .node j)
            (honward.trans hsettled) ⟨a', ha', hne, hhas⟩
          obtain ⟨b, hb, hhas'⟩ := hextends' k j ds ⟨a', ha', hhas⟩
          rw [Run.outcome_bind_ok hadd, Run.outcome_bind_ok hedge]
          exact ⟨.ok (.node j), bs, rfl, hfaithful', hextends.trans hextends', .result ⟨b, hb, hne, hhas'⟩⟩

theorem Points.eq_error (h : Points as k [] g) : g = .error := by
  obtain ⟨a, -, h⟩ := h
  cases g with
  | error => rfl
  | node j => exact absurd rfl h.1

theorem Points.eq_node (h : Points as k ds g) (hne : ds ≠ []) : ∃ j, g = .node j ∧ Holds as k j ds := by
  obtain ⟨a, ha, h⟩ := h
  cases g with
  | error => exact absurd h hne
  | node j => exact ⟨j, rfl, a, ha, h.2⟩

end Scan

end NimbleLang
