import NimbleLang.Proofs.Predictions

/-!
What a decision takes into account before it knows of a conflict. Its sets of configurations are computed from the
network, the precedence level in force and the merges that are remembered; the stream, the callers and all else a
recogniser has do not matter, and only the merger changes (`Recogniser.Confined`). So they can be computed once, in any
recogniser over the same network, and hold in all of them: `startSet_confined`, `precedenceFilter_confined` and
`targetNode_confined`.

The marks that a merger gives to new contexts are no marks here; what it remembers is all that tells two mergers apart.
-/

namespace NimbleLang

/-! ## Merging -/

namespace Context

/-- A run of a merger that depends on nothing but what is remembered. -/
abbrev Steady {α : Type} (act : Merging Unit α) : Prop := Run.Parallel (fun m m' => m.memory = m'.memory) act act

theorem freshMark_steady : Steady freshMark := .get fun _ _ h => .bind (.set h) fun _ => .pure ()

theorem recollect_steady (a b : Context Unit) : Steady (recollect a b) := by
  refine .get fun m m' h => ?_
  dsimp only
  rw [h]
  exact .pure _

theorem remember_steady (a b c : Context Unit) : Steady (remember a b c) := by
  refine .bind (.modify fun m m' h => ?_) fun _ => .pure c
  dsimp only
  rw [h]

theorem mergeRoot_steady (wildcard : Bool) (a b : Context Unit) : Steady (mergeRoot wildcard a b) := by
  unfold mergeRoot
  split
  · exact .pure _
  · exact .ite (.pure _) (.bind freshMark_steady fun _ => .pure _)
  · exact .ite (.pure _) (.bind freshMark_steady fun _ => .pure _)
  · exact .pure _

theorem asFork_steady (c : Context Unit) : Steady (asFork c) := by
  unfold asFork
  split
  · exact .bind freshMark_steady fun _ => .pure _
  · exact .bind freshMark_steady fun _ => .pure _
  · exact .pure _

theorem joinForks_steady (a b : Context Unit) (merged : List (Context Unit × Int)) : Steady (joinForks a b merged) := by
  unfold joinForks
  split
  · exact .bind freshMark_steady fun _ => remember_steady _ _ _
  · exact .bind freshMark_steady fun _ => .ite (remember_steady _ _ _) (.ite (remember_steady _ _ _)
      (.bind freshMark_steady fun _ => remember_steady _ _ _))

theorem mergeForks_steady (a b : Context Unit) {ways : Merging Unit (List (Context Unit × Int))} (h : Steady ways) :
    Steady (mergeForks a b ways) := by
  refine .bind (recollect_steady a b) fun known => ?_
  split
  · exact .pure _
  · exact .bind h fun _ => joinForks_steady _ _ _

mutual
theorem merge_steady (wildcard : Bool) : (a b : Context Unit) → Steady (merge wildcard a b)
  | .unknown, b => by
    unfold merge
    refine .ite (.pure _) ?_
    cases b with
    | root => exact .ite (.pure _) (.throw _)
    | unknown | call | fork => exact .throw _
  | .root, b => by
    unfold merge
    refine .ite (.pure _) ?_
    cases b with
    | unknown => exact .ite (.pure _) (.throw _)
    | root => exact .pure _
    | call m below ret =>
      refine .bind (recollect_steady _ _) fun known => ?_
      split
      · exact .pure _
      · refine .bind (mergeRoot_steady _ _ _) fun merged => ?_
        split
        · exact remember_steady _ _ _
        · exact .pure _
    | fork m branches =>
      refine .ite (.pure _) (.bind (asFork_steady _) fun _ => mergeForks_steady _ _ ?_)
      split
      · exact .pure _
      · exact .ite (.pure _) (.throw _)
  | .call m below ret, b => by
    unfold merge
    refine .ite (.pure _) ?_
    cases b with
    | unknown => exact .throw _
    | root =>
      refine .bind (recollect_steady _ _) fun known => ?_
      split
      · exact .pure _
      · refine .bind (mergeRoot_steady _ _ _) fun merged => ?_
        split
        · exact remember_steady _ _ _
        · exact .pure _
    | call m' below' ret' =>
      refine .bind (recollect_steady _ _) fun known => ?_
      split
      · exact .pure _
      · refine .ite (.bind (merge_steady wildcard below below') fun p => .ite (.pure _) (.ite (.pure _) ?_)) ?_
        · exact .bind freshMark_steady fun _ => remember_steady _ _ _
        · exact .bind freshMark_steady fun _ => remember_steady _ _ _
    | fork m' branches =>
      refine .bind (asFork_steady _) fun _ => mergeForks_steady _ _ ?_
      split
      · exact .pure _
      · exact .bind (.ite (.pure _) (merge_steady wildcard below _)) fun _ => .pure _
  | .fork m branches, b => by
    unfold merge
    refine .ite (.pure _) ?_
    cases b with
    | unknown => exact .throw _
    | root | call | fork =>
      exact .ite (.pure _) (.bind (asFork_steady _) fun _ => mergeForks_steady _ _ (mergeBranches_steady wildcard branches _))

theorem mergeBranches_steady (wildcard : Bool) :
    (bs : Branches Unit) → (ways : List (Context Unit × Int)) → Steady (mergeBranches wildcard bs ways)
  | .nil, ways => by
    unfold mergeBranches
    exact .pure _
  | .cons below ret rest, ways => by
    unfold mergeBranches
    split
    · exact .bind (mergeBranches_steady wildcard rest _) fun _ => .pure _
    · exact .bind (.ite (.pure _) (merge_steady wildcard below _)) fun _ =>
        .bind (mergeBranches_steady wildcard rest _) fun _ => .pure _
end

end Context

namespace Predict.ConfigSet

open Context

theorem insert_steady (s : ConfigSet) (c : Config) : Steady (s.insert c) := by
  unfold insert
  dsimp only
  split
  · exact .pure _
  · exact .bind (.bind (merge_steady _ _ _) fun _ => .pure _) fun _ => .pure _

theorem add_steady (s : ConfigSet) (c : Config) : Steady (s.add c) := .bind (insert_steady s c) fun _ => .pure _

end Predict.ConfigSet

/-! ## Confined runs -/

namespace Recogniser

/-- Two recognisers whose decisions take the same into account, as long as they leave the calling context aside. -/
structure Kin (o o' : Recogniser) : Prop where
  net : o.net = o'.net
  quiet : o.traces = {}
  quiet' : o'.traces = {}

/-- What two recognisers have become that have merged alike, and done nothing else. -/
def Alike (o o' r r' : Recogniser) : Prop :=
  ∃ m m', r = { o with merger := m } ∧ r' = { o' with merger := m' } ∧ m.memory = m'.memory

/-- Two runs that merge alike, do nothing else, and end alike. -/
abbrev Confined {α : Type} (o o' : Recogniser) (x y : Act α) : Prop := Run.Parallel (Alike o o') x y

variable {o o' : Recogniser} {α β : Type}

/-- All that a confined run sees of the state is what stays as it is. -/
theorem get_confined {f g : Recogniser → Act β} (h : ∀ m m', Confined o o' (f { o with merger := m }) (g { o' with merger := m' })) :
    Confined o o' (get >>= f) (get >>= g) := by
  refine .get ?_
  rintro _ _ ⟨m, m', rfl, rfl, -⟩
  exact h m m'

theorem merging_confined {act : Context.Merging Unit α} (h : Context.Steady act) : Confined o o' (merging act) (merging act) := by
  rintro _ _ ⟨m, m', rfl, rfl, hm⟩
  obtain ⟨x, n, n', hx, hx', hn, hv⟩ := h m m' hm
  refine ⟨x, { o with merger := n }, { o' with merger := n' }, ?_, ?_, ⟨n, n', rfl, rfl, hn⟩, hv⟩
  · rw [merging, Run.outcome_onPart, hx]
  · rw [merging, Run.outcome_onPart, hx']

theorem printIf_confined (hk : Kin o o') {wanted : Traces → Bool} (h : wanted {} = false) (line line' : Act String) :
    Confined o o' (printIf wanted line) (printIf wanted line') := by
  rintro _ _ ⟨m, m', rfl, rfl, hm⟩
  have hline := Predict.printIf_quiet (r := { o with merger := m }) hk.quiet h line
  have hline' := Predict.printIf_quiet (r := { o' with merger := m' }) hk.quiet' h line'
  exact ⟨.ok (), _, _, hline, hline', ⟨m, m', rfl, rfl, hm⟩, trivial⟩

end Recogniser

namespace Predict

open Recogniser Context

variable {o o' : Recogniser} {m m' : Manner}

/-- Two ways to take a closure without the calling context, in the same decision. -/
structure Manner.Kin (m m' : Manner) : Prop where
  state : m.decision.state = m'.decision.state
  byPrecedence : m.decision.byPrecedence = m'.decision.byPrecedence
  full : m.full = false
  full' : m'.full = false
  endIsFree : m.endIsFree = m'.endIsFree

theorem closingAdd_confined (cl : Closing) (c : Config) (place : Option Nat) : Confined o o' (cl.add c place) (cl.add c place) := by
  refine .bind (merging_confined (ConfigSet.insert_steady _ _)) fun q => ?_
  dsimp only
  split <;> exact .pure _

section

variable (hk : Kin o o') (hm : m.Kin m')
include hk hm

theorem throughGuard_confined (c : Config) (target : Nat) (g : Guard) (label : String) (collect applies : Bool) :
    Confined o o' (throughGuard m c target g label collect applies) (throughGuard m' c target g label collect applies) := by
  refine .bind (printIf_confined hk rfl _ _) fun _ => .bind (printIf_confined hk rfl _ _) fun _ => .bind ?_ fun _ =>
    .bind (printIf_confined hk rfl _ _) fun _ => .pure _
  rw [hm.full, hm.full']
  exact .ite (.pure _) (.pure _)

theorem throughEdge_confined (c : Config) (e : Edge) (collect inContext : Bool) :
    Confined o o' (throughEdge m c e collect inContext) (throughEdge m' c e collect inContext) := by
  cases e with
  | call target rule level follow => exact get_confined fun _ _ => .bind (printIf_confined hk rfl _ _) fun _ => .pure _
  | precedence target level | predicate target rule index contextual => exact throughGuard_confined hk hm _ _ _ _ _ _
  | action target rule index contextual => exact .bind (printIf_confined hk rfl _ _) fun _ => .pure _
  | atom | range | set =>
    unfold throughEdge
    rw [hm.endIsFree]
    exact .pure _
  | epsilon | notSet | wildcard => exact .pure _

theorem stepOut_confined (e : Edge) (cl : Closing) (c : Config) (depth : Int) :
    Confined o o' (stepOut m e cl c depth) (stepOut m' e cl c depth) := by
  refine .bind ?_ fun c => .ite (.pure _) (.bind (printIf_confined hk rfl _ _) fun _ => .pure _)
  rw [hm.byPrecedence]
  refine .ite (.pure _) ?_
  cases e with
  | epsilon target outermost =>
    refine get_confined fun _ _ => ?_
    dsimp only
    rw [hk.net, hm.state]
    exact .pure _
  | _ => exact .throw _

theorem followEdges_confined {visit visit' : Closing → Visit → Act Closing}
    (hvisit : ∀ cl v, Confined o o' (visit cl v) (visit' cl v)) (cl : Closing) (v : Visit) :
    Confined o o' (followEdges m visit cl v) (followEdges m' visit' cl v) := by
  refine get_confined fun _ _ => ?_
  dsimp only
  rw [hk.net]
  refine .ite (.bind (.pure _) ?rest) (.bind (closingAdd_confined _ _ _) ?rest)
  refine fun cl => .bind ?_ fun edges => .foldlM (fun cl e => ?_) _ _
  · split
    · exact .pure _
    · exact .bind (.lift _) fun _ => .pure _
  · refine .bind (throughEdge_confined hk hm _ _ _ _) fun next => ?_
    split
    · exact .pure _
    · refine .ite (.bind (stepOut_confined hk hm _ _ _ _) fun out => ?_) (.ite (.ite (.pure _) (hvisit _ _)) (hvisit _ _))
      split
      · exact .pure _
      · exact hvisit _ _

theorem visitConfig_confined (fuel : Nat) (cl : Closing) (v : Visit) :
    Confined o o' (visitConfig m fuel cl v) (visitConfig m' fuel cl v) := by
  induction fuel generalizing cl v with
  | zero => exact .throw _
  | succ fuel ih =>
    have hfollow (cl : Closing) := followEdges_confined hk hm ih cl v
    refine .bind (printIf_confined hk rfl _ _) fun _ => get_confined fun _ _ => ?_
    dsimp only
    rw [hk.net, hm.full, hm.full']
    refine .ite (hfollow cl) (.ite (.throw _) (.ite (.bind (printIf_confined hk rfl _ _) fun _ => hfollow _)
      (.foldlM (fun cl way => ?_) _ _)))
    exact .ite (.bind (printIf_confined hk rfl _ _) fun _ => hfollow _) (.bind (.lift _) fun _ => ih _ _)

theorem closeOver_confined (collect : Bool) (cl : Closing) (c : Config) :
    Confined o o' (closeOver m collect cl c) (closeOver m' collect cl c) := by
  refine get_confined fun _ _ => ?_
  dsimp only
  rw [hk.net]
  exact visitConfig_confined hk hm _ cl _

end

/-! ## Sets -/

/-- Two decisions in the same state. -/
structure Decision.Kin (d d' : Decision) : Prop where
  state : d.state = d'.state
  byPrecedence : d.byPrecedence = d'.byPrecedence

variable {d d' : Decision}

theorem Decision.Kin.manner (hd : d.Kin d') (endIsFree : Bool) : Manner.Kin ⟨d, false, endIsFree⟩ ⟨d', false, endIsFree⟩ :=
  ⟨hd.state, hd.byPrecedence, rfl, rfl, rfl⟩

theorem startSet_confined (hk : Kin o o') (hd : d.Kin d') (callers : Option Callers) :
    Confined o o' (startSet d callers false) (startSet d' callers false) := by
  refine get_confined fun _ _ => ?_
  dsimp only
  rw [hk.net, hd.state]
  exact .bind (.lift _) fun _ => .foldlM (fun _ _ => .bind (closeOver_confined hk (hd.manner _) _ _ _) fun _ => .pure _) _ _

theorem precedenceFilter_confined (hlevel : o.precedences.head? = o'.precedences.head?) (s : ConfigSet) :
    Confined o o' (precedenceFilter s) (precedenceFilter s) := by
  refine get_confined fun _ _ => ?_
  dsimp only
  rw [hlevel]
  refine .bind (merging_confined (.foldlM (fun _ _ => ConfigSet.add_steady _ _) _ _)) fun _ => ?_
  exact merging_confined (.foldlM (fun _ _ => ConfigSet.add_steady _ _) _ _)

/-- Two tokens that every edge of a network reads alike. -/
structure ReadAlike (net : Network) (t t' : Int) : Prop where
  admits : ∀ n, ∀ e ∈ net.edgesOf n, e.admits t 0 net.maxTokenType = e.admits t' 0 net.maxTokenType
  eof : t = Token.eof ↔ t' = Token.eof

variable {t t' : Int}

theorem moveOver_confined (hk : Kin o o') (ht : ReadAlike o.net t t') (s : ConfigSet) :
    Confined o o' (moveOver false t s) (moveOver false t' s) := by
  refine get_confined fun _ _ => .foldlM (fun out c => ?_) _ _
  refine .bind (printIf_confined hk rfl _ _) fun _ => ?_
  have hfilter : (o.net.edgesOf c.state).filter (fun e => e.admits t 0 o.net.maxTokenType) =
      (o'.net.edgesOf c.state).filter fun e => e.admits t' 0 o'.net.maxTokenType := by
    rw [← hk.net]
    exact List.filter_congr fun e he => ht.admits c.state e he
  dsimp only
  rw [hfilter, hk.net]
  simp only [Bool.false_or, ht.eof]
  exact .ite (.pure _) (.bind (merging_confined (.foldlM (fun _ _ => ConfigSet.add_steady _ _) _ _)) fun _ => .pure _)

theorem reachSet_confined (hk : Kin o o') (hd : d.Kin d') (ht : ReadAlike o.net t t') (s : ConfigSet) :
    Confined o o' (reachSet d s t false) (reachSet d' s t' false) := by
  refine .bind (printIf_confined hk rfl _ _) fun _ => .bind (.modify ?_) fun _ => get_confined fun _ _ => ?_
  · rintro _ _ ⟨m, m', rfl, rfl, hm⟩
    exact ⟨_, _, rfl, rfl, congrArg (fun memory => some (memory.getD [])) hm⟩
  refine .bind (moveOver_confined hk ht s) fun out => ?_
  dsimp only
  simp only [hk.net, ht.eof, ne_eq]
  refine .bind (.ite (.pure _) (.bind (.foldlM (closeOver_confined hk (hd.manner _) _) _ _) fun _ => .pure _)) fun _ =>
    .bind ?_ fun _ => .bind ?_ fun _ => .pure _
  · exact .ite (.pure _) (merging_confined (.foldlM (fun _ _ => ConfigSet.add_steady _ _) _ _))
  · exact .ite (.pure _) (merging_confined (.foldlM (fun _ _ => ConfigSet.add_steady _ _) _ _))

theorem guardNode_confined (hk : Kin o o') (hd : d.Kin d') (node : Node) : Confined o o' (guardNode d node) (guardNode d' node) := by
  refine get_confined fun _ _ => ?_
  dsimp only
  rw [hk.net, hd.state]
  refine .bind (.bind (printIf_confined hk rfl _ _) fun _ => .pure _) fun guards => ?_
  split
  · exact .bind (.lift _) fun _ => .pure _
  · exact .pure _

/-- The node that a set leads to is the same in every recogniser over the network. -/
theorem targetNode_confined (hk : Kin o o') (hmode : o.mode = o'.mode) (hd : d.Kin d') (ht : ReadAlike o.net t t') (s : ConfigSet) :
    Confined o o' (targetNode d s t) (targetNode d' s t') := by
  refine .bind (reachSet_confined hk hd ht s) fun reach => ?_
  split
  · exact .pure _
  · refine .bind (printIf_confined hk rfl _ _) fun _ => .bind ?_ fun node => ?_
    · refine .ite (.pure _) (get_confined fun _ _ => get_confined fun _ _ => ?_)
      dsimp only
      rw [hk.net, hmode]
      exact .bind (.lift _) fun _ => .ite (.bind (.lift _) fun _ => .pure _) (.pure _)
    · exact .ite (.bind (guardNode_confined hk hd _) fun _ => .pure _) (.pure _)

end Predict

end NimbleLang
