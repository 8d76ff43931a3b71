import NimbleLang.Proofs.Streams
import NimbleLang.Predict.Decide

/-!
The functions of prediction, from the inside out. What is to be shown of all of them goes through the same steps: it holds of
the simple acts, and of acts that are put together from such. `Conduct` says once what has to be shown of the simple acts, and
`Conduct.runDecision` is what follows for a decision. It speaks of two acts side by side, which may begin with different memories
of lookahead; for a single act, the two are the same.
-/

namespace NimbleLang

namespace Predict

open Recogniser

variable {d : Decision} {P : (α : Type) → Act α → Act α → Prop}

/-- The relation holds between an act and itself. -/
abbrev Self (P : (α : Type) → Act α → Act α → Prop) {α : Type} (act : Act α) : Prop := P α act act

/-- A relation between acts of decision `d` that the simple acts are in, and acts put together from related ones. -/
structure Conduct (d : Decision) (P : (α : Type) → Act α → Act α → Prop) : Prop where
  pure {α : Type} (a : α) : Self P (pure a)
  throw {α : Type} (f : Fault) : Self P (throw f : Act α)
  lift {α : Type} (x : Except Fault α) : Self P (liftM x : Act α)
  bind {α β : Type} {x y : Act α} {f g : α → Act β} : P α x y → (∀ a, P β (f a) (g a)) → P β (x >>= f) (y >>= g)
  get {β : Type} {f g : Recogniser → Act β} : (∀ r memory, P β (f r) (g { r with lookahead := memory })) → P β (get >>= f) (get >>= g)
  onStream {α : Type} {act : TokenStream.Act Supply α} : (∀ {I}, TokenStream.Stable I → TokenStream.Careful I act) →
    Self P (onStream act)
  merging {α : Type} (act : Context.Merging Unit α) : Self P (merging act)
  remember (f : Merger Unit → Merger Unit) : Self P (modify fun r => { r with merger := f r.merger })
  print (line : String) : Self P (print line)
  ask (callers : Option Callers) (rule index : Int) (contextual : Bool) : Self P (do
    let r ← MonadState.get
    let asked : Question := { rule, index, place := r.stream.index, blind := !contextual || callers.isNone }
    set { r with questions := r.questions.push asked }
    return (r.predicates.lookup (rule, index)).getD true)
  precedenceHolds (level : Int) : Self P (precedenceHolds level)
  setAutomaton (b : Automaton ConfigSet) : Self P (setAutomaton d b)
  announce (what which detail : String) (wanted : Bool → Bool) (configs : ConfigSet) (start stop : Int) {entry : Report}
    (h : entry.blamesToken = false) : Self P (announce what which detail wanted d.name configs start stop entry)

theorem Conduct.ite (_ : Conduct d P) {α : Type} {c : Prop} [Decidable c] {x y x' y' : Act α} (hx : P α x x') (hy : P α y y') :
    P α (if c then x else y) (if c then x' else y') := by
  split
  · exact hx
  · exact hy

mutual
theorem Conduct.eval (hP : Conduct d P) {predicate : Int → Int → Bool → Act Bool} {precedence : Int → Act Bool}
    (hpredicate : ∀ r i c, Self P (predicate r i c)) (hprecedence : ∀ p, Self P (precedence p)) :
    (g : Guard) → Self P (g.eval predicate precedence)
  | .always => hP.pure _
  | .predicate r i c => hP.bind (hpredicate r i c) fun _ => hP.pure _
  | .precedence p => hP.bind (hprecedence p) fun _ => hP.pure _
  | .all gs => hP.bind (hP.evalUntil hpredicate hprecedence false gs) fun _ => hP.pure _
  | .any gs => hP.bind (hP.evalUntil hpredicate hprecedence true gs) fun _ => hP.pure _

theorem Conduct.evalUntil (hP : Conduct d P) {predicate : Int → Int → Bool → Act Bool} {precedence : Int → Act Bool}
    (hpredicate : ∀ r i c, Self P (predicate r i c)) (hprecedence : ∀ p, Self P (precedence p)) (stop : Bool) :
    (gs : List Guard) → Self P (Guard.evalUntil predicate precedence stop gs)
  | [] => hP.pure _
  | g :: gs => hP.bind (hP.eval hpredicate hprecedence g) fun _ =>
    hP.ite (hP.pure _) (hP.evalUntil hpredicate hprecedence stop gs)
end

variable (hP : Conduct d P)
include hP

namespace Conduct

theorem foldlM {α β : Type} {f g : β → α → Act β} (h : ∀ b a, P β (f b a) (g b a)) (l : List α) (b : β) :
    P β (l.foldlM f b) (l.foldlM g b) := by
  induction l generalizing b with
  | nil => exact hP.pure b
  | cons a l ih =>
    rw [List.foldlM_cons, List.foldlM_cons]
    exact hP.bind (h b a) ih

theorem mapM {α β : Type} {f g : α → Act β} (h : ∀ a, P β (f a) (g a)) (l : List α) :
    P (List β) (l.mapM f) (l.mapM g) := by
  induction l with
  | nil =>
    rw [List.mapM_nil, List.mapM_nil]
    exact hP.pure []
  | cons a l ih =>
    rw [List.mapM_cons, List.mapM_cons]
    exact hP.bind (h a) fun _ => hP.bind ih fun _ => hP.pure _

theorem printIf (wanted : Traces → Bool) {line : Act String} (h : Self P line) : Self P (printIf wanted line) :=
  hP.get fun _ _ => hP.ite (hP.bind h hP.print) (hP.pure ())

theorem currentToken : Self P currentToken :=
  hP.bind (hP.onStream fun h => TokenStream.look_careful h 1) fun _ => hP.lift _

end Conduct

theorem Conduct.tokenName (t : Int) : Self P (tokenName t) :=
  hP.ite (hP.pure _) (hP.get fun _ _ => hP.ite (hP.bind (hP.lift _) fun _ => hP.pure _) (hP.pure _))

theorem Conduct.ruleName (rule : Int) : Self P (ruleName rule) :=
  hP.ite (hP.get fun _ _ => hP.lift _) (hP.pure _)

theorem Conduct.invocation : Self P invocation :=
  hP.get fun _ _ => hP.mapM (fun _ => hP.ite (hP.pure _) (hP.lift _)) _

theorem Conduct.holds (callers : Option Callers) (g : Guard) : Self P (holds callers g) := by
  exact hP.bind (hP.eval (fun rule index contextual => hP.ask callers rule index contextual) hP.precedenceHolds g) fun _ => hP.pure _

/-! ## Closures -/

theorem Conduct.add (cl : Closing) (c : Config) (place : Option Nat) : Self P (cl.add c place) := by
  refine hP.bind (hP.merging _) fun q => ?_
  dsimp only
  split <;> exact hP.pure _

theorem Conduct.throughGuard (m : Manner) (c : Config) (target : Nat) (g : Guard) (label : String) (collect applies : Bool) :
    Self P (throughGuard m c target g label collect applies) := by
  refine hP.bind (hP.printIf _ (hP.pure _)) fun _ => hP.bind (hP.printIf _ (hP.bind hP.invocation fun _ => hP.pure _)) fun _ =>
    hP.bind (hP.ite (hP.pure _) (hP.ite ?_ (hP.pure _))) fun _ => hP.bind (hP.printIf _ (hP.pure _)) fun _ => hP.pure _
  exact hP.get fun _ _ => hP.bind (hP.onStream fun h => TokenStream.seek_careful h _) fun _ =>
    hP.bind (hP.holds _ g) fun _ => hP.bind (hP.onStream fun h => TokenStream.seek_careful h _) fun _ => hP.pure _

theorem Conduct.throughEdge (m : Manner) (c : Config) (e : Edge) (collect inContext : Bool) :
    Self P (throughEdge m c e collect inContext) := by
  cases e with
  | call target rule level follow =>
    exact hP.get fun _ _ => hP.bind (hP.printIf _ (hP.bind (hP.ruleName _) fun _ => hP.pure _)) fun _ => hP.pure _
  | precedence target level | predicate target rule index contextual => exact hP.throughGuard m c target _ _ collect _
  | action target rule index contextual => exact hP.bind (hP.printIf _ (hP.pure _)) fun _ => hP.pure _
  | epsilon | atom | range | set | notSet | wildcard => exact hP.pure _

theorem Conduct.stepOut (m : Manner) (e : Edge) (cl : Closing) (c : Config) (depth : Int) :
    Self P (stepOut m e cl c depth) := by
  refine hP.bind (hP.ite (hP.pure _) ?_) fun c => hP.ite (hP.pure _) (hP.bind (hP.printIf _ (hP.pure _)) fun _ => hP.pure _)
  cases e with
  | epsilon target outermost => exact hP.get fun _ _ => hP.pure _
  | _ => exact hP.throw _

theorem Conduct.followEdges (m : Manner) {visit : Closing → Visit → Act Closing}
    (hvisit : ∀ cl v, Self P (visit cl v)) (cl : Closing) (v : Visit) : Self P (followEdges m visit cl v) := by
  refine hP.get fun r _ => ?_
  refine hP.ite (hP.bind (hP.pure _) ?rest) (hP.bind (hP.add _ _ _) ?rest)
  refine fun cl => hP.bind ?_ fun edges => hP.foldlM (fun cl e => ?_) _ _
  · dsimp only
    split
    · exact hP.pure _
    · exact hP.bind (hP.lift _) fun _ => hP.pure _
  · refine hP.bind (hP.throughEdge _ _ _ _ _) fun next => ?_
    split
    · exact hP.pure _
    · refine hP.ite (hP.bind (hP.stepOut _ _ _ _ _) fun out => ?_) (hP.ite (hP.ite (hP.pure _) (hvisit _ _)) (hvisit _ _))
      split
      · exact hP.pure _
      · exact hvisit _ _

theorem Conduct.visitConfig (m : Manner) (fuel : Nat) (cl : Closing) (v : Visit) : Self P (visitConfig m fuel cl v) := by
  induction fuel generalizing cl v with
  | zero => exact hP.throw _
  | succ fuel ih =>
    have hfollow : ∀ cl, Self P (Predict.followEdges m (Predict.visitConfig m fuel) cl v) := fun cl => hP.followEdges m ih cl v
    have hfall : ∀ cl (r : Recogniser), Self P (do
        Recogniser.printIf (·.steps) do return "FALLING off rule " ++ (← Recogniser.ruleName (r.net.state v.config.state).rule)
        Predict.followEdges m (Predict.visitConfig m fuel) cl v) := fun cl r =>
      hP.bind (hP.printIf _ (hP.bind (hP.ruleName _) fun _ => hP.pure _)) fun _ => hfollow cl
    refine hP.bind (hP.printIf _ (hP.pure _)) fun _ => hP.get fun r _ => hP.ite (hfollow cl) (hP.ite (hP.throw _)
      (hP.ite (hP.ite (hP.add _ _ _) (hfall _ r)) (hP.foldlM (fun cl way => ?_) _ _)))
    exact hP.ite (hP.ite (hP.add _ _ _) (hfall _ r)) (hP.bind (hP.lift _) fun _ => ih _ _)

theorem Conduct.closeOver (m : Manner) (collect : Bool) (cl : Closing) (c : Config) : Self P (closeOver m collect cl c) :=
  hP.get fun _ _ => hP.visitConfig m _ cl _

/-! ## Sets of configurations -/

theorem Conduct.startSet (callers : Option Callers) (full : Bool) : Self P (startSet d callers full) :=
  hP.get fun _ _ => hP.bind (hP.lift _) fun _ => hP.foldlM (fun _ _ => hP.bind (hP.closeOver _ _ _ _) fun _ => hP.pure _) _ _

theorem Conduct.precedenceFilter (s : ConfigSet) : Self P (precedenceFilter s) :=
  hP.get fun _ _ => hP.bind (hP.merging _) fun _ => hP.merging _

theorem Conduct.moveOver (full : Bool) (t : Int) (s : ConfigSet) : Self P (moveOver full t s) := by
  refine hP.get fun r _ => hP.foldlM (fun out c => ?_) _ _
  exact hP.bind (hP.printIf _ (hP.bind (hP.tokenName _) fun _ => hP.pure _)) fun _ =>
    hP.ite (hP.pure _) (hP.bind (hP.merging _) fun _ => hP.pure _)

theorem Conduct.reachSet (s : ConfigSet) (t : Int) (full : Bool) : Self P (reachSet d s t full) := by
  refine hP.bind (hP.printIf _ (hP.pure _)) fun _ =>
    hP.bind (hP.remember fun m => { m with memory := some (m.memory.getD []) }) fun _ => hP.get fun r _ =>
    hP.bind (hP.moveOver _ _ _) fun out => hP.bind ?_ fun reach => hP.bind ?_ fun reach => hP.bind ?_ fun reach => hP.pure _
  · exact hP.ite (hP.pure _) (hP.bind (hP.foldlM (hP.closeOver _ _) _ _) fun _ => hP.pure _)
  · exact hP.ite (hP.pure _) (hP.merging _)
  · exact hP.ite (hP.pure _) (hP.merging _)

/-! ## The automaton -/

theorem Conduct.automaton : Self P (automaton d) := hP.get fun _ _ => hP.lift _

theorem Conduct.nodeAt (k : Nat) : Self P (nodeAt d k) := hP.bind hP.automaton fun _ => hP.lift _

theorem Conduct.spellAutomaton : Self P (spellAutomaton d) :=
  hP.bind hP.automaton fun _ => hP.get fun _ _ => hP.lift _

theorem Conduct.addNode (node : Node) : Self P (addNode d node) :=
  hP.bind hP.automaton fun _ => hP.bind (hP.setAutomaton _) fun _ =>
    hP.ite (hP.bind (hP.printIf _ (hP.pure _)) fun _ => hP.pure _) (hP.pure _)

theorem Conduct.connect (source : Nat) (t : Int) (target : Option Node) : Self P (connect d source t target) := by
  refine hP.bind (hP.printIf _ (hP.bind (hP.nodeAt _) fun _ => hP.bind (hP.tokenName _) fun _ => hP.pure _)) fun _ =>
    hP.bind ?_ fun goal => hP.get fun _ _ => hP.ite (hP.pure _) (hP.bind hP.automaton fun _ =>
      hP.bind (hP.setAutomaton _) fun _ => hP.bind (hP.printIf _ (hP.bind hP.spellAutomaton fun _ => hP.pure _)) fun _ =>
        hP.pure _)
  cases target with
  | none => exact hP.pure _
  | some node => exact hP.bind (hP.addNode node) fun _ => hP.pure _

theorem Conduct.altGuards (count : Nat) (alts : List Int) (s : ConfigSet) : Self P (altGuards count alts s) :=
  hP.bind (hP.printIf _ (hP.ite (hP.bind (hP.throw _) fun _ => hP.pure _) (hP.pure _))) fun _ => hP.pure _

theorem Conduct.guardNode (node : Node) : Self P (guardNode d node) := by
  refine hP.get fun r _ => hP.bind (hP.altGuards _ _ _) fun guards => ?_
  split
  · exact hP.bind (hP.lift _) fun _ => hP.pure _
  · exact hP.pure _

theorem Conduct.filterM {α : Type} {f : α → Act Bool} (h : ∀ x, Self P (f x)) (l : List α) : Self P (l.filterM f) := by
  have haux : ∀ (l acc : List α), Self P (List.filterAuxM f l acc) := by
    intro l
    induction l with
    | nil => exact fun _ => hP.pure _
    | cons x l ih => exact fun _ => hP.bind (h x) fun _ => ih _
  exact hP.bind (haux l []) fun _ => hP.pure _

theorem Conduct.heldAlts (callers : Option Callers) (pairs : List (Guard × Int)) : Self P (heldAlts callers pairs) := by
  refine hP.bind (hP.filterM (fun pair => ?_) _) fun _ => hP.pure _
  exact hP.ite (hP.pure _) (hP.bind (hP.holds _ _) fun _ => hP.bind (hP.printIf _ (hP.pure _)) fun _ =>
    hP.ite (hP.bind (hP.printIf _ (hP.pure _)) fun _ => hP.pure _) (hP.pure _))

/-! ## Decisions -/

theorem Conduct.noViableAlternative (start : Int) : Self P (noViableAlternative start) :=
  hP.bind (hP.onStream fun h => TokenStream.read_careful h _) fun _ =>
    hP.bind (hP.onStream fun h => TokenStream.look_careful h _) fun _ => hP.get fun _ _ => hP.pure _

theorem Conduct.seek (i : Int) : Self P (Recogniser.onStream (TokenStream.seek i)) :=
  hP.onStream fun h => TokenStream.seek_careful h i

theorem Conduct.nextType : Self P (Recogniser.onStream (TokenStream.lookType 1)) :=
  hP.onStream fun h => TokenStream.lookType_careful h 1

theorem Conduct.deadEnd (callers : Option Callers) (s : ConfigSet) : Self P (deadEnd d callers s) := by
  refine hP.bind (hP.noViableAlternative _) fun _ => hP.bind (hP.seek _) fun _ => hP.bind (hP.mapM (fun c => ?_) _) fun _ =>
    hP.get fun _ _ => hP.ite (hP.pure _) (hP.throw _)
  exact hP.ite (hP.bind (hP.pure _) fun _ => hP.pure _) (hP.bind (hP.holds _ _) fun _ => hP.pure _)

theorem Conduct.targetNode (s : ConfigSet) (t : Int) : Self P (targetNode d s t) := by
  refine hP.bind (hP.reachSet _ _ _) fun reach => ?_
  split
  · exact hP.pure _
  · refine hP.bind (hP.printIf _ (hP.pure _)) fun _ => hP.bind ?_ fun node => ?_
    · refine hP.ite (hP.pure _) (hP.get fun _ _ => hP.get fun _ _ => hP.bind (hP.lift _) fun _ => ?_)
      exact hP.ite (hP.bind (hP.lift _) fun _ => hP.pure _) (hP.pure _)
    · exact hP.ite (hP.bind (hP.guardNode _) fun _ => hP.pure _) (hP.pure _)

theorem Conduct.computeTarget (source : Nat) (t : Int) : Self P (computeTarget d source t) :=
  hP.bind (hP.nodeAt _) fun _ => hP.bind (hP.targetNode _ _) fun _ => hP.connect _ _ _

theorem Conduct.edgeTarget (source : Nat) (t : Int) : Self P (edgeTarget d source t) := by
  refine hP.bind (hP.nodeAt _) fun node => ?_
  split
  · exact hP.pure _
  · exact hP.computeTarget _ _

theorem Conduct.advance (t : Int) : Self P (advance t) :=
  hP.ite (hP.pure _) (hP.bind (hP.onStream fun h => TokenStream.consume_careful h) fun _ => hP.nextType)

theorem Conduct.runFull (callers : Option Callers) (fuel : Nat) (s : ConfigSet) (t : Int) :
    Self P (runFull d callers fuel s t) := by
  induction fuel generalizing s t with
  | zero => exact hP.throw _
  | succ fuel ih =>
    refine hP.bind (hP.reachSet _ _ _) fun reach => ?_
    split
    · exact hP.deadEnd _ _
    · refine hP.bind (hP.printIf _ (hP.bind (hP.lift _) fun _ => hP.bind (hP.lift _) fun _ => hP.pure _)) fun _ =>
        hP.get fun _ _ => hP.bind (hP.lift _) fun verdict => ?_
      split
      · exact hP.get fun _ _ => hP.ite (hP.bind (hP.announce _ _ _ _ _ _ _ rfl) fun _ => hP.pure _)
          (hP.bind (hP.announce _ _ _ _ _ _ _ rfl) fun _ => hP.pure _)
      · exact hP.bind (hP.advance t) fun _ => ih _ _

theorem Conduct.lookaheadFuel : Self P lookaheadFuel := hP.get fun _ _ => hP.pure _

section

variable (callers : Option Callers)
include callers

theorem Conduct.decideFull (s : ConfigSet) : Self P (decideFull d callers s) :=
  hP.bind (hP.printIf _ (hP.pure _)) fun _ => hP.bind (hP.seek _) fun _ => hP.bind hP.nextType fun _ =>
    hP.bind hP.lookaheadFuel fun _ => hP.runFull _ _ _ _

theorem Conduct.retry (node : Node) (k : Nat) (alts : Option (List Int)) : Self P (retry d callers node k alts) :=
  hP.bind (hP.printIf _ (hP.pure _)) fun _ => hP.bind (hP.startSet _ _) fun _ => hP.get fun _ _ =>
    hP.bind (hP.announce _ _ _ _ _ _ _ rfl) fun _ => hP.decideFull _ _

theorem Conduct.settleConflict (node : Node) (k : Nat) : Self P (settleConflict d callers node k) := by
  refine hP.get fun r _ => hP.bind ?_ fun alts => ?_
  · split
    · exact hP.pure _
    · exact hP.bind (hP.printIf _ (hP.pure _)) fun _ => hP.ite (hP.bind (hP.seek _) fun _ =>
        hP.bind (hP.heldAlts _ _) fun _ => hP.pure _) (hP.bind (hP.heldAlts _ _) fun _ => hP.pure _)
  · split
    · exact hP.bind (hP.printIf _ (hP.pure _)) fun _ => hP.pure _
    · exact hP.ite (hP.bind (hP.seek _) fun _ => hP.retry _ _ _ _) (hP.retry _ _ _ _)

theorem Conduct.accept (node : Node) : Self P (accept d callers node) := by
  unfold Predict.accept
  split
  · exact hP.pure _
  · refine hP.get fun _ _ => hP.bind (hP.seek _) fun _ => hP.bind (hP.heldAlts _ _) fun alts => ?_
    split
    · exact hP.bind (hP.noViableAlternative _) fun _ => hP.throw _
    · exact hP.pure _
    · exact hP.bind (hP.announce _ _ _ _ _ _ _ rfl) fun _ => hP.lift _

theorem Conduct.runAutomaton (fuel previous : Nat) (t : Int) : Self P (runAutomaton d callers fuel previous t) := by
  induction fuel generalizing previous t with
  | zero => exact hP.throw _
  | succ fuel ih =>
    refine hP.bind (hP.edgeTarget _ _) fun target => ?_
    split
    · exact hP.bind (hP.nodeAt _) fun _ => hP.deadEnd _ _
    · refine hP.bind (hP.nodeAt _) fun node => hP.get fun _ _ => hP.ite (hP.settleConflict _ _ _) ?_
      exact hP.ite (hP.accept _ _) (hP.bind (hP.advance t) fun _ => ih _ _)

end

theorem Conduct.placeOfToken : Self P placeOfToken := hP.bind hP.currentToken fun _ => hP.pure _

theorem Conduct.spellNext (words : String → String → String) : Self P (do
    let name ← Recogniser.tokenName (← Recogniser.onStream (TokenStream.lookType 1))
    let place ← Predict.placeOfToken
    return words name place) :=
  hP.bind hP.nextType fun _ => hP.bind (hP.tokenName _) fun _ => hP.bind hP.placeOfToken fun _ => hP.pure _

theorem Conduct.startNode (callers : Option Callers) : Self P (startNode d callers) := by
  refine hP.get fun r _ => hP.bind hP.automaton fun _ => hP.bind ?_ fun known => ?_
  · refine hP.ite (hP.bind (hP.lift _) fun _ => hP.pure _) ?_
    split <;> exact hP.pure _
  · split
    · exact hP.pure _
    · refine hP.bind (hP.printIf _ (hP.bind hP.nextType fun _ => hP.bind (hP.tokenName _) fun _ =>
        hP.get fun _ _ => hP.pure _)) fun _ => hP.bind (hP.startSet _ _) fun s => hP.ite ?_ ?_
      · exact hP.bind (hP.precedenceFilter _) fun _ => hP.bind (hP.addNode _) fun _ => hP.bind hP.automaton fun _ =>
          hP.bind (hP.lift _) fun _ => hP.bind (hP.setAutomaton _) fun _ => hP.pure _
      · exact hP.bind (hP.addNode _) fun _ => hP.bind hP.automaton fun _ => hP.bind (hP.setAutomaton _) fun _ => hP.pure _

theorem Conduct.runDecision : Self P (runDecision d) :=
  hP.bind (hP.startNode _) fun _ =>
    hP.bind (hP.printIf _ (hP.spellNext _)) fun _ =>
    hP.bind (hP.printIf _ (hP.bind (hP.nodeAt _) fun _ => hP.pure _)) fun _ => hP.bind hP.nextType fun _ =>
    hP.bind hP.lookaheadFuel fun _ => hP.bind (hP.runAutomaton _ _ _ _) fun _ =>
    hP.bind (hP.printIf _ (hP.bind hP.spellAutomaton fun _ => hP.pure _)) fun _ => hP.pure _

end Predict

end NimbleLang
