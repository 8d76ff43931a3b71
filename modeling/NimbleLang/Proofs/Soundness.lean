import NimbleLang.Proofs.Derivations
import NimbleLang.Proofs.Strictness

/-!
A parse without complaints builds a derivation, and a session that bails builds the same. `Session.runRule_abreast` says what a
rule does, by induction on how deep rules are nested: it builds a tree as `Grammar.Built` describes from the tokens it moves over,
or a complaint is made. What follows an expression is no operator of its precedence level (`binding`), which is why an operator
never gets a left operand that holds together less than itself.

The session that recovers and the one that bails go abreast except before decisions: there the first one looks whether the next
token can come at all, and complains if it cannot, where the other goes on. That it fails later is a matter of the grammar.
`accepts` computes from the steps of a rule which tokens may be taken first by what is still to do, and `watched` checks that all of
these can come wherever a session looks; so the steps are run with what follows them (`Continues`).
-/

namespace NimbleLang

theorem Lookahead.next_truthful {net : Network} {memory : Memory} (h : Truthful net memory) {n : Nat} {set : IntervalSet}
    (hlook : look net n none none = .ok set) : ∃ memory', next net memory n = .ok (set, memory') := by
  unfold next
  split
  · rename_i known hknown
    obtain rfl := Except.ok.inj ((h n known hknown).symm.trans hlook)
    exact ⟨memory, rfl⟩
  · rw [hlook]
    exact ⟨_, rfl⟩

namespace Session

open Predict Grammar Recogniser

variable {α β : Type} {o : Tape} {k k' k₀ : Nat} {t : Token} {s : Session} {form : Form} {invoking p : Int} {bs cs : List Tree}
  {fs : List Frame} {ps : List Int} {R : β → Session → Prop}

/-! ## Before a decision -/

/-- The tokens that can come in a state. -/
def ahead (n : Int) : IntervalSet := (Lookahead.look States.network n.toNat none none).toOption.getD {}

/-- The states of the grammar in which a session looks whether the next token can come. -/
def syncStates : List Int := [25, 27, 39, 41, 42, 47, 65, 67, 71, 73, 80, 101, 107, 110, 124, 135, 137, 139, 147, 149, 150]

set_option maxRecDepth 4000 in
theorem syncStates_known : ∀ n ∈ syncStates, (Lookahead.look States.network n.toNat none none).toOption.isSome = true ∧
    Indexing.wrap? States.network.states.size n = some n.toNat ∧ (States.network.state n.toNat).kind ∈
      ([.blockStart, .starBlockStart, .plusBlockStart, .starLoopEntry, .plusLoopBack, .starLoopBack] : List StateKind) := by
  decide

theorem look_ahead {n : Int} (hn : n ∈ syncStates) : Lookahead.look States.network n.toNat none none = .ok (ahead n) := by
  have hsome := (syncStates_known n hn).1
  unfold ahead
  cases hlook : Lookahead.look States.network n.toNat none none with
  | ok set => rfl
  | error f =>
    rw [hlook] at hsome
    cases hsome

/-- Whether a token can come in a state; at the end of a rule, every token can. -/
def passes (n t : Int) : Bool := (ahead n).contains t || (ahead n).contains Token.epsilon

theorem stateHere_calm (h : Calm s) {n : Int} (hn : n ∈ syncStates) (hstate : s.state = n) : stateHere.outcome s = (.ok n.toNat, s) := by
  rw [stateHere, Run.outcome_get_bind, h.trained.net, hstate, (syncStates_known n hn).2.1]
  rfl

/-- A look that leaves the stream as it is leaves all as it is. -/
theorem onStream_eq (h : Calm s) {act : TokenStream.Act Supply α} {x : α} (hact : act.outcome s.stream = (.ok x, s.stream)) :
    (onStream act).outcome s = (.ok x, { s with callers := s.underWay }) := by
  have hinside := Recogniser.onStream_ok (r := s.inside) h.trained.attached hact
  rw [h.drained.1, h.drained.2] at hinside
  rw [onStream, onRecogniser, Run.outcome_onPart]
  exact congrArg (fun q => (q.1, { s with toRecogniser := q.2 })) hinside

/-- Where the token can come, nothing changes but what is remembered. -/
theorem sync_passes (h : Calm s) (hs : TokenStream.Standing o s.stream k t) (hbail : s.bail = false) {n : Int} (hn : n ∈ syncStates)
    (hstate : s.state = n) (hpass : passes n t.type = true) :
    ∃ memory, sync.outcome s = (.ok (), { s with lookahead := memory, callers := s.underWay }) := by
  obtain ⟨memory, hnext⟩ := Lookahead.next_truthful h.trained.lookahead (look_ahead hn)
  have htokens : (nextTokens n.toNat).outcome { s with callers := s.underWay } =
      (.ok (ahead n), { s with lookahead := memory, callers := s.underWay }) := by
    refine remembering_eq (s := { s with callers := s.underWay }) ?_
    dsimp only
    rw [h.trained.net]
    exact hnext
  refine ⟨memory, ?_⟩
  unfold passes at hpass
  rw [sync, Run.outcome_get_bind, if_neg (by simp [hbail, h.settled]), Run.outcome_bind_ok (stateHere_calm h hn hstate), nextType,
    Run.outcome_bind_ok (onStream_eq h hs.lookType), Run.outcome_bind_ok htokens, if_pos hpass]
  rfl

/-- Where the token cannot come, a complaint is made, now or by the rule around. -/
theorem sync_complains (h : Calm s) (hs : TokenStream.Standing o s.stream k t) (hbail : s.bail = false) {n : Int}
    (hn : n ∈ syncStates) (hstate : s.state = n) (hpass : passes n t.type = false) : sync.Ends s (fun _ => Marred) Alarm := by
  refine .after_get ?_
  rw [if_neg (by simp [hbail, h.settled])]
  refine .after (stateHere_calm h hn hstate) ((nextType_still h hs).bind ?_)
  rintro _ s₁ ⟨rfl, h₁⟩
  refine ((nextTokens_still h₁.calm h₁.standing n.toNat).imp (fun _ _ => id) fun _ _ h => h.alarm).bind ?_
  rintro next s₂ ⟨hnext, h₂⟩
  obtain rfl := Except.ok.inj ((look_ahead hn).symm.trans hnext)
  unfold passes at hpass
  rw [if_neg (by rw [hpass]; decide), h.trained.net]
  have hkind := (syncStates_known n hn).2.2
  split
  case h_1 | h_2 | h_3 | h_4 => exact (dropOrFail_leads s₂ (.inr h₂)).imp (fun _ _ h => h.resolve_right id) fun _ _ => id
  case h_5 | h_6 => exact (dropUnfit_leads _ s₂ (.inr h₂)).imp (fun _ _ h => h.resolve_right id) fun _ _ => id
  case h_7 => simp_all

theorem sync_bails {b : Session} (h : b.bail = true) : sync.outcome b = (.ok (), b) := by
  rw [sync, Run.outcome_get_bind, if_pos (by simp [h])]
  rfl

theorem sync_abreast {n : Int} (hn : n ∈ syncStates) {rest : Act β} (hrest : Abreast (Within o k form invoking cs fs ps) rest R)
    (hstop : passes n (o.type k) = false → Refused (Within o k form invoking cs fs ps) rest) :
    Abreast (fun s => s.state = n ∧ Within o k form invoking cs fs ps s) (sync >>= fun _ => rest) R := by
  refine ⟨.bind sync_indelible fun _ => hrest.indelible, ?_⟩
  rintro d _ ⟨hstate, label, hlabel, hd⟩ ⟨hbail, memory', callers', rfl⟩
  obtain ⟨t, ht⟩ := hd.standing
  have hbails := sync_bails (b := { d with bail := true, lookahead := memory', callers := callers' }) rfl
  rw [Run.outcome_bind_ok hbails]
  cases hpass : passes n t.type with
  | true =>
    obtain ⟨memory, hout⟩ := sync_passes hd.calm ht hbail hn hstate hpass
    have hstill := ((sync_leads d (.inr (.refl hd.calm ht))).ok hout).resolve_left hd.clean
    have h := hrest.both _ _ ⟨label, hlabel, hd.still hstill⟩ ⟨hbail, memory', callers', rfl⟩
    unfold Run.Ends at h ⊢
    rw [Run.outcome_bind_ok hout]
    exact h
  | false =>
    rw [ht.reading.type ht.token] at hstop
    refine .inr ⟨hstop hpass d _ ⟨label, hlabel, hd⟩ ⟨hbail, memory', callers', rfl⟩,
      (sync_complains hd.calm ht hbail hn hstate hpass).bind fun _ s hs => ?_⟩
    exact (hrest.indelible s hs).imp (fun _ _ => id) fun _ _ => .inl

/-! ## What can come -/

/-- The rules that may find nothing, and find nothing before other tokens than those of `bodyFirst`. -/
def idleRules : List Rule := [.varBlock, .block, .body, .main]

/-- The tokens that a body can begin with. -/
def bodyFirst : List Int := tVar :: statementFirst

/-- The tokens that a step and what follows it may take first, if that is known. -/
def acceptsStep : Step → Option (List Int) → Option (List Int)
  | .token _ type, _ => some [type]
  | .operator _ types, _ => some types
  | .phrase _ rule _, next => if idleRules.contains rule then next.map (bodyFirst ++ ·) else none
  | .optional _ first _, next | .many _ _ first _, next => next.map (first ++ ·)
  | .decided .., _ => none

def accepts (steps : List Step) (next : Option (List Int)) : Option (List Int) := steps.foldr acceptsStep next

/-- All tokens that may be taken can come in a state. -/
def covers (n : Int) (next : Option (List Int)) : Bool :=
  syncStates.contains n && ((ahead n).contains Token.epsilon || next.any fun types => types.all fun t => (ahead n).contains t)

mutual
/-- Wherever a session looks before the step whether a token can come, all tokens can that may be taken. -/
def watchedStep : Step → Option (List Int) → Bool
  | .token .., _ | .operator .., _ => true
  | .phrase _ _ p, _ => levels.contains p
  | .optional state first body, next => covers state (next.map (first ++ ·)) && watched body next
  | .decided state decision body, next => covers state none && decision == 8 && watched body next
  | .many state again first body, next =>
    covers state (next.map (first ++ ·)) && covers again (next.map (first ++ ·)) && watched body (next.map (first ++ ·))

def watched : List Step → Option (List Int) → Bool
  | [], _ => true
  | s :: rest, next => watchedStep s (accepts rest next) && watched rest next
end

/-- A step that may find nothing, and finds nothing before other tokens than those of `bodyFirst`. -/
def idleStep : Step → Bool
  | .phrase _ rule _ => idleRules.contains rule
  | .many _ _ first _ => first.all fun t => bodyFirst.contains t
  | _ => false

/-- The steps of a rule that is a sequence of them. -/
def sequenceOf : Grammar.Body → List (List Step)
  | .sequence steps => [steps]
  | _ => []

/-- What is computed of the rules: wherever a session looks, the tokens that may be taken can come. -/
structure RulesWatched : Prop where
  statement : ∀ t ∈ statementFirst, passes 110 t = true
  operand : ∀ t ∈ exprFirst, passes 124 t = true
  operator : ∀ t ∈ [tTimes, tDivide, tMinus, tPlus, tLess, tLessEqual, tEqual], passes 135 t = true
  sequences : ∀ rule ∈ Rule.all, ∀ steps ∈ sequenceOf (body rule), watched steps none = true ∧
    (rule ∈ idleRules → steps.all idleStep = true)
  alternatives : ∀ rule ∈ Rule.all, ∀ a ∈ (body rule).alternatives, watched a.steps none = true
  tails : ∀ t ∈ (body .expr).tails, watched t.steps none = true
  loop : covers 137 none = true ∧ covers 139 none = true

set_option maxRecDepth 4000 in
theorem rulesWatched : RulesWatched where
  statement := by decide
  operand := by decide
  operator := by decide
  sequences := by decide
  alternatives := by decide
  tails := by decide
  loop := by decide

theorem covers_stops {n t : Int} {next : Option (List Int)} (h : covers n next = true) (ht : passes n t = false) :
    ∃ types, next = some types ∧ t ∉ types := by
  unfold passes at ht
  rw [Bool.or_eq_false_iff] at ht
  unfold covers at h
  rw [Bool.and_eq_true, ht.2, Bool.false_or] at h
  obtain ⟨types, hnext, hall⟩ := (Option.any_eq_true _ _).mp h.2
  refine ⟨types, hnext, fun hmem => ?_⟩
  rw [List.all_eq_true.mp hall t hmem] at ht
  cases ht.1

/-! ## What steps build -/

/-- What a step builds from the tokens from place `k` to place `k'`. An operator that its level allows does not follow a call. -/
structure Stepped (o : Tape) (step : Step) (k k' : Nat) (bs : List Tree) : Prop where
  fits : FitsStep Built step bs
  spells : o.Spells k (Tree.leavesOf bs) k'
  ends : ∀ state p, step = .phrase state .expr p → binding (o.type k') < p
  idle : idleStep step = true → o.type k ∉ bodyFirst → k' = k

structure SteppedAll (o : Tape) (steps : List Step) (k k' : Nat) (bs : List Tree) : Prop where
  fits : Fits Built steps bs
  spells : o.Spells k (Tree.leavesOf bs) k'
  ends : ∀ state p, steps.getLast? = some (.phrase state .expr p) → binding (o.type k') < p
  idle : steps.all idleStep = true → o.type k ∉ bodyFirst → k' = k

theorem steppedAll_nil (k : Nat) : SteppedAll o [] k k [] := ⟨.nil, .nil k, nofun, fun _ _ => rfl⟩

theorem Stepped.cons {step : Step} {steps : List Step} {k'' : Nat} {ds : List Tree} (h : Stepped o step k k' bs)
    (h' : SteppedAll o steps k' k'' ds) : SteppedAll o (step :: steps) k k'' (bs ++ ds) where
  fits := .cons h.fits h'.fits
  spells := Tree.leavesOf_append .. ▸ h.spells.append h'.spells
  ends state p hlast := by
    cases steps with
    | nil =>
      -- nothing was read after the step
      obtain ⟨⟨⟩, ⟨⟩, -, -⟩ := h'
      exact h.ends state p (Option.some.inj hlast)
    | cons next steps => exact h'.ends state p (List.getLast?_cons_cons ▸ hlast)
  idle hidle hk := by
    rw [List.all_cons, Bool.and_eq_true] at hidle
    obtain rfl := h.idle hidle.1 hk
    exact h'.idle hidle.2 hk

/-- The innermost phrase has got more children, as `F` says. -/
def Grown (o : Tape) (F : Nat → List Tree → Prop) (form : Form) (invoking : Int) (cs : List Tree) (fs : List Frame) (ps : List Int)
    (s : Session) : Prop := ∃ k' bs, F k' bs ∧ Within o k' form invoking (cs ++ bs) fs ps s

/-- Whatever the step builds, `G` holds after it. -/
def Before (o : Tape) (step : Step) (G : Nat → List Tree → Prop) (k : Nat) (cs : List Tree) : Prop :=
  ∀ k' bs, Stepped o step k k' bs → G k' (cs ++ bs)

def BeforeAll (o : Tape) (steps : List Step) (G : Nat → List Tree → Prop) (k : Nat) (cs : List Tree) : Prop :=
  ∀ k' bs, SteppedAll o steps k k' bs → G k' (cs ++ bs)

variable {G G' : Nat → List Tree → Prop}

theorem BeforeAll.nil (h : BeforeAll o [] G k cs) : G k cs := List.append_nil cs ▸ h k [] (steppedAll_nil k)

theorem BeforeAll.cons {step : Step} {steps : List Step} (h : BeforeAll o (step :: steps) G k cs) :
    Before o step (BeforeAll o steps G) k cs :=
  fun _ bs hstep k'' ds hsteps => List.append_assoc cs bs ds ▸ h k'' _ (hstep.cons hsteps)

/-! ## What follows -/

/-- What follows, where the phrase under way is as `G` says: both sessions go on with it abreast, and the one that bails fails before
other tokens than the given ones. -/
structure Continues (o : Tape) (form : Form) (invoking : Int) (fs : List Frame) (ps : List Int) (G : Nat → List Tree → Prop)
    (next : Option (List Int)) (rest : Act β) (R : β → Session → Prop) : Prop where
  indelible : Indelible rest
  abreast : ∀ k cs, G k cs → Abreast (Within o k form invoking cs fs ps) rest R
  refused : ∀ types, next = some types → ∀ k cs, o.type k ∉ types → Refused (Within o k form invoking cs fs ps) rest

variable {rest : Act β} {next next' : Option (List Int)}

theorem Continues.mono (h : Continues o form invoking fs ps G next rest R) (hG : ∀ k cs, G' k cs → G k cs) :
    Continues o form invoking fs ps G' next rest R :=
  ⟨h.indelible, fun k cs hcs => h.abreast k cs (hG k cs hcs), h.refused⟩

/-- Looking before a decision leaves what follows. -/
theorem Continues.sync (h : Continues o form invoking fs ps G next rest R) {n : Int} (hn : covers n next = true) :
    Continues o form invoking fs ps G next (setState n >>= fun _ => Session.sync >>= fun _ => rest) R := by
  have hstate : n ∈ syncStates := List.contains_iff_mem.mp (Bool.and_eq_true_iff.mp hn).1
  refine ⟨.bind (setState_indelible n) fun _ => .bind sync_indelible fun _ => h.indelible, fun k cs hcs => ?_, fun types hnext k cs hk => ?_⟩
  · refine .bind (setState_abreast n) fun _ => sync_abreast hstate (h.abreast k cs hcs) fun hpass => ?_
    obtain ⟨types, hnext, ht⟩ := covers_stops hn hpass
    exact h.refused types hnext k cs ht
  · refine .bind (setState_abreast n) ?_
    rintro _ d b hd hb
    obtain ⟨f, b', hout⟩ := h.refused types hnext k cs hk d b hd.2 hb
    obtain ⟨-, memory, callers, rfl⟩ := hb
    exact ⟨f, b', by rw [Run.outcome_bind_ok (sync_bails rfl), hout]⟩

/-- What is done only before some tokens. -/
theorem Continues.optional (h : Continues o form invoking fs ps G next rest R) {act : Act Unit}
    (hact : Continues o form invoking fs ps G' next' (act >>= fun _ => rest) R) (first : List Int) :
    Continues o form invoking fs ps (fun k cs => (o.type k ∈ first → G' k cs) ∧ G k cs) (next.map (first ++ ·))
      (nextType >>= fun t => (if first.contains t then act else Pure.pure ()) >>= fun _ => rest) R := by
  have hi (t : Int) : Indelible ((if first.contains t then act else Pure.pure ()) >>= fun _ => rest) := by
    split
    · exact hact.indelible
    · rw [pure_bind]
      exact h.indelible
  refine ⟨.bind nextType_indelible hi, fun k cs hcs => ?_, fun types hnext k cs hk => ?_⟩
  · refine .bind nextType_abreast fun t => .assuming (hi t) fun ht => ?_
    subst ht
    split
    · rename_i hin
      exact hact.abreast k cs (hcs.1 (List.contains_iff_mem.mp hin))
    · rw [pure_bind]
      exact h.abreast k cs hcs.2
  · obtain ⟨others, hothers, rfl⟩ := Option.map_eq_some_iff.mp hnext
    rw [List.mem_append, not_or] at hk
    refine .bind nextType_abreast fun t => .assuming fun ht => ?_
    subst ht
    rw [if_neg fun hin => hk.1 (List.contains_iff_mem.mp hin), pure_bind]
    exact h.refused others hothers k cs hk.2

theorem type_of_token {x : Token} (h : o.token? k = some x) : o.type k = x.type := by
  rw [Tape.type, h]
  rfl

/-- A step that takes a token. -/
theorem Continues.token (h : Continues o form invoking fs ps G next rest R) {act : Act Unit} {types : List Int} {step : Step}
    (hact : ∀ k cs, Abreast (Within o k form invoking cs fs ps) act fun _ => Taken o k types form invoking cs fs ps)
    (hstep : ∀ k x, o.token? k = some x → x.type ∈ types → Stepped o step k (Tape.after k x) [.leaf x]) :
    Continues o form invoking fs ps (Before o step G) (some types) (act >>= fun _ => rest) R := by
  refine ⟨.bind (hact 0 []).indelible fun _ => h.indelible, fun k cs hcs => .bind (hact k cs) fun _ => .cases h.indelible ?_, ?_⟩
  · rintro s ⟨x, ⟨hx, hfits⟩, hs⟩
    exact ⟨_, hs, h.abreast _ _ (hcs _ _ (hstep k x hx hfits))⟩
  · rintro _ ⟨⟩ k cs hk
    refine .bind (hact k cs) ?_
    rintro _ d b ⟨x, ⟨hx, hfits⟩, -⟩ -
    exact absurd (type_of_token hx ▸ hfits) hk

theorem stepped_leaf {x : Token} {step : Step} (hx : o.token? k = some x) (hfits : FitsStep Built step [.leaf x])
    (hphrase : ∀ state p, step ≠ .phrase state .expr p) (hidle : idleStep step = false) :
    Stepped o step k (Tape.after k x) [.leaf x] :=
  ⟨hfits, .cons hx (.nil _), fun state p h => absurd h (hphrase state p), fun h => nomatch hidle.symm.trans h⟩

/-! ## Steps -/

/-- The rules are called abreast. -/
structure CallAbreast (o : Tape) (call : Rule → Int → Act Unit) : Prop where
  indelible : ∀ rule p, Indelible (call rule p)
  abreast : ∀ state rule, ∀ p ∈ levels, ∀ k form invoking cs fs ps, Abreast (Within o k form invoking cs fs ps) (call rule p) fun _ =>
    Grown o (Stepped o (.phrase state rule p) k) form invoking cs fs ps

theorem choose_return_abreast :
    Abreast (Within o k form invoking cs fs ps) (choose 8) fun _ => Within o k form invoking cs fs ps := by
  refine (Abreast.keeping (P := fun _ => True) (choose_indelible 8) (choose_impartial 8) fun fs s hs => ?_).imp (fun _ => id)
    fun _ _ h => h.2
  obtain ⟨t, ht⟩ := hs.standing
  exact (choose_return hs.calm ht).imp (fun _ _ h => ⟨trivial, hs.still h⟩) fun _ _ h => h.alarm

theorem repeatWhile_continues (state : Int) {steps : List Step} {first : List Int} {again : Int} {body : Act Unit}
    (h : Continues o form invoking fs ps G next rest R) (hagain : covers again (next.map (first ++ ·)) = true)
    (hbody : ∀ {G' : Nat → List Tree → Prop} {rest' : Act β}, Continues o form invoking fs ps G' (next.map (first ++ ·)) rest' R →
      ∃ next', Continues o form invoking fs ps (BeforeAll o steps G') next' (body >>= fun _ => rest') R) (fuel : Nat) :
    Continues o form invoking fs ps (Before o (.many state again first steps) G) (next.map (first ++ ·))
      (repeatWhile first again body fuel >>= fun _ => rest) R := by
  induction fuel with
  | zero =>
    exact ⟨.bind (throw_indelible _) fun _ => h.indelible, fun k cs _ => .bind (Q := fun _ _ => False) exhausted_abreast
      fun _ => .of_false h.indelible, fun _ _ _ _ _ => .first exhausted_refused⟩
  | succ fuel ih =>
    obtain ⟨next', hround⟩ := hbody (ih.sync hagain)
    simp only [← bind_assoc] at hround
    rw [repeatWhile, bind_assoc]
    refine (h.optional (by simpa only [bind_assoc] using hround) first).mono fun k cs hcs => ⟨fun hfirst k' bs hbs k'' ds hds => ?_, ?_⟩
    · rw [List.append_assoc]
      refine hcs k'' _ ⟨.again hbs.fits hds.fits, Tree.leavesOf_append .. ▸ hbs.spells.append hds.spells, nofun, fun hidle hk => ?_⟩
      exact absurd (List.contains_iff_mem.mp (List.all_eq_true.mp hidle _ hfirst)) hk
    · exact List.append_nil cs ▸ hcs k [] ⟨.done, .nil k, nofun, fun _ _ => rfl⟩

mutual
theorem runStep_continues {call : Rule → Int → Act Unit} (hcall : CallAbreast o call) : (step : Step) →
    ∀ {G : Nat → List Tree → Prop} {rest : Act β} {next}, watchedStep step next = true → Continues o form invoking fs ps G next rest R →
    Continues o form invoking fs ps (Before o step G) (acceptsStep step next) (runStep call step >>= fun _ => rest) R
  | .token state type, _, _, _, _, h => by
    refine h.token (fun k cs => .bind (setState_within state) fun _ => .bind (matchToken_abreast type) fun _ => .pure fun _ => id)
      fun k x hx hfits => ?_
    obtain rfl := List.mem_singleton.mp hfits
    exact stepped_leaf hx .token nofun rfl
  | .operator state types, _, _, _, _, h =>
    h.token (fun k cs => .bind (setState_within state) fun _ => takeOperator_abreast types) fun k x hx hfits =>
      stepped_leaf hx (.operator hfits) nofun rfl
  | .phrase state rule p, G, rest, next, hw, h => by
    have hp : p ∈ levels := List.contains_iff_mem.mp hw
    have hstep (k : Nat) (cs : List Tree) : Abreast (Within o k form invoking cs fs ps) (runStep call (.phrase state rule p)) fun _ =>
        Grown o (Stepped o (.phrase state rule p) k) form invoking cs fs ps :=
      .bind (setState_within state) fun _ => hcall.abreast state rule p hp k form invoking cs fs ps
    refine ⟨.bind (hstep 0 []).indelible fun _ => h.indelible, fun k cs hcs => .bind (hstep k cs) fun _ => .cases h.indelible ?_, ?_⟩
    · rintro s ⟨k', bs, hbs, hs⟩
      exact ⟨_, hs, h.abreast k' _ (hcs k' bs hbs)⟩
    · intro types hnext k cs hk
      rw [acceptsStep] at hnext
      split at hnext
      · rename_i hidle
        obtain ⟨others, hothers, rfl⟩ := Option.map_eq_some_iff.mp hnext
        rw [List.mem_append, not_or] at hk
        refine .bind (hstep k cs) ?_
        rintro _ d b ⟨k', bs, hbs, hs⟩ hb
        obtain rfl := hbs.idle hidle hk.1
        exact h.refused others hothers k' _ hk.2 d b hs hb
      · cases hnext
  | .optional state first body, _, _, _, hw, h => by
    rw [watchedStep, Bool.and_eq_true] at hw
    have hrest := (h.optional (runSteps_continues hcall body hw.2 h) first).sync hw.1
    simp only [runStep, acceptsStep, bind_assoc]
    refine hrest.mono fun k cs hcs => ⟨fun _ k' bs hbs => hcs k' bs ⟨.present hbs.fits, hbs.spells, nofun, nofun⟩, ?_⟩
    exact List.append_nil cs ▸ hcs k [] ⟨.absent, .nil k, nofun, nofun⟩
  | .decided state decision body, G, rest, next, hw, h => by
    rw [watchedStep, Bool.and_eq_true, Bool.and_eq_true, beq_iff_eq] at hw
    obtain ⟨⟨hcovers, rfl⟩, hbody⟩ := hw
    have hbody := runSteps_continues hcall body hbody h
    have hrest : Continues o form invoking fs ps (Before o (.decided state 8 body) G) none
        (choose 8 >>= fun n => (if n = 1 then runSteps call body else Pure.pure ()) >>= fun _ => rest) R := by
      have hi (n : Int) : Indelible ((if n = 1 then runSteps call body else Pure.pure ()) >>= fun _ => rest) := by
        split
        · exact hbody.indelible
        · rw [pure_bind]
          exact h.indelible
      refine ⟨.bind (choose_indelible 8) hi, fun k cs hcs => .bind choose_return_abreast fun n => ?_, nofun⟩
      split
      · exact hbody.abreast k cs fun k' bs hbs => hcs k' bs ⟨.taken hbs.fits, hbs.spells, nofun, nofun⟩
      · rw [pure_bind]
        exact h.abreast k cs (List.append_nil cs ▸ hcs k [] ⟨.refused, .nil k, nofun, nofun⟩)
    have hrest := hrest.sync hcovers
    simpa only [runStep, acceptsStep, bind_assoc] using hrest
  | .many state again first body, G, rest, next, hw, h => by
    rw [watchedStep, Bool.and_eq_true, Bool.and_eq_true] at hw
    obtain ⟨⟨hstate, hagain⟩, hbody⟩ := hw
    have hloop := repeatWhile_continues state h hagain fun h' => ⟨_, runSteps_continues hcall body hbody h'⟩
    have hrest : Continues o form invoking fs ps (Before o (.many state again first body) G) (next.map (first ++ ·)) (tokenFuel >>= fun n =>
        repeatWhile first again (runSteps call body) (2 * n) >>= fun _ => rest) R := by
      refine ⟨.bind tokenFuel_indelible fun n => (hloop _).indelible, fun k cs hcs => .bind tokenFuel_abreast fun n =>
        (hloop _).abreast k cs hcs, fun types hnext k cs hk => ?_⟩
      exact .bind tokenFuel_abreast fun n => (hloop _).refused types hnext k cs hk
    have hrest := hrest.sync hstate
    simpa only [runStep, acceptsStep, bind_assoc] using hrest

theorem runSteps_continues {call : Rule → Int → Act Unit} (hcall : CallAbreast o call) : (steps : List Step) →
    ∀ {G : Nat → List Tree → Prop} {rest : Act β} {next}, watched steps next = true → Continues o form invoking fs ps G next rest R →
    Continues o form invoking fs ps (BeforeAll o steps G) (accepts steps next) (runSteps call steps >>= fun _ => rest) R
  | [], _, _, _, _, h => by
    rw [runSteps, pure_bind]
    exact h.mono fun _ _ => BeforeAll.nil
  | step :: steps, _, _, _, hw, h => by
    rw [watched, Bool.and_eq_true] at hw
    rw [runSteps, bind_assoc]
    exact (runStep_continues hcall step hw.1 (runSteps_continues hcall steps hw.2 h)).mono fun _ _ => BeforeAll.cons
end

section Call

variable {call : Rule → Int → Act Unit} (hcall : CallAbreast o call)
include hcall

theorem runSteps_abreast {steps : List Step} (hw : watched steps none = true) :
    Abreast (Within o k form invoking cs fs ps) (runSteps call steps) fun _ => Grown o (SteppedAll o steps k) form invoking cs fs ps := by
  have hend : Continues o form invoking fs ps (fun k' ds => ∃ bs, SteppedAll o steps k k' bs ∧ ds = cs ++ bs) none (Pure.pure () : Act Unit)
      fun _ => Grown o (SteppedAll o steps k) form invoking cs fs ps := by
    refine ⟨.pure _, ?_, nofun⟩
    rintro k' _ ⟨bs, hbs, rfl⟩
    exact .pure fun s hs => ⟨k', bs, hbs, hs⟩
  have h := runSteps_continues hcall steps hw hend
  rw [bind_pure_unit] at h
  exact h.abreast k cs fun k' bs hbs => ⟨bs, hbs, rfl⟩

/-! ## Choices -/

omit hcall in
theorem choose_abreast {n : Nat} {v : Survey} (hv : Surveyed n v) (hps : ps.head? = some p) :
    Abreast (Within o k form invoking cs fs ps) (choose n) fun alt s => v.verdict p (o.type k) (o.type (k + 1)) = some alt ∧
      Within o k form invoking cs fs ps s := by
  refine .keeping (choose_indelible n) (choose_impartial n) fun fs s hs => ?_
  obtain ⟨t, ht⟩ := hs.standing
  have hhead : s.precedences.head? = some p := by rw [hs.precedences, hps]
  exact (choose_surveyed hv hs.calm ht hhead).imp (fun _ _ h => ⟨h.2, hs.still h.1⟩) fun _ _ h => h.alarm

omit hcall in
/-- A decision; before a token that cannot come, none of the answers is given. -/
theorem decide_abreast {state decision : Int} {P : Int → Prop} {arms : Int → Act β} (hstate : state ∈ syncStates)
    (hi : ∀ n, Indelible (arms n))
    (hchoose : Abreast (Within o k form invoking cs fs ps) (choose decision) fun n s => P n ∧ Within o k form invoking cs fs ps s)
    (harms : ∀ n, P n → Abreast (Within o k form invoking cs fs ps) (arms n) R) (hstop : passes state (o.type k) = false → ∀ n, ¬P n) :
    Abreast (Within o k form invoking cs fs ps) (setState state >>= fun _ => sync >>= fun _ => choose decision >>= arms) R := by
  refine .bind (setState_abreast state) fun _ => sync_abreast hstate (.bind hchoose fun n => .assuming (hi n) (harms n)) fun hpass => ?_
  exact .bind hchoose fun n => .assuming fun hn => absurd hn (hstop hpass n)

/-- One of the alternatives is taken; before a token that cannot come, none is. -/
theorem runChoice_abreast (rule : Rule) {state decision : Int} {P : Int → Prop} (hstate : state ∈ syncStates)
    (hchoose : Abreast (Within o k form invoking [] fs ps) (choose decision) fun n s => P n ∧ Within o k form invoking [] fs ps s)
    (hP : ∀ n, P n → 1 ≤ n ∧ n ≤ (body rule).alternatives.length) (hstop : passes state (o.type k) = false → ∀ n, ¬P n) :
    Abreast (Within o k form invoking [] fs ps) (runChoice call state decision (body rule).alternatives) fun _ s =>
      ∃ a ∈ (body rule).alternatives, Grown o (SteppedAll o a.steps k) a.form invoking [] fs ps s := by
  refine decide_abreast hstate (fun n => ?_) hchoose (fun n hn => ?_) hstop
  · split
    · exact .ite (.bind (relabel_indelible _) fun _ => runSteps_indelible hcall.indelible _) (.pure _)
    · exact .pure _
  · obtain ⟨hpos, hlength⟩ := hP n hn
    split
    · rename_i a ha
      have hmem := List.mem_of_getElem? ha
      have hwatched := RulesWatched.alternatives rulesWatched rule (by cases rule <;> decide) a hmem
      refine .ite (fun _ => ?_) fun hn => absurd hpos hn
      exact .bind (.of_goes (relabel_indelible _) (relabel_impartial _) (relabel_within a.form)) fun _ =>
        (runSteps_abreast hcall hwatched).imp (fun _ => id) fun _ _ h => ⟨a, hmem, h⟩
    · rename_i hnone
      have := List.getElem?_eq_none_iff.mp hnone
      omega

/-! ## Operators -/

/-- An expression of level `p` from the tokens from place `k₀` to place `k`; no operator after it binds more than it holds together. -/
structure Climbed (o : Tape) (k₀ k : Nat) (p : Int) (form : Form) (cs : List Tree) : Prop where
  built : ∀ l : Label, l.form = form → Built .expr p (.node l cs)
  holds : binding (o.type k) ≤ form.level
  spells : o.Spells k₀ (Tree.leavesOf cs) k

/-- The innermost phrase is an expression to which operators may be added. -/
def Climbing (o : Tape) (k₀ k : Nat) (invoking p : Int) (fs : List Frame) (ps : List Int) (s : Session) : Prop :=
  ∃ form cs, Climbed o k₀ k p form cs ∧ Within o k form invoking cs fs ps s

omit hcall in
theorem precedenceHolds_abreast (level : Int) : Abreast (Within o k form invoking cs fs (p :: ps))
    (onRecogniser (Recogniser.precedenceHolds level)) fun b s => b = decide (level ≥ p) ∧ Within o k form invoking cs fs (p :: ps) s := by
  refine .keeping (onRecogniser_indelible (d := 0) fun _ => Recogniser.precedenceHolds_drifts _)
    (onRecogniser_impartial (Recogniser.precedenceHolds_heedless level)) fun fs s h => onRecogniser_ends (.after_get ?_)
  have hps : s.inside.precedences = p :: ps := h.precedences
  rw [hps]
  obtain ⟨h, ⟨t, ht⟩, hf, hp, hclean⟩ := h
  exact .of_ok (Run.outcome_pure _ _) ⟨rfl, { h with trained := h.trained.called _ }, ⟨t, ht⟩, hf, hp, hclean⟩

/-- An operator that the level allows takes what was built so far as its left operand. -/
theorem runTail_abreast {t : Tail} (ht : t ∈ (body .expr).tails) (hp : p ≤ t.level) (hbinding : t.level = binding (o.type k))
    (h : Climbed o k₀ k p form cs) :
    Abreast (Within o k form invoking cs fs (p :: ps)) (runTail call invoking t) fun _ s => ∃ k', Climbing o k₀ k' invoking p fs (p :: ps) s := by
  have hsteps := runSteps_indelible (I := Marred) hcall.indelible t.steps
  refine .bind (.of_goes (wrapTop_indelible _ _) (wrapTop_impartial _ _) (wrapTop_within t.form invoking)) fun _ =>
    .of_exists ⟨{ form }, rfl⟩ fun l hl => .bind (setState_within _) fun _ => .bind (precedenceHolds_abreast _) fun b =>
      .assuming ?_ fun hb => .ite (fun hfails => ?_) fun _ => ?_
  · exact .ite (.bind currentToken_indelible fun _ => .bind .get fun _ => .bind (throw_indelible _) fun _ => hsteps) hsteps
  · rw [hb, decide_eq_true hp] at hfails
    cases hfails
  · refine (runSteps_abreast hcall (RulesWatched.tails rulesWatched t ht)).imp (fun _ => id) ?_
    rintro _ s' ⟨k', bs, hbs, hs'⟩
    obtain ⟨hform, -, -, state, types, state', hshape, -⟩ := tail_shape ht
    have hnext : binding (o.type k') < t.level + 1 := hbs.ends state' _ (by rw [hshape]; rfl)
    refine ⟨k', t.form, .node l cs :: bs, ⟨fun l' hl' => ?_, by omega, ?_⟩, hs'⟩
    · refine built_tail ht hp (h.built l hl) ?_ hl' hbs.fits
      have hlevel : (Tree.node l cs).level = form.level := by rw [← hl]; rfl
      have := h.holds
      omega
    · rw [Tree.leavesOf, Tree.leaves]
      exact h.spells.append hbs.spells

omit hcall in
theorem tail_chosen {n : Int} (hp : p ∈ levels) (hn : tailSurvey.verdict p (o.type k) (o.type (k + 1)) = some n) :
    1 ≤ n ∧ ∃ t, (body .expr).tails[(n - 1).toNat]? = some t ∧ t ∈ (body .expr).tails ∧ p ≤ t.level ∧
      t.level = binding (o.type k) := by
  have hnonneg : ∀ p ∈ levels, 0 ≤ p := by decide
  have := hnonneg p hp
  rw [tail_verdict hp] at hn
  split at hn
  · rename_i hbinding
    have hcases : binding (o.type k) = 8 ∨ binding (o.type k) = 7 ∨ binding (o.type k) = 6 ∨ binding (o.type k) = -1 := by
      unfold binding
      split_ifs <;> simp
    cases hn
    rcases hcases with h | h | h | h <;> rw [h] at hbinding ⊢
    · exact ⟨by decide, _, rfl, .head _, hbinding, rfl⟩
    · exact ⟨by decide, _, rfl, .tail _ (.head _), hbinding, rfl⟩
    · exact ⟨by decide, _, rfl, .tail _ (.tail _ (.head _)), hbinding, rfl⟩
    · omega
  · cases hn

omit hcall in
theorem binding_passes {t : Int} (h : 0 ≤ binding t) : passes 135 t = true := by
  refine RulesWatched.operator rulesWatched t ?_
  simp only [List.mem_cons]
  unfold binding at h
  split_ifs at h <;> grind

theorem runOperator_abreast (hp : p ∈ levels) (hbinding : binding (o.type k) ≥ p) (h : Climbed o k₀ k p form cs) :
    Abreast (Within o k form invoking cs fs (p :: ps)) (runOperator call invoking 135 11 (body .expr).tails) fun _ s =>
      ∃ k', Climbing o k₀ k' invoking p fs (p :: ps) s := by
  have hnonneg : ∀ p ∈ levels, 0 ≤ p := by decide
  refine .get (runOperator_indelible hcall.indelible _ _ _ _) ?_ fun _ _ _ => rfl
  rintro d ⟨label, -, hd⟩
  rw [hd.calm.alone, if_neg (by decide)]
  refine decide_abreast (by decide) (fun n => ?_) (choose_abreast tail_surveyed rfl) (fun n hn => ?_) fun hpass => ?_
  · split
    · exact .ite (runTail_indelible hcall.indelible _ _) (.pure _)
    · exact .pure _
  · obtain ⟨hpos, t, ht, hmem, hlevel, hbinding⟩ := tail_chosen hp hn
    rw [ht]
    exact .ite (fun _ => runTail_abreast hcall hmem hlevel hbinding h) fun hn => absurd hpos hn
  · rw [binding_passes (Int.le_trans (hnonneg p hp) hbinding)] at hpass
    cases hpass

omit hcall in
/-- Looking whether an operator follows that the level allows. -/
theorem loop_abreast (hp : p ∈ levels) {state : Int} (hstate : covers state none = true) {arms : Int → Act β} (hi : ∀ n, Indelible (arms n))
    (harms : ∀ n : Int, n = (if binding (o.type k) ≥ p then 1 else 2) → Abreast (Within o k form invoking cs fs (p :: ps)) (arms n) R) :
    Abreast (Within o k form invoking cs fs (p :: ps)) (setState state >>= fun _ => sync >>= fun _ => choose 12 >>= arms) R := by
  refine decide_abreast (List.contains_iff_mem.mp (Bool.and_eq_true_iff.mp hstate).1) hi (choose_abreast loop_surveyed rfl)
    (fun n hn => harms n ?_) fun hpass => ?_
  · rw [loop_verdict hp] at hn
    exact (Option.some.inj hn).symm
  · obtain ⟨_, h, -⟩ := covers_stops hstate hpass
    cases h

/-- The loop over the operators goes on as long as the level allows the next one. -/
theorem runTails_abreast (hp : p ∈ levels) (fuel : Nat) {k : Nat} {form : Form} {cs : List Tree} (h : Climbed o k₀ k p form cs) {alt : Int}
    (halt : alt = if binding (o.type k) ≥ p then 1 else 2) :
    Abreast (Within o k form invoking cs fs (p :: ps)) (runTails call invoking 139 12 135 11 (body .expr).tails fuel alt) fun _ s =>
      ∃ k', binding (o.type k') < p ∧ Climbing o k₀ k' invoking p fs (p :: ps) s := by
  induction fuel generalizing k form cs alt with
  | zero => exact exhausted_abreast
  | succ fuel ih =>
    have hi := fun n => runTails_indelible (I := Marred) hcall.indelible invoking 139 12 135 11 (body .expr).tails fuel n
    by_cases hbinding : binding (o.type k) ≥ p
    · rw [if_pos hbinding] at halt
      subst halt
      refine .bind (runOperator_abreast hcall hp hbinding h) fun _ => .cases ?_ ?_
      · exact .bind (setState_indelible _) fun _ => .bind sync_indelible fun _ => .bind (choose_indelible _) hi
      · rintro s ⟨k', form, cs, h, hs⟩
        exact ⟨_, hs, loop_abreast hp (RulesWatched.loop rulesWatched).2 hi fun n hn => ih h hn⟩
    · rw [if_neg hbinding] at halt
      subst halt
      exact .pure fun s hs => ⟨k, by omega, form, cs, h, hs⟩

/-! ## Bodies -/

/-- What a rule builds at a level from the tokens from place `k` to place `k'`. -/
structure Phrased (o : Tape) (rule : Rule) (p : Int) (k k' : Nat) (tree : Tree) : Prop where
  built : Built rule p tree
  spells : o.Spells k tree.leaves k'
  ends : rule = .expr → binding (o.type k') < p
  idle : rule ∈ idleRules → o.type k ∉ bodyFirst → k' = k

/-- The innermost phrase is what a rule builds from place `k` on; it is not left yet. -/
def Finished (o : Tape) (k : Nat) (rule : Rule) (p invoking : Int) (fs : List Frame) (ps : List Int) (s : Session) : Prop :=
  ∃ k' form cs, (∀ l : Label, l.form = form → Phrased o rule p k k' (.node l cs)) ∧ Within o k' form invoking cs fs ps s

theorem runSequence_abreast {rule : Rule} {steps : List Step} (hbody : body rule = .sequence steps) :
    Abreast (Within o k (Form.ofRule rule) invoking [] fs ps) (runSteps call steps) fun _ => Finished o k rule p invoking fs ps := by
  obtain ⟨hw, hidle⟩ := RulesWatched.sequences rulesWatched rule (by cases rule <;> decide) steps (hbody ▸ .head _)
  refine (runSteps_abreast hcall hw).imp (fun _ => id) ?_
  rintro _ s ⟨k', bs, hbs, hs⟩
  refine ⟨k', _, bs, fun l hl => ⟨built_sequence hbody hl hbs.fits p, hbs.spells, ?_, fun hrule => hbs.idle (hidle hrule)⟩, hs⟩
  rintro rfl
  cases hbody

theorem runStatement_abreast (hps : ∃ q, ps.head? = some q) (hp : p ≤ 9) : Abreast (Within o k .statement invoking [] fs ps)
    (runChoice call 110 9 (body .statement).alternatives) fun _ => Finished o k .statement p invoking fs ps := by
  obtain ⟨q, hq⟩ := hps
  refine (runChoice_abreast hcall .statement (by decide) (choose_abreast statement_surveyed hq) (fun n hn => ?_)
    fun hpass n hn => ?_).imp (fun _ => id) ?_
  · rw [statement_verdict] at hn
    split_ifs at hn <;> cases hn <;> decide
  · rw [statement_verdict] at hn
    have hmem : o.type k ∈ statementFirst := by
      split_ifs at hn <;> simp_all [statementFirst]
    rw [RulesWatched.statement rulesWatched _ hmem] at hpass
    cases hpass
  · rintro _ s ⟨a, ha, k', bs, hbs, hs⟩
    exact ⟨k', a.form, bs, fun l hl => ⟨built_alternative ha hl hbs.fits hp, hbs.spells, nofun, nofun⟩, hs⟩

theorem runOperand_abreast (hps : ∃ q, ps.head? = some q) (hp : p ≤ 9) : Abreast (Within o k .expr invoking [] fs ps)
    (runChoice call 124 10 (body .expr).alternatives) fun _ s => ∃ k', Climbing o k k' invoking p fs ps s := by
  obtain ⟨q, hq⟩ := hps
  refine (runChoice_abreast hcall .expr (by decide) (choose_abreast operand_surveyed hq) (fun n hn => ?_)
    fun hpass n hn => ?_).imp (fun _ => id) ?_
  · rw [operand_verdict] at hn
    split_ifs at hn <;> cases hn <;> decide
  · rw [operand_verdict] at hn
    have hmem : o.type k ∈ exprFirst := by
      simp only [exprFirst, List.mem_cons]
      split_ifs at hn <;> grind
    rw [RulesWatched.operand rulesWatched _ hmem] at hpass
    cases hpass
  · rintro _ s ⟨a, ha, k', bs, hbs, hs⟩
    refine ⟨k', a.form, bs, ⟨fun l hl => built_alternative ha hl hbs.fits hp, ?_, hbs.spells⟩, hs⟩
    rw [(alternative_shape ha).2.1]
    unfold binding
    split_ifs <;> decide

theorem runExpr_abreast (hp : p ∈ levels) : Abreast (Within o k .expr invoking [] fs (p :: ps)) (runBody call invoking (body .expr)) fun _ =>
    Finished o k .expr p invoking fs (p :: ps) := by
  have hle : ∀ p ∈ levels, p ≤ 9 := by decide
  have hi (alt : Int) : Indelible (tokenFuel >>= fun n => runTails call invoking 139 12 135 11 (body .expr).tails (2 * n) alt) :=
    .bind tokenFuel_indelible fun n => runTails_indelible hcall.indelible invoking 139 12 135 11 (body .expr).tails (2 * n) alt
  refine .bind (runOperand_abreast hcall ⟨p, rfl⟩ (hle p hp)) fun _ => .cases ?_ ?_
  · exact .bind previousToken_indelible fun _ => .bind (modifyLabel_indelible _) fun _ => .bind (setState_indelible _) fun _ =>
      .bind sync_indelible fun _ => .bind (choose_indelible _) hi
  · rintro s ⟨k', form, cs, h, hs⟩
    refine ⟨_, hs, .bind previousToken_abreast fun back => .bind (modifyLabel_abreast fun _ => ⟨rfl, rfl⟩) fun _ =>
      loop_abreast hp (RulesWatched.loop rulesWatched).1 hi fun alt halt => .bind tokenFuel_abreast fun n => ?_⟩
    refine (runTails_abreast hcall hp (2 * n) h halt).imp (fun _ => id) ?_
    rintro _ s ⟨k'', hend, form, cs, h, hs⟩
    exact ⟨k'', form, cs, fun l hl => ⟨h.built l hl, h.spells, fun _ => hend, fun hidle => absurd hidle (by decide)⟩, hs⟩

theorem runBody_abreast {rule : Rule} (hp : p ∈ levels) (hps : ∃ q, ps.head? = some q) :
    Abreast (Within o k (Form.ofRule rule) invoking [] fs (levelsIn rule p ps)) (runBody call invoking (body rule)) fun _ =>
      Finished o k rule p invoking fs (levelsIn rule p ps) := by
  have hle : ∀ p ∈ levels, p ≤ 9 := by decide
  cases rule with
  | statement => exact runStatement_abreast hcall hps (hle p hp)
  | expr => exact runExpr_abreast hcall hp
  | _ => exact runSequence_abreast hcall rfl

end Call

/-! ## Leaving -/

theorem announceExit_sane : Sane announceExit := by
  refine announce_sane fun w => .bind top_sane fun f => ?_
  cases w
  · exact .bind (.ite (note_sane _) (.pure _)) fun _ => note_sane _
  · exact .bind (tracedName_sane _) fun _ => .bind currentToken_sane fun _ => .bind (lift_sane (.unless _ trivial)) fun _ => print_sane _

theorem attach_sane (tree : Tree) : Sane (attach tree) := .bind .get fun _ => .ite (modifyTop_sane _) (.pure _)

theorem leavePhrase_sane (rule : Rule) : Sane (leavePhrase rule) :=
  .bind (.ite (.modify fun _ h => h) (.pure _)) fun _ => .bind top_sane fun _ => .bind previousToken_sane fun _ =>
    .bind (modifyLabel_sane _) fun _ => .bind announceExit_sane fun _ => .bind top_sane fun _ =>
    .bind (.ite (.pure _) (.modify fun _ h => h)) fun _ => .bind (.modify fun _ h => h) fun _ => .bind (attach_sane _) fun _ => .pure _

/-- What a rule has done once it is left. -/
def Returned (o : Tape) (k : Nat) (rule : Rule) (p : Int) (fs : List Frame) (ps : List Int) (tree : Tree) (s : Session) : Prop :=
  ∃ k', Phrased o rule p k k' tree ∧ At o k' (withChild tree fs) ps s

theorem leavePhrase_abreast (rule : Rule) (hps : ∃ q ∈ levels, ps.head? = some q) :
    Abreast (Finished o k rule p invoking fs (levelsIn rule p ps)) (leavePhrase rule) (Returned o k rule p fs ps) := by
  refine .cases (leavePhrase_indelible rule) ?_
  rintro s ⟨k', form, cs, hphrased, hs⟩
  refine ⟨_, hs, .of_goes (leavePhrase_indelible rule) (leavePhrase_impartial rule) ((leavePhrase_goes rule hps).imp (fun _ => id) ?_)⟩
  rintro _ s' ⟨⟨l, hl, rfl⟩, hs'⟩
  exact ⟨k', hphrased l hl, hs'⟩

/-- After a failure that no rule recovers from, the phrase is left and the failure goes on. -/
theorem leavePhrase_throw {f : Fault} (rule : Rule) (h : s.Marred ∨ Fatal f s) {Q : Tree → Session → Prop} :
    Run.Ends (do let _ ← leavePhrase rule; throw f) s Q Alarm := by
  rcases h with h | h
  · exact ((leavePhrase_indelible rule s h).imp (fun _ _ h => h) fun _ _ => .inl).bind fun _ s' h => .inl h
  · exact ((leavePhrase_sane rule s h.2).imp (fun _ _ h => h) fun _ _ h => h.alarm).bind fun _ s' hs' => Fatal.alarm ⟨h.1, hs'⟩

theorem guarded_ok {body : Act Unit} {s s' : Session} (h : body.outcome s = (.ok (), s')) : (guarded body).outcome s = (.ok (), s') := by
  rw [guarded, Run.outcome_bind_ok (Run.outcome_attempt body s), h]
  rfl

/-- A session that bails recovers from nothing. -/
theorem guarded_fails {body : Act Unit} (hbody : Lasts (·.bail = true) body) {b b' : Session} {f : Fault} (hbail : b.bail = true)
    (h : body.outcome b = (.error f, b')) : ∃ f s', (guarded body).outcome b = (.error f, s') := by
  have hbail' : b'.bail = true := (hbody b hbail).error h
  refine fails_of_ends (.after (Run.outcome_attempt body b) ?_)
  rw [h]
  cases f with
  | recognition r =>
    refine ((modifyLabel_indelible (I := (·.bail = true)) _ b' hbail').imp (fun _ _ h => h) fun _ _ _ => trivial).bind fun _ s hs => ?_
    refine ((reportFailure_indelible (I := (·.bail = true)) r s hs).imp (fun _ _ h => h) fun _ _ _ => trivial).bind fun _ s hs => ?_
    refine .after_get ?_
    rw [if_pos hs]
    exact (cancel_bails r s).bind fun _ _ => False.elim
  | _ => trivial

/-! ## Rules -/

theorem leave_abreast {body : Act Unit} {rule : Rule} (hi : ∀ {I : Session → Prop} [Lasting I], Lasts I body)
    (hps : ∃ q ∈ levels, ps.head? = some q) {P : Session → Prop}
    (hbody : Abreast P body fun _ => Finished o k rule p invoking fs (levelsIn rule p ps)) : Abreast P (do
      match ← (guarded body).attempt with
      | .ok _ => leavePhrase rule
      | .error f =>
        let _ ← leavePhrase rule
        throw f) (Returned o k rule p fs ps) := by
  refine ⟨.bind (.attempt (guarded_indelible hi)) fun result => ?_, fun d b hd hb => ?_⟩
  · split
    · exact leavePhrase_indelible rule
    · exact .bind (leavePhrase_indelible rule) fun _ => throw_indelible _
  · rcases hbody.both d b hd hb with ⟨_, d', b', hdo, hbo, hfinished, hb'⟩ | ⟨⟨f, b', hbo⟩, hends⟩
    · have h := (leavePhrase_abreast rule hps).both d' b' hfinished hb'
      unfold Run.Ends at h ⊢
      rw [Run.outcome_bind_ok (Run.outcome_attempt _ _), Run.outcome_bind_ok (Run.outcome_attempt _ _), guarded_ok hdo, guarded_ok hbo]
      exact h
    · have hbail : b.bail = true := by
        obtain ⟨-, _, _, rfl⟩ := hb
        rfl
      obtain ⟨g, b'', hg⟩ := guarded_fails hi hbail hbo
      have hguarded := guarded_ends (Q := fun _ _ => False) (hends.imp (fun _ _ => .inl) fun _ _ => id)
      refine .inr ⟨fails_of_ends (.after (Run.outcome_attempt _ _) ?_), .after (Run.outcome_attempt _ _) ?_⟩
      · rw [hg]
        exact (Run.Ends.trivial (leavePhrase rule) b'').bind fun _ _ _ => trivial
      · rcases hout : (guarded body).outcome d with ⟨f' | _, d'⟩
        · exact leavePhrase_throw rule (hguarded.error hout)
        · exact (leavePhrase_indelible rule d' ((hguarded.ok hout).resolve_right id)).imp (fun _ _ => id) fun _ _ => .inl

theorem Poised.legible (h : Poised o k fs ps s) : s.stream.Legible := by
  rcases h.standing with ⟨t, ht⟩ | ⟨-, -, hreading⟩
  · exact ht.reading.legible
  · exact hreading.legible

/-- A rule that is called adds what it builds to the phrase around it. -/
theorem callAbreast_of_rule {fuel : Nat}
    (h : ∀ rule, ∀ p ∈ levels, ∀ k fs ps, Abreast (Poised o k fs ps) (runRule fuel rule p) (Returned o k rule p fs ps)) :
    CallAbreast o fun r q => (do let _ ← runRule fuel r q) := by
  have hi : ∀ r q, Indelible (do let _ ← runRule fuel r q) := fun r q => .bind (runRule_indelible fuel r q) fun _ => .pure _
  refine ⟨hi, fun state r q hq k form invoking cs fs ps => .within (hi r q) fun label hform hinvoking => ?_⟩
  refine .bind ((h r q hq k _ ps).imp (fun _ hs => hs.poised) fun _ _ => id) fun tree => .pure ?_
  rintro s ⟨k', hphrased, hs⟩
  rw [withChild, addChild_toArray] at hs
  refine ⟨k', [tree], ⟨.phrase hphrased.built, ?_, fun state' p' heq => ?_, fun hidle => hphrased.idle (List.contains_iff_mem.mp hidle)⟩,
    hs.within hform hinvoking⟩
  · rw [Tree.leavesOf_singleton]
    exact hphrased.spells
  · cases heq
    exact hphrased.ends rfl

/-- A rule builds what it should from the tokens it moves over, and a session that bails builds the same; or a complaint is made. -/
theorem runRule_abreast (fuel : Nat) (rule : Rule) (hp : p ∈ levels) (k : Nat) (fs : List Frame) (ps : List Int) :
    Abreast (Poised o k fs ps) (runRule fuel rule p) (Returned o k rule p fs ps) := by
  induction fuel generalizing rule p k fs ps with
  | zero => exact .of_refused (throw_indelible _) exhausted_refused fun s hs => .inr ⟨hs.legible, .inl trivial⟩
  | succ fuel ih =>
    have hcall := callAbreast_of_rule fun rule p hp => ih rule hp
    have hi {I : Session → Prop} [Lasting I] (r : Rule) (q : Int) : Lasts I (do let _ ← runRule fuel r q) :=
      .bind (runRule_indelible fuel r q) fun _ => .pure _
    refine .cases (runRule_indelible _ _ _) fun s hs => ?_
    have hps : ∃ q ∈ levels, ps.head? = some q := hs.precedences ▸ hs.calm.trained.level
    refine ⟨fun d => Poised o k fs ps d ∧ d.state = s.state, ⟨hs, rfl⟩,
      .get (runRule_indelible (fuel + 1) rule p) (fun d hd => ?_) fun _ _ _ => rfl⟩
    rw [hd.2]
    refine .bind (.of_goes (enterPhrase_indelible rule p) (enterPhrase_impartial rule p) (enterPhrase_goes rule hp)) fun _ => ?_
    exact leave_abreast (runBody_indelible hi _ _) hps (runBody_abreast hcall hp (hps.imp fun _ => And.right))

theorem parse_abreast (rule : Rule) (hp : p ∈ levels) (k : Nat) (fs : List Frame) (ps : List Int) :
    Abreast (Poised o k fs ps) (parse rule p) (Returned o k rule p fs ps) :=
  .bind (.of_ends (Q := fun _ => Poised o k fs ps) tokenFuel_indelible tokenFuel_impartial fun _ hs => hs) fun _ =>
    runRule_abreast _ rule hp k fs ps

end Session

end NimbleLang
