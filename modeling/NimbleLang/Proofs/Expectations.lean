import NimbleLang.Proofs.Prospects

/-!
Two ways to ask what can come next. `Session.expectedTokens` gathers one set: it climbs the rules under way as long as the rule
may end, and joins what follows each call. `Session.isExpected` climbs the same rules and looks for one token type in each set
on the way, so it may stop before the other does. Both ask the memory for the same sets in the same order, and where the first
goes on after the second has stopped it only adds; so they always agree (`Session.isExpected_iff_expected`).

The sets that come from a memory are in order (`Memory.Tidy`), which is what makes joining and deleting them what they should
be.
-/

namespace NimbleLang

namespace Lookahead

variable {net : Network} {m : Memory} {n : Nat} {P : Int → Prop}

/-- The set of a state can always be had. -/
theorem next_answers (hnet : Closed net) (hedges : Legible P net) (hε : ¬ P Token.epsilon) (hm : m.Tidy P)
    (hn : n < net.states.size) : ∃ set m', next net m n = .ok (set, m') ∧ set.Tidy P ∧ m'.Tidy P := by
  have hnext : ∃ q, next net m n = .ok q := by
    unfold next
    split
    · exact ⟨_, rfl⟩
    · have hreturns : Returns net none [] := rfl
      obtain ⟨found, -, hlook⟩ := look_answers hnet (fun n e he => (hedges n e he).imp fun _ h => h.1) hn hreturns
      rw [hlook]
      exact ⟨_, rfl⟩
  obtain ⟨⟨set, m'⟩, hnext⟩ := hnext
  obtain ⟨hgrows, hknown, -⟩ := next_grows hnext
  have hm' := hm.history hedges hε hgrows.history
  exact ⟨set, m', hnext, hknown.tidy hedges hm', hm'⟩

/-- A rule was called from a state that is left by a call, or by nobody. -/
def Called (net : Network) (c : Caller) : Prop :=
  ∃ i : Int, c.invoking = some i ∧ (0 ≤ i → ∃ t r p f more, net.edgesOf i.toNat = .call t r p f :: more)

theorem Called.cases (hnet : Closed net) {c : Caller} (h : Called net c) :
    ∃ i : Int, c.invoking = some i ∧ (i < 0 ∨ 0 ≤ i ∧ ∃ f, Callers.followOf net i = .ok f ∧ f < net.states.size) := by
  obtain ⟨i, hinvoking, hcall⟩ := h
  refine ⟨i, hinvoking, ?_⟩
  by_cases hi : i < 0
  · exact .inl hi
  · have hi : 0 ≤ i := by omega
    obtain ⟨t, r, p, f, more, hedges⟩ := hcall hi
    refine .inr ⟨hi, f, ?_, hnet.follow _ t r p f (hedges ▸ List.mem_cons_self)⟩
    have := followOf_call hedges
    rwa [Int.toNat_of_nonneg hi] at this

end Lookahead

namespace Session

open Lookahead

/-- A session over a network that is closed and written as one does it, at one of its states. The rules under way were called
from its states, and what is remembered was found there. -/
structure Oriented (s : Session) : Prop where
  closed : Closed s.net
  written : Written s.net
  memory : Memory.History s.net (.ofNetwork s.net) s.lookahead
  here : 0 ≤ s.state ∧ s.state < s.net.states.size
  called : ∀ c ∈ s.underWay, Called s.net c

variable {s : Session} {symbol : Int}

theorem nextTokens_eq {n : Nat} {set : IntervalSet} {m : Memory} (h : next s.net s.lookahead n = .ok (set, m)) :
    (nextTokens n).outcome s = (.ok set, { s with lookahead := m }) := remembering_eq h

theorem stateHere_eq (h : 0 ≤ s.state ∧ s.state < s.net.states.size) : stateHere.outcome s = (.ok s.state.toNat, s) := by
  have hwrap : Indexing.wrap? s.net.states.size s.state = some s.state.toNat := by
    unfold Indexing.wrap?
    rw [if_pos h.1, if_pos (by omega)]
  rw [stateHere, Run.outcome_get_bind, hwrap]
  rfl

section Climb

variable {c : Caller} {rest : Callers} {wanted following set : IntervalSet} {i : Int} {f : Nat} {m : Memory}
  (hfollowing : following.contains Token.epsilon = true) (hi : 0 ≤ i) (hinvoking : c.invoking = some i)
  (hfollow : Callers.followOf s.net i = .ok f) (hnext : next s.net s.lookahead f = .ok (set, m))

include hfollowing hi hinvoking hfollow hnext

/-- One rule up, the tokens that follow its call are gathered. -/
theorem expectedLoop_up : expectedLoop s.net (c :: rest) wanted following s.lookahead =
    expectedLoop s.net rest ((wanted.addSet set).removeOne Token.epsilon) set m := by
  conv_lhs => unfold expectedLoop
  simp only [hfollowing, Bool.not_true, Bool.false_eq_true, if_false, hinvoking, Fault.unless, bind, Except.bind,
    if_neg (Int.not_lt.mpr hi), hfollow, hnext]

/-- One rule up, the symbol is looked for among the tokens that follow its call. -/
theorem expectedUp_up : (expectedUp symbol (c :: rest) following).outcome s =
    if set.contains symbol then (.ok true, { s with lookahead := m })
    else (expectedUp symbol rest set).outcome { s with lookahead := m } := by
  conv_lhs => unfold expectedUp
  simp only [hinvoking, hfollowing, Bool.not_true, Bool.or_false, decide_eq_true_eq, if_neg (Int.not_lt.mpr hi)]
  rw [Run.outcome_get_bind, hfollow, Run.outcome_bind_ok (Run.outcome_lift _ s),
    Run.outcome_bind_ok (nextTokens_eq hnext)]
  split <;> rfl

end Climb

/-- Both climbs side by side, after some tokens were gathered: the climb that gathers ends with the symbol among the tokens if it
was there already or the other climb finds it. -/
theorem climbs_agree (hnet : Closed s.net) (hwritten : Written s.net) (hsymbol : symbol ≠ Token.epsilon) {cs : Callers}
    (hcs : ∀ c ∈ cs, Called s.net c) {wanted : IntervalSet} (hwanted : wanted.Tidy (0 < ·))
    (following : IntervalSet) (hm : s.lookahead.Tidy (0 < ·)) :
    ∃ set atEnd m b s', expectedLoop s.net cs wanted following s.lookahead = .ok (set, atEnd, m) ∧
      (expectedUp symbol cs following).outcome s = (.ok b, s') ∧ set.Tidy (0 < ·) ∧
      (set.contains symbol = true ∨ atEnd = true ∧ symbol = Token.eof ↔ wanted.contains symbol = true ∨ b = true) := by
  have hε : ¬ (0 : Int) < Token.epsilon := by decide
  induction cs generalizing wanted following s with
  | nil => exact ⟨_, _, _, _, _, rfl, rfl, hwanted, by simp⟩
  | cons c rest ih =>
    simp only [List.forall_mem_cons] at hcs
    obtain ⟨i, hinvoking, hi⟩ := hcs.1.cases hnet
    by_cases hfollowing : following.contains Token.epsilon = true
    · rcases hi with hi | ⟨hi, f, hfollow, hf⟩
      · -- the outermost rule may end here
        refine ⟨wanted, true, s.lookahead, symbol == Token.eof, s, ?_, ?_, hwanted, by simp⟩
        · simp [expectedLoop, hinvoking, hfollowing, hi, Fault.unless, bind, Except.bind, pure, Except.pure]
        · simp [expectedUp, hinvoking, hfollowing, hi]
      · obtain ⟨set, m, hnext, hset, hm'⟩ := next_answers hnet hwritten.legible hε hm hf
        have hjoined := IntervalSet.addSet_tidy hwanted hset.upright
        have hcontains : ((wanted.addSet set).removeOne Token.epsilon).contains symbol = true ↔
            wanted.contains symbol = true ∨ set.contains symbol = true := by
          rw [IntervalSet.contains_removeOne hε hjoined, IntervalSet.contains_addSet hwanted hset.upright,
            and_iff_left hsymbol]
        obtain ⟨all, atEnd, m', b, s', hloop, hup, hall, hiff⟩ := ih (s := { s with lookahead := m }) hnet hwritten hcs.2
          (IntervalSet.removeOne_tidy hε hjoined) set hm'
        rw [hcontains, or_assoc] at hiff
        rw [expectedLoop_up hfollowing hi hinvoking hfollow hnext, expectedUp_up hfollowing hi hinvoking hfollow hnext]
        -- the climb that looks for the symbol stops as soon as it is found, and then it is among the tokens for good
        by_cases hfound : set.contains symbol = true
        · refine ⟨all, atEnd, m', true, _, hloop, if_pos hfound, hall, ?_⟩
          simpa [hfound] using hiff
        · refine ⟨all, atEnd, m', b, s', hloop, (if_neg hfound).trans hup, hall, ?_⟩
          simpa [hfound] using hiff
    · -- the rule cannot end, so its callers do not count
      refine ⟨wanted, false, s.lookahead, false, s, ?_, ?_, hwanted, by simp⟩
      · simp [expectedLoop, hfollowing, pure, Except.pure]
      · simp [expectedUp, hinvoking, hfollowing]

theorem expectedTokens_eq {set : IntervalSet} {own : Bool} {m : Memory}
    (h : Lookahead.expected s.net s.lookahead s.state s.underWay = .ok (set, own, m)) :
    expectedTokens.outcome s = (.ok (set, own), { s with lookahead := m }) := by
  rw [expectedTokens, Run.outcome_get_bind]
  apply remembering_eq
  rw [h]
  rfl

section Here

variable {following : IntervalSet} {m : Memory} (hhere : 0 ≤ s.state ∧ s.state < s.net.states.size)
  (hnext : next s.net s.lookahead s.state.toNat = .ok (following, m))

include hhere hnext

theorem expected_own (hend : following.contains Token.epsilon = false) :
    Lookahead.expected s.net s.lookahead s.state s.underWay = .ok (following, true, m) := by
  have hstate : ¬ (s.state < 0 ∨ s.state ≥ s.net.states.size) := by omega
  unfold Lookahead.expected
  simp only [Bool.or_eq_true, decide_eq_true_eq, if_neg hstate, hnext, bind, Except.bind, hend, Bool.not_false, if_true]
  rfl

theorem expected_climbs (hend : following.contains Token.epsilon = true) {set : IntervalSet} {atEnd : Bool} {m' : Memory}
    (hloop : expectedLoop s.net s.underWay ((IntervalSet.empty.addSet following).removeOne Token.epsilon) following m =
      .ok (set, atEnd, m')) :
    Lookahead.expected s.net s.lookahead s.state s.underWay = .ok (if atEnd then set.addOne Token.eof else set, false, m') := by
  have hstate : ¬ (s.state < 0 ∨ s.state ≥ s.net.states.size) := by omega
  unfold Lookahead.expected
  simp only [Bool.or_eq_true, decide_eq_true_eq, if_neg hstate, hnext, bind, Except.bind, hend, Bool.not_true, Bool.false_eq_true,
    if_false, hloop]
  rfl

theorem isExpected_here : (isExpected symbol).outcome s =
    if following.contains symbol then (.ok true, { s with lookahead := m })
    else if following.contains Token.epsilon then (expectedUp symbol s.underWay following).outcome { s with lookahead := m }
    else (.ok false, { s with lookahead := m }) := by
  rw [isExpected, Run.outcome_bind_ok (stateHere_eq hhere), Run.outcome_bind_ok (nextTokens_eq hnext)]
  cases hsymbol : following.contains symbol with
  | true => rfl
  | false =>
    cases hε : following.contains Token.epsilon with
    | true => rfl
    | false => rfl

end Here

/-- A session behind the last expression of a program, which a statement of the main program prints. -/
def behindPrint : Session :=
  { ofStream Grammar.States.network (scannedBy (Grammar.LexerStates.network .skip) (.ofString "print 1")) with
    state := 125
    frames := [⟨{ form := .expr, invoking := 104 }, #[]⟩, ⟨{ form := .print, invoking := 68 }, #[]⟩,
      ⟨{ form := .block, invoking := 60 }, #[]⟩, ⟨{ form := .body, invoking := 57 }, #[]⟩,
      ⟨{ form := .main, invoking := 28 }, #[]⟩, ⟨{ form := .script }, #[]⟩] }

set_option maxRecDepth 4000 in
theorem behindPrint_oriented : behindPrint.Oriented where
  closed := Forward.closed network_forward
  written := Forward.written network_forward
  memory := .refl
  here := by decide
  called := by
    intro c hc
    simp only [underWay, behindPrint, List.map_cons, List.map_nil, List.mem_cons, List.not_mem_nil, or_false] at hc
    rcases hc with rfl | rfl | rfl | rfl | rfl | rfl
    · exact ⟨104, rfl, fun _ => ⟨18, 9, 0, 111, [], by decide⟩⟩
    · exact ⟨68, rfl, fun _ => ⟨16, 8, 0, 70, [], by decide⟩⟩
    · exact ⟨60, rfl, fun _ => ⟨12, 6, 0, 61, [], by decide⟩⟩
    · exact ⟨57, rfl, fun _ => ⟨8, 4, 0, 58, [], by decide⟩⟩
    · exact ⟨28, rfl, fun _ => ⟨6, 3, 0, 29, [], by decide⟩⟩
    · exact ⟨-1, rfl, fun h => absurd h (by decide)⟩

/-- A token type is expected exactly if it is among the expected tokens. Both questions always have an answer. -/
theorem isExpected_iff_expected (s : Session) (h : s.Oriented) (symbol : Int) (hsymbol : symbol ≠ Token.epsilon) :
    ∃ answer s₁ set own s₂, (isExpected symbol).outcome s = (.ok answer, s₁) ∧
      expectedTokens.outcome s = (.ok (set, own), s₂) ∧ (answer = true ↔ set.contains symbol = true) := by
  have hε : ¬ (0 : Int) < Token.epsilon := by decide
  have hm : s.lookahead.Tidy (0 < ·) := (Memory.tidy_ofNetwork s.net).history h.written.legible hε h.memory
  obtain ⟨following, m, hnext, hfollowing, hm'⟩ := next_answers h.closed h.written.legible hε hm (n := s.state.toNat)
    (by have := h.here; omega)
  rw [isExpected_here h.here hnext]
  by_cases hend : following.contains Token.epsilon = true
  · have hempty : IntervalSet.empty.Tidy (0 < ·) := IntervalSet.tidy_empty
    have hstart := IntervalSet.addSet_tidy hempty hfollowing.upright
    have hcontains : ((IntervalSet.empty.addSet following).removeOne Token.epsilon).contains symbol = true ↔
        following.contains symbol = true := by
      rw [IntervalSet.contains_removeOne hε hstart, IntervalSet.contains_addSet hempty hfollowing.upright, and_iff_left hsymbol]
      exact or_iff_right Bool.false_ne_true
    obtain ⟨set, atEnd, m', b, s', hloop, hup, hset, hiff⟩ := climbs_agree (s := { s with lookahead := m }) h.closed h.written
      hsymbol h.called (IntervalSet.removeOne_tidy hε hstart) following hm'
    have hwhole : (if atEnd then set.addOne Token.eof else set).contains symbol = true ↔
        following.contains symbol = true ∨ b = true := by
      rw [← hcontains, ← hiff]
      cases atEnd with
      | true => simp [IntervalSet.contains_addOne hset]
      | false => simp
    have htokens := expectedTokens_eq (expected_climbs h.here hnext hend hloop)
    rw [if_pos hend]
    by_cases hfound : following.contains symbol = true
    · exact ⟨true, _, _, _, _, if_pos hfound, htokens, by simp [hwhole, hfound]⟩
    · exact ⟨b, s', _, _, _, (if_neg hfound).trans hup, htokens, by simp [hwhole, hfound]⟩
  · rw [if_neg hend]
    have htokens := expectedTokens_eq (expected_own h.here hnext (Bool.not_eq_true _ ▸ hend))
    by_cases hfound : following.contains symbol = true
    · exact ⟨true, _, _, _, _, if_pos hfound, htokens, by simp [hfound]⟩
    · exact ⟨false, _, _, _, _, if_neg hfound, htokens, by simp [hfound]⟩

/-- The end of the input can come there, five rules up. -/
theorem isExpected_iff_expected_behindPrint : ((isExpected Token.eof).outcome behindPrint).1 = .ok true ∧
    ∃ answer s₁ set own s₂, (isExpected Token.eof).outcome behindPrint = (.ok answer, s₁) ∧
      expectedTokens.outcome behindPrint = (.ok (set, own), s₂) ∧ (answer = true ↔ set.contains Token.eof = true) :=
  ⟨by decide +kernel, isExpected_iff_expected behindPrint behindPrint_oriented Token.eof (by decide)⟩

end Session

end NimbleLang
