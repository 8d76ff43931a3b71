import Mathlib.Data.Finset.Prod
import Mathlib.Data.List.Infix
import NimbleLang.Proofs.Lookaheads

/-!
Looking ahead comes to an end. A look goes from place to place, a state with the states that rules under way return to, and
never twice to the same place (`Found.seen`). It does not enter a rule that it has entered and not left; so it never puts more
return states on top of those it began with than there are rules, and there are only so many places it can come to (`reach`,
`card_reach`). The bound that `look` takes is larger than that, so a look in a network whose edges lead to its states always has
an answer (`look_answers`).
-/

namespace NimbleLang

/-- The states that an edge names. -/
def Edge.names : Edge → List Nat
  | .call target _ _ follow => [target, follow]
  | e => [e.target]

namespace Lookahead

open Fault

variable {net : Network}

/-- Every edge leads to a state, and a rule that was called returns to one. No state has the number that stands for the bottom of
the stack. -/
structure Closed (net : Network) : Prop where
  target : ∀ n, ∀ e ∈ net.edgesOf n, e.target < net.states.size
  follow : ∀ n t r p f, .call t r p f ∈ net.edgesOf n → f < net.states.size
  room : (net.states.size : Int) ≤ bottomReturn

theorem lt_of_mem_edgesOf {n : Nat} {e : Edge} (he : e ∈ net.edgesOf n) : n < net.states.size := by
  by_contra hn
  rw [Network.edgesOf, Network.state, Array.getD_eq_getD_getElem?, Array.getElem?_eq_none (by omega)] at he
  cases he

theorem Closed.of_names (h : ∀ n < net.states.size, ∀ e ∈ net.edgesOf n, ∀ k ∈ e.names, k < net.states.size)
    (hroom : (net.states.size : Int) ≤ bottomReturn) : Closed net := by
  refine ⟨?_, ?_, hroom⟩
  · intro n e he
    exact h n (lt_of_mem_edgesOf he) e he _ (by cases e <;> simp [Edge.names, Edge.target])
  · intro n t r p f he
    exact h n (lt_of_mem_edgesOf he) _ he f (by simp [Edge.names])

/-! ## Stacks of return states -/

/-- The context with some return states over the bottom, or over what is not known. -/
def stacked (known : Bool) : List Nat → Context Unit
  | [] => if known then .root else .unknown
  | f :: st => .call () (stacked known st) f

/-- What stands for the end of the outermost rule, or of the only one that is known. -/
def endMark (known : Bool) : Int := if known then Token.eof else Token.epsilon

variable {known : Bool} {n f : Nat} {st : List Nat}

theorem atop_stacked (hf : (f : Int) < bottomReturn) : Context.atop () (stacked known st) f = stacked known (f :: st) := by
  cases st with
  | nil =>
    cases known with
    | true => rfl
    | false => exact if_neg (Int.ne_of_lt hf)
  | cons g st => rfl

theorem length_le_depth (known : Bool) (st : List Nat) : st.length ≤ (stacked known st).depth := by
  induction st with
  | nil => exact Nat.zero_le _
  | cons f st ih =>
    simp only [stacked, Context.depth, List.length_cons]
    omega

/-- The states that rules under way return to, the innermost first. Each of them but the outermost was called from a state that
is left by a call. -/
inductive Waiting (net : Network) : Callers → List Nat → Prop
  | outermost (c : Caller) : Waiting net [c] []
  | called {c : Caller} {rest : Callers} {i t f : Nat} {r p : Int} {more : List Edge} {st : List Nat} :
      c.invoking = some (i : Int) → net.edgesOf i = .call t r p f :: more → Waiting net rest st → Waiting net (c :: rest) (f :: st)

theorem followOf_call {i t f : Nat} {r p : Int} {more : List Edge} (hedges : net.edgesOf i = .call t r p f :: more) :
    Callers.followOf net i = .ok f := by
  have hi : i < net.states.size := lt_of_mem_edgesOf (hedges ▸ List.mem_cons_self)
  have hstate : Indexing.arrayAt? net.states i = some (net.state i) := by
    simp [Indexing.arrayAt?, Indexing.wrap?, hi, Network.state, Array.getD_eq_getD_getElem?]
  unfold Callers.followOf
  rw [hstate]
  unfold Network.edgesOf at hedges
  simp only [Fault.unless, hedges, bind, Except.bind]
  rfl

theorem Waiting.context (hnet : Closed net) {cs : Callers} (h : Waiting net cs st) : cs.context net = .ok (stacked true st) := by
  induction h with
  | outermost c => rfl
  | @called c rest i t f r p more st hinvoking hedges hrest ih =>
    have hroom := hnet.room
    have hf : (f : Int) < bottomReturn := by
      have := hnet.follow i t r p f (hedges ▸ List.mem_cons_self)
      omega
    cases rest with
    | nil => cases hrest
    | cons d rest =>
      rw [Callers.context, ih, hinvoking]
      simp only [Fault.unless, followOf_call hedges, bind, Except.bind, atop_stacked hf]
      rfl
      exact List.cons_ne_nil d rest

/-! ## A look from a place -/

variable {fuel : Nat} {rules : List Int} {found found' : Found}

theorem lookFrom_seen (h : (n, stacked known st) ∈ found.seen) :
    lookFrom net none (fuel + 1) n (stacked known st) rules found = .ok found := by
  rw [lookFrom_succ, if_pos (List.contains_iff_mem.mpr h)]

section New

variable (hnew : (n, stacked known st) ∉ found.seen)
include hnew

theorem lookFrom_end (hstop : (net.state n).kind = .ruleStop) (hst : st = []) :
    lookFrom net none (fuel + 1) n (stacked known st) rules found =
      .ok { found.mark n (stacked known st) with set := found.set.addOne (endMark known) } := by
  subst hst
  rw [lookFrom_succ, if_neg (mt List.contains_iff_mem.mp hnew)]
  cases known with
  | false => simp [hstop, stacked, endMark]
  | true => simp [hstop, stacked, endMark, Context.isEmpty]

theorem lookFrom_back {st' : List Nat} (hstop : (net.state n).kind = .ruleStop) (hst : st = f :: st')
    (hf : f < net.states.size) :
    lookFrom net none (fuel + 1) n (stacked known st) rules found =
      lookFrom net none fuel f (stacked known st') (rules.erase (net.state n).rule) (found.mark n (stacked known st)) := by
  subst hst
  have hwrap : Indexing.wrap? net.states.size f = some f := by simp [Indexing.wrap?, hf]
  rw [lookFrom_succ, if_neg (mt List.contains_iff_mem.mp hnew)]
  simp only [hstop, stacked, Context.isEmpty, Context.ways, decide_true, Bool.or_true, Bool.true_and, decide_eq_true_eq,
    reduceCtorEq, Bool.false_eq_true, if_false, if_true, List.foldlM_cons, List.foldlM_nil, bind_pure]
  simp only [retrace, hwrap, Fault.unless, bind, Except.bind]

theorem lookFrom_on (hgo : (net.state n).kind ≠ .ruleStop) :
    lookFrom net none (fuel + 1) n (stacked known st) rules found =
      (net.edgesOf n).foldlM (visit net none fuel (stacked known st) rules) (found.mark n (stacked known st)) := by
  rw [lookFrom_succ, if_neg (mt List.contains_iff_mem.mp hnew)]
  simp [hgo]

end New

theorem visit_call {t : Nat} {r p : Int} (hf : (f : Int) < bottomReturn) :
    visit net none fuel (stacked known st) rules found (.call t r p f) =
      if (net.state t).rule ∈ rules then .ok found
      else lookFrom net none fuel t (stacked known (f :: st)) ((net.state t).rule :: rules) found := by
  rw [visit, atop_stacked hf]
  simp only [List.contains_iff_mem]

/-- A look forgets no place it has seen. -/
theorem lookFrom_grows {ctx : Context Unit} (h : lookFrom net none fuel n ctx rules found = .ok found') :
    ∀ p ∈ found.seen, p ∈ found'.seen := by
  refine lookFrom_keeps (Q := fun f => ∀ p ∈ found.seen, p ∈ f.seen) ?_ ?_ ?_ (fun _ hp => hp) h
  · intro f n ctx hf p hp
    exact List.mem_cons_of_mem _ (hf p hp)
  · intro f x hf
    exact hf
  · intro f n e _ set _ hf
    exact hf

/-! ## The places within reach -/

/-- Stacks that have at most so many return states on top of a part of the given ones. -/
def reach (net : Network) (base : List Nat) : Nat → Finset (List Nat)
  | 0 => base.tails.toFinset
  | k + 1 => reach net base k ∪ (Finset.range net.states.size ×ˢ reach net base k).image fun q => q.1 :: q.2

variable {base : List Nat} {k : Nat}

theorem reach_mono {m : Nat} (h : k ≤ m) : reach net base k ⊆ reach net base m := by
  induction h with
  | refl => exact Finset.Subset.refl _
  | step _ ih => exact ih.trans Finset.subset_union_left

theorem base_mem_reach : base ∈ reach net base 0 := by simp [reach]

theorem cons_mem_reach (hf : f < net.states.size) (hst : st ∈ reach net base k) : f :: st ∈ reach net base (k + 1) := by
  refine Finset.mem_union_right _ (Finset.mem_image.mpr ⟨(f, st), ?_, rfl⟩)
  exact Finset.mem_product.mpr ⟨Finset.mem_range.mpr hf, hst⟩

/-- A return takes one from the top, or goes further down into what was given. -/
theorem tail_mem_reach (h : f :: st ∈ reach net base k) : st ∈ reach net base (k - 1) := by
  induction k with
  | zero =>
    rw [reach, List.mem_toFinset, List.mem_tails] at h
    exact List.mem_toFinset.mpr ((List.mem_tails _ _).mpr ((List.suffix_cons f st).trans h))
  | succ k ih =>
    rcases Finset.mem_union.mp h with h | h
    · exact reach_mono (by omega) (ih h)
    · obtain ⟨⟨g, st'⟩, hmem, heq⟩ := Finset.mem_image.mp h
      cases heq
      exact (Finset.mem_product.mp hmem).2

theorem mem_reach_lt (hbase : ∀ g ∈ base, g < net.states.size) (h : st ∈ reach net base k) : ∀ g ∈ st, g < net.states.size := by
  induction k generalizing st with
  | zero =>
    simp only [reach, List.mem_toFinset, List.mem_tails] at h
    intro g hg
    exact hbase g (h.subset hg)
  | succ k ih =>
    rcases Finset.mem_union.mp h with h | h
    · exact ih h
    · obtain ⟨⟨g, st'⟩, hmem, rfl⟩ := Finset.mem_image.mp h
      obtain ⟨hg, hst'⟩ := Finset.mem_product.mp hmem
      simp only [List.forall_mem_cons]
      exact ⟨Finset.mem_range.mp hg, ih hst'⟩

theorem card_reach (net : Network) (base : List Nat) (k : Nat) :
    (reach net base k).card ≤ (base.length + 1) * (net.states.size + 1) ^ k := by
  induction k with
  | zero =>
    have hcard := List.toFinset_card_le base.tails
    rw [List.length_tails] at hcard
    simpa [reach] using hcard
  | succ k ih =>
    have himage : ((Finset.range net.states.size ×ˢ reach net base k).image fun q => q.1 :: q.2).card ≤
        net.states.size * (reach net base k).card := by
      refine Finset.card_image_le.trans ?_
      rw [Finset.card_product, Finset.card_range]
    calc (reach net base (k + 1)).card
        ≤ (reach net base k).card + net.states.size * (reach net base k).card :=
          (Finset.card_union_le _ _).trans (Nat.add_le_add_left himage _)
      _ = (reach net base k).card * (net.states.size + 1) := by rw [Nat.mul_succ, Nat.mul_comm, Nat.add_comm]
      _ ≤ (base.length + 1) * (net.states.size + 1) ^ k * (net.states.size + 1) := Nat.mul_le_mul_right _ ih
      _ = (base.length + 1) * (net.states.size + 1) ^ (k + 1) := by rw [Nat.pow_succ, Nat.mul_assoc]

/-- Where a look can be, with the rules it has entered. -/
structure Within (net : Network) (base : List Nat) (n : Nat) (st : List Nat) (rules : List Int) : Prop where
  state : n < net.states.size
  stack : st ∈ reach net base rules.length
  once : rules.Nodup
  entered : ∀ r ∈ rules, ∃ m < net.states.size, (net.state m).rule = r

/-- No more rules can be entered than there are states. -/
theorem Within.length_le (h : Within net base n st rules) : rules.length ≤ net.states.size := by
  have hsub : rules.toFinset ⊆ (Finset.range net.states.size).image fun m => (net.state m).rule := by
    intro r hr
    obtain ⟨m, hm, hrule⟩ := h.entered r (List.mem_toFinset.mp hr)
    exact Finset.mem_image.mpr ⟨m, Finset.mem_range.mpr hm, hrule⟩
  calc rules.length
      = rules.toFinset.card := (List.toFinset_card_of_nodup h.once).symm
    _ ≤ ((Finset.range net.states.size).image fun m => (net.state m).rule).card := Finset.card_le_card hsub
    _ ≤ net.states.size := Finset.card_image_le.trans (Finset.card_range _).le

theorem Within.free (hnet : Closed net) (h : Within net base n st rules) {e : Edge} (he : e ∈ net.edgesOf n) :
    Within net base e.target st rules :=
  ⟨hnet.target n e he, h.stack, h.once, h.entered⟩

theorem Within.call (hnet : Closed net) (h : Within net base n st rules) {t : Nat} {r p : Int}
    (he : .call t r p f ∈ net.edgesOf n) (hrule : (net.state t).rule ∉ rules) :
    Within net base t (f :: st) ((net.state t).rule :: rules) := by
  have ht : t < net.states.size := hnet.target n _ he
  refine ⟨ht, cons_mem_reach (hnet.follow n t r p f he) h.stack, List.nodup_cons.mpr ⟨hrule, h.once⟩, ?_⟩
  intro s hs
  rcases List.mem_cons.mp hs with rfl | hs
  · exact ⟨t, ht, rfl⟩
  · exact h.entered s hs

theorem Within.back (hbase : ∀ g ∈ base, g < net.states.size) (h : Within net base n (f :: st) rules) (r : Int) :
    Within net base f st (rules.erase r) := by
  have hlength : rules.length - 1 ≤ (rules.erase r).length := by
    rw [List.length_erase]
    split <;> omega
  refine ⟨mem_reach_lt hbase h.stack f List.mem_cons_self, reach_mono hlength (tail_mem_reach h.stack), h.once.erase r, ?_⟩
  intro s hs
  exact h.entered s (List.mem_of_mem_erase hs)

/-! ## A look has an answer -/

/-- The number of places within reach that a look has not been to. -/
def unseen (net : Network) (known : Bool) (base : List Nat) (found : Found) : Nat :=
  ((Finset.range net.states.size ×ˢ reach net base net.states.size).filter
    fun p => (p.1, stacked known p.2) ∉ found.seen).card

theorem unseen_anti (h : ∀ p ∈ found.seen, p ∈ found'.seen) : unseen net known base found' ≤ unseen net known base found := by
  refine Finset.card_le_card fun p hp => ?_
  simp only [Finset.mem_filter] at hp ⊢
  exact ⟨hp.1, mt (h _) hp.2⟩

theorem unseen_mark (hin : Within net base n st rules) (hnew : (n, stacked known st) ∉ found.seen) :
    unseen net known base (found.mark n (stacked known st)) < unseen net known base found := by
  refine Finset.card_lt_card (Finset.ssubset_iff_of_subset ?_ |>.mpr ⟨(n, st), ?_, ?_⟩)
  · intro p hp
    simp only [Finset.mem_filter, Found.mark, List.mem_cons, not_or] at hp ⊢
    exact ⟨hp.1, hp.2.2⟩
  · refine Finset.mem_filter.mpr ⟨Finset.mem_product.mpr ⟨Finset.mem_range.mpr hin.state, ?_⟩, hnew⟩
    exact reach_mono hin.length_le hin.stack
  · simp [Found.mark]

/-- A fold whose steps all succeed succeeds, as long as they keep what they need. -/
theorem foldlM_ok {α β : Type} {Q : β → Prop} {g : β → α → Except Fault β} {l : List α}
    (h : ∀ b, ∀ a ∈ l, Q b → ∃ b', g b a = .ok b' ∧ Q b') {b : β} (hb : Q b) : ∃ b', l.foldlM g b = .ok b' := by
  induction l generalizing b with
  | nil => exact ⟨b, rfl⟩
  | cons a l ih =>
    obtain ⟨b₁, hstep, hb₁⟩ := h b a List.mem_cons_self hb
    obtain ⟨b', hrest⟩ := ih (fun b a ha => h b a (List.mem_cons_of_mem _ ha)) hb₁
    exact ⟨b', by rw [List.foldlM_cons, hstep]; exact hrest⟩

theorem lookFrom_answers (hnet : Closed net) (hsymbols : ∀ n, ∀ e ∈ net.edgesOf n, ∃ set, symbols net e = .ok set)
    (hbase : ∀ g ∈ base, g < net.states.size) (hin : Within net base n st rules)
    (hfuel : unseen net known base found < fuel) :
    ∃ found', lookFrom net none fuel n (stacked known st) rules found = .ok found' := by
  induction fuel generalizing n st rules found with
  | zero => omega
  | succ fuel ih =>
    by_cases hnew : (n, stacked known st) ∈ found.seen
    · exact ⟨found, lookFrom_seen hnew⟩
    have hless := unseen_mark hin hnew
    by_cases hstop : (net.state n).kind = .ruleStop
    · cases st with
      | nil => exact ⟨_, lookFrom_end hnew hstop rfl⟩
      | cons f st =>
        have hback := hin.back hbase (net.state n).rule
        rw [lookFrom_back hnew hstop rfl hback.state]
        exact ih hback (by omega)
    · rw [lookFrom_on hnew hstop]
      refine foldlM_ok (Q := fun f => unseen net known base f < fuel) ?_ (by omega)
      intro found₁ e he hfound₁
      have hgrown {found₂ : Found} {m : Nat} {ctx : Context Unit} {rs : List Int}
          (h : lookFrom net none fuel m ctx rs found₁ = .ok found₂) : unseen net known base found₂ < fuel :=
        Nat.lt_of_le_of_lt (unseen_anti (lookFrom_grows h)) hfound₁
      rcases e.kinds with ⟨t, r, p, f, rfl⟩ | hfree | hconsumes
      · have hf : (f : Int) < bottomReturn := by
          have := hnet.follow n t r p f he
          have := hnet.room
          omega
        rw [visit_call hf]
        split
        · exact ⟨found₁, rfl, hfound₁⟩
        · rename_i hrule
          obtain ⟨found₂, h⟩ := ih (hin.call hnet he hrule) hfound₁
          exact ⟨found₂, h, hgrown h⟩
      · rw [visit_free hfree]
        obtain ⟨found₂, h⟩ := ih (hin.free hnet he) hfound₁
        exact ⟨found₂, h, hgrown h⟩
      · obtain ⟨set, hset⟩ := hsymbols n e he
        rw [visit_symbols hconsumes, hset]
        exact ⟨found₁.add set, rfl, hfound₁⟩

/-- What is known of the states to return to: nothing, or those of some rules under way. -/
def Returns (net : Network) (callers : Option Callers) (st : List Nat) : Prop := callers.elim (st = []) fun cs => Waiting net cs st

theorem Returns.context (hnet : Closed net) {callers : Option Callers} (h : Returns net callers st) :
    callers.elim (.ok .unknown) (Callers.context net) = .ok (stacked callers.isSome st) := by
  cases callers with
  | none =>
    cases h
    rfl
  | some cs => exact Waiting.context hnet h

theorem Waiting.lt (hnet : Closed net) {cs : Callers} (h : Waiting net cs st) : ∀ g ∈ st, g < net.states.size := by
  induction h with
  | outermost c => simp
  | @called c rest i t f r p more st _ hedges _ ih =>
    simp only [List.forall_mem_cons]
    exact ⟨hnet.follow i t r p f (hedges ▸ List.mem_cons_self), ih⟩

theorem Returns.lt (hnet : Closed net) {callers : Option Callers} (h : Returns net callers st) :
    ∀ g ∈ st, g < net.states.size := by
  cases callers with
  | none =>
    cases h
    simp
  | some cs => exact Waiting.lt hnet h

theorem unseen_lt_places (net : Network) (known : Bool) (st : List Nat) :
    unseen net known st {} < places net (stacked known st) + 1 := by
  have hdepth := length_le_depth known st
  refine Nat.lt_succ_of_le ?_
  calc unseen net known st {}
      ≤ (Finset.range net.states.size ×ˢ reach net st net.states.size).card := Finset.card_filter_le _ _
    _ = net.states.size * (reach net st net.states.size).card := by rw [Finset.card_product, Finset.card_range]
    _ ≤ (net.states.size + 1) * ((st.length + 1) * (net.states.size + 1) ^ net.states.size) :=
        Nat.mul_le_mul (Nat.le_succ _) (card_reach net st _)
    _ = (st.length + 1) * (net.states.size + 1) ^ (net.states.size + 1) := by rw [Nat.pow_succ', Nat.mul_left_comm]
    _ ≤ places net (stacked known st) := Nat.mul_le_mul_right _ (Nat.succ_le_succ hdepth)

/-- In a network whose edges lead to its states, whatever its rules are, a look from a place ends and has seen it. -/
theorem look_answers (hnet : Closed net) (hsymbols : ∀ n, ∀ e ∈ net.edgesOf n, ∃ set, symbols net e = .ok set)
    (hn : n < net.states.size) {callers : Option Callers} (h : Returns net callers st) :
    ∃ found, lookFrom net none (places net (stacked callers.isSome st) + 1) n (stacked callers.isSome st) [] {} = .ok found ∧
      look net n none callers = .ok found.set := by
  obtain ⟨found, hfound⟩ := lookFrom_answers hnet hsymbols (h.lt hnet)
    (⟨hn, base_mem_reach, List.nodup_nil, by simp⟩ : Within net st n st []) (unseen_lt_places net callers.isSome st)
  exact ⟨found, hfound, look_eq_ok.2 ⟨_, found, h.context hnet, hfound, rfl⟩⟩

end Lookahead

end NimbleLang
