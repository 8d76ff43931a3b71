import NimbleLang.Proofs.Searches
import NimbleLang.Proofs.Sessions

/-!
Lookahead sets are exact. A path of a network goes from place to place along edges that consume nothing: it enters the rules that
are called and leaves them to where they were called from (`Move`, `Leads`). A look finds a token type exactly if some path from
where it begins comes to an edge that consumes it, and the mark of the end exactly if some path comes to the end of all rules
that are known (`look_exact`).

A look refuses two things: to go to a place again, and to enter a rule that is under way. The first hides nothing, for what can
be found from a place is found before the look leaves it for good (`Explored`). The second never happens where no rule comes back
to a call of itself before something is consumed (`Forward.once`): the rules that a look counts as under way are those it was led
through to where it is (`Under`).
-/

namespace NimbleLang.Lookahead

open Fault

/-! ## Paths -/

/-- A state, with the states that the rules under way return to. -/
abbrev Place := Nat × List Nat

/-- Along an edge that consumes nothing. A call leaves behind where the rule returns to. -/
inductive Passes : Edge → Place → Place → Prop
  | free {e : Edge} {n : Nat} {st : List Nat} : e.free = true → Passes e (n, st) (e.target, st)
  | call {t f n : Nat} {r p : Int} {st : List Nat} : Passes (.call t r p f) (n, st) (t, f :: st)

theorem Passes.isEpsilon {e : Edge} {p q : Place} (h : Passes e p q) : e.isEpsilon = true := by
  cases h with
  | free hfree => exact Edge.isEpsilon_of_free hfree
  | call => rfl

/-- One step of a path. The last state of a rule leads only to where the rule was called from. -/
inductive Move (net : Network) : Place → Place → Prop
  | along {e : Edge} {p q : Place} : (net.state p.1).kind ≠ .ruleStop → e ∈ net.edgesOf p.1 → Passes e p q → Move net p q
  | back {n f : Nat} {st : List Nat} : (net.state n).kind = .ruleStop → Move net (n, f :: st) (f, st)

abbrev Leads (net : Network) : Place → Place → Prop := Relation.ReflTransGen (Move net)

/-- An edge from the place consumes the symbol. -/
def Reads (net : Network) (p : Place) (t : Int) : Prop :=
  (net.state p.1).kind ≠ .ruleStop ∧ ∃ e ∈ net.edgesOf p.1, e.admits t 1 net.maxTokenType = true

/-- All the rules that are known end at the place. -/
def Ends (net : Network) (p : Place) : Prop := (net.state p.1).kind = .ruleStop ∧ p.2 = []

/-- A network in which a look hides nothing. -/
structure Forward (net : Network) : Prop where
  closed : Closed net
  written : Written net
  /-- No edge excludes symbols. -/
  positive : ∀ n t l, .notSet t l ∉ net.edgesOf n
  /-- No edge consumes what stands for an unknown end. -/
  marked : ∀ n, ∀ e ∈ net.edgesOf n, e.admits Token.epsilon 1 net.maxTokenType = false
  /-- An edge that is no call stays in its rule, if it does not come from the last state. -/
  stays : ∀ n, (net.state n).kind ≠ .ruleStop → ∀ e ∈ net.edgesOf n, e.free = true → (net.state e.target).rule = (net.state n).rule
  /-- A call returns to the rule that it is in. -/
  returns : ∀ n t r p f, .call t r p f ∈ net.edgesOf n → (net.state f).rule = (net.state n).rule
  /-- A rule that is under way is not called before something is consumed. -/
  once : ∀ n t r p f, .call t r p f ∈ net.edgesOf n → ∀ m st, Leads net (t, []) (m, st) → (net.state m).kind ≠ .ruleStop →
    ∀ t' r' p' f', .call t' r' p' f' ∈ net.edgesOf m → (net.state t').rule ≠ (net.state t).rule

variable {net : Network} {known : Bool} {n f : Nat} {st : List Nat} {rules : List Int} {found found' : Found} {e : Edge}

/-! ## The rules under way -/

/-- The rules that were entered, the innermost first, belong to the state and to the states to return to. -/
def Chained (net : Network) : Nat → List Nat → List Int → Prop
  | _, [], [] => True
  | n, f :: above, r :: rules => (net.state n).rule = r ∧ Chained net f above rules
  | _, _, _ => False

theorem Chained.congr {m : Nat} (hrule : (net.state m).rule = (net.state n).rule) {above : List Nat}
    (h : Chained net n above rules) : Chained net m above rules := by
  cases above with
  | nil =>
    cases rules with
    | nil => trivial
    | cons r rules => cases h
  | cons g above =>
    cases rules with
    | nil => cases h
    | cons r rules => exact ⟨hrule.trans h.1, h.2⟩

/-- How a look has come to a place: each rule that was entered was called, and from its first state a path led here, with what
was put on the stack since. -/
structure Entered (net : Network) (n : Nat) (above : List Nat) (rules : List Int) : Prop where
  chained : Chained net n above rules
  led : ∀ (i : Nat) r, rules[i]? = some r → ∃ m t s p f, .call t s p f ∈ net.edgesOf m ∧ (net.state t).rule = r ∧
    Leads net (t, []) (n, above.take i)

/-- Only the return states on top belong to rules that the look itself has entered. -/
structure Under (net : Network) (n : Nat) (st : List Nat) (rules : List Int) : Prop where
  lt : ∀ g ∈ st, g < net.states.size
  entered : ∃ above base, st = above ++ base ∧ Entered net n above rules

theorem Under.start (h : ∀ g ∈ st, g < net.states.size) : Under net n st [] :=
  ⟨h, [], st, rfl, trivial, by simp⟩

theorem Under.free (hnet : Forward net) (h : Under net n st rules) (hgo : (net.state n).kind ≠ .ruleStop)
    (he : e ∈ net.edgesOf n) (hfree : e.free = true) : Under net e.target st rules := by
  obtain ⟨hlt, above, base, rfl, hchained, hled⟩ := h
  refine ⟨hlt, above, base, rfl, hchained.congr (hnet.stays n hgo e he hfree), ?_⟩
  intro i r hr
  obtain ⟨m, t, s, p, g, hcall, hrule, hleads⟩ := hled i r hr
  exact ⟨m, t, s, p, g, hcall, hrule, hleads.tail (.along hgo he (.free hfree))⟩

theorem Under.call (hnet : Forward net) (h : Under net n st rules) (hgo : (net.state n).kind ≠ .ruleStop) {t : Nat} {r p : Int}
    (he : .call t r p f ∈ net.edgesOf n) : Under net t (f :: st) ((net.state t).rule :: rules) := by
  obtain ⟨hlt, above, base, rfl, hchained, hled⟩ := h
  refine ⟨List.forall_mem_cons.mpr ⟨hnet.closed.follow n t r p f he, hlt⟩, f :: above, base, rfl,
    ⟨rfl, hchained.congr (hnet.returns n t r p f he)⟩, ?_⟩
  intro i s hs
  cases i with
  | zero => exact ⟨n, t, r, p, f, he, Option.some.inj hs, .refl⟩
  | succ i =>
    obtain ⟨m, t', r', p', f', hcall, hrule, hleads⟩ := hled i s hs
    exact ⟨m, t', r', p', f', hcall, hrule, hleads.tail (.along hgo he .call)⟩

theorem Under.back (h : Under net n (f :: st) rules) (hstop : (net.state n).kind = .ruleStop) :
    Under net f st (rules.erase (net.state n).rule) := by
  obtain ⟨hlt, above, base, hst, hchained, hled⟩ := h
  have hlt := (List.forall_mem_cons.mp hlt).2
  cases above with
  | nil =>
    cases rules with
    | nil => exact .start hlt
    | cons r rules => cases hchained
  | cons g above =>
    cases rules with
    | nil => cases hchained
    | cons r rules =>
      obtain ⟨hrule, hchained⟩ := hchained
      obtain ⟨rfl, rfl⟩ := List.cons.inj hst
      rw [hrule, List.erase_cons_head]
      refine ⟨hlt, above, base, rfl, hchained, ?_⟩
      intro i s hs
      obtain ⟨m, t, s', p, g', hcall, hrule, hleads⟩ := hled (i + 1) s hs
      exact ⟨m, t, s', p, g', hcall, hrule, hleads.tail (.back hstop)⟩

/-- A call is never refused. -/
theorem Under.fresh (hnet : Forward net) (h : Under net n st rules) (hgo : (net.state n).kind ≠ .ruleStop) {t : Nat} {r p : Int}
    (he : .call t r p f ∈ net.edgesOf n) : (net.state t).rule ∉ rules := by
  obtain ⟨-, above, base, -, -, hled⟩ := h
  intro hmem
  obtain ⟨i, hi⟩ := List.getElem?_of_mem hmem
  obtain ⟨m, t', r', p', f', hcall, hrule, hleads⟩ := hled i _ hi
  exact hnet.once m t' r' p' f' hcall n _ hleads hgo t r p f he hrule.symm

/-! ## What a look has explored -/

theorem stacked_inj {st st' : List Nat} (h : stacked known st = stacked known st') : st = st' := by
  induction st generalizing st' with
  | nil => cases st' <;> cases known <;> first | rfl | cases h
  | cons f st ih =>
    cases st' with
    | nil => cases known <;> cases h
    | cons f' st' =>
      simp only [stacked, Context.call.injEq, Int.natCast_inj, true_and] at h
      rw [ih h.1, h.2]

def Seen (known : Bool) (found : Found) (p : Place) : Prop := (p.1, stacked known p.2) ∈ found.seen

theorem seen_mark {p q : Place} : Seen known (found.mark p.1 (stacked known p.2)) q ↔ q = p ∨ Seen known found q := by
  unfold Seen Found.mark
  simp only [List.mem_cons, Prod.ext_iff]
  refine or_congr (and_congr_right fun _ => ?_) Iff.rfl
  exact ⟨stacked_inj, fun h => by rw [h]⟩

/-- What a place adds to the set. -/
def Yields (net : Network) (known : Bool) (p : Place) (t : Int) : Prop := Reads net p t ∨ Ends net p ∧ t = endMark known

/-- What was found from a place, apart from symbols of its own. All places that were added are on paths from it, and each of them
was left for good: what can be reached from it was seen, and what it adds is in the set. -/
structure Explored (net : Network) (known : Bool) (p : Place) (own : Int → Prop) (found found' : Found) : Prop where
  kept : ∀ q, Seen known found q → Seen known found' q
  reached : ∀ q, Seen known found' q → Seen known found q ∨ Leads net p q
  closed : ∀ q, Seen known found' q → Seen known found q ∨ ∀ q', Move net q q' → Seen known found' q'
  contains : ∀ t, found'.set.contains t = true ↔
    found.set.contains t = true ∨ own t ∨ ∃ q, Seen known found' q ∧ ¬ Seen known found q ∧ Yields net known q t

variable {p q : Place} {own own' : Int → Prop}

theorem Explored.refl : Explored net known p (fun _ => False) found found :=
  ⟨fun _ h => h, fun _ h => .inl h, fun _ h => .inl h, fun t => by grind⟩

theorem Explored.trans {found'' : Found} (h : Explored net known p own found found')
    (h' : Explored net known p own' found' found'') : Explored net known p (fun t => own t ∨ own' t) found found'' := by
  refine ⟨fun q hq => h'.kept q (h.kept q hq), ?_, ?_, ?_⟩
  · intro q hq
    rcases h'.reached q hq with hq | hq
    · exact h.reached q hq
    · exact .inr hq
  · intro q hq
    rcases h'.closed q hq with hq | hq
    · rcases h.closed q hq with hq | hq
      · exact .inl hq
      · exact .inr fun q' hmove => h'.kept q' (hq q' hmove)
    · exact .inr hq
  · intro t
    rw [h'.contains, h.contains]
    have := h.kept
    have := h'.kept
    grind

theorem Explored.of_leads (h : Explored net known q own found found') (hleads : Leads net p q) :
    Explored net known p own found found' :=
  { h with reached := fun q' hq' => (h.reached q' hq').imp_right hleads.trans }

/-- What an edge consumes is what it adds to the set. -/
theorem contains_symbols (hnet : Forward net) (he : e ∈ net.edgesOf n) {set : IntervalSet} (h : symbols net e = .ok set) (t : Int) :
    set.contains t = true ↔ e.admits t 1 net.maxTokenType = true := by
  have hempty : IntervalSet.empty.Tidy (0 < ·) := IntervalSet.tidy_empty
  have hnone : ¬ IntervalSet.empty.contains t = true := Bool.false_ne_true
  have hwritten := hnet.written.edge n e he
  cases e with
  | atom target l =>
    cases h
    show (IntervalSet.empty.addOne l).contains t = true ↔ (l == t) = true
    rw [IntervalSet.contains_addOne hempty, or_iff_right hnone, beq_iff_eq, eq_comm]
  | range target lo hi =>
    have hle : lo ≤ hi := hwritten
    cases h
    show (IntervalSet.empty.addRange ⟨lo, hi + 1⟩).contains t = true ↔ (lo ≤ t && t ≤ hi) = true
    rw [IntervalSet.contains_addRange hempty (Span.upright_of_lt (by dsimp only; omega)), or_iff_right hnone, Bool.and_eq_true,
      decide_eq_true_eq, decide_eq_true_eq]
    exact and_congr_right fun _ => Int.lt_add_one_iff
  | wildcard target =>
    have hlimit := hnet.written.limit
    cases h
    show (IntervalSet.empty.addRange ⟨1, net.maxTokenType + 1⟩).contains t = true ↔ (1 ≤ t && t ≤ net.maxTokenType) = true
    rw [IntervalSet.contains_addRange hempty ⟨by dsimp only; omega, fun _ => by dsimp only; omega⟩, or_iff_right hnone,
      Bool.and_eq_true, decide_eq_true_eq, decide_eq_true_eq]
    exact and_congr_right fun _ => Int.lt_add_one_iff
  | set target l =>
    cases h
    rfl
  | notSet target l => exact absurd he (hnet.positive n target l)
  | epsilon | call | predicate | action | precedence =>
    cases h
    exact iff_of_false hnone Bool.false_ne_true

/-- A look with so many steps explores what there is from where it begins. -/
def Explores (net : Network) (known : Bool) (fuel : Nat) : Prop :=
  ∀ n st rules found found', Under net n st rules → found.set.Tidy (0 < ·) →
    lookFrom net none fuel n (stacked known st) rules found = .ok found' →
    Explored net known (n, st) (fun _ => False) found found' ∧ Seen known found' (n, st)

variable {fuel : Nat}

section

variable (hnet : Forward net) (hexplores : Explores net known fuel)
  (hunder : Under net n st rules) (hgo : (net.state n).kind ≠ .ruleStop)
include hnet hexplores hunder hgo

/-- Along an edge, a look explores what is beyond it or adds its symbols. -/
theorem visit_explored (he : e ∈ net.edgesOf n) (htidy : found.set.Tidy (0 < ·))
    (h : visit net none fuel (stacked known st) rules found e = .ok found') :
    Explored net known (n, st) (fun t => e.admits t 1 net.maxTokenType = true) found found' ∧ found'.set.Tidy (0 < ·) ∧
      ∀ q, Passes e (n, st) q → Seen known found' q := by
  -- an edge that consumes nothing adds no symbol of its own
  have hbeyond {q : Place} (hpass : Passes e (n, st) q) (hq : Explored net known q (fun _ => False) found found') :
      Explored net known (n, st) (fun t => e.admits t 1 net.maxTokenType = true) found found' := by
    simp only [Edge.admits_of_isEpsilon hpass.isEpsilon, Bool.false_eq_true]
    exact hq.of_leads (.single (.along hgo he hpass))
  rcases e.kinds with ⟨t, r, p, f, rfl⟩ | hfree | hconsumes
  · have hf : (f : Int) < bottomReturn := by
      have := hnet.closed.follow n t r p f he
      have := hnet.closed.room
      omega
    rw [visit_call hf, if_neg (hunder.fresh hnet hgo he)] at h
    obtain ⟨hq, hseen⟩ := hexplores _ _ _ _ _ (hunder.call hnet hgo he) htidy h
    refine ⟨hbeyond .call hq, lookFrom_tidy hnet.written.legible htidy h, ?_⟩
    intro q hpass
    cases hpass with
    | free hfree => cases hfree
    | call => exact hseen
  · rw [visit_free hfree] at h
    obtain ⟨hq, hseen⟩ := hexplores _ _ _ _ _ (hunder.free hnet hgo he hfree) htidy h
    refine ⟨hbeyond (.free hfree) hq, lookFrom_tidy hnet.written.legible htidy h, ?_⟩
    intro q hpass
    cases hpass with
    | free => exact hseen
    | call => cases hfree
  · rw [visit_symbols hconsumes] at h
    obtain ⟨set, hset, h⟩ := bind_eq_ok.1 h
    obtain ⟨set', hset', hupright⟩ := hnet.written.legible n e he
    rw [hset] at hset'
    cases hset'
    cases h
    refine ⟨⟨fun _ hq => hq, fun _ hq => .inl hq, fun _ hq => .inl hq, ?_⟩, IntervalSet.addSet_tidy htidy hupright, ?_⟩
    · intro t
      rw [Found.add, IntervalSet.contains_addSet htidy hupright, contains_symbols hnet he hset t]
      have hsame (q : Place) : Seen known { found with set := found.set.addSet set } q ↔ Seen known found q := Iff.rfl
      grind
    · intro q hpass
      rw [hpass.isEpsilon] at hconsumes
      cases hconsumes

theorem edges_explored {edges : List Edge} (hedges : ∀ e ∈ edges, e ∈ net.edgesOf n) (htidy : found.set.Tidy (0 < ·))
    (h : edges.foldlM (visit net none fuel (stacked known st) rules) found = .ok found') :
    Explored net known (n, st) (fun t => ∃ e ∈ edges, e.admits t 1 net.maxTokenType = true) found found' ∧
      ∀ e ∈ edges, ∀ q, Passes e (n, st) q → Seen known found' q := by
  induction edges generalizing found with
  | nil =>
    cases h
    simpa using Explored.refl
  | cons e edges ih =>
    simp only [List.forall_mem_cons, List.exists_mem_cons_iff] at hedges ⊢
    rw [List.foldlM_cons] at h
    obtain ⟨found₁, hvisit, h⟩ := bind_eq_ok.1 h
    obtain ⟨hfirst, htidy₁, hseen⟩ := visit_explored hnet hexplores hunder hgo hedges.1 htidy hvisit
    obtain ⟨hrest, hseen'⟩ := ih hedges.2 htidy₁ h
    exact ⟨hfirst.trans hrest, fun q hpass => hrest.kept q (hseen q hpass), hseen'⟩

end

theorem Explored.of_mark (h : Explored net known p own (found.mark p.1 (stacked known p.2)) found')
    (hnew : ¬ Seen known found p) (hmoves : ∀ q, Move net p q → Seen known found' q)
    (hown : ∀ t, own t ↔ Yields net known p t) :
    Explored net known p (fun _ => False) found found' ∧ Seen known found' p := by
  have hp : Seen known found' p := h.kept p (seen_mark.2 (.inl rfl))
  refine ⟨⟨fun q hq => h.kept q (seen_mark.2 (.inr hq)), ?_, ?_, ?_⟩, hp⟩
  · intro q hq
    rcases h.reached q hq with hq | hq
    · rcases seen_mark.1 hq with rfl | hq
      · exact .inr .refl
      · exact .inl hq
    · exact .inr hq
  · intro q hq
    rcases h.closed q hq with hq | hq
    · rcases seen_mark.1 hq with rfl | hq
      · exact .inr hmoves
      · exact .inl hq
    · exact .inr hq
  · intro t
    have hset : (found.mark p.1 (stacked known p.2)).set = found.set := rfl
    rw [h.contains t, hset, hown]
    simp only [seen_mark, false_or]
    refine or_congr_right ⟨?_, ?_⟩
    · rintro (ht | ⟨q, hq, hnot, ht⟩)
      · exact ⟨p, hp, hnew, ht⟩
      · exact ⟨q, hq, fun h => hnot (.inr h), ht⟩
    · rintro ⟨q, hq, hnot, ht⟩
      by_cases hqp : q = p
      · exact .inl (hqp ▸ ht)
      · exact .inr ⟨q, hq, fun h => h.elim hqp hnot, ht⟩

/-- A look explores, however many steps it takes. -/
theorem lookFrom_explores (hnet : Forward net) (known : Bool) (fuel : Nat) : Explores net known fuel := by
  induction fuel with
  | zero =>
    intro n st rules found found' _ _ h
    cases h
  | succ fuel ih =>
    intro n st rules found found' hunder htidy h
    by_cases hnew : Seen known found (n, st)
    · rw [lookFrom_seen hnew] at h
      cases h
      exact ⟨.refl, hnew⟩
    have hmarked : (found.mark n (stacked known st)).set.Tidy (0 < ·) := htidy
    by_cases hstop : (net.state n).kind = .ruleStop
    · have hreads (t : Int) : ¬ Reads net (n, st) t := fun h => h.1 hstop
      cases st with
      | nil =>
        rw [lookFrom_end hnew hstop rfl] at h
        cases h
        have hend : Explored net known (n, []) (fun t => t = endMark known) (found.mark n (stacked known []))
            { found.mark n (stacked known []) with set := found.set.addOne (endMark known) } := by
          refine ⟨fun _ hq => hq, fun _ hq => .inl hq, fun _ hq => .inl hq, ?_⟩
          intro t
          have hsame (q : Place) (set : IntervalSet) : Seen known { found.mark n (stacked known []) with set } q ↔
              Seen known (found.mark n (stacked known [])) q := Iff.rfl
          have hset : (found.mark n (stacked known [])).set = found.set := rfl
          rw [IntervalSet.contains_addOne htidy, hset]
          grind
        refine hend.of_mark hnew ?_ ?_
        · intro q hmove
          cases hmove with
          | along hgo => exact absurd hstop hgo
        · intro t
          simp [Yields, hreads, Ends, hstop]
      | cons f st =>
        rw [lookFrom_back hnew hstop rfl (hunder.lt f List.mem_cons_self)] at h
        obtain ⟨hq, hseen⟩ := ih _ _ _ _ _ (hunder.back hstop) hmarked h
        refine Explored.of_mark (hq.of_leads (.single (.back hstop))) hnew ?_ ?_
        · intro q hmove
          cases hmove with
          | along hgo => exact absurd hstop hgo
          | back => exact hseen
        · intro t
          simp [Yields, hreads, Ends]
    · rw [lookFrom_on hnew hstop] at h
      obtain ⟨hedges, hseen⟩ := edges_explored hnet ih hunder hstop (fun _ he => he) hmarked h
      refine Explored.of_mark hedges hnew ?_ ?_
      · intro q hmove
        cases hmove with
        | along _ he hpass => exact hseen _ he q hpass
        | back hstop' => exact absurd hstop' hstop
      · intro t
        simp [Yields, Reads, Ends, hstop]

/-- A look finds what the places on its paths add. -/
theorem look_yields (hnet : Forward net) (hn : n < net.states.size) {callers : Option Callers} (h : Returns net callers st) :
    ∃ set, look net n none callers = .ok set ∧
      ∀ t, set.contains t = true ↔ ∃ p, Leads net (n, st) p ∧ Yields net callers.isSome p t := by
  obtain ⟨found, hfound, hlook⟩ := look_answers hnet.closed (fun n e he => (hnet.written.legible n e he).imp fun _ h => h.1) hn h
  have hnone (q : Place) : ¬ Seen callers.isSome {} q := List.not_mem_nil
  obtain ⟨hexplored, hseen⟩ := lookFrom_explores hnet _ _ _ _ _ _ _ (.start (h.lt hnet.closed)) IntervalSet.tidy_empty hfound
  -- nothing was seen before, so the places that were seen are those on the paths
  have hall (q : Place) : Seen callers.isSome found q ↔ Leads net (n, st) q := by
    constructor
    · intro hq
      exact (hexplored.reached q hq).resolve_left (hnone q)
    · intro hleads
      induction hleads with
      | refl => exact hseen
      | tail _ hmove ih => exact (hexplored.closed _ ih).resolve_left (hnone _) _ hmove
  refine ⟨found.set, hlook, ?_⟩
  intro t
  have hempty : ¬ ({} : Found).set.contains t = true := Bool.false_ne_true
  rw [hexplored.contains t, or_iff_right hempty]
  simp only [hnone, hall, false_or, not_false_eq_true, true_and]

/-! ## Networks that hide nothing

That calls go down in rank can be checked edge by edge. -/

/-- A check of one edge. The states that a rule can come to before something is consumed are among `early`, and calls from there
go to rules of lower rank. -/
def certified (net : Network) (rank : Int → Nat) (early : List Nat) (n : Nat) (e : Edge) : Bool :=
  e.names.all (· < net.states.size) && plainEdge e && !e.admits Token.epsilon 1 net.maxTokenType &&
    match e with
    | .call t _ _ f => early.contains t && (net.state f).rule == (net.state n).rule &&
      (!early.contains n || early.contains f && rank (net.state t).rule < rank (net.state n).rule)
    | e => !e.free || (net.state n).kind = .ruleStop ||
      (net.state e.target).rule == (net.state n).rule && (!early.contains n || early.contains e.target)

section Certificate

variable {rank : Int → Nat} {early : List Nat}

theorem certified_call {t : Nat} {r p : Int} (h : certified net rank early n (.call t r p f) = true) :
    t ∈ early ∧ (net.state f).rule = (net.state n).rule ∧
      (n ∈ early → f ∈ early ∧ rank (net.state t).rule < rank (net.state n).rule) := by
  simp only [certified, Bool.and_eq_true, Bool.or_eq_true, Bool.not_eq_true', beq_iff_eq, decide_eq_true_eq,
    List.contains_eq_mem, decide_eq_false_iff_not] at h
  exact ⟨h.2.1.1, h.2.1.2, fun hn => h.2.2.resolve_left (not_not_intro hn)⟩

theorem certified_free (h : certified net rank early n e = true) (hfree : e.free = true) (hgo : (net.state n).kind ≠ .ruleStop) :
    (net.state e.target).rule = (net.state n).rule ∧ (n ∈ early → e.target ∈ early) := by
  have hlast : ((net.state e.target).rule == (net.state n).rule && (!early.contains n || early.contains e.target)) = true := by
    have h := (Bool.and_eq_true_iff.mp h).2
    cases e <;> first | simpa [hgo, Edge.free] using h | cases hfree
  simp only [Bool.and_eq_true, Bool.or_eq_true, Bool.not_eq_true', beq_iff_eq, List.contains_eq_mem, decide_eq_true_eq,
    decide_eq_false_iff_not] at hlast
  exact ⟨hlast.1, fun hn => hlast.2.resolve_left (not_not_intro hn)⟩

variable (h : ∀ n < net.states.size, ∀ e ∈ net.edgesOf n, certified net rank early n e = true)
include h

/-- On the way from a call, no state and no state to return to is of higher rank than the rule. -/
theorem rank_le_of_leads {t : Nat} {r p : Int} (he : .call t r p f ∈ net.edgesOf n) {q : Place} (hq : Leads net (t, []) q) :
    ∀ k ∈ q.1 :: q.2, k ∈ early ∧ rank (net.state k).rule ≤ rank (net.state t).rule := by
  induction hq with
  | refl => simpa using (certified_call (h n (lt_of_mem_edgesOf he) _ he)).1
  | tail _ hmove ih =>
    cases hmove with
    | back => exact (List.forall_mem_cons.mp ih).2
    | @along e _ _ hgo he hpass =>
      obtain ⟨hhere, hrest⟩ := List.forall_mem_cons.mp ih
      have hcertified := h _ (lt_of_mem_edgesOf he) e he
      cases hpass with
      | free hfree =>
        obtain ⟨hrule, hearly⟩ := certified_free hcertified hfree hgo
        exact List.forall_mem_cons.mpr ⟨⟨hearly hhere.1, hrule ▸ hhere.2⟩, hrest⟩
      | call =>
        obtain ⟨ht, hrule, hlower⟩ := certified_call hcertified
        obtain ⟨hf, hlt⟩ := hlower hhere.1
        exact List.forall_mem_cons.mpr ⟨⟨ht, (Nat.le_of_lt hlt).trans hhere.2⟩,
          List.forall_mem_cons.mpr ⟨⟨hf, hrule ▸ hhere.2⟩, hrest⟩⟩

theorem Forward.of_certified (hlimit : 0 ≤ net.maxTokenType) (hroom : (net.states.size : Int) ≤ bottomReturn) : Forward net where
  closed := by
    refine .of_names ?_ hroom
    intro n hn e he k hk
    have := h n hn e he
    simp only [certified, Bool.and_eq_true, List.all_eq_true, decide_eq_true_eq] at this
    exact this.1.1.1 k hk
  written := by
    refine ⟨hlimit, ?_⟩
    intro n e he
    have := h n (lt_of_mem_edgesOf he) e he
    simp only [certified, Bool.and_eq_true] at this
    exact written_of_plain this.1.1.2
  positive n t l he := by
    have := h n (lt_of_mem_edgesOf he) _ he
    simp [certified, plainEdge] at this
  marked n e he := by
    have := h n (lt_of_mem_edgesOf he) e he
    simp only [certified, Bool.and_eq_true, Bool.not_eq_true'] at this
    exact this.1.2
  stays n hgo e he hfree := (certified_free (h n (lt_of_mem_edgesOf he) e he) hfree hgo).1
  returns n t r p f he := (certified_call (h n (lt_of_mem_edgesOf he) _ he)).2.1
  once n t r p f he m st hleads _ t' r' p' f' he' := by
    obtain ⟨hm, -⟩ := List.forall_mem_cons.mp (rank_le_of_leads h he hleads)
    obtain ⟨-, -, hlower⟩ := certified_call (h m (lt_of_mem_edgesOf he') _ he')
    obtain ⟨-, hlt⟩ := hlower hm.1
    intro hsame
    rw [hsame] at hlt
    exact Nat.not_lt.mpr hm.2 hlt

end Certificate

section Grammar

open Grammar

/-- How deep the calls of a rule can go before something is consumed. -/
def depthOf (rule : Int) : Nat := [6, 1, 1, 5, 4, 3, 3, 1, 2, 2, 1].getD rule.toNat 0

/-- The states that a rule can come to before something is consumed. -/
def earlyStates : List Nat :=
  [2, 31, 4, 53, 6, 57, 58, 7, 8, 59, 60, 61, 9, 10, 65, 63, 62, 64, 67, 66, 11, 12, 71, 69, 68, 70, 73, 72, 13, 14, 74, 16, 110, 82,
    85, 91, 103, 105, 109, 111, 17, 18, 124, 112, 113, 117, 119, 120, 121, 122, 123, 125, 137, 135, 126, 127, 129, 130, 132, 133,
    139, 138, 19, 20, 140]

set_option maxRecDepth 4000 in
theorem network_forward : Forward States.network :=
  have hcertified : ∀ n < States.network.states.size, ∀ e ∈ States.network.edgesOf n,
      certified States.network depthOf earlyStates n e = true := by decide
  .of_certified hcertified (by decide) (by decide)

/-- The rules under way behind the last expression of a program: a statement of the main program prints it. -/
def printing : Callers := [104, 68, 60, 57, 28, -1].map fun i => { invoking := some i }

set_option maxRecDepth 4000 in
theorem printing_waits : Waiting States.network printing [111, 70, 61, 58, 29] :=
  .called rfl (show States.network.edgesOf 104 = [.call 18 9 0 111] by decide) <|
    .called rfl (show States.network.edgesOf 68 = [.call 16 8 0 70] by decide) <|
    .called rfl (show States.network.edgesOf 60 = [.call 12 6 0 61] by decide) <|
    .called rfl (show States.network.edgesOf 57 = [.call 8 4 0 58] by decide) <|
    .called rfl (show States.network.edgesOf 28 = [.call 6 3 0 29] by decide) <| .outermost _

/-! ## Lookahead sets are exact -/

/-- A look has an answer. It contains a token type exactly if some path leads to an edge that consumes it; the mark of an unknown
end exactly if the callers are not known and some path comes to the end of the rule; and the end of the input, where no path
leads to an edge that consumes it, exactly if the callers are known and some path leaves them all. -/
theorem look_exact (net : Network) (hnet : Forward net) (n : Nat) (hn : n < net.states.size) (callers : Option Callers)
    (st : List Nat) (h : Returns net callers st) :
    ∃ set, look net n none callers = .ok set ∧
      (∀ t, t ≠ Token.epsilon → t ≠ Token.eof → (set.contains t = true ↔ ∃ p, Leads net (n, st) p ∧ Reads net p t)) ∧
      (set.contains Token.epsilon = true ↔ callers = none ∧ ∃ p, Leads net (n, st) p ∧ Ends net p) ∧
      (set.contains Token.eof = true ↔ (∃ p, Leads net (n, st) p ∧ Reads net p Token.eof) ∨
        callers ≠ none ∧ ∃ p, Leads net (n, st) p ∧ Ends net p) := by
  obtain ⟨set, hlook, hset⟩ := look_yields hnet hn h
  have hsplit (t : Int) : set.contains t = true ↔ (∃ p, Leads net (n, st) p ∧ Reads net p t) ∨
      t = endMark callers.isSome ∧ ∃ p, Leads net (n, st) p ∧ Ends net p := by
    rw [hset]
    unfold Yields
    grind
  have hmark : ¬ ∃ p, Leads net (n, st) p ∧ Reads net p Token.epsilon := by
    rintro ⟨p, -, -, e, he, hadmits⟩
    rw [hnet.marked p.1 e he] at hadmits
    cases hadmits
  refine ⟨set, hlook, ?_, ?_, ?_⟩
  · intro t hepsilon heof
    have hother : t ≠ endMark callers.isSome := by
      cases callers with
      | none => exact hepsilon
      | some cs => exact heof
    rw [hsplit, or_iff_left fun h => hother h.1]
  · rw [hsplit, or_iff_right hmark]
    cases callers with
    | none => simp [endMark]
    | some cs => simp [endMark, Token.epsilon, Token.eof]
  · rw [hsplit]
    cases callers with
    | none => simp [endMark, Token.epsilon, Token.eof]
    | some cs => simp [endMark]

set_option maxRecDepth 4000 in
/-- Behind the last expression of a program. -/
theorem look_exact_behind_print :
    ∃ set, look States.network 125 none (some printing) = .ok set ∧
      (∀ t, t ≠ Token.epsilon → t ≠ Token.eof →
        (set.contains t = true ↔ ∃ p, Leads States.network (125, [111, 70, 61, 58, 29]) p ∧ Reads States.network p t)) ∧
      (set.contains Token.epsilon = true ↔ some printing = none ∧
        ∃ p, Leads States.network (125, [111, 70, 61, 58, 29]) p ∧ Ends States.network p) ∧
      (set.contains Token.eof = true ↔
        (∃ p, Leads States.network (125, [111, 70, 61, 58, 29]) p ∧ Reads States.network p Token.eof) ∨
          some printing ≠ none ∧ ∃ p, Leads States.network (125, [111, 70, 61, 58, 29]) p ∧ Ends States.network p) :=
  look_exact States.network network_forward 125 (by decide) (some printing) [111, 70, 61, 58, 29] printing_waits

end Grammar

end NimbleLang.Lookahead
