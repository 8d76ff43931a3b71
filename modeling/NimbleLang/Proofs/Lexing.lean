import NimbleLang.Proofs.Lexicon

/-!
What the lexer of Nimble matches. Its atlas is the chart of the lexicon (`atlas`), whatever blanks and comments do. From the
beginning of a text on, the lexer goes as far as some rule can be extended (`munch_far`), and its best match is the longest
text that a rule matches (`munch_best`). Said of whole rules: the lexer takes the longest match, by the first rule that has it
(`longest_of_munch`), and where there is none it has come to the first character with which no rule goes on
(`stuck_of_munch`).
-/

namespace NimbleLang.Grammar

open Scan

namespace Lexicon

open LexerStates

/-! ## The atlas -/

def spotOf (c : Config) : Spot :=
  { state := c.state, alt := c.alt, stack := c.stack, met := (c.program.getD []).length, viaNonGreedy := c.viaNonGreedy }

theorem spotOf_config (command : Command) (c : Spot) : spotOf (c.config command) = c := by
  obtain ⟨state, alt, stack, met, via⟩ := c
  unfold spotOf Spot.config
  by_cases h : met = 0
  · simp [h]
  · simp [h]

theorem map_spotOf (command : Command) (spots : List Spot) : (spots.map (Spot.config command)).map spotOf = spots := by
  rw [List.map_map]
  calc spots.map (spotOf ∘ Spot.config command) = spots.map id := List.map_congr_left fun c _ => spotOf_config command c
    _ = spots := List.map_id spots

/-- The first configuration at the end of a rule is that of the first spot there. -/
theorem find_config (command : Command) (spots : List Spot) :
    (spots.map (Spot.config command)).find? (fun c => ((network command).state c.state).kind == .ruleStop) =
      (ended? spots).map (Spot.config command) := by
  have htest : (fun c : Config => ((network command).state c.state).kind == .ruleStop) ∘ Spot.config command =
      fun c : Spot => (plan.state c.state).kind == .ruleStop := by
    funext c
    rw [Function.comp_apply, state_eq]
    rfl
  rw [List.find?_map, htest, ended?]

variable {command : Command} {e : Entry}

theorem ended_of_ending (he : e ∈ chart) {k : Nat} (hk : ending? e.2 = some k) : ∃ c, ended? e.1 = some c ∧
    Indexing.arrayAt? tokenTypes (plan.state c.state).rule = some (rules.getD k default).type ∧
    c.met = if (rules.getD k default).hidden then 1 else 0 := by
  have hverdict := (sound_of_mem he).verdict
  rw [hk] at hverdict
  obtain ⟨c, hc, hruling⟩ := Option.map_eq_some_iff.mp hverdict
  obtain ⟨htype, hmet⟩ := Prod.mk.inj hruling
  exact ⟨c, hc, htype, hmet⟩

theorem ended_of_none (he : e ∈ chart) (hk : ending? e.2 = none) : ended? e.1 = none := by
  have hverdict := (sound_of_mem he).verdict
  rw [hk] at hverdict
  exact Option.map_eq_none_iff.mp hverdict

/-- The node of an entry accepts if a rule has ended, with the token type of the first. -/
def nodeFor (command : Command) (e : Entry) : Automaton.Node (List Config) :=
  { content := e.1.map (Spot.config command), accepts := (ending? e.2).isSome
    prediction := ((ending? e.2).map fun k => (rules.getD k default).type).getD 0 }

theorem makeNode_entry (command : Command) (he : e ∈ chart) :
    makeNode (network command) (e.1.map (Spot.config command)) = .ok (nodeFor command e) := by
  unfold makeNode nodeFor
  rw [find_config]
  cases hk : ending? e.2 with
  | none =>
    rw [ended_of_none he hk]
    rfl
  | some k =>
    obtain ⟨c, hc, htype, -⟩ := ended_of_ending he hk
    have hstate : (c.config command).state = c.state := rfl
    have htokens : (network command).ruleTokens = some tokenTypes := rfl
    rw [hc, Option.map_some]
    dsimp only
    rw [htokens, hstate, state_eq]
    show (Fault.outOfRange.unless (Indexing.arrayAt? tokenTypes (plan.state c.state).rule) >>= _) = _
    rw [htype]
    rfl

theorem nodeOf_entry (command : Command) (he : e ∈ chart) :
    nodeOf (network command) (e.1.map (Spot.config command)) = nodeFor command e := by
  unfold nodeOf
  rw [makeNode_entry command he]

theorem settled_entry (command : Command) (he : e ∈ chart) :
    settled (network command) (e.1.map (Spot.config command)) = .ok (e.1.map (Spot.config command)) := by
  unfold settled
  rw [makeNode_entry command he]
  rfl

/-- Hidden rules have the command, and no others. -/
theorem programOf_entry (command : Command) (he : e ∈ chart) : programOf (network command) (nodeFor command e) =
    (ending? e.2).bind fun k => if (rules.getD k default).hidden then some [{ command }] else none := by
  unfold programOf nodeFor
  rw [find_config]
  cases hk : ending? e.2 with
  | none => rw [ended_of_none he hk, Option.map_none, Option.bind_none, Option.bind_none]
  | some k =>
    obtain ⟨c, hc, -, hmet⟩ := ended_of_ending he hk
    rw [hc, Option.map_some, Option.bind_some, Option.bind_some]
    have hprogram : (c.config command).program = if c.met = 0 then none else some (List.replicate c.met { command }) := rfl
    rw [hprogram, hmet]
    cases (rules.getD k default).hidden <;> rfl

/-- The commands for blanks and comments that a lexer may have. -/
theorem positional_of_marks (h : Marks [{ command }]) : command.positional = false := by
  rcases h with h | ⟨c, h⟩
  · obtain rfl : command = .skip := by simpa using h
    rfl
  · obtain rfl : command = .channel c := by simpa using h
    rfl

theorem opening_first (h : Marks [{ command }]) : opening (network command) 0 = .ok (first.map (Spot.config command)) := by
  have hstart := (planned (positional_of_marks h)).startClosure_mimics over_bare 0
  unfold Run.Mimics at hstart
  rw [start_eq] at hstart
  have hplain : barred (network command) 0 = false := by
    have hstate : (plan.state 0).precedenceDecision = false := by decide
    rw [← state_eq command] at hstate
    exact hstate
  have hmode : Indexing.arrayAt? (network command).modes 0 = some 0 := rfl
  have hsettled := settled_entry command first_mem
  dsimp only at hsettled
  rw [opening, if_pos ⟨Nat.zero_lt_succ 8, hplain⟩]
  exact (beginning_ok hmode (congrArg Prod.fst hstart)).trans hsettled

theorem not_accepts_first (command : Command) : (nodeOf (network command) (first.map (Spot.config command))).accepts = false := by
  have hnone : ending? Left.whole = none := by decide
  rw [nodeOf_entry command first_mem, nodeFor, hnone]
  rfl

/-- What the lexer of Nimble moves among. -/
def atlas (h : Marks [{ command }]) : Atlas (network command) where
  first := first.map (Spot.config command)
  onward cs x := (onward (cs.map spotOf) x).map (Spot.config command)
  known cs := ∃ e ∈ chart, cs = e.1.map (Spot.config command)
  mechanical := (planned (positional_of_marks h)).mechanical
  begins := opening_first h
  known_first := ⟨_, first_mem, rfl⟩
  steps {cs x} hcs hx := by
    obtain ⟨e, he, rfl⟩ := hcs
    have hstep := (planned (positional_of_marks h)).step_mimics over_bare e.1 x
    unfold Run.Mimics at hstep
    rw [map_spotOf]
    rcases hx with rfl | ⟨c, rfl⟩
    · unfold onward
      rw [(sound_of_mem he).stop] at hstep ⊢
      exact onward_ok (congrArg Prod.fst hstep)
    · obtain ⟨hnext, hentry⟩ := chart_step he c
      rw [hnext] at hstep
      rw [onward_ok (congrArg Prod.fst hstep)]
      rcases hentry with ⟨hnil, -⟩ | ⟨hne, hmem⟩
      · rw [hnil]
        rfl
      · rw [if_neg (by simpa [reachOf] using hne)]
        exact settled_entry command hmem
  known_onward {cs x} hcs hx hne := by
    obtain ⟨e, he, rfl⟩ := hcs
    rw [map_spotOf] at hne ⊢
    rcases hx with rfl | ⟨c, rfl⟩
    · unfold onward at hne
      rw [(sound_of_mem he).stop] at hne
      exact absurd rfl hne
    · rcases (chart_step he c).2 with ⟨hnil, -⟩ | ⟨-, hmem⟩
      · rw [hnil] at hne
        exact absurd rfl hne
      · exact ⟨_, hmem, rfl⟩
  stop {cs} hcs := by
    obtain ⟨e, he, rfl⟩ := hcs
    unfold onward
    rw [map_spotOf, (sound_of_mem he).stop]
    rfl
  eager := not_accepts_first command
  marks {cs} hcs p hp := by
    obtain ⟨e, he, rfl⟩ := hcs
    rw [nodeOf_entry command he, programOf_entry command he] at hp
    obtain ⟨k, -, hk⟩ := Option.bind_eq_some_iff.mp hp
    split at hk
    · exact Option.some.inj hk ▸ h
    · cases hk

/-! ## What is matched -/

variable {h : Marks [{ command }]}

theorem onward_atlas (spots : List Spot) (x : Int) :
    (atlas h).onward (spots.map (Spot.config command)) x = (onward spots x).map (Spot.config command) := by
  show (onward ((spots.map (Spot.config command)).map spotOf) x).map (Spot.config command) = _
  rw [map_spotOf]

/-- Something is left of the rules at every entry. -/
theorem exists_spells (he : e ∈ chart) : ∃ k v, e.2.Spells k v := by
  obtain ⟨r, hr, halive⟩ := (sound_of_mem he).alive
  obtain ⟨v, hv⟩ := Shape.exists_spells halive
  exact ⟨r.1, v, r.2, hr, hv⟩

theorem not_spells_nil {k : Nat} {v : List Char} : ¬Left.Spells [] k v := by
  intro ⟨a, ha, _⟩
  cases ha

theorem munch_nil {c : Char} (hnil : onward e.1 c.toNat = []) (chars : List Char) :
    (atlas h).munch (e.1.map (Spot.config command)) (c :: chars) = (0, none) :=
  (atlas h).munch_stuck (by rw [onward_atlas, hnil, List.map_nil]) chars

theorem onward_ne_nil {c : Char} (hne : onward e.1 c.toNat ≠ []) : (atlas h).onward (e.1.map (Spot.config command)) c.toNat ≠ [] := by
  rw [onward_atlas]
  simpa using hne

/-- The lexer goes on as long as some rule can be extended. -/
theorem munch_far (he : e ∈ chart) (chars : List Char) :
    ((atlas h).munch (e.1.map (Spot.config command)) chars).1 ≤ chars.length ∧
      (∃ k v, e.2.Spells k (chars.take ((atlas h).munch (e.1.map (Spot.config command)) chars).1 ++ v)) ∧
      (((atlas h).munch (e.1.map (Spot.config command)) chars).1 < chars.length →
        ¬∃ k v, e.2.Spells k (chars.take (((atlas h).munch (e.1.map (Spot.config command)) chars).1 + 1) ++ v)) := by
  induction chars generalizing e with
  | nil => exact ⟨Nat.le_refl 0, exists_spells he, fun hlt => absurd hlt (Nat.lt_irrefl 0)⟩
  | cons c chars ih =>
    rcases (chart_step he c).2 with ⟨hnil, hleft⟩ | ⟨hne, hmem⟩
    · rw [munch_nil hnil]
      refine ⟨Nat.zero_le _, exists_spells he, fun _ ⟨k, v, hv⟩ => ?_⟩
      have hrest : (e.2.after c.toNat).Spells k v := Left.spells_after.2 hv
      rw [hleft] at hrest
      exact not_spells_nil hrest
    · have hgoes := onward_ne_nil (h := h) hne
      obtain ⟨hle, ⟨k, v, hv⟩, hstop⟩ := ih hmem
      rw [(atlas h).munch_cons hgoes, onward_atlas]
      refine ⟨Nat.succ_le_succ hle, ⟨k, v, Left.spells_after.1 hv⟩, fun hlt ⟨k, v, hv⟩ => ?_⟩
      exact hstop (Nat.lt_of_succ_lt_succ hlt) ⟨k, v, Left.spells_after.2 hv⟩

/-- No rule ends a text of some length from `j` on. -/
def SilentFrom (left : Left) (chars : List Char) (j : Nat) : Prop :=
  ∀ n, j ≤ n → n ≤ chars.length → ∀ k, ¬left.Spells k (chars.take n)

theorem silent_cons {left : Left} {c : Char} {chars : List Char} {j : Nat} :
    SilentFrom left (c :: chars) (j + 1) ↔ SilentFrom (left.after c.toNat) chars j := by
  constructor
  · intro hs n hj hn k hk
    exact hs (n + 1) (by omega) (by rw [List.length_cons]; omega) k (Left.spells_after.1 hk)
  · intro hs n hj hn k hk
    obtain ⟨n, rfl⟩ : ∃ n', n = n' + 1 := ⟨n - 1, by omega⟩
    rw [List.length_cons] at hn
    exact hs n (by omega) (by omega) k (Left.spells_after.2 hk)

/-- What is left of the rules of an entry after `n` characters is an entry with these spots. -/
def Passed (command : Command) (e : Entry) (w : List Char) (cs : List Config) : Prop :=
  ∃ d ∈ chart, cs = d.1.map (Spot.config command) ∧ ∀ k v, d.2.Spells k v ↔ e.2.Spells k (w ++ v)

theorem ending_isSome {left : Left} : (ending? left).isSome = true ↔ ∃ k, left.Spells k [] := by
  unfold ending?
  rw [Option.isSome_map, List.find?_isSome]
  constructor
  · intro ⟨r, hr, hnullable⟩
    exact ⟨r.1, r.2, hr, Shape.spells_nil.2 hnullable⟩
  · intro ⟨k, a, ha, hnil⟩
    exact ⟨(k, a), ha, Shape.spells_nil.1 hnil⟩

/-- The longest text that a rule matches, and the configurations there. -/
def LongestMatch (command : Command) (e : Entry) (chars : List Char) : Option (Nat × List Config) → Prop
  | none => SilentFrom e.2 chars 1
  | some (j, cs) => 0 < j ∧ j ≤ chars.length ∧ Passed command e (chars.take j) cs ∧ (∃ k, e.2.Spells k (chars.take j)) ∧
      SilentFrom e.2 chars (j + 1)

/-- The best match of the lexer is the longest text that a rule matches. -/
theorem munch_best (he : e ∈ chart) (chars : List Char) :
    LongestMatch command e chars ((atlas h).munch (e.1.map (Spot.config command)) chars).2 := by
  induction chars generalizing e with
  | nil =>
    intro n hn hle
    rw [List.length_nil] at hle
    omega
  | cons c chars ih =>
    rcases (chart_step he c).2 with ⟨hnil, hleft⟩ | ⟨hne, hmem⟩
    · rw [munch_nil hnil]
      refine silent_cons.2 fun n _ _ k hk => ?_
      rw [hleft] at hk
      exact not_spells_nil hk
    · have hgoes := onward_ne_nil (h := h) hne
      have hrest := ih hmem
      rw [(atlas h).munch_cons hgoes, onward_atlas]
      dsimp only at hrest ⊢
      cases hbest : ((atlas h).munch ((onward e.1 c.toNat).map (Spot.config command)) chars).2 with
      | some q =>
        obtain ⟨j, cs⟩ := q
        rw [hbest] at hrest
        obtain ⟨hpos, hle, ⟨d, hd, hcs, hspells⟩, ⟨k, hk⟩, hsilent⟩ := hrest
        refine ⟨Nat.succ_pos j, Nat.succ_le_succ hle, ⟨d, hd, hcs, fun k v => ?_⟩, ⟨k, Left.spells_after.1 hk⟩, silent_cons.2 hsilent⟩
        rw [hspells, Left.spells_after]
        rfl
      | none =>
        rw [hbest] at hrest
        rw [nodeOf_entry command hmem, Option.elim_none, nodeFor]
        dsimp only
        by_cases hends : (ending? (e.2.after c.toNat)).isSome = true
        · rw [if_pos hends]
          obtain ⟨k, hk⟩ := ending_isSome.1 hends
          refine ⟨Nat.one_pos, by simp, ⟨_, hmem, rfl, fun k v => ?_⟩, ⟨k, Left.spells_after.1 hk⟩, silent_cons.2 hrest⟩
          rw [Left.spells_after]
          rfl
        · rw [if_neg hends]
          refine silent_cons.2 fun n _ hle k hk => ?_
          by_cases hn : n = 0
          · subst hn
            exact hends (ending_isSome.2 ⟨k, hk⟩)
          · exact hrest n (by omega) hle k hk

/-! ## The longest match -/

/-- The longest text that a rule matches at the beginning of some characters has `n` of them, and `k` is the first rule that
matches it. -/
structure Longest (chars : List Char) (n k : Nat) : Prop where
  pos : 0 < n
  le : n ≤ chars.length
  hit : Matches k (chars.take n)
  first : ∀ k', Matches k' (chars.take n) → k ≤ k'
  longest : ∀ n' k', n' ≤ chars.length → Matches k' (chars.take n') → n' ≤ n

/-- No rule matches a text at the beginning of some characters, and the first with which no rule can go on is number `n`; it
is the last one if there is no such character. -/
structure Stuck (chars : List Char) (n : Nat) : Prop where
  pos : 0 < n
  le : n ≤ chars.length
  unmatched : ∀ n' k, 0 < n' → n' ≤ chars.length → ¬Matches k (chars.take n')
  goes : ∀ n', n' < n → Extends (chars.take n')
  stops : n = chars.length ∨ ¬Extends (chars.take n)

variable {chars : List Char} {n n' k k' : Nat}

theorem Longest.unique (a : Longest chars n k) (b : Longest chars n' k') : n = n' ∧ k = k' := by
  obtain rfl : n = n' := Nat.le_antisymm (b.longest n k a.le a.hit) (a.longest n' k' b.le b.hit)
  exact ⟨rfl, Nat.le_antisymm (a.first k' b.hit) (b.first k a.hit)⟩

theorem Longest.not_stuck (a : Longest chars n k) : ¬Stuck chars n' := fun b => b.unmatched n k a.pos a.le a.hit

theorem Stuck.unique (a : Stuck chars n) (b : Stuck chars n') : n = n' := by
  -- the shorter of two would stop where the longer goes on
  have hle : ∀ {m m' : Nat}, Stuck chars m → Stuck chars m' → m ≤ m' := by
    intro m m' c d
    by_contra hlt
    rcases d.stops with h | h
    · have := c.le
      omega
    · exact h (c.goes m' (by omega))
  exact Nat.le_antisymm (hle a b) (hle b a)

theorem ordered_of_mem (he : e ∈ chart) : e.2.Ordered := by
  obtain ⟨w, -, rfl⟩ := List.mem_map.mp he
  have hwhole : Left.whole.Ordered := by
    have hcheck : (Left.whole.map (·.1)).Pairwise (· < ·) := by decide
    exact hcheck
  have hfold : ∀ left : Left, left.Ordered → (w.foldl (fun left c => left.after c.toNat) left).Ordered := by
    clear he
    induction w with
    | nil => exact fun _ h => h
    | cons c w ih => exact fun left h => ih _ (Left.ordered_after h c.toNat)
  exact hfold _ hwhole

theorem ending_first {left : Left} (hleft : left.Ordered) (hk : ending? left = some k) :
    left.Spells k [] ∧ ∀ k', left.Spells k' [] → k ≤ k' := by
  obtain ⟨r, hr, rfl⟩ := Option.map_eq_some_iff.mp hk
  obtain ⟨hnullable, before, later, rfl, hbefore⟩ := List.find?_eq_some_iff_append.mp hr
  refine ⟨⟨r.2, by simp, Shape.spells_nil.2 hnullable⟩, fun k' ⟨a, ha, hnil⟩ => ?_⟩
  rcases List.mem_append.mp ha with hmem | hmem
  · have hno := hbefore _ hmem
    rw [Shape.spells_nil.1 hnil] at hno
    cases hno
  · rcases List.mem_cons.mp hmem with heq | hmem
    · exact Nat.le_of_eq (congrArg Prod.fst heq).symm
    · unfold Left.Ordered at hleft
      rw [List.map_append, List.map_cons] at hleft
      have hlater := (List.pairwise_cons.mp (List.pairwise_append.mp hleft).2.1).1
      exact Nat.le_of_lt (hlater k' (List.mem_map.mpr ⟨_, hmem, rfl⟩))

theorem rule_of_matches {w : List Char} (hk : Matches k w) : ∃ r, rules[k]? = some r ∧ rules.getD k default = r := by
  obtain ⟨r, hr, -⟩ := hk
  exact ⟨r, hr, by rw [List.getD_eq_getElem?_getD, hr, Option.getD_some]⟩

/-- A match of the lexer is the longest one, and its token type and commands are those of the first rule that has it. -/
theorem longest_of_munch {cs : List Config} (hbest : ((atlas h).munch (atlas h).first chars).2 = some (n, cs)) :
    ∃ k r, Longest chars n k ∧ rules[k]? = some r ∧ (nodeOf (network command) cs).prediction = r.type ∧
      programOf (network command) (nodeOf (network command) cs) = if r.hidden then some [{ command }] else none := by
  have hlongest := munch_best (h := h) first_mem chars
  have hstart : first.map (Spot.config command) = (atlas h).first := rfl
  rw [hstart, hbest] at hlongest
  obtain ⟨hpos, hle, ⟨d, hd, rfl, hspells⟩, ⟨j, hj⟩, hsilent⟩ := hlongest
  have hends : ∀ k', d.2.Spells k' [] ↔ Matches k' (chars.take n) := by
    intro k'
    rw [hspells, List.append_nil, Left.spells_whole]
  obtain ⟨k, hk⟩ := Option.isSome_iff_exists.mp (ending_isSome.2 ⟨j, (hends j).mpr (Left.spells_whole.1 hj)⟩)
  obtain ⟨hhit, hfirst⟩ := ending_first (ordered_of_mem hd) hk
  obtain ⟨r, hr, hget⟩ := rule_of_matches ((hends k).mp hhit)
  refine ⟨k, r, ⟨hpos, hle, (hends k).mp hhit, fun k' hk' => hfirst k' ((hends k').mpr hk'), fun n' k' hn' hk' => ?_⟩, hr, ?_, ?_⟩
  · by_contra hlt
    exact hsilent n' (by omega) hn' k' (Left.spells_whole.2 hk')
  · rw [nodeOf_entry command hd, nodeFor, hk, Option.map_some, Option.getD_some, hget]
  · rw [nodeOf_entry command hd, programOf_entry command hd, hk, Option.bind_some, hget]

theorem Extends.take {w : List Char} (hw : Extends w) (m : Nat) : Extends (w.take m) := by
  obtain ⟨k, v, hv⟩ := hw
  exact ⟨k, w.drop m ++ v, by rw [← List.append_assoc, List.take_append_drop]; exact hv⟩

/-- Where the lexer matches nothing it has come to the character with which no rule goes on, or to the end. -/
theorem stuck_of_munch (hne : chars ≠ []) (hbest : ((atlas h).munch (atlas h).first chars).2 = none) :
    Stuck chars (min (((atlas h).munch (atlas h).first chars).1 + 1) chars.length) := by
  have hsilent := munch_best (h := h) first_mem chars
  have hstart : first.map (Spot.config command) = (atlas h).first := rfl
  rw [hstart, hbest] at hsilent
  obtain ⟨hle, ⟨k, v, hv⟩, hstop⟩ := munch_far (h := h) first_mem chars
  rw [hstart] at hle hv hstop
  have hlength := List.length_pos_of_ne_nil hne
  have hfar : Extends (chars.take ((atlas h).munch (atlas h).first chars).1) := ⟨k, v, Left.spells_whole.1 hv⟩
  refine ⟨by omega, by omega, fun n' k' hpos hn' hk' => hsilent n' hpos hn' k' (Left.spells_whole.2 hk'), fun n' hn' => ?_, ?_⟩
  · have htake := hfar.take n'
    rw [List.take_take, Nat.min_eq_left (by omega)] at htake
    exact htake
  · by_cases hend : ((atlas h).munch (atlas h).first chars).1 + 1 ≤ chars.length
    · right
      rw [Nat.min_eq_left hend]
      intro ⟨k', v', hv'⟩
      exact hstop hend ⟨k', v', Left.spells_whole.2 hv'⟩
    · left
      omega

end Lexicon

end NimbleLang.Grammar
