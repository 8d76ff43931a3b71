import NimbleLang.Proofs.Roaming

/-!
What a match finds. The lists of configurations that a lexer moves among are given once and for all (`Atlas`), so a match
depends on the characters ahead alone: `munch` says how far rules can go on and where the last of them ended, and a match goes
there, whatever was learnt before (`matchMode_eq`).

Lines and columns are those of the characters before the cursor (`Placed`).
-/

namespace NimbleLang

open Run (outcome_bind_ok outcome_get_bind)

/-! ## Places in a source -/

namespace Source

variable (source : Source) (i : Nat)

/-- The characters from a place on. -/
def rest : List Char := source.chars.toList.drop i

/-- The line of a place: one more than the line breaks before it. -/
def lineAt : Int := 1 + ((source.chars.toList.take i).count '\n' : Nat)

/-- The column of a place: the characters since the last line break before it. -/
def columnAt : Int := (((source.chars.toList.take i).reverse.takeWhile (· ≠ '\n')).length : Nat)

variable {source : Source} {i : Nat}

theorem rest_eq_nil_iff : source.rest i = [] ↔ source.size ≤ i := by
  rw [rest, List.drop_eq_nil_iff, Array.length_toList]
  rfl

theorem length_rest : (source.rest i).length = source.size - i := by
  rw [rest, List.length_drop, Array.length_toList]
  rfl

theorem rest_add (n : Nat) : source.rest (i + n) = (source.rest i).drop n := by
  rw [rest, rest, List.drop_drop]

variable {c : Char} {r : List Char}

section

variable (h : source.rest i = c :: r)
include h

theorem rest_succ : source.rest (i + 1) = r := by
  rw [rest_add, h, List.drop_one, List.tail_cons]

theorem lt_of_rest : i < source.size := by
  have hlength : (source.rest i).length = source.size - i := length_rest
  rw [h, List.length_cons] at hlength
  omega

theorem getElem?_of_rest : source.chars[i]? = some c := by
  have hget : (source.rest i)[0]? = some c := by
    rw [h]
    rfl
  rw [rest, List.getElem?_drop] at hget
  rw [← Array.getElem?_toList]
  exact hget

theorem take_succ_of_rest : source.chars.toList.take (i + 1) = source.chars.toList.take i ++ [c] := by
  rw [List.take_add_one, Array.getElem?_toList, getElem?_of_rest h]
  rfl

theorem codeAt_rest_cons : source.codeAt i = c.toNat := by
  unfold codeAt
  rw [if_pos (by omega), Int.toNat_natCast, getElem?_of_rest h]

end

theorem codeAt_rest_nil (h : source.rest i = []) : source.codeAt i = endMark := by
  unfold codeAt
  have hsize := rest_eq_nil_iff.1 h
  rw [if_pos (by omega), Int.toNat_natCast, Array.getElem?_eq_none hsize]

theorem lineAt_succ (h : source.rest i = c :: r) :
    source.lineAt (i + 1) = if c = '\n' then source.lineAt i + 1 else source.lineAt i := by
  unfold lineAt
  rw [take_succ_of_rest h, List.count_append, List.count_singleton]
  by_cases hc : c = '\n'
  · simp [hc]
    omega
  · simp [hc]

theorem columnAt_succ (h : source.rest i = c :: r) :
    source.columnAt (i + 1) = if c = '\n' then 0 else source.columnAt i + 1 := by
  unfold columnAt
  rw [take_succ_of_rest h, List.reverse_append, List.reverse_singleton, List.singleton_append, List.takeWhile_cons]
  by_cases hc : c = '\n' <;> simp [hc]

end Source

theorem char_code_range (c : Char) : 0 ≤ (c.toNat : Int) ∧ (c.toNat : Int) ≤ 0x10ffff := by
  have h := c.valid
  have hval : c.val.toNat < 0x110000 := by
    rcases h with h | h
    · omega
    · exact h.2
  have hn : c.toNat = c.val.toNat := rfl
  omega

namespace Scan

/-- A scanner at a place of its source. -/
structure Placed (source : Source) (i : Nat) (s : Scanner) : Prop where
  cursor : s.cursor = ⟨source, i⟩
  line : s.line = source.lineAt i
  column : s.column = source.columnAt i

/-- The scanner moved to another place. -/
def Scanner.at (s : Scanner) (source : Source) (i : Nat) : Scanner :=
  { s with cursor := ⟨source, i⟩, line := source.lineAt i, column := source.columnAt i }

variable {source : Source} {i : Nat} {s : Scanner}

theorem Scanner.placed_at (s : Scanner) (source : Source) (i : Nat) : Placed source i (s.at source i) := ⟨rfl, rfl, rfl⟩

theorem Placed.eq_at (h : Placed source i s) : s = s.at source i := by
  unfold Scanner.at
  rw [← h.cursor, ← h.line, ← h.column]

variable {r : List Char}

theorem Placed.peek_cons (h : Placed source i s) {c : Char} (hr : source.rest i = c :: r) :
    s.cursor.peek 1 = c.toNat := by
  rw [h.cursor, Cursor.peek, if_neg (by decide), if_neg (by decide)]
  have hplace : (i : Int) + 1 - 1 = i := by omega
  rw [hplace, Source.codeAt_rest_cons hr]

theorem Placed.peek_nil (h : Placed source i s) (hr : source.rest i = []) : s.cursor.peek 1 = Source.endMark := by
  rw [h.cursor, Cursor.peek, if_neg (by decide), if_neg (by decide)]
  have hplace : (i : Int) + 1 - 1 = i := by omega
  rw [hplace, Source.codeAt_rest_nil hr]

theorem code_eq_ten (c : Char) : ((c.toNat : Int) = 10) ↔ c = '\n' := by
  constructor
  · intro h
    have hn : c.toNat = '\n'.toNat := by
      have : '\n'.toNat = 10 := by decide
      omega
    exact Char.toNat_inj.mp hn
  · intro h
    rw [h]
    decide

theorem consume_eq (h : Placed source i s) {c : Char} (hr : source.rest i = c :: r) :
    consume.outcome s = (.ok (), s.at source (i + 1)) := by
  have hlt := Source.lt_of_rest hr
  have hpeek := h.peek_cons hr
  have hadvance : s.advance = { s with line := source.lineAt (i + 1), column := source.columnAt (i + 1) } := by
    unfold Scanner.advance
    rw [hpeek, Source.lineAt_succ hr, Source.columnAt_succ hr, ← h.line, ← h.column]
    by_cases hc : c = '\n'
    · rw [if_pos ((code_eq_ten c).mpr hc), if_pos hc, if_pos hc]
    · have hne : ¬((c.toNat : Int) = 10) := fun h => hc ((code_eq_ten c).mp h)
      simp only [hne, hc, if_false]
  have hcursor : (Cursor.mk source i).consume = .ok ⟨source, (i + 1 : Nat)⟩ := by
    have hinside : ¬((i : Int) ≥ source.size) := by omega
    exact if_neg hinside
  unfold consume
  rw [Run.outcome_modify_bind, outcome_get_bind, hadvance]
  dsimp only
  rw [h.cursor, hcursor, outcome_bind_ok (Run.outcome_lift _ _), Run.outcome_modify]
  rfl

/-! ## What a lexer moves among -/

variable {net : Network}

/-- Commands that only mark the token under way. -/
def Marks (p : Program) : Prop := p = [{ command := .skip }] ∨ ∃ c, p = [{ command := .channel c }]

/-- Characters, and the mark at the end of the source. -/
def Symbol (x : Int) : Prop := x = Source.endMark ∨ ∃ c : Char, x = c.toNat

/-- The lists of configurations that the lexer of a network moves among, from the first on. -/
structure Atlas (net : Network) where
  first : List Config
  /-- The configurations after a character. -/
  onward : List Config → Int → List Config
  known : List Config → Prop
  mechanical : net.Mechanical
  begins : opening net 0 = .ok first
  known_first : known first
  steps : ∀ {cs x}, known cs → Symbol x → Scan.onward net cs x = .ok (onward cs x)
  known_onward : ∀ {cs x}, known cs → Symbol x → onward cs x ≠ [] → known (onward cs x)
  stop : ∀ {cs}, known cs → onward cs Source.endMark = []
  /-- No rule matches the empty text. -/
  eager : (nodeOf net first).accepts = false
  marks : ∀ {cs}, known cs → ∀ p, programOf net (nodeOf net cs) = some p → Marks p

namespace Atlas

variable {m : Atlas net} {cs : List Config} {s' : Scanner} {found : Option Int}

/-! ## Munching -/

/-- How far rules can go on from a list of configurations, and where the last of them ends, with its configurations. -/
def munch (m : Atlas net) (cs : List Config) : List Char → Nat × Option (Nat × List Config)
  | [] => (0, none)
  | c :: rest =>
    let ds := m.onward cs c.toNat
    if ds.isEmpty then (0, none)
    else
      let (n, best) := munch m ds rest
      (n + 1, best.elim (if (nodeOf net ds).accepts then some (1, ds) else none) fun (j, es) => some (j + 1, es))

theorem munch_nil (m : Atlas net) (cs : List Config) : m.munch cs [] = (0, none) := rfl

theorem munch_stuck (m : Atlas net) {c : Char} (h : m.onward cs c.toNat = []) (rest : List Char) : m.munch cs (c :: rest) = (0, none) := by
  simp only [munch, h, List.isEmpty_nil, if_true]

theorem munch_cons (m : Atlas net) {c : Char} (h : m.onward cs c.toNat ≠ []) (rest : List Char) :
    m.munch cs (c :: rest) = ((m.munch (m.onward cs c.toNat) rest).1 + 1,
      (m.munch (m.onward cs c.toNat) rest).2.elim
        (if (nodeOf net (m.onward cs c.toNat)).accepts then some (1, m.onward cs c.toNat) else none) fun (j, es) => some (j + 1, es)) := by
  simp only [munch, List.isEmpty_eq_false_iff.mpr h, Bool.false_eq_true, if_false]

variable {source : Source} {i : Nat}

/-- The match that `munch` finds from place `i` on. -/
def foundFrom (source : Source) (i : Nat) : Option (Nat × List Config) → Option Found :=
  Option.map fun q => ⟨(i + q.1 : Nat), source.lineAt (i + q.1), source.columnAt (i + q.1), q.2⟩

/-- A match found further on is better than the one here. -/
theorem foundFrom_cons (best : Option (Nat × List Config)) (accepts : Bool) (ds : List Config) :
    foundFrom source i (best.elim (if accepts then some (1, ds) else none) fun (j, es) => some (j + 1, es)) =
      (foundFrom source (i + 1) best).or
        (if accepts then some ⟨(i + 1 : Nat), source.lineAt (i + 1), source.columnAt (i + 1), ds⟩ else none) := by
  cases best with
  | none => cases accepts <;> rfl
  | some q =>
    have hplace : i + (q.1 + 1) = i + 1 + q.1 := by omega
    unfold foundFrom
    rw [Option.elim_some, Option.map_some, Option.map_some, hplace, Option.some_or]

theorem roam_eq (m : Atlas net) (hp : Placed source i s) (hcs : m.known cs) (before : Option Found) {fuel : Nat}
    (hfuel : (source.rest i).length < fuel) :
    (roam net fuel cs (s.cursor.peek 1) before).outcome s =
      (.ok ((foundFrom source i (m.munch cs (source.rest i)).2).or before, source.codeAt (i + (m.munch cs (source.rest i)).1 : Nat)),
        s.at source (i + (m.munch cs (source.rest i)).1)) := by
  induction fuel generalizing s i cs before with
  | zero => omega
  | succ fuel ih =>
    unfold roam
    cases hr : source.rest i with
    | nil =>
      -- at the end of the source no rule goes on
      rw [hp.peek_nil hr, m.steps hcs (.inl rfl), m.stop hcs, outcome_bind_ok (Run.outcome_lift _ _), munch_nil, Nat.add_zero,
        Source.codeAt_rest_nil hr, ← hp.eq_at]
      rfl
    | cons c r =>
      have hsymbol : Symbol (c.toNat : Int) := .inr ⟨c, rfl⟩
      rw [hp.peek_cons hr, m.steps hcs hsymbol, outcome_bind_ok (Run.outcome_lift _ _)]
      by_cases hempty : m.onward cs c.toNat = []
      · rw [m.munch_stuck hempty, hempty, Nat.add_zero, Source.codeAt_rest_cons hr, ← hp.eq_at]
        rfl
      have hmark : (c.toNat : Int) ≠ Source.endMark := by
        have hpos := (char_code_range c).1
        have hend : Source.endMark = -1 := rfl
        omega
      have hbeq : ((c.toNat : Int) == Source.endMark) = false := beq_eq_false_iff_ne.mpr hmark
      have hrest := Source.rest_succ hr
      have hwalk := ih (s.placed_at source (i + 1)) (m.known_onward hcs hsymbol hempty)
        ((Found.here? net (s.at source (i + 1)) (m.onward cs c.toNat)).or before) (by rw [hr, List.length_cons] at hfuel; rw [hrest]; omega)
      have hplace : ∀ n, i + 1 + n = i + (n + 1) := by omega
      rw [if_neg (mt List.isEmpty_iff.mp hempty), if_pos hmark, outcome_bind_ok (consume_eq hp hr), outcome_get_bind]
      simp only [hbeq, Bool.and_false, Bool.false_eq_true, if_false]
      rw [hwalk, hrest, m.munch_cons hempty, foundFrom_cons, Option.or_assoc, hplace]
      rfl

/-! ## One match -/

/-- A match ends no later than rules can go on, at configurations that are known and accept it. -/
theorem munch_some (m : Atlas net) (hcs : m.known cs) {chars : List Char} {j : Nat} {ds : List Config}
    (h : (m.munch cs chars).2 = some (j, ds)) :
    0 < j ∧ j ≤ (m.munch cs chars).1 ∧ m.known ds ∧ (nodeOf net ds).accepts = true := by
  induction chars generalizing cs j with
  | nil => cases h
  | cons c rest ih =>
    have hknown := m.known_onward hcs (.inr ⟨c, rfl⟩)
    by_cases hempty : m.onward cs c.toNat = []
    · rw [m.munch_stuck hempty] at h
      cases h
    · rw [m.munch_cons hempty] at h ⊢
      dsimp only at h ⊢
      cases hbest : (m.munch (m.onward cs c.toNat) rest).2 with
      | some q =>
        obtain ⟨l, es⟩ := q
        rw [hbest] at h
        obtain ⟨rfl, rfl⟩ := Prod.mk.inj (Option.some.inj h)
        have hrest := ih (hknown hempty) hbest
        exact ⟨by omega, by omega, hrest.2.2⟩
      | none =>
        rw [hbest, Option.elim_none] at h
        split at h
        · obtain ⟨rfl, rfl⟩ := Prod.mk.inj (Option.some.inj h)
          exact ⟨by omega, by omega, hknown hempty, ‹_›⟩
        · cases h

/-- The scanner after the commands of a match. -/
def marked (p : Option Program) (s : Scanner) : Scanner :=
  match p with
  | some [{ command := .skip, tag := _ }] => { s with type := Scanner.skipType }
  | some [{ command := .channel c, tag := _ }] => { s with channel := c }
  | _ => s

theorem runProgram_eq {p : Program} (hp : Marks p) (start : Int) (s : Scanner) :
    (runProgram p start).outcome s = (.ok (), marked (some p) s) := by
  rcases hp with rfl | ⟨c, rfl⟩ <;> rfl

theorem carryOut_matched {p : Option Program} (hp : ∀ q, p = some q → Marks q) (type : Int) (s : Scanner) :
    (Verdict.matched type p).carryOut.outcome s = (.ok (some type), marked p s) := by
  cases p with
  | none => rfl
  | some p =>
    dsimp only [Verdict.carryOut]
    rw [outcome_get_bind, outcome_bind_ok (runProgram_eq (hp p rfl) _ _)]
    rfl

/-- The scanner with other automata, which are faithful, and nothing else. -/
def Settled (net : Network) (s s' : Scanner) : Prop := ∃ automata, Faithful net automata ∧ s' = { s with automata }

/-- What a match from place `i` on finds, and the scanner it leaves. -/
def Matched (m : Atlas net) (source : Source) (i : Nat) (s : Scanner) (found : Option Int) (s' : Scanner) : Prop :=
  match m.munch m.first (source.rest i) with
  | (_, some (j, ds)) => found = some (nodeOf net ds).prediction ∧
      ∃ s₁, Settled net (s.at source (i + j)) s₁ ∧ s' = marked (programOf net (nodeOf net ds)) s₁
  | (n, none) => found = (if source.rest i = [] then some Token.eof else none) ∧ Settled net (s.at source (i + n)) s'

theorem verdictIn_eq (m : Atlas net) (hp : Placed source i s) :
    (verdictIn net 0).outcome s = match m.munch m.first (source.rest i) with
      | (_, some (j, ds)) => (.ok (.matched (nodeOf net ds).prediction (programOf net (nodeOf net ds))),
          Scanner.at { s with startIndex := i } source (i + j))
      | (n, none) => (.ok (if source.rest i = [] then .atEnd else .unmatched), Scanner.at { s with startIndex := i } source (i + n)) := by
  have hp' : Placed source i { s with startIndex := (i : Int) } := ⟨hp.cursor, hp.line, hp.column⟩
  have hindex : s.cursor.index = i := by rw [hp.cursor]
  have hfuel : (source.rest i).length < walkBound net (s.cursor.source.size - s.cursor.index).toNat := by
    have hleft : (s.cursor.source.size - s.cursor.index).toNat = (source.rest i).length := by
      rw [Source.length_rest, hp.cursor]
      dsimp only
      omega
    rw [hleft]
    exact Nat.lt_add_of_pos_right (Nat.succ_pos _)
  have hroam := m.roam_eq hp' m.known_first none hfuel
  unfold verdictIn judge Found.here?
  rw [Run.outcome_modify_bind, m.begins, outcome_bind_ok (Run.outcome_lift _ _), outcome_get_bind, m.eager, hindex]
  rw [hindex] at hroam
  simp only [Bool.false_eq_true, if_false]
  rw [outcome_bind_ok hroam, Option.or_none]
  rcases hmunch : m.munch m.first (source.rest i) with ⟨far, _ | ⟨j, ds⟩⟩
  · have hend : (source.codeAt (i + far : Nat) = Source.endMark ∧ ((i + far : Nat) : Int) = i) ↔ source.rest i = [] := by
      constructor
      · rintro ⟨hmark, hplace⟩
        obtain rfl : far = 0 := by omega
        cases hr : source.rest i with
        | nil => rfl
        | cons c r =>
          rw [Nat.add_zero, Source.codeAt_rest_cons hr] at hmark
          have hpos := (char_code_range c).1
          have hneg : Source.endMark = -1 := rfl
          omega
      · intro hr
        rw [hr, munch_nil] at hmunch
        obtain rfl : far = 0 := (Prod.mk.inj hmunch).1.symm
        exact ⟨Source.codeAt_rest_nil hr, by omega⟩
    unfold foundFrom conclude
    rw [Option.map_none, outcome_get_bind, Run.outcome_pure]
    have hverdict : (if source.codeAt (i + far : Nat) = Source.endMark ∧ ((i + far : Nat) : Int) = i then Verdict.atEnd else .unmatched) =
        if source.rest i = [] then .atEnd else .unmatched := if_congr hend rfl rfl
    exact congrArg (fun v => (Except.ok v, Scanner.at { s with startIndex := (i : Int) } source (i + far))) hverdict
  · have hbest : (m.munch m.first (source.rest i)).2 = some (j, ds) := by rw [hmunch]
    obtain ⟨-, hfar, -⟩ := m.munch_some m.known_first hbest
    rw [hmunch] at hfar
    have hback : (⟨source, (i + far : Nat)⟩ : Cursor).seek (i + j : Nat) = ⟨source, (i + j : Nat)⟩ := by
      unfold Cursor.seek
      rw [if_pos (by dsimp only at hfar ⊢; omega)]
    unfold foundFrom conclude
    rw [Option.map_some, Run.outcome_modify_bind, Run.outcome_pure]
    dsimp only [Scanner.at]
    rw [hback]

/-- One match goes where `munch` goes, whatever was learnt already. -/
theorem matchMode_eq (m : Atlas net) (h : Studied net s) (hp : Placed source i s) :
    ∃ found s', (matchMode 0).outcome s = (.ok found, s') ∧ m.Matched source i { s with startIndex := i } found s' := by
  obtain ⟨t, as, hbeside, has, hmatch⟩ := matchMode_taught m.mechanical ⟨h.above, rfl⟩ h.faithful 0
  have hmatch : (matchMode 0).outcome s = _ := hmatch
  have hverdict := m.verdictIn_eq hp
  unfold Matched
  rw [hmatch]
  rcases hmunch : m.munch m.first (source.rest i) with ⟨far, _ | ⟨j, ds⟩⟩
  · rw [hmunch] at hverdict
    rw [hverdict] at hbeside ⊢
    obtain ⟨-, rfl⟩ := hbeside
    dsimp only [Verdict.of]
    split <;> exact ⟨_, _, rfl, rfl, as, has, rfl⟩
  · have hbest : (m.munch m.first (source.rest i)).2 = some (j, ds) := by rw [hmunch]
    obtain ⟨-, -, hknown, -⟩ := m.munch_some m.known_first hbest
    rw [hmunch] at hverdict
    rw [hverdict] at hbeside ⊢
    obtain ⟨-, rfl⟩ := hbeside
    exact ⟨_, _, carryOut_matched (m.marks hknown) _ _, rfl, _, ⟨as, has, rfl⟩, rfl⟩

end Atlas

end Scan

end NimbleLang
