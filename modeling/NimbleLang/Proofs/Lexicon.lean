import NimbleLang.Proofs.LexerStates
import NimbleLang.Proofs.Matching

/-!
The lexical rules of Nimble, and the lexer that runs them. `Lexicon.rules` lists the rules in order, each with the shape of
its lexemes: the quoted symbols, then the classes of tokens. A string ends at its first quote that is not escaped.

The network of the lexer and the rules are two descriptions of one thing. Read in step, character by character, a list of
spots of the network and what is left of the rules come to finitely many pairs (`chart`). That the pairs agree is computed
once, as `chart_sound`; `chart_step` says what it means for a character, and `sound_of_mem` for the rule that has ended.
-/

namespace NimbleLang.Grammar

open Scan

/-! ## The rules -/

/-- A lexical rule: the type of its tokens, the shape of its lexemes, and whether these are kept from the parser. -/
structure LexicalRule where
  type : Int
  shape : Shape
  hidden : Bool := false
  deriving Inhabited

namespace Lexicon

def digit : List Span := [⟨48, 58⟩]

/-- Letters and the underscore. -/
def letter : List Span := [⟨65, 91⟩, ⟨95, 96⟩, ⟨97, 123⟩]

/-- The printable characters that stand for themselves in a string: all but the quote and the backslash. -/
def plain : List Span := [⟨32, 34⟩, ⟨35, 92⟩, ⟨93, 127⟩]

/-- All characters that do not end a line. -/
def inLine : List Span := [⟨0, 10⟩, ⟨11, 13⟩, ⟨14, 0x110000⟩]

def escape : Shape := .seq (.char '\\') (.oneOf "abfnrtv'\"\\?".toList)

/-- The classes of tokens: strings, integers, types, truth values, names, blanks and comments. -/
def classes : List LexicalRule :=
  [{ type := 24, shape := .seq (.char '"') (.seq (.many (.either (.one plain) escape)) (.char '"')) },
    { type := 25, shape := .atLeastOnce (.one digit) },
    { type := 26, shape := .either (.text "Int".toList) (.either (.text "Bool".toList) (.text "String".toList)) },
    { type := 27, shape := .either (.text "true".toList) (.text "false".toList) },
    { type := 28, shape := .seq (.one letter) (.many (.one (digit ++ letter))) },
    { type := 29, shape := .atLeastOnce (.oneOf " \t\r\n".toList), hidden := true },
    { type := 30, shape := .seq (.text "//".toList) (.many (.one inLine)), hidden := true }]

/-- The quoted symbols in order, and the classes. -/
def rules : List LexicalRule :=
  (LexerStates.quoted.zipIdx.map fun (text, i) => { type := i + 1, shape := .text text.toList }) ++ classes

/-- Rule number `k` matches a text. -/
def Matches (k : Nat) (w : List Char) : Prop := ∃ r, rules[k]? = some r ∧ r.shape.Spells w

/-- Some rule matches a text that begins like this. -/
def Extends (w : List Char) : Prop := ∃ k v, Matches k (w ++ v)

end Lexicon

/-! ## What is left of the rules -/

/-- What is left of the rules, by their numbers. A rule of which nothing is left does not occur. -/
abbrev Left := List (Nat × Shape)

namespace Left

def whole : Left := Lexicon.rules.zipIdx.map fun (r, k) => (k, r.shape)

def after (x : Int) (left : Left) : Left := (left.map fun (k, a) => (k, a.after x)).filter fun r => r.2 ≠ .void

/-- What is left of rule `k` has a text. -/
def Spells (left : Left) (k : Nat) (w : List Char) : Prop := ∃ a, (k, a) ∈ left ∧ a.Spells w

theorem spells_whole {k : Nat} {w : List Char} : whole.Spells k w ↔ Lexicon.Matches k w := by
  unfold Spells whole Lexicon.Matches
  constructor
  · intro ⟨a, hmem, ha⟩
    obtain ⟨⟨r, k'⟩, hr, heq⟩ := List.mem_map.mp hmem
    obtain ⟨rfl, rfl⟩ := Prod.mk.inj heq
    exact ⟨r, List.mem_zipIdx_iff_getElem?.mp hr, ha⟩
  · intro ⟨r, hr, ha⟩
    exact ⟨r.shape, List.mem_map.mpr ⟨(r, k), List.mem_zipIdx_iff_getElem?.mpr hr, rfl⟩, ha⟩

theorem spells_after {left : Left} {k : Nat} {c : Char} {w : List Char} :
    (left.after c.toNat).Spells k w ↔ left.Spells k (c :: w) := by
  unfold Spells after
  constructor
  · intro ⟨a, hmem, ha⟩
    obtain ⟨⟨k', b⟩, hb, heq⟩ := List.mem_map.mp (List.mem_filter.mp hmem).1
    obtain ⟨rfl, rfl⟩ := Prod.mk.inj heq
    exact ⟨b, hb, Shape.spells_cons.2 ha⟩
  · intro ⟨b, hb, hw⟩
    have ha := Shape.spells_cons.1 hw
    refine ⟨b.after c.toNat, List.mem_filter.mpr ⟨List.mem_map.mpr ⟨(k, b), hb, rfl⟩, ?_⟩, ha⟩
    have hvoid : b.after c.toNat ≠ .void := by
      intro h
      rw [h] at ha
      exact Shape.not_spells_void ha
    exact decide_eq_true hvoid

/-- The rules keep their order. -/
def Ordered (left : Left) : Prop := (left.map (·.1)).Pairwise (· < ·)

theorem ordered_after {left : Left} (h : left.Ordered) (x : Int) : (left.after x).Ordered := by
  have hmap : (left.map fun (k, a) => (k, a.after x)).map (·.1) = left.map (·.1) := by
    rw [List.map_map]
    rfl
  have hsub : List.Sublist ((left.after x).map (·.1)) (left.map (·.1)) := by
    rw [← hmap]
    exact List.filter_sublist.map _
  exact h.sublist hsub

def bounds (left : Left) : List Int := left.flatMap fun r => r.2.bounds

theorem after_congr {left : Left} {x y : Int} (h : SameSide left.bounds x y) : left.after x = left.after y := by
  unfold after
  congr 1
  refine List.map_congr_left fun r hr => ?_
  dsimp only
  rw [Shape.after_congr fun b hb => h b (List.mem_flatMap.mpr ⟨r, hr, hb⟩)]

end Left

/-- No rule matches a text with a dollar sign in front, so no name in a source is that of the scope of the main part. -/
theorem not_matches_dollar (k : Nat) (w : List Char) : ¬Lexicon.Matches k ('$' :: w) := by
  have hnone : Left.whole.after '$'.toNat = [] := by decide
  rw [← Left.spells_whole, ← Left.spells_after, hnone]
  rintro ⟨a, hmem, -⟩
  cases hmem

/-! ## The plan of the network -/

namespace LexerStates

/-- Fifteen states to a row. -/
def rows : Nat → List State → List (List State)
  | 0, _ => []
  | n + 1, states => states.take 15 :: rows n (states.drop 15)

theorem getD_rows {n k : Nat} (states : List State) (h : n < 15 * k) :
    ((rows k states).getD (n / 15) []).getD (n % 15) default = states.getD n default := by
  induction k generalizing n states with
  | zero => omega
  | succ k ih =>
    rw [rows]
    by_cases hn : n < 15
    · have hrow : n / 15 = 0 := by omega
      have hcell : n % 15 = n := by omega
      rw [hrow, hcell, List.getD_cons_zero, List.getD_eq_getElem?_getD, List.getD_eq_getElem?_getD, List.getElem?_take_of_lt hn]
    · have hrow : n / 15 = (n - 15) / 15 + 1 := by omega
      have hcell : n % 15 = (n - 15) % 15 := by omega
      have hplace : 15 + (n - 15) = n := by omega
      rw [hrow, hcell, List.getD_cons_succ, ih (states.drop 15) (by omega), List.getD_eq_getElem?_getD, List.getElem?_drop, hplace,
        List.getD_eq_getElem?_getD]

theorem length_rows (k : Nat) (states : List State) : (rows k states).length = k := by
  induction k generalizing states with
  | zero => rfl
  | succ k ih => rw [rows, List.length_cons, ih]

def grid : List (List State) := rows 14 all

def plan : Plan where
  state n := (grid.getD (n / 15) []).getD (n % 15) default
  states := 207
  rules := 32

set_option maxRecDepth 2000 in
theorem length_all : all.length = 207 := rfl

theorem state_eq (command : Command) (n : Nat) : (network command).state n = plan.state n := by
  have hnet : (network command).state n = all.getD n default := by
    simp [Network.state, network, Array.getD_eq_getD_getElem?, List.getD_eq_getElem?_getD]
  rw [hnet]
  by_cases hn : n < 15 * 14
  · exact (getD_rows all hn).symm
  · have hrows : grid.length = 14 := length_rows 14 all
    have hall := length_all
    dsimp only [plan]
    rw [List.getD_eq_getElem?_getD, List.getElem?_eq_none (by omega), List.getD_eq_getElem?_getD (l := grid),
      List.getElem?_eq_none (by omega)]
    rfl

theorem silent (n : Nat) : ∀ e ∈ (plan.state n).edges, e.asks = false := by
  have hgrid : ∀ row ∈ grid, ∀ s ∈ row, ∀ e ∈ s.edges, e.asks = false := by decide
  intro e he
  dsimp only [plan] at he
  by_cases hrow : n / 15 < grid.length
  · rw [List.getD_eq_getElem?_getD (l := grid), List.getElem?_eq_getElem hrow, Option.getD_some] at he
    by_cases hcell : n % 15 < grid[n / 15].length
    · rw [List.getD_eq_getElem?_getD, List.getElem?_eq_getElem hcell, Option.getD_some] at he
      exact hgrid _ (List.getElem_mem hrow) _ (List.getElem_mem hcell) e he
    · rw [List.getD_eq_getElem?_getD, List.getElem?_eq_none (by omega), Option.getD_none] at he
      cases he
  · rw [List.getD_eq_getElem?_getD (l := grid), List.getElem?_eq_none (by omega), Option.getD_none] at he
    cases he

theorem planned {command : Command} (h : command.positional = false) : Planned (network command) plan command where
  state := state_eq command
  states := length_all
  rules := rfl
  commands := rfl
  plain := h
  silent := silent

end LexerStates

/-! ## The lexer and the rules in step -/

namespace Lexicon

open LexerStates

/-- Spots of the lexer, and what is left of the rules. -/
abbrev Entry := List Spot × Left

/-- The spots a lexer starts from. -/
def first : List Spot := (plan.start 0).toOption.getD []

def onward (spots : List Spot) (x : Int) : List Spot := (plan.step spots x).toOption.getD []

/-- Texts that lead to all entries: the words of the language, letter by letter, and one text for each other turn. -/
def landmarks : List (List Char) :=
  ((quoted ++ ["Int", "Bool", "String", "true", "false", "\"\"", "\"\\", "0", "A", "\t", "//"]).flatMap fun t => t.toList.inits).eraseDups

def chart : List Entry := landmarks.map fun w =>
  (w.foldl (fun spots c => onward spots c.toNat) first, w.foldl (fun left c => left.after c.toNat) .whole)

/-- Where the characters that an entry can tell apart begin and end. -/
def boundsOf (e : Entry) : List Int := (e.1.flatMap fun c => (plan.state c.state).edges.flatMap Edge.bounds) ++ e.2.bounds

/-- One code point for each way in which an entry can tell characters apart. -/
def samples (e : Entry) : List Nat :=
  (boundsOf e).foldl (fun l b => if l.any (Nat.beq b.toNat) then l else b.toNat :: l) [0]

def headState : List Spot → Nat
  | [] => 0
  | c :: _ => c.state

/-- After a character the spots and the rules are an entry again, or nothing is left of both. -/
def meets (e : Entry) (x : Int) : Bool :=
  match plan.step e.1 x with
  | .ok [] => (e.2.after x).isEmpty
  | .ok spots => chart.any fun d => Nat.beq (headState d.1) (headState spots) && d == (spots, e.2.after x)
  | .error _ => false

/-- The spot at the end of a rule that comes first. -/
def ended? (spots : List Spot) : Option Spot := spots.find? fun c => (plan.state c.state).kind == .ruleStop

/-- The token type of the rule that has ended, and how often its command was met. -/
def verdict (spots : List Spot) : Option (Option Int × Nat) :=
  (ended? spots).map fun c => (Indexing.arrayAt? tokenTypes (plan.state c.state).rule, c.met)

/-- The token type of a rule, with one command if it is hidden. -/
def ruling (k : Nat) : Option Int × Nat :=
  let rule := rules.getD k default
  (some rule.type, if rule.hidden then 1 else 0)

/-- The first rule that has ended. -/
def ending? (left : Left) : Option Nat := (left.find? fun r => r.2.nullable).map (·.1)

/-- What has to hold of an entry, and can be computed. -/
def sound (e : Entry) : Bool :=
  (samples e).all (fun x => meets e x) && (plan.step e.1 Source.endMark).toOption == some [] && verdict e.1 == (ending? e.2).map ruling &&
    e.2.any (·.2.alive) && (boundsOf e).all fun b => 0 ≤ b && b ≤ 0x110000

theorem chart_sound : chart.all sound = true := by decide +kernel

theorem start_eq : plan.start 0 = .ok first := by
  have hstart : (plan.start 0).toOption.isSome = true := by decide
  unfold first
  cases h : plan.start 0 with
  | error f =>
    rw [h] at hstart
    cases hstart
  | ok spots => rfl

theorem first_mem : (first, Left.whole) ∈ chart := by
  have hmem : [] ∈ landmarks := by decide
  exact List.mem_map.mpr ⟨[], hmem, rfl⟩

/-- The greatest number of a list up to a bound. -/
theorem exists_floor {l : List Nat} (h : 0 ∈ l) (x : Nat) : ∃ y ∈ l, y ≤ x ∧ ∀ b ∈ l, b ≤ x → b ≤ y := by
  induction x with
  | zero => exact ⟨0, h, Nat.le_refl 0, fun b _ hb => hb⟩
  | succ x ih =>
    by_cases hx : x + 1 ∈ l
    · exact ⟨x + 1, hx, Nat.le_refl _, fun b _ hb => hb⟩
    · obtain ⟨y, hy, hyx, hmax⟩ := ih
      refine ⟨y, hy, by omega, fun b hb hbx => hmax b hb ?_⟩
      have hne : b ≠ x + 1 := fun heq => hx (heq ▸ hb)
      omega

theorem mem_samples {e : Entry} : 0 ∈ samples e ∧ ∀ b ∈ boundsOf e, b.toNat ∈ samples e := by
  have hfold : ∀ (bs : List Int) (l : List Nat), (∀ n ∈ l, n ∈ bs.foldl (fun l b => if l.any (Nat.beq b.toNat) then l else b.toNat :: l) l) ∧
      ∀ b ∈ bs, b.toNat ∈ bs.foldl (fun l b => if l.any (Nat.beq b.toNat) then l else b.toNat :: l) l := by
    intro bs
    induction bs with
    | nil => exact fun l => ⟨fun _ h => h, nofun⟩
    | cons b bs ih =>
      intro l
      rw [List.foldl_cons]
      split
      · rename_i hany
        obtain ⟨n, hn, hbeq⟩ := List.any_eq_true.mp hany
        have hnb : n = b.toNat := (Nat.eq_of_beq_eq_true hbeq).symm
        refine ⟨(ih l).1, fun b' hb' => ?_⟩
        rcases List.mem_cons.mp hb' with rfl | hb'
        · exact (ih l).1 _ (hnb ▸ hn)
        · exact (ih l).2 b' hb'
      · refine ⟨fun n hn => (ih _).1 n (List.mem_cons_of_mem _ hn), fun b' hb' => ?_⟩
        rcases List.mem_cons.mp hb' with rfl | hb'
        · exact (ih _).1 _ List.mem_cons_self
        · exact (ih _).2 b' hb'
  exact ⟨(hfold _ [0]).1 0 List.mem_cons_self, (hfold _ [0]).2⟩

/-- What was computed of an entry. -/
structure Sound (e : Entry) : Prop where
  meets : ∀ x ∈ samples e, meets e x = true
  stop : plan.step e.1 Source.endMark = .ok []
  verdict : verdict e.1 = (ending? e.2).map ruling
  alive : ∃ r ∈ e.2, r.2.alive = true
  bounds : ∀ b ∈ boundsOf e, 0 ≤ b ∧ b ≤ 0x110000

theorem sound_of_mem {e : Entry} (he : e ∈ chart) : Sound e := by
  have h := List.all_eq_true.mp chart_sound e he
  simp only [sound, Bool.and_eq_true] at h
  obtain ⟨⟨⟨⟨hmeets, hstop⟩, hverdict⟩, halive⟩, hbounds⟩ := h
  refine ⟨fun x hx => List.all_eq_true.mp hmeets x hx, ?_, eq_of_beq hverdict, List.any_eq_true.mp halive, fun b hb => ?_⟩
  · cases hstep : plan.step e.1 Source.endMark with
    | error f =>
      rw [hstep] at hstop
      cases eq_of_beq hstop
    | ok spots =>
      rw [hstep] at hstop
      rw [Option.some.inj (eq_of_beq hstop)]
  · have hb' := List.all_eq_true.mp hbounds b hb
    simp only [Bool.and_eq_true, decide_eq_true_eq] at hb'
    exact hb'

/-- After a character the spots and the rules are an entry again, or nothing is left of both. -/
theorem chart_step {e : Entry} (he : e ∈ chart) (c : Char) :
    plan.step e.1 c.toNat = .ok (onward e.1 c.toNat) ∧
      ((onward e.1 c.toNat = [] ∧ e.2.after c.toNat = []) ∨
        (onward e.1 c.toNat ≠ [] ∧ (onward e.1 c.toNat, e.2.after c.toNat) ∈ chart)) := by
  have hsound := sound_of_mem he
  obtain ⟨hzero, hsamples⟩ := mem_samples (e := e)
  obtain ⟨y, hy, hyc, hmax⟩ := exists_floor hzero c.toNat
  have hrange := char_code_range c
  -- the sample below `c` cannot be told apart from it
  have hside : SameSide (boundsOf e) c.toNat y := by
    intro b hb
    have hpos := (hsound.bounds b hb).1
    have hfloor := hmax b.toNat (hsamples b hb)
    omega
  have hstep : plan.step e.1 c.toNat = plan.step e.1 y := by
    refine plan.step_congr (fun s hs d hd => ?_) ?_
    · refine Edge.admits_congr (hside.mono fun b hb => ?_) (by omega) (by omega)
      exact List.mem_append_left _ (List.mem_flatMap.mpr ⟨s, hs, List.mem_flatMap.mpr ⟨d, hd, hb⟩⟩)
    · have hend : Source.endMark = -1 := rfl
      rw [beq_eq_false_iff_ne.mpr (by omega), beq_eq_false_iff_ne.mpr (by omega)]
  have hleft : e.2.after c.toNat = e.2.after y := Left.after_congr (hside.mono fun b hb => List.mem_append_right _ hb)
  have hmeets := hsound.meets y hy
  unfold meets at hmeets
  unfold onward
  rw [hstep, hleft]
  split at hmeets
  · rename_i hnone
    rw [hnone]
    exact ⟨rfl, .inl ⟨rfl, List.isEmpty_iff.mp hmeets⟩⟩
  · rename_i spots hne hsome
    rw [hsome]
    obtain ⟨d, hd, hbeq⟩ := List.any_eq_true.mp hmeets
    obtain rfl := eq_of_beq (Bool.and_eq_true_iff.mp hbeq).2
    exact ⟨rfl, .inr ⟨hne, hd⟩⟩
  · cases hmeets

end Lexicon

end NimbleLang.Grammar
