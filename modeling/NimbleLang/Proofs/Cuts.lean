import NimbleLang.Proofs.Lexing
import NimbleLang.Proofs.Turns

/-!
How a scanner cuts a Nimble source. One turn makes one piece (`Between.turn`), so the turns up to the end of the source
are a `Course`: at every place the longest match by the first rule that has it, shown or hidden as the rule says, and where no rule
matches a complaint about what is dropped. What holds of all sources is read off the course: its pieces are those of the
reference scanner `Cuts`, which knows the lexical rules only, and they lie side by side (`Tiles`) from the beginning of the source
to its end.
-/

namespace NimbleLang

@[simp] theorem Journal.add_reports (j : Journal) (r : Report) : (j.add r).reports = j.reports.push r := by
  cases r with
  | complaint line column message token kind stuckOn =>
    by_cases h : j.echo = true <;> simp [Journal.add, h]
  | ambiguity | attempt | sensitivity => rfl

/-! ## Stretches of a source -/

namespace Source

/-- So many characters from a place on. -/
def span (source : Source) (i n : Nat) : String := String.ofList ((source.rest i).take n)

variable {source : Source} {i n : Nat}

theorem slice_eq_span (hn : 0 < n) (hle : i + n ≤ source.size) {stop : Int}
    (hstop : stop = i + n - 1 ∨ (i + n = source.size ∧ source.size ≤ stop)) : source.slice i stop = source.span i n := by
  have hlength : source.chars.toList.length = source.size := Array.length_toList
  have hclip : (if stop ≥ source.size then (source.size : Int) - 1 else stop) + 1 = (i + n : Nat) := by
    rcases hstop with h | ⟨h, h'⟩
    · rw [if_neg (by omega)]
      omega
    · rw [if_pos h']
      omega
  unfold slice span rest
  rw [if_neg (by omega)]
  dsimp only
  rw [hclip]
  unfold Indexing.between Indexing.clamp
  dsimp only
  rw [if_pos (by omega), if_pos (by omega), hlength, Int.toNat_natCast, Int.toNat_natCast, Nat.min_eq_left hle,
    Nat.min_eq_left (Nat.le_of_add_right_le hle), Nat.add_sub_cancel_left]

end Source

namespace Scan

/-! ## One match with recovery -/

variable {s s₁ s₂ : Scanner}

/-- The scanner after a match that found a type, or that was recovered from. -/
def Scanner.concluded (s : Scanner) (type : Int) : Scanner :=
  { s with hitEnd := s.hitEnd || s.cursor.peek 1 == Source.endMark, type := if s.type = Token.invalid then type else s.type }

theorem matchOnce_some {t : Int} (hm : (matchMode s.mode).outcome { s with type := Token.invalid } = (.ok (some t), s₁)) :
    matchOnce.outcome s = (.ok (s₁.concluded t).type, s₁.concluded t) := by
  unfold matchOnce
  rw [Run.outcome_modify_bind, Run.outcome_get_bind, Run.outcome_bind_ok hm]
  dsimp only
  rw [Run.outcome_bind_ok (Run.outcome_pure _ _), Run.outcome_modify_bind, Run.outcome_get_bind,
    Run.outcome_pure]
  rfl

theorem matchOnce_none (hm : (matchMode s.mode).outcome { s with type := Token.invalid } = (.ok none, s₁))
    (hc : (if (complain s₁).cursor.peek 1 ≠ Source.endMark then consume else pure ()).outcome (complain s₁) = (.ok (), s₂)) :
    matchOnce.outcome s = (.ok (s₂.concluded Scanner.skipType).type, s₂.concluded Scanner.skipType) := by
  have hrecover : (do
      modify complain
      if (← get).cursor.peek 1 ≠ Source.endMark then consume
      return Scanner.skipType : Act Int).outcome s₁ = (.ok Scanner.skipType, s₂) := by
    rw [Run.outcome_modify_bind, Run.outcome_get_bind]
    split
    · rename_i hpeek
      rw [if_pos hpeek] at hc
      rw [Run.outcome_bind_ok hc, Run.outcome_pure]
    · rename_i hpeek
      rw [if_neg hpeek] at hc
      rw [← (Prod.mk.inj hc).2]
      rfl
  unfold matchOnce
  rw [Run.outcome_modify_bind, Run.outcome_get_bind, Run.outcome_bind_ok hm]
  dsimp only
  rw [Run.outcome_bind_ok hrecover, Run.outcome_modify_bind, Run.outcome_get_bind,
    Run.outcome_pure]
  rfl

variable {source : Source} {i n : Nat}

theorem Placed.peek_beq (h : Placed source i s) (hi : i ≤ source.size) :
    (s.cursor.peek 1 == Source.endMark) = decide (i = source.size) := by
  cases hr : source.rest i with
  | nil =>
    have hsize := Source.rest_eq_nil_iff.1 hr
    rw [h.peek_nil hr, decide_eq_true (by omega)]
    rfl
  | cons c r =>
    have hlt := Source.lt_of_rest hr
    have hpos := (char_code_range c).1
    have hend : Source.endMark = -1 := rfl
    rw [h.peek_cons hr, decide_eq_false (by omega), beq_eq_false_iff_ne]
    omega

/-- The complaint about `n` characters from place `i` on. -/
def complaintAt (source : Source) (i n : Nat) : Report :=
  .complaint (some (source.lineAt i)) (source.columnAt i) ("token recognition error at: '" ++ Text.escape (source.span i n) ++ "'") none
    (some .noLexicalRule) (some (source.span i 1))

/-- The token of `n` characters from place `i` on. -/
def tokenAt (source : Source) (i n : Nat) (type channel : Int) : Token :=
  { type, channel, start := i, stop := i + n - 1, line := some (source.lineAt i), column := source.columnAt i, source := some source }

theorem text_tokenAt (hn : 0 < n) (hle : i + n ≤ source.size) (type channel : Int) :
    (tokenAt source i n type channel).text? = some (source.span i n) := by
  unfold Token.text? tokenAt
  dsimp only
  rw [if_pos ⟨by omega, by omega⟩, Source.slice_eq_span hn hle (.inl rfl)]

section

variable {far : Nat} (hp : Placed source (i + far) s) (hfar : i + far ≤ source.size) (hi : i < source.size)
  (hn : n = min (far + 1) (source.size - i)) (hstart : s.tokenStart = i) (hline : s.tokenLine = source.lineAt i)
  (hcolumn : s.tokenColumn = source.columnAt i) (hindex : s.startIndex = i)
include hp hfar hi hn hstart hline hcolumn hindex

/-- A scanner complains about the characters of the token under way, up to the one under the cursor. -/
theorem complain_eq : complain s = { s with journal := s.journal.add (complaintAt source i n) } := by
  have htext : source.slice i (i + far : Nat) = source.span i n := by
    refine Source.slice_eq_span (by omega) (by omega) ?_
    by_cases h : far + 1 ≤ source.size - i
    · exact .inl (by omega)
    · exact .inr (by omega)
  have hfirst : source.slice i i = source.span i 1 := Source.slice_eq_span Nat.one_pos (by omega) (.inl (by omega))
  unfold complain complaintAt
  rw [hp.cursor, hstart, hline, hcolumn, hindex]
  dsimp only
  rw [htext, if_pos ⟨by omega, by omega⟩, hfirst]

/-- The character with which no rule goes on is dropped too. -/
theorem recover_eq : (if (complain s).cursor.peek 1 ≠ Source.endMark then consume else pure ()).outcome (complain s) =
      (.ok (), { s.at source (i + n) with journal := s.journal.add (complaintAt source i n) }) := by
  rw [complain_eq hp hfar hi hn hstart hline hcolumn hindex]
  have hp' : Placed source (i + far) { s with journal := s.journal.add (complaintAt source i n) } := ⟨hp.cursor, hp.line, hp.column⟩
  have hpeek := hp'.peek_beq hfar
  by_cases hend : i + far = source.size
  · obtain rfl : n = far := by omega
    rw [decide_eq_true hend, beq_iff_eq] at hpeek
    rw [if_neg (not_not_intro hpeek), Run.outcome_pure, hp'.eq_at]
    rfl
  · obtain rfl : n = far + 1 := by omega
    rw [decide_eq_false hend, beq_eq_false_iff_ne] at hpeek
    obtain ⟨c, r, hr⟩ := List.exists_cons_of_ne_nil fun hnil => hend (Nat.le_antisymm hfar (Source.rest_eq_nil_iff.1 hnil))
    rw [if_pos hpeek, consume_eq hp' hr]
    rfl

end

end Scan

namespace Grammar

open Scan Lexicon

/-! ## One turn -/

/-- A scanner between two tokens of a Nimble source, at place `i`. -/
structure Between (command : Command) (source : Source) (i : Nat) (s : Scanner) : Prop where
  marks : Marks [{ command }]
  studied : Studied (LexerStates.network command) s
  placed : Placed source i s
  inside : i ≤ source.size
  mode : s.mode = 0
  plain : s.copyText = false
  unended : i < source.size → s.hitEnd = false

/-- What a turn makes of `n` characters from place `i` on, and what it adds to the journal. -/
inductive Made (command : Command) (source : Source) (i n : Nat) (j : Journal) : Piece → Journal → Prop
  | shown {k : Nat} {r : LexicalRule} : Longest (source.rest i) n k → rules[k]? = some r → r.hidden = false →
      Made command source i n j (.token (tokenAt source i n r.type 0)) j
  | skipped {k : Nat} {r : LexicalRule} : Longest (source.rest i) n k → rules[k]? = some r → r.hidden = true → command = .skip →
      Made command source i n j (.skipped i (i + n - 1)) j
  | kept {k : Nat} {r : LexicalRule} {c : Int} : Longest (source.rest i) n k → rules[k]? = some r → r.hidden = true →
      command = .channel c → Made command source i n j (.token (tokenAt source i n r.type c)) j
  | dropped : Stuck (source.rest i) n → Made command source i n j (.dropped i (i + n - 1)) (j.add (complaintAt source i n))

variable {command : Command} {source : Source} {i n : Nat} {s : Scanner}

theorem type_pos {k : Nat} {r : LexicalRule} (hr : rules[k]? = some r) : 0 < r.type := by
  have hall : ∀ r ∈ rules, 0 < r.type := by decide
  exact hall r (List.mem_of_getElem? hr)

/-- The scanner at place `i + n`, where a match from place `i` on has come to. -/
def walked (s : Scanner) (source : Source) (i n : Nat) (automata : Array (Automaton (List Config))) (type channel : Int)
    (journal : Journal) : Scanner :=
  { s.fresh.at source (i + n) with automata, startIndex := (i : Int), type, channel, journal }

/-- The scanner after a turn of `n` characters. -/
def landed (s : Scanner) (source : Source) (i n : Nat) (automata : Array (Automaton (List Config))) (type channel : Int)
    (journal : Journal) : Scanner :=
  { walked s source i n automata type channel journal with hitEnd := decide (i + n = source.size) }

section

variable (hb : Between command source i s)
include hb

theorem emit_landed (automata : Array (Automaton (List Config))) (type channel : Int) (journal : Journal) :
    emit (landed s source i n automata type channel journal) = tokenAt source i n type channel := by
  have hindex : ((i + n : Nat) : Int) = i + n := Int.natCast_add i n
  unfold landed walked emit makeToken tokenAt Scanner.at Scanner.fresh
  dsimp only
  rw [hb.plain, hb.placed.cursor, hb.placed.line, hb.placed.column, hindex]
  rfl

theorem Between.concluded_eq (hi : i < source.size) (hle : i + n ≤ source.size)
    (automata : Array (Automaton (List Config))) (type channel : Int) (journal : Journal) (t : Int) :
    (walked s source i n automata type channel journal).concluded t =
      landed s source i n automata (if type = Token.invalid then t else type) channel journal := by
  have hend : (s.hitEnd || (walked s source i n automata type channel journal).cursor.peek 1 == Source.endMark) =
      decide (i + n = source.size) := by
    rw [hb.unended hi, Bool.false_or]
    exact (s.placed_at source (i + n)).peek_beq hle
  unfold Scanner.concluded landed
  rw [← hend]
  rfl

/-- A match that moves on is a turn, and leaves the scanner between two tokens. -/
theorem Between.turn_of (hi : i < source.size) (hn : 0 < n) (hle : i + n ≤ source.size)
    {automata : Array (Automaton (List Config))} {type channel t : Int} {journal : Journal} {p : Piece}
    (hm : matchOnce.outcome s.fresh = (.ok ((walked s source i n automata type channel journal).concluded t).type,
      (walked s source i n automata type channel journal).concluded t))
    (hlearnt : Faithful (LexerStates.network command) automata)
    (hmade : Made command source i n s.journal p journal)
    (hp : p.Of s (landed s source i n automata (if type = Token.invalid then t else type) channel journal)) :
    ∃ p s', Turn s p s' ∧ Between command source (i + n) s' ∧ Made command source i n s.journal p s'.journal := by
  have hcursor := hb.placed.cursor
  rw [hb.concluded_eq hi hle] at hm
  refine ⟨p, _, ⟨hb.unended hi, hm, hp, ?_, ?_, ?_⟩, ⟨hb.marks, ⟨⟨hb.studied.above.network, hb.studied.above.traced⟩, hlearnt⟩,
    ⟨rfl, rfl, rfl⟩, hle, hb.mode, hb.plain, fun hlt => ?_⟩, hmade⟩
  · rw [hcursor]
    rfl
  · rw [hcursor]
    show (i : Int) < (i + n : Nat)
    omega
  · rw [hcursor]
    show ((i + n : Nat) : Int) ≤ source.size
    omega
  · exact decide_eq_false (Nat.ne_of_lt hlt)

theorem Between.studied_fresh :
    Studied (LexerStates.network command) { s.fresh with type := Token.invalid } ∧ Placed source i { s.fresh with type := Token.invalid } :=
  ⟨⟨⟨hb.studied.above.network, hb.studied.above.traced⟩, hb.studied.faithful⟩, hb.placed.cursor, hb.placed.line, hb.placed.column⟩

end

/-- What a match leaves, but for its commands. -/
theorem settled_iff {s₂ : Scanner} :
    Atlas.Settled (LexerStates.network command) (Scanner.at { s.fresh with type := Token.invalid, startIndex := (i : Int) } source (i + n)) s₂ ↔
      ∃ automata, Faithful (LexerStates.network command) automata ∧ s₂ = walked s source i n automata Token.invalid 0 s.journal := Iff.rfl

section

variable (hb : Between command source i s) (hi : i < source.size)
include hb hi

theorem Between.turn_longest {k : Nat} {r : LexicalRule}
    (hlongest : Longest (source.rest i) n k) (hr : rules[k]? = some r) {s₂ : Scanner}
    (hm : (matchMode s.fresh.mode).outcome { s.fresh with type := Token.invalid } =
      (.ok (some r.type), Atlas.marked (if r.hidden then some [{ command }] else none) s₂))
    (hsettled : Atlas.Settled (LexerStates.network command)
      (Scanner.at { s.fresh with type := Token.invalid, startIndex := (i : Int) } source (i + n)) s₂) :
    ∃ p s', Turn s p s' ∧ Between command source (i + n) s' ∧ Made command source i n s.journal p s'.journal := by
  obtain ⟨as, hlearnt, rfl⟩ := settled_iff.1 hsettled
  have hle : i + n ≤ source.size := by
    have hle := hlongest.le
    rw [Source.length_rest] at hle
    omega
  have hpos := type_pos hr
  have hskip : r.type ≠ -3 := by omega
  have hmore : r.type ≠ -2 := by omega
  have heof : r.type ≠ -1 := by omega
  have hmatch := matchOnce_some hm
  by_cases hhidden : r.hidden = true
  · rw [if_pos hhidden] at hmatch
    rcases hb.marks with hcommand | ⟨c, hcommand⟩
    · obtain rfl : command = .skip := by simpa using hcommand
      have hstop : (i + n - 1 : Int) = (i + n : Nat) - 1 := by omega
      exact hb.turn_of hi hlongest.pos hle hmatch hlearnt (.skipped hlongest hr hhidden rfl)
        ⟨rfl, rfl, (congrArg Cursor.index hb.placed.cursor).symm, hstop⟩
    · obtain rfl : command = .channel c := by simpa using hcommand
      exact hb.turn_of hi hlongest.pos hle hmatch hlearnt (.kept hlongest hr hhidden rfl)
        ⟨(emit_landed hb _ _ _ _).symm, hskip, hmore, heof⟩
  · rw [if_neg hhidden] at hmatch
    exact hb.turn_of hi hlongest.pos hle hmatch hlearnt (.shown hlongest hr (Bool.eq_false_iff.mpr hhidden))
      ⟨(emit_landed hb _ _ _ _).symm, hskip, hmore, heof⟩

theorem Between.turn_stuck (hstuck : Stuck (source.rest i) n) {far : Nat}
    (hfar : i + far ≤ source.size) (hn : n = min (far + 1) (source.size - i)) {s₁ : Scanner}
    (hm : (matchMode s.fresh.mode).outcome { s.fresh with type := Token.invalid } = (.ok none, s₁))
    (hsettled : Atlas.Settled (LexerStates.network command)
      (Scanner.at { s.fresh with type := Token.invalid, startIndex := (i : Int) } source (i + far)) s₁) :
    ∃ p s', Turn s p s' ∧ Between command source (i + n) s' ∧ Made command source i n s.journal p s'.journal := by
  obtain ⟨as, hlearnt, rfl⟩ := settled_iff.1 hsettled
  have hle : i + n ≤ source.size := by omega
  have hmatch := matchOnce_none hm (recover_eq ⟨rfl, rfl, rfl⟩ hfar hi hn (congrArg Cursor.index hb.placed.cursor)
    hb.placed.line hb.placed.column rfl)
  have hstop : (i + n - 1 : Int) = (i + n : Nat) - 1 := by omega
  exact hb.turn_of hi hstuck.pos hle hmatch hlearnt
    (.dropped hstuck) ⟨rfl, ⟨complaintAt source i n, rfl⟩, (congrArg Cursor.index hb.placed.cursor).symm, hstop⟩

/-- One turn of a scanner that is not at the end. -/
theorem Between.turn : ∃ n p s', 0 < n ∧ Turn s p s' ∧
    Between command source (i + n) s' ∧ Made command source i n s.journal p s'.journal := by
  obtain ⟨hstudied, hplaced⟩ := hb.studied_fresh
  obtain ⟨found, s₁, hm, hmatched⟩ := (atlas hb.marks).matchMode_eq hstudied hplaced
  have hmode : s.fresh.mode = 0 := hb.mode
  rw [← hmode] at hm
  unfold Atlas.Matched at hmatched
  split at hmatched
  · rename_i j cs hmunch
    obtain ⟨k, r, hlongest, hr, htype, hprogram⟩ := longest_of_munch (h := hb.marks) (congrArg Prod.snd hmunch)
    obtain ⟨rfl, s₂, hsettled, rfl⟩ := hmatched
    rw [htype, hprogram] at hm
    obtain ⟨p, s', hstep⟩ := hb.turn_longest hi hlongest hr hm hsettled
    exact ⟨j, p, s', hlongest.pos, hstep⟩
  · rename_i far hmunch
    have hlength : (source.rest i).length = source.size - i := Source.length_rest
    have hrest : source.rest i ≠ [] := fun hnil => absurd (Source.rest_eq_nil_iff.1 hnil) (by omega)
    have hstuck := stuck_of_munch (h := hb.marks) hrest (congrArg Prod.snd hmunch)
    have hfar : (_ : Nat × Option (Nat × List Config)).1 ≤ _ := (munch_far (h := hb.marks) first_mem (source.rest i)).1
    have hstart : first.map (Spot.config command) = (atlas hb.marks).first := rfl
    rw [hstart, hmunch] at hfar
    rw [hmunch] at hstuck
    obtain ⟨rfl, hsettled⟩ := hmatched
    rw [if_neg hrest] at hm
    obtain ⟨p, s', hstep⟩ := hb.turn_stuck hi hstuck (by omega) (by omega) hm hsettled
    exact ⟨_, p, s', hstuck.pos, hstep⟩

end

/-! ## All turns -/

/-- The pieces of a source from place `i` on, with the journal before and after. -/
inductive Course (command : Command) (source : Source) : Nat → Journal → List Piece → Journal → Prop
  | ended {j : Journal} : Course command source source.size j [] j
  | turn {i n : Nat} {j j₁ j' : Journal} {p : Piece} {ps : List Piece} : 0 < n → i + n ≤ source.size → Made command source i n j p j₁ →
      Course command source (i + n) j₁ ps j' → Course command source i j (p :: ps) j'

/-- A scanner that has seen the end of its source. -/
structure AtEnd (source : Source) (s : Scanner) : Prop where
  placed : Placed source source.size s
  plain : s.copyText = false

/-- The end token of a source. -/
def endToken (source : Source) : Token := tokenAt source source.size 0 Token.eof 0

theorem AtEnd.emitEnd_eq (h : AtEnd source s) : emitEnd s = endToken source := by
  unfold emitEnd makeToken endToken tokenAt
  rw [h.placed.cursor, h.placed.line, h.placed.column, h.plain]
  simp

theorem Between.atEnd (hb : Between command source source.size s) : AtEnd source s := ⟨hb.placed, hb.plain⟩

/-- A match at the end sees it, if no match did before. -/
theorem Between.blank (hb : Between command source source.size s) :
    ∃ s', matchOnce.outcome s.fresh = (.ok Token.eof, s') ∧ emit s' = emitEnd s' ∧ s'.journal = s.journal ∧
      Between command source source.size s' := by
  have hrest : source.rest source.size = [] := Source.rest_eq_nil_iff.2 (Nat.le_refl _)
  obtain ⟨hstudied, hplaced⟩ := hb.studied_fresh
  obtain ⟨found, s₁, hm, hmatched⟩ := (atlas hb.marks).matchMode_eq hstudied hplaced
  have hmode : s.fresh.mode = 0 := hb.mode
  rw [← hmode] at hm
  unfold Atlas.Matched at hmatched
  rw [hrest, Atlas.munch_nil] at hmatched
  obtain ⟨rfl, as, hlearnt, rfl⟩ := hmatched
  rw [if_pos rfl] at hm
  have hcursor := hb.placed.cursor
  refine ⟨_, matchOnce_some hm, ?_, rfl, hb.marks, ⟨⟨hb.studied.above.network, hb.studied.above.traced⟩, hlearnt⟩, ⟨rfl, rfl, rfl⟩,
    Nat.le_refl _, hb.mode, hb.plain, fun hlt => absurd hlt (Nat.lt_irrefl _)⟩
  unfold emit emitEnd
  congr 1
  · exact congrArg Cursor.index hcursor
  · exact hb.placed.line
  · exact hb.placed.column

/-- From between two tokens on, a scanner comes to the end of its source. -/
theorem Between.course (hb : Between command source i s) :
    ∃ ps s', Turns s ps s' ∧ Course command source i s.journal ps s'.journal ∧ AtEnd source s' := by
  induction hleft : source.size - i using Nat.strongRecOn generalizing i s with
  | ind left ih =>
    by_cases hi : i < source.size
    · obtain ⟨n, p, s₁, hn, hturn, hb₁, hmade⟩ := hb.turn hi
      have hinside := hb₁.inside
      obtain ⟨ps, s', hturns, hcourse, hend⟩ := ih _ (by omega) hb₁ rfl
      exact ⟨p :: ps, s', .turn hturn hturns, .turn hn hinside hmade hcourse, hend⟩
    · have hinside := hb.inside
      obtain rfl : i = source.size := by omega
      cases hended : s.hitEnd with
      | true => exact ⟨[], s, .ended hended, .ended, hb.atEnd⟩
      | false =>
        obtain ⟨s', hmatch, hemit, hjournal, hb'⟩ := hb.blank
        refine ⟨[], s', .blank hended hmatch hemit, ?_, hb'.atEnd⟩
        rw [hjournal]
        exact .ended

/-- What a scanner does with blanks and comments. -/
def blankCommand (keepBlanks : Bool) : Command := if keepBlanks then .channel 1 else .skip

theorem marks_blankCommand (keepBlanks : Bool) : Marks [{ command := blankCommand keepBlanks }] := by
  cases keepBlanks
  · exact .inl rfl
  · exact .inr ⟨1, rfl⟩

theorem network_scanner (source : Source) (keepBlanks : Bool) :
    (scanner source keepBlanks).network = LexerStates.network (blankCommand keepBlanks) := by
  have hnetwork : (scanner source keepBlanks).network = if keepBlanks then keepingNetwork else lexerNetwork := rfl
  cases keepBlanks
  · rw [hnetwork, if_neg (by decide), lexerNetwork_eq]
    rfl
  · rw [hnetwork, if_pos rfl, keepingNetwork_eq]
    rfl

theorem between_scanner (source : Source) (keepBlanks : Bool) :
    Between (blankCommand keepBlanks) source 0 (scanner source keepBlanks) := by
  have hnetwork := network_scanner source keepBlanks
  have hautomata : (scanner source keepBlanks).automata = freshAutomata (LexerStates.network (blankCommand keepBlanks)) := by
    rw [← hnetwork]
    rfl
  exact ⟨marks_blankCommand keepBlanks, ⟨⟨hnetwork, rfl⟩, hautomata ▸ faithful_fresh _⟩, ⟨rfl, rfl, rfl⟩, Nat.zero_le _, rfl, rfl,
    fun _ => rfl⟩

/-! ## The reference scanner -/

/-- A piece of a source: a token with its type, a hidden match, or what no rule matches; each with its first place and its
last. -/
inductive Cut where
  | token (type start stop : Int)
  | skipped (start stop : Int)
  | dropped (start stop : Int)
  deriving DecidableEq, Repr

/-- The reference scanner on the characters from place `i` on. It takes the longest match, by the first rule that has it; where no
rule matches it drops characters up to the first with which no rule can go on. -/
inductive Cuts : Nat → List Char → List Cut → Prop
  | ended {i : Nat} : Cuts i [] []
  | shown {i n k : Nat} {chars : List Char} {r : LexicalRule} {cuts : List Cut} : Longest chars n k → rules[k]? = some r →
      r.hidden = false → Cuts (i + n) (chars.drop n) cuts → Cuts i chars (.token r.type i (i + n - 1) :: cuts)
  | hidden {i n k : Nat} {chars : List Char} {r : LexicalRule} {cuts : List Cut} : Longest chars n k → rules[k]? = some r →
      r.hidden = true → Cuts (i + n) (chars.drop n) cuts → Cuts i chars (.skipped i (i + n - 1) :: cuts)
  | dropped {i n : Nat} {chars : List Char} {cuts : List Cut} : Stuck chars n → Cuts (i + n) (chars.drop n) cuts →
      Cuts i chars (.dropped i (i + n - 1) :: cuts)

theorem not_longest_nil {n k : Nat} : ¬Longest [] n k := fun h => absurd (Nat.lt_of_lt_of_le h.pos h.le) (Nat.lt_irrefl 0)

theorem not_stuck_nil {n : Nat} : ¬Stuck [] n := fun h => absurd (Nat.lt_of_lt_of_le h.pos h.le) (Nat.lt_irrefl 0)

/-- There is one way to cut a text. -/
theorem Cuts.unique {i : Nat} {chars : List Char} {cuts cuts' : List Cut} (a : Cuts i chars cuts) (b : Cuts i chars cuts') :
    cuts = cuts' := by
  induction a generalizing cuts' with
  | ended =>
    cases b with
    | ended => rfl
    | shown hl | hidden hl => exact absurd hl not_longest_nil
    | dropped hs => exact absurd hs not_stuck_nil
  | shown hl hr hh _ ih =>
    cases b with
    | ended => exact absurd hl not_longest_nil
    | shown hl' hr' _ hrest =>
      obtain ⟨rfl, rfl⟩ := hl.unique hl'
      obtain rfl := Option.some.inj (hr.symm.trans hr')
      rw [ih hrest]
    | hidden hl' hr' hh' =>
      obtain ⟨rfl, rfl⟩ := hl.unique hl'
      obtain rfl := Option.some.inj (hr.symm.trans hr')
      rw [hh] at hh'
      cases hh'
    | dropped hs => exact absurd hs hl.not_stuck
  | hidden hl hr hh _ ih =>
    cases b with
    | ended => exact absurd hl not_longest_nil
    | shown hl' hr' hh' =>
      obtain ⟨rfl, rfl⟩ := hl.unique hl'
      obtain rfl := Option.some.inj (hr.symm.trans hr')
      rw [hh] at hh'
      cases hh'
    | hidden hl' _ _ hrest =>
      obtain ⟨rfl, rfl⟩ := hl.unique hl'
      rw [ih hrest]
    | dropped hs => exact absurd hs hl.not_stuck
  | dropped hs _ ih =>
    cases b with
    | ended => exact absurd hs not_stuck_nil
    | shown hl => exact absurd hs hl.not_stuck
    | hidden hl => exact absurd hs hl.not_stuck
    | dropped hs' hrest =>
      obtain rfl := hs.unique hs'
      rw [ih hrest]

/-- What the reference scanner says of a piece. -/
def cutOf : Piece → Cut
  | .token t => .token t.type t.start t.stop
  | .skipped start stop => .skipped start stop
  | .dropped start stop => .dropped start stop

/-- The complaint that a piece is worth. -/
def complaintOf (source : Source) : Piece → Option Report
  | .token _ => none
  | .skipped _ _ => none
  | .dropped start stop => some (complaintAt source start.toNat (stop + 1 - start).toNat)

variable {j j' : Journal} {ps : List Piece}

theorem Course.cuts (hc : Course .skip source i j ps j') : Cuts i (source.rest i) (ps.map cutOf) := by
  induction hc with
  | ended =>
    rw [Source.rest_eq_nil_iff.2 (Nat.le_refl _)]
    exact .ended
  | turn _ _ hmade _ ih =>
    rw [Source.rest_add] at ih
    rw [List.map_cons]
    cases hmade with
    | shown hl hr hh => exact .shown hl hr hh ih
    | skipped hl hr hh => exact .hidden hl hr hh ih
    | kept _ _ _ hcommand => cases hcommand
    | dropped hs => exact .dropped hs ih

/-- Each piece adds its complaint to the journal. -/
theorem Made.reports {p : Piece} (hmade : Made command source i n j p j') :
    j'.reports.toList = j.reports.toList ++ (complaintOf source p).toList := by
  cases hmade with
  | shown => simp [complaintOf]
  | skipped => simp [complaintOf]
  | kept => simp [complaintOf]
  | dropped hs =>
    have hlength : (i + n - 1 + 1 - i : Int).toNat = n := by omega
    rw [Journal.add_reports, complaintOf, Int.toNat_natCast, hlength]
    simp

theorem Course.reports (hc : Course command source i j ps j') :
    j'.reports.toList = j.reports.toList ++ ps.filterMap (complaintOf source) := by
  induction hc with
  | ended => simp
  | @turn i n j j₁ j' p ps _ _ hmade _ ih =>
    rw [ih, hmade.reports, List.append_assoc]
    cases hp : complaintOf source p <;> simp [hp]

theorem length_tokensOf_le_size {source : Source} {ps : List Piece} {s' : Scanner} (hturns : Turns (scanner source false) ps s') :
    (tokensOf ps).length ≤ source.size := by
  have hlength : _ ≤ ((source.size : Int) - 0).toNat := hturns.length_tokensOf_le
  omega

/-- The tokens of a source, the matches that are skipped and the complaints are those of the reference scanner. -/
theorem tokens_eq_reference (source : Source) : ∃ ps s', Turns (scanner source false) ps s' ∧
    allTokens.outcome (scanner source false) = (.ok (tokensOf ps).toArray, s') ∧
    (∀ cuts, Cuts 0 source.chars.toList cuts ↔ cuts = ps.map cutOf) ∧
    s'.journal.reports.toList = ps.filterMap (complaintOf source) := by
  obtain ⟨ps, s', hturns, hcourse, -⟩ := (between_scanner source false).course
  have hcuts : Cuts 0 source.chars.toList (ps.map cutOf) := Course.cuts hcourse
  have hlength := length_tokensOf_le_size hturns
  refine ⟨ps, s', hturns, ?_, fun cuts => ⟨fun h => h.unique hcuts, fun h => h ▸ hcuts⟩, hcourse.reports⟩
  unfold allTokens
  rw [Run.outcome_get_bind]
  have hfuel : (tokensOf ps).length < (scanner source false).cursor.source.size + 2 := by
    show _ < source.size + 2
    omega
  rw [hturns.tokensFrom_eq hfuel]
  simp

end Grammar

end NimbleLang
