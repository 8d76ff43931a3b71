import NimbleLang.Proofs.Streams
import NimbleLang.Proofs.Stretches

/-!
The scanner loses and moves nothing. The pieces of a Nimble source lie side by side (`Course.tiles`), and each token among them
knows its text, its line and its column (`Course.token_eq`). If blanks are kept on a channel of their own and nothing is dropped, the
text of a stream over the scanner is the source (`Course.joinTexts_eq`).
-/

namespace NimbleLang

open Scan

/-! ## Side by side -/

/-- Pieces side by side, each with a character at least, from one place up to another. -/
def Tiles : Int → Int → List Piece → Prop
  | start, stop, [] => start = stop
  | start, stop, p :: ps => p.start = start ∧ p.start ≤ p.stop ∧ Tiles (p.stop + 1) stop ps

namespace Source

variable {source : Source} {i n : Nat}

theorem span_append (m : Nat) : source.span i n ++ source.span (i + n) m = source.span i (n + m) := by
  unfold span
  rw [rest_add, ← String.ofList_append, List.take_add]

theorem span_all : source.span 0 source.size = source.text := by
  unfold span rest text size
  rw [List.drop_zero, List.take_of_length_le (Nat.le_of_eq Array.length_toList)]

end Source

namespace TokenStream

theorem joinTexts_cons {t : Token} {rest : List Token} {a b : String} (heof : t.isEof = false) (ht : t.text? = some a)
    (hrest : joinTexts rest = .ok b) : joinTexts (t :: rest) = .ok (a ++ b) := by
  rw [joinTexts, heof, ht, hrest]
  rfl

/-- Texts do not depend on the places of the tokens in a stream. -/
theorem texts_numbered (ts : List Token) : texts (numbered ts) = texts ts := by
  have htexts : (numbered ts).map Token.text? = ts.map Token.text? := by
    refine List.ext_getElem? fun i => ?_
    rw [List.getElem?_map, getElem?_numbered, List.getElem?_map, Option.map_map]
    rfl
  have hall := congrArg (List.all · Option.isSome) htexts
  have hjoin := congrArg (List.map (Option.getD · "")) htexts
  rw [List.all_map, List.all_map] at hall
  rw [List.map_map, List.map_map] at hjoin
  simp only [Function.comp_def] at hall hjoin
  rw [texts, texts, hall, hjoin]

/-- The text of a stream is that of all its tokens. -/
theorem Buffered.text_all {s : TokenStream Supply} {ts : List Token} {e : Token} (h : Buffered ts e s) :
    ∃ s', (TokenStream.text none none).outcome s = (texts ts, s') := by
  obtain ⟨s', hfill, hfilled⟩ := h.fill
  have hinner := hfilled.takeWhile_inner 0 (ts.length + 1)
  rw [List.drop_zero, List.drop_zero, List.take_of_length_le (l := numbered ts) (by simp)] at hinner
  have hlast : (s'.tokens.toList.length : Int) - 1 = ts.length := by
    rw [Array.length_toList, hfilled.size]
    omega
  have hcount : ((ts.length : Int) - 0 + 1).toNat = ts.length + 1 := by omega
  refine ⟨s', ?_⟩
  rw [TokenStream.text, Run.outcome_bind_ok hfill, Run.outcome_get_bind]
  dsimp only [Option.getD_none]
  rw [hlast, Int.min_self, if_neg (by simp), Run.outcome_lift, Int.toNat_zero, List.drop_zero, hcount, joinTexts_eq, hinner, texts_numbered]

end TokenStream

namespace Grammar

variable {command : Command} {source : Source} {i n : Nat} {j j' : Journal} {p : Piece} {ps : List Piece}

theorem Made.range (hmade : Made command source i n j p j') : p.start = i ∧ p.stop = i + n - 1 := by
  cases hmade with
  | shown => exact ⟨rfl, rfl⟩
  | skipped => exact ⟨rfl, rfl⟩
  | kept => exact ⟨rfl, rfl⟩
  | dropped => exact ⟨rfl, rfl⟩

theorem Course.tiles (hc : Course command source i j ps j') : Tiles i source.size ps := by
  induction hc with
  | ended => rfl
  | @turn i n j j₁ j' p ps hn _ hmade _ ih =>
    obtain ⟨hstart, hstop⟩ := hmade.range
    have hnext : p.stop + 1 = (i + n : Nat) := by omega
    refine ⟨hstart, by omega, ?_⟩
    rw [hnext]
    exact ih

theorem Made.token_eq {t : Token} (hmade : Made command source i n j (.token t) j') : ∃ type channel, t = tokenAt source i n type channel := by
  cases hmade with
  | shown => exact ⟨_, _, rfl⟩
  | kept => exact ⟨_, _, rfl⟩

theorem mem_tokensOf {t : Token} : t ∈ tokensOf ps ↔ Piece.token t ∈ ps := by
  unfold tokensOf
  rw [List.mem_filterMap]
  constructor
  · intro ⟨p, hp, ht⟩
    cases p with
    | token t' =>
      obtain rfl := Option.some.inj ht
      exact hp
    | skipped => cases ht
    | dropped => cases ht
  · intro h
    exact ⟨_, h, rfl⟩

/-- A token is made of some characters of the source. -/
theorem Course.token_eq (hc : Course command source i j ps j') {t : Token} (ht : t ∈ tokensOf ps) :
    ∃ k n type channel, 0 < n ∧ k + n ≤ source.size ∧ t = tokenAt source k n type channel := by
  rw [mem_tokensOf] at ht
  induction hc with
  | ended => cases ht
  | @turn i n j j₁ j' p ps hn hle hmade _ ih =>
    rcases List.mem_cons.mp ht with rfl | ht
    · obtain ⟨type, channel, rfl⟩ := hmade.token_eq
      exact ⟨i, n, type, channel, hn, hle, rfl⟩
    · exact ih ht

/-- Where nothing is skipped and nothing is dropped, the texts of the tokens make up the source. -/
theorem Course.joinTexts_eq (hc : Course command source i j ps j') (hcommand : command ≠ .skip)
    (hclean : ps.filterMap (complaintOf source) = []) :
    TokenStream.joinTexts (tokensOf ps) = .ok (source.span i (source.size - i)) := by
  induction hc with
  | ended =>
    rw [Nat.sub_self]
    rfl
  | @turn i n j j₁ j' p ps hn hle hmade _ ih =>
    have hrest : ps.filterMap (complaintOf source) = [] := by
      refine List.filterMap_eq_nil_iff.mpr fun q hq => List.filterMap_eq_nil_iff.mp hclean q (List.mem_cons_of_mem _ hq)
    have hsize : n + (source.size - (i + n)) = source.size - i := by omega
    have htoken : ∀ {type : Int} (channel : Int), 0 < type →
        TokenStream.joinTexts (tokenAt source i n type channel :: tokensOf ps) = .ok (source.span i (source.size - i)) := by
      intro type channel htype
      have heof : (tokenAt source i n type channel).isEof = false := by
        refine beq_eq_false_iff_ne.mpr ?_
        show type ≠ -1
        omega
      rw [TokenStream.joinTexts_cons heof (text_tokenAt hn hle type channel) (ih hrest), Source.span_append, hsize]
    cases hmade with
    | shown _ hr => exact htoken 0 (type_pos hr)
    | kept _ hr => exact htoken _ (type_pos hr)
    | skipped _ _ _ hskip => exact absurd hskip hcommand
    | dropped => cases List.filterMap_eq_nil_iff.mp hclean _ List.mem_cons_self

/-- A stream over a scanner has the text of the tokens that the scanner hands out. -/
theorem text_scanner {keepBlanks : Bool} {text : String} (hcourse : Course (blankCommand keepBlanks) source 0 j ps j')
    (htext : TokenStream.joinTexts (tokensOf ps) = .ok text) :
    ∃ stream, (TokenStream.text none none).outcome { source := Supply.scanned (scanner source keepBlanks) } = (.ok text, stream) := by
  have hyields := (Supply.hands_scanner hcourse).yields
  have hall : (tokensOf ps).takeWhile (!·.isEof) = tokensOf ps := by
    refine List.takeWhile_eq_self_iff.mpr fun t ht => ?_
    rw [hyields.inner t ht]
    rfl
  rw [TokenStream.joinTexts_eq, hall] at htext
  rw [← htext]
  exact (TokenStream.Buffered.fresh hyields (some 0)).text_all

/-- The pieces of a source lie side by side from its beginning to its end; every token has the text of its place, its line and its
column, and the end token those of the end. With blanks kept and nothing to complain about, the text of the tokens is the source. -/
theorem pieces_cover_source (source : Source) (keepBlanks : Bool) : ∃ ps s', Turns (scanner source keepBlanks) ps s' ∧
    (tokensUpTo (source.size + 1)).outcome (scanner source keepBlanks) = (.ok ((tokensOf ps).map .ok ++ [.ok (emitEnd s')]), s') ∧
    Tiles 0 source.size ps ∧
    (∀ t ∈ tokensOf ps, t.text? = some (source.span t.start.toNat (t.stop + 1 - t.start).toNat) ∧
      t.line = some (source.lineAt t.start.toNat) ∧ t.column = source.columnAt t.start.toNat) ∧
    (emitEnd s').line = some (source.lineAt source.size) ∧ (emitEnd s').column = source.columnAt source.size ∧
    (keepBlanks = true → s'.journal.reports = #[] → ∃ stream,
      (TokenStream.text none none).outcome { source := Supply.scanned (scanner source keepBlanks) } = (.ok source.text, stream)) := by
  obtain ⟨ps, s', hturns, hcourse, hend⟩ := (between_scanner source keepBlanks).course
  have hlength := hturns.length_tokensOf_le
  have hindex : ((scanner source keepBlanks).cursor.source.size - (scanner source keepBlanks).cursor.index).toNat = source.size := by
    show ((source.size : Int) - 0).toNat = source.size
    omega
  refine ⟨ps, s', hturns, hturns.tokensUpTo_eq (by omega), hcourse.tiles, ?_, ?_, hend.placed.column, ?_⟩
  · intro t ht
    obtain ⟨k, n, type, channel, hn, hle, rfl⟩ := hcourse.token_eq ht
    have hstop : ((k + n - 1 : Int) + 1 - k).toNat = n := by omega
    refine ⟨?_, rfl, rfl⟩
    rw [text_tokenAt hn hle]
    show some (source.span k n) = some (source.span k ((k + n - 1 : Int) + 1 - k).toNat)
    rw [hstop]
  · rw [← hend.placed.line]
    rfl
  · intro hkeep hreports
    have hclean : ps.filterMap (complaintOf source) = [] := by
      have hall := hcourse.reports
      rw [hreports] at hall
      exact (List.append_eq_nil_iff.mp hall.symm).2
    have hcommand : blankCommand keepBlanks ≠ .skip := by
      rw [hkeep]
      decide
    have hjoin := hcourse.joinTexts_eq hcommand hclean
    rw [Nat.sub_zero, Source.span_all] at hjoin
    exact text_scanner hcourse hjoin

end Grammar

end NimbleLang
