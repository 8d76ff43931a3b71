import NimbleLang.Proofs.Parses

/-!
How the tokens of a source are spelt. Every token that a scanner hands out has a line, and its text is the stretch of the
source that it covers; the rule of a quoted symbol has one text only, so a token of its type is spelt like the symbol
(`Grammar.Spelt`). A parse by any rule but that of scripts takes the first tokens of its source and no end token, so all of its
leaves are spelt like this: `Grammar.spelt_of_parse`.
-/

namespace NimbleLang

/-! ## Shapes of one text -/

namespace Shape

theorem spells_char {c : Char} {w : List Char} (h : Spells (char c) w) : w = [c] := by
  cases h with
  | @one _ d hd =>
    simp only [List.any_cons, List.any_nil, Bool.or_false, Span.contains, Bool.and_eq_true, decide_eq_true_eq] at hd
    have hcode : d.toNat = c.toNat := by omega
    rw [Char.toNat_inj.mp hcode]

theorem spells_text {t w : List Char} (h : Spells (text t) w) : w = t := by
  induction t generalizing w with
  | nil => exact spells_empty.1 h
  | cons c t ih =>
    obtain ⟨u, v, rfl, hu, hv⟩ := spells_seq.1 h
    rw [spells_char hu, ih hv]
    rfl

end Shape

namespace Grammar

open Scan Lexicon

/-! ## Tokens -/

/-- A token has a line and a text; the text of a quoted symbol is the symbol. -/
structure Spelt (t : Token) : Prop where
  line : ∃ n, t.line = some n
  text : ∃ s, t.text? = some s
  quoted : ∀ (k : Nat) (s : String), LexerStates.quoted[k]? = some s → t.type = k + 1 → t.text? = some s

/-- The number of a token in its stream has no part in its spelling. -/
theorem Spelt.numbered {t : Token} (h : Spelt t) (i : Int) : Spelt { t with index := i } := ⟨h.line, h.text, h.quoted⟩

theorem type_eq {k : Nat} {r : LexicalRule} (hr : rules[k]? = some r) : r.type = k + 1 := by
  have hall : ∀ q ∈ rules.zipIdx, q.1.type = q.2 + 1 := by decide
  exact hall (r, k) (List.mem_zipIdx_iff_getElem?.mpr hr)

/-- The rule of a quoted symbol matches the symbol only. -/
theorem text_of_quoted {k : Nat} {s : String} (hk : LexerStates.quoted[k]? = some s) {w : List Char} (h : Lexicon.Matches k w) :
    w = s.toList := by
  obtain ⟨r, hr, hw⟩ := h
  have hlt := (List.getElem?_eq_some_iff.mp hk).1
  have hrule : rules[k]? = some { type := k + 1, shape := .text s.toList } := by
    rw [rules, List.getElem?_append_left (by simpa using hlt), List.getElem?_map, List.getElem?_zipIdx, hk, Nat.zero_add]
    rfl
  rw [← Option.some.inj (hrule.symm.trans hr)] at hw
  exact Shape.spells_text hw

variable {source : Source} {i n k : Nat}

theorem spelt_tokenAt {r : LexicalRule} (channel : Int) (hlongest : Longest (source.rest i) n k) (hr : rules[k]? = some r) :
    Spelt (tokenAt source i n r.type channel) := by
  have hlength := hlongest.le
  have hpos := hlongest.pos
  rw [Source.length_rest] at hlength
  have htext := text_tokenAt hpos (show i + n ≤ source.size by omega) r.type channel
  refine ⟨⟨_, rfl⟩, ⟨_, htext⟩, fun k' s hs htype => ?_⟩
  have hsame : r.type = k' + 1 := htype
  rw [type_eq hr] at hsame
  obtain rfl : k = k' := by omega
  rw [htext, Source.span, text_of_quoted hs hlongest.hit, String.ofList_toList]

/-- All tokens that are not hidden are spelt as their rules say. -/
theorem Course.spelt {j j' : Journal} {ps : List Piece} (h : Course .skip source i j ps j') : ∀ t ∈ tokensOf ps, Spelt t := by
  induction h with
  | ended => exact List.forall_mem_nil _
  | @turn i n j j₁ j' p ps _ _ hmade _ ih =>
    cases hmade with
    | shown hlongest hr => exact List.forall_mem_cons.mpr ⟨spelt_tokenAt 0 hlongest hr, ih⟩
    | skipped => exact ih
    | kept _ _ _ hcommand => cases hcommand
    | dropped => exact ih

/-! ## Parses -/

/-- A parse by a rule other than that of scripts derives the rule from tokens that are spelt as they should be. -/
theorem spelt_of_parse {rule : Rule} (hrule : rule ≠ .script) {tree : Tree} (h : source.parse rule = .ok tree) :
    Derives rule tree ∧ ∀ u ∈ tree.leaves, Spelt u := by
  obtain ⟨o, s', -, hhands, ps, hinner, hcourse⟩ := tokens_handed source
  obtain ⟨k, hbuilt, hspells, -⟩ := phrased_of_parse h hhands
  refine ⟨hbuilt.derives, fun u hu => ?_⟩
  obtain ⟨t, ht, i, rfl⟩ := hspells.mem_inner (hbuilt.derives.endless hrule) u hu
  exact (hcourse.spelt t (hinner ▸ ht)).numbered i

end Grammar

end NimbleLang
