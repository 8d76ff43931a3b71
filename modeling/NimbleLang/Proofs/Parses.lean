import NimbleLang.Proofs.Coverage
import NimbleLang.Proofs.Soundness

/-!
Parses without complaints. A session over a source begins in order (`Session.poised_ofSource`), so a parse about which the parser
does not complain builds a derivation of its rule in which the operators are grouped by their levels. A derivation of a script has
no error nodes and has its only end token at its end, so its leaves are all tokens of the source.
-/

namespace NimbleLang

namespace Grammar

/-! ## The leaves of derivations -/

mutual
/-- No node of a derivation is an error node. -/
theorem Derives.faultless : {r : Rule} → {t : Tree} → Derives r t → ∀ part ∈ t.preorder, part.isError = false
  | _, _, .node _ _ hm => by
    intro part hpart
    rw [Tree.preorder, List.mem_cons, Tree.mem_preorderOf] at hpart
    rcases hpart with rfl | ⟨c, hc, hpart⟩
    · rfl
    · exact hm.faultless c hc part hpart

theorem Matches.faultless : {items : List Item} → {cs : List Tree} → Matches items cs →
    ∀ c ∈ cs, ∀ part ∈ c.preorder, part.isError = false
  | _, _, .nil => List.forall_mem_nil _
  | _, _, .token _ hrest => by
    refine List.forall_mem_cons.mpr ⟨fun part hpart => ?_, hrest.faultless⟩
    rw [List.mem_singleton.mp hpart]
    rfl
  | _, _, .rule hc hrest => List.forall_mem_cons.mpr ⟨hc.faultless, hrest.faultless⟩
  | _, _, .absent hrest => hrest.faultless
  | _, _, .present hbody hrest => List.forall_mem_append.mpr ⟨hbody.faultless, hrest.faultless⟩
  | _, _, .done hrest => hrest.faultless
  | _, _, .again hbody hrest => List.forall_mem_append.mpr ⟨hbody.faultless, hrest.faultless⟩
end

mutual
/-- An item that asks for no end token. -/
def Item.inner : Item → Bool
  | .token types => !types.contains Token.eof
  | .rule r => r != .script
  | .optional body => innerAll body
  | .star body => innerAll body

def innerAll : List Item → Bool
  | [] => true
  | item :: items => item.inner && innerAll items
end

theorem inner_of_production {r : Rule} (hr : r ≠ .script) {production : Production} (h : production ∈ productions r) :
    innerAll production.items = true := by
  have hall : ∀ r ∈ Rule.all, r ≠ .script → ∀ production ∈ productions r, innerAll production.items = true := by decide
  exact hall r (by cases r <;> decide) hr production h

mutual
/-- Only scripts have an end token. -/
theorem Derives.endless : {r : Rule} → {t : Tree} → Derives r t → r ≠ .script → ∀ u ∈ t.leaves, u.isEof = false
  | _, _, .node hproduction _ hm => fun hr => by
    rw [Tree.leaves]
    exact hm.endless (inner_of_production hr hproduction)

theorem Matches.endless : {items : List Item} → {cs : List Tree} → Matches items cs → innerAll items = true →
    ∀ u ∈ Tree.leavesOf cs, u.isEof = false
  | _, _, .nil => fun _ => List.forall_mem_nil _
  | _, _, .token htype hrest => fun hinner => by
    rw [innerAll, Bool.and_eq_true] at hinner
    rw [Tree.leavesOf, Tree.leaves]
    refine List.forall_mem_append.mpr ⟨List.forall_mem_singleton.mpr (beq_eq_false_iff_ne.mpr fun heof => ?_), hrest.endless hinner.2⟩
    have hno := hinner.1
    rw [heof] at htype
    rw [Item.inner, List.contains_iff_mem.mpr htype] at hno
    cases hno
  | _, _, .rule hc hrest => fun hinner => by
    rw [innerAll, Bool.and_eq_true] at hinner
    rw [Tree.leavesOf]
    exact List.forall_mem_append.mpr ⟨hc.endless (bne_iff_ne.mp hinner.1), hrest.endless hinner.2⟩
  | _, _, .absent hrest => fun hinner => by
    rw [innerAll, Bool.and_eq_true] at hinner
    exact hrest.endless hinner.2
  | _, _, .present hbody hrest => fun hinner => by
    rw [innerAll, Bool.and_eq_true] at hinner
    rw [Tree.leavesOf_append]
    exact List.forall_mem_append.mpr ⟨hbody.endless hinner.1, hrest.endless hinner.2⟩
  | _, _, .done hrest => fun hinner => by
    rw [innerAll, Bool.and_eq_true] at hinner
    exact hrest.endless hinner.2
  | _, _, .again hbody hrest => fun hinner => by
    have hboth := hinner
    rw [innerAll, Bool.and_eq_true] at hinner
    rw [Tree.leavesOf_append]
    exact List.forall_mem_append.mpr ⟨hbody.endless hinner.1, hrest.endless hboth⟩
end

theorem Matches.script_leaves : {items : List Item} → {cs : List Tree} → Matches items cs →
    items = [.star [.rule .funcDef], .rule .main, .token [Token.eof]] →
    ∃ us e, Tree.leavesOf cs = us ++ [e] ∧ (∀ u ∈ us, u.isEof = false) ∧ e.isEof = true
  | _, _, .nil, heq => nomatch heq
  | _, _, .token _ _, heq => nomatch heq
  | _, _, .rule _ _, heq => nomatch heq
  | _, _, .absent _, heq => nomatch heq
  | _, _, .present _ _, heq => nomatch heq
  | _, _, .done hrest, heq => by
    obtain ⟨-, rfl⟩ := List.cons.inj heq
    rcases hrest with _ | _ | ⟨hmain, ⟨⟩ | ⟨htype, ⟨⟩⟩⟩
    exact ⟨_, _, rfl, hmain.endless nofun, beq_iff_eq.mpr (List.mem_singleton.mp htype)⟩
  | _, _, .again hbody hrest, heq => by
    obtain ⟨us, e, hleaves, hus, he⟩ := hrest.script_leaves heq
    obtain ⟨hstar, -⟩ := List.cons.inj heq
    obtain rfl := Item.star.inj hstar
    rcases hbody with _ | _ | ⟨hfunc, ⟨⟩⟩
    refine ⟨_ ++ us, e, ?_, List.forall_mem_append.mpr ⟨hfunc.endless nofun, hus⟩, he⟩
    rw [Tree.leavesOf_append, Tree.leavesOf_singleton, hleaves, List.append_assoc]

/-- The leaves of a script are other tokens and an end token. -/
theorem Derives.script_leaves {tree : Tree} (h : Derives .script tree) :
    ∃ us e, tree.leaves = us ++ [e] ∧ (∀ u ∈ us, u.isEof = false) ∧ e.isEof = true := by
  cases h with
  | node hproduction _ hm =>
    obtain rfl := List.mem_singleton.mp hproduction
    exact hm.script_leaves rfl

end Grammar

/-! ## The tokens of a tape -/

namespace Tape

variable {o : Tape} {us : List Token} {u : Token} {k k' : Nat}

/-- Tokens that are spelt, with no end token but the last one, stand one after the other. -/
theorem Spells.prefix_drop (h : o.Spells k us k') (hus : ∀ u ∈ us.dropLast, u.isEof = false) : us <+: o.tokens.drop k := by
  induction h with
  | nil => exact List.nil_prefix
  | @cons k k' t us ht hrest ih =>
    obtain ⟨hk, rfl⟩ := List.getElem?_eq_some_iff.mp ht
    rw [List.drop_eq_getElem_cons hk, List.cons_prefix_cons]
    refine ⟨rfl, ?_⟩
    cases us with
    | nil => exact List.nil_prefix
    | cons u us =>
      obtain ⟨hopen, hus⟩ := List.forall_mem_cons.mp hus
      rw [after, hopen, if_neg (by decide)] at ih
      exact ih hus

/-- What is spelt from the beginning without an end token is on the tape, but for the numbers. -/
theorem Spells.mem_inner (h : o.Spells 0 us k') (hus : ∀ u ∈ us, u.isEof = false) :
    ∀ u ∈ us, ∃ t ∈ o.inner, ∃ i : Int, u = { t with index := i } := by
  intro u hu
  have hmem := (h.prefix_drop fun v hv => hus v ((List.dropLast_sublist us).mem hv)).subset hu
  obtain ⟨t, ht, i, rfl⟩ := TokenStream.mem_numbered hmem
  rcases List.mem_append.mp ht with ht | ht
  · exact ⟨t, ht, i, rfl⟩
  · have hopen : t.isEof = false := hus (t.placed i) hu
    rw [List.mem_singleton.mp ht, o.ended] at hopen
    cases hopen

/-- What is spelt from the beginning up to an end token is the whole tape. -/
theorem Spells.eq_tokens (h : o.Spells 0 (us ++ [u]) k') (hus : ∀ v ∈ us, v.isEof = false) (hu : u.isEof = true) :
    us ++ [u] = o.tokens := by
  obtain ⟨rest, hrest⟩ := h.prefix_drop (by rwa [List.dropLast_concat])
  rw [List.drop_zero] at hrest
  cases hlast : rest with
  | nil => rw [← hrest, hlast, List.append_nil]
  | cons v vs =>
    -- the end token is the last one of the tape
    have hinner : o.tokens.dropLast = numbered o.inner := by rw [tokens, numbered_concat, List.dropLast_concat]
    rw [← hrest, List.dropLast_append_of_ne_nil (by simp [hlast])] at hinner
    have hmem : u ∈ numbered o.inner := hinner ▸ List.mem_append_left _ (by simp)
    obtain ⟨t, ht, i, rfl⟩ := TokenStream.mem_numbered hmem
    exact absurd (hu.symm.trans (o.unended t ht)) (by decide)

end Tape

namespace Session

open Grammar Predict

/-! ## The beginning of a session -/

/-- An automaton that has learnt nothing agrees with every survey of its kind. -/
theorem charted_fresh {v : Survey} {a : Automaton ConfigSet} (hnodes : a.nodes = #[]) (hkind : a.isPrecedence = v.byPrecedence)
    (hstart : a.start = .unset ∨ a.start = .byPrecedence []) : v.chart.Charted a := by
  refine ⟨⟨hkind, fun k hk => ?_, fun nodes hn p k hk => ?_⟩, fun i n hn => ?_, fun i n t g hn => ?_⟩
  · rcases hstart with h | h <;> rw [h] at hk <;> cases hk
  · rcases hstart with h | h <;> rw [h] at hn <;> cases hn
    cases hk
  · rw [hnodes] at hn
    cases hn
  · rw [hnodes] at hn
    cases hn

theorem fresh_learnt {v : Survey} {n : Nat} {r : Recogniser} (hr : r.automata = Recogniser.freshAutomata States.network)
    (hn : States.network.decisions[n]? = some v.state)
    (hkind : v.byPrecedence = ((States.network.state v.state).kind = .starLoopEntry && (States.network.state v.state).precedenceDecision)) :
    v.Learnt n r := by
  refine ⟨_, by rw [hr, Recogniser.freshAutomata, Array.getElem?_mapIdx, hn]; rfl, charted_fresh rfl ?_ ?_⟩
  · dsimp only
    rw [← hkind]
    cases v.byPrecedence <;> rfl
  · dsimp only
    split
    · exact .inr rfl
    · exact .inl rfl

set_option maxRecDepth 4000 in
/-- A recogniser of the grammar begins in order. -/
theorem trained_fresh (literals symbols rules : List String) (stream : TokenStream Supply) :
    Trained (Recogniser.ofNetwork States.network literals symbols rules stream) where
  net := rfl
  mode := nofun
  quiet := rfl
  attached := rfl
  undiagnosed := rfl
  level := ⟨0, by decide, rfl⟩
  memory := rfl
  learnt := by
    simp only [Learnt, surveyed, List.forall_mem_cons]
    exact ⟨fresh_learnt rfl rfl (by decide), fresh_learnt rfl rfl (by decide), fresh_learnt rfl rfl (by decide),
      fresh_learnt rfl rfl (by decide), by simp⟩
  lookahead := Lookahead.truthful_ofNetwork _

/-- The beginning of a session over tokens on the first channel. -/
theorem poised_start {o : Tape} {source : Supply} (h : source.Hands o.inner o.last) (hdrained : source.Drained) :
    Poised o 0 [] [0] (Session.start { source }) := by
  unfold Session.start
  rw [parserNetwork_eq]
  refine ⟨⟨trained_fresh _ _ _ _, rfl, rfl, rfl, hdrained⟩, .inr ⟨rfl, rfl, .fresh h⟩, rfl, rfl, fun ⟨r, hr, _⟩ => ?_⟩
  cases Array.mem_def.mp hr

theorem beside_bail {d : Session} (h : d.bail = false) : Beside d { d with bail := true } := ⟨h, d.lookahead, d.callers, rfl⟩

theorem tokenFuel_eq (s : Session) : tokenFuel.outcome s = (.ok (s.stream.walkFuel s.stream.index), s) := rfl

/-- A parse by a rule builds what it should from the tokens at the beginning, or a complaint is made. -/
theorem parse_leads {o : Tape} {source : Source} (ho : (Supply.scanned (scanner source false)).Hands o.inner o.last) {rule : Rule}
    {tree : Tree} {s : Session} (h : (Session.parse rule 0).outcome (Session.ofSource source) = (.ok tree, s)) :
    s.Marred ∨ ∃ k, Phrased o rule 0 0 k tree := by
  rcases (parse_abreast rule (p := 0) (by decide) 0 [] [0]).both _ _ (poised_start ho (Supply.drained_scanned rfl)) (beside_bail rfl) with
    ⟨tree', d, b, hout, -, ⟨k, hphrased, -⟩, -⟩ | ⟨-, hends⟩
  · obtain ⟨htree, -⟩ := Prod.mk.inj (h.symm.trans hout)
    exact .inr ⟨k, Except.ok.inj htree ▸ hphrased⟩
  · exact .inl (hends.ok h)

end Session

namespace Grammar

open Scan

/-! ## What a parse builds -/

theorem not_marred_of_clean {j : Journal} (h : j.reports.toList.filterMap Report.refusal? = []) : ¬j.Marred := by
  intro ⟨r, hr, hblames⟩
  have hnone := List.filterMap_eq_nil_iff.mp h r (Array.mem_def.mp hr)
  cases r with
  | complaint => cases hnone
  | ambiguity => cases hblames
  | attempt => cases hblames
  | sensitivity => cases hblames

/-- A source that is not refused is parsed without complaints. -/
theorem parse_of_strict {source : Source} {rule : Rule} {tree : Tree} (h : source.parse rule = .ok tree) :
    ∃ s, (Session.parse rule 0).outcome (Session.ofSource source) = (.ok tree, s) ∧ ¬s.Marred := by
  unfold Source.parse Session.parseStrictly at h
  rcases hout : (Session.parse rule 0).outcome (Session.ofSource source) with ⟨f | tree', s⟩
  · rw [hout] at h
    cases h
  · rw [hout] at h
    dsimp only [bind, Except.bind] at h
    split at h
    · rename_i hclean
      obtain rfl := Except.ok.inj h
      exact ⟨s, rfl, not_marred_of_clean hclean⟩
    · cases h

theorem Course.plain {source : Source} {i : Nat} {j j' : Journal} {ps : List Piece} (h : Course .skip source i j ps j') :
    ∀ t ∈ tokensOf ps, t.isEof = false ∧ t.channel = 0 := by
  induction h with
  | ended => exact List.forall_mem_nil _
  | @turn i n j j₁ j' p ps _ _ hmade _ ih =>
    cases hmade with
    | shown _ hr =>
      refine List.forall_mem_cons.mpr ⟨⟨beq_eq_false_iff_ne.mpr ?_, rfl⟩, ih⟩
      exact Int.ne_of_gt (Int.lt_trans (by decide) (type_pos hr))
    | skipped => exact ih
    | kept _ _ _ hcommand => cases hcommand
    | dropped => exact ih

/-- The tokens of a source are handed out one after the other, and at last the end token. -/
theorem tokens_handed (source : Source) : ∃ (o : Tape) (s' : Scanner),
    (tokensUpTo (source.size + 1)).outcome (scanner source false) = (.ok ((o.inner ++ [o.last]).map .ok), s') ∧
      (Supply.scanned (scanner source false)).Hands o.inner o.last ∧
      ∃ ps, o.inner = tokensOf ps ∧ Course .skip source 0 (scanner source false).journal ps s'.journal := by
  obtain ⟨ps, s', hturns, hcourse, hend⟩ := (between_scanner source false).course
  have hlength := length_tokensOf_le_size hturns
  have hplain := hcourse.plain
  have hfirst : ∀ t ∈ tokensOf ps ++ [endToken source], t.channel = 0 :=
    List.forall_mem_append.mpr ⟨fun t ht => (hplain t ht).2, List.forall_mem_singleton.mpr rfl⟩
  refine ⟨⟨tokensOf ps, endToken source, fun t ht => (hplain t ht).1, rfl, hfirst⟩, s', ?_,
    Supply.hands_scanner hcourse, ps, rfl, hcourse⟩
  rw [hturns.tokensUpTo_eq (by omega), hend.emitEnd_eq, List.map_append]
  rfl

theorem phrased_of_parse {source : Source} {rule : Rule} {tree : Tree} (h : source.parse rule = .ok tree) {o : Tape}
    (ho : (Supply.scanned (scanner source false)).Hands o.inner o.last) : ∃ k, Session.Phrased o rule 0 0 k tree := by
  obtain ⟨s, hparse, hclean⟩ := parse_of_strict h
  exact (Session.parse_leads ho hparse).resolve_left hclean

/-- A source that is not refused is parsed to a derivation of a script, without error nodes, whose leaves are its tokens.
The parse begins with nothing learnt; what it would come to after other parses is not said here. -/
theorem derivation_of_parse {source : Source} {tree : Tree} (h : source.parse .script = .ok tree) :
    Derives .script tree ∧ (∀ part ∈ tree.preorder, part.isError = false) ∧
      ∃ ts e s', (tokensUpTo (source.size + 1)).outcome (scanner source false) = (.ok ((ts ++ [e]).map .ok), s') ∧ e.isEof = true ∧
        tree.leaves = numbered (ts ++ [e]) := by
  obtain ⟨o, s', htokens, hhands, -⟩ := tokens_handed source
  obtain ⟨k, hbuilt, hspells, -⟩ := phrased_of_parse h hhands
  obtain ⟨us, u, hleaves, hus, hu⟩ := hbuilt.derives.script_leaves
  refine ⟨hbuilt.derives, hbuilt.derives.faultless, o.inner, o.last, s', htokens, o.ended, ?_⟩
  rw [hleaves] at hspells ⊢
  exact hspells.eq_tokens hus hu

/-- A statement with operators of two levels. -/
def sum : String := "print 1+2*3"

/-- The forms of its phrases, each before those in it. -/
def sumForms : List Form :=
  [.script, .main, .body, .varBlock, .block, .print, .addSub, .intLiteral, .mulDiv, .intLiteral, .intLiteral]

theorem sum_runs : ((Session.ofStream States.network (Session.scannedBy (LexerStates.network .skip) (.ofString sum))).parseStrictly
    .script).1.toOption.map (fun tree => tree.preorder.filterMap Tree.form?) = some sumForms := by
  decide +kernel

theorem sum_tree : ∃ tree, (Source.ofString sum).parse .script = .ok tree ∧ tree.preorder.filterMap Tree.form? = sumForms := by
  have hforms : ((Source.ofString sum).parse .script).toOption.map (fun tree => tree.preorder.filterMap Tree.form?) = some sumForms := by
    rw [Source.parse, Session.ofSource_eq]
    exact sum_runs
  cases hparse : (Source.ofString sum).parse .script with
  | ok tree =>
    rw [hparse] at hforms
    exact ⟨tree, rfl, Option.some.inj hforms⟩
  | error f =>
    rw [hparse] at hforms
    cases hforms

theorem sum_derivation : ∃ tree, (Source.ofString sum).parse .script = .ok tree ∧ tree.preorder.filterMap Tree.form? = sumForms ∧
    Derives .script tree :=
  (sum_tree).imp fun _ h => ⟨h.1, h.2, (derivation_of_parse h.1).1⟩

/-! ## Operators -/

/-- An expression with an operator between its parts. -/
def binary (t : Tree) : Prop := t.form? = some .mulDiv ∨ t.form? = some .addSub ∨ t.form? = some .compare

/-- The operands of an operator are grouped by its level: `*` and `/` bind tighter than `+` and `-`, these tighter than
comparisons, a sign or a negation tightest, and operators of one level group to the left. -/
structure Grouped (t : Tree) : Prop where
  neg : t.form? = some .neg → ∃ op operand, t.children = [.leaf op, operand] ∧ ¬binary operand
  mulDiv : t.form? = some .mulDiv → ∃ left op right, t.children = [left, .leaf op, right] ∧ ¬binary right ∧
    left.form? ≠ some .addSub ∧ left.form? ≠ some .compare
  addSub : t.form? = some .addSub → ∃ left op right, t.children = [left, .leaf op, right] ∧ right.form? ≠ some .addSub ∧
    right.form? ≠ some .compare ∧ left.form? ≠ some .compare
  compare : t.form? = some .compare → ∃ left op right, t.children = [left, .leaf op, right] ∧ right.form? ≠ some .compare

theorem level_of_form {t : Tree} {form : Form} (h : t.form? = some form) : t.level = form.level := by
  rw [Tree.level, h]
  rfl

theorem form_ne_of_level {t : Tree} {form : Form} (h : form.level < t.level) : t.form? ≠ some form := by
  intro hform
  rw [level_of_form hform] at h
  exact Int.lt_irrefl _ h

theorem not_binary_of_level {t : Tree} (h : 9 ≤ t.level) : ¬binary t := by
  rintro (hform | hform | hform)
  all_goals
    rw [level_of_form hform] at h
    exact absurd h (by decide)

theorem grouped_of_balanced {t : Tree} (h : t.Balanced) : Grouped t := by
  refine ⟨fun hform => ?_, fun hform => ?_, fun hform => ?_, fun hform => ?_⟩
  · obtain ⟨op, operand, hcs, hlevel⟩ := h.neg hform
    exact ⟨op, operand, hcs, not_binary_of_level hlevel⟩
  all_goals
    have hlevel := level_of_form hform
    obtain ⟨left, op, right, hcs, hleft, hright⟩ := h.binary (by rw [hlevel]; decide)
    rw [hlevel] at hleft hright
  · exact ⟨left, op, right, hcs, not_binary_of_level hright, form_ne_of_level (Int.lt_of_lt_of_le (by decide) hleft),
      form_ne_of_level (Int.lt_of_lt_of_le (by decide) hleft)⟩
  · exact ⟨left, op, right, hcs, form_ne_of_level (Int.lt_of_lt_of_le (by decide) hright),
      form_ne_of_level (Int.lt_of_lt_of_le (by decide) hright), form_ne_of_level (Int.lt_of_lt_of_le (by decide) hleft)⟩
  · exact ⟨left, op, right, hcs, form_ne_of_level (Int.lt_of_lt_of_le (by decide) hright)⟩

/-- In a parse by any rule, begun with nothing learnt, about which the parser does not complain, operators are grouped by
their levels. -/
theorem operators_grouped {source : Source} {rule : Rule} {tree : Tree} {s : Session}
    (h : (Session.parse rule 0).outcome (Session.ofSource source) = (.ok tree, s)) (hclean : ¬s.Marred) :
    ∀ part ∈ tree.preorder, Grouped part := by
  obtain ⟨o, -, -, hhands, -⟩ := tokens_handed source
  rcases Session.parse_leads hhands h with hmarred | ⟨k, hphrased⟩
  · exact absurd hmarred hclean
  · exact fun part hpart => grouped_of_balanced (hphrased.built.ordered part hpart)

theorem sum_grouped : ∃ tree s, (Session.parse .script 0).outcome (Session.ofSource (Source.ofString sum)) = (.ok tree, s) ∧
    ¬s.Marred ∧ tree.preorder.filterMap Tree.form? = sumForms ∧ ∀ part ∈ tree.preorder, Grouped part := by
  obtain ⟨tree, htree, hforms⟩ := sum_tree
  obtain ⟨s, hparse, hclean⟩ := parse_of_strict htree
  exact ⟨tree, s, hparse, hclean, hforms, operators_grouped hparse hclean⟩

end Grammar

end NimbleLang
