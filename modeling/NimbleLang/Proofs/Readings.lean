import NimbleLang.Proofs.Spellings

/-!
Expressions are read off their derivations. `Tree.toExpr?` may fail on a tree that was recovered; a derivation of an expression
whose tokens are spelt as they should be always has an expression. It has the text of the tree and begins where the tree begins,
and a variable or a call in the tree is one in the expression (`Grammar.Reads`, `Grammar.reads_of_derives`).

The induction is on trees. An expression that is a call has its arguments two levels down, so what is shown of a tree is about
calls too (`ReadsCall`).
-/

namespace NimbleLang

/-! ## Names in expressions -/

/-- No variable and no call stands in the expression. -/
def Expr.Nameless : Expr → Prop
  | .parens _ e | .signed _ _ e => e.Nameless
  | .binary _ l r => l.Nameless ∧ r.Nameless
  | .call _ _ _ | .reference _ _ => False
  | .stringLiteral _ _ | .intLiteral _ _ | .boolLiteral _ _ => True

/-- The texts of expressions, each with a comma before it. -/
def Expr.textAfter : List Expr → String
  | [] => ""
  | e :: es => "," ++ e.text ++ textAfter es

theorem Expr.textOf_cons (e : Expr) (es : List Expr) : textOf (e :: es) = e.text ++ textAfter es := by
  induction es generalizing e with
  | nil => simp [textOf, textAfter]
  | cons e' es ih => rw [textOf, ih, textAfter, String.append_assoc, String.append_assoc]

theorem Sign.named?_text (s : Sign) : named? s.text = some s := by cases s <;> rfl

theorem Operator.named?_text (op : Operator) : named? op.text = some op := by cases op <;> rfl

namespace Tree

mutual
/-- What holds of a node if it holds of its children holds of all trees. -/
theorem induct {P : Tree → Prop} (hleaf : ∀ t, P (.leaf t)) (herror : ∀ t, P (.error t))
    (hnode : ∀ l cs, (∀ c ∈ cs, P c) → P (.node l cs)) : (t : Tree) → P t
  | .leaf t => hleaf t
  | .error t => herror t
  | .node l cs => hnode l cs (inductOf hleaf herror hnode cs)

theorem inductOf {P : Tree → Prop} (hleaf : ∀ t, P (.leaf t)) (herror : ∀ t, P (.error t))
    (hnode : ∀ l cs, (∀ c ∈ cs, P c) → P (.node l cs)) : (cs : List Tree) → ∀ c ∈ cs, P c
  | [] => List.forall_mem_nil _
  | c :: cs => List.forall_mem_cons.mpr ⟨induct hleaf herror hnode c, inductOf hleaf herror hnode cs⟩
end

/-- No variable and no call stands in the tree. -/
def Nameless (t : Tree) : Prop := ∀ part ∈ t.preorder, part.form? ≠ some .reference ∧ part.form? ≠ some .callExpr

theorem nameless_leaf (t : Token) : (leaf t).Nameless := by
  intro part hpart
  rw [List.mem_singleton.mp hpart]
  exact ⟨nofun, nofun⟩

theorem nameless_node {l : Label} {cs : List Tree} (href : l.form ≠ .reference) (hcall : l.form ≠ .callExpr)
    (hcs : ∀ c ∈ cs, c.Nameless) : (node l cs).Nameless := by
  intro part hpart
  rw [preorder, List.mem_cons, mem_preorderOf] at hpart
  rcases hpart with rfl | ⟨c, hc, hpart⟩
  · exact ⟨fun h => href (Option.some.inj h), fun h => hcall (Option.some.inj h)⟩
  · exact hcs c hc part hpart

/-! ## Texts of trees -/

variable {c : Tree} {cs ds : List Tree} {a b : String}

theorem text_leaf {t : Token} (h : t.text? = some a) : (leaf t).text = .ok a := by
  rw [text, h]
  rfl

theorem textOf_cons (hc : c.text = .ok a) (hcs : textOf cs = .ok b) : textOf (c :: cs) = .ok (a ++ b) := by
  rw [textOf, hc, hcs]
  rfl

theorem textOf_singleton (hc : c.text = .ok a) : textOf [c] = .ok a := by
  rw [textOf_cons hc rfl, String.append_empty]

theorem textOf_append (hcs : textOf cs = .ok a) (hds : textOf ds = .ok b) : textOf (cs ++ ds) = .ok (a ++ b) := by
  induction cs generalizing a with
  | nil =>
    obtain rfl := Except.ok.inj hcs
    rw [List.nil_append, hds, String.empty_append]
  | cons c cs ih =>
    rw [textOf] at hcs
    cases hc : c.text with
    | error f =>
      rw [hc] at hcs
      cases hcs
    | ok s =>
      cases hs : textOf cs with
      | error f =>
        rw [hc, hs] at hcs
        cases hcs
      | ok r =>
        rw [hc, hs] at hcs
        obtain rfl := Except.ok.inj hcs
        rw [List.cons_append, textOf_cons hc (ih hs), String.append_assoc]

theorem toArgs?_leaf (t : Token) (cs : List Tree) : toArgs? (leaf t :: cs) = toArgs? cs := by
  rw [toArgs?]
  exact fun _ _ h => Tree.noConfusion h

theorem toArgs?_cons {e : Expr} {es : List Expr} (hc : c.toExpr? = some e) (hcs : toArgs? cs = some es) :
    toArgs? (c :: cs) = some (e :: es) := by
  cases c with
  | leaf => cases hc
  | error => cases hc
  | node l ds =>
    rw [toArgs?, hc, hcs]
    rfl

end Tree

namespace Grammar

open NimbleLang.Tree (placeOf)

/-! ## The parts of a derivation -/

variable {items body : List Item} {types : List Int} {r : Rule} {cs : List Tree}

theorem matches_nil : Matches [] cs ↔ cs = [] := by
  constructor
  · intro h
    cases h
    rfl
  · intro h
    rw [h]
    exact .nil

theorem matches_token : Matches (.token types :: items) cs ↔ ∃ t ds, cs = .leaf t :: ds ∧ t.type ∈ types ∧ Matches items ds := by
  constructor
  · intro h
    cases h with
    | token ht hrest => exact ⟨_, _, rfl, ht, hrest⟩
  · intro h
    obtain ⟨t, ds, rfl, ht, hrest⟩ := h
    exact .token ht hrest

theorem matches_rule : Matches (.rule r :: items) cs ↔ ∃ c ds, cs = c :: ds ∧ Derives r c ∧ Matches items ds := by
  constructor
  · intro h
    cases h with
    | rule hc hrest => exact ⟨_, _, rfl, hc, hrest⟩
  · intro h
    obtain ⟨c, ds, rfl, hc, hrest⟩ := h
    exact .rule hc hrest

theorem matches_optional : Matches (.optional body :: items) cs ↔
    Matches items cs ∨ ∃ bs ds, cs = bs ++ ds ∧ Matches body bs ∧ Matches items ds := by
  constructor
  · intro h
    cases h with
    | absent hrest => exact .inl hrest
    | present hbody hrest => exact .inr ⟨_, _, rfl, hbody, hrest⟩
  · intro h
    rcases h with hrest | ⟨bs, ds, rfl, hbody, hrest⟩
    · exact .absent hrest
    · exact .present hbody hrest

/-- The trees of some pairs, one after the other. -/
def flattened (ps : List (Token × Tree)) : List Tree := ps.flatMap fun p => [.leaf p.1, p.2]

/-- What follows the first argument: commas, each with an argument. -/
theorem Matches.pairs : {items : List Item} → {cs : List Tree} → Matches items cs → items = [.star [.token [tComma], .rule .expr]] →
    ∃ ps, cs = flattened ps ∧ ∀ p ∈ ps, p.1.type = tComma ∧ Derives .expr p.2
  | _, _, .nil, heq => nomatch heq
  | _, _, .token _ _, heq => nomatch heq
  | _, _, .rule _ _, heq => nomatch heq
  | _, _, .absent _, heq => nomatch heq
  | _, _, .present _ _, heq => nomatch heq
  | _, _, .done hrest, heq => by
    obtain ⟨-, rfl⟩ := List.cons.inj heq
    rw [matches_nil.1 hrest]
    exact ⟨[], rfl, List.forall_mem_nil _⟩
  | _, _, .again hbody hrest, heq => by
    obtain ⟨ps, rfl, hps⟩ := hrest.pairs heq
    obtain ⟨hstar, -⟩ := List.cons.inj heq
    obtain rfl := Item.star.inj hstar
    simp only [matches_token, matches_rule, matches_nil] at hbody
    obtain ⟨t, _, rfl, ht, c, _, rfl, hc, rfl⟩ := hbody
    exact ⟨(t, c) :: ps, rfl, List.forall_mem_cons.mpr ⟨⟨List.mem_singleton.mp ht, hc⟩, hps⟩⟩

/-! ## Trees of tokens that are spelt as they should be -/

def Legible (t : Tree) : Prop := ∀ u ∈ t.leaves, Spelt u

theorem legible_leaf {t : Token} : Legible (.leaf t) ↔ Spelt t := List.forall_mem_singleton

theorem legible_node {l : Label} : Legible (.node l cs) ↔ ∀ c ∈ cs, Legible c := by
  show (∀ u ∈ Tree.leavesOf cs, Spelt u) ↔ _
  induction cs with
  | nil => exact iff_of_true (List.forall_mem_nil _) (List.forall_mem_nil _)
  | cons c cs ih => rw [Tree.leavesOf, List.forall_mem_append, ih, List.forall_mem_cons, Legible]

theorem Spelt.sign {t : Token} (h : Spelt t) (ht : t.type ∈ [tNot, tMinus]) : ∃ s : Sign, t.text? = some s.text := by
  simp only [List.mem_cons, List.not_mem_nil, or_false] at ht
  rcases ht with ht | ht
  · exact ⟨.not, h.quoted 15 "!" rfl ht⟩
  · exact ⟨.minus, h.quoted 16 "-" rfl ht⟩

/-- The types of the operators that stand between expressions. -/
def operatorTypes : List Int := [tTimes, tDivide, tMinus, tPlus, tLess, tLessEqual, tEqual]

theorem Spelt.operator {t : Token} (h : Spelt t) (ht : t.type ∈ operatorTypes) : ∃ op : Operator, t.text? = some op.text := by
  simp only [operatorTypes, List.mem_cons, List.not_mem_nil, or_false] at ht
  rcases ht with ht | ht | ht | ht | ht | ht | ht
  · exact ⟨.times, h.quoted 17 "*" rfl ht⟩
  · exact ⟨.divide, h.quoted 18 "/" rfl ht⟩
  · exact ⟨.minus, h.quoted 16 "-" rfl ht⟩
  · exact ⟨.plus, h.quoted 19 "+" rfl ht⟩
  · exact ⟨.less, h.quoted 20 "<" rfl ht⟩
  · exact ⟨.lessOrEqual, h.quoted 21 "<=" rfl ht⟩
  · exact ⟨.equal, h.quoted 22 "==" rfl ht⟩

/-! ## Reading -/

/-- An expression is what the tree is read as. -/
structure Reads (t : Tree) (e : Expr) : Prop where
  toExpr : t.toExpr? = some e
  text : t.text = .ok e.text
  begins : t.leaves.head?.map placeOf = some e.place
  nameless : e.Nameless → t.Nameless

/-- A call is what the tree is read as. -/
structure ReadsCall (t : Tree) (c : Call) : Prop where
  parts : ∃ l name opening rest, t = .node l (.leaf name :: .leaf opening :: rest) ∧ c.place = placeOf name ∧
    name.text? = some c.name ∧ Tree.toArgs? rest = some c.args
  text : t.text = .ok c.text

variable {l : Label} {t t' : Tree} {e e' : Expr} {u v : Token}

theorem reads_parens (hl : l.form = .parens) (hu : u.text? = some "(") (hv : v.text? = some ")") (h : Reads t e) :
    Reads (.node l [.leaf u, t, .leaf v]) (.parens (placeOf u) e) where
  toExpr := by
    rw [Tree.toExpr?, h.toExpr]
    · rfl
    · exact hl
  text := by
    rw [Tree.text, Tree.textOf_cons (Tree.text_leaf hu) (Tree.textOf_cons h.text (Tree.textOf_singleton (Tree.text_leaf hv))),
      Expr.text, String.append_assoc]
  begins := rfl
  nameless hn := by
    refine Tree.nameless_node (by rw [hl]; decide) (by rw [hl]; decide) ?_
    simp only [List.forall_mem_cons]
    exact ⟨Tree.nameless_leaf u, h.nameless hn, Tree.nameless_leaf v, List.forall_mem_nil _⟩

theorem reads_signed (hl : l.form = .neg) {s : Sign} (hu : u.text? = some s.text) (h : Reads t e) :
    Reads (.node l [.leaf u, t]) (.signed (placeOf u) s e) where
  toExpr := by
    rw [Tree.toExpr?, h.toExpr, hu]
    · show (Sign.named? s.text).bind _ = _
      rw [Sign.named?_text]
      rfl
    · exact hl
  text := by
    rw [Tree.text, Tree.textOf_cons (Tree.text_leaf hu) (Tree.textOf_singleton h.text), Expr.text]
  begins := rfl
  nameless hn := by
    refine Tree.nameless_node (by rw [hl]; decide) (by rw [hl]; decide) ?_
    simp only [List.forall_mem_cons]
    exact ⟨Tree.nameless_leaf u, h.nameless hn, List.forall_mem_nil _⟩

theorem reads_binary (hl : l.form = .mulDiv ∨ l.form = .addSub ∨ l.form = .compare) {op : Operator} (hu : u.text? = some op.text)
    (h : Reads t e) (h' : Reads t' e') : Reads (.node l [t, .leaf u, t']) (.binary op e e') where
  toExpr := by
    have hread : (do return .binary (← Operator.named? (← u.text?)) (← t.toExpr?) (← t'.toExpr?) : Option Expr) =
        some (.binary op e e') := by
      rw [hu, h.toExpr, h'.toExpr]
      show (Operator.named? op.text).bind _ = _
      rw [Operator.named?_text]
      rfl
    rcases hl with hl | hl | hl
    all_goals
      unfold Tree.toExpr?
      rw [hl]
      exact hread
  text := by
    rw [Tree.text, Tree.textOf_cons h.text (Tree.textOf_cons (Tree.text_leaf hu) (Tree.textOf_singleton h'.text)), Expr.text,
      String.append_assoc]
  begins := by
    have hbegins := h.begins
    rw [Tree.leaves, Tree.leavesOf, List.head?_append]
    cases hhead : t.leaves.head? with
    | none =>
      rw [hhead] at hbegins
      cases hbegins
    | some w =>
      rw [hhead] at hbegins
      exact hbegins
  nameless hn := by
    refine Tree.nameless_node ?_ ?_ ?_
    · rcases hl with hl | hl | hl <;> rw [hl] <;> decide
    · rcases hl with hl | hl | hl <;> rw [hl] <;> decide
    · simp only [List.forall_mem_cons]
      exact ⟨h.nameless hn.1, Tree.nameless_leaf u, h'.nameless hn.2, List.forall_mem_nil _⟩

theorem reads_call (hl : l.form = .callExpr) {c : Call} (h : ReadsCall t c) : Reads (.node l [t]) (.call c.place c.name c.args) := by
  obtain ⟨⟨l', name, opening, rest, rfl, hplace, hname, hargs⟩, htext⟩ := h
  refine ⟨?_, ?_, ?_, False.elim⟩
  · rw [Tree.toExpr?, hname, hargs, hplace]
    · rfl
    · exact hl
  · rw [Tree.text, Tree.textOf_singleton htext]
    rfl
  · rw [hplace]
    rfl

theorem reads_token {s : String} (hu : u.text? = some s)
    (he : l.form = .reference ∧ e = .reference (placeOf u) s ∨ l.form = .stringLiteral ∧ e = .stringLiteral (placeOf u) s ∨
      l.form = .intLiteral ∧ e = .intLiteral (placeOf u) s ∨ l.form = .boolLiteral ∧ e = .boolLiteral (placeOf u) s) :
    Reads (.node l [.leaf u]) e := by
  have htext : (Tree.node l [.leaf u]).text = .ok s := Tree.textOf_singleton (Tree.text_leaf hu)
  have hleaf : ∀ c ∈ [Tree.leaf u], c.Nameless := List.forall_mem_singleton.mpr (Tree.nameless_leaf u)
  rcases he with ⟨hl, rfl⟩ | ⟨hl, rfl⟩ | ⟨hl, rfl⟩ | ⟨hl, rfl⟩
  all_goals
    refine ⟨?_, htext, rfl, fun hn => ?_⟩
    · unfold Tree.toExpr?
      rw [hl]
      dsimp only
      rw [hu]
      rfl
  · exact hn.elim
  all_goals
    exact Tree.nameless_node (by rw [hl]; decide) (by rw [hl]; decide) hleaf

/-- What is read of the arguments after the first. -/
theorem reads_pairs {ps : List (Token × Tree)} (h : ∀ p ∈ ps, p.1.text? = some "," ∧ ∃ e, Reads p.2 e) {rest : List Tree}
    (hrest : Tree.toArgs? rest = some []) :
    ∃ es, Tree.toArgs? (flattened ps ++ rest) = some es ∧ Tree.textOf (flattened ps) = .ok (Expr.textAfter es) := by
  induction ps with
  | nil => exact ⟨[], hrest, rfl⟩
  | cons p ps ih =>
    obtain ⟨⟨hcomma, e, he⟩, h⟩ := List.forall_mem_cons.mp h
    obtain ⟨es, hargs, htext⟩ := ih h
    refine ⟨e :: es, ?_, ?_⟩
    · show Tree.toArgs? (.leaf p.1 :: p.2 :: (flattened ps ++ rest)) = _
      rw [Tree.toArgs?_leaf, Tree.toArgs?_cons he.toExpr hargs]
    · show Tree.textOf (.leaf p.1 :: p.2 :: flattened ps) = _
      rw [Tree.textOf_cons (Tree.text_leaf hcomma) (Tree.textOf_cons he.text htext), Expr.textAfter, String.append_assoc]

/-- Every derivation of an expression or a call is read as one. -/
def Readable (t : Tree) : Prop :=
  Legible t → (Derives .expr t → ∃ e, Reads t e) ∧ (Derives .funcCall t → ∃ c, ReadsCall t c)

theorem readable_leaf (u : Token) : Readable (.leaf u) := fun _ => ⟨nofun, nofun⟩

theorem readable_error (u : Token) : Readable (.error u) := fun _ => ⟨nofun, nofun⟩

theorem reads_funcCall (hcs : ∀ c ∈ cs, Readable c) (hlegible : ∀ c ∈ cs, Legible c)
    (h : Derives .funcCall (.node l cs)) : ∃ c, ReadsCall (.node l cs) c := by
  cases h with
  | node hproduction _ hm =>
    obtain rfl := List.mem_singleton.mp hproduction
    simp only [matches_token, matches_optional, matches_rule, matches_nil] at hm
    obtain ⟨name, _, rfl, -, opening, rest, rfl, hopening, hrest⟩ := hm
    simp only [List.forall_mem_cons, legible_leaf] at hlegible
    obtain ⟨hname, hopen, hlegible⟩ := hlegible
    obtain ⟨s, hs⟩ := hname.text
    have hopenText := hopen.quoted 1 "(" rfl (List.mem_singleton.mp hopening)
    -- the arguments and the token that closes them are read together
    suffices hargs : ∃ es, Tree.toArgs? rest = some es ∧ Tree.textOf rest = .ok (Expr.textOf es ++ ")") by
      obtain ⟨es, hargs, htext⟩ := hargs
      refine ⟨⟨placeOf name, s, es⟩, ⟨l, name, opening, rest, rfl, rfl, hs, hargs⟩, ?_⟩
      rw [Tree.text, Tree.textOf_cons (Tree.text_leaf hs) (Tree.textOf_cons (Tree.text_leaf hopenText) htext), Call.text, Expr.text]
      simp only [String.append_assoc]
    rcases hrest with ⟨closing, _, rfl, hclosing, rfl⟩ | ⟨bs, ds, rfl, ⟨first, more, rfl, hfirst, hmore⟩, closing, _, rfl, hclosing, rfl⟩
    · obtain ⟨hclose, -⟩ := List.forall_mem_cons.mp hlegible
      have hcloseText := (legible_leaf.1 hclose).quoted 3 ")" rfl (List.mem_singleton.mp hclosing)
      refine ⟨[], rfl, ?_⟩
      rw [Tree.textOf_singleton (Tree.text_leaf hcloseText), Expr.textOf, String.empty_append]
    · obtain ⟨ps, rfl, hps⟩ := hmore.pairs rfl
      simp only [List.forall_mem_cons, List.forall_mem_append, List.cons_append] at hlegible hcs
      obtain ⟨hfirstLegible, hpairsLegible, hclose, -⟩ := hlegible
      obtain ⟨-, -, hfirstReads, hpairsReads, -⟩ := hcs
      have hcloseText := (legible_leaf.1 hclose).quoted 3 ")" rfl (List.mem_singleton.mp hclosing)
      have hclosed : Tree.toArgs? [.leaf closing] = some [] := rfl
      obtain ⟨e, he⟩ := (hfirstReads hfirstLegible).1 hfirst
      have hread : ∀ p ∈ ps, p.1.text? = some "," ∧ ∃ e, Reads p.2 e := by
        intro p hp
        obtain ⟨hcomma, hderives⟩ := hps p hp
        have hmem : ∀ c ∈ [Tree.leaf p.1, p.2], c ∈ flattened ps := fun c hc => List.mem_flatMap.mpr ⟨p, hp, hc⟩
        simp only [List.forall_mem_cons] at hmem
        obtain ⟨hleaf, htree, -⟩ := hmem
        exact ⟨(legible_leaf.1 (hpairsLegible _ hleaf)).quoted 2 "," rfl hcomma,
          (hpairsReads _ htree (hpairsLegible _ htree)).1 hderives⟩
      obtain ⟨es, hargs, htext⟩ := reads_pairs hread hclosed
      refine ⟨e :: es, Tree.toArgs?_cons he.toExpr hargs, ?_⟩
      rw [List.cons_append, Tree.textOf_cons he.text (Tree.textOf_append htext (Tree.textOf_singleton (Tree.text_leaf hcloseText))),
        Expr.textOf_cons, String.append_assoc]

theorem reads_operation (hl : l.form = .mulDiv ∨ l.form = .addSub ∨ l.form = .compare) (htypes : types ⊆ operatorTypes)
    (hread : ∀ c ∈ cs, Derives .expr c → ∃ e, Reads c e) (hlegible : ∀ c ∈ cs, Legible c)
    (hm : Matches [.rule .expr, .token types, .rule .expr] cs) : ∃ e, Reads (.node l cs) e := by
  simp only [matches_token, matches_rule, matches_nil] at hm
  obtain ⟨a, _, rfl, ha, u, _, rfl, hu, b, _, rfl, hb, rfl⟩ := hm
  simp only [List.forall_mem_cons, legible_leaf] at hread hlegible
  obtain ⟨hleft, -, hright, -⟩ := hread
  obtain ⟨-, hspelt, -⟩ := hlegible
  obtain ⟨e, he⟩ := hleft ha
  obtain ⟨e', he'⟩ := hright hb
  obtain ⟨op, hop⟩ := hspelt.operator (htypes hu)
  exact ⟨_, reads_binary hl hop he he'⟩

/-- A derivation of an expression is read if the expressions and calls inside it are; the cases are the alternatives. -/
theorem reads_expr (hcs : ∀ c ∈ cs, Readable c) (hlegible : ∀ c ∈ cs, Legible c)
    (h : Derives .expr (.node l cs)) : ∃ e, Reads (.node l cs) e := by
  cases h with
  | node hproduction hform hm =>
    have hread : ∀ c ∈ cs, Derives .expr c → ∃ e, Reads c e := fun c hc => (hcs c hc (hlegible c hc)).1
    simp only [productions, List.mem_cons, List.not_mem_nil, or_false] at hproduction
    rcases hproduction with rfl | rfl | rfl | rfl | rfl | rfl | hproduction
    · simp only [matches_token, matches_rule, matches_nil] at hm
      obtain ⟨u, _, rfl, hu, c, _, rfl, hc, v, _, rfl, hv, rfl⟩ := hm
      simp only [List.forall_mem_cons, legible_leaf] at hread hlegible
      obtain ⟨hopen, -, hclose, -⟩ := hlegible
      obtain ⟨e, he⟩ := hread.2.1 hc
      exact ⟨_, reads_parens hform (hopen.quoted 1 "(" rfl (List.mem_singleton.mp hu))
        (hclose.quoted 3 ")" rfl (List.mem_singleton.mp hv)) he⟩
    · simp only [matches_token, matches_rule, matches_nil] at hm
      obtain ⟨u, _, rfl, hu, c, _, rfl, hc, rfl⟩ := hm
      simp only [List.forall_mem_cons, legible_leaf] at hread hlegible
      obtain ⟨s, hs⟩ := hlegible.1.sign hu
      obtain ⟨e, he⟩ := hread.2.1 hc
      exact ⟨_, reads_signed hform hs he⟩
    · exact reads_operation (.inl hform) (by decide) hread hlegible hm
    · exact reads_operation (.inr (.inl hform)) (by decide) hread hlegible hm
    · exact reads_operation (.inr (.inr hform)) (by decide) hread hlegible hm
    · simp only [matches_rule, matches_nil] at hm
      obtain ⟨c, _, rfl, hc, rfl⟩ := hm
      obtain ⟨d, hd⟩ := (hcs c List.mem_cons_self (hlegible c List.mem_cons_self)).2 hc
      exact ⟨_, reads_call hform hd⟩
    · -- the other alternatives are one token each
      have htoken : ∃ u, cs = [.leaf u] := by
        rcases hproduction with rfl | rfl | rfl | rfl
        all_goals
          simp only [matches_token, matches_nil] at hm
          obtain ⟨u, _, rfl, -, rfl⟩ := hm
          exact ⟨u, rfl⟩
      obtain ⟨u, rfl⟩ := htoken
      obtain ⟨s, hs⟩ := (legible_leaf.1 (hlegible _ List.mem_cons_self)).text
      rcases hproduction with rfl | rfl | rfl | rfl
      · exact ⟨_, reads_token hs (.inl ⟨hform, rfl⟩)⟩
      · exact ⟨_, reads_token hs (.inr (.inl ⟨hform, rfl⟩))⟩
      · exact ⟨_, reads_token hs (.inr (.inr (.inl ⟨hform, rfl⟩)))⟩
      · exact ⟨_, reads_token hs (.inr (.inr (.inr ⟨hform, rfl⟩)))⟩

theorem readable (t : Tree) : Readable t := by
  refine Tree.induct readable_leaf readable_error (fun l cs hcs hlegible => ?_) t
  exact ⟨reads_expr hcs (legible_node.1 hlegible), reads_funcCall hcs (legible_node.1 hlegible)⟩

/-- A derivation of an expression whose tokens are spelt as they should be is read as an expression. -/
theorem reads_of_derives (h : Derives .expr t) (hlegible : Legible t) : ∃ e, Reads t e := (readable t hlegible).1 h

end Grammar

end NimbleLang
