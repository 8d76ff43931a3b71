import NimbleLang.Proofs.Alternatives
import NimbleLang.Tree.Basic

/-!
The grammar of Nimble and its derivations. `Grammar.productions` lists the alternatives of every rule, each with the form of
its nodes, and a tree is a derivation of a rule if every node has the children that one alternative asks for
(`Grammar.Derives`).

The grammar is ambiguous. Of the derivations of an expression, those are `Tree.Ordered` in which operators of a lower
precedence level never stand below ones of a higher level without parentheses, and operators of one level group to the left.

`Grammar.Fits` says what the steps of a rule build, as far as what the called rules build is as it should be.
-/

namespace NimbleLang

/-! ## Trees -/

/-- The precedence level of the operator of a form; what has no operator between its parts holds together tightest. -/
def Grammar.Form.level : Grammar.Form → Int
  | .mulDiv => 8
  | .addSub => 7
  | .compare => 6
  | _ => 9

namespace Tree

mutual
/-- The tokens of a tree from left to right. -/
def leaves : Tree → List Token
  | leaf t | error t => [t]
  | node _ cs => leavesOf cs

def leavesOf : List Tree → List Token
  | [] => []
  | t :: ts => leaves t ++ leavesOf ts
end

def form? : Tree → Option Grammar.Form
  | node l _ => some l.form
  | _ => none

theorem leavesOf_append (cs ds : List Tree) : leavesOf (cs ++ ds) = leavesOf cs ++ leavesOf ds := by
  induction cs with
  | nil => rfl
  | cons c cs ih => rw [List.cons_append, leavesOf, leavesOf, ih, List.append_assoc]

theorem leavesOf_singleton (c : Tree) : leavesOf [c] = c.leaves := List.append_nil _

variable {cs : List Tree}

theorem mem_preorderOf {t : Tree} : t ∈ preorderOf cs ↔ ∃ c ∈ cs, t ∈ c.preorder := by
  induction cs with
  | nil => simp [preorderOf]
  | cons c cs ih => simp [preorderOf, ih]

/-- The precedence level of the operator at the top. -/
def level (t : Tree) : Int := (t.form?.map Grammar.Form.level).getD 9

/-- The operands of the operator at the top, if there is one, hold together at least as well as they must. -/
structure Balanced (t : Tree) : Prop where
  neg : t.form? = some .neg → ∃ op e, t.children = [leaf op, e] ∧ 9 ≤ e.level
  binary : t.level < 9 → ∃ left op right, t.children = [left, leaf op, right] ∧ t.level ≤ left.level ∧ t.level + 1 ≤ right.level

/-- Every part of the tree is balanced. -/
def Ordered (t : Tree) : Prop := ∀ part ∈ t.preorder, part.Balanced

theorem ordered_leaf (t : Token) : (leaf t).Ordered := by
  intro part hpart
  rw [preorder, List.mem_singleton] at hpart
  subst hpart
  exact ⟨nofun, fun h => absurd h (Int.lt_irrefl 9)⟩

theorem ordered_node {l : Label} (h : (node l cs).Balanced) (hcs : ∀ c ∈ cs, c.Ordered) : (node l cs).Ordered := by
  intro part hpart
  rw [preorder, List.mem_cons, mem_preorderOf] at hpart
  rcases hpart with rfl | ⟨c, hc, hpart⟩
  · exact h
  · exact hcs c hc part hpart

end Tree

namespace Grammar

/-! ## Derivations -/

/-- What an alternative asks for. -/
inductive Item where
  /-- One token of these types. -/
  | token (types : List Int)
  | rule (rule : Rule)
  | optional (body : List Item)
  | star (body : List Item)
  deriving Repr, Inhabited

structure Production where
  form : Form
  items : List Item
  deriving Repr, Inhabited

open Item in
/-- The alternatives of a rule. -/
def productions : Rule → List Production
  | .script => [⟨.script, [star [rule .funcDef], rule .main, token [Token.eof]]⟩]
  | .funcDef => [⟨.funcDef, [token [tFunc], token [tId], token [tOpen],
      optional [rule .parameterDef, star [token [tComma], rule .parameterDef]],
      token [tClose], optional [token [tArrow], token [tType]], token [tBegin], rule .body, token [tEnd]]⟩]
  | .parameterDef => [⟨.parameterDef, [token [tId], token [tColon], token [tType]]⟩]
  | .main => [⟨.main, [rule .body]⟩]
  | .body => [⟨.body, [rule .varBlock, rule .block]⟩]
  | .varBlock => [⟨.varBlock, [star [rule .varDec]]⟩]
  | .block => [⟨.block, [star [rule .statement]]⟩]
  | .varDec => [⟨.varDec, [token [tVar], token [tId], token [tColon], token [tType], optional [token [tAssign], rule .expr]]⟩]
  | .statement => [
      ⟨.assignment, [token [tId], token [tAssign], rule .expr]⟩,
      ⟨.whileLoop, [token [tWhile], rule .expr, token [tBegin], rule .block, token [tEnd]]⟩,
      ⟨.conditional, [token [tIf], rule .expr, token [tBegin], rule .block, token [tEnd],
        optional [token [tElse], token [tBegin], rule .block, token [tEnd]]]⟩,
      ⟨.print, [token [tPrint], rule .expr]⟩,
      ⟨.returnStatement, [token [tReturn], optional [rule .expr]]⟩,
      ⟨.callStatement, [rule .funcCall]⟩]
  | .expr => [
      ⟨.parens, [token [tOpen], rule .expr, token [tClose]]⟩,
      ⟨.neg, [token [tNot, tMinus], rule .expr]⟩,
      ⟨.mulDiv, [rule .expr, token [tTimes, tDivide], rule .expr]⟩,
      ⟨.addSub, [rule .expr, token [tMinus, tPlus], rule .expr]⟩,
      ⟨.compare, [rule .expr, token [tLess, tLessEqual, tEqual], rule .expr]⟩,
      ⟨.callExpr, [rule .funcCall]⟩,
      ⟨.reference, [token [tId]]⟩,
      ⟨.stringLiteral, [token [tString]]⟩,
      ⟨.intLiteral, [token [tInt]]⟩,
      ⟨.boolLiteral, [token [tBool]]⟩]
  | .funcCall => [⟨.funcCall, [token [tId], token [tOpen],
      optional [rule .expr, star [token [tComma], rule .expr]], token [tClose]]⟩]

mutual
/-- The tree is a derivation of the rule. -/
inductive Derives : Rule → Tree → Prop
  | node {r : Rule} {production : Production} {l : Label} {cs : List Tree} : production ∈ productions r →
      l.form = production.form → Matches production.items cs → Derives r (.node l cs)

/-- The trees are, one after the other, what the items ask for. -/
inductive Matches : List Item → List Tree → Prop
  | nil : Matches [] []
  | token {types : List Int} {t : Token} {items : List Item} {cs : List Tree} : t.type ∈ types → Matches items cs →
      Matches (.token types :: items) (.leaf t :: cs)
  | rule {r : Rule} {c : Tree} {items : List Item} {cs : List Tree} : Derives r c → Matches items cs →
      Matches (.rule r :: items) (c :: cs)
  | absent {body items : List Item} {cs : List Tree} : Matches items cs → Matches (.optional body :: items) cs
  | present {body items : List Item} {bs cs : List Tree} : Matches body bs → Matches items cs →
      Matches (.optional body :: items) (bs ++ cs)
  | done {body items : List Item} {cs : List Tree} : Matches items cs → Matches (.star body :: items) cs
  | again {body items : List Item} {bs cs : List Tree} : Matches body bs → Matches (.star body :: items) cs →
      Matches (.star body :: items) (bs ++ cs)
end

/-! ## What the steps of a rule build -/

mutual
/-- What a step asks for. -/
def Step.item : Step → Item
  | .token _ type => .token [type]
  | .operator _ types => .token types
  | .phrase _ rule _ => .rule rule
  | .optional _ _ body | .decided _ _ body => .optional (itemsOf body)
  | .many _ _ _ body => .star (itemsOf body)

def itemsOf : List Step → List Item
  | [] => []
  | s :: rest => s.item :: itemsOf rest
end

variable {Good : Rule → Int → Tree → Prop}

mutual
/-- The trees are what a step builds if what a rule builds at a level is `Good`. -/
inductive FitsStep (Good : Rule → Int → Tree → Prop) : Step → List Tree → Prop
  | token {state : Int} {t : Token} : FitsStep Good (.token state t.type) [.leaf t]
  | operator {state : Int} {types : List Int} {t : Token} : t.type ∈ types → FitsStep Good (.operator state types) [.leaf t]
  | phrase {state : Int} {rule : Rule} {p : Int} {c : Tree} : Good rule p c → FitsStep Good (.phrase state rule p) [c]
  | absent {state : Int} {first : List Int} {body : List Step} : FitsStep Good (.optional state first body) []
  | present {state : Int} {first : List Int} {body : List Step} {cs : List Tree} : Fits Good body cs →
      FitsStep Good (.optional state first body) cs
  | refused {state decision : Int} {body : List Step} : FitsStep Good (.decided state decision body) []
  | taken {state decision : Int} {body : List Step} {cs : List Tree} : Fits Good body cs →
      FitsStep Good (.decided state decision body) cs
  | done {state again : Int} {first : List Int} {body : List Step} : FitsStep Good (.many state again first body) []
  | again {state again : Int} {first : List Int} {body : List Step} {bs cs : List Tree} : Fits Good body bs →
      FitsStep Good (.many state again first body) cs → FitsStep Good (.many state again first body) (bs ++ cs)

inductive Fits (Good : Rule → Int → Tree → Prop) : List Step → List Tree → Prop
  | nil : Fits Good [] []
  | cons {step : Step} {rest : List Step} {bs cs : List Tree} : FitsStep Good step bs → Fits Good rest cs →
      Fits Good (step :: rest) (bs ++ cs)
end

mutual
theorem FitsStep.matches (hgood : ∀ r p c, Good r p c → Derives r c) {items : List Item} {cs : List Tree} (hrest : Matches items cs) :
    {step : Step} → {bs : List Tree} → FitsStep Good step bs → Matches (step.item :: items) (bs ++ cs)
  | _, _, .token => .token (List.mem_singleton.mpr rfl) hrest
  | _, _, .operator ht => .token ht hrest
  | _, _, .phrase hc => .rule (hgood _ _ _ hc) hrest
  | _, _, .absent => .absent hrest
  | _, _, .present h => .present (h.matches hgood) hrest
  | _, _, .refused => .absent hrest
  | _, _, .taken h => .present (h.matches hgood) hrest
  | _, _, .done => .done hrest
  | _, _, .again h hagain => List.append_assoc .. ▸ .again (h.matches hgood) (hagain.matches hgood hrest)

theorem Fits.matches (hgood : ∀ r p c, Good r p c → Derives r c) :
    {steps : List Step} → {cs : List Tree} → Fits Good steps cs → Matches (itemsOf steps) cs
  | _, _, .nil => .nil
  | _, _, .cons hstep hrest => hstep.matches hgood (hrest.matches hgood)
end

mutual
/-- What holds of leaves and of all that rules build holds of all that steps build. -/
theorem FitsStep.all {P : Tree → Prop} (hleaf : ∀ t, P (.leaf t)) (hgood : ∀ r p c, Good r p c → P c) :
    {step : Step} → {cs : List Tree} → FitsStep Good step cs → ∀ c ∈ cs, P c
  | _, _, .token => List.forall_mem_singleton.mpr (hleaf _)
  | _, _, .operator _ => List.forall_mem_singleton.mpr (hleaf _)
  | _, _, .phrase hc => List.forall_mem_singleton.mpr (hgood _ _ _ hc)
  | _, _, .absent => List.forall_mem_nil _
  | _, _, .present h => h.all hleaf hgood
  | _, _, .refused => List.forall_mem_nil _
  | _, _, .taken h => h.all hleaf hgood
  | _, _, .done => List.forall_mem_nil _
  | _, _, .again h hagain => List.forall_mem_append.mpr ⟨h.all hleaf hgood, hagain.all hleaf hgood⟩

theorem Fits.all {P : Tree → Prop} (hleaf : ∀ t, P (.leaf t)) (hgood : ∀ r p c, Good r p c → P c) :
    {steps : List Step} → {cs : List Tree} → Fits Good steps cs → ∀ c ∈ cs, P c
  | _, _, .nil => List.forall_mem_nil _
  | _, _, .cons hstep hrest => List.forall_mem_append.mpr ⟨hstep.all hleaf hgood, hrest.all hleaf hgood⟩
end

variable {r : Rule} {p : Int} {cs : List Tree} {l : Label} {steps : List Step} {a : Alternative}

/-- An operator and what follows it. -/
theorem Fits.operation {state state' : Int} {types : List Int}
    (h : Fits Good [.operator state types, .phrase state' r p] cs) : ∃ op e, cs = [.leaf op, e] ∧ op.type ∈ types ∧ Good r p e := by
  cases h with
  | cons hop hrest =>
    cases hop with
    | operator hop =>
      cases hrest with
      | cons hphrase hnil =>
        cases hphrase with
        | phrase he =>
          cases hnil
          exact ⟨_, _, rfl, hop, he⟩

/-! ## What rules build -/

/-- The labelled alternatives of a body. -/
def Body.alternatives : Body → List Alternative
  | .sequence _ => []
  | .choice _ _ alternatives => alternatives
  | .operators _ _ operands .. => operands

/-- The operators of a body. -/
def Body.tails : Body → List Tail
  | .operators _ _ _ _ _ _ _ _ tails => tails
  | _ => []

/-- What a rule builds at a precedence level. -/
structure Built (r : Rule) (p : Int) (t : Tree) : Prop where
  derives : Derives r t
  ordered : t.Ordered
  level : r = .expr → p ≤ t.level

theorem balanced_of_form (hneg : l.form ≠ .neg) (hlevel : l.form.level = 9) (cs : List Tree) : (Tree.node l cs).Balanced :=
  ⟨fun h => absurd (Option.some.inj h) hneg, fun h => absurd hlevel (Int.ne_of_lt h)⟩

theorem built_parts (h : Fits Built steps cs) : ∀ c ∈ cs, c.Ordered :=
  h.all Tree.ordered_leaf fun _ _ _ h => h.ordered

theorem built_matches (h : Fits Built steps cs) : Matches (itemsOf steps) cs :=
  h.matches fun _ _ _ h => h.derives

theorem production_of_sequence (h : body r = .sequence steps) :
    ⟨Form.ofRule r, itemsOf steps⟩ ∈ productions r := by
  cases r <;> cases h <;> exact .head _

theorem built_sequence (hbody : body r = .sequence steps) (hl : l.form = Form.ofRule r)
    (h : Fits Built steps cs) (p : Int) : Built r p (.node l cs) := by
  refine ⟨.node (production_of_sequence hbody) hl (built_matches h), Tree.ordered_node ?_ (built_parts h), fun hr => ?_⟩
  · refine balanced_of_form ?_ ?_ cs
    all_goals
      rw [hl]
      cases r <;> cases hbody <;> decide
  · subst hr
    cases hbody

theorem alternative_shape (h : a ∈ (body r).alternatives) : ⟨a.form, itemsOf a.steps⟩ ∈ productions r ∧ a.form.level = 9 ∧
    (a.form = .neg → ∃ state types state', a.steps = [.operator state types, .phrase state' .expr 9]) := by
  cases r <;> simp only [body, Body.alternatives, List.mem_cons, List.not_mem_nil, or_false] at h
  all_goals
    rcases h with rfl | rfl | rfl | rfl | rfl | rfl | rfl <;> refine ⟨by simp [productions, itemsOf, Step.item], rfl, ?_⟩
  all_goals
    intro hneg
    first | exact ⟨_, _, _, rfl⟩ | cases hneg

theorem built_alternative (ha : a ∈ (body r).alternatives) (hl : l.form = a.form)
    (h : Fits Built a.steps cs) (hp : p ≤ 9) : Built r p (.node l cs) := by
  obtain ⟨hproduction, hlevel, hshape⟩ := alternative_shape ha
  have hlevel : (Tree.node l cs).level = 9 := by
    rw [← hlevel, ← hl]
    rfl
  refine ⟨.node hproduction hl (built_matches h), Tree.ordered_node ⟨fun hneg => ?_, fun h => ?_⟩ (built_parts h),
    fun _ => hlevel ▸ hp⟩
  · obtain ⟨state, types, state', hsteps⟩ := hshape (hl.symm.trans (Option.some.inj hneg))
    rw [hsteps] at h
    obtain ⟨op, e, rfl, -, he⟩ := h.operation
    exact ⟨op, e, rfl, he.level rfl⟩
  · omega

theorem tail_shape {t : Tail} (h : t ∈ (body .expr).tails) : t.form.level = t.level ∧ t.level < 9 ∧ t.form ≠ .neg ∧
    ∃ state types state', t.steps = [.operator state types, .phrase state' .expr (t.level + 1)] ∧
      ⟨t.form, [.rule .expr, .token types, .rule .expr]⟩ ∈ productions .expr := by
  simp only [body, Body.tails, List.mem_cons, List.not_mem_nil, or_false] at h
  rcases h with rfl | rfl | rfl
  all_goals
    exact ⟨rfl, by decide, by decide, _, _, _, rfl, by simp [productions]⟩

theorem built_tail {t : Tail} (ht : t ∈ (body .expr).tails) (hp : p ≤ t.level) {left : Tree} (hleft : Built .expr p left)
    (hlevel : t.level ≤ left.level) (hl : l.form = t.form) (h : Fits Built t.steps cs) :
    Built .expr p (.node l (left :: cs)) := by
  obtain ⟨hform, hbinary, hneg, state, types, state', hsteps, hproduction⟩ := tail_shape ht
  have hnode : (Tree.node l (left :: cs)).level = t.level := by
    rw [← hform, ← hl]
    rfl
  have hparts := built_parts h
  rw [hsteps] at h
  obtain ⟨op, right, rfl, hop, hright⟩ := h.operation
  refine ⟨.node hproduction hl (.rule hleft.derives (.token hop (.rule hright.derives .nil))),
    Tree.ordered_node ⟨fun h => ?_, fun _ => ?_⟩ (List.forall_mem_cons.mpr ⟨hleft.ordered, hparts⟩), fun _ => hnode ▸ hp⟩
  · exact absurd (hl.symm.trans (Option.some.inj h)) hneg
  · exact ⟨left, op, right, rfl, hnode ▸ hlevel, hnode ▸ hright.level rfl⟩

end Grammar

end NimbleLang
