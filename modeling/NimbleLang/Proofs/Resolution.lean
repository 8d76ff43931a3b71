import Mathlib.Data.List.Basic
import NimbleLang.Proofs.Rooms

/-!
What a name stands for, told from all that was done to a tree of scopes. A `History` is a sequence of two kinds of acts:
making a scope inside a scope, and defining a name in a scope. A scope that is made under a name that was used before takes
the place of the other one among the children, but both can still be used, and a name can be defined again and again.

The chain of a scope, the scope itself and then those it was made in (`History.chain`), is known from the history, and so
are the definitions made in each scope (`History.definitionsIn`). `resolve_nearest_latest`: a name stands for what its
latest definition made of it in the first scope of the chain that has one. Nothing else is done to it by making scopes, or
by definitions elsewhere.
-/

namespace NimbleLang

/-! ## Definitions in one scope -/

/-- That a name is defined, as a parameter or not. -/
structure Definition where
  name : String
  type : Option SymbolType
  isParameter : Bool
  deriving DecidableEq, Repr, Inhabited

namespace Definition

/-- Whether a variable is defined that is no parameter. -/
def isVariable (d : Definition) : Bool := !d.isParameter && d.type.any fun t => !t.isFunction

/-- The symbol that a definition makes after earlier ones in the same scope. Parameters are numbered among the parameters,
variables among the variables. -/
def symbol (d : Definition) (earlier : List Definition) : Symbol where
  name := d.name
  type := d.type
  isParameter := d.isParameter
  index :=
    if d.isParameter then earlier.countP (·.isParameter)
    else if d.isVariable then earlier.countP isVariable
    else 0

/-- The symbol made by the latest definition of a name; the latest one comes first. -/
def latestOf (name : String) : List Definition → Option Symbol
  | [] => none
  | d :: earlier => if d.name = name then some (d.symbol earlier) else latestOf name earlier

theorem latestOf_eq_none {name : String} {ds : List Definition} : latestOf name ds = none ↔ ∀ d ∈ ds, d.name ≠ name := by
  induction ds with
  | nil => simp [latestOf]
  | cons d ds ih => by_cases h : d.name = name <;> simp [latestOf, h, ih]

end Definition

/-- A scope is as some definitions make it; the latest one comes first. -/
structure Scope.Records (s : Scope) (ds : List Definition) : Prop where
  parameters : s.parameters = ds.countP (·.isParameter)
  locals : s.locals = ds.countP Definition.isVariable
  find? : ∀ name, s.find? name = Definition.latestOf name ds

namespace Scope.Records

open Definition

variable {s : Scope} {ds : List Definition}

theorem empty (name : String) (returns : Option SymbolType) : Records { name, returns } [] := ⟨rfl, rfl, fun _ => rfl⟩

theorem find?_put (h : Records s ds) (d : Definition) (x : Symbol) (hx : x = d.symbol ds) (name : String) :
    Assoc.get? name (Assoc.put d.name x s.symbols) = latestOf name (d :: ds) := by
  rw [latestOf]
  split
  · rename_i hname
    rw [hname, Assoc.get?_put_self, hx]
  · rename_i hname
    rw [Assoc.get?_put_of_ne (Ne.symm hname)]
    exact h.find? name

theorem define (h : Records s ds) (d : Definition) : Records (s.define d.name d.type d.isParameter) (d :: ds) := by
  obtain ⟨name, type, isParameter⟩ := d
  cases isParameter with
  | true =>
    refine ⟨?_, ?_, fun x => h.find?_put ⟨name, type, true⟩ _ ?_ x⟩
    · simp [Scope.define, h.parameters]
    · simp [Scope.define, h.locals, isVariable]
    · simp [symbol, h.parameters]
  | false =>
    match type with
    | some (.value t) =>
      refine ⟨?_, ?_, fun x => h.find?_put ⟨name, some (.value t), false⟩ _ ?_ x⟩
      · simp [Scope.define, h.parameters]
      · simp [Scope.define, h.locals, isVariable, SymbolType.isFunction]
      · simp [symbol, isVariable, h.locals, SymbolType.isFunction]
    | some (.function ps r) =>
      refine ⟨?_, ?_, fun x => h.find?_put ⟨name, some (.function ps r), false⟩ _ ?_ x⟩
      · simp [Scope.define, h.parameters]
      · simp [Scope.define, h.locals, isVariable, SymbolType.isFunction]
      · simp [symbol, isVariable, SymbolType.isFunction]
    | none =>
      refine ⟨?_, ?_, fun x => h.find?_put ⟨name, none, false⟩ _ ?_ x⟩
      · simp [Scope.define, h.parameters]
      · simp [Scope.define, h.locals, isVariable]
      · simp [symbol, isVariable]

end Scope.Records

/-! ## Scopes around a scope -/

namespace Scopes

/-- Scope `n` and the scopes around it, the innermost first. -/
def chain (t : Scopes) (n : Nat) : List Nat :=
  match t.enclosing n with
  | some m => if m < n then n :: chain t m else [n]
  | none => [n]
termination_by n

theorem chain_inside {t : Scopes} {n m : Nat} (he : t.enclosing n = some m) (hlt : m < n) : t.chain n = n :: t.chain m := by
  rw [chain, he]
  exact if_pos hlt

theorem chain_outermost {t : Scopes} {n : Nat} (he : ∀ m, t.enclosing n = some m → ¬ m < n) : t.chain n = [n] := by
  rw [chain]
  split
  · rename_i m hm
    exact if_neg (he m hm)
  · rfl

/-- The first scope of the chain that has a symbol for a name decides what it stands for. -/
theorem resolve_eq_findSome? (t : Scopes) (n : Nat) (name : String) :
    t.resolve n name = (t.chain n).findSome? fun m => (t.scope m).find? name := by
  fun_induction resolve t n name with
  | case1 n s hs =>
    by_cases hinside : ∃ m, t.enclosing n = some m ∧ m < n
    · obtain ⟨m, he, hlt⟩ := hinside
      rw [chain_inside he hlt, List.findSome?_cons, hs]
    · rw [chain_outermost fun m he hlt => hinside ⟨m, he, hlt⟩, List.findSome?_singleton, hs]
  | case2 n hs m he hlt ih => rw [chain_inside he hlt, List.findSome?_cons, hs, ih]
  | case3 n hs m he hlt =>
    have houtermost : t.chain n = [n] := chain_outermost fun i hi => by rwa [← Option.some.inj (he.symm.trans hi)]
    rw [houtermost, List.findSome?_singleton, hs]
  | case4 n hs he =>
    have houtermost : t.chain n = [n] := chain_outermost fun i hi => nomatch he.symm.trans hi
    rw [houtermost, List.findSome?_singleton, hs]

/-- The chain of a scope hangs on the scopes with smaller numbers only. -/
theorem chain_congr {t t' : Scopes} {n : Nat} (h : ∀ m ≤ n, t'.enclosing m = t.enclosing m) : t'.chain n = t.chain n := by
  fun_induction chain t n with
  | case1 n m he hlt ih =>
    rw [chain_inside ((h n n.le_refl).trans he) hlt, ih fun i hi => h i (Nat.le_trans hi (Nat.le_of_lt hlt))]
  | case2 n m he hlt =>
    exact chain_outermost fun i hi => by rwa [← Option.some.inj ((he.symm.trans (h n n.le_refl).symm).trans hi)]
  | case3 n he => exact chain_outermost fun i hi => nomatch (he.symm.trans (h n n.le_refl).symm).trans hi

end Scopes

/-! ## Histories -/

/-- All that was done to the scopes of a tree, from its first scope on. Scopes are numbered as they are made; so far there
are `k` of them, and any of these can be used. -/
inductive History : Nat → Type
  | start (name : String) (returns : Option SymbolType) : History 1
  | create {k : Nat} (h : History k) (n : Fin k) (name : String) (returns : Option SymbolType) : History (k + 1)
  | define {k : Nat} (h : History k) (n : Fin k) (d : Definition) : History k

namespace History

variable {k : Nat}

/-- The scopes at the end. -/
def scopes : {k : Nat} → History k → Scopes
  | _, start name returns => .root name returns
  | _, create h n name returns => h.scopes.createChild n name returns
  | _, define h n d => h.scopes.define n d.name d.type d.isParameter

/-- A scope, the scope it was made in, the scope that one was made in, and so on. -/
def chain : {k : Nat} → History k → Nat → List Nat
  | _, start .., n => [n]
  | k + 1, create h m .., n => if n = k then n :: h.chain m else h.chain n
  | _, define h .., n => h.chain n

/-- The definitions made in a scope, the latest first. -/
def definitionsIn : {k : Nat} → History k → Nat → List Definition
  | _, start .., _ => []
  | _, create h .., n => h.definitionsIn n
  | _, define h m d, n => if n = m then d :: h.definitionsIn n else h.definitionsIn n

theorem size_scopes (h : History k) : h.scopes.size = k := by
  induction h with
  | start => rfl
  | create h n name returns ih => rw [scopes, Scopes.size_createChild, ih]
  | define h n d ih => rw [scopes, Scopes.define, Scopes.size_update, ih]

theorem definitionsIn_new (h : History k) {n : Nat} (hn : k ≤ n) : h.definitionsIn n = [] := by
  induction h with
  | start => rfl
  | create h m name returns ih => exact ih (by omega)
  | define h m d ih =>
    rw [definitionsIn, if_neg (by omega)]
    exact ih hn

theorem chain_scopes (h : History k) {n : Nat} (hn : n < k) : h.scopes.chain n = h.chain n := by
  induction h generalizing n with
  | start name returns =>
    obtain rfl : n = 0 := by omega
    rw [chain, scopes]
    exact Scopes.chain_outermost nofun
  | @create k h m name returns ih =>
    have hsize := h.size_scopes
    rw [chain, scopes]
    split
    · rename_i hnew
      subst hnew
      have henc : (h.scopes.createChild m name returns).enclosing n = some m.val := by
        rw [Scopes.enclosing_createChild, if_pos hsize.symm]
      have hold : (h.scopes.createChild m name returns).chain m = h.scopes.chain m := by
        refine Scopes.chain_congr fun i hi => ?_
        rw [Scopes.enclosing_createChild, if_neg (by omega)]
      rw [Scopes.chain_inside henc m.isLt, hold, ih m.isLt]
    · rw [← ih (by omega)]
      refine Scopes.chain_congr fun i hi => ?_
      rw [Scopes.enclosing_createChild, if_neg (by omega)]
  | define h m d ih =>
    rw [chain, scopes, ← ih hn]
    exact Scopes.chain_congr fun i _ => Scopes.enclosing_update ..

/-- Every scope is as the definitions made in it make it. -/
theorem scope_records (h : History k) {n : Nat} (hn : n < k) : (h.scopes.scope n).Records (h.definitionsIn n) := by
  induction h with
  | start name returns =>
    obtain rfl : n = 0 := by omega
    exact .empty name returns
  | @create k h m name returns ih =>
    rw [scopes, definitionsIn, Scopes.scope_createChild, h.size_scopes]
    split
    · rename_i hnew
      subst hnew
      rw [h.definitionsIn_new (Nat.le_refl _)]
      exact .empty name returns
    · exact ih (by omega)
  | define h m d ih =>
    rw [scopes, definitionsIn, Scopes.define]
    split
    · rename_i hm
      subst hm
      rw [Scopes.scope_update_self (h.size_scopes.symm ▸ m.isLt)]
      exact (ih hn).define d
    · rename_i hm
      rw [Scopes.scope_update_ne _ hm]
      exact ih hn

/-- What a name stands for in a scope, told from the history: the symbol of its latest definition in the first scope of the
chain that has one. -/
def meaning (h : History k) (n : Nat) (name : String) : Option Symbol :=
  (h.chain n).findSome? fun m => Definition.latestOf name (h.definitionsIn m)

theorem mem_chain_lt (h : History k) {n m : Nat} (hn : n < k) (hm : m ∈ h.chain n) : m < k := by
  induction h generalizing n with
  | start => exact (List.mem_singleton.mp hm).symm ▸ hn
  | @create k h i name returns ih =>
    rw [chain] at hm
    split at hm
    · rcases List.mem_cons.mp hm with rfl | hm
      · exact hn
      · exact Nat.lt_succ_of_lt (ih i.isLt hm)
    · exact Nat.lt_succ_of_lt (ih (by omega) hm)
  | define h i d ih => exact ih hn hm

theorem resolve_eq_meaning (h : History k) {n : Nat} (hn : n < k) (name : String) :
    h.scopes.resolve n name = h.meaning n name := by
  rw [Scopes.resolve_eq_findSome?, h.chain_scopes hn, meaning, ← List.head?_filterMap, ← List.head?_filterMap,
    List.filterMap_congr fun m hm => (h.scope_records (h.mem_chain_lt hn hm)).find? name]

/-! ## What does not matter -/

/-- A history goes on after another one, and nothing defines the name in any of the scopes. -/
inductive Passes (name : String) (ns : List Nat) (h : History k) : {k' : Nat} → History k' → Prop
  | here : Passes name ns h h
  | create {k' : Nat} {h' : History k'} (n : Fin k') (child : String) (returns : Option SymbolType) :
      Passes name ns h h' → Passes name ns h (h'.create n child returns)
  | define {k' : Nat} {h' : History k'} (n : Fin k') (d : Definition) : Passes name ns h h' →
      n.val ∉ ns ∨ d.name ≠ name → Passes name ns h (h'.define n d)

namespace Passes

variable {k' : Nat} {h : History k} {h' : History k'} {name : String} {ns : List Nat}

theorem le (hp : Passes name ns h h') : k ≤ k' := by
  induction hp with
  | here => exact Nat.le_refl _
  | create _ _ _ _ ih => exact Nat.le_succ_of_le ih
  | define _ _ _ _ ih => exact ih

theorem chain (hp : Passes name ns h h') {n : Nat} (hn : n < k) : h'.chain n = h.chain n := by
  induction hp with
  | here => rfl
  | create m child returns hp ih =>
    have := hp.le
    rw [History.chain, if_neg (by omega), ih]
  | define m d _ _ ih => exact ih

theorem latestOf (hp : Passes name ns h h') {m : Nat} (hm : m ∈ ns) :
    Definition.latestOf name (h'.definitionsIn m) = Definition.latestOf name (h.definitionsIn m) := by
  induction hp with
  | here => rfl
  | create _ _ _ _ ih => exact ih
  | define n d _ hd ih =>
    rw [definitionsIn]
    split
    · rename_i hn
      rw [Definition.latestOf, if_neg (hd.resolve_left fun h => h (hn ▸ hm)), ih]
    · exact ih

theorem meaning {n : Nat} (hp : Passes name (h.chain n) h h') (hn : n < k) : h'.meaning n name = h.meaning n name := by
  rw [History.meaning, hp.chain hn, History.meaning, ← List.head?_filterMap, ← List.head?_filterMap,
    List.filterMap_congr fun m hm => hp.latestOf hm]

end Passes

/-- A name stands for the symbol made by its latest definition in the nearest scope, of those from the scope itself outwards,
in which it was ever defined; it stands for nothing exactly if it was never defined in any of them. However the history goes
on, this does not change by making scopes, by definitions in scopes that are not among these, or by definitions of other
names. -/
theorem resolve_nearest_latest (h : History k) (n : Fin k) (name : String) :
    h.scopes.resolve n name = (h.chain n).findSome? (fun m => Definition.latestOf name (h.definitionsIn m)) ∧
    (h.scopes.resolve n name = none ↔ ∀ m ∈ h.chain n, ∀ d ∈ h.definitionsIn m, d.name ≠ name) ∧
    ∀ {k' : Nat} (h' : History k'), Passes name (h.chain n) h h' → h'.scopes.resolve n name = h.scopes.resolve n name := by
  refine ⟨h.resolve_eq_meaning n.isLt name, ?_, fun h' hp => ?_⟩
  · rw [h.resolve_eq_meaning n.isLt, meaning, List.findSome?_eq_none_iff]
    exact forall₂_congr fun m _ => Definition.latestOf_eq_none
  · rw [h.resolve_eq_meaning n.isLt, h'.resolve_eq_meaning (Nat.lt_of_lt_of_le n.isLt hp.le), hp.meaning n.isLt]

/-- Two scopes of one name inside the first scope, the second of which takes the place of the other one. -/
def twoOfAName : History 3 :=
  let outer := (start "$global" none).define 0 ⟨"x", some (.value .int), false⟩
  let first := ((outer.create 0 "f" none).define 1 ⟨"n", some (.value .int), true⟩).define 1 ⟨"x", some (.value .int), true⟩
  (first.create 0 "f" none).define 1 ⟨"x", some (.value .bool), false⟩

/-- The scope that has lost its place still has its own definitions, and those of the other one do not matter to it. -/
theorem twoOfAName_resolves :
    twoOfAName.scopes.resolve 1 "x" = some ⟨"x", some (.value .bool), false, 0⟩ ∧
      twoOfAName.scopes.resolve 2 "x" = some ⟨"x", some (.value .int), false, 0⟩ ∧
      (twoOfAName.define 2 ⟨"x", some (.value .string), true⟩).scopes.resolve 1 "x" =
        some ⟨"x", some (.value .bool), false, 0⟩ := by
  obtain ⟨hfirst, -, hlater⟩ := twoOfAName.resolve_nearest_latest 1 "x"
  obtain ⟨hsecond, -⟩ := twoOfAName.resolve_nearest_latest 2 "x"
  have hpasses : Passes "x" (twoOfAName.chain 1) twoOfAName (twoOfAName.define 2 ⟨"x", some (.value .string), true⟩) :=
    .define 2 _ .here (.inl (by decide))
  exact ⟨hfirst, hsecond, (hlater _ hpasses).trans hfirst⟩

end History

end NimbleLang
