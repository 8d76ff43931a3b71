import Mathlib.Data.Set.Basic
import NimbleLang.Proofs.Merging

/-!
What a merge comes to. A context stands for a set of stacks (`stackSet`): the return states along its ways down to the
bottom. In local mode a way down stands for every stack that begins with it. Merging two contexts gives the context that
stands for the stacks of both (`stackSet_join`).

Contexts are made from the bottom of the stack by putting return states on top and by merging (`Formed`). They are the ones
that look like this (`formed_iff_tidy`): a fork has two branches or more, in strictly increasing order of their return
states, and the bottom is a branch of a fork in full mode only, where it comes last (`Tidy`). A tidy context is known by its
stacks (`eq_of_stackSet`). So all that holds of the union of sets holds of merging, and a memory of merges of the same mode
makes no difference (`merge_unites`).
-/

namespace NimbleLang.Context

variable {wildcard : Bool}

/-! ## Stacks -/

/-- The return states on a way down to the bottom. -/
inductive Path : Context Unit → List Int → Prop
  | bottom {c : Context Unit} : (.unknown, bottomReturn) ∈ c.ways → Path c []
  | down {c below : Context Unit} {ret : Int} {s : List Int} : (below, ret) ∈ c.ways → Path below s → Path c (ret :: s)

/-- The stacks a context stands for. In local mode nothing is known of what lies below the bottom. -/
def stackSet (wildcard : Bool) (c : Context Unit) : Set (List Int) :=
  {s | ∃ p, Path c p ∧ if wildcard then p <+: s else p = s}

/-- The stacks along one branch. -/
def stacksAlong (wildcard : Bool) (below : Context Unit) (ret : Int) : Set (List Int) :=
  {s | below = .unknown ∧ ret = bottomReturn ∧ (wildcard = false → s = []) ∨ ∃ t ∈ below.stackSet wildcard, s = ret :: t}

/-- The stacks along some branches. -/
def stacksOf (wildcard : Bool) : Branches Unit → Set (List Int)
  | .nil => ∅
  | .cons below ret rest => stacksAlong wildcard below ret ∪ stacksOf wildcard rest

theorem mem_stacksOf {s : List Int} : {bs : Branches Unit} →
    (s ∈ stacksOf wildcard bs ↔ ∃ way ∈ bs.toList, s ∈ stacksAlong wildcard way.1 way.2)
  | .nil => by simp [stacksOf, Branches.toList]
  | .cons below ret rest => by
    rw [stacksOf, Set.mem_union, mem_stacksOf, Branches.toList, List.exists_mem_cons_iff]

/-- The stacks of a context are those along its branches. -/
theorem stackSet_eq (c : Context Unit) : c.stackSet wildcard = stacksOf wildcard c.branches := by
  ext s
  rw [mem_stacksOf, toList_branches]
  constructor
  · rintro ⟨p, hp, hps⟩
    cases hp with
    | bottom hway =>
      refine ⟨_, hway, .inl ⟨rfl, rfl, ?_⟩⟩
      rintro rfl
      exact hps.symm
    | down hway hp =>
      refine ⟨_, hway, .inr ?_⟩
      cases wildcard with
      | false => exact ⟨_, ⟨_, hp, rfl⟩, hps.symm⟩
      | true =>
        obtain ⟨rest, rfl⟩ := hps
        exact ⟨_, ⟨_, hp, rest, rfl⟩, rfl⟩
  · rintro ⟨⟨below, ret⟩, hway, ⟨rfl, rfl, hs⟩ | ⟨t, ⟨p, hp, hpt⟩, rfl⟩⟩
    · refine ⟨[], .bottom hway, ?_⟩
      cases wildcard with
      | false => exact (hs rfl).symm
      | true => exact List.nil_prefix
    · refine ⟨ret :: p, .down hway hp, ?_⟩
      cases wildcard with
      | false => exact congrArg (ret :: ·) hpt
      | true => exact (List.prefix_cons_inj ret).mpr hpt

/-- In local mode the bottom stands for all stacks. -/
theorem stackSet_root_wildcard : root.stackSet true = Set.univ := by
  rw [stackSet_eq, Set.eq_univ_iff_forall]
  intro s
  exact .inl (.inl ⟨rfl, rfl, nofun⟩)

theorem branches_ofBranches (bs : Branches Unit) : (ofBranches bs).branches = bs := by
  unfold ofBranches
  split
  · rename_i below ret
    cases below with
    | unknown =>
      rw [atop]
      split
      · rename_i h
        rw [branches, h]
      · rfl
    | root | call | fork => rfl
  · rfl

theorem stackSet_ofBranches (bs : Branches Unit) : (ofBranches bs).stackSet wildcard = stacksOf wildcard bs := by
  rw [stackSet_eq, branches_ofBranches]

/-! ## The stacks of a join -/

/-- Where two branches have the same return state, their stacks come together. -/
theorem stacksAlong_join {below below' : Context Unit} {ret : Int} (hb : Based below ret) (hb' : Based below' ret)
    (hjoin : below.Grounded → below'.Grounded →
      (join wildcard below below').stackSet wildcard = below.stackSet wildcard ∪ below'.stackSet wildcard) :
    stacksAlong wildcard (join wildcard below below') ret =
      stacksAlong wildcard below ret ∪ stacksAlong wildcard below' ret := by
  rcases hb.together hb' with ⟨rfl, rfl, -⟩ | ⟨hb, hb', hret⟩
  · rw [join_self, Set.union_self]
  · ext s
    simp only [stacksAlong, Set.mem_union, Set.mem_ofPred_eq, hret.ne, false_and, and_false, false_or, hjoin hb hb']
    exact ⟨fun ⟨t, ht, hs⟩ => ht.imp (fun ht => ⟨t, ht, hs⟩) fun ht => ⟨t, ht, hs⟩,
      fun h => h.elim (fun ⟨t, ht, hs⟩ => ⟨t, .inl ht, hs⟩) fun ⟨t, ht, hs⟩ => ⟨t, .inr ht, hs⟩⟩

mutual
theorem stackSet_join (wildcard : Bool) (a b : Context Unit) (ha : a.Grounded) (hb : b.Grounded) :
    (join wildcard a b).stackSet wildcard = a.stackSet wildcard ∪ b.stackSet wildcard := by
  by_cases hne : a = b
  · rw [hne, join_self, Set.union_self]
  · by_cases hw : wildcard = true ∧ (a = .root ∨ b = .root)
    · obtain ⟨rfl, hroot⟩ := hw
      rw [join_wildcard hroot, stackSet_root_wildcard]
      rcases hroot with rfl | rfl
      · rw [stackSet_root_wildcard, Set.univ_union]
      · rw [stackSet_root_wildcard, Set.union_univ]
    · rw [join_of_ne hne hw, stackSet_ofBranches, stacksOf_weave wildcard a.branches b.branches ha.branches hb.branches,
        ← stackSet_eq, ← stackSet_eq]
termination_by a.bulk + b.bulk
decreasing_by
  have := bulk_branches a
  have := bulk_branches b
  omega

theorem stacksOf_weave (wildcard : Bool) : (bs bs' : Branches Unit) → GroundedBranches bs → GroundedBranches bs' →
    stacksOf wildcard (weave wildcard bs bs') = stacksOf wildcard bs ∪ stacksOf wildcard bs'
  | .nil, bs', _, _ => by rw [weave, stacksOf, Set.empty_union]
  | .cons below ret rest, .nil, _, _ => by rw [weave_nil, stacksOf, stacksOf, Set.union_empty]
  | .cons below ret rest, .cons below' ret' rest', h, h' => by
    rw [weave]
    split
    · rw [stacksOf, stacksOf_weave wildcard rest (.cons below' ret' rest') h.2 h', ← Set.union_assoc, ← stacksOf]
    · split
      · rw [stacksOf, stacksOf_weave wildcard (.cons below ret rest) rest' h h'.2, Set.union_left_comm, ← stacksOf]
      · have hret : ret' = ret := by omega
        subst hret
        rw [stacksOf, stacksOf_weave wildcard rest rest' h.2 h'.2,
          stacksAlong_join h.1 h'.1 (stackSet_join wildcard below below'), Set.union_union_union_comm, ← stacksOf, ← stacksOf]
termination_by bs bs' => bulkBranches bs + bulkBranches bs'
decreasing_by all_goals (simp only [bulkBranches]; omega)
end

/-! ## Tidy contexts -/

/-- The return states of branches are in strictly increasing order. -/
def Ascending (bs : Branches Unit) : Prop := (bs.toList.map Prod.snd).Pairwise (· < ·)

mutual
/-- A fork has at least two branches, in increasing order of their return states. Only in full mode can the bottom be a
branch of a fork, and then it is the last one. -/
def Tidy (wildcard : Bool) : Context Unit → Prop
  | .unknown => False
  | .root => True
  | .call _ below ret => below.Tidy wildcard ∧ ret < bottomReturn
  | .fork _ bs => 2 ≤ bs.length ∧ Ascending bs ∧ TidyBranches wildcard bs

def TidyBranches (wildcard : Bool) : Branches Unit → Prop
  | .nil => True
  | .cons below ret rest =>
    (below.Tidy wildcard ∧ ret < bottomReturn ∨ below = .unknown ∧ ret = bottomReturn ∧ rest = .nil ∧ wildcard = false) ∧
      TidyBranches wildcard rest
end

mutual
theorem Tidy.grounded : {c : Context Unit} → c.Tidy wildcard → c.Grounded
  | .root, _ => trivial
  | .call .., h => ⟨h.1.grounded, h.2⟩
  | .fork .., h => ⟨h.1, TidyBranches.grounded h.2.2⟩

theorem TidyBranches.grounded : {bs : Branches Unit} → TidyBranches wildcard bs → GroundedBranches bs
  | .nil, _ => trivial
  | .cons .., h => ⟨h.1.elim (fun h => .inr ⟨h.1.grounded, h.2⟩) fun h => .inl ⟨h.1, h.2.1⟩, TidyBranches.grounded h.2⟩
end

theorem ascending_cons {below : Context Unit} {ret : Int} {rest : Branches Unit} :
    Ascending (.cons below ret rest) ↔ (∀ r ∈ rest.toList.map Prod.snd, ret < r) ∧ Ascending rest :=
  List.pairwise_cons

/-- Unless it is the bottom in local mode, a tidy context has tidy branches. -/
theorem Tidy.branches {c : Context Unit} (h : c.Tidy wildcard) (hroot : ¬ (wildcard = true ∧ c = .root)) :
    TidyBranches wildcard c.branches ∧ Ascending c.branches := by
  cases c with
  | unknown => cases h
  | root =>
    have hfull : wildcard = false := by simpa using hroot
    exact ⟨⟨.inr ⟨rfl, rfl, rfl, hfull⟩, trivial⟩, List.pairwise_singleton _ _⟩
  | call m below ret => exact ⟨⟨.inl h, trivial⟩, List.pairwise_singleton _ _⟩
  | fork m bs => exact ⟨h.2.2, h.2.1⟩

theorem Tidy.ofBranches : {bs : Branches Unit} → TidyBranches wildcard bs → Ascending bs → bs ≠ .nil →
    (ofBranches bs).Tidy wildcard
  | .nil, _, _, hne => absurd rfl hne
  | .cons below ret .nil, h, _, _ => by
    rcases h.1 with hb | ⟨rfl, rfl, -, -⟩
    · rw [Context.ofBranches, atop_of_ne_unknown hb.1.grounded.ne_unknown]
      exact hb
    · exact trivial
  | .cons below ret (.cons below' ret' rest), h, hasc, _ => ⟨by simp [Branches.length], hasc, h⟩

/-! ## Joins are tidy -/

/-- The return states of woven branches are those of both. -/
theorem mem_returns_weave {r : Int} (bs bs' : Branches Unit) :
    r ∈ (weave wildcard bs bs').toList.map Prod.snd ↔ r ∈ bs.toList.map Prod.snd ∨ r ∈ bs'.toList.map Prod.snd := by
  cases bs with
  | nil => simp [weave, Branches.toList]
  | cons below ret rest =>
    cases bs' with
    | nil => simp [weave, Branches.toList]
    | cons below' ret' rest' =>
      rw [weave]
      split
      · simp only [Branches.toList, List.map_cons, List.mem_cons, mem_returns_weave rest (.cons below' ret' rest'), or_assoc]
      · split
        · simp only [Branches.toList, List.map_cons, List.mem_cons, mem_returns_weave (.cons below ret rest) rest']
          rw [or_left_comm]
        · have hret : ret' = ret := by omega
          subst hret
          simp only [Branches.toList, List.map_cons, List.mem_cons, mem_returns_weave rest rest']
          rw [or_or_or_comm, or_self]
termination_by bulkBranches bs + bulkBranches bs'
decreasing_by all_goals (simp only [bulkBranches]; omega)

theorem weave_ascending : (bs bs' : Branches Unit) → Ascending bs → Ascending bs' → Ascending (weave wildcard bs bs')
  | .nil, bs', _, h' => by rwa [weave]
  | .cons below ret rest, .nil, h, _ => by rwa [weave]
  | .cons below ret rest, .cons below' ret' rest', h, h' => by
    obtain ⟨hlow, hrest⟩ := ascending_cons.1 h
    obtain ⟨hlow', hrest'⟩ := ascending_cons.1 h'
    rw [weave]
    split
    · rename_i hlt
      refine ascending_cons.2 ⟨fun r hr => ?_, weave_ascending rest _ hrest h'⟩
      rcases (mem_returns_weave _ _).mp hr with hr | hr
      · exact hlow r hr
      · rcases List.mem_cons.mp hr with rfl | hr
        · exact hlt
        · exact hlt.trans (hlow' r hr)
    · split
      · rename_i hlt
        refine ascending_cons.2 ⟨fun r hr => ?_, weave_ascending _ rest' h hrest'⟩
        rcases (mem_returns_weave _ _).mp hr with hr | hr
        · rcases List.mem_cons.mp hr with rfl | hr
          · exact hlt
          · exact hlt.trans (hlow r hr)
        · exact hlow' r hr
      · have hret : ret' = ret := by omega
        subst hret
        refine ascending_cons.2 ⟨fun r hr => ?_, weave_ascending rest rest' hrest hrest'⟩
        exact ((mem_returns_weave _ _).mp hr).elim (hlow r) (hlow' r)
termination_by bs bs' => bulkBranches bs + bulkBranches bs'
decreasing_by all_goals (simp only [bulkBranches]; omega)

theorem TidyBranches.le_bottom {below : Context Unit} {ret : Int} {rest : Branches Unit}
    (h : TidyBranches wildcard (.cons below ret rest)) : ret ≤ bottomReturn :=
  h.1.elim (fun h => h.2.le) fun h => h.2.1.le

mutual
theorem join_tidy (wildcard : Bool) (a b : Context Unit) (ha : a.Tidy wildcard) (hb : b.Tidy wildcard) :
    (join wildcard a b).Tidy wildcard := by
  by_cases hne : a = b
  · rwa [hne, join_self]
  · by_cases hw : wildcard = true ∧ (a = .root ∨ b = .root)
    · obtain ⟨rfl, hroot⟩ := hw
      rw [join_wildcard hroot]
      exact trivial
    · obtain ⟨hta, hasca⟩ := ha.branches fun h => hw ⟨h.1, .inl h.2⟩
      obtain ⟨htb, hascb⟩ := hb.branches fun h => hw ⟨h.1, .inr h.2⟩
      rw [join_of_ne hne hw]
      exact .ofBranches (weave_tidy wildcard a.branches b.branches hta htb) (weave_ascending _ _ hasca hascb)
        (weave_branches_ne_nil ha.grounded _)
termination_by a.bulk + b.bulk
decreasing_by
  have := bulk_branches a
  have := bulk_branches b
  omega

theorem weave_tidy (wildcard : Bool) : (bs bs' : Branches Unit) → TidyBranches wildcard bs → TidyBranches wildcard bs' →
    TidyBranches wildcard (weave wildcard bs bs')
  | .nil, bs', _, h' => by rwa [weave]
  | .cons below ret rest, .nil, h, _ => by rwa [weave]
  | .cons below ret rest, .cons below' ret' rest', h, h' => by
    have hle := h.le_bottom
    have hle' := h'.le_bottom
    rw [weave]
    split
    · rename_i hlt
      -- a branch with another one after it is not the bottom
      refine ⟨.inl (h.1.resolve_right fun hbottom => ?_), weave_tidy wildcard rest _ h.2 h'⟩
      have := hbottom.2.1
      omega
    · split
      · rename_i hlt
        refine ⟨.inl (h'.1.resolve_right fun hbottom => ?_), weave_tidy wildcard _ rest' h h'.2⟩
        have := hbottom.2.1
        omega
      · have hret : ret' = ret := by omega
        subst hret
        refine ⟨?_, weave_tidy wildcard rest rest' h.2 h'.2⟩
        rcases h.1 with ⟨hb, hlt⟩ | ⟨rfl, hret, rfl, hfull⟩
        · rcases h'.1 with ⟨hb', -⟩ | ⟨-, hret', -, -⟩
          · exact .inl ⟨join_tidy wildcard below below' hb hb', hlt⟩
          · omega
        · rcases h'.1 with ⟨-, hlt'⟩ | ⟨rfl, -, rfl, -⟩
          · omega
          · exact .inr ⟨join_self _ _, hret, by rw [weave], hfull⟩
termination_by bs bs' => bulkBranches bs + bulkBranches bs'
decreasing_by all_goals (simp only [bulkBranches]; omega)
end

/-! ## A tidy context is known by its stacks -/

/-- The return state on top of a stack; under all others is the bottom. -/
def topOf (s : List Int) : Int := s.headD bottomReturn

theorem stackSet_nonempty : (c : Context Unit) → c.Grounded → (c.stackSet wildcard).Nonempty
  | .root, _ => by
    rw [stackSet_eq]
    exact ⟨[], .inl (.inl ⟨rfl, rfl, fun _ => rfl⟩)⟩
  | .call _ below ret, h => by
    obtain ⟨s, hs⟩ := stackSet_nonempty below h.1
    rw [stackSet_eq]
    exact ⟨ret :: s, .inl (.inr ⟨s, hs, rfl⟩)⟩
  | .fork _ (.cons below ret rest), h => by
    rw [stackSet_eq]
    rcases h.2.1 with ⟨hunknown, hret⟩ | ⟨hb, -⟩
    · exact ⟨[], .inl (.inl ⟨hunknown, hret, fun _ => rfl⟩)⟩
    · obtain ⟨s, hs⟩ := stackSet_nonempty below hb
      exact ⟨ret :: s, .inl (.inr ⟨s, hs, rfl⟩)⟩

section Branch

variable {below below' : Context Unit} {ret ret' : Int} {rest rest' : Branches Unit} {s : List Int}

theorem stacksAlong_nonempty (h : TidyBranches wildcard (.cons below ret rest)) :
    (stacksAlong wildcard below ret).Nonempty := by
  rcases h.1 with ⟨hb, -⟩ | ⟨hunknown, hret, -, -⟩
  · obtain ⟨s, hs⟩ := stackSet_nonempty below hb.grounded
    exact ⟨ret :: s, .inr ⟨s, hs, rfl⟩⟩
  · exact ⟨[], .inl ⟨hunknown, hret, fun _ => rfl⟩⟩

theorem topOf_along (h : TidyBranches wildcard (.cons below ret rest)) (hs : s ∈ stacksAlong wildcard below ret) :
    topOf s = ret := by
  rcases hs with ⟨rfl, hret, hs⟩ | ⟨t, -, rfl⟩
  · rcases h.1 with ⟨hb, -⟩ | ⟨-, -, -, hfull⟩
    · exact absurd hb id
    · rw [hs hfull, hret]
      rfl
  · rfl

theorem topOf_mem {s : List Int} : {bs : Branches Unit} → TidyBranches wildcard bs → s ∈ stacksOf wildcard bs →
    topOf s ∈ bs.toList.map Prod.snd
  | .cons .., h, .inl hs => topOf_along h hs ▸ List.mem_cons_self
  | .cons .., h, .inr hs => List.mem_cons_of_mem _ (topOf_mem h.2 hs)

section

variable (h : TidyBranches wildcard (.cons below ret rest))
include h

/-- Of the stacks along branches in increasing order, those of the first branch have its return state on top. -/
theorem mem_along_iff (hasc : Ascending (.cons below ret rest)) :
    s ∈ stacksAlong wildcard below ret ↔ s ∈ stacksOf wildcard (.cons below ret rest) ∧ topOf s = ret := by
  constructor
  · intro hs
    exact ⟨.inl hs, topOf_along h hs⟩
  · rintro ⟨hs | hs, htop⟩
    · exact hs
    · have := (ascending_cons.1 hasc).1 _ (topOf_mem h.2 hs)
      omega

theorem mem_rest_iff (hasc : Ascending (.cons below ret rest)) :
    s ∈ stacksOf wildcard rest ↔ s ∈ stacksOf wildcard (.cons below ret rest) ∧ topOf s ≠ ret := by
  constructor
  · intro hs
    have := (ascending_cons.1 hasc).1 _ (topOf_mem h.2 hs)
    exact ⟨.inr hs, by omega⟩
  · rintro ⟨hs | hs, htop⟩
    · exact absurd (topOf_along h hs) htop
    · exact hs

/-- The return state of the first branch is the least one on top of a stack. -/
theorem first_le (h' : TidyBranches wildcard (.cons below' ret' rest')) (hasc : Ascending (.cons below ret rest))
    (heq : stacksOf wildcard (.cons below ret rest) = stacksOf wildcard (.cons below' ret' rest')) : ret ≤ ret' := by
  obtain ⟨s, hs⟩ := stacksAlong_nonempty h'
  have hmem : s ∈ stacksOf wildcard (.cons below ret rest) := by
    rw [heq]
    exact .inl hs
  have htop := topOf_mem h hmem
  rw [topOf_along h' hs] at htop
  rcases List.mem_cons.mp htop with heq | hlater
  · exact heq.ge
  · exact ((ascending_cons.1 hasc).1 _ hlater).le

/-- Two branches that have the same stacks lead to contexts that have the same stacks. -/
theorem below_of_along (h' : TidyBranches wildcard (.cons below' ret rest'))
    (heq : stacksAlong wildcard below ret = stacksAlong wildcard below' ret) :
    below = below' ∨ below.Tidy wildcard ∧ below'.Tidy wildcard ∧ below.stackSet wildcard = below'.stackSet wildcard := by
  rcases h.1 with ⟨hb, hlt⟩ | ⟨rfl, hret, -, -⟩
  · rcases h'.1 with ⟨hb', -⟩ | ⟨-, hret', -, -⟩
    · refine .inr ⟨hb, hb', Set.ext fun t => ?_⟩
      have halong : ∀ c : Context Unit, ret :: t ∈ stacksAlong wildcard c ret ↔ t ∈ c.stackSet wildcard := by
        simp [stacksAlong, hlt.ne]
      rw [← halong, heq, halong]
    · omega
  · rcases h'.1 with ⟨-, hlt'⟩ | ⟨rfl, -, -, -⟩
    · omega
    · exact .inl rfl

end

end Branch

theorem lt_bottom_of_local {r : Int} : {bs : Branches Unit} → TidyBranches true bs → r ∈ bs.toList.map Prod.snd →
    r < bottomReturn
  | .cons .., h, hr => by
    rcases List.mem_cons.mp hr with rfl | hr
    · exact h.1.elim And.right fun hbottom => nomatch hbottom.2.2.2
    · exact lt_bottom_of_local h.2 hr

/-- In local mode only the bottom stands for the empty stack. -/
theorem root_of_nil_mem {c : Context Unit} (h : c.Tidy true) (hnil : [] ∈ c.stackSet true) : c = .root := by
  by_contra hne
  have hbranches := (h.branches fun hroot => hne hroot.2).1
  rw [stackSet_eq] at hnil
  exact absurd (lt_bottom_of_local hbranches (topOf_mem hbranches hnil)) (Int.lt_irrefl _)

mutual
/-- Two tidy contexts that stand for the same stacks are equal. -/
theorem eq_of_stackSet (a b : Context Unit) (ha : a.Tidy wildcard) (hb : b.Tidy wildcard)
    (heq : a.stackSet wildcard = b.stackSet wildcard) : a = b := by
  by_cases hw : wildcard = true ∧ (a = .root ∨ b = .root)
  · obtain ⟨rfl, hroot⟩ := hw
    have hnil : [] ∈ root.stackSet true := stackSet_root_wildcard ▸ Set.mem_univ _
    rcases hroot with rfl | rfl
    · exact (root_of_nil_mem hb (heq ▸ hnil)).symm
    · exact root_of_nil_mem ha (heq ▸ hnil)
  · obtain ⟨hta, hasca⟩ := ha.branches fun h => hw ⟨h.1, .inl h.2⟩
    obtain ⟨htb, hascb⟩ := hb.branches fun h => hw ⟨h.1, .inr h.2⟩
    rw [stackSet_eq, stackSet_eq] at heq
    exact ha.grounded.eq_of_branches hb.grounded (eq_of_stacksOf a.branches b.branches hta htb hasca hascb heq)
termination_by a.bulk
decreasing_by exact bulk_branches a

theorem eq_of_stacksOf : (bs bs' : Branches Unit) → TidyBranches wildcard bs → TidyBranches wildcard bs' → Ascending bs →
    Ascending bs' → stacksOf wildcard bs = stacksOf wildcard bs' → bs = bs'
  | .nil, .nil, _, _, _, _, _ => rfl
  | .nil, .cons below' ret' rest', _, h', _, _, heq => by
    obtain ⟨s, hs⟩ := stacksAlong_nonempty h'
    have hmem : s ∈ stacksOf wildcard .nil := heq ▸ .inl hs
    cases hmem
  | .cons below ret rest, .nil, h, _, _, _, heq => by
    obtain ⟨s, hs⟩ := stacksAlong_nonempty h
    have hmem : s ∈ stacksOf wildcard .nil := heq ▸ .inl hs
    cases hmem
  | .cons below ret rest, .cons below' ret' rest', h, h', hasc, hasc', heq => by
    have hret : ret' = ret := Int.le_antisymm (first_le h' h hasc' heq.symm) (first_le h h' hasc heq)
    subst hret
    have halong : stacksAlong wildcard below ret' = stacksAlong wildcard below' ret' := by
      ext s
      rw [mem_along_iff h hasc, mem_along_iff h' hasc', heq]
    have hrest : stacksOf wildcard rest = stacksOf wildcard rest' := by
      ext s
      rw [mem_rest_iff h hasc, mem_rest_iff h' hasc', heq]
    have hbelow : below = below' := by
      rcases below_of_along h h' halong with hbelow | ⟨hb, hb', hstacks⟩
      · exact hbelow
      · exact eq_of_stackSet below below' hb hb' hstacks
    rw [hbelow, eq_of_stacksOf rest rest' h.2 h'.2 (ascending_cons.1 hasc).2 (ascending_cons.1 hasc').2 hrest]
termination_by bs => bulkBranches bs
decreasing_by all_goals (simp only [bulkBranches]; omega)
end

/-! ## Contexts that can be made -/

/-- The contexts that come from the bottom of the stack by putting return states on top and by merging. -/
inductive Formed (wildcard : Bool) : Context Unit → Prop
  | root : Formed wildcard .root
  | atop {c : Context Unit} {ret : Int} : Formed wildcard c → ret < bottomReturn → Formed wildcard (.atop () c ret)
  | merge {a b c : Context Unit} : Formed wildcard a → Formed wildcard b → Alone wildcard (a, b) c → Formed wildcard c

theorem Alone.eq_join {a b c : Context Unit} (h : Alone wildcard (a, b) c) (ha : a.Grounded) (hb : b.Grounded) :
    c = join wildcard a b :=
  Except.ok.inj (h.symm.trans (alone_join ⟨ha, hb⟩))

theorem Formed.tidy {c : Context Unit} (h : Formed wildcard c) : c.Tidy wildcard := by
  induction h with
  | root => exact trivial
  | atop _ hret ih =>
    rw [atop_of_ne_unknown ih.grounded.ne_unknown]
    exact ⟨ih, hret⟩
  | merge _ _ hmerge iha ihb =>
    rw [hmerge.eq_join iha.grounded ihb.grounded]
    exact join_tidy wildcard _ _ iha ihb

theorem ofBranches_inj {bs bs' : Branches Unit} (h : ofBranches bs = ofBranches bs') : bs = bs' := by
  rw [← branches_ofBranches bs, h, branches_ofBranches]

theorem ofBranches_ne_root {bs : Branches Unit} (h : TidyBranches true bs) : ofBranches bs ≠ .root := by
  intro hroot
  have hbs : bs = .cons .unknown bottomReturn .nil := ofBranches_inj hroot
  subst hbs
  exact absurd (lt_bottom_of_local h List.mem_cons_self) (Int.lt_irrefl _)

/-- A first branch is merged to the branches after it. -/
theorem join_first {below : Context Unit} {ret : Int} {rest : Branches Unit}
    (h : TidyBranches wildcard (.cons below ret rest)) (hasc : Ascending (.cons below ret rest)) (hrest : rest ≠ .nil) :
    join wildcard (ofBranches (.cons below ret .nil)) (ofBranches rest) = ofBranches (.cons below ret rest) := by
  have hlow := (ascending_cons.1 hasc).1
  have hfirst : TidyBranches wildcard (.cons below ret .nil) :=
    ⟨h.1.imp_right fun hbottom => ⟨hbottom.1, hbottom.2.1, rfl, hbottom.2.2.2⟩, trivial⟩
  have hne : ofBranches (.cons below ret .nil) ≠ ofBranches rest := by
    intro heq
    rw [← ofBranches_inj heq] at hlow
    exact absurd (hlow ret List.mem_cons_self) (Int.lt_irrefl _)
  have hw : ¬ (wildcard = true ∧ (ofBranches (.cons below ret .nil) = .root ∨ ofBranches rest = .root)) := by
    rintro ⟨rfl, hroot | hroot⟩
    · exact ofBranches_ne_root hfirst hroot
    · exact ofBranches_ne_root h.2 hroot
  rw [join_of_ne hne hw, branches_ofBranches, branches_ofBranches]
  cases rest with
  | nil => exact absurd rfl hrest
  | cons below' ret' rest' => rw [weave, if_pos (hlow ret' List.mem_cons_self), weave]

mutual
theorem Tidy.formed : {c : Context Unit} → c.Tidy wildcard → Formed wildcard c
  | .root, _ => .root
  | .call _ below ret, h => by
    rw [← atop_of_ne_unknown h.1.grounded.ne_unknown]
    exact .atop h.1.formed h.2
  | .fork m bs, h => by
    rw [← ofBranches_branches h.grounded]
    refine TidyBranches.formed h.2.2 h.2.1 ?_
    rintro hnil
    rw [branches] at hnil
    subst hnil
    exact absurd h.1 (by simp [Branches.length])

theorem TidyBranches.formed : {bs : Branches Unit} → TidyBranches wildcard bs → Ascending bs → bs ≠ .nil →
    Formed wildcard (ofBranches bs)
  | .nil, _, _, hne => absurd rfl hne
  | .cons below ret rest, h, hasc, _ => by
    have hfirst : Formed wildcard (ofBranches (.cons below ret .nil)) := by
      rcases h.1 with ⟨hb, hret⟩ | ⟨rfl, rfl, -, -⟩
      · exact .atop hb.formed hret
      · exact .root
    by_cases hrest : rest = .nil
    · rw [hrest]
      exact hfirst
    · have hlater : Formed wildcard (ofBranches rest) := TidyBranches.formed h.2 (ascending_cons.1 hasc).2 hrest
      refine .merge hfirst hlater ?_
      rw [← join_first h hasc hrest]
      exact alone_join ⟨hfirst.tidy.grounded, hlater.tidy.grounded⟩
end

/-- The contexts that can be made are the tidy ones. -/
theorem formed_iff_tidy {c : Context Unit} : Formed wildcard c ↔ c.Tidy wildcard := ⟨Formed.tidy, Tidy.formed⟩

theorem join_assoc {a b c : Context Unit} (ha : a.Tidy wildcard) (hb : b.Tidy wildcard) (hc : c.Tidy wildcard) :
    join wildcard (join wildcard a b) c = join wildcard a (join wildcard b c) := by
  have hab := join_tidy wildcard a b ha hb
  have hbc := join_tidy wildcard b c hb hc
  refine eq_of_stackSet _ _ (join_tidy wildcard _ _ hab hc) (join_tidy wildcard _ _ ha hbc) ?_
  rw [stackSet_join _ _ _ hab.grounded hc.grounded, stackSet_join _ _ _ ha.grounded hb.grounded,
    stackSet_join _ _ _ ha.grounded hbc.grounded, stackSet_join _ _ _ hb.grounded hc.grounded, Set.union_assoc]

/-! ## Merging -/

/-- A merger whose memory was filled by merges of one mode only. -/
inductive Filled (wildcard : Bool) : Merger Unit → Prop
  | new (serial : Nat) : Filled wildcard { memory := some [], serial }
  | merge {m : Merger Unit} {a b : Context Unit} : Filled wildcard m → Formed wildcard a → Formed wildcard b →
      Filled wildcard ((Context.merge wildcard a b).outcome m).2

theorem Filled.recalls {m : Merger Unit} (h : Filled wildcard m) : Recalls wildcard m := by
  induction h with
  | new serial => exact recalls_empty rfl
  | @merge m a b _ ha hb ih =>
    obtain ⟨m', hrun, hm'⟩ := merge_join wildcard a b ha.tidy.grounded hb.tidy.grounded m ih
    rw [hrun]
    exact hm'

/-- Merging is the union of sets of stacks, in full mode and in local mode. It always succeeds, and its result is again
one of the contexts that can be made, all of which are tidy. Contexts that stand for the same stacks are equal; it does not
matter which of two contexts comes first, nor which of three are merged first, and a context merged with itself stays. With
a memory of merges of the same mode the result is the same. -/
theorem merge_unites {a b : Context Unit} (ha : Formed wildcard a) (hb : Formed wildcard b) :
    ∃ c, Alone wildcard (a, b) c ∧
      c.stackSet wildcard = a.stackSet wildcard ∪ b.stackSet wildcard ∧
      Formed wildcard c ∧ c.Tidy wildcard ∧
      (a.stackSet wildcard = b.stackSet wildcard → a = b) ∧
      Alone wildcard (b, a) c ∧
      (∀ d, Formed wildcard d → ∃ bd e, Alone wildcard (b, d) bd ∧ Alone wildcard (c, d) e ∧ Alone wildcard (a, bd) e) ∧
      Alone wildcard (a, a) a ∧
      ∀ m, Filled wildcard m → ∃ m', (merge wildcard a b).outcome m = (.ok c, m') := by
  have hta := ha.tidy
  have htb := hb.tidy
  have hga := hta.grounded
  have hgb := htb.grounded
  have hab := join_tidy wildcard a b hta htb
  refine ⟨join wildcard a b, alone_join ⟨hga, hgb⟩, stackSet_join wildcard a b hga hgb, hab.formed, hab,
    eq_of_stackSet a b hta htb, ?_, fun d hd => ?_, ?_, fun m hm => ?_⟩
  · rw [join_comm]
    exact alone_join ⟨hgb, hga⟩
  · have htd := hd.tidy
    have hbd := join_tidy wildcard b d htb htd
    refine ⟨join wildcard b d, join wildcard (join wildcard a b) d, alone_join ⟨hgb, htd.grounded⟩,
      alone_join ⟨hab.grounded, htd.grounded⟩, ?_⟩
    rw [join_assoc hta htb htd]
    exact alone_join ⟨hga, hbd.grounded⟩
  · have hself : Alone wildcard (a, a) (join wildcard a a) := alone_join ⟨hga, hga⟩
    rwa [join_self] at hself
  · obtain ⟨m', hrun, -⟩ := merge_join wildcard a b hga hgb m hm.recalls
    exact ⟨m', hrun⟩

/-- Two return states over the bottom of the stack. -/
def twoReturns : Context Unit := .fork () (.cons .root 5 (.cons .root 7 .nil))

theorem merge_unites_bottom :
    Formed false twoReturns ∧ Formed false .root ∧
      stackSet false (.fork () (.cons .root 5 (.cons .root 7 (.cons .unknown bottomReturn .nil)))) =
        twoReturns.stackSet false ∪ stackSet false .root := by
  have htwo : Formed false twoReturns := Tidy.formed (by simp [twoReturns, Tidy, TidyBranches, Ascending, Branches.toList,
    Branches.length, bottomReturn])
  obtain ⟨c, hc, hstacks, -⟩ := merge_unites htwo .root
  cases hc
  exact ⟨htwo, .root, hstacks⟩

end NimbleLang.Context
