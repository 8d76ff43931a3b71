import Mathlib.Data.List.Forall2
import NimbleLang.Context.Merge
import NimbleLang.Proofs.Runs

/-!
Merging with a memory. `Context.join` is the merge of two contexts with no merger at all: the ways down of both side by
side, in the order of their return states, with what lies under a common return state joined in turn. It does not matter
which context comes first (`join_comm`). A merger that remembers only joins of one mode answers every merge of that mode
with the join, whether from memory or not (`merge_join`), and so remembers only joins afterwards; with nothing remembered
it answers the same. So in one mode a memory makes no difference (`shared_memory_transparent`).

A merger does not remember in which mode it has merged. A merge that was done in local mode is answered from memory in full
mode too, where it comes to something else (`full_merge_recalls_local`).
-/

namespace NimbleLang.Context

/-! ## Equality of content -/

mutual
theorem same_iff : (a b : Context Unit) → (a.same b = true ↔ a = b)
  | .unknown, b | .root, b => by cases b <;> simp [same]
  | .call _ below ret, b => by cases b <;> simp [same, same_iff below, and_comm]
  | .fork _ bs, b => by cases b <;> simp [same, sameBranches_iff bs]

theorem sameBranches_iff : (bs bs' : Branches Unit) → (sameBranches bs bs' = true ↔ bs = bs')
  | .nil, bs' => by cases bs' <;> simp [sameBranches]
  | .cons below ret rest, bs' => by cases bs' <;> simp [sameBranches, same_iff below, sameBranches_iff rest, and_assoc, and_left_comm]
end

variable {a b c below' : Context Unit} {ret ret' : Int} {ways : List (Context Unit × Int)}

/-! ## The join of two contexts -/

theorem ofList_toList : (bs : Branches Unit) → Branches.ofList bs.toList = bs
  | .nil => rfl
  | .cons below ret rest => by rw [Branches.toList, Branches.ofList, ofList_toList rest]

mutual
/-- A measure of contexts, in which a context is more than its branches. -/
def bulk : Context Unit → Nat
  | .unknown => 1
  | .root => 3
  | .call _ below _ => bulk below + 2
  | .fork _ bs => bulkBranches bs + 1

def bulkBranches : Branches Unit → Nat
  | .nil => 0
  | .cons below _ rest => bulk below + bulkBranches rest + 1
end

/-- The ways down from a context, as the branches of a fork. -/
def branches : Context Unit → Branches Unit
  | .unknown => .nil
  | .root => .cons .unknown bottomReturn .nil
  | .call _ below ret => .cons below ret .nil
  | .fork _ bs => bs

theorem bulk_branches (c : Context Unit) : bulkBranches c.branches < c.bulk := by
  cases c <;> simp [branches, bulk, bulkBranches]

/-- The context with the given ways down. -/
def ofBranches : Branches Unit → Context Unit
  | .cons below ret .nil => atop () below ret
  | bs => .fork () bs

mutual
/-- The context that has the ways down of both. In local mode the bottom of the stack swallows all else. -/
def join (wildcard : Bool) (a b : Context Unit) : Context Unit :=
  if a = b then a
  else if wildcard ∧ (a = .root ∨ b = .root) then .root
  else ofBranches (weave wildcard a.branches b.branches)
termination_by a.bulk + b.bulk
decreasing_by
  have := bulk_branches a
  have := bulk_branches b
  omega

/-- Branches side by side, in the order of their return states. -/
def weave (wildcard : Bool) : Branches Unit → Branches Unit → Branches Unit
  | .nil, bs => bs
  | .cons below ret rest, .nil => .cons below ret rest
  | .cons below ret rest, .cons below' ret' rest' =>
    if ret < ret' then .cons below ret (weave wildcard rest (.cons below' ret' rest'))
    else if ret' < ret then .cons below' ret' (weave wildcard (.cons below ret rest) rest')
    else .cons (join wildcard below below') ret (weave wildcard rest rest')
termination_by bs bs' => bulkBranches bs + bulkBranches bs'
decreasing_by all_goals (simp only [bulkBranches]; omega)
end

theorem join_self (wildcard : Bool) (a : Context Unit) : join wildcard a a = a := by
  rw [join, if_pos rfl]

theorem weave_nil (wildcard : Bool) (bs : Branches Unit) : weave wildcard bs .nil = bs := by
  cases bs <;> rw [weave]

mutual
theorem join_comm (wildcard : Bool) (a b : Context Unit) : join wildcard a b = join wildcard b a := by
  rw [join, join]
  by_cases h : a = b
  · rw [if_pos h, if_pos h.symm, h]
  · have hor : wildcard = true ∧ (a = .root ∨ b = .root) ↔ wildcard = true ∧ (b = .root ∨ a = .root) := by rw [or_comm]
    simp only [if_neg h, if_neg (Ne.symm h), hor, weave_comm wildcard a.branches b.branches]
termination_by a.bulk + b.bulk
decreasing_by
  have := bulk_branches a
  have := bulk_branches b
  omega

theorem weave_comm (wildcard : Bool) : (bs bs' : Branches Unit) → weave wildcard bs bs' = weave wildcard bs' bs
  | .nil, bs => by rw [weave_nil, weave]
  | .cons below ret rest, .nil => by rw [weave_nil, weave]
  | .cons below ret rest, .cons below' ret' rest' => by
    rw [weave, weave]
    rcases Int.lt_trichotomy ret ret' with h | h | h
    · rw [if_pos h, if_neg (Int.not_lt.mpr (Int.le_of_lt h)), if_pos h, weave_comm wildcard rest]
    · subst h
      rw [if_neg (Int.lt_irrefl _), if_neg (Int.lt_irrefl _), if_neg (Int.lt_irrefl _), if_neg (Int.lt_irrefl _),
        join_comm wildcard below below', weave_comm wildcard rest rest']
    · rw [if_neg (Int.not_lt.mpr (Int.le_of_lt h)), if_pos h, if_pos h, weave_comm wildcard _ rest']
termination_by bs bs' => bulkBranches bs + bulkBranches bs'
decreasing_by all_goals (simp only [bulkBranches]; omega)
end

/-! ## Contexts on firm ground -/

mutual
/-- The bottom of the stack stands only at the end of a way down, and a fork has at least two ways. -/
def Grounded : Context Unit → Prop
  | .unknown => False
  | .root => True
  | .call _ below ret => below.Grounded ∧ ret < bottomReturn
  | .fork _ bs => 2 ≤ bs.length ∧ GroundedBranches bs

def GroundedBranches : Branches Unit → Prop
  | .nil => True
  | .cons below ret rest =>
    (below = .unknown ∧ ret = bottomReturn ∨ below.Grounded ∧ ret < bottomReturn) ∧ GroundedBranches rest
end

/-- What a branch of a grounded fork stands on. -/
abbrev Based (below : Context Unit) (ret : Int) : Prop := below = .unknown ∧ ret = bottomReturn ∨ below.Grounded ∧ ret < bottomReturn

theorem Based.together {below below' : Context Unit} {ret : Int} (hb : Based below ret) (hb' : Based below' ret) :
    below = .unknown ∧ below' = .unknown ∧ ret = bottomReturn ∨ below.Grounded ∧ below'.Grounded ∧ ret < bottomReturn := by
  rcases hb with ⟨rfl, hret⟩ | ⟨hb, hret⟩ <;> rcases hb' with ⟨rfl, hret'⟩ | ⟨hb', hret'⟩
  · exact .inl ⟨rfl, rfl, hret⟩
  · omega
  · omega
  · exact .inr ⟨hb, hb', hret⟩

theorem Grounded.ne_unknown (h : c.Grounded) : c ≠ .unknown := by
  rintro rfl
  exact h

theorem atop_of_ne_unknown (h : c ≠ .unknown) (ret : Int) : atop () c ret = .call () c ret := by
  cases c with
  | unknown => exact absurd rfl h
  | root | call | fork => rfl

theorem ofBranches_branches {c : Context Unit} (h : c.Grounded) : ofBranches c.branches = c := by
  cases c with
  | unknown => cases h
  | root => rfl
  | call m below ret => exact atop_of_ne_unknown h.1.ne_unknown ret
  | fork m bs =>
    cases bs with
    | nil => exact absurd h.1 (by simp [Branches.length])
    | cons below ret rest =>
      cases rest with
      | nil => exact absurd h.1 (by simp [Branches.length])
      | cons below' ret' rest => rfl

/-- A context on firm ground is known by its branches. -/
theorem Grounded.eq_of_branches (ha : a.Grounded) (hb : b.Grounded) (h : a.branches = b.branches) :
    a = b := by
  rw [← ofBranches_branches ha, ← ofBranches_branches hb, h]

theorem Grounded.branches (h : c.Grounded) : GroundedBranches c.branches := by
  cases c with
  | unknown => cases h
  | root => exact ⟨.inl ⟨rfl, rfl⟩, trivial⟩
  | call m below ret => exact ⟨.inr h, trivial⟩
  | fork m bs => exact h.2

/-- Joined as forks, two contexts come to the same. -/
theorem join_forks {wildcard : Bool} (ha : a.Grounded) (hb : b.Grounded) (hne : a ≠ b)
    (hw : ¬ (wildcard = true ∧ (a = .root ∨ b = .root))) :
    join wildcard (.fork () a.branches) (.fork () b.branches) = join wildcard a b := by
  have hfork : Context.fork () a.branches ≠ .fork () b.branches := by
    intro h
    exact hne (ha.eq_of_branches hb (Context.fork.inj h).2)
  rw [join, if_neg hfork, if_neg (by simp), join, if_neg hne, if_neg hw]
  rfl

/-! ## Mergers that remember joins -/

/-- All that a merger remembers are joins of one mode. -/
def Recalls (wildcard : Bool) (m : Merger Unit) : Prop := ∀ e ∈ m.memory.getD [], e.2 = join wildcard e.1.1 e.1.2

/-- A run that has the same result in every merger that remembers joins, and lets it remember no other merges. -/
def Yields {α : Type} (wildcard : Bool) (act : Merging Unit α) (a : α) : Prop :=
  ∀ m, Recalls wildcard m → ∃ m', act.outcome m = (.ok a, m') ∧ Recalls wildcard m'

namespace Yields

variable {wildcard : Bool} {α β : Type}

theorem pure (a : α) : Yields wildcard (pure a) a := fun m h => ⟨m, rfl, h⟩

theorem bind {x : Merging Unit α} {f : α → Merging Unit β} {a : α} {b : β} (hx : Yields wildcard x a)
    (hf : Yields wildcard (f a) b) : Yields wildcard (x >>= f) b := by
  intro m hm
  obtain ⟨m₁, h₁, hm₁⟩ := hx m hm
  obtain ⟨m₂, h₂, hm₂⟩ := hf m₁ hm₁
  exact ⟨m₂, (Run.outcome_bind_ok h₁ f).trans h₂, hm₂⟩

theorem freshMark : Yields wildcard freshMark () := fun m h => ⟨{ m with serial := m.serial + 1 }, rfl, h⟩

/-- Two calls that have been merged are found in memory, whichever came first. -/
theorem recollect {f : Option (Context Unit) → Merging Unit (Context Unit)} {a b : Context Unit}
    (hnone : Yields wildcard (f none) (join wildcard a b))
    (hsome : Yields wildcard (f (some (join wildcard a b))) (join wildcard a b)) :
    Yields wildcard (recollect a b >>= f) (join wildcard a b) := by
  intro m hm
  have hlookup (x y c : Context Unit)
      (h : ((m.memory.getD []).find? fun e => e.1.1.same x && e.1.2.same y).map (·.2) = some c) : c = join wildcard x y := by
    obtain ⟨e, he, rfl⟩ := Option.map_eq_some_iff.mp h
    have hkey := List.find?_some he
    rw [Bool.and_eq_true] at hkey
    rw [hm e (List.mem_of_find?_eq_some he), (same_iff ..).mp hkey.1, (same_iff ..).mp hkey.2]
  have hfound : (Context.recollect a b).outcome m = (.ok none, m) ∨
      (Context.recollect a b).outcome m = (.ok (some (join wildcard a b)), m) := by
    rw [Context.recollect, Run.outcome_get_bind]
    dsimp only
    split
    · rename_i c hc
      rw [hlookup a b c hc]
      exact .inr rfl
    · cases hc : ((m.memory.getD []).find? fun e => e.1.1.same b && e.1.2.same a).map (·.2) with
      | none => exact .inl rfl
      | some c =>
        rw [hlookup b a c hc, join_comm]
        exact .inr rfl
  rcases hfound with h | h
  · obtain ⟨m', h', hm'⟩ := hnone m hm
    exact ⟨m', (Run.outcome_bind_ok h f).trans h', hm'⟩
  · obtain ⟨m', h', hm'⟩ := hsome m hm
    exact ⟨m', (Run.outcome_bind_ok h f).trans h', hm'⟩

theorem remember {a b c : Context Unit} (h : c = join wildcard a b) : Yields wildcard (remember a b c) c := by
  intro m hm
  refine ⟨_, rfl, ?_⟩
  intro e he
  dsimp only at he
  cases hmem : m.memory with
  | none =>
    rw [hmem] at he
    cases he
  | some entries =>
    simp only [hmem, Option.map_some, Option.getD_some] at he
    have hold : ∀ e ∈ entries, e.2 = join wildcard e.1.1 e.1.2 := by
      intro e he
      exact hm e (by rw [hmem]; exact he)
    split at he
    · obtain ⟨e', he', rfl⟩ := List.mem_map.mp he
      by_cases hit : (e'.1.1.same a && e'.1.2.same b) = true
      · rw [if_pos hit]
        rw [Bool.and_eq_true] at hit
        dsimp only
        rw [h, (same_iff ..).mp hit.1, (same_iff ..).mp hit.2]
      · rw [if_neg hit]
        exact hold e' he'
    · rcases List.mem_append.mp he with he | he
      · exact hold e he
      · rw [List.mem_singleton.mp he]
        exact h

theorem asFork {c : Context Unit} (h : c.Grounded) : Yields wildcard (asFork c) (.fork () c.branches) := by
  cases c with
  | unknown => cases h
  | root | call => exact bind freshMark (pure _)
  | fork => exact pure _

theorem shareBelow_eq (l : List (Context Unit × Int)) : shareBelow l = l := by
  refine List.map_id'' ?_ l
  rintro ⟨below, ret⟩
  dsimp only
  cases h : (l.map (·.1)).find? below.same with
  | none => rfl
  | some c => rw [Option.getD_some, ← (same_iff below c).mp (List.find?_some h)]

theorem joinForks {a b : Context Unit} {bs : Branches Unit} (h : join wildcard a b = ofBranches bs) :
    Yields wildcard (joinForks a b bs.toList) (join wildcard a b) := by
  unfold Context.joinForks
  split
  · rename_i below ret hbs
    have hone : bs = .cons below ret .nil := by
      rw [← ofList_toList bs, hbs]
      rfl
    have hatop : join wildcard a b = atop () below ret := by
      rw [h, hone]
      rfl
    refine bind freshMark ?_
    rw [hatop]
    exact remember hatop.symm
  · rename_i hmany
    have hfork : join wildcard a b = .fork () bs := by
      rw [h]
      unfold ofBranches
      split
      · rename_i below ret
        exact absurd rfl (hmany below ret)
      · rfl
    rw [hfork]
    refine bind freshMark ?_
    dsimp only
    rw [ofList_toList]
    split
    · rename_i hsame
      have heq := (same_iff ..).mp hsame
      conv => arg 3; rw [heq]
      exact remember (heq.symm.trans hfork.symm)
    · split
      · rename_i hsame
        have heq := (same_iff ..).mp hsame
        conv => arg 3; rw [heq]
        exact remember (heq.symm.trans hfork.symm)
      · refine bind freshMark ?_
        rw [shareBelow_eq, ofList_toList]
        exact remember hfork.symm

theorem mergeForks {a b : Context Unit} {bs : Branches Unit} {ways : Merging Unit (List (Context Unit × Int))}
    (hways : Yields wildcard ways bs.toList) (h : join wildcard a b = ofBranches bs) :
    Yields wildcard (mergeForks a b ways) (join wildcard a b) :=
  recollect (bind hways (joinForks h)) (pure _)

end Yields

/-! ## Every merge is a join -/

theorem splitAt_cons_lt (h : ret' < ret) :
    splitAt ret ((below', ret') :: ways) =
      ((below', ret') :: (splitAt ret ways).1, (splitAt ret ways).2.1, (splitAt ret ways).2.2) := by
  simp only [splitAt, List.takeWhile_cons, List.dropWhile_cons, h, decide_true, if_true]
  split
  · split <;> rfl
  · rfl

theorem splitAt_cons_eq :
    splitAt ret ((below', ret) :: ways) = ([], some below', ways) := by
  simp [splitAt]

theorem splitAt_cons_gt {ret ret' : Int} {below' : Context Unit} {ways : List (Context Unit × Int)} (h : ret < ret') :
    splitAt ret ((below', ret') :: ways) = ([], none, (below', ret') :: ways) := by
  have hle : ¬ ret' < ret := by omega
  have hne : ret' ≠ ret := by omega
  simp [splitAt, hle, hne]

/-- Where branches are put among others: those of smaller return states come first, and one of the same is joined. -/
theorem weave_split (wildcard : Bool) (below : Context Unit) (ret : Int) (rest : Branches Unit) :
    (bs : Branches Unit) → GroundedBranches bs → ∃ lower tail, GroundedBranches tail ∧
      ((splitAt ret bs.toList = (lower, none, tail.toList) ∧
        (weave wildcard (.cons below ret rest) bs).toList =
          lower ++ (below, ret) :: (weave wildcard rest tail).toList) ∨
      ∃ below', splitAt ret bs.toList = (lower, some below', tail.toList) ∧
        (weave wildcard (.cons below ret rest) bs).toList =
          lower ++ (join wildcard below below', ret) :: (weave wildcard rest tail).toList ∧
        Based below' ret)
  | .nil, h => ⟨[], .nil, h, .inl ⟨rfl, by rw [weave, weave_nil]; rfl⟩⟩
  | .cons below' ret' rest', h => by
    rw [weave, Branches.toList]
    rcases Int.lt_trichotomy ret' ret with hlt | rfl | hgt
    · obtain ⟨lower, tail, htail, hsplit⟩ := weave_split wildcard below ret rest rest' h.2
      refine ⟨(below', ret') :: lower, tail, htail, ?_⟩
      rw [splitAt_cons_lt hlt, if_neg (by omega), if_pos hlt]
      rcases hsplit with ⟨hs, hw⟩ | ⟨below'', hs, hw, hground⟩
      · exact .inl ⟨by rw [hs], by rw [Branches.toList, hw]; rfl⟩
      · exact .inr ⟨below'', by rw [hs], by rw [Branches.toList, hw]; rfl, hground⟩
    · rw [splitAt_cons_eq, if_neg (Int.lt_irrefl _), if_neg (Int.lt_irrefl _)]
      exact ⟨[], rest', h.2, .inr ⟨below', rfl, rfl, h.1⟩⟩
    · rw [splitAt_cons_gt hgt, if_pos hgt]
      exact ⟨[], .cons below' ret' rest', h, .inl ⟨rfl, rfl⟩⟩

/-- Two contexts under one return state that stay as they are have nothing to join. -/
theorem join_of_stays {wildcard : Bool} {below : Context Unit} (h : stays ret below below' = true) :
    join wildcard below below' = below := by
  simp only [stays, Bool.or_eq_true, Bool.and_eq_true, same_iff] at h
  rcases h with ⟨⟨-, rfl⟩, rfl⟩ | ⟨-, rfl⟩
  · exact join_self _ _
  · exact join_self _ _

theorem grounded_of_not_stays {ret : Int} {below below' : Context Unit} (h : ¬ stays ret below below' = true)
    (hb : Based below ret) (hb' : Based below' ret) : below.Grounded ∧ below'.Grounded := by
  rcases hb.together hb' with ⟨rfl, rfl, hret⟩ | ⟨hb, hb', -⟩
  · exact absurd (by simp [stays, hret, same]) h
  · exact ⟨hb, hb'⟩

/-- Contexts under one return state are merged unless they stay as they are. -/
theorem Yields.below {wildcard : Bool} {below : Context Unit} (hb : Based below ret) (hb' : Based below' ret)
    (hmerge : below.Grounded → below'.Grounded →
      Yields wildcard (merge wildcard below below') (join wildcard below below')) :
    Yields wildcard (if stays ret below below' then Pure.pure below else merge wildcard below below')
      (join wildcard below below') := by
  by_cases h : stays ret below below' = true
  · rw [if_pos h, join_of_stays h]
    exact pure _
  · rw [if_neg h]
    exact hmerge (grounded_of_not_stays h hb hb').1 (grounded_of_not_stays h hb hb').2

theorem join_of_ne {wildcard : Bool} (hne : a ≠ b)
    (hw : ¬ (wildcard = true ∧ (a = .root ∨ b = .root))) :
    join wildcard a b = ofBranches (weave wildcard a.branches b.branches) := by
  rw [join, if_neg hne, if_neg hw]

theorem join_wildcard (h : a = .root ∨ b = .root) : join true a b = .root := by
  rw [join]
  split
  · rename_i heq
    rcases h with rfl | rfl
    · rfl
    · exact heq
  · rw [if_pos ⟨rfl, h⟩]

theorem toList_branches (c : Context Unit) : c.branches.toList = c.ways := by
  cases c <;> rfl

/-- Two contexts merged as forks, one of which may be a single way down. -/
theorem Yields.forks {wildcard : Bool} (ha : a.Grounded) (hb : b.Grounded) (hne : a ≠ b)
    (hw : ¬ (wildcard = true ∧ (a = .root ∨ b = .root))) {ways : Merging Unit (List (Context Unit × Int))}
    (hways : Yields wildcard ways (weave wildcard a.branches b.branches).toList) :
    Yields wildcard (Context.mergeForks (.fork () a.branches) (.fork () b.branches) ways) (join wildcard a b) := by
  rw [← join_forks ha hb hne hw]
  refine mergeForks hways ?_
  rw [join_forks ha hb hne hw, join_of_ne hne hw]

theorem pairUp_eq {below below' : Context Unit} {ret ret' : Int} :
    pairUp below ret below' ret' =
      if ret > ret' then [(below', ret'), (below, ret)] else [(below, ret), (below', ret')] := by
  have hshared : (if !below.same .unknown && below.same below' then below else below') = below' := by
    split
    · rename_i h
      rw [Bool.and_eq_true] at h
      exact (same_iff ..).mp h.2
    · rfl
  rw [pairUp, hshared]

theorem Yields.unlessSame {wildcard : Bool} {act : Merging Unit (Context Unit)}
    (h : a ≠ b → Yields wildcard act (join wildcard a b)) :
    Yields wildcard (if a.same b = true then Pure.pure a else act) (join wildcard a b) := by
  by_cases heq : a = b
  · rw [if_pos ((same_iff ..).mpr heq), ← heq, join_self]
    exact pure _
  · rw [if_neg (mt (same_iff ..).mp heq)]
    exact h heq

/-- The bottom of the stack and one return state, in either order. -/
theorem Yields.mergeRoot {wildcard : Bool} {below : Context Unit} (hret : ret < bottomReturn)
    (h : a = .root ∧ b = .call () below ret ∨ a = .call () below ret ∧ b = .root) :
    Yields wildcard (mergeRoot wildcard a b) (some (join wildcard a b)) := by
  have hboth : join wildcard a b =
      if wildcard then .root else .fork () (.cons below ret (.cons .unknown bottomReturn .nil)) := by
    have hroot : join wildcard .root (.call () below ret) =
        if wildcard then .root else .fork () (.cons below ret (.cons .unknown bottomReturn .nil)) := by
      cases wildcard with
      | true => exact join_wildcard (.inl rfl)
      | false =>
        rw [join_of_ne (by simp) (by simp), branches, branches, weave, if_neg (by omega), if_pos hret, weave_nil]
        rfl
    rcases h with ⟨rfl, rfl⟩ | ⟨rfl, rfl⟩
    · exact hroot
    · rw [join_comm, hroot]
  rw [hboth]
  rcases h with ⟨rfl, rfl⟩ | ⟨rfl, rfl⟩
  all_goals
    cases wildcard with
    | true => exact pure _
    | false => exact bind freshMark (pure _)

/-- One return state over two contexts, or two return states side by side. -/
theorem Yields.calls {wildcard : Bool} {below : Context Unit} (ha : below.Grounded)
    (hb : below'.Grounded) (hne : Context.call () below ret ≠ .call () below' ret')
    (hmerge : Yields wildcard (merge wildcard below below') (join wildcard below below')) :
    Yields wildcard
      (if ret = ret' then do
        let p ← merge wildcard below below'
        if p.same below then return .call () below ret
        if p.same below' then return .call () below' ret'
        Context.remember (.call () below ret) (.call () below' ret') (atop (← Context.freshMark) p ret)
      else do
        Context.remember (.call () below ret) (.call () below' ret')
          (.fork (← Context.freshMark) (Branches.ofList (pairUp below ret below' ret'))))
      (join wildcard (.call () below ret) (.call () below' ret')) := by
  have hjoin : join wildcard (.call () below ret) (.call () below' ret') =
      ofBranches (weave wildcard (.cons below ret .nil) (.cons below' ret' .nil)) := join_of_ne hne (by simp)
  rw [weave] at hjoin
  split
  · rename_i hret
    subst hret
    rw [if_neg (Int.lt_irrefl _), if_neg (Int.lt_irrefl _), weave] at hjoin
    rw [hjoin]
    refine bind hmerge ?_
    split
    · rename_i hsame
      rw [(same_iff ..).mp hsame, ofBranches, atop_of_ne_unknown ha.ne_unknown]
      exact pure _
    · split
      · rename_i hsame
        rw [(same_iff ..).mp hsame, ofBranches, atop_of_ne_unknown hb.ne_unknown]
        exact pure _
      · exact bind freshMark (remember hjoin.symm)
  · rename_i hret
    have hfork : join wildcard (.call () below ret) (.call () below' ret') =
        .fork () (Branches.ofList (pairUp below ret below' ret')) := by
      rw [hjoin, pairUp_eq]
      by_cases hlt : ret < ret'
      · rw [if_pos hlt, if_neg (by omega), weave]
        rfl
      · rw [if_neg hlt, if_pos (by omega), if_pos (by omega), weave_nil]
        rfl
    rw [hfork]
    exact bind freshMark (remember hfork.symm)

mutual
/-- The merge of two contexts is their join, whatever joins the merger remembers. -/
theorem merge_join (wildcard : Bool) : (a b : Context Unit) → a.Grounded → b.Grounded →
    Yields wildcard (merge wildcard a b) (join wildcard a b)
  | .unknown, _, ha, _ => absurd ha id
  | .root, b, ha, hb => by
    unfold merge
    refine .unlessSame fun hne => ?_
    cases b with
    | unknown => cases hb
    | root => exact absurd rfl hne
    | call m below ret =>
      exact .recollect (.bind (.mergeRoot hb.2 (.inl ⟨rfl, rfl⟩)) (.remember rfl)) (.pure _)
    | fork m bs =>
      cases wildcard with
      | true =>
        rw [join_wildcard (.inl rfl)]
        exact .pure _
      | false =>
        refine .bind (.asFork ha) (.forks ha hb hne (by simp) ?_)
        obtain ⟨lower, tail, htail, ⟨hs, hw⟩ | ⟨below', hs, hw, hb'⟩⟩ :=
          weave_split false .unknown bottomReturn .nil bs hb.2
        · rw [branches, branches, hw, ways, hs, weave]
          exact .pure _
        · have hunder : below' = .unknown := by
            rcases hb' with ⟨h, -⟩ | ⟨-, h⟩
            · exact h
            · exact absurd h (Int.lt_irrefl _)
          rw [branches, branches, hw, ways, hs, weave, hunder, join_self]
          exact .pure _
  | .call m below ret, b, ha, hb => by
    unfold merge
    refine .unlessSame fun hne => ?_
    cases b with
    | unknown => cases hb
    | root =>
      exact .recollect (.bind (.mergeRoot ha.2 (.inr ⟨rfl, rfl⟩)) (.remember rfl)) (.pure _)
    | call m' below' ret' =>
      exact .recollect (.calls ha.1 hb.1 hne (merge_join wildcard below below' ha.1 hb.1)) (.pure _)
    | fork m bs =>
      refine .bind (.asFork ha) (.forks ha hb hne (by simp) ?_)
      obtain ⟨lower, tail, htail, ⟨hs, hw⟩ | ⟨below', hs, hw, hb'⟩⟩ := weave_split wildcard below ret .nil bs hb.2
      · rw [branches, branches, hw, ways, hs, weave]
        exact .pure _
      · rw [branches, branches, hw, ways, hs, weave]
        exact .bind (Yields.below (.inr ha) hb' (merge_join wildcard below below')) (.pure _)
  | .fork m bs, b, ha, hb => by
    unfold merge
    refine .unlessSame fun hne => ?_
    by_cases hroot : wildcard = true ∧ b = .root
    · obtain ⟨rfl, rfl⟩ := hroot
      rw [join_wildcard (.inr rfl)]
      exact .pure _
    · have hunless : Yields wildcard (do
          if wildcard && b.same .root then return .root
          let b ← asFork b
          mergeForks (.fork m bs) b (mergeBranches wildcard bs b.ways)) (join wildcard (.fork m bs) b) := by
        rw [if_neg (by rwa [Bool.and_eq_true, same_iff])]
        refine .bind (.asFork hb) (.forks ha hb hne (by simpa using hroot) ?_)
        exact mergeBranches_weave wildcard bs b.branches ha.2 hb.branches
      cases b with
      | unknown => cases hb
      | root | call | fork => exact hunless

theorem mergeBranches_weave (wildcard : Bool) : (bs bs' : Branches Unit) → GroundedBranches bs →
    GroundedBranches bs' → Yields wildcard (mergeBranches wildcard bs bs'.toList) (weave wildcard bs bs').toList
  | .nil, bs', _, _ => by
    rw [mergeBranches, weave]
    exact .pure _
  | .cons below ret rest, bs', h, h' => by
    rw [mergeBranches]
    obtain ⟨lower, tail, htail, ⟨hs, hw⟩ | ⟨below', hs, hw, hb'⟩⟩ := weave_split wildcard below ret rest bs' h'
    · rw [hs, hw]
      exact .bind (mergeBranches_weave wildcard rest tail h.2 htail) (.pure _)
    · rw [hs, hw]
      refine .bind (Yields.below h.1 hb' (merge_join wildcard below below')) ?_
      exact .bind (mergeBranches_weave wildcard rest tail h.2 htail) (.pure _)
end

/-! ## Joins stay on firm ground -/

theorem weave_ne_nil {wildcard : Bool} {below : Context Unit} {rest bs : Branches Unit} :
    weave wildcard (.cons below ret rest) bs ≠ .nil := by
  cases bs with
  | nil => simp [weave]
  | cons below' ret' rest' =>
    rw [weave]
    split
    · simp
    · split <;> simp

theorem weave_branches_ne_nil {wildcard : Bool} (h : c.Grounded) (bs : Branches Unit) :
    weave wildcard c.branches bs ≠ .nil := by
  cases hbs : c.branches with
  | nil =>
    rw [← ofBranches_branches h, hbs] at h
    exact absurd h.1 (by simp [Branches.length])
  | cons below ret rest => exact weave_ne_nil

theorem Grounded.ofBranches : {bs : Branches Unit} → GroundedBranches bs → bs ≠ .nil → (ofBranches bs).Grounded
  | .nil, _, hne => absurd rfl hne
  | .cons below ret .nil, h, _ => by
    rcases h.1 with ⟨rfl, rfl⟩ | hb
    · exact trivial
    · rw [Context.ofBranches, atop_of_ne_unknown hb.1.ne_unknown]
      exact hb
  | .cons below ret (.cons below' ret' rest), h, _ => ⟨by simp [Branches.length], h⟩

mutual
theorem join_grounded (wildcard : Bool) (a b : Context Unit) (ha : a.Grounded) (hb : b.Grounded) :
    (join wildcard a b).Grounded := by
  rw [join]
  split
  · exact ha
  · split
    · exact trivial
    · exact .ofBranches (weave_grounded wildcard a.branches b.branches ha.branches hb.branches) (weave_branches_ne_nil ha _)
termination_by a.bulk + b.bulk
decreasing_by
  have := bulk_branches a
  have := bulk_branches b
  omega

theorem weave_grounded (wildcard : Bool) : (bs bs' : Branches Unit) → GroundedBranches bs → GroundedBranches bs' →
    GroundedBranches (weave wildcard bs bs')
  | .nil, bs', _, h' => by rwa [weave]
  | .cons below ret rest, .nil, h, _ => by rwa [weave]
  | .cons below ret rest, .cons below' ret' rest', h, h' => by
    rw [weave]
    split
    · exact ⟨h.1, weave_grounded wildcard rest (.cons below' ret' rest') h.2 h'⟩
    · split
      · exact ⟨h'.1, weave_grounded wildcard (.cons below ret rest) rest' h h'.2⟩
      · refine ⟨?_, weave_grounded wildcard rest rest' h.2 h'.2⟩
        have hret : ret' = ret := by omega
        subst hret
        by_cases hs : stays ret' below below' = true
        · rw [join_of_stays hs]
          exact h.1
        · obtain ⟨hb, hb'⟩ := grounded_of_not_stays hs h.1 h'.1
          refine .inr ⟨join_grounded wildcard below below' hb hb', ?_⟩
          rcases h.1 with ⟨rfl, -⟩ | ⟨-, hlt⟩
          · exact absurd hb id
          · exact hlt
termination_by bs bs' => bulkBranches bs + bulkBranches bs'
decreasing_by all_goals (simp only [bulkBranches]; omega)
end

/-! ## Merges that share a memory -/

/-- Merges one after another. -/
def mergeAll (wildcard : Bool) (calls : List (Context Unit × Context Unit)) : Merging Unit (List (Context Unit)) :=
  calls.mapM fun c => merge wildcard c.1 c.2

/-- What the merge of two contexts comes to by itself, with nothing remembered. -/
def Alone (wildcard : Bool) (call : Context Unit × Context Unit) (c : Context Unit) : Prop :=
  ((merge wildcard call.1 call.2).outcome {}).1 = .ok c

theorem alone_join {wildcard : Bool} {call : Context Unit × Context Unit} (h : call.1.Grounded ∧ call.2.Grounded) :
    Alone wildcard call (join wildcard call.1 call.2) := by
  obtain ⟨m, hm, -⟩ := merge_join wildcard call.1 call.2 h.1 h.2 {} (by simp [Recalls])
  exact congrArg Prod.fst hm

theorem mergeAll_join {wildcard : Bool} {calls : List (Context Unit × Context Unit)}
    (h : ∀ c ∈ calls, c.1.Grounded ∧ c.2.Grounded) :
    Yields wildcard (mergeAll wildcard calls) (calls.map fun c => join wildcard c.1 c.2) := by
  induction calls with
  | nil => exact .pure _
  | cons c calls ih =>
    rw [mergeAll, List.mapM_cons]
    have hc := h c List.mem_cons_self
    exact .bind (merge_join wildcard c.1 c.2 hc.1 hc.2) (.bind (ih fun c' hc' => h c' (List.mem_cons_of_mem _ hc')) (.pure _))

theorem mergeAll_alone {wildcard : Bool} {calls : List (Context Unit × Context Unit)} {m : Merger Unit}
    (h : ∀ c ∈ calls, c.1.Grounded ∧ c.2.Grounded) (hm : Recalls wildcard m) :
    ∃ cs m', (mergeAll wildcard calls).outcome m = (.ok cs, m') ∧
      List.Forall₂ (Alone wildcard) calls cs ∧ ∀ c ∈ cs, c.Grounded := by
  obtain ⟨m', hrun, -⟩ := mergeAll_join h m hm
  refine ⟨_, m', hrun, ?_, ?_⟩
  · rw [List.forall₂_map_right_iff, List.forall₂_same]
    exact fun c hc => alone_join (h c hc)
  · intro c hc
    obtain ⟨call, hcall, rfl⟩ := List.mem_map.mp hc
    exact join_grounded wildcard call.1 call.2 (h call hcall).1 (h call hcall).2

theorem recalls_empty {wildcard : Bool} {m : Merger Unit} (h : m.memory = some []) : Recalls wildcard m := by
  simp [Recalls, h]

/-- Merges that share a memory of their own mode come to what each of them comes to alone. So do the merges of full
mode that follow those of local mode, as long as they start with a memory of their own or all they find there are
joins of their mode. -/
theorem shared_memory_transparent (near full : List (Context Unit × Context Unit))
    (hnear : ∀ c ∈ near, c.1.Grounded ∧ c.2.Grounded) (hfull : ∀ c ∈ full, c.1.Grounded ∧ c.2.Grounded) :
    ∃ cs m, (mergeAll true near).outcome { memory := some [] } = (.ok cs, m) ∧
      List.Forall₂ (Alone true) near cs ∧ (∀ c ∈ cs, c.Grounded) ∧
      ∀ m', m'.memory = some [] ∨ m' = m ∧ Recalls false m →
        ∃ ds m'', (mergeAll false full).outcome m' = (.ok ds, m'') ∧
          List.Forall₂ (Alone false) full ds ∧ ∀ c ∈ ds, c.Grounded := by
  have hstart : Recalls true { memory := some [] } := recalls_empty rfl
  obtain ⟨cs, m, hrun, hcs, hground⟩ := mergeAll_alone hnear hstart
  refine ⟨cs, m, hrun, hcs, hground, ?_⟩
  rintro m' (hempty | ⟨rfl, hrecalls⟩)
  · exact mergeAll_alone hfull (recalls_empty hempty)
  · exact mergeAll_alone hfull hrecalls

/-- One return state over the bottom of the stack. -/
def overRoot (ret : Int) : Context Unit := .call () .root ret

theorem shared_memory_transparent_twoReturns :
    let near := [(overRoot 5, overRoot 7), (overRoot 7, overRoot 5)]
    let full := [(overRoot 5, overRoot 7), (.root, overRoot 5)]
    (∀ c ∈ near, c.1.Grounded ∧ c.2.Grounded) ∧ (∀ c ∈ full, c.1.Grounded ∧ c.2.Grounded) ∧
    ∃ cs m, (mergeAll true near).outcome { memory := some [] } = (.ok cs, m) ∧
      List.Forall₂ (Alone true) near cs ∧ (∀ c ∈ cs, c.Grounded) ∧
      ∀ m', m'.memory = some [] ∨ m' = m ∧ Recalls false m →
        ∃ ds m'', (mergeAll false full).outcome m' = (.ok ds, m'') ∧
          List.Forall₂ (Alone false) full ds ∧ ∀ c ∈ ds, c.Grounded := by
  intro near full
  have hnear : ∀ c ∈ near, c.1.Grounded ∧ c.2.Grounded := by
    simp [near, overRoot, Grounded, bottomReturn]
  have hfull : ∀ c ∈ full, c.1.Grounded ∧ c.2.Grounded := by
    simp [full, overRoot, Grounded, bottomReturn]
  exact ⟨hnear, hfull, shared_memory_transparent near full hnear hfull⟩

/-- After a merge in local mode, the same merge in full mode is answered from memory, as the bottom of the stack. -/
theorem full_merge_recalls_local : ∃ m,
    (mergeAll true [(.root, overRoot 5)]).outcome { memory := some [] } = (.ok [.root], m) ∧
    ((mergeAll false [(.root, overRoot 5)]).outcome m).1 = .ok [.root] ∧
    Alone false (.root, overRoot 5) (.fork () (.cons .root 5 (.cons .unknown bottomReturn .nil))) :=
  ⟨_, rfl, rfl, rfl⟩

end NimbleLang.Context
