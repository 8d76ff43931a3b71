import NimbleLang.Predict.ConfigSet
import NimbleLang.Proofs.Stacks

/-!
Sets of configurations lose nothing. However often configurations with the same key are added to a full-context set, the set has
one configuration of that key, at the place of the first: it stands for all the stacks of those that were added, has left the
rule as often as the one that has most often, and is exempt if one of them is (`Sums`). Since a context is known by its stacks,
the order of the additions decides the order of the configurations and nothing else (`ConfigSet.adding_unites`).

The place of a key can be looked up in the bucket that a code of the key tells, instead of searching all places (`Bucketed`). The
buckets stay in step with the list, for a configuration that takes in another one keeps its key (`Bucketed.InStep`).
-/

namespace NimbleLang.Predict

open Context (stackSet Tidy Yields Formed Filled)

/-! ## Keys -/

abbrev Key := Nat × Int × Guard

def Config.key (c : Config) : Key := (c.state, c.alt, c.guard)

theorem Config.sameKey_iff {a b : Config} : a.sameKey b = true ↔ a.key = b.key := by
  simp [sameKey, key, and_assoc]

namespace ConfigSet

/-- The configuration that stands for two with the same key. -/
def both (old new : Config) : Config :=
  { old with
    context := Context.join false old.context new.context
    outer := max old.outer new.outer
    exempt := old.exempt || new.exempt }

/-- A list of configurations with one more: in the one that has its key already, or at the end. -/
def place : List Config → Config → List Config
  | [], c => [c]
  | d :: l, c => if d.sameKey c then both d c :: l else d :: place l c

variable {c d : Config} {l cs : List Config} {s : ConfigSet}

theorem place_new (h : ∀ d ∈ l, d.sameKey c = false) : place l c = l ++ [c] := by
  induction l with
  | nil => rfl
  | cons d l ih =>
    obtain ⟨hd, hl⟩ := List.forall_mem_cons.mp h
    rw [place, hd, if_neg Bool.false_ne_true, ih hl, List.cons_append]

theorem place_found {i : Nat} (h : l.findIdx? (·.sameKey c) = some i) : place l c = l.set i (both (l.getD i default) c) := by
  induction l generalizing i with
  | nil => cases h
  | cons d l ih =>
    rw [List.findIdx?_cons] at h
    rw [place]
    split at h
    · rename_i hd
      cases h
      rw [if_pos hd]
      rfl
    · rename_i hd
      obtain ⟨j, hj, rfl⟩ := Option.map_eq_some_iff.mp h
      rw [if_neg hd, ih hj]
      rfl

theorem place_keys (l : List Config) (c : Config) :
    (place l c).map Config.key = if c.key ∈ l.map Config.key then l.map Config.key else l.map Config.key ++ [c.key] := by
  induction l with
  | nil => rfl
  | cons d l ih =>
    by_cases hd : d.key = c.key
    · rw [place, if_pos (Config.sameKey_iff.2 hd), List.map_cons, List.map_cons, if_pos (by simp [hd])]
      rfl
    · rw [place, if_neg (mt Config.sameKey_iff.1 hd), List.map_cons, List.map_cons, ih]
      have hd' : c.key ≠ d.key := fun h => hd h.symm
      by_cases hl : c.key ∈ l.map Config.key
      · rw [if_pos hl, if_pos (List.mem_cons_of_mem _ hl)]
      · rw [if_neg hl, if_neg (by simp only [List.mem_cons, not_or]; exact ⟨hd', hl⟩), List.cons_append]

theorem place_once (hl : (l.map Config.key).Nodup) (c : Config) : ((place l c).map Config.key).Nodup := by
  rw [place_keys]
  split
  · exact hl
  · rename_i hnew
    refine List.nodup_append.mpr ⟨hl, by simp, ?_⟩
    intro k hk k' hk' heq
    rw [List.mem_singleton.mp hk'] at heq
    exact hnew (heq ▸ hk)

theorem forall_place {Q : Config → Prop} (hl : (l.map Config.key).Nodup) (hother : ∀ d ∈ l, d.key ≠ c.key → Q d)
    (hboth : ∀ d ∈ l, d.key = c.key → Q (both d c)) (hnew : c.key ∉ l.map Config.key → Q c) : ∀ d ∈ place l c, Q d := by
  induction l with
  | nil => simpa [place] using hnew
  | cons d l ih =>
    rw [List.map_cons, List.nodup_cons] at hl
    rw [List.forall_mem_cons] at hother hboth
    by_cases hd : d.key = c.key
    · rw [place, if_pos (Config.sameKey_iff.2 hd), List.forall_mem_cons]
      refine ⟨hboth.1 hd, ?_⟩
      intro b hb
      refine hother.2 b hb fun heq => hl.1 ?_
      rw [hd, ← heq]
      exact List.mem_map_of_mem hb
    · rw [place, if_neg (mt Config.sameKey_iff.1 hd), List.forall_mem_cons]
      refine ⟨hother.1 hd, ih hl.2 hother.2 hboth.2 fun hmem => hnew ?_⟩
      simp only [List.map_cons, List.mem_cons, not_or]
      exact ⟨fun h => hd h.symm, hmem⟩

/-! ## What a configuration stands for -/

/-- The configuration stands for all those of its key among some that were added. -/
structure Sums (cs : List Config) (d : Config) : Prop where
  tidy : d.context.Tidy false
  union : ∀ st, st ∈ d.context.stackSet false ↔ ∃ c ∈ cs, c.key = d.key ∧ st ∈ c.context.stackSet false
  outer : ∃ c ∈ cs, c.key = d.key ∧ c.outer = d.outer
  outermost : ∀ c ∈ cs, c.key = d.key → c.outer ≤ d.outer
  exempt : d.exempt = true ↔ ∃ c ∈ cs, c.key = d.key ∧ c.exempt = true

theorem exists_mem_concat {Q : Config → Prop} : (∃ b ∈ cs ++ [c], Q b) ↔ (∃ b ∈ cs, Q b) ∨ Q c := by
  simp [or_and_right, exists_or]

theorem forall_mem_concat {Q : Config → Prop} : (∀ b ∈ cs ++ [c], Q b) ↔ (∀ b ∈ cs, Q b) ∧ Q c := by
  simp [or_imp, forall_and]

theorem Sums.other (h : Sums cs d) (hkey : d.key ≠ c.key) : Sums (cs ++ [c]) d := by
  have hlast : c.key ≠ d.key := fun heq => hkey heq.symm
  refine ⟨h.tidy, ?_, exists_mem_concat.2 (.inl h.outer), forall_mem_concat.2 ⟨h.outermost, fun heq => absurd heq hlast⟩, ?_⟩
  · intro st
    rw [h.union, exists_mem_concat, or_iff_left fun hc => hlast hc.1]
  · rw [h.exempt, exists_mem_concat, or_iff_left fun hc => hlast hc.1]

theorem Sums.both (h : Sums cs d) (hkey : d.key = c.key) (hc : c.context.Tidy false) : Sums (cs ++ [c]) (both d c) := by
  have hsame : (ConfigSet.both d c).key = d.key := rfl
  refine ⟨Context.join_tidy false _ _ h.tidy hc, ?_, ?_, ?_, ?_⟩
  · intro st
    rw [hsame, exists_mem_concat, ← h.union, and_iff_right hkey.symm]
    have hunion := Context.stackSet_join false _ _ h.tidy.grounded hc.grounded
    exact Set.ext_iff.mp hunion st
  · rw [hsame, exists_mem_concat]
    rcases Int.le_total d.outer c.outer with hle | hle
    · exact .inr ⟨hkey.symm, (Int.max_eq_right hle).symm⟩
    · obtain ⟨b, hb, hbd, houter⟩ := h.outer
      exact .inl ⟨b, hb, hbd, houter.trans (Int.max_eq_left hle).symm⟩
  · rw [forall_mem_concat, hsame]
    exact ⟨fun b hb hbd => Int.le_trans (h.outermost b hb hbd) (Int.le_max_left _ _), fun _ => Int.le_max_right _ _⟩
  · rw [hsame, exists_mem_concat, ← h.exempt, and_iff_right hkey.symm]
    exact Bool.or_eq_true_iff

theorem Sums.first (hnew : c.key ∉ cs.map Config.key) (hc : c.context.Tidy false) : Sums (cs ++ [c]) c := by
  have hothers : ∀ b ∈ cs, b.key ≠ c.key := by
    intro b hb hbc
    exact hnew (hbc ▸ List.mem_map_of_mem hb)
  have hnone {Q : Config → Prop} : ¬ ∃ b ∈ cs, b.key = c.key ∧ Q b := by
    rintro ⟨b, hb, hbc, -⟩
    exact hothers b hb hbc
  refine ⟨hc, ?_, exists_mem_concat.2 (.inr ⟨rfl, rfl⟩), forall_mem_concat.2 ⟨?_, fun _ => Int.le_refl _⟩, ?_⟩
  · intro st
    rw [exists_mem_concat, or_iff_right hnone, and_iff_right rfl]
  · intro b hb hbc
    exact absurd hbc (hothers b hb)
  · rw [exists_mem_concat, or_iff_right hnone, and_iff_right rfl]

/-- What is added says what the configuration of a key is. -/
theorem Sums.eq {cs' : List Config} {d' : Config} (h : Sums cs d) (h' : Sums cs' d') (hcs : ∀ c, c ∈ cs ↔ c ∈ cs')
    (hkey : d.key = d'.key) : d = d' := by
  have hcontext : d.context = d'.context := by
    refine Context.eq_of_stackSet _ _ h.tidy h'.tidy (Set.ext fun st => ?_)
    rw [h.union, h'.union, hkey]
    simp only [hcs]
  have houter : d.outer = d'.outer := by
    obtain ⟨b, hb, hbd, hbo⟩ := h.outer
    obtain ⟨b', hb', hbd', hbo'⟩ := h'.outer
    have hle := h'.outermost b ((hcs b).mp hb) (hbd.trans hkey)
    have hge := h.outermost b' ((hcs b').mpr hb') (hbd'.trans hkey.symm)
    omega
  have hexempt : d.exempt = d'.exempt := by
    rw [Bool.eq_iff_iff, h.exempt, h'.exempt, hkey]
    simp only [hcs]
  obtain ⟨n, a, ctx, g, o, x⟩ := d
  obtain ⟨n', a', ctx', g', o', x'⟩ := d'
  simp only [Config.key, Prod.mk.injEq] at hkey
  obtain ⟨rfl, rfl, rfl⟩ := hkey
  cases hcontext
  cases houter
  cases hexempt
  rfl

/-! ## Additions -/

/-- One configuration for each key that was added, in the order of the first additions. -/
structure Pooled (cs l : List Config) : Prop where
  keys : l.map Config.key = (cs.map Config.key).eraseDups
  once : (l.map Config.key).Nodup
  sums : ∀ d ∈ l, Sums cs d

theorem eraseDups_concat (keys : List Key) (k : Key) :
    (keys ++ [k]).eraseDups = if k ∈ keys then keys.eraseDups else keys.eraseDups ++ [k] := by
  rw [List.eraseDups_append]
  by_cases hk : k ∈ keys
  · have hnone : [k].removeAll keys = [] := by simp [List.removeAll, hk]
    rw [if_pos hk, hnone, List.eraseDups_nil, List.append_nil]
  · have hone : [k].removeAll keys = [k] := by simp [List.removeAll, hk]
    rw [if_neg hk, hone]
    rfl

theorem Pooled.place (h : Pooled cs l) (hc : c.context.Tidy false) : Pooled (cs ++ [c]) (place l c) := by
  have hmem : c.key ∈ l.map Config.key ↔ c.key ∈ cs.map Config.key := by rw [h.keys, List.mem_eraseDups]
  refine ⟨?_, place_once h.once c, ?_⟩
  · rw [place_keys, List.map_append, List.map_singleton, eraseDups_concat, ← h.keys]
    simp only [hmem]
  · refine forall_place h.once ?_ ?_ ?_
    · intro d hd hkey
      exact (h.sums d hd).other hkey
    · intro d hd hkey
      exact (h.sums d hd).both hkey hc
    · intro hnew
      exact .first (mt hmem.mpr hnew) hc

abbrev keys (s : ConfigSet) : List Key := s.configs.toList.map Config.key

/-- A set with one more configuration. -/
def put (s : ConfigSet) (c : Config) : ConfigSet := { s.note c with configs := (place s.configs.toList c).toArray }

/-- What a full-context set is after some additions. -/
structure Holds (cs : List Config) (s : ConfigSet) : Prop where
  full : s.fullContext = true
  plain : s.uniqueAlt = 0 ∧ s.conflicting = none
  pooled : Pooled cs s.configs.toList
  guards : s.hasGuards = true ↔ ∃ c ∈ cs, c.guard ≠ .always
  dips : s.dips = true ↔ ∃ c ∈ cs, 0 < c.outer

theorem holds_new : Holds [] { fullContext := true } :=
  ⟨rfl, ⟨rfl, rfl⟩, ⟨rfl, .nil, by simp⟩, by simp, by simp⟩

theorem Holds.put (h : Holds cs s) (hc : c.context.Tidy false) : Holds (cs ++ [c]) (put s c) := by
  refine ⟨h.full, h.plain, ?_, ?_, ?_⟩
  · exact h.pooled.place hc
  · rw [exists_mem_concat, ← h.guards]
    simp [ConfigSet.put, ConfigSet.note]
  · rw [exists_mem_concat, ← h.dips]
    simp [ConfigSet.put, ConfigSet.note]

/-- The bottom of the stack is a way like others. -/
theorem Holds.mode (h : Holds cs s) : (!(s.note c).fullContext) = false := by
  have hfull : (s.note c).fullContext = true := h.full
  rw [hfull, Bool.not_true]

theorem absorb_yields (hd : d.context.Tidy false) (hc : c.context.Tidy false) :
    Yields false (ConfigSet.absorb false d c) (both d c) :=
  .bind (Context.merge_join false _ _ hd.grounded hc.grounded) (.pure _)

theorem findIdx?_configs (s : ConfigSet) (c : Config) :
    s.configs.findIdx? (·.sameKey c) = s.configs.toList.findIdx? (·.sameKey c) := by
  rw [← List.findIdx?_toArray, Array.toArray_toList]

theorem put_new (h : s.configs.findIdx? (·.sameKey c) = none) : put s c = { s.note c with configs := s.configs.push c } := by
  rw [findIdx?_configs, List.findIdx?_eq_none_iff] at h
  rw [put, place_new h]
  congr 1
  exact Array.toList_inj.mp (by simp)

theorem put_found {i : Nat} (h : s.configs.findIdx? (·.sameKey c) = some i) :
    put s c = { s.note c with configs := s.configs.setIfInBounds i (both (s.configs.getD i default) c) } := by
  rw [findIdx?_configs] at h
  rw [put, place_found h]
  congr 1
  refine Array.toList_inj.mp ?_
  simp [List.getD_eq_getElem?_getD, Array.getD_eq_getD_getElem?]

theorem Holds.tidy (h : Holds cs s) (i : Nat) (hi : i < s.configs.size) : (s.configs.getD i default).context.Tidy false := by
  refine (h.pooled.sums _ ?_).tidy
  rw [Array.getD_eq_getD_getElem?, Array.getElem?_eq_getElem hi]
  exact Array.getElem_mem_toList hi

theorem add_yields (h : Holds cs s) (hc : c.context.Tidy false) : Yields false (s.add c) (put s c) := by
  have hinsert : ∃ q, Yields false (s.insert c) (put s c, q) := by
    have hconfigs : (s.note c).configs = s.configs := rfl
    unfold ConfigSet.insert
    dsimp only
    rw [hconfigs]
    cases hfind : s.configs.findIdx? (·.sameKey c) with
    | none =>
      rw [put_new hfind]
      exact ⟨_, .pure _⟩
    | some i =>
      obtain ⟨hi, -⟩ := Array.findIdx?_eq_some_iff_getElem.mp hfind
      rw [put_found hfind, h.mode]
      exact ⟨_, .bind (absorb_yields (h.tidy i hi) hc) (.pure _)⟩
  obtain ⟨q, hinsert⟩ := hinsert
  exact .bind hinsert (.pure _)

theorem foldlM_add_yields (h : Holds cs s) {more : List Config} (hmore : ∀ c ∈ more, c.context.Tidy false) :
    Yields false (more.foldlM ConfigSet.add s) (more.foldl put s) ∧ Holds (cs ++ more) (more.foldl put s) := by
  induction more generalizing cs s with
  | nil => exact ⟨.pure s, by simpa using h⟩
  | cons c more ih =>
    obtain ⟨hc, hmore⟩ := List.forall_mem_cons.mp hmore
    obtain ⟨hrun, hholds⟩ := ih (h.put hc) hmore
    rw [List.foldlM_cons, List.foldl_cons]
    refine ⟨.bind (add_yields h hc) hrun, ?_⟩
    rwa [List.append_assoc, List.singleton_append] at hholds

/-! ## Buckets -/

/-- A set with buckets for the places of its configurations. -/
structure Bucketed where
  set : ConfigSet
  bucket : Nat → List Nat

namespace Bucketed

variable {code : Key → Nat} {t : Bucketed}

/-- Adds a configuration. Its key is looked up in the bucket that its code tells. -/
def add (code : Key → Nat) (t : Bucketed) (c : Config) : Context.Merging Unit Bucketed := do
  let s := t.set.note c
  match (t.bucket (code c.key)).find? fun i => (s.configs.getD i default).sameKey c with
  | none =>
    return { set := { s with configs := s.configs.push c }
             bucket := fun h => if h = code c.key then t.bucket h ++ [s.configs.size] else t.bucket h }
  | some i =>
    let merged ← ConfigSet.absorb (!s.fullContext) (s.configs.getD i default) c
    return { t with set := { s with configs := s.configs.setIfInBounds i merged } }

/-- Each place is in the bucket of its key, and nothing else is there. -/
def InStep (code : Key → Nat) (bucket : Nat → List Nat) (keys : List Key) : Prop :=
  ∀ h i, i ∈ bucket h ↔ ∃ k, keys[i]? = some k ∧ code k = h

theorem InStep.concat {bucket : Nat → List Nat} {keys : List Key} (h : InStep code bucket keys) (k : Key) :
    InStep code (fun n => if n = code k then bucket n ++ [keys.length] else bucket n) (keys ++ [k]) := by
  have hlt {n i : Nat} (hi : i ∈ bucket n) : i < keys.length := by
    obtain ⟨k', hk', -⟩ := (h n i).mp hi
    exact (List.getElem?_eq_some_iff.mp hk').1
  intro n i
  rcases Nat.lt_trichotomy i keys.length with hi | rfl | hi
  · rw [List.getElem?_append_left hi, ← h n i]
    dsimp only
    split
    · simp [Nat.ne_of_lt hi]
    · rfl
  · have hnot : keys.length ∉ bucket n := fun hmem => Nat.lt_irrefl _ (hlt hmem)
    dsimp only
    split
    · rename_i hn
      simp [hn]
    · rename_i hn
      simp [hnot, Ne.symm hn]
  · have hnot : i ∉ bucket n := fun hmem => Nat.lt_irrefl _ (Nat.lt_trans hi (hlt hmem))
    rw [List.getElem?_eq_none (by simp; omega)]
    dsimp only
    split
    · simp [hnot, Nat.ne_of_gt hi]
    · simp [hnot]

theorem findIdx?_sameKey (hl : (l.map Config.key).Nodup) {i : Nat} :
    l.findIdx? (·.sameKey c) = some i ↔ (l.map Config.key)[i]? = some c.key := by
  rw [List.findIdx?_eq_some_iff_getElem]
  constructor
  · rintro ⟨hi, hkey, -⟩
    rw [List.getElem?_map, List.getElem?_eq_getElem hi, Option.map_some, Config.sameKey_iff.1 hkey]
  · intro hi
    obtain ⟨hlt, hkey⟩ := List.getElem?_eq_some_iff.mp hi
    rw [List.length_map] at hlt
    rw [List.getElem_map] at hkey
    refine ⟨hlt, Config.sameKey_iff.2 hkey, ?_⟩
    intro j hj hsame
    have heq : (l.map Config.key)[j]? = (l.map Config.key)[i]? := by
      rw [hi, List.getElem?_map, List.getElem?_eq_getElem (Nat.lt_trans hj hlt), Option.map_some, Config.sameKey_iff.1 hsame]
    have := (List.getElem?_inj (by rw [List.length_map]; omega) hl).mp heq
    omega

/-- The bucket has the place of a key, if there is one. -/
theorem find?_bucket (ht : InStep code t.bucket t.set.keys)
    (honce : t.set.keys.Nodup) (c : Config) :
    (t.bucket (code c.key)).find? (fun i => (t.set.configs.getD i default).sameKey c) = t.set.configs.findIdx? (·.sameKey c) := by
  have hread {i : Nat} {k : Key} (hi : t.set.keys[i]? = some k) :
      (t.set.configs.getD i default).key = k := by
    rw [List.getElem?_map, Array.getElem?_toList] at hi
    obtain ⟨d, hd, rfl⟩ := Option.map_eq_some_iff.mp hi
    rw [Array.getD_eq_getD_getElem?, hd, Option.getD_some]
  have hbucket {i : Nat} (hi : (t.bucket (code c.key)).find? (fun i => (t.set.configs.getD i default).sameKey c) = some i) :
      t.set.keys[i]? = some c.key := by
    obtain ⟨k, hk, -⟩ := (ht _ _).mp (List.mem_of_find?_eq_some hi)
    have hsame := List.find?_some hi
    rw [hk, ← hread hk, Config.sameKey_iff.1 hsame]
  rw [findIdx?_configs]
  refine Option.ext fun i => ?_
  rw [findIdx?_sameKey honce]
  refine ⟨hbucket, fun hi => ?_⟩
  cases hfind : (t.bucket (code c.key)).find? (fun i => (t.set.configs.getD i default).sameKey c) with
  | none =>
    have hnone := List.find?_eq_none.mp hfind i ((ht _ _).mpr ⟨c.key, hi, rfl⟩)
    exact absurd (Config.sameKey_iff.2 (hread hi)) hnone
  | some j =>
    have hj := hbucket hfind
    rw [(List.getElem?_inj (List.getElem?_eq_some_iff.mp hi).1 honce).mp (hi.trans hj.symm)]

theorem add_yields (h : Holds cs t.set) (ht : InStep code t.bucket t.set.keys)
    (hc : c.context.Tidy false) :
    ∃ bucket, Yields false (t.add code c) ⟨put t.set c, bucket⟩ ∧ InStep code bucket (put t.set c).keys := by
  have hkeys : (put t.set c).keys = _ := place_keys t.set.configs.toList c
  have hconfigs : (t.set.note c).configs = t.set.configs := rfl
  unfold add
  dsimp only
  rw [hkeys, hconfigs, find?_bucket ht h.pooled.once]
  cases hfind : t.set.configs.findIdx? (·.sameKey c) with
  | none =>
    have hnew : c.key ∉ t.set.keys := by
      rw [findIdx?_configs, List.findIdx?_eq_none_iff] at hfind
      intro hmem
      obtain ⟨d, hd, hkey⟩ := List.mem_map.mp hmem
      exact absurd (Config.sameKey_iff.2 hkey) (Bool.not_eq_true _ ▸ hfind d hd)
    rw [put_new hfind, if_neg hnew]
    refine ⟨_, .pure _, ?_⟩
    have hconcat := ht.concat c.key
    rwa [List.length_map, Array.length_toList] at hconcat
  | some i =>
    obtain ⟨hi, -⟩ := Array.findIdx?_eq_some_iff_getElem.mp hfind
    have hold : c.key ∈ t.set.keys := by
      rw [findIdx?_configs, findIdx?_sameKey h.pooled.once] at hfind
      exact List.mem_of_getElem? hfind
    rw [put_found hfind, if_pos hold, h.mode]
    exact ⟨t.bucket, .bind (absorb_yields (h.tidy i hi) hc) (.pure _), ht⟩

theorem foldlM_add_yields (h : Holds cs t.set) (ht : InStep code t.bucket t.set.keys) {more : List Config}
    (hmore : ∀ c ∈ more, c.context.Tidy false) :
    ∃ bucket, Yields false (more.foldlM (add code) t) ⟨more.foldl put t.set, bucket⟩ := by
  induction more generalizing cs t with
  | nil => exact ⟨t.bucket, .pure t⟩
  | cons c more ih =>
    obtain ⟨hc, hmore⟩ := List.forall_mem_cons.mp hmore
    obtain ⟨bucket, hadd, hstep⟩ := add_yields h ht hc
    obtain ⟨bucket', hrun⟩ := ih (t := ⟨put t.set c, bucket⟩) (h.put hc) hstep hmore
    rw [List.foldlM_cons, List.foldl_cons]
    exact ⟨bucket', .bind hadd hrun⟩

end Bucketed

/-! ## Any order of additions -/

/-- The same configurations added in another order are in the set in another order. -/
theorem Holds.perm {cs' : List Config} {s' : ConfigSet} (h : Holds cs s) (h' : Holds cs' s') (hcs : cs'.Perm cs) :
    s'.configs.toList.Perm s.configs.toList ∧ s' = { s with configs := s'.configs } := by
  have hmem (c : Config) : c ∈ cs ↔ c ∈ cs' := hcs.mem_iff.symm
  -- a configuration of one set has its key in the other, and the key says all
  have hsub {cs cs' : List Config} {s s' : ConfigSet} (h : Holds cs s) (h' : Holds cs' s') (hmem : ∀ c, c ∈ cs ↔ c ∈ cs')
      (d : Config) (hd : d ∈ s.configs.toList) : d ∈ s'.configs.toList := by
    have hkey : d.key ∈ s'.configs.toList.map Config.key := by
      rw [h'.pooled.keys, List.mem_eraseDups, List.mem_map]
      obtain ⟨c, hc, hcd, -⟩ := (h.pooled.sums d hd).outer
      exact ⟨c, (hmem c).mp hc, hcd⟩
    obtain ⟨d', hd', hsame⟩ := List.mem_map.mp hkey
    rw [(h.pooled.sums d hd).eq (h'.pooled.sums d' hd') hmem hsame.symm]
    exact hd'
  constructor
  · refine (List.perm_ext_iff_of_nodup ?_ ?_).mpr fun d => ⟨?_, ?_⟩
    · exact List.Pairwise.of_map Config.key (fun _ _ hne heq => hne (congrArg _ heq)) h'.pooled.once
    · exact List.Pairwise.of_map Config.key (fun _ _ hne heq => hne (congrArg _ heq)) h.pooled.once
    · exact hsub h' h (fun c => (hmem c).symm) d
    · exact hsub h h' hmem d
  · have hguards : s'.hasGuards = s.hasGuards := by
      rw [Bool.eq_iff_iff, h.guards, h'.guards]
      simp only [hmem]
    have hdips : s'.dips = s.dips := by
      rw [Bool.eq_iff_iff, h.dips, h'.dips]
      simp only [hmem]
    obtain ⟨full, configs, alt, conflicting, guards, dips⟩ := s
    obtain ⟨full', configs', alt', conflicting', guards', dips'⟩ := s'
    have hfull := h'.full.trans h.full.symm
    have halt := h'.plain.1.trans h.plain.1.symm
    have hconflicting := h'.plain.2.trans h.plain.2.symm
    dsimp only at hfull halt hconflicting hguards hdips
    subst hfull halt hconflicting hguards hdips
    rfl

/-- The merges that a merger remembers, if it remembers any, were done in full mode. -/
def Unmixed (m : Merger Unit) : Prop := m.memory = none ∨ Filled false m

theorem Unmixed.recalls {m : Merger Unit} (h : Unmixed m) : Context.Recalls false m := by
  rcases h with h | h
  · intro e he
    rw [h] at he
    cases he
  · exact h.recalls

/-- Additions to a full-context set merge without loss. They always succeed; then there is one configuration for each key that was
added, in the order of the first additions. It stands for the stacks of all configurations of its key, has left the rule as often
as the one that has most often, and is exempt if one of them is; and the set knows whether some configuration had a guard or had
left the rule. In another order the same configurations give the same set, but for the order of the list; and buckets, whatever
code of the keys sorts the places, lead to the same set. -/
theorem adding_unites (cs : List Config) (hcs : ∀ c ∈ cs, Formed false c.context) (m : Merger Unit) (hm : Unmixed m) :
    ∃ s m', (cs.foldlM add { fullContext := true }).outcome m = (.ok s, m') ∧
      s.keys = (cs.map Config.key).eraseDups ∧
      (∀ d ∈ s.configs.toList,
        d.context.stackSet false = { st | ∃ c ∈ cs, c.key = d.key ∧ st ∈ c.context.stackSet false } ∧
        (∃ c ∈ cs, c.key = d.key ∧ c.outer = d.outer) ∧ (∀ c ∈ cs, c.key = d.key → c.outer ≤ d.outer) ∧
        (d.exempt = true ↔ ∃ c ∈ cs, c.key = d.key ∧ c.exempt = true)) ∧
      (s.hasGuards = true ↔ ∃ c ∈ cs, c.guard ≠ .always) ∧ (s.dips = true ↔ ∃ c ∈ cs, 0 < c.outer) ∧
      (∀ cs' : List Config, cs'.Perm cs → ∀ m₁, Unmixed m₁ →
        ∃ s' m₂, (cs'.foldlM add { fullContext := true }).outcome m₁ = (.ok s', m₂) ∧
          s'.configs.toList.Perm s.configs.toList ∧ s' = { s with configs := s'.configs }) ∧
      ∀ code, ∃ bucket m₂,
        (cs.foldlM (Bucketed.add code) ⟨{ fullContext := true }, fun _ => []⟩).outcome m = (.ok ⟨s, bucket⟩, m₂) := by
  have htidy : ∀ c ∈ cs, c.context.Tidy false := fun c hc => (hcs c hc).tidy
  obtain ⟨hrun, hholds⟩ := foldlM_add_yields holds_new htidy
  rw [List.nil_append] at hholds
  obtain ⟨m', hout, -⟩ := hrun m hm.recalls
  refine ⟨_, m', hout, hholds.pooled.keys, ?_, hholds.guards, hholds.dips, ?_, ?_⟩
  · intro d hd
    have hsums := hholds.pooled.sums d hd
    exact ⟨Set.ext hsums.union, hsums.outer, hsums.outermost, hsums.exempt⟩
  · intro cs' hperm m₁ hm₁
    obtain ⟨hrun', hholds'⟩ := foldlM_add_yields holds_new fun c hc => htidy c (hperm.mem_iff.mp hc)
    rw [List.nil_append] at hholds'
    obtain ⟨m₂, hout', -⟩ := hrun' m₁ hm₁.recalls
    exact ⟨_, m₂, hout', hholds.perm hholds' hperm⟩
  · intro code
    have hempty : Bucketed.InStep code (fun _ => []) [] := by simp [Bucketed.InStep]
    obtain ⟨bucket, hrun'⟩ := Bucketed.foldlM_add_yields (t := ⟨{ fullContext := true }, fun _ => []⟩) holds_new hempty htidy
    obtain ⟨m₂, hout', -⟩ := hrun' m hm.recalls
    exact ⟨bucket, m₂, hout'⟩

/-- Two configurations of one key with different contexts, and one with a guard between them. -/
def threeAdditions : List Config :=
  [{ state := 4, alt := 1, context := Context.overRoot 5 },
    { state := 6, alt := 2, context := .root, guard := .precedence 3, outer := 1 },
    { state := 4, alt := 1, context := Context.overRoot 7, outer := 2, exempt := true }]

theorem adding_unites_three : (∀ c ∈ threeAdditions, Formed false c.context) ∧ Unmixed {} ∧
    ∃ s m', (threeAdditions.foldlM add { fullContext := true }).outcome {} = (.ok s, m') ∧
      s.keys = [(4, 1, .always), (6, 2, .precedence 3)] ∧ s.hasGuards = true ∧ s.dips = true ∧
      ∀ cs' : List Config, cs'.Perm threeAdditions → ∀ m₁, Unmixed m₁ →
        ∃ s' m₂, (cs'.foldlM add { fullContext := true }).outcome m₁ = (.ok s', m₂) ∧
          s'.configs.toList.Perm s.configs.toList ∧ s' = { s with configs := s'.configs } := by
  have hformed : ∀ c ∈ threeAdditions, Formed false c.context := by
    simp only [threeAdditions, List.forall_mem_cons]
    exact ⟨.atop .root (by decide), .root, .atop .root (by decide), by simp⟩
  have hunmixed : Unmixed {} := .inl rfl
  obtain ⟨s, m', hrun, hkeys, -, hguards, hdips, hperm, -⟩ := adding_unites threeAdditions hformed {} hunmixed
  exact ⟨hformed, hunmixed, s, m', hrun, hkeys, hguards.mpr (by decide), hdips.mpr (by decide), hperm⟩

end ConfigSet

end NimbleLang.Predict
