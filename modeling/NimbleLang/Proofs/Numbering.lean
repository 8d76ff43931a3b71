import NimbleLang.Proofs.LogEntries
import NimbleLang.Proofs.Resolution

/-!
The numbers of the symbols of one scope, whatever is defined in it and however often. A definition takes the place of an earlier
one of its name, which may have been of another kind, so neither the order of the symbols nor their count tells their numbers.
The definitions do: the number of a symbol is how many of its kind were made before its name was defined last. So two symbols of
one kind never have the same number, and the one defined later has the larger one (`numbered_by_age`).
-/

namespace NimbleLang

namespace Definition

/-- Symbols that are picked out come from definitions of one kind, and their numbers count the earlier ones of the kind. -/
def Counts (kind : Definition → Bool) (pick : Symbol → Bool) (ds : List Definition) : Prop :=
  ∀ d ∈ ds, ∀ earlier, pick (d.symbol earlier) → kind d ∧ (d.symbol earlier).index = earlier.countP kind

variable {kind : Definition → Bool} {pick : Symbol → Bool} {ds : List Definition} {name name' : String} {x y : Symbol}

theorem name_of_latestOf (h : latestOf name ds = some x) : x.name = name := by
  induction ds with
  | nil => cases h
  | cons d ds ih =>
    rw [latestOf] at h
    split at h
    case isTrue hd => exact Option.some.inj h ▸ hd
    case isFalse => exact ih h

theorem index_lt (hc : Counts kind pick ds) (h : latestOf name ds = some x) (hx : pick x) : x.index < ds.countP kind := by
  induction ds with
  | nil => cases h
  | cons d ds ih =>
    obtain ⟨hd, hds⟩ := List.forall_mem_cons.mp hc
    rw [latestOf] at h
    split at h
    · obtain rfl := Option.some.inj h
      obtain ⟨hkind, hindex⟩ := hd ds hx
      rw [hindex, List.countP_cons_of_pos hkind]
      exact Nat.lt_succ_self _
    · rw [List.countP_cons]
      exact Nat.lt_of_lt_of_le (ih hds h) (Nat.le_add_right ..)

/-- Of two names, the one that was defined last has the larger number. -/
theorem index_by_age (hc : Counts kind pick ds) (h : latestOf name ds = some x) (h' : latestOf name' ds = some y) (hx : pick x)
    (hy : pick y) (hne : name ≠ name') :
    ds.findIdx (·.name = name') < ds.findIdx (·.name = name) ∧ x.index < y.index ∨
      ds.findIdx (·.name = name) < ds.findIdx (·.name = name') ∧ y.index < x.index := by
  induction ds with
  | nil => cases h
  | cons d ds ih =>
    obtain ⟨hd, hds⟩ := List.forall_mem_cons.mp hc
    rw [latestOf] at h h'
    by_cases hname : d.name = name
    · rw [if_pos hname] at h
      rw [if_neg (hname ▸ hne)] at h'
      obtain rfl := Option.some.inj h
      rw [(hd ds hx).2]
      exact .inr ⟨by simp [List.findIdx_cons, hname, hne], index_lt hds h' hy⟩
    · rw [if_neg hname] at h
      by_cases hname' : d.name = name'
      · rw [if_pos hname'] at h'
        obtain rfl := Option.some.inj h'
        rw [(hd ds hy).2]
        exact .inl ⟨by simp [List.findIdx_cons, hname', hne.symm], index_lt hds h hx⟩
      · rw [if_neg hname'] at h'
        simpa [List.findIdx_cons, hname, hname'] using ih hds h h'

end Definition

namespace Scope

open Definition

/-- The scope after some definitions in it, made in their order. -/
def defineAll (s : Scope) (ds : List Definition) : Scope := ds.foldl (fun s d => s.define d.name d.type d.isParameter) s

/-- How many definitions were made after the last one of a name. -/
def age (ds : List Definition) (name : String) : Nat := ds.reverse.findIdx (·.name = name)

/-- Symbols of one kind are numbered apart, each below the count of definitions of the kind, and those defined later higher. -/
structure Numbered (ds : List Definition) (kind : Definition → Bool) (xs : List Symbol) : Prop where
  apart : (xs.map (·.index)).Nodup
  below : ∀ x ∈ xs, x.index < ds.countP kind
  later : ∀ x ∈ xs, ∀ y ∈ xs, age ds y.name < age ds x.name → x.index < y.index

variable {s : Scope} {ds : List Definition}

theorem nodup_names_define (h : (s.symbols.map Prod.fst).Nodup) (d : Definition) :
    ((s.define d.name d.type d.isParameter).symbols.map Prod.fst).Nodup := by
  obtain ⟨name, type, isParameter⟩ := d
  cases isParameter with
  | true => exact Assoc.nodup_keys_put _ _ h
  | false => rcases type with _ | _ | _ <;> exact Assoc.nodup_keys_put _ _ h

theorem defineAll_records (h : Records s ds) (hs : (s.symbols.map Prod.fst).Nodup) (later : List Definition) :
    Records (s.defineAll later) (later.reverse ++ ds) ∧ ((s.defineAll later).symbols.map Prod.fst).Nodup := by
  induction later generalizing s ds with
  | nil => exact ⟨h, hs⟩
  | cons d later ih =>
    rw [List.reverse_cons, List.append_assoc]
    exact ih (h.define d) (nodup_names_define hs d)

theorem Records.numbered (h : Records s ds.reverse) (hs : (s.symbols.map Prod.fst).Nodup) {kind : Definition → Bool}
    {pick : Symbol → Bool} (hc : Counts kind pick ds.reverse) : Numbered ds kind ((s.symbols.map (·.2)).filter pick) := by
  have hlatest (p : String × Symbol) (hp : p ∈ s.symbols) : latestOf p.1 ds.reverse = some p.2 :=
    (h.find? p.1).symm.trans (Assoc.get?_of_mem hs hp)
  have hpicked (x : Symbol) (hx : x ∈ (s.symbols.map (·.2)).filter pick) : latestOf x.name ds.reverse = some x ∧ pick x := by
    obtain ⟨hx, hpick⟩ := List.mem_filter.mp hx
    obtain ⟨p, hp, rfl⟩ := List.mem_map.mp hx
    exact ⟨name_of_latestOf (hlatest p hp) ▸ hlatest p hp, hpick⟩
  refine ⟨?_, fun x hx => ?_, fun x hx y hy hage => ?_⟩
  · rw [List.Nodup, List.pairwise_map, List.pairwise_filter, List.pairwise_map]
    refine (List.pairwise_map.mp hs).imp_of_mem fun hp hq hne hpick hpick' => ?_
    exact (index_by_age hc (hlatest _ hp) (hlatest _ hq) hpick hpick' hne).elim (fun h => Nat.ne_of_lt h.2) fun h => Nat.ne_of_gt h.2
  · rw [← List.countP_reverse]
    exact index_lt hc (hpicked x hx).1 (hpicked x hx).2
  · have hne : x.name ≠ y.name := fun e => Nat.lt_irrefl _ (e ▸ hage)
    rcases index_by_age hc (hpicked x hx).1 (hpicked y hy).1 (hpicked x hx).2 (hpicked y hy).2 hne with h | h
    · exact h.2
    · exact absurd h.1 (Nat.lt_asymm hage)

/-- Whatever is defined in a scope, in whatever order and however often: its parameters and its variables are each numbered apart,
below the count of definitions of their kind, and by the age of their latest definitions. -/
theorem numbered_by_age (name : String) (returns : Option SymbolType) (ds : List Definition) (h : ∀ d ∈ ds, d.type.isSome) :
    Numbered ds (·.isParameter) (defineAll { name, returns } ds).parameterSymbols ∧
      Numbered ds isVariable (defineAll { name, returns } ds).localVariables := by
  obtain ⟨hrecords, hkeys⟩ := defineAll_records (Records.empty name returns) List.nodup_nil ds
  rw [List.append_nil] at hrecords
  refine ⟨hrecords.numbered hkeys fun d _ earlier hd => ⟨hd, if_pos hd⟩, hrecords.numbered hkeys fun d hd earlier hpick => ?_⟩
  have hkind : d.isVariable := by
    obtain ⟨t, ht⟩ := Option.isSome_iff_exists.mp (h d (List.mem_reverse.mp hd))
    simpa [symbol, Symbol.isFunction, isVariable, ht] using hpick
  have hparameter : ¬ d.isParameter := by simp_all [isVariable]
  exact ⟨hkind, (if_neg hparameter).trans (if_pos hkind)⟩

/-- A parameter that becomes a variable, and a variable that becomes a parameter and a variable again. -/
def changing : List Definition :=
  [⟨"a", some (.value .int), true⟩, ⟨"b", some (.value .int), false⟩, ⟨"b", some (.value .bool), true⟩,
    ⟨"f", some (.function [] .int), true⟩, ⟨"a", some (.value .int), false⟩, ⟨"b", some (.value .int), false⟩]

theorem changing_numbered :
    (defineAll { name := "f", returns := none } changing).localVariables.map (·.index) = [1, 2] ∧
      Numbered changing isVariable (defineAll { name := "f", returns := none } changing).localVariables :=
  ⟨by decide, (numbered_by_age "f" none changing (by decide)).2⟩

end Scope

end NimbleLang
