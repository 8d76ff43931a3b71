import Mathlib.Data.List.Nodup
import NimbleLang.Proofs.Rooms

/-!
What a log still tells of what was entered. It has one entry for each line and text, so of all that is entered for a
line and a text only the latest stays (`find?_addAll`), and a question about the log is a question about what was
entered last (`found_iff_latest`).

An analysis can find two things wrong with one phrase, and then the first of them is lost: a value of the wrong type that
is assigned after a return is in the log as unreachable only (`wrong_value_lost_to_unreachable`).
-/

namespace NimbleLang

/-! ## Keys -/

namespace Assoc

variable {κ ν : Type} [DecidableEq κ]

theorem mem_of_get? {k : κ} {v : ν} {m : List (κ × ν)} (h : get? k m = some v) : (k, v) ∈ m := by
  induction m with
  | nil => cases h
  | cons p m ih =>
    rw [get?] at h
    split at h
    · rename_i e
      cases h
      exact e ▸ List.mem_cons_self
    · exact List.mem_cons_of_mem _ (ih h)

/-- Where no key is twice, what is listed is what is found. -/
theorem get?_of_mem {k : κ} {v : ν} {m : List (κ × ν)} (hm : (m.map Prod.fst).Nodup) (h : (k, v) ∈ m) :
    get? k m = some v := by
  induction m with
  | nil => cases h
  | cons p m ih =>
    obtain ⟨hp, hm⟩ := List.nodup_cons.mp hm
    rcases List.mem_cons.mp h with rfl | h
    · exact if_pos rfl
    · have hne : p.1 ≠ k := fun e => hp (e ▸ List.mem_map_of_mem h)
      rw [get?, if_neg hne]
      exact ih hm h

theorem nodup_keys_put (k : κ) (v : ν) {m : List (κ × ν)} (hm : (m.map Prod.fst).Nodup) :
    ((put k v m).map Prod.fst).Nodup := by
  rw [keys_put]
  split
  · exact hm
  · rename_i hk
    exact List.nodup_append.mpr ⟨hm, List.nodup_singleton k, fun _ ha _ hb e => hk (List.mem_singleton.mp hb ▸ e ▸ ha)⟩

end Assoc

/-! ## What is entered -/

/-- Something that is entered in a log. -/
structure Addition where
  line : Int
  text : String
  category : Category
  message : String
  deriving DecidableEq, Repr, Inhabited

def Addition.entry (x : Addition) : LogEntry := { category := x.category, message := x.message }

def Finding.addition (f : Finding) : Addition :=
  { line := f.node.line, text := f.node.text, category := f.category, message := f.message }

/-- The latest of some additions for a line and a text. -/
def latest (xs : List Addition) (line : Int) (text : String) : Option Addition :=
  xs.reverse.find? fun x => x.line = line ∧ x.text = text

theorem latest_snoc (xs : List Addition) (x : Addition) (line : Int) (text : String) :
    latest (xs ++ [x]) line text = if x.line = line ∧ x.text = text then some x else latest xs line text := by
  rw [latest, List.reverse_append, List.reverse_singleton, List.singleton_append, List.find?_cons]
  by_cases h : x.line = line ∧ x.text = text
  · simp [h]
  · simp only [h, decide_false, if_false]
    rfl

theorem exists_latest {xs : List Addition} {x : Addition} (hx : x ∈ xs) :
    ∃ y, latest xs x.line x.text = some y := by
  rw [← Option.isSome_iff_exists, latest, List.find?_isSome]
  exact ⟨x, List.mem_reverse.mpr hx, by simp⟩

namespace ErrorLog

/-- The log of some additions, one after the other. -/
def addAll (xs : List Addition) : ErrorLog := xs.foldl (fun log x => log.add x.line x.text x.category x.message) {}

theorem addAll_snoc (xs : List Addition) (x : Addition) :
    addAll (xs ++ [x]) = (addAll xs).add x.line x.text x.category x.message := by
  simp [addAll]

theorem ofFindings_eq_addAll (fs : List Finding) : ofFindings fs = addAll (fs.map Finding.addition) := by
  rw [ofFindings, addAll, List.foldl_map]
  rfl

/-- The entry for a text on a line. -/
def find? (log : ErrorLog) (line : Int) (text : String) : Option LogEntry := Assoc.get? text (log.onLine line)

theorem onLine_add (log : ErrorLog) (line line' : Int) (text : String) (c : Category) (m : String) :
    (log.add line text c m).onLine line' =
      if line = line' then Assoc.put text { category := c, message := m } (log.onLine line) else log.onLine line' := by
  by_cases h : line = line'
  · subst h
    simp [add, onLine]
  · rw [if_neg h, onLine, add, Assoc.get?_put_of_ne (Ne.symm h), onLine]

theorem find?_add (log : ErrorLog) (line line' : Int) (text text' : String) (c : Category) (m : String) :
    (log.add line text c m).find? line' text' =
      if line = line' ∧ text = text' then some { category := c, message := m } else log.find? line' text' := by
  rw [find?, onLine_add]
  by_cases h : line = line'
  · subst h
    rw [if_pos rfl]
    by_cases h' : text = text'
    · subst h'
      simp
    · rw [if_neg fun e => h' e.2, Assoc.get?_put_of_ne (Ne.symm h'), find?]
  · rw [if_neg h, if_neg fun e => h e.1, find?]

/-- Of what was entered for a line and a text, the log has the latest. -/
theorem find?_addAll (xs : List Addition) (line : Int) (text : String) :
    (addAll xs).find? line text = (latest xs line text).map Addition.entry := by
  induction xs using List.reverseRecOn with
  | nil => rfl
  | append_singleton xs x ih =>
    rw [addAll_snoc, find?_add, latest_snoc, ih]
    split <;> rfl

theorem nodup_onLine_addAll (xs : List Addition) (line : Int) : (((addAll xs).onLine line).map Prod.fst).Nodup := by
  induction xs using List.reverseRecOn with
  | nil => exact List.nodup_nil
  | append_singleton xs x ih =>
    rw [addAll_snoc, onLine_add]
    split
    · rename_i e
      exact Assoc.nodup_keys_put _ _ (e ▸ ih)
    · exact ih

/-! ## Questions -/

theorem includesExactly_eq (log : ErrorLog) (c : Category) (line : Int) (text : String) :
    log.includesExactly c line text =
      match log.find? line text with
      | some e => .ok (e.category == c)
      | none => .error .unknownKey := by
  rw [includesExactly, find?]
  cases Assoc.get? text (log.onLine line) <;> rfl

/-- An entry of a category stands on a line if the latest addition for some text there is of the category. -/
theorem includesOnLine_iff_latest {log : ErrorLog} {xs : List Addition} {line : Int}
    (hnodup : ((log.onLine line).map Prod.fst).Nodup)
    (hfound : ∀ text, log.find? line text = (latest xs line text).map Addition.entry) (c : Category) :
    log.includesOnLine c line = true ↔ ∃ text y, latest xs line text = some y ∧ y.category = c := by
  rw [includesOnLine, List.any_eq_true]
  constructor
  · intro h
    obtain ⟨⟨text, e⟩, hmem, hc⟩ := h
    have he : log.find? line text = some e := Assoc.get?_of_mem hnodup hmem
    rw [hfound, Option.map_eq_some_iff] at he
    obtain ⟨y, hy, rfl⟩ := he
    exact ⟨text, y, hy, beq_iff_eq.mp hc⟩
  · intro h
    obtain ⟨text, y, hy, hc⟩ := h
    have he : log.find? line text = some y.entry := by rw [hfound, hy, Option.map_some]
    exact ⟨(text, y.entry), Assoc.mem_of_get? he, beq_iff_eq.mpr hc⟩

theorem includesOnLine_addAll (xs : List Addition) (c : Category) (line : Int) :
    (addAll xs).includesOnLine c line = true ↔ ∃ text y, latest xs line text = some y ∧ y.category = c :=
  includesOnLine_iff_latest (nodup_onLine_addAll xs line) (find?_addAll xs line) c

/-- What was entered can be found as far as nothing else was entered later for the same line and text. The question
    for one text always has an answer, and it is yes exactly if the latest addition for this line and text is of the
    same category; a line is found to have an entry of the category exactly if this is so for some text on it. Where
    the additions are all that an analysis found, the log is that of the analysis. -/
theorem found_iff_latest (xs : List Addition) {x : Addition} (hx : x ∈ xs) :
    (∃ y, latest xs x.line x.text = some y ∧
      (addAll xs).includesExactly x.category x.line x.text = .ok (y.category == x.category)) ∧
    ((addAll xs).includesOnLine x.category x.line = true ↔
      ∃ text y, latest xs x.line text = some y ∧ y.category = x.category) ∧
    ∀ a : Analysis, a.notes.findings.map Finding.addition = xs → a.log = addAll xs := by
  refine ⟨?_, includesOnLine_addAll xs x.category x.line, ?_⟩
  · obtain ⟨y, hy⟩ := exists_latest hx
    refine ⟨y, hy, ?_⟩
    rw [includesExactly_eq, find?_addAll, hy]
    rfl
  · intro a ha
    rw [Analysis.log, ofFindings_eq_addAll, ha]

/-- Two things entered for one text, and one for another text of the line. -/
def threeOnALine : List Addition :=
  [⟨2, "varx:Int=true", .duplicateName, "again"⟩, ⟨2, "y", .undefinedName, "unknown"⟩,
    ⟨2, "varx:Int=true", .assignToWrongType, "wrong"⟩]

theorem threeOnALine_found :
    (addAll threeOnALine).includesExactly .undefinedName 2 "y" = .ok true ∧
      (addAll threeOnALine).includesExactly .duplicateName 2 "varx:Int=true" = .ok false ∧
      (addAll threeOnALine).includesOnLine .undefinedName 2 = true := by
  obtain ⟨⟨y, hy, hexact⟩, honLine, -⟩ := found_iff_latest threeOnALine (x := ⟨2, "y", .undefinedName, "unknown"⟩)
    (by decide)
  obtain ⟨⟨z, hz, hlost⟩, -⟩ := found_iff_latest threeOnALine (x := ⟨2, "varx:Int=true", .duplicateName, "again"⟩)
    (by decide)
  cases hy
  cases hz
  exact ⟨hexact, hlost, honLine.mpr ⟨"y", _, rfl, rfl⟩⟩

end ErrorLog

namespace Analysis

/-- A main part that assigns a value of the wrong type after it has returned. -/
def assignedTooLate : Script where
  functions := []
  main :=
    { declared := [⟨⟨1, 0⟩, "x", .int, none⟩]
      block := ⟨⟨2, 4⟩, [.leave ⟨2, 4⟩ none, .assign ⟨3, 5⟩ "x" (.boolLiteral ⟨3, 7⟩ "true")]⟩ }

/-- Not all that is found stays in the log: that a value has the wrong type is lost to the finding that the statement is
    unreachable, which comes later. -/
theorem wrong_value_lost_to_unreachable :
    ∃ a, run (.script assignedTooLate) false = .ok a ∧ ∃ f ∈ a.notes.findings, f.category = .assignToWrongType ∧
      a.log.includesExactly f.category f.node.line f.node.text = .ok false ∧
      a.log.includesOnLine f.category f.node.line = false := by
  obtain ⟨t, h, -⟩ := run_script assignedTooLate
  exact ⟨_, h, _, List.mem_cons_self, rfl, rfl, rfl⟩

end Analysis

end NimbleLang
