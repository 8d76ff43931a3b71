import Mathlib.Data.Finset.Card
import NimbleLang.Proofs.LogEntries
import NimbleLang.Proofs.Runs

/-!
A log that is kept while things are entered and asked in any order. Asking changes the log: a line that is looked at becomes
one of its lines, also if nothing was ever entered for it. No answer shows this. What the log stands for is the list of all
additions so far (`Keeps`), which an inquiry leaves as it is, and every answer follows from that list:

- an entry is found under a line and a text if something was entered for them, and it is the latest;
- there are as many entries as different lines with texts;
- entries are listed by line, and within a line by the first addition for the text.

`inquiries_leave_no_trace` says so of every sequence of acts, and that an inquiry can be left out of it without a change of any
other answer.
-/

namespace NimbleLang

/-! ## Keys in their order -/

namespace Assoc

variable {κ ν : Type} [DecidableEq κ]

theorem get?_isSome_iff {k : κ} {m : List (κ × ν)} : (get? k m).isSome ↔ k ∈ m.map Prod.fst := by
  induction m with
  | nil => simp [get?]
  | cons p m ih =>
    rw [get?]
    split
    · rename_i h
      simp [h]
    · rename_i h
      rw [ih, List.map_cons, List.mem_cons, or_iff_right (Ne.symm h)]

end Assoc

/-! ## What is done with a log -/

inductive LogAct where
  | enter (x : Addition)
  | ask (q : ErrorLog.Inquiry)
  deriving DecidableEq, Repr, Inhabited

namespace LogAct

def run : LogAct → Run ErrorLog (Option ErrorLog.Reply)
  | .enter x => do
    modify fun log => log.add x.line x.text x.category x.message
    return none
  | .ask q => do return some (← ErrorLog.ask q)

def addition? : LogAct → Option Addition
  | .enter x => some x
  | .ask _ => none

/-- What was entered, in order. -/
def additions (acts : List LogAct) : List Addition := acts.filterMap addition?

/-- The answers to some acts, each given by the log as the acts before it left it. -/
def answers (log : ErrorLog) : List LogAct → List (Except Fault (Option ErrorLog.Reply))
  | [] => []
  | act :: rest => (act.run.outcome log).1 :: answers (act.run.outcome log).2 rest

/-- The log that some acts leave. -/
def logAfter (log : ErrorLog) : List LogAct → ErrorLog
  | [] => log
  | act :: rest => logAfter (act.run.outcome log).2 rest

theorem answers_append (log : ErrorLog) (before after : List LogAct) :
    answers log (before ++ after) = answers log before ++ answers (logAfter log before) after := by
  induction before generalizing log with
  | nil => rfl
  | cons act before ih => rw [List.cons_append, answers, ih, answers, logAfter, List.cons_append]

end LogAct

/-! ## What a log stands for -/

/-- The place of the first addition for a line and a text. -/
def firstFor (xs : List Addition) (line : Int) (text : String) : Nat := xs.findIdx fun x => x.line = line ∧ x.text = text

variable {line : Int} {text : String} {y x : Addition}

theorem latest_isSome {xs : List Addition} :
    (latest xs line text).isSome ↔ ∃ x ∈ xs, x.line = line ∧ x.text = text := by
  rw [latest, List.find?_isSome]
  simp only [List.mem_reverse, decide_eq_true_eq]

/-- The latest addition for a line and a text is one for them. -/
theorem latest_key {xs : List Addition} (h : latest xs line text = some y) :
    y.line = line ∧ y.text = text := by
  simpa using List.find?_some h

theorem Addition.eq_of_entry (hline : x.line = y.line) (htext : x.text = y.text) (hentry : x.entry = y.entry) :
    x = y := by
  cases x
  cases y
  cases hline
  cases htext
  cases hentry
  rfl

/-- The first addition for a line and a text stays the first one. -/
theorem firstFor_snoc {xs : List Addition} (h : (latest xs line text).isSome) (x : Addition) :
    firstFor (xs ++ [x]) line text = firstFor xs line text := by
  obtain ⟨y, hy, hkey⟩ := latest_isSome.1 h
  rw [firstFor, List.findIdx_append, if_pos (List.findIdx_lt_length_of_exists ⟨y, hy, by simpa using hkey⟩), firstFor]

theorem firstFor_lt {xs : List Addition} (h : (latest xs line text).isSome) :
    firstFor xs line text < xs.length := by
  obtain ⟨y, hy, hkey⟩ := latest_isSome.1 h
  exact List.findIdx_lt_length_of_exists ⟨y, hy, by simpa using hkey⟩

theorem firstFor_new {xs : List Addition} (h : latest xs x.line x.text = none) :
    firstFor (xs ++ [x]) x.line x.text = xs.length := by
  have hnone : ∀ y ∈ xs, ¬ (y.line = x.line ∧ y.text = x.text) := by
    simpa [latest] using h
  have hlength : firstFor xs x.line x.text = xs.length := by
    rw [firstFor, List.findIdx_eq_length]
    simpa using hnone
  rw [firstFor, List.findIdx_append, ← firstFor, hlength, if_neg (Nat.lt_irrefl _)]
  simp

namespace ErrorLog

/-- The log stands for these additions. Some of its lines may have no entries. -/
structure Keeps (log : ErrorLog) (xs : List Addition) : Prop where
  lines : (log.lines.map Prod.fst).Nodup
  order : ∀ line, ((log.onLine line).map Prod.fst).Pairwise fun t t' => firstFor xs line t < firstFor xs line t'
  found : ∀ line text, log.find? line text = (latest xs line text).map Addition.entry

theorem onLine_visit (log : ErrorLog) (line line' : Int) : (log.visit line).onLine line' = log.onLine line' := by
  by_cases h : line' = line
  · subst h
    rw [onLine, visit, Assoc.get?_put_self, Option.getD_some]
  · rw [onLine, visit, Assoc.get?_put_of_ne h, onLine]

namespace Keeps

variable {log : ErrorLog} {xs : List Addition}

theorem new : Keeps {} [] := ⟨List.nodup_nil, fun _ => .nil, fun _ _ => rfl⟩

theorem visit (h : Keeps log xs) (line : Int) : Keeps (log.visit line) xs where
  lines := Assoc.nodup_keys_put _ _ h.lines
  order line' := by
    rw [onLine_visit]
    exact h.order line'
  found line' text := by
    rw [find?, onLine_visit]
    exact h.found line' text

variable {line : Int} {text : String}

theorem entered_of_mem (h : Keeps log xs) (ht : text ∈ (log.onLine line).map Prod.fst) :
    (latest xs line text).isSome := by
  rw [← Assoc.get?_isSome_iff] at ht
  rwa [← Option.isSome_map, ← h.found, find?]

/-- On each line the texts stay in the order of their first additions. -/
theorem order_snoc (h : Keeps log xs) (x : Addition) (line : Int) :
    ((log.onLine line).map Prod.fst).Pairwise fun t t' => firstFor (xs ++ [x]) line t < firstFor (xs ++ [x]) line t' := by
  refine (h.order line).imp_of_mem fun ht ht' hlt => ?_
  rwa [firstFor_snoc (h.entered_of_mem ht), firstFor_snoc (h.entered_of_mem ht')]

theorem add (h : Keeps log xs) (x : Addition) : Keeps (log.add x.line x.text x.category x.message) (xs ++ [x]) where
  lines := Assoc.nodup_keys_put _ _ h.lines
  order line := by
    rw [onLine_add]
    split
    · rename_i hline
      subst hline
      rw [Assoc.keys_put]
      split
      · exact h.order_snoc x x.line
      · rename_i hnew
        have hnone : latest xs x.line x.text = none := by
          rw [← Assoc.get?_isSome_iff, ← find?, h.found] at hnew
          simpa using hnew
        refine List.pairwise_append.mpr ⟨h.order_snoc x x.line, List.pairwise_singleton _ _, fun t ht t' ht' => ?_⟩
        rw [List.mem_singleton.mp ht', firstFor_new hnone, firstFor_snoc (h.entered_of_mem ht)]
        exact firstFor_lt (h.entered_of_mem ht)
    · exact h.order_snoc x line
  found line text := by
    rw [find?_add, latest_snoc, h.found]
    split <;> rfl

/-! ## The entries of a log -/

theorem nodup_texts (h : Keeps log xs) (line : Int) : ((log.onLine line).map Prod.fst).Nodup :=
  (h.order line).imp fun hlt => fun e => Nat.lt_irrefl _ (e ▸ hlt)

theorem mem_onLine (h : Keeps log xs) {e : LogEntry} :
    (text, e) ∈ log.onLine line ↔ log.find? line text = some e :=
  ⟨Assoc.get?_of_mem (h.nodup_texts line), Assoc.mem_of_get?⟩

end Keeps

/-- An entry comes before another one: it is of an earlier line or, on the same line, of a text that was entered earlier. -/
def Before (xs : List Addition) (a b : Int × String × LogEntry) : Prop :=
  a.1 < b.1 ∨ a.1 = b.1 ∧ firstFor xs a.1 a.2.1 < firstFor xs b.1 b.2.1

/-- The entries of all lines, as the lines stand in the log. -/
def listed (log : ErrorLog) : List (Int × String × LogEntry) :=
  log.lines.flatMap fun (line, es) => es.map fun (text, e) => (line, text, e)

theorem entries_perm_listed (log : ErrorLog) : log.entries.Perm log.listed := (List.mergeSort_perm _ _).flatMap_right _

theorem total_eq_length (log : ErrorLog) : log.total = log.entries.length := by
  rw [log.entries_perm_listed.length_eq, total, listed]
  induction log.lines with
  | nil => rfl
  | cons l ls ih => rw [List.foldr_cons, ih, List.flatMap_cons, List.length_append, List.length_map]

namespace Keeps

variable {log log' : ErrorLog} {xs : List Addition}

section

variable (h : Keeps log xs)
include h

theorem mem_entries {line : Int} {text : String} {e : LogEntry} : (line, text, e) ∈ log.entries ↔ log.find? line text = some e := by
  rw [log.entries_perm_listed.mem_iff, ← h.mem_onLine, onLine]
  constructor
  · intro hmem
    obtain ⟨⟨l, es⟩, hl, he⟩ := List.mem_flatMap.mp hmem
    obtain ⟨⟨t, e'⟩, ht, heq⟩ := List.mem_map.mp he
    cases heq
    rwa [Assoc.get?_of_mem h.lines hl]
  · intro hmem
    cases hes : Assoc.get? line log.lines with
    | none =>
      rw [hes] at hmem
      cases hmem
    | some es =>
      rw [hes] at hmem
      exact List.mem_flatMap.mpr ⟨(line, es), Assoc.mem_of_get? hes, List.mem_map.mpr ⟨(text, e), hmem, rfl⟩⟩

theorem entries_ascend : log.entries.Pairwise (Before xs) := by
  have hsorted := @List.pairwise_mergeSort _ (fun a b : Int × List (String × LogEntry) => decide (a.1 ≤ b.1))
    (by simpa using fun a b c => Int.le_trans) (by simpa using fun a b => Int.le_total a b) log.lines
  have hnodup : ((log.lines.mergeSort fun a b => a.1 ≤ b.1).map Prod.fst).Nodup :=
    ((List.mergeSort_perm _ _).map _).nodup_iff.mpr h.lines
  refine List.pairwise_flatMap.mpr ⟨fun l hl => ?_, ?_⟩
  · have honLine : log.onLine l.1 = l.2 := by
      rw [onLine, Assoc.get?_of_mem h.lines (List.mem_mergeSort.mp hl), Option.getD_some]
    have horder := h.order l.1
    rw [honLine, List.pairwise_map] at horder
    exact List.pairwise_map.mpr (horder.imp fun hlt => .inr ⟨rfl, hlt⟩)
  · refine (hsorted.and (List.pairwise_map.mp hnodup)).imp fun {l l'} hlt a ha b hb => ?_
    obtain ⟨-, -, rfl⟩ := List.mem_map.mp ha
    obtain ⟨-, -, rfl⟩ := List.mem_map.mp hb
    exact .inl (Int.lt_iff_le_and_ne.mpr ⟨of_decide_eq_true hlt.1, hlt.2⟩)

theorem nodup_entries : (log.entries.map fun a => (a.1, a.2.1)).Nodup := by
  refine List.pairwise_map.mpr (h.entries_ascend.imp fun hbefore heq => ?_)
  obtain ⟨hline, htext⟩ := Prod.mk.inj heq
  rcases hbefore with hlt | ⟨-, hlt⟩
  · omega
  · rw [hline, htext] at hlt
    exact Nat.lt_irrefl _ hlt

/-- The additions determine the entries and their order. -/
theorem entries_eq (h' : Keeps log' xs) : log.entries = log'.entries := by
  have hperm : log.entries.Perm log'.entries := by
    refine (List.perm_ext_iff_of_nodup h.nodup_entries.of_map h'.nodup_entries.of_map).mpr fun a => ?_
    rw [h.mem_entries, h'.mem_entries, h.found, h'.found]
  refine hperm.eq_of_pairwise (fun a b _ _ hab hba => ?_) h.entries_ascend h'.entries_ascend
  rcases hab with hlt | ⟨hline, hlt⟩
  · rcases hba with hlt' | ⟨hline', -⟩ <;> omega
  · rcases hba with hlt' | ⟨-, hlt'⟩ <;> omega

/-- There are as many entries as different lines with texts were entered. -/
theorem total_eq_card : log.total = (xs.map fun x => (x.line, x.text)).toFinset.card := by
  have hkeys : (xs.map fun x => (x.line, x.text)).toFinset = (log.entries.map fun a => (a.1, a.2.1)).toFinset := by
    ext ⟨line, text⟩
    have hentered : (∃ e, (line, text, e) ∈ log.entries) ↔ ∃ x ∈ xs, x.line = line ∧ x.text = text := by
      rw [← latest_isSome, ← Option.isSome_map, ← h.found, Option.isSome_iff_exists]
      exact exists_congr fun e => h.mem_entries
    simpa using hentered.symm
  rw [total_eq_length, hkeys, List.toFinset_card_of_nodup h.nodup_entries, List.length_map]

/-- The log lists the latest additions, by line and within a line by their first additions. -/
theorem spell_eq : ∃ ys : List Addition, (∀ y, y ∈ ys ↔ latest xs y.line y.text = some y) ∧
    ys.Pairwise (fun y y' => y.line < y'.line ∨ y.line = y'.line ∧ firstFor xs y.line y.text < firstFor xs y'.line y'.text) ∧
    log.spell = Text.joinWith "\n" (ys.map fun y => spellEntry y.line y.text y.entry) := by
  refine ⟨log.entries.map fun a => ⟨a.1, a.2.1, a.2.2.category, a.2.2.message⟩, fun y => ?_, ?_, ?_⟩
  · have hmem : y ∈ log.entries.map (fun a => (⟨a.1, a.2.1, a.2.2.category, a.2.2.message⟩ : Addition)) ↔
        (y.line, y.text, y.entry) ∈ log.entries := by
      refine List.mem_map.trans ⟨?_, fun hy => ⟨_, hy, rfl⟩⟩
      rintro ⟨a, ha, rfl⟩
      exact ha
    rw [hmem, h.mem_entries, h.found, Option.map_eq_some_iff]
    constructor
    · rintro ⟨y', hy', hentry⟩
      rw [hy', Addition.eq_of_entry (latest_key hy').1 (latest_key hy').2 hentry]
    · exact fun hy => ⟨y, hy, rfl⟩
  · exact List.pairwise_map.mpr h.entries_ascend
  · rw [spell, List.map_map]
    rfl

end

end Keeps

/-! ## Inquiries -/

theorem outcome_exactly (log : ErrorLog) (c : Category) (line : Int) (text : String) :
    (ask (.exactly c line text)).outcome log = ((log.includesExactly c line text).map .flag, log.visit line) := by
  have hsame : (log.visit line).includesExactly c line text = log.includesExactly c line text := by
    rw [includesExactly, onLine_visit, includesExactly]
  have hrun : (ask (.exactly c line text)).outcome log =
      (((log.visit line).includesExactly c line text).map .flag, log.visit line) := by
    rw [ask, Run.outcome_modify_bind, Run.outcome_get_bind, Run.outcome_bind,
      Run.outcome_lift]
    cases (log.visit line).includesExactly c line text <;> rfl
  rw [hrun, hsame]

theorem outcome_onLine (log : ErrorLog) (c : Category) (line : Int) :
    (ask (.onLine c line)).outcome log = (.ok (.flag (log.includesOnLine c line)), log.visit line) := by
  have hsame : (log.visit line).includesOnLine c line = log.includesOnLine c line := by
    rw [includesOnLine, onLine_visit, includesOnLine]
  rw [← hsame]
  rfl

theorem outcome_total (log : ErrorLog) : (ask .total).outcome log = (.ok (.number log.total), log) := rfl

theorem outcome_spell (log : ErrorLog) : (ask .spell).outcome log = (.ok (.text log.spell), log) := rfl

namespace Keeps

variable {log log' : ErrorLog} {xs : List Addition}

/-- An inquiry, whether it has an answer or not, changes nothing of what the log stands for. -/
theorem ask (h : Keeps log xs) (q : Inquiry) : Keeps ((ErrorLog.ask q).outcome log).2 xs := by
  cases q with
  | exactly c line text =>
    rw [outcome_exactly]
    exact h.visit line
  | onLine c line =>
    rw [outcome_onLine]
    exact h.visit line
  | total | spell => exact h

theorem includesOnLine_iff (h : Keeps log xs) (c : Category) (line : Int) :
    log.includesOnLine c line = true ↔ ∃ text y, latest xs line text = some y ∧ y.category = c :=
  includesOnLine_iff_latest (h.nodup_texts line) (h.found line) c

theorem includesExactly_eq (h : Keeps log xs) (c : Category) (line : Int) (text : String) :
    log.includesExactly c line text = (Fault.unknownKey.unless (latest xs line text)).map fun y => y.category == c := by
  rw [ErrorLog.includesExactly_eq, h.found]
  cases latest xs line text <;> rfl

/-- Two logs that stand for the same additions give the same answers. -/
theorem ask_eq (h : Keeps log xs) (h' : Keeps log' xs) (q : Inquiry) :
    ((ErrorLog.ask q).outcome log).1 = ((ErrorLog.ask q).outcome log').1 := by
  cases q with
  | exactly c line text => rw [outcome_exactly, outcome_exactly, h.includesExactly_eq, h'.includesExactly_eq]
  | onLine c line =>
    have hsame : log.includesOnLine c line = log'.includesOnLine c line := by
      rw [Bool.eq_iff_iff, h.includesOnLine_iff, h'.includesOnLine_iff]
    rw [outcome_onLine, outcome_onLine, hsame]
  | total => rw [outcome_total, outcome_total, h.total_eq_card, h'.total_eq_card]
  | spell => rw [outcome_spell, outcome_spell, spell, spell, h.entries_eq h']

end Keeps

end ErrorLog

namespace LogAct

open ErrorLog

variable {log log' : ErrorLog} {xs : List Addition}

theorem outcome_ask (q : Inquiry) (log : ErrorLog) :
    (run (.ask q)).outcome log = (((ErrorLog.ask q).outcome log).1.map some, ((ErrorLog.ask q).outcome log).2) := by
  rw [run, Run.outcome_bind]
  rcases (ErrorLog.ask q).outcome log with ⟨_ | _, _⟩ <;> rfl

/-- What one act does to a log: it stands for one addition more, or for the same as before. -/
theorem keeps_run (h : Keeps log xs) (act : LogAct) : Keeps (act.run.outcome log).2 (xs ++ act.addition?.toList) := by
  cases act with
  | enter x => exact h.add x
  | ask q =>
    rw [outcome_ask, addition?, Option.toList_none, List.append_nil]
    exact h.ask q

theorem keeps_logAfter (h : Keeps log xs) (acts : List LogAct) : Keeps (logAfter log acts) (xs ++ additions acts) := by
  induction acts generalizing log xs with
  | nil =>
    rw [additions, List.filterMap_nil, List.append_nil]
    exact h
  | cons act acts ih =>
    have hrest := ih (keeps_run h act)
    rw [List.append_assoc] at hrest
    cases act <;> exact hrest

theorem run_eq (h : Keeps log xs) (h' : Keeps log' xs) (act : LogAct) : (act.run.outcome log).1 = (act.run.outcome log').1 := by
  cases act with
  | enter x => rfl
  | ask q => rw [outcome_ask, outcome_ask, h.ask_eq h' q]

/-- Two logs that stand for the same additions give the same answers to all that is done with them. -/
theorem answers_eq (h : Keeps log xs) (h' : Keeps log' xs) (acts : List LogAct) : answers log acts = answers log' acts := by
  induction acts generalizing log log' xs with
  | nil => rfl
  | cons act acts ih => rw [answers, answers, run_eq h h' act, ih (keeps_run h act) (keeps_run h' act)]

/-- The answer of a new log to an inquiry after some acts. -/
def answerAfter (before : List LogAct) (q : Inquiry) : Except Fault Reply := ((ErrorLog.ask q).outcome (logAfter {} before)).1

/-- In any sequence of acts on a new log, the answer to an inquiry hangs on what was entered before it only. An entry for a
line and a text is missing exactly if none was entered, and else it is the latest; a line has an entry of a category if the
latest addition for some text there is of the category; there is one entry for each line with a text; and the latest
additions are listed by line and, within a line, by the first addition for the text. Leaving an inquiry out changes no
other answer. -/
theorem inquiries_leave_no_trace (before : List LogAct) :
    (∀ c line text,
      (answerAfter before (.exactly c line text) = .error .unknownKey ↔
        ∀ x ∈ additions before, ¬ (x.line = line ∧ x.text = text)) ∧
      ∀ y, latest (additions before) line text = some y →
        answerAfter before (.exactly c line text) = .ok (.flag (y.category == c))) ∧
    (∀ c line, ∃ b, answerAfter before (.onLine c line) = .ok (.flag b) ∧
      (b = true ↔ ∃ text y, latest (additions before) line text = some y ∧ y.category = c)) ∧
    answerAfter before .total = .ok (.number ((additions before).map fun x => (x.line, x.text)).toFinset.card) ∧
    (∃ ys : List Addition,
      (∀ y, y ∈ ys ↔ latest (additions before) y.line y.text = some y) ∧
      ys.Pairwise (fun y y' => y.line < y'.line ∨ y.line = y'.line ∧
        firstFor (additions before) y.line y.text < firstFor (additions before) y'.line y'.text) ∧
      answerAfter before .spell = .ok (.text (Text.joinWith "\n" (ys.map fun y => spellEntry y.line y.text y.entry)))) ∧
    ∀ q after, ∃ rest,
      answers {} (before ++ .ask q :: after) = answers {} before ++ (answerAfter before q).map some :: rest ∧
      answers {} (before ++ after) = answers {} before ++ rest := by
  have h : Keeps (logAfter {} before) (additions before) := keeps_logAfter .new before
  refine ⟨fun c line text => ?_, fun c line => ⟨_, congrArg Prod.fst (outcome_onLine _ c line), h.includesOnLine_iff c line⟩,
    ?_, ?_, fun q after => ?_⟩
  · rw [answerAfter, outcome_exactly, h.includesExactly_eq]
    constructor
    · have hnone : latest (additions before) line text = none ↔ ∀ x ∈ additions before, ¬ (x.line = line ∧ x.text = text) := by
        simp [latest]
      rw [← hnone]
      cases latest (additions before) line text <;> simp [Fault.unless, Except.map]
    · intro y hy
      rw [hy]
      rfl
  · rw [answerAfter, outcome_total, h.total_eq_card]
  · obtain ⟨ys, hmem, horder, hspell⟩ := h.spell_eq
    exact ⟨ys, hmem, horder, by rw [answerAfter, outcome_spell, hspell]⟩
  · refine ⟨answers (logAfter {} before) after, ?_, answers_append {} before after⟩
    rw [answers_append, answers, outcome_ask, answers_eq (h.ask q) h after, answerAfter]

end LogAct

end NimbleLang
