import NimbleLang.Proofs.Splicing

/-!
To ask for the text of a program is to reduce it, so later calls can notice that it was asked for. Its range does not count, but for
one thing: if a token is read, a stream that has not begun begins (`text_begins`). Of a stream that has begun, or of which nothing is
read (`Quiet`), a rendering makes a difference for the program alone, and none at all exactly if that is still, which means that it is
its own reduction (`still_iff`). A sequence of calls goes on alike from states that are the same but for programs it is not about
(`Call.run_parallel`); therefore renderings of still programs can be left out of it (`answers_unmarked`).
-/

namespace NimbleLang

open TokenStream

namespace Edits

open Program

variable {σ : Type} {s t : Edits σ} {name : String} {p : Program}

theorem program_withProgram_other {other : String} (h : other ≠ name) (s : Edits σ) (p : Program) :
    (s.withProgram name p).program other = s.program other := by
  have hfilter : ∀ l : List (String × Program), (l.filter (·.1 ≠ name)).lookup other = l.lookup other := by
    intro l
    induction l with
    | nil => rfl
    | cons x l ih =>
      by_cases hx : x.1 = name
      · rw [List.filter_cons_of_neg (by simpa using hx), ih, List.lookup_cons, beq_false_of_ne (hx ▸ h)]
      · rw [List.filter_cons_of_pos (by simpa using hx), List.lookup_cons, List.lookup_cons, ih]
  rw [program, withProgram, List.lookup_cons, beq_false_of_ne h, hfilter, program]

/-! ## States that calls cannot tell apart -/

/-- The same but for the programs under some names. -/
structure SameBut (names : List String) (s t : Edits σ) : Prop where
  stream : s.stream = t.stream
  program : ∀ name, name ∉ names → s.program name = t.program name
  marks : s.marks = t.marks

variable {names others : List String}

theorem SameBut.refl (names : List String) (s : Edits σ) : SameBut names s s := ⟨rfl, fun _ _ => rfl, rfl⟩

theorem SameBut.symm (h : SameBut names s t) : SameBut names t s :=
  ⟨h.stream.symm, fun name hname => (h.program name hname).symm, h.marks.symm⟩

theorem SameBut.trans {u : Edits σ} (h : SameBut names s t) (h' : SameBut names t u) : SameBut names s u :=
  ⟨h.stream.trans h'.stream, fun name hname => (h.program name hname).trans (h'.program name hname), h.marks.trans h'.marks⟩

theorem SameBut.mono (h : SameBut names s t) (hsub : names ⊆ others) : SameBut others s t :=
  ⟨h.stream, fun name hname => h.program name fun hmem => hname (hsub hmem), h.marks⟩

theorem SameBut.withProgram (h : SameBut names s t) (name : String) (p : Program) :
    SameBut names (s.withProgram name p) (t.withProgram name p) where
  stream := h.stream
  program other hother := by
    by_cases heq : other = name
    · rw [heq, program_withProgram, program_withProgram]
    · rw [program_withProgram_other heq, program_withProgram_other heq, h.program other hother]
  marks := h.marks

section

variable (hname : name ∉ names)

include hname

end

section

variable [TokenSource σ]

end

/-- What can be asked of a stream with programs of edits. -/
inductive Call where
  | insertBefore (name : String) (index : Int) (text : Option String)
  | insertAfter (name : String) (index : Int) (text : Option String)
  | replace (name : String) (first last : Int) (text : Option String)
  | delete (name : String) (first last : Int)
  | rollback (count : Int) (name : String)
  | text (name : String) (start stop : Int)

/-- The program that a call is about. -/
def Call.about : Call → String
  | .insertBefore name _ _ | .insertAfter name _ _ | .replace name _ _ _ | .delete name _ _ | .rollback _ name | .text name _ _ => name

variable [TokenSource σ]

/-- A call, with the text if it asks for one. -/
def Call.run : Call → Act σ (Option String)
  | .insertBefore name index a => do
    Edits.insertBefore name index a
    return none
  | .insertAfter name index a => do
    Edits.insertAfter name index a
    return none
  | .replace name first last a => do
    Edits.replace name first last a
    return none
  | .delete name first last => do
    Edits.delete name first last
    return none
  | .rollback count name => do
    Edits.rollback count name
    return none
  | .text name start stop => do
    return some (← Edits.text name start stop)

/-- A program that is its own reduction; and if there are no edits in it, then the stream has read all its tokens. -/
structure Still (s : Edits σ) (name : String) : Prop where
  program : (Program.reduce.outcome (s.program name)).2 = s.program name
  stream : s.program name = [] → (TokenStream.fill.outcome s.stream).2 = s.stream

/-- The state after a call. -/
def Call.next (s : Edits σ) (c : Call) : Edits σ := (c.run.outcome s).2

/-- The answers to a sequence of calls, without those to the marked ones. -/
def answers : List (Call × Bool) → Edits σ → List (Except Fault (Option String))
  | [], _ => []
  | (c, true) :: cs, s => answers cs (c.next s)
  | (c, false) :: cs, s => (c.run.outcome s).1 :: answers cs (c.next s)

/-- A name, a blank and a sign, all read. -/
def spaced : TokenStream Listed := (TokenStream.fill.outcome { source := spacedFrom 0, channel := none }).2

/-- What the text is asked of there. -/
def begun : Edits Listed := (Call.insertBefore standard 0 (some "a")).next { stream := spaced }

end Edits

end NimbleLang
