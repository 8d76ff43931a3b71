import NimbleLang.Outline

/-!
The journal of a run: what was reported, in order, and what was printed. Reports are complaints about the
source, blamed on a place and perhaps on a token, and remarks on how a decision was taken. With `echo`
set, every complaint also goes to the error output as a line of its own.
-/

namespace NimbleLang

inductive Report where
  /-- `stuckOn` is the character at which a lexical match began. -/
  | complaint (line : Option Int) (column : Int) (message : String) (token : Option String)
      (kind : Option Recognition.Kind) (stuckOn : Option String)
  /-- Several alternatives fit the same input. -/
  | ambiguity (decision : Int) (start stop : Int) (exact : Bool) (alts : Option (List Int)) (configured : List Int)
  /-- A decision could not be taken without the calling context. -/
  | attempt (decision : Int) (start stop : Int) (conflicting : Option (List Int))
  /-- A decision came out differently because of the calling context. -/
  | sensitivity (decision : Int) (start stop : Int) (prediction : Int)
  deriving DecidableEq, Repr, Inhabited

structure Journal where
  reports : Array Report := #[]
  printed : Array String := #[]
  errors : Array String := #[]
  echo : Bool := false
  deriving DecidableEq, Repr, Inhabited

namespace Journal

/-- Notes a report. -/
def add (j : Journal) (r : Report) : Journal :=
  let j := { j with reports := j.reports.push r }
  match r with
  | .complaint line column message _ _ _ =>
    if j.echo then
      let place := (match line with | some n => toString n | none => "None") ++ ":" ++ toString column
      { j with errors := j.errors.push ("line " ++ place ++ " " ++ message ++ "\n") }
    else j
  | _ => j

/-- Prints a line. -/
def print (j : Journal) (line : String) : Journal := { j with printed := j.printed.push (line ++ "\n") }

def output (j : Journal) : String := j.printed.foldl (· ++ ·) ""

def errorOutput (j : Journal) : String := j.errors.foldl (· ++ ·) ""

/-- The journal followed by what another one holds. -/
def append (j later : Journal) : Journal :=
  { j with reports := j.reports ++ later.reports, printed := j.printed ++ later.printed,
           errors := j.errors ++ later.errors }

/-- A journal that holds nothing and echoes like this one. -/
def blank (j : Journal) : Journal := { echo := j.echo }

end Journal

end NimbleLang
