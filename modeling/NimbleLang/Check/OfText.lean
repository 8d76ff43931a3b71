import NimbleLang.Check.Analysis
import NimbleLang.Parse.Strict

/-!
The analysis of a text, and what can be asked about it.
-/

namespace NimbleLang.Analysis

/-- Analyses a text as a phrase of a rule. -/
def ofText (text : String) (rule : Grammar.Rule) (firstOnly : Bool) : Except Fault Analysis := do
  run (← (Source.ofString text).phrase rule) firstOnly

/-- The type of an expression, by its line and text. -/
def typeAt (a : Analysis) (line : Int) (text : String) : Except Fault Ty :=
  Fault.unknownKey.unless ((Assoc.get? line a.typesByLine).bind (Assoc.get? text))

/-- Whether an entry of a category stands on one of the first `n` lines. -/
def mentions (a : Analysis) (category : Category) (n : Nat) : Bool :=
  (List.range n).any fun (i : Nat) => a.log.includesOnLine category (i + 1)

def isClean (a : Analysis) : Bool := a.log.total == 0

end NimbleLang.Analysis
