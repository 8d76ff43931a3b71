import NimbleLang.Assoc
import NimbleLang.Fault

/-!
The log of what is wrong with a program. It holds one entry for each line and text: a later entry for the same
line and text takes the place of the earlier one. Entries are listed by line, and within a line in the order their
texts were first seen. A log that is kept answers one inquiry after the other; to look at a line makes it a line of
the log.
-/

namespace NimbleLang

/-- What can be wrong with a program. -/
inductive Category where
  | assignToWrongType
  | undefinedName
  | duplicateName
  | invalidNegation
  | invalidBinaryOp
  | conditionNotBool
  | unprintableExpression
  | invalidCall
  | invalidReturn
  | functionUsedAsVariable
  | unreachableStatement
  | missingReturn
  deriving DecidableEq, Repr, Inhabited

namespace Category

def name : Category → String
  | assignToWrongType => "ASSIGN_TO_WRONG_TYPE"
  | undefinedName => "UNDEFINED_NAME"
  | duplicateName => "DUPLICATE_NAME"
  | invalidNegation => "INVALID_NEGATION"
  | invalidBinaryOp => "INVALID_BINARY_OP"
  | conditionNotBool => "CONDITION_NOT_BOOL"
  | unprintableExpression => "UNPRINTABLE_EXPRESSION"
  | invalidCall => "INVALID_CALL"
  | invalidReturn => "INVALID_RETURN"
  | functionUsedAsVariable => "FUNCTION_USED_AS_VARIABLE"
  | unreachableStatement => "UNREACHABLE_STATEMENT"
  | missingReturn => "MISSING_RETURN"

def all : List Category :=
  [assignToWrongType, undefinedName, duplicateName, invalidNegation, invalidBinaryOp, conditionNotBool,
    unprintableExpression, invalidCall, invalidReturn, functionUsedAsVariable, unreachableStatement, missingReturn]

def named? (s : String) : Option Category := all.find? (·.name == s)

end Category

structure LogEntry where
  category : Category
  message : String
  deriving DecidableEq, Repr, Inhabited

/-- For each line, in the order of their first entries, the texts with their entries. -/
structure ErrorLog where
  lines : List (Int × List (String × LogEntry)) := []
  deriving DecidableEq, Repr, Inhabited

namespace ErrorLog

/-- The entries of a line. -/
def onLine (log : ErrorLog) (line : Int) : List (String × LogEntry) := (Assoc.get? line log.lines).getD []

/-- Enters that something is wrong with a text on a line. -/
def add (log : ErrorLog) (line : Int) (text : String) (category : Category) (message : String) : ErrorLog :=
  { lines := Assoc.put line (Assoc.put text { category, message } (log.onLine line)) log.lines }

/-- Whether the entry for a text on a line is of a category; there must be one. -/
def includesExactly (log : ErrorLog) (category : Category) (line : Int) (text : String) : Except Fault Bool := do
  let e ← Fault.unknownKey.unless (Assoc.get? text (log.onLine line))
  return e.category == category

/-- Whether some entry on a line is of a category. -/
def includesOnLine (log : ErrorLog) (category : Category) (line : Int) : Bool :=
  (log.onLine line).any (·.2.category == category)

def total (log : ErrorLog) : Nat := log.lines.foldr (fun line n => line.2.length + n) 0

/-- The entries by line. -/
def entries (log : ErrorLog) : List (Int × String × LogEntry) :=
  (log.lines.mergeSort fun a b => a.1 ≤ b.1).flatMap fun (line, es) => es.map fun (text, e) => (line, text, e)

def spellEntry (line : Int) (text : String) (e : LogEntry) : String :=
  "line " ++ toString line ++ " : " ++ e.category.name ++ " : " ++ e.message ++ "\n    " ++ text

def spell (log : ErrorLog) : String :=
  Text.joinWith "\n" (log.entries.map fun (line, text, e) => spellEntry line text e)

/-! ## A log that is kept -/

/-- What can be asked about a log. -/
inductive Inquiry where
  | exactly (category : Category) (line : Int) (text : String)
  | onLine (category : Category) (line : Int)
  | total
  | spell
  deriving DecidableEq, Repr, Inhabited

inductive Reply where
  | flag (b : Bool)
  | number (n : Nat)
  | text (s : String)
  deriving DecidableEq, Repr, Inhabited

/-- A line that is looked at is one of the log's from then on, with or without entries. -/
def visit (log : ErrorLog) (line : Int) : ErrorLog := { lines := Assoc.put line (log.onLine line) log.lines }

/-- Asks about a log that is kept. -/
def ask : Inquiry → Run ErrorLog Reply
  | .exactly category line text => do
    modify (·.visit line)
    return .flag (← (← get).includesExactly category line text)
  | .onLine category line => do
    modify (·.visit line)
    return .flag ((← get).includesOnLine category line)
  | .total => do return .number (← get).total
  | .spell => do return .text (← get).spell

end ErrorLog

end NimbleLang
