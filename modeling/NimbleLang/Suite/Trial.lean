import NimbleLang.Check.OfText
import NimbleLang.Suite.Samples
import NimbleLang.Text.Lines

/-!
Trials of the analysis. A trial goes through its samples in order and ends at the first one that does not come out
as expected, or at a fault of the analysis itself. Expressions are tried in parts: a part that fails is noted and
the trial goes on.
-/

namespace NimbleLang

namespace Trial

/-- What is noted about a trial. -/
inductive Entry where
  /-- An expectation was not met. -/
  | failed
  /-- The trial broke off. -/
  | broke (fault : Fault)
  /-- A part broke off or did not come out as expected. -/
  | part (fault : Fault)
  deriving DecidableEq, Repr, Inhabited

structure Report where
  entries : List Entry := []
  out : String := ""
  deriving DecidableEq, Repr, Inhabited

end Trial

abbrev Trial := Run Trial.Report Unit

namespace Trial

/-- Prints a line. -/
def say (s : String) : Trial := modify fun r => { r with out := r.out ++ s ++ "\n" }

def expect (b : Bool) : Trial := if b then pure () else throw .refuted

/-- A part of a trial. -/
def part (t : Trial) : Trial := do
  match ← Run.attempt t with
  | .ok _ => pure ()
  | .error f => modify fun r => { r with entries := r.entries ++ [.part f] }

/-- How a trial went. -/
def report (t : Trial) : Report :=
  match Run.outcome t {} with
  | (.ok _, r) => r
  | (.error .refuted, r) => { r with entries := r.entries ++ [.failed] }
  | (.error f, r) => { r with entries := r.entries ++ [.broke f] }

/-! ## Programs and expressions -/

abbrev Examined := Run Report Analysis

def script (source : String) : Examined := liftM (Analysis.ofText source .script false)

def expression (source : String) : Examined := liftM (Analysis.ofText source .expr false)

/-- A program in which nothing is wrong. -/
def valid (source : String) : Examined := do
  let a ← script source
  expect a.isClean
  return a

/-- A program in which something is wrong. -/
def invalid (source : String) : Examined := do
  let a ← script source
  expect !a.isClean
  return a

/-- A name stands for a symbol of that type in the main part. -/
def expectSymbol (a : Analysis) (name : String) (type : SymbolType) : Trial := do
  let main ← Fault.absent.unless (a.scopes.childNamed Analysis.global "$main")
  match a.scopes.resolve main name with
  | none => throw .refuted
  | some s => expect (s.type == some type)

/-- Something of a category is wrong on one of the lines of the program. -/
def expectCategory (a : Analysis) (source : String) (category : Category) : Trial :=
  expect (a.mentions category (Text.lineCount source))

/-- Shows a program with types and with what is wrong in it. -/
def display (source types : String) (log : ErrorLog) : Trial := do
  say "\n------------------------------"
  say (source ++ "\n")
  say types
  if log.total != 0 then say ("\n" ++ log.spell)

/-! ## The trials -/

def validExpressions (s : Samples) : Trial := do
  for x in s.validExpressions do
    let a ← expression x.source
    part do
      expect (x.expected == .value (← a.typeAt 1 x.source))
      expect a.isClean

def invalidExpressions (s : Samples) : Trial := do
  for x in s.invalidExpressions do
    let a ← expression x.source
    part do
      expect ((← a.typeAt 1 x.source) == .error)
      expect (← a.log.includesExactly x.expected 1 x.source)

def validSymbols (xs : List (About SymbolType)) : Trial := do
  for x in xs do
    expectSymbol (← valid x.source) x.subject x.expected

def declarations (s : Samples) : Trial := do
  validSymbols s.validDeclarations
  for x in s.invalidDeclarations do
    let a ← invalid x.source
    expectSymbol a x.subject (.value .error)
    expectCategory a x.source x.expected

def names (s : Samples) : Trial := do
  validSymbols s.validVariables
  for source in s.invalidVariables do
    let a ← invalid source
    if !a.mentions .undefinedName a.typesByLine.length then
      throw (Fault.because "ERROR - No UNDEFINED_NAME category error found.")

def prints (s : Samples) : Trial := do
  for source in s.validPrints do
    let _ ← valid source
  for x in s.invalidPrints do
    let a ← script x.source
    if x.expected.length != a.log.total then
      throw (Fault.because
        "ERROR - Number of detected errors in script does not match number of errors expected.")
    for c in x.expected do
      if !a.log.includesOnLine c 1 then
        throw (Fault.because ("ERROR - Category error of " ++ c.name ++ " not in script."))

def assignments (s : Samples) : Trial := do
  validSymbols s.validAssignments
  for x in s.invalidAssignments do
    expectCategory (← invalid x.source) x.source x.expected

/-- Programs with sound conditions, and programs with a condition that is not of type `Bool`. -/
def conditions (sound unsound : List String) : Trial := do
  for source in sound do
    let _ ← valid source
  for source in unsound do
    let a ← script source
    expectCategory a source .conditionNotBool
    expect !a.isClean

def functions (s : Samples) : Trial := do
  for x in s.functionTypes do
    let a ← script x.source
    for (name, type) in x.expected do
      let f ← Fault.absent.unless (a.scopes.resolve Analysis.global name)
      expect (f.type == some type)
      expect a.isClean

def parameters (s : Samples) : Trial := do
  for x in s.parameterTypes do
    let a ← script x.source
    for (name, types) in x.expected do
      let n ← Fault.absent.unless (a.scopes.childNamed Analysis.global name)
      for p in (a.scopes.scope n).parameterSymbols do
        expect (p.type == some (← Fault.unknownKey.unless (types.lookup p.name)))
  for x in s.invalidParameters do
    let a ← script x.source
    expectCategory a x.source x.expected
    expect !a.isClean

def calls (s : Samples) : Trial := do
  for source in s.validCalls do
    let a ← script source
    display source a.spellTypes a.log
    expect a.isClean
  for source in s.invalidCalls do
    let _ ← invalid source

def returns (s : Samples) : Trial := do
  for source in s.validReturns do
    let _ ← valid source
  for source in s.invalidReturns do
    let _ ← invalid source

/-- The call that a sample speaks of stands on the second line. -/
def callExpressions (s : Samples) : Trial := do
  for x in s.callTypes do
    let a ← valid x.source
    expect (x.expected == .value (← a.typeAt 2 x.subject))
  for x in s.invalidCallExpressions do
    expectCategory (← invalid x.source) x.source x.expected

def banner (title : String) : String :=
  let bar := String.ofList (List.replicate 40 '-')
  bar ++ "  " ++ title ++ "  " ++ bar

/-- Shows what is not reached; nothing is expected. -/
def unreachable (s : Samples) : Trial := do
  say (banner "TESTING UNREACHABLE CODE")
  for source in s.unreachable do
    let a ← script source
    display source "" a.log
  say ("\n " ++ banner "TESTING UNREACHABLE CODE FINISHED")

def missingReturns (s : Samples) : Trial := do
  for source in s.missingReturns do
    expectCategory (← script source) source .missingReturn
  for source in s.completeReturns do
    let _ ← valid source

/-- All trials, from expressions to functions. -/
def all : List (Samples → Trial) :=
  [validExpressions, invalidExpressions, declarations, names, prints, assignments,
    fun s => conditions s.validLoops s.invalidLoops, fun s => conditions s.validBranches s.invalidBranches, functions,
    parameters, calls, returns, callExpressions, unreachable, missingReturns]

end Trial

end NimbleLang
