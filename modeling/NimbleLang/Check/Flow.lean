import NimbleLang.Check.Notes

/-!
Which statements can be reached. A statement stops a block if it returns on every way through it: a `return`, or an
`if` both of whose branches have a statement that stops. A loop never stops a block, because its body may not run
at all. What comes after a stopping statement is not reached, and neither is anything inside of it.
-/

namespace NimbleLang.Check

mutual
/-- Whether a statement returns on every way through it. -/
def stops : Stmt → Bool
  | .leave _ _ => true
  | .ifElse _ _ yes no => stopsAny yes && stopsAny no
  | _ => false

/-- Whether some statement of a block returns on every way through it. -/
def stopsAny : List Stmt → Bool
  | [] => false
  | s :: rest => stops s || stopsAny rest
end

def unreachable (s : Stmt) : Finding :=
  { node := .statement s, category := .unreachableStatement, message := "Statement [" ++ s.text ++ "] is unreachable." }

mutual
/-- Marks a statement and all inside it. -/
def markAll : Stmt → List Finding
  | .loop p e body => unreachable (.loop p e body) :: markEach body
  | .ifThen p e yes => unreachable (.ifThen p e yes) :: markEach yes
  | .ifElse p e yes no => unreachable (.ifElse p e yes no) :: (markEach yes ++ markEach no)
  | s => [unreachable s]

def markEach : List Stmt → List Finding
  | [] => []
  | s :: rest => markAll s ++ markEach rest
end

/-- Marks what comes after the first stopping statement of a block. -/
def markAfterStop : List Stmt → List Finding
  | [] => []
  | s :: rest => if stops s then markEach rest else markAfterStop rest

/-- Marks the block of a function that can come to its end without a `return`, although it has to return a value. -/
def missingReturn (b : Block) : List Finding :=
  if stopsAny b.statements then []
  else [{ node := .block b, category := .missingReturn
          message := "Not all routes in block node " ++ b.text ++ " have a return statement." }]

end NimbleLang.Check
