import NimbleLang.ErrorLog
import NimbleLang.Tree.Table

/-!
Log entries for the phrases of a parse tree, also of one that was recovered. Phrases are numbered from zero on, each
before the phrases inside it.
-/

namespace NimbleLang

/-- The phrases of a tree, each before those inside it. -/
def Tree.phrases (t : Tree) : List Tree := t.preorder.filter fun n => n.label?.isSome

/-- The children of a phrase that are of a form. -/
def Tree.partsOf (t : Tree) (kind : Grammar.Form) : List Tree :=
  t.children.filter fun c => c.label?.any (·.form.isA kind)

/-- The block of a loop or of a body. -/
def Tree.ownBlock (t : Tree) : Except Fault Tree := do
  let l ← Fault.absent.unless t.label?
  if l.form = .whileLoop || l.form = .body then Fault.absent.unless (t.partsOf .block).head? else throw .absent

/-- Enters that something is wrong with a phrase. -/
def ErrorLog.addPhrase (log : ErrorLog) (t : Tree) (category : Category) (message : String) : Except Fault ErrorLog := do
  let l ← Fault.absent.unless t.label?
  let start ← Fault.absent.unless l.start
  return log.add (start.line.getD 0) (← t.text) category message

/-- Enters that the statements of a phrase's block are not reached. -/
def ErrorLog.addUnreached (log : ErrorLog) (t : Tree) : Except Fault ErrorLog := do
  ((← t.ownBlock).partsOf .statement).foldlM (fun log s => do
    log.addPhrase s .unreachableStatement ("Statement [" ++ (← s.text) ++ "] is unreachable.")) log

end NimbleLang
