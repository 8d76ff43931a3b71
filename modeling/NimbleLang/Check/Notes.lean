import NimbleLang.Phrase.Basic
import NimbleLang.ErrorLog

/-!
What the checks find out, in the order they find it: what is wrong with which phrase, and the types of expressions.
The error log is made from the findings.
-/

namespace NimbleLang

structure Finding where
  node : Node
  category : Category
  message : String
  deriving Repr, Inhabited

structure Notes where
  findings : List Finding := []
  types : List (Node × Ty) := []
  deriving Repr, Inhabited

namespace Notes

instance : Append Notes := ⟨fun a b => { findings := a.findings ++ b.findings, types := a.types ++ b.types }⟩

@[simp] theorem findings_append (a b : Notes) : (a ++ b).findings = a.findings ++ b.findings := rfl

@[simp] theorem types_append (a b : Notes) : (a ++ b).types = a.types ++ b.types := rfl

/-- One finding. -/
def found (node : Node) (category : Category) (message : String) : Notes :=
  { findings := [{ node, category, message }] }

/-- The type of a phrase. -/
def typed (node : Node) (t : Ty) : Notes := { types := [(node, t)] }

def none : Notes := {}

/-- A finding, unless all is well. -/
def require (well : Bool) (node : Node) (category : Category) (message : String) : Notes :=
  if well then none else found node category message

/-- All findings of a list, in order. -/
def ofFindings (findings : List Finding) : Notes := { findings }

end Notes

/-- Enters a finding under the line and text of its phrase. -/
def ErrorLog.enter (log : ErrorLog) (f : Finding) : ErrorLog :=
  log.add f.node.line f.node.text f.category f.message

def ErrorLog.ofFindings (fs : List Finding) : ErrorLog := fs.foldl ErrorLog.enter {}

end NimbleLang
