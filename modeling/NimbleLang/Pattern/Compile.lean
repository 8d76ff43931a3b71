import NimbleLang.Pattern.Split
import NimbleLang.Text.Uppercase
import NimbleLang.Text.Lowercase
import NimbleLang.Network.Decode

/-!
Patterns as tokens. A tag whose name starts with a capital stands for a token and is looked up among the names
of tokens; one that starts with a small letter stands for a phrase and is looked up among the names of rules.
Both tables are only built when they are asked for, and building either of them fails, so that no pattern has
tokens; which fault arises depends on what the recogniser offers.
-/

namespace NimbleLang.Pattern

/-- What a recogniser has of something it may be asked for: no answer at all, a refusal, or the thing itself. -/
inductive Offer (α : Type) where
  | missing
  | refused
  | given (a : α)
  deriving DecidableEq, Repr, Inhabited

def Offer.take {α : Type} (refusal : String) : Offer α → Except Fault α
  | missing => .error .absent
  | refused => .error (.unsupported refusal)
  | given a => .ok a

/-- What the compilation of patterns asks of a recogniser. -/
structure Offers where
  tokenNames : Offer Unit := .missing
  ruleNames : Offer Unit := .missing
  table : Offer (List Int) := .missing
  deriving DecidableEq, Repr, Inhabited

namespace Offers

/-- The type of a token by name: the table of names cannot be completed. -/
def tokenType (o : Offers) : Except Fault Int := do
  o.tokenNames.take "The current recognizer does not provide a list of token names."
  throw .mistyped

/-- The number of a rule by name: the table of names cannot be searched. -/
def ruleIndex (o : Offers) : Except Fault Int := do
  o.ruleNames.take "The current recognizer does not provide a list of rule names."
  throw .absent

/-- The number of states of the network in which each rule can also be passed by a token of its own. -/
def bypassed (o : Offers) : Except Fault Nat := do
  let table ← o.table.take "The current parser does not support an ATN with bypass alternatives."
  return (← Network.decode table { bypass := true }).states.size

end Offers

/-- The type of the token that stands for a chunk. Text cannot be scanned. -/
def chunkType (o : Offers) (pattern : String) : Chunk → Except Fault Int
  | .text _ => .error .absent
  | .tag none _ => .error .mistyped
  | .tag (some name) _ =>
    match name.toList with
    | [] => .error .outOfRange
    | c :: _ =>
      if Text.isUppercase c then o.tokenType
      else if Text.isLowercase c then o.ruleIndex
      else .error (.because ("invalid tag: " ++ name ++ " in pattern: " ++ pattern))

/-- The types of the tokens of a pattern. -/
def tokenise (d : Delimiters) (o : Offers) (pattern : String) : Except Fault (List Int) := do
  (← split d pattern).mapM (chunkType o pattern)

end NimbleLang.Pattern
