import NimbleLang.Context.Merge
import NimbleLang.Guard.Basic

/-!
Configurations of the parser's predictions: a state, the alternative that led there, the call context, the
guard collected on the way, how often the path left the rule under prediction, and whether the
configuration is exempt from the precedence filter.

Two configurations with the same state, alternative and guard are one as far as a set is concerned; their
contexts are merged.
-/

namespace NimbleLang.Predict

structure Config where
  state : Nat
  alt : Int
  context : Context Unit
  guard : Guard := .always
  outer : Int := 0
  exempt : Bool := false
  deriving DecidableEq, Repr

namespace Config

instance : Inhabited Config := ⟨{ state := 0, alt := 0, context := .root }⟩

/-- The same state, alternative and guard. -/
def sameKey (a b : Config) : Bool := a.state == b.state && a.alt == b.alt && a.guard == b.guard

/-- The same in all that counts: how often the path left the rule does not. -/
def same (a b : Config) : Bool :=
  a.sameKey b && a.context.same b.context && a.exempt == b.exempt

def spell (c : Config) : String :=
  let guard := if c.guard = .always then "" else "," ++ c.guard.spell
  let context := match c.context with
    | .unknown => ""
    | ctx => ",[" ++ ctx.spell ++ "]"
  let up := if c.outer > 0 then ",up=" ++ toString c.outer else ""
  "(" ++ toString c.state ++ "," ++ toString c.alt ++ context ++ guard ++ up ++ ")"

end Config

end NimbleLang.Predict
