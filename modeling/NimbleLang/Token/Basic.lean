import NimbleLang.Text.Source
import NimbleLang.Text.Escape

/-!
Tokens: a type, the stretch of the source it covers, and where it stands. A token's text is the text it
was given, or else its stretch of the source; a token with neither has none. The type of the end of
input is `-1`; `0` is no type at all, and `-2` stands for "the rule may end here" in lookahead sets.
-/

namespace NimbleLang

structure Token where
  type : Int
  channel : Int := 0
  start : Int := -1
  stop : Int := -1
  /-- Place in the token stream; `-1` if the token never went through one. -/
  index : Int := -1
  line : Option Int := none
  column : Int := -1
  /-- Text given to the token, in place of its stretch of the source. -/
  given : Option String := none
  source : Option Source := none
  deriving DecidableEq, Repr, Inhabited

namespace Token

def eof : Int := -1
def epsilon : Int := -2
def invalid : Int := 0

def isEof (t : Token) : Bool := t.type == eof

/-- The text of a token: the one it was given, else its stretch of the source. -/
def text? (t : Token) : Option String :=
  match t.given, t.source with
  | some s, _ => some s
  | none, none => none
  | none, some src => some (if t.start < src.size ∧ t.stop < src.size then src.slice t.start t.stop else "<EOF>")

/-- A number or the spelling of its absence. -/
def spellNumber : Option Int → String
  | some n => toString n
  | none => "None"

/-- The full description of a token. -/
def describe (t : Token) : String :=
  let body := match t.text? with
    | some s => Text.escape s
    | none => "<no text>"
  let channel := if t.channel > 0 then ",channel=" ++ toString t.channel else ""
  "[@" ++ toString t.index ++ "," ++ toString t.start ++ ":" ++ toString t.stop ++ "='" ++ body ++ "',<" ++
    toString t.type ++ ">" ++ channel ++ "," ++ spellNumber t.line ++ ":" ++ toString t.column ++ "]"

/-- A token as complaints quote it. -/
def display : Option Token → String
  | none => "<no token>"
  | some t =>
    let body := match t.text? with
      | some s => s
      | none => if t.isEof then "<EOF>" else "<" ++ toString t.type ++ ">"
    "'" ++ Text.escape body ++ "'"

end Token

end NimbleLang
