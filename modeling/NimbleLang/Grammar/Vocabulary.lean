import NimbleLang.Interval

/-!
Names for token types. A vocabulary lists, by token type, the literal spelling and the symbolic name;
an entry without one reads `<INVALID>`. Sets of token types are written with these names.
-/

namespace NimbleLang

structure Vocabulary where
  literal : List String
  symbolic : List String
  deriving DecidableEq, Repr, Inhabited

namespace Vocabulary

/-- The spelling of an entry without a name. -/
def noName : String := "<INVALID>"

/-- The name of a token type: the literal before the symbolic one. A negative type other than the end of
input and epsilon counts from the end of the lists, and past their front it names nothing. -/
def nameOf (v : Vocabulary) (a : Int) : Except Fault String := do
  if a = Token.eof then return "<EOF>"
  if a = Token.epsilon then return "<EPSILON>"
  if a < v.literal.length then
    let name ← Fault.outOfRange.unless (Indexing.listAt? v.literal a)
    if name ≠ noName then return name
  if a < v.symbolic.length then Fault.outOfRange.unless (Indexing.listAt? v.symbolic a)
  else return "<UNKNOWN>"

/-- A set of token types by name, in braces unless it has a single element. -/
def spell (v : Vocabulary) (s : IntervalSet) : Except Fault String := do
  if s.spans.isNone then return "\x7b\x7d"
  let names ← s.toList.mapM v.nameOf
  let body := Text.joinWith ", " names
  return if s.toList.length > 1 then "\x7b" ++ body ++ "\x7d" else body

end Vocabulary

namespace Grammar

/-- The quoted symbols and keywords of Nimble, by token type. -/
def literals : List String :=
  ["<INVALID>", "'func'", "'('", "','", "')'", "'->'", "'\x7b'", "'\x7d'", "':'", "'var'", "'='", "'while'", "'if'",
    "'else'", "'print'", "'return'", "'!'", "'-'", "'*'", "'/'", "'+'", "'<'", "'<='", "'=='"]

/-- The token classes of Nimble, in order. -/
def classes : List String := ["STRING", "INT", "TYPE", "BOOL", "ID", "WS", "COMMENT"]

/-- Token names as the parser reports them. -/
def vocabulary : Vocabulary :=
  { literal := literals, symbolic := List.replicate literals.length Vocabulary.noName ++ classes }

/-- The lexical rules in order, the parts of a string body among them. -/
def lexicalRules : List String :=
  ((List.range 23).map fun i => "T__" ++ toString i) ++
    ["STRING", "SINGLE_CHAR", "ESCAPED_CHAR", "INT", "TYPE", "BOOL", "ID", "WS", "COMMENT"]

/-- The names a trace of the lexer shows for its rules. -/
def lexerTraceNames : List String := Vocabulary.noName :: classes

/-- The phrase rules in order. -/
def phraseRules : List String :=
  ["script", "funcDef", "parameterDef", "main", "body", "varBlock", "block", "varDec", "statement", "expr",
    "funcCall"]

end Grammar

end NimbleLang
