/-!
Texts as they stand in reports. Line ends, returns and tabs are spelt with a backslash so that a
report stays on one line; `whitespace` may also show blanks as a raised dot.
-/

namespace NimbleLang.Text

/-- A character with newline, return and tab spelt out. -/
def escapeControl (c : Char) : List Char :=
  if c = '\n' then ['\\', 'n'] else if c = '\r' then ['\\', 'r'] else if c = '\t' then ['\\', 't'] else [c]

/-- Newline, return and tab spelt with a backslash. -/
def escape (s : String) : String := String.ofList (s.toList.flatMap escapeControl)

/-- As `escape`; blanks become a raised dot when asked for. -/
def whitespace (s : String) (blanks : Bool) : String :=
  String.ofList (s.toList.flatMap fun c => if blanks && c = ' ' then ['·'] else escapeControl c)

/-- Parts with a separator between them. -/
def joinWith (sep : String) : List String → String
  | [] => ""
  | [s] => s
  | s :: rest => s ++ sep ++ joinWith sep rest

/-- A list of texts in brackets. -/
def bracketed (items : List String) : String := "[" ++ joinWith ", " items ++ "]"

/-- A set of numbers in braces; the empty set has a spelling of its own. -/
def numberSet (xs : List Int) : String :=
  if xs.isEmpty then "set()" else "\x7b" ++ joinWith ", " (xs.map fun x => toString x) ++ "\x7d"

end NimbleLang.Text
