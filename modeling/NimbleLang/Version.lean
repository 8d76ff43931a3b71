import NimbleLang.Text.Indexing

/-!
Versions of grammar tables. A version reads major, dot, minor, and then anything after a dot or a dash; a
text without a dot has all but its last character as major part. Tables of another major or minor version
than the supported one draw a warning.
-/

namespace NimbleLang.Version

/-- The version of the tables this library reads. -/
def supported : String := "4.11.1"

/-- The part of a text before a character, if the character is there. -/
def before? (c : Char) (s : List Char) : Option (List Char) :=
  if s.contains c then some (s.takeWhile (· ≠ c)) else none

/-- The major and the minor part. -/
def parts (version : String) : String × String :=
  let s := version.toList
  let (major, rest) := match before? '.' s with
    | some m => (m, s.drop (m.length + 1))
    | none => (s.dropLast, s)
  let minor := (before? '.' rest).getD ((before? '-' rest).getD rest)
  (String.ofList major, String.ofList minor)

/-- The warning about tables of a version, if there is a reason for one. -/
def warning? (version : String) : Option String :=
  if parts version = parts supported then none
  else some ("ANTLR runtime and generated code versions disagree: " ++ supported ++ "!=" ++ version)

end NimbleLang.Version
