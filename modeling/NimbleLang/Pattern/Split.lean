import NimbleLang.Fault

/-!
Tree patterns as text. A pattern is text with tags between delimiters; a delimiter after the escape mark is
plain text. A tag may have a label, up to its first colon. The parts of a tag change places when they are
cut out: the chunk's tag is the label, and its label is the rest. Text in front of the first tag cannot be
cut out.
-/

namespace NimbleLang.Pattern

inductive Chunk where
  | tag (tag : Option String) (label : String)
  | text (s : String)
  deriving DecidableEq, Repr, Inhabited

/-- The marks around tags, and the mark that takes their meaning away. -/
structure Delimiters where
  start : List Char := ['<']
  stop : List Char := ['>']
  escape : List Char := ['\\']
  deriving DecidableEq, Repr, Inhabited

/-- Delimiters for tags; neither may be missing or empty, and the escape mark may not be missing. -/
def Delimiters.make (start stop escape : Option String) : Except Fault Delimiters := do
  let start := (start.getD "").toList
  let stop := (stop.getD "").toList
  if start.isEmpty then throw (.because "start cannot be null or empty")
  if stop.isEmpty then throw (.because "stop cannot be null or empty")
  return { start, stop, escape := (← Fault.mistyped.unless escape).toList }

/-- The places of the delimiters in a text from place `p` on: those that open and those that close a tag. -/
def findDelimiters (d : Delimiters) : Nat → Nat → List Char → List Nat × List Nat
  | 0, _, _ => ([], [])
  | _ + 1, _, [] => ([], [])
  | fuel + 1, p, c :: cs =>
    let s := c :: cs
    let past (mark : List Char) : List Nat × List Nat := findDelimiters d fuel (p + mark.length) (s.drop mark.length)
    if (d.escape ++ d.start).isPrefixOf s then past (d.escape ++ d.start)
    else if (d.escape ++ d.stop).isPrefixOf s then past (d.escape ++ d.stop)
    else if d.start.isPrefixOf s then
      let (starts, stops) := past d.start
      (p :: starts, stops)
    else if d.stop.isPrefixOf s then
      let (starts, stops) := past d.stop
      (starts, p :: stops)
    else findDelimiters d fuel (p + 1) cs

/-- A text without the occurrences of a mark, found from the left. -/
def eraseMark (mark : List Char) : Nat → List Char → List Char
  | 0, s => s
  | _ + 1, [] => []
  | fuel + 1, c :: cs =>
    if !mark.isEmpty && mark.isPrefixOf (c :: cs) then eraseMark mark fuel ((c :: cs).drop mark.length)
    else c :: eraseMark mark fuel cs

def between (s : List Char) (a b : Nat) : List Char := (s.drop a).take (b - a)

/-- The chunk of a tag: what is before its first colon, and what is after it. -/
def tagChunk (s : List Char) : Chunk :=
  if s.contains ':' then
    let label := s.takeWhile (· ≠ ':')
    .tag (some (String.ofList label)) (String.ofList (s.drop (label.length + 1)))
  else .tag none (String.ofList s)

/-- The tags, each followed by the text up to the next one. -/
def tagChunks (d : Delimiters) (s : List Char) : List (Nat × Nat) → List Chunk
  | [] => []
  | [(a, b)] =>
    let after := b + d.stop.length
    tagChunk (between s (a + d.start.length) b) ::
      (if after < s.length then [.text (String.ofList (s.drop after))] else [])
  | (a, b) :: (a', b') :: rest =>
    tagChunk (between s (a + d.start.length) b) :: .text (String.ofList (between s (b + d.stop.length) a')) ::
      tagChunks d s ((a', b') :: rest)

def Chunk.unescape (d : Delimiters) : Chunk → Chunk
  | .text s => .text (String.ofList (eraseMark d.escape (s.length + 1) s.toList))
  | c => c

/-- Cuts a pattern into chunks. -/
def split (d : Delimiters) (pattern : String) : Except Fault (List Chunk) := do
  let s := pattern.toList
  let (starts, stops) := findDelimiters d (s.length + 1) 0 s
  if starts.length > stops.length then throw (.because ("unterminated tag in pattern: " ++ pattern))
  if starts.length < stops.length then throw (.because ("missing start tag in pattern: " ++ pattern))
  let tags := starts.zip stops
  if tags.any fun (a, b) => a ≥ b then throw (.because ("tag delimiters out of order in pattern: " ++ pattern))
  match tags with
  | [] => return [Chunk.unescape d (.text pattern)]
  | (a, _) :: _ =>
    if a > 0 then throw .absent
    return (tagChunks d s tags).map (Chunk.unescape d)

end NimbleLang.Pattern
