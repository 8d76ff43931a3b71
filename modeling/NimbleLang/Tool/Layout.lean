import NimbleLang.Fault

/-!
Laying out nested lists: every inner list begins on a line of its own, three blanks further in than the list around
it. A bracket with a blank behind it is text. A closing bracket ends the innermost list, if one was begun.
-/

namespace NimbleLang.Tool

def indentation (depth : Nat) : List Char := List.replicate (3 * depth) ' '

/-- The rest of a text after its first character. -/
def layoutFrom : Nat → List Char → Except Fault (List Char)
  | _, [] => .ok []
  | _, ['('] => .error .outOfRange
  | depth, '(' :: c :: rest =>
    if c = ' ' then do return '(' :: (← layoutFrom depth (c :: rest))
    else do return '\n' :: indentation (depth + 1) ++ '(' :: (← layoutFrom (depth + 1) (c :: rest))
  | depth, ')' :: rest => do return ')' :: (← layoutFrom (depth - 1) rest)
  | depth, c :: rest => do return c :: (← layoutFrom depth rest)

/-- Lays out a nested list; there must be something to lay out. -/
def layout (s : String) : Except Fault String :=
  match s.toList with
  | [] => .error .outOfRange
  | c :: rest => do return String.ofList (c :: (← layoutFrom 0 rest))

end NimbleLang.Tool
