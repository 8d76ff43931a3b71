import NimbleLang.Fault

/-!
Text from bytes. A byte order mark is text like any other, and line ends stay as they are. What is no text in the
encoding is refused, replaced or left out; bytes that begin a character and are not completed count as one piece.
-/

namespace NimbleLang.Text

inductive Encoding where
  | ascii
  | latin1
  | utf8
  deriving DecidableEq, Repr, Inhabited

/-- What happens to bytes that are no text. -/
inductive OnBadBytes where
  | refuse
  | replace
  | leaveOut
  deriving DecidableEq, Repr, Inhabited

/-- What some bytes begin with: a character, or a number of bytes that are none. -/
inductive Piece where
  | char (c : Char) (length : Nat)
  | bad (length : Nat)
  deriving DecidableEq, Repr, Inhabited

/-- The bits of a first byte, and the ranges of the bytes that must follow it. -/
def leadByte (b : Nat) : Option (Nat × List (Nat × Nat)) :=
  let tail : Nat × Nat := (0x80, 0xBF)
  if b < 0x80 then some (b, [])
  else if b < 0xC2 then none
  else if b < 0xE0 then some (b - 0xC0, [tail])
  else if b = 0xE0 then some (0, [(0xA0, 0xBF), tail])
  else if b = 0xED then some (0xD, [(0x80, 0x9F), tail])
  else if b < 0xF0 then some (b - 0xE0, [tail, tail])
  else if b = 0xF0 then some (0, [(0x90, 0xBF), tail, tail])
  else if b < 0xF4 then some (b - 0xF0, [tail, tail, tail])
  else if b = 0xF4 then some (4, [(0x80, 0x8F), tail, tail])
  else none

/-- Completes a character of which `length` bytes are read. -/
def completeChar (code length : Nat) : List (Nat × Nat) → List Nat → Piece
  | [], _ => .char (Char.ofNat code) length
  | _ :: _, [] => .bad length
  | (lo, hi) :: ranges, b :: bytes =>
    if lo ≤ b && b ≤ hi then completeChar (code * 64 + (b - 0x80)) (length + 1) ranges bytes else .bad length

def piece (e : Encoding) (b : Nat) (rest : List Nat) : Piece :=
  match e with
  | .ascii => if b < 0x80 then .char (Char.ofNat b) 1 else .bad 1
  | .latin1 => .char (Char.ofNat b) 1
  | .utf8 =>
    match leadByte b with
    | some (bits, ranges) => completeChar bits 1 ranges rest
    | none => .bad 1

/-- The pieces of some bytes, of which the first `skip` belong to the piece before. -/
def decodeFrom (e : Encoding) (bad : OnBadBytes) : Nat → List Nat → Except Fault (List Char)
  | _, [] => .ok []
  | skip + 1, _ :: rest => decodeFrom e bad skip rest
  | 0, b :: rest =>
    match piece e b rest, bad with
    | .char c n, _ => do return c :: (← decodeFrom e bad (n - 1) rest)
    | .bad _, .refuse => .error .undecodable
    | .bad n, .replace => do return Char.ofNat 0xFFFD :: (← decodeFrom e bad (n - 1) rest)
    | .bad n, .leaveOut => decodeFrom e bad (n - 1) rest

/-- The text of some bytes. -/
def decode (e : Encoding) (bad : OnBadBytes) (bytes : List Nat) : Except Fault String := do
  return String.ofList (← decodeFrom e bad 0 bytes)

/-- The value of a hexadecimal digit. -/
def hexDigit (c : Char) : Nat :=
  if c.isDigit then c.toNat - '0'.toNat else c.toLower.toNat - 'a'.toNat + 10

/-- Bytes written as pairs of hexadecimal digits. -/
def bytesOfHex : List Char → List Nat
  | a :: b :: rest => (hexDigit a * 16 + hexDigit b) :: bytesOfHex rest
  | _ => []

end NimbleLang.Text
