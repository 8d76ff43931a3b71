import NimbleLang.Text.Escape

/-!
Programs of Nimble that grow with a number.
-/

namespace NimbleLang.Workload

/-- A function of two parameters. -/
def functionLines (i : Nat) : List String :=
  ["func f" ++ toString i ++ "(a : Int, b : Int) -> Int \x7b",
    "    var t : Int = a * b + " ++ toString i,
    "    if a < b \x7b return a + b \x7d else \x7b return t - 1 \x7d",
    "\x7d"]

def callLine (i : Nat) : String :=
  "r = r + f" ++ toString i ++ "(" ++ toString i ++ ", " ++ toString (i + 1) ++ ")"

/-- `n` functions, and a main part that adds up a call of each. -/
def program (n : Nat) : String :=
  Text.joinWith "\n" ((List.range n).flatMap functionLines ++ "var r : Int = 0" :: (List.range n).map callLine ++ ["print r"])

/-- Statements that stop in every branch, with statements after each stop. -/
def deadEndLines : Nat → List String
  | 0 => ["return 0", "print 0"]
  | depth + 1 =>
    let inner := deadEndLines depth
    "if true \x7b" :: inner ++ "\x7d else \x7b" :: inner ++ ["\x7d", "print 99", "while true \x7b print 1 \x7d"]

/-- A function that branches `depth` times before it stops. -/
def deadEnds (depth : Nat) : String :=
  Text.joinWith "\n" ("func f() -> Int \x7b" :: deadEndLines depth ++ ["\x7d", "print f()"])

/-- Declarations of `n` variables on one line. -/
def declarations (n : Nat) : String :=
  Text.joinWith " " ((List.range n).map fun i => "var v" ++ toString i ++ " : Int = " ++ toString i)

/-- A sum of `n` products. -/
def products (n : Nat) : String :=
  Text.joinWith "+" ((List.range n).map fun i => "(" ++ toString i ++ "*" ++ toString (i + 1) ++ ")")

/-- Sources that cannot be parsed, and one that can. -/
def malformed : List String :=
  ["var : = ", "func ( \x7b \x7d", "if \x7b else \x7d", "1 + + 2", "print @", "while \x7b \x7d", "var x Int",
    "func f(a) \x7b \x7d", "print 1"]

end NimbleLang.Workload
