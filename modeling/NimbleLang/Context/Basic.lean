import NimbleLang.Text.Escape

/-!
Call contexts: the return states that wait on the stack when a rule ends. A context is the bottom of the
stack (`root`), one return state over another context, or a fork into several; the branches of a fork
are meant to be in increasing order of their return states, and the branch with `bottomReturn` stands for
the bottom of the stack among others. `unknown` is the context under such a branch.

Every node may carry a mark of type `ν`, by which nodes of equal content can be told apart. Prediction needs
none and takes `Unit`. `Context.same` compares content only.
-/

namespace NimbleLang

mutual
inductive Context (ν : Type) where
  | unknown
  | root
  | call (mark : ν) (below : Context ν) (ret : Int)
  | fork (mark : ν) (branches : Branches ν)
  deriving DecidableEq, Repr

inductive Branches (ν : Type) where
  | nil
  | cons (below : Context ν) (ret : Int) (rest : Branches ν)
  deriving DecidableEq, Repr
end

/-- The return state that stands for the bottom of the stack. -/
def bottomReturn : Int := 2147483647

variable {ν : Type}

instance : Inhabited (Context ν) := ⟨.root⟩

namespace Branches

def toList : Branches ν → List (Context ν × Int)
  | nil => []
  | cons below ret rest => (below, ret) :: rest.toList

def ofList : List (Context ν × Int) → Branches ν
  | [] => nil
  | (below, ret) :: rest => cons below ret (ofList rest)

def length : Branches ν → Nat
  | nil => 0
  | cons _ _ rest => rest.length + 1

end Branches

namespace Context

/-- A return state on top of a context. The bottom of the stack is there only once. -/
def atop (mark : ν) (below : Context ν) (ret : Int) : Context ν :=
  match below with
  | unknown => if ret = bottomReturn then root else call mark below ret
  | _ => call mark below ret

/-- The ways down from a context, each with its return state. -/
def ways : Context ν → List (Context ν × Int)
  | unknown => []
  | root => [(unknown, bottomReturn)]
  | call _ below ret => [(below, ret)]
  | fork _ branches => branches.toList

/-- Whether nothing is on the stack. -/
def isEmpty : Context ν → Bool
  | root => true
  | fork _ (.cons _ ret _) => ret == bottomReturn
  | _ => false

/-- Whether the last way down leads straight to the bottom. -/
def hasEmptyPath (c : Context ν) : Bool := c.ways.getLast?.any (·.2 == bottomReturn)

/-! ## Content -/

mutual
/-- Equality of content: marks do not count. -/
def same : Context ν → Context ν → Bool
  | unknown, unknown => true
  | root, root => true
  | call _ b r, call _ b' r' => r == r' && same b b'
  | fork _ bs, fork _ bs' => sameBranches bs bs'
  | _, _ => false

def sameBranches : Branches ν → Branches ν → Bool
  | .nil, .nil => true
  | .cons b r rest, .cons b' r' rest' => r == r' && same b b' && sameBranches rest rest'
  | _, _ => false
end

/-! ## Text -/

mutual
/-- A context as text: return states from the top down to `$`, the branches of a fork in brackets. -/
def spell : Context ν → String
  | unknown => ""
  | root => "$"
  | call _ below ret =>
    let up := spell below
    if up.isEmpty then (if ret = bottomReturn then "$" else toString ret) else toString ret ++ " " ++ up
  | fork mark branches =>
    if (fork mark branches).isEmpty then "[]" else "[" ++ Text.joinWith ", " (spellBranches branches) ++ "]"

def spellBranches : Branches ν → List String
  | .nil => []
  | .cons below ret rest =>
    (if ret = bottomReturn then "$"
      else toString ret ++ match below with
        | unknown => "null"
        | b => " " ++ spell b) :: spellBranches rest
end

mutual
/-- The length of the longest way down. -/
def depth : Context ν → Nat
  | unknown => 0
  | root => 1
  | call _ below _ => depth below + 1
  | fork _ branches => depthBranches branches + 1

def depthBranches : Branches ν → Nat
  | .nil => 0
  | .cons below _ rest => max (depth below) (depthBranches rest)
end

end Context

end NimbleLang
