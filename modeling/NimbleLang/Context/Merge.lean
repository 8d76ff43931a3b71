import NimbleLang.Context.Basic
import NimbleLang.Fault

/-!
Merging call contexts: the context that has the ways down of both. In local mode (`wildcard`) the bottom of
the stack stands for anything below and swallows what it is merged with; in full mode it is one way among
others. Branches with the same return state are joined and their contexts merged in turn.

A merger may remember the merges it has done and answer a repeated one from memory, whichever mode the
first one was done in. New nodes take a fresh mark.
-/

namespace NimbleLang

/-- Marks for new nodes. -/
class Marking (ν : Type) where
  fresh : Nat → ν

instance : Marking Unit := ⟨fun _ => ()⟩
instance : Marking Nat := ⟨id⟩

structure Merger (ν : Type) where
  /-- The merges done so far, if they are remembered. -/
  memory : Option (List ((Context ν × Context ν) × Context ν)) := none
  serial : Nat := 0

namespace Context

variable {ν : Type} [Marking ν]

abbrev Merging (ν : Type) := Run (Merger ν)

def freshMark : Merging ν ν := do
  let m ← get
  set { m with serial := m.serial + 1 }
  return Marking.fresh m.serial

/-- An earlier merge of the same two contexts, in either order. -/
def recollect (a b : Context ν) : Merging ν (Option (Context ν)) := do
  let entries := (← get).memory.getD []
  let at_ (x y : Context ν) : Option (Context ν) :=
    (entries.find? fun e => e.1.1.same x && e.1.2.same y).map (·.2)
  return match at_ a b with
    | some c => some c
    | none => at_ b a

/-- Remembers a merge, in place of an earlier one of the same contexts. -/
def remember (a b c : Context ν) : Merging ν (Context ν) := do
  let hit (e : (Context ν × Context ν) × Context ν) : Bool := e.1.1.same a && e.1.2.same b
  let enter (entries : List ((Context ν × Context ν) × Context ν)) : List ((Context ν × Context ν) × Context ν) :=
    if entries.any hit then entries.map fun e => if hit e then (e.1, c) else e else entries ++ [((a, b), c)]
  modify fun m => { m with memory := m.memory.map enter }
  return c

/-- The merge of two contexts one of which is the bottom; none if neither is. -/
def mergeRoot (wildcard : Bool) (a b : Context ν) : Merging ν (Option (Context ν)) := do
  match a, b with
  | .root, .root => return some .root
  | .root, .call _ below ret | .call _ below ret, .root =>
    if wildcard then return some .root
    return some (.fork (← freshMark) (.cons below ret (.cons .unknown bottomReturn .nil)))
  | _, _ => return none

/-- A context as a fork, if it is a single way down. -/
def asFork (c : Context ν) : Merging ν (Context ν) := do
  match c with
  | .root => return .fork (← freshMark) (.cons .unknown bottomReturn .nil)
  | .call _ below ret => return .fork (← freshMark) (.cons below ret .nil)
  | c => return c

/-- Equal contexts under the branches of a fork become one and the same. -/
def shareBelow (branches : List (Context ν × Int)) : List (Context ν × Int) :=
  branches.map fun (below, ret) => (((branches.map (·.1)).find? below.same).getD below, ret)

/-- The fork of merged branches. One branch alone needs no fork; a result equal to one of the sides is that side. -/
def joinForks (a b : Context ν) (merged : List (Context ν × Int)) : Merging ν (Context ν) := do
  match merged with
  | [(below, ret)] => remember a b (atop (← freshMark) below ret)
  | _ =>
    let c := Context.fork (← freshMark) (Branches.ofList merged)
    if c.same a then remember a b a
    else if c.same b then remember a b b
    else
      let mark ← freshMark
      remember a b (.fork mark (Branches.ofList (shareBelow merged)))

/-- Ways down split at a return state: those before it, the context under that return state if there is one,
and the rest. -/
def splitAt (ret : Int) (ways : List (Context ν × Int)) :
    List (Context ν × Int) × Option (Context ν) × List (Context ν × Int) :=
  let lower := ways.takeWhile (·.2 < ret)
  match ways.dropWhile (·.2 < ret) with
  | (below, ret') :: more => if ret' = ret then (lower, some below, more) else (lower, none, (below, ret') :: more)
  | [] => (lower, none, [])

/-- Whether the context under a return state stays as it is when it meets another one under the same return
state: both are the bottom, or they are equal. -/
def stays (ret : Int) (below below' : Context ν) : Bool :=
  (ret == bottomReturn && below.same .unknown && below'.same .unknown) ||
    (!below.same .unknown && !below'.same .unknown && below.same below')

/-- The merge of forks, from memory or else by joining their ways. -/
def mergeForks (a b : Context ν) (ways : Merging ν (List (Context ν × Int))) : Merging ν (Context ν) := do
  match ← recollect a b with
  | some c => return c
  | none => joinForks a b (← ways)

/-- Two different return states side by side, the smaller first. Equal contexts below become one and the same. -/
def pairUp (below : Context ν) (ret : Int) (below' : Context ν) (ret' : Int) : List (Context ν × Int) :=
  let below' := if !below.same .unknown && below.same below' then below else below'
  if ret > ret' then [(below', ret'), (below, ret)] else [(below, ret), (below', ret')]

mutual
/-- The merge of two contexts. -/
def merge (wildcard : Bool) (a b : Context ν) : Merging ν (Context ν) := do
  if a.same b then return a
  match a, b with
  | .unknown, .root | .root, .unknown => if wildcard then return .root else throw .absent
  | .unknown, _ | _, .unknown => throw .absent
  | .root, .root => return .root
  | .root, .call _ _ _ | .call _ _ _, .root =>
    match ← recollect a b with
    | some c => return c
    | none =>
      match ← mergeRoot wildcard a b with
      | some c => remember a b c
      | none => return a
  | .root, .fork _ _ =>
    if wildcard then return .root
    mergeForks (← asFork a) b (do
      match splitAt bottomReturn b.ways with
      | (lower, none, more) => return lower ++ (.unknown, bottomReturn) :: more
      | (lower, some below, more) =>
        if below.same .unknown then return lower ++ (.unknown, bottomReturn) :: more else throw .absent)
  | .call m below ret, .call m' below' ret' =>
    match ← recollect a b with
    | some c => return c
    | none =>
      if ret = ret' then
        let p ← merge wildcard below below'
        if p.same below then return .call m below ret
        if p.same below' then return .call m' below' ret'
        remember a b (atop (← freshMark) p ret)
      else remember a b (.fork (← freshMark) (Branches.ofList (pairUp below ret below' ret')))
  | .call _ below ret, .fork _ _ =>
    mergeForks (← asFork a) b (do
      match splitAt ret b.ways with
      | (lower, none, more) => return lower ++ (below, ret) :: more
      | (lower, some below', more) =>
        let p ← (if stays ret below below' then pure below else merge wildcard below below')
        return lower ++ (p, ret) :: more)
  | .fork _ branches, b =>
    if wildcard && b.same .root then return .root
    let b ← asFork b
    mergeForks a b (mergeBranches wildcard branches b.ways)

/-- The ways down of two forks in order: those of the second that come first are copied, one with the same
return state is joined. -/
def mergeBranches (wildcard : Bool) : Branches ν → List (Context ν × Int) → Merging ν (List (Context ν × Int))
  | .nil, ways => return ways
  | .cons below ret rest, ways => do
    match splitAt ret ways with
    | (lower, none, more) => return lower ++ (below, ret) :: (← mergeBranches wildcard rest more)
    | (lower, some below', more) =>
      let p ← (if stays ret below below' then pure below else merge wildcard below below')
      return lower ++ (p, ret) :: (← mergeBranches wildcard rest more)
end

end Context

end NimbleLang
