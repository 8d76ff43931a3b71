import NimbleLang.Context.Merge

/-!
Canonical contexts: of all contexts with the same content, one stands for all. A `Registry` holds the
canonical ones met so far. `Registry.canonical` replaces a context, and everything below it, by canonical
ones; where nothing had to be replaced, the context itself becomes canonical.
-/

namespace NimbleLang.Context

structure Registry where
  entries : List (Context Nat) := []
  /-- What the contexts of the current search were replaced by. -/
  resolved : List (Context Nat × Context Nat) := []
  serial : Nat := 0
  deriving Repr

namespace Registry

/-- The canonical context with a content. -/
def find? (r : Registry) (c : Context Nat) : Option (Context Nat) := r.entries.find? c.same

/-- Makes a context canonical, unless one with its content is already. The bottom of the stack always is. -/
def enter (r : Registry) (c : Context Nat) : Registry × Context Nat :=
  if c.same .root then (r, .root)
  else match r.find? c with
    | some old => (r, old)
    | none => ({ r with entries := r.entries ++ [c] }, c)

def resolve (c c' : Context Nat) : Run Registry (Context Nat) := do
  modify fun r => { r with resolved := (c, c') :: r.resolved }
  return c'

/-- A context that was replaced before, or is canonical. -/
def known (c : Context Nat) : Run Registry (Option (Context Nat)) := do
  let r ← get
  match r.resolved.find? fun e => e.1.same c with
  | some (_, c') => return some c'
  | none =>
    match r.find? c with
    | some c' => return some (← resolve c c')
    | none => return none

/-- Settles on `c'` in place of `c`. -/
def settleOn (c c' : Context Nat) : Run Registry (Context Nat) := do
  modify fun r => (r.enter c').1
  let _ ← resolve c' c'
  resolve c c'

def freshMark : Run Registry Nat := do
  let r ← get
  set { r with serial := r.serial + 1 }
  return r.serial

mutual
def search : Context Nat → Run Registry (Context Nat)
  | .unknown => throw .absent
  | .root => return .root
  | .call mark below ret => do
    let c := Context.call mark below ret
    match ← known c with
    | some c' => return c'
    | none =>
      let below' ← search below
      if below' = below then settleOn c c else settleOn c (atop (← freshMark) below' ret)
  | .fork mark branches => do
    let c := Context.fork mark branches
    if c.isEmpty then return c
    match ← known c with
    | some c' => return c'
    | none =>
      let branches' ← searchBranches branches
      if branches' = branches then settleOn c c
      else match branches' with
        | .cons below ret .nil => settleOn c (atop (← freshMark) below ret)
        | _ => settleOn c (.fork (← freshMark) branches')

def searchBranches : Branches Nat → Run Registry (Branches Nat)
  | .nil => return .nil
  | .cons below ret rest => do
    let below' ← search below
    return .cons below' ret (← searchBranches rest)
end

/-- The canonical form of a context. -/
def canonical (c : Context Nat) : Run Registry (Context Nat) := do
  modify fun r => { r with resolved := [] }
  search c

end Registry

end NimbleLang.Context
