import NimbleLang.Context.Canonical
import NimbleLang.Outline

/-!
Shelves of contexts: contexts numbered in the order they were made, with one memory of merges and one registry of
canonical contexts for all of them. Every step takes a number; a step that makes no context leaves its place empty.
-/

namespace NimbleLang.Context

structure Shelf where
  held : Array (Context Nat) := #[]
  merger : Merger Nat := { memory := some [] }
  registry : Registry := {}

namespace Shelf

abbrev Act := Run Shelf

/-- Takes the next number; yields a fresh mark. -/
def begin : Act Nat := do
  let s ← get
  let mark := s.merger.serial
  set { s with held := s.held.push .unknown, merger := { s.merger with serial := mark + 1 } }
  return mark

/-- The context with a number, among those before the last one; no number is the unknown context. -/
def find (n : Option Int) : Act (Context Nat) := do
  match n with
  | none => return .unknown
  | some n => Fault.outOfRange.unless (Indexing.arrayAt? (← get).held.pop n)

/-- Puts a context in the last place; describes it, with the first number that it has. -/
def keep (c : Context Nat) : Act Outline := do
  modify fun s => { s with held := s.held.pop.push c }
  let s ← get
  if c = .unknown then return .nothing
  return .list [.text c.spell, .count c.ways.length, .flag c.isEmpty, .flag c.hasEmptyPath,
    .count ((s.held.findIdx? (· == c)).getD 0), .count s.registry.entries.length]

/-- Several contexts at once. -/
def fork (mark : Nat) (below : List (Context Nat)) (returns : List Int) : Act Outline := do
  if below.isEmpty then throw .outOfRange
  keep (.fork mark (.ofList (below.zip returns)))

/-- Merges two contexts, with the memory of earlier merges or without it. -/
def merge (rootIsWildcard remembered : Bool) (x y : Context Nat) : Act Outline := do
  keep (← (Context.merge rootIsWildcard x y).onPart
    (fun s => { s.merger with memory := if remembered then s.merger.memory else none })
    (fun m s => { s with merger := { m with memory := m.memory.orElse fun _ => s.merger.memory } }))

def canonical (x : Context Nat) : Act Outline := do
  keep (← (Registry.canonical x).onPart (fun s => { s.registry with serial := s.merger.serial })
    (fun r s => { s with registry := r, merger := { s.merger with serial := r.serial } }))

/-- Makes a context canonical. -/
def enter (x : Context Nat) : Act Outline := do
  let (r, c) := (← get).registry.enter x
  modify fun s => { s with registry := r }
  keep c

/-- The number of contexts in a context: only of the unknown one can it be told. -/
def count (x : Context Nat) : Act Nat := if x = .unknown then return 0 else throw .absent

end Shelf

end NimbleLang.Context
