import NimbleLang.Automaton.Basic
import Mathlib.Data.List.Basic

/-!
How an automaton grows. Edges are found again under the symbol they were entered for (`edge?_setEdge`). Whatever is added
to an automaton, the nodes it had keep their numbers and contents (`Grown`).
-/

namespace NimbleLang

namespace Automaton

variable {κ : Type}

theorem lookup_insertEdge (symbol s : Int) (target : Target) (edges : List (Int × Target)) :
    (insertEdge symbol target edges).lookup s = if s = symbol then some target else edges.lookup s := by
  have hlookup : ∀ (k : Int) (b : Target) (rest : List (Int × Target)),
      ((k, b) :: rest).lookup s = if s = k then some b else rest.lookup s := by
    intro k b rest
    rw [List.lookup_cons]
    by_cases h : s = k
    · rw [if_pos h, beq_iff_eq.mpr h]
    · rw [if_neg h, beq_eq_false_iff_ne.mpr h]
  induction edges with
  | nil => exact hlookup symbol target []
  | cons e rest ih =>
    obtain ⟨s', t'⟩ := e
    unfold insertEdge
    split
    · exact hlookup symbol target _
    · split
      · rename_i heq
        subst heq
        by_cases h : s = symbol <;> simp [hlookup, h]
      · rename_i hne
        rw [hlookup, hlookup, ih]
        by_cases h : s = symbol
        · simp [h, hne]
        · simp [h]

theorem edge?_setEdge (n : Node κ) (symbol s : Int) (target : Target) :
    (n.setEdge symbol target).edge? s = if s = symbol then some target else n.edge? s := by
  unfold Node.setEdge Node.edge?
  rw [Option.bind_some, lookup_insertEdge]
  cases n.edges <;> rfl

/-- The automaton `b` has all nodes of `a`, perhaps with more edges. -/
def Grown (a b : Automaton κ) : Prop :=
  b.start = a.start ∧ ∀ (i : Nat) (n : Node κ), a.nodes[i]? = some n → ∃ edges, b.nodes[i]? = some { n with edges := edges }

theorem Grown.refl (a : Automaton κ) : Grown a a := ⟨rfl, fun _ n h => ⟨n.edges, h⟩⟩

theorem Grown.trans {a b c : Automaton κ} (hab : Grown a b) (hbc : Grown b c) : Grown a c := by
  refine ⟨hbc.1.trans hab.1, fun i n h => ?_⟩
  obtain ⟨edges, hb⟩ := hab.2 i n h
  obtain ⟨edges', hc⟩ := hbc.2 i _ hb
  exact ⟨edges', hc⟩

/-! ## Nodes and edges that are added -/

theorem getElem?_setEdge (a : Automaton κ) (source : Nat) (symbol : Int) (target : Target) (i : Nat) :
    (a.setEdge source symbol target).nodes[i]? =
      if source = i then (a.nodes[i]?).map (·.setEdge symbol target) else a.nodes[i]? := Array.getElem?_modify

theorem grown_setEdge (a : Automaton κ) (source : Nat) (symbol : Int) (target : Target) :
    Grown a (a.setEdge source symbol target) := by
  refine ⟨rfl, fun i n h => ?_⟩
  rw [getElem?_setEdge, h]
  split
  · exact ⟨_, rfl⟩
  · exact ⟨n.edges, rfl⟩

/-- A node with new content comes last; all others stay where they are. -/
theorem getElem?_push_old {a : Automaton κ} {i : Nat} {m : Node κ} (h : a.nodes[i]? = some m) (n : Node κ) :
    (a.nodes.push n)[i]? = some m := by
  rw [Array.getElem?_push, if_neg]
  · exact h
  · intro hi
    subst hi
    simp at h

theorem grown_push (a : Automaton κ) (n : Node κ) : Grown a { a with nodes := a.nodes.push n } :=
  ⟨rfl, fun _ m h => ⟨m.edges, getElem?_push_old h n⟩⟩

theorem grown_addNode [BEq κ] (a : Automaton κ) (n : Node κ) : Grown a (a.addNode n).1 := by
  unfold addNode
  split
  · exact .refl a
  · exact grown_push a n

/-- The number that comes with a node is that of a node with its content. -/
theorem getElem?_addNode [BEq κ] [LawfulBEq κ] (a : Automaton κ) (n : Node κ) :
    ∃ m, (a.addNode n).1.nodes[(a.addNode n).2]? = some m ∧ m.content = n.content := by
  unfold addNode
  split
  · rename_i k hk
    obtain ⟨hlt, hsame, -⟩ := Array.findIdx?_eq_some_iff_getElem.mp hk
    exact ⟨_, Array.getElem?_eq_getElem hlt, eq_of_beq hsame⟩
  · exact ⟨n, by simp, rfl⟩

/-- What holds of all nodes, and of a node that is added, holds of all nodes after that. -/
theorem forall_addNode [BEq κ] {P : Node κ → Prop} {a : Automaton κ} (h : ∀ (i : Nat) (n : Node κ), a.nodes[i]? = some n → P n)
    {m : Node κ} (hm : P m) (i : Nat) (n : Node κ) (hn : (a.addNode m).1.nodes[i]? = some n) : P n := by
  unfold addNode at hn
  split at hn
  · exact h i n hn
  · dsimp only at hn
    rw [Array.getElem?_push] at hn
    split at hn
    · exact Option.some.inj hn ▸ hm
    · exact h i n hn

theorem forall_setEdge {P : Node κ → Prop} {a : Automaton κ} (h : ∀ (i : Nat) (n : Node κ), a.nodes[i]? = some n → P n)
    {source : Nat} {x : Int} {g : Target} (hset : ∀ n, a.nodes[source]? = some n → P (n.setEdge x g)) (i : Nat) (n : Node κ)
    (hn : (a.setEdge source x g).nodes[i]? = some n) : P n := by
  rw [getElem?_setEdge] at hn
  split at hn
  · rename_i heq
    subst heq
    obtain ⟨m, hm, rfl⟩ := Option.map_eq_some_iff.mp hn
    exact hset m hm
  · exact h i n hn

end Automaton

end NimbleLang
