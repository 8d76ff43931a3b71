import NimbleLang.Predict.Decide

/-!
Outlines of a recogniser's automata. Guards are described by what they ask; the operands of a combination
are listed by their description, in increasing order.
-/

namespace NimbleLang

namespace Guard

/-- Descriptions as nested texts; `quoted` is the form they are ordered by. -/
structure Description where
  outline : Outline
  quoted : String

def combined (word : String) (parts : List Description) : Description :=
  let parts := parts.mergeSort fun a b => decide (a.quoted ≤ b.quoted)
  { outline := .list (.text word :: parts.map (·.outline))
    quoted := "[" ++ Text.joinWith ", " (("\"" ++ word ++ "\"") :: parts.map (·.quoted)) ++ "]" }

def named (s : String) : Description := { outline := .text s, quoted := "\"" ++ s ++ "\"" }

mutual
def description : Guard → Description
  | always => named "NONE"
  | predicate r i c =>
    named ("\x7b" ++ toString r ++ ":" ++ toString i ++ "\x7d?" ++ (if c then "!" else ""))
  | precedence p => named ("prec " ++ toString p)
  | all xs => combined "and" (descriptions xs)
  | any xs => combined "or" (descriptions xs)

def descriptions : List Guard → List Description
  | [] => []
  | g :: gs => description g :: descriptions gs
end

/-- A guard as text, with the operands of a combination in increasing order of their text. -/
def spellSorted : Guard → String
  | all xs => Text.joinWith "&&" ((xs.map spell).mergeSort fun a b => Decidable.decide (a ≤ b))
  | any xs => Text.joinWith "||" ((xs.map spell).mergeSort fun a b => Decidable.decide (a ≤ b))
  | g => g.spell

def outline (g : Guard) : Outline := g.description.outline

end Guard

namespace Predict

def Config.outline (c : Config) : Outline :=
  .list [.count c.state, .number c.alt, .text c.context.spell, c.guard.outline, .number c.outer, .flag c.exempt]

def nodeOutline (n : Node) : Outline :=
  let s := n.content
  .record [
    ("accept", .flag n.accepts), ("prediction", .number n.prediction), ("full", .flag n.needsFullContext),
    ("preds", Outline.maybe (fun gs => .list (gs.map fun (g, alt) => .list [.number alt, g.outline])) n.guarded),
    ("edges", .list ((n.edges.getD []).map fun (symbol, t) =>
      .list [.number (symbol + 1), match t with | .error => .number 2147483647 | .node k => .count k])),
    ("configs", .list (s.configs.toList.map Config.outline)),
    ("alts", if s.configs.isEmpty then .nothing else .numbers s.alts),
    ("unique", .number s.uniqueAlt), ("conflict", Outline.maybe .numbers s.conflicting), ("dips", .flag s.dips),
    ("sem", .flag s.hasGuards)]

def automatonOutline (a : Automaton ConfigSet) : Outline :=
  .record [
    ("s0", match a.start with
      | .unset => .nothing
      | .node n => .count n
      | .byPrecedence nodes => .list (nodes.map (Outline.maybe .number))),
    ("states", .list (a.nodes.toList.map nodeOutline))]

/-- The automata that have nodes, by decision. -/
def automataOutline (r : Recogniser) : Outline :=
  .record ((r.automata.toList.filter fun a => !a.nodes.isEmpty).map fun a => (toString a.decision, automatonOutline a))

def Question.outline (q : Question) : Outline :=
  .list [.text "pred", .number q.rule, .number q.index, .number q.place, .flag q.blind]

end Predict

end NimbleLang
