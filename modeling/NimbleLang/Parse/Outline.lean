import NimbleLang.Parse.Rules
import NimbleLang.Scan.Outline

/-!
Outlines of parse trees, and the automata of a session as text.
-/

namespace NimbleLang

namespace Tree

/-- The text of a leaf, where the end of input reads `<EOF>`. -/
def leafText (t : Token) : Outline := if t.isEof then .text "<EOF>" else Outline.maybe .text t.text?

mutual
/-- A node is its form, the positions of its first and last token, how it got stuck, and its children. -/
def outline (kindName : Recognition.Kind → String) : Tree → Outline
  | leaf t => leafText t
  | error t => .record [("err", leafText t), ("type", .number t.type), ("index", .number t.index)]
  | node l cs =>
    let (a, b) := interval (node l [])
    .list (.text l.form.name :: .number a :: .number b :: Outline.maybe (.text ∘ kindName) l.stuck ::
      outlineOf kindName cs)

def outlineOf (kindName : Recognition.Kind → String) : List Tree → List Outline
  | [] => []
  | t :: ts => outline kindName t :: outlineOf kindName ts
end

end Tree

namespace Session

/-- Prints the automata that have nodes, one after the other, apart by a blank line. -/
def dumpAutomata : Act Unit := do
  let s ← get
  let shown := s.automata.toList.filter fun a => !a.nodes.isEmpty
  let print (text : String) : Act Unit :=
    modify fun s => { s with journal := { s.journal with printed := s.journal.printed.push text } }
  for (a, i) in shown.zipIdx do
    if i > 0 then print "\n"
    print ("Decision " ++ toString a.decision ++ ":\n")
    print (← a.spell (Automaton.tokenLabel (some s.literals) (some s.symbols)))

/-- The scanner's automata that have a start, as text. -/
def lexerAutomata (s : Session) : Except Fault (List String) :=
  match s.stream.source with
  | .scanned sc => (sc.automata.toList.filter fun a => a.start != .unset).mapM fun a => a.spell Automaton.charLabel
  | .listed _ => .ok []

end Session

end NimbleLang
