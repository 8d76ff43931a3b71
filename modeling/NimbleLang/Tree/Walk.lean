import NimbleLang.Tree.Table

/-!
Walks over a tree: the events of a walk, each phrase told when it is entered and when it is left, and a
count of the leaves that stops once it has reached a limit.
-/

namespace NimbleLang.Tree

def leafWord (t : Token) : Except Fault String := Fault.mistyped.unless t.text?

mutual
/-- What a watcher is told on a walk. -/
def events : Tree → Except Fault (List String)
  | leaf t => do return ["t " ++ (← leafWord t)]
  | error t => do return ["e " ++ (← leafWord t)]
  | node l cs => do
    let own (word : String) : List String := if l.form.general then [] else [word ++ l.form.name]
    let number := toString l.form.ruleIndex
    return ["> " ++ number] ++ own "enter" ++ (← eventsOf cs) ++ own "exit" ++ ["< " ++ number]

def eventsOf : List Tree → Except Fault (List String)
  | [] => .ok []
  | t :: ts => do return (← events t) ++ (← eventsOf ts)
end

mutual
/-- Counts leaves and notes them. Within a phrase, no further child is visited once its count has reached the
limit. -/
def count (limit : Option Int) : Tree → List String → Except Fault (Int × List String)
  | leaf t, seen => do return (1, seen ++ [← leafWord t])
  | error t, seen => do return (1, seen ++ ["!" ++ (← leafWord t)])
  | node _ cs, seen => countOf limit cs 0 seen

def countOf (limit : Option Int) : List Tree → Int → List String → Except Fault (Int × List String)
  | [], n, seen => .ok (n, seen)
  | t :: ts, n, seen => do
    if limit.any (· ≤ n) then return (n, seen)
    let (k, seen) ← count limit t seen
    countOf limit ts (n + k) seen
end

end NimbleLang.Tree
