import NimbleLang.Parse.Rules
import NimbleLang.Phrase.OfTree

/-!
Parsing without mercy: a source about which there is any complaint, of the scanner or of the parser, is refused
with the list of complaints.
-/

namespace NimbleLang

/-- A complaint with its place. -/
def Report.refusal? : Report → Option String
  | .complaint line column message _ _ _ =>
    some ("line " ++ ((line.map toString).getD "None") ++ " : " ++ toString column ++ " " ++ message)
  | _ => none

/-- Parses in a session: the tree, or the complaints, and the session afterwards. -/
def Session.parseStrictly (s : Session) (rule : Grammar.Rule) : Except Fault Tree × Session :=
  let (tree, s) := (Session.parse rule 0).outcome s
  let judged : Except Fault Tree := do
    let tree ← tree
    match s.journal.reports.toList.filterMap Report.refusal? with
    | [] => return tree
    | complaints => throw (.malformed (Text.joinWith "\n" complaints))
  (judged, s)

/-- The tree of a source by a rule. -/
def Source.parse (source : Source) (rule : Grammar.Rule) : Except Fault Tree :=
  ((Session.ofSource source).parseStrictly rule).1

/-- The phrase of a source by a rule. -/
def Source.phrase (source : Source) (rule : Grammar.Rule) : Except Fault Phrase := do
  Fault.absent.unless ((← source.parse rule).toPhrase? rule)

end NimbleLang
