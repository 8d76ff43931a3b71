import NimbleLang.Proofs.Lexicon
import NimbleLang.Proofs.Roaming

/-!
What a lexer has learnt is only a cache. A match carries out the verdict without automata, so it comes to the same place and the
same verdict whatever was learnt; what it does there does not look at the automata. A match after any number of others is the
match with empty automata (`match_after_others`).
-/

namespace NimbleLang

namespace Scan

variable {net : Network} {as : Array (Automaton (List Config))}

/-- A match that is asked for: in a mode, from a scanner that is not traced. What the scanner has learnt is left open. -/
structure Request where
  scanner : Scanner
  mode : Nat
  quiet : scanner.traced = false

/-- The match, over a network with what was learnt of it. -/
def Request.outcome (net : Network) (as : Array (Automaton (List Config))) (c : Request) : Except Fault (Option Int) × Scanner :=
  (matchMode c.mode).outcome { c.scanner with network := net, automata := as }

/-- What is learnt in matches that are asked for one after the other. -/
def learnt (net : Network) (earlier : List Request) : Array (Automaton (List Config)) :=
  earlier.foldl (fun as c => (c.outcome net as).2.automata) (freshAutomata net)

/-- The match carries out its verdict. It comes to the verdict and to the place of the match whatever was learnt before. -/
theorem Request.verdict (hnet : net.Mechanical) (c : Request) : ∃ (v : Verdict) (s : Scanner), Over net s ∧
    ∀ as, Faithful net as → ∃ bs, Faithful net bs ∧ c.outcome net as = v.carryOut.outcome { s with automata := bs } := by
  have hstart : ∀ as, Beside net as { c.scanner with network := net } { c.scanner with network := net, automata := as } :=
    fun _ => ⟨⟨rfl, c.quiet⟩, rfl⟩
  refine ⟨.of ((verdictIn net c.mode).outcome { c.scanner with network := net }).1,
    ((verdictIn net c.mode).outcome { c.scanner with network := net }).2, ?_, fun as has => ?_⟩
  · obtain ⟨_, _, h, -⟩ := matchMode_taught hnet (hstart _) (faithful_fresh net) c.mode
    exact h.above
  · obtain ⟨t, bs, h, hbs, ht⟩ := matchMode_taught hnet (hstart as) has c.mode
    rw [h.rest] at ht
    exact ⟨bs, hbs, ht⟩

theorem Request.faithful (hnet : net.Mechanical) (c : Request) (has : Faithful net as) : Faithful net (c.outcome net as).2.automata := by
  obtain ⟨v, s, hs, hv⟩ := c.verdict hnet
  obtain ⟨bs, hbs, hout⟩ := hv as has
  obtain ⟨r, s', t', -, ht, h, -⟩ := carryOut_indifferent v s { s with automata := bs } ⟨hs, rfl⟩
  rw [hout, ht, h.rest]
  exact hbs

theorem faithful_learnt (hnet : net.Mechanical) (earlier : List Request) : Faithful net (learnt net earlier) := by
  unfold learnt
  generalize hstart : freshAutomata net = as
  have has : Faithful net as := hstart ▸ faithful_fresh net
  clear hstart
  induction earlier generalizing as with
  | nil => exact has
  | cons c earlier ih => exact ih _ (c.faithful hnet has)

/-- A match comes to the same whatever was learnt before it: the scanner comes to the same place, the same commands are run
there, and the same token type or fault results. -/
theorem match_after_others (hnet : net.Mechanical) (earlier : List Request) (c : Request) :
    ∃ (v : Verdict) (s : Scanner) (as bs : Array (Automaton (List Config))),
      c.outcome net (learnt net earlier) = v.carryOut.outcome { s with automata := as } ∧
      c.outcome net (freshAutomata net) = v.carryOut.outcome { s with automata := bs } ∧
      (c.outcome net (learnt net earlier)).1 = (c.outcome net (freshAutomata net)).1 ∧
      (c.outcome net (freshAutomata net)).2 = { (c.outcome net (learnt net earlier)).2 with automata := bs } := by
  obtain ⟨v, s, hs, hv⟩ := c.verdict hnet
  obtain ⟨as, -, hlearnt⟩ := hv _ (faithful_learnt hnet earlier)
  obtain ⟨bs, -, hfresh⟩ := hv _ (faithful_fresh net)
  have hbeside : Beside net bs { s with automata := as } { s with automata := bs } := ⟨⟨hs.network, hs.traced⟩, rfl⟩
  obtain ⟨r, s', t', hs', ht', h, -⟩ := carryOut_indifferent v _ _ hbeside
  refine ⟨v, s, as, bs, hlearnt, hfresh, ?_⟩
  rw [hlearnt, hfresh, hs', ht']
  exact ⟨rfl, h.rest⟩

/-- The lexer of the grammar at the beginning of a text. -/
def Request.ofText (text : String) : Request :=
  { scanner := { network := Grammar.LexerStates.network .skip, cursor := Cursor.ofString text }, mode := 0, quiet := rfl }

open Grammar.LexerStates in
/-- A name is matched as ever after a keyword that begins like it and a character that no token begins with. -/
theorem name_after_others : (network .skip).Mechanical ∧
    ∃ (v : Verdict) (s : Scanner) (as bs : Array (Automaton (List Config))),
      (Request.ofText "value").outcome (network .skip) (learnt (network .skip) [.ofText "var", .ofText "?"]) =
        v.carryOut.outcome { s with automata := as } ∧
      (Request.ofText "value").outcome (network .skip) (freshAutomata (network .skip)) = v.carryOut.outcome { s with automata := bs } ∧
      ((Request.ofText "value").outcome (network .skip) (learnt (network .skip) [.ofText "var", .ofText "?"])).1 =
        ((Request.ofText "value").outcome (network .skip) (freshAutomata (network .skip))).1 ∧
      ((Request.ofText "value").outcome (network .skip) (freshAutomata (network .skip))).2 =
        { ((Request.ofText "value").outcome (network .skip) (learnt (network .skip) [.ofText "var", .ofText "?"])).2 with automata := bs } :=
  have hnet : (network .skip).Mechanical := (planned rfl).mechanical
  ⟨hnet, match_after_others hnet [.ofText "var", .ofText "?"] (.ofText "value")⟩

end Scan

end NimbleLang
