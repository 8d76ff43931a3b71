import NimbleLang.Grammar.Networks
import NimbleLang.Proofs.Decoding
import NimbleLang.Grammar.Phrases

/-!
The parser's network, state by state. The table of the grammar is decoded here once and for all (`parserNetwork_eq`), so
that what holds of the network can be read off its states. The states of a rule stand together, in the order of their
numbers; before them come the first and the last state of every rule.
-/

namespace NimbleLang.Grammar

open Network

namespace States

/-! ## Kinds of states -/

/-- The first state of a rule. -/
def entry (rule : Int) (first stop : Nat) : State :=
  { kind := .ruleStart, rule, edges := [.epsilon first (-1)], precedenceRule := some (rule == 9), ruleStop := some stop }

/-- The last state of a rule leads back to every place the rule is called from. The outermost return is named where the
level of the call is the lowest. -/
def exit (rule : Int) (returns : List (Nat × Int)) : State :=
  { kind := .ruleStop, rule, edges := returns.map fun (n, outermost) => .epsilon n outermost }

def basic (edges : List Edge) : State := { kind := .basic, edges }

def goesOn (targets : List Nat) : List Edge := targets.map (.epsilon · (-1))

/-- A block of alternatives. -/
def block (decision : Int) (alternatives : List Nat) (stop : Nat) : State :=
  { kind := .blockStart, edges := goesOn alternatives, decision := some decision, nonGreedy := some false, blockEnd := some stop }

def blockEnd (next start : Nat) : State := { kind := .blockEnd, edges := goesOn [next], blockStart := some start }

/-- The block inside a loop. -/
def loopBody (decision : Int) (alternatives : List Nat) (stop : Nat) : State :=
  { block decision alternatives stop with kind := .starBlockStart }

def loopEntry (decision : Int) (body leave back : Nat) : State :=
  { kind := .starLoopEntry, edges := goesOn [body, leave], decision := some decision, nonGreedy := some false, loopBack := some back
    precedenceDecision := decision == 12 }

def loopEnd (next back : Nat) : State := { kind := .loopEnd, edges := goesOn [next], loopBack := some back }

def loopBack (entry : Nat) : State := { kind := .starLoopBack, edges := goesOn [entry] }

/-! ## The states -/

def rules : List State :=
  [entry 0 25 1, exit 0 [], entry 1 31 3, exit 1 [(24, -1)], entry 2 53 5, exit 2 [(39, -1), (38, -1)], entry 3 57 7,
    exit 3 [(29, -1)], entry 4 59 9, exit 4 [(51, -1), (58, -1)], entry 5 65 11, exit 5 [(60, -1)], entry 6 71 13,
    exit 6 [(61, -1), (89, -1), (95, -1), (99, -1)], entry 7 74 15, exit 7 [(64, -1)], entry 8 110 17,
    exit 8 [(70, -1)], entry 9 124 19,
    exit 9 [(81, 9), (111, 9), (87, 9), (93, 9), (111, 9), (108, 9), (115, 9), (125, -1), (136, -1), (136, -1),
      (136, -1), (147, 9), (146, 9)],
    entry 10 140 21, exit 10 [(111, -1), (125, -1)]]

def ofRule : Rule → List State
  | .script =>
    [basic [.call 2 1 0 24], loopBody (-1) [22] 24, blockEnd 27 23, loopEntry 0 23 26 27, loopEnd 28 27, loopBack 25,
      basic [.call 6 3 0 29], basic [.atom 30 Token.eof], basic [.epsilon 1 (-1)]]
  | .funcDef =>
    [basic [.atom 32 tFunc], basic [.atom 33 tId], basic [.atom 42 tOpen], basic [.call 4 2 0 39],
      basic [.atom 36 tComma], basic [.call 4 2 0 38], loopBody (-1) [35] 38, blockEnd 41 37, loopEntry 1 37 40 41,
      loopEnd 43 41, loopBack 39, block 2 [34, 43] 43, blockEnd 44 42, basic [.atom 47 tClose], basic [.atom 46 tArrow],
      basic [.atom 48 tType], block 3 [45, 48] 48, blockEnd 49 47, basic [.atom 50 tBegin], basic [.call 8 4 0 51],
      basic [.atom 52 tEnd], basic [.epsilon 3 (-1)]]
  | .parameterDef => [basic [.atom 54 tId], basic [.atom 55 tColon], basic [.atom 56 tType], basic [.epsilon 5 (-1)]]
  | .main => [basic [.call 8 4 0 58], basic [.epsilon 7 (-1)]]
  | .body => [basic [.call 10 5 0 60], basic [.call 12 6 0 61], basic [.epsilon 9 (-1)]]
  | .varBlock =>
    [basic [.call 14 7 0 64], loopBody (-1) [62] 64, blockEnd 67 63, loopEntry 4 63 66 67, loopEnd 11 67, loopBack 65]
  | .block =>
    [basic [.call 16 8 0 70], loopBody (-1) [68] 70, blockEnd 73 69, loopEntry 5 69 72 73, loopEnd 13 73, loopBack 71]
  | .varDec =>
    [basic [.atom 75 tVar], basic [.atom 76 tId], basic [.atom 77 tColon], basic [.atom 80 tType],
      basic [.atom 79 tAssign], basic [.call 18 9 0 81], block 6 [78, 81] 81, blockEnd 15 80]
  | .statement =>
    [basic [.atom 83 tId], basic [.atom 84 tAssign], basic [.call 18 9 0 111], basic [.atom 86 tWhile],
      basic [.call 18 9 0 87], basic [.atom 88 tBegin], basic [.call 12 6 0 89], basic [.atom 90 tEnd],
      basic [.epsilon 111 (-1)], basic [.atom 92 tIf], basic [.call 18 9 0 93], basic [.atom 94 tBegin],
      basic [.call 12 6 0 95], basic [.atom 101 tEnd], basic [.atom 97 tElse], basic [.atom 98 tBegin],
      basic [.call 12 6 0 99], basic [.atom 100 tEnd], basic [.epsilon 102 (-1)], block 7 [96, 102] 102,
      blockEnd 111 101, basic [.atom 104 tPrint], basic [.call 18 9 0 111], basic [.atom 107 tReturn],
      basic [.call 18 9 0 108], block 8 [106, 108] 108, blockEnd 111 107, basic [.call 20 10 0 111],
      block 9 [82, 85, 91, 103, 105, 109] 111, blockEnd 17 110]
  | .expr =>
    [basic [.action 113 9 (-1) false], basic [.atom 114 tOpen], basic [.call 18 9 0 115], basic [.atom 116 tClose],
      basic [.epsilon 125 (-1)], basic [.set 118 ⟨some [⟨16, 18⟩]⟩], basic [.call 18 9 9 125],
      basic [.call 20 10 0 125], basic [.atom 125 tId], basic [.atom 125 tString], basic [.atom 125 tInt],
      basic [.atom 125 tBool], block 10 [112, 117, 119, 120, 121, 122, 123] 125, blockEnd 137 124,
      basic [.precedence 127 8], basic [.set 128 ⟨some [⟨18, 20⟩]⟩], basic [.call 18 9 9 136],
      basic [.precedence 130 7], basic [.set 131 ⟨some [⟨17, 18⟩, ⟨20, 21⟩]⟩], basic [.call 18 9 8 136],
      basic [.precedence 133 6], basic [.set 134 ⟨some [⟨21, 24⟩]⟩], basic [.call 18 9 7 136],
      loopBody 11 [126, 129, 132] 136, blockEnd 139 135, loopEntry 12 135 138 139, loopEnd 19 139, loopBack 137]
  | .funcCall =>
    [basic [.atom 141 tId], basic [.atom 150 tOpen], basic [.call 18 9 0 147], basic [.atom 144 tComma],
      basic [.call 18 9 0 146], loopBody (-1) [143] 146, blockEnd 149 145, loopEntry 13 145 148 149, loopEnd 151 149,
      loopBack 147, block 14 [142, 151] 151, blockEnd 152 150, basic [.atom 153 tClose], basic [.epsilon 21 (-1)],
      basic []]

/-- All states, each with the number of its rule. -/
def all : List State := rules ++ Rule.all.flatMap fun r => (ofRule r).map ({ · with rule := r.index })

def network : Network where
  kind := .parser
  maxTokenType := 30
  states := all.toArray
  decisions := #[25, 39, 42, 47, 65, 71, 80, 101, 107, 110, 124, 135, 137, 147, 150]
  ruleStarts := #[0, 2, 4, 6, 8, 10, 12, 14, 16, 18, 20]
  ruleStops := #[some 1, some 3, some 5, some 7, some 9, some 11, some 13, some 15, some 17, some 19, some 21]

/-! ## The table

Its parts are computed one by one: what stands before the edges, the edges, and the rest. -/

theorem table_parts : (readHead network.kind 30).run (parserTable.drop 3) = .ok (network.draft bare, parserTable.drop 369) ∧
    (readEdges (network.draft bare)).run (parserTable.drop 369) = .ok (network.draft tied, parserTable.drop 1378) ∧
    finish network.kind (ofDraft (network.draft tied)) (parserTable.drop 1378) = .ok network := by
  refine ⟨eq_ok_of_map Draft.listed_injective (by decide +kernel), eq_ok_of_map Draft.listed_injective (by decide +kernel), ?_⟩
  rw [ofDraft_draft]
  exact eq_ok_of_map listed_injective (by decide +kernel)

end States

/-- The table of the grammar spells these states. -/
theorem parserNetwork_eq : parserNetwork = States.network := by
  have hdecode : Network.decode parserTable = .ok States.network :=
    Network.decode_of_parts rfl States.table_parts.1 States.table_parts.2.1 States.table_parts.2.2
  rw [parserNetwork, hdecode]
  rfl

end NimbleLang.Grammar
