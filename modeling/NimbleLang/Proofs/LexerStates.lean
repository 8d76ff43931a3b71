import NimbleLang.Grammar.Networks
import NimbleLang.Proofs.Decoding

/-!
The lexer's networks, state by state. The table of the grammar is decoded here once and for all (`lexerNetwork_eq`). After
the state that all rules start from come the first and the last state of every rule; then the states of each rule stand
together. A quoted symbol is a chain of characters.
-/

namespace NimbleLang.Grammar

open Network

namespace LexerStates

/-! ## Kinds of states -/

def basic (edges : List Edge) : State := { kind := .basic, edges }

def goesOn (targets : List Nat) : List Edge := targets.map (.epsilon · (-1))

/-- The first and the last state of a rule. The parts of a string body return to the string. -/
def ends (rule first : Nat) : List State :=
  [{ kind := .ruleStart, rule, edges := goesOn [first], precedenceRule := some false, ruleStop := some (2 * rule + 2) },
    { kind := .ruleStop, rule, edges := if rule = 24 ∨ rule = 25 then goesOn [140] else [] }]

/-- The states from `first` on that read a text and go on to `next`. -/
def chain (first next : Nat) (text : List Char) : List State :=
  text.zipIdx.map fun (c, i) => basic [.atom (if i + 1 = text.length then next else first + i + 1) c.toNat]

/-- A block of alternatives. -/
def block (kind : StateKind) (decision : Int) (alternatives : List Nat) (stop : Nat) : State :=
  { kind, edges := goesOn alternatives, decision := some decision, nonGreedy := some false, blockEnd := some stop }

def blockEnd (next start : Nat) : State := { kind := .blockEnd, edges := goesOn [next], blockStart := some start }

def loopEntry (decision : Int) (lazy : Bool) (ways : List Nat) (back : Nat) : State :=
  { kind := .starLoopEntry, edges := goesOn ways, decision := some decision, nonGreedy := some lazy, loopBack := some back }

def loopEnd (next back : Nat) : State := { kind := .loopEnd, edges := goesOn [next], loopBack := some back }

def loopBack (entry : Nat) : State := { kind := .starLoopBack, edges := goesOn [entry] }

/-- A loop of at least one turn: its block, the end of the block, the way back and the way out. -/
def plusLoop (body decision next : Nat) : List State :=
  [{ block .plusBlockStart (-1) [body] (body + 2) with loopBack := some (body + 3) }, blockEnd (body + 3) (body + 1),
    { kind := .plusLoopBack, edges := goesOn [body + 1, body + 4], decision := some decision, nonGreedy := some false },
    loopEnd next (body + 3)]

/-- A loop over one state: its block, the end of the block, the entry, the way out and the way back. -/
def starLoop (body decision next : Nat) : List State :=
  [block .starBlockStart (-1) [body] (body + 2), blockEnd (body + 5) (body + 1),
    loopEntry decision false [body + 1, body + 4] (body + 5), loopEnd next (body + 5), loopBack (body + 3)]

/-! ## The states -/

/-- The quoted symbols and keywords, in the order of their rules. -/
def quoted : List String :=
  ["func", "(", ",", ")", "->", "\x7b", "\x7d", ":", "var", "=", "while", "if", "else", "print", "return", "!", "-", "*",
    "/", "+", "<", "<=", "=="]

/-- The chains of the quoted symbols, and the state after them. -/
def quotedStates : List String → Nat → Nat → List (Nat × List State)
  | [], _, _ => []
  | text :: rest, rule, first =>
    let next := first + text.length
    (first, chain first next text.toList ++ [basic (goesOn [2 * rule + 2])]) :: quotedStates rest (rule + 1) (next + 1)

def chars (spans : List Span) : IntervalSet := ⟨some spans⟩

/-- The states of the other rules, each with the state its rule begins at. -/
def classStates : List (Nat × List State) :=
  [(136, chain 136 141 ['"'] ++
      [basic [.call 49 24 0 140], basic [.call 51 25 0 140], block .starBlockStart 1 [137, 138] 140, blockEnd 143 139,
        loopEntry 2 true [142, 139] 143, loopEnd 144 143, loopBack 141] ++ chain 144 145 ['"'] ++ [basic (goesOn [48])]),
    (146, [basic [.set 147 (chars [⟨32, 92⟩, ⟨93, 127⟩])], basic (goesOn [50])]),
    (148, chain 148 149 ['\\'] ++
      [basic [.set 150 (chars [⟨34, 35⟩, ⟨39, 40⟩, ⟨63, 64⟩, ⟨92, 93⟩, ⟨97, 99⟩, ⟨102, 103⟩, ⟨110, 111⟩, ⟨114, 115⟩, ⟨116, 117⟩,
        ⟨118, 119⟩])], basic (goesOn [52])]),
    (152, basic [.set 153 (chars [⟨48, 58⟩])] :: plusLoop 151 3 54),
    (169, chain 156 170 "Int".toList ++ chain 159 170 "Bool".toList ++ chain 163 170 "String".toList ++
      [block .blockStart 4 [156, 159, 163] 170, blockEnd 56 169]),
    (180, chain 171 181 "true".toList ++ chain 175 181 "false".toList ++ [block .blockStart 5 [171, 175] 181, blockEnd 58 180]),
    (182, basic [.set 186 (chars [⟨65, 91⟩, ⟨95, 96⟩, ⟨97, 123⟩])] ::
      basic [.set 185 (chars [⟨48, 58⟩, ⟨65, 91⟩, ⟨95, 96⟩, ⟨97, 123⟩])] :: starLoop 183 6 60),
    (190, basic [.set 191 (chars [⟨9, 11⟩, ⟨13, 14⟩, ⟨32, 33⟩])] :: plusLoop 189 7 194 ++
      [basic [.action 195 30 0 false], basic (goesOn [62])]),
    (196, chain 196 198 "//".toList ++ [basic (goesOn [202]), basic [.notSet 201 (chars [⟨10, 11⟩, ⟨13, 14⟩])]] ++
      starLoop 199 8 205 ++ [basic [.action 206 31 0 false], basic (goesOn [64])])]

def rules : List (Nat × List State) := quotedStates quoted 0 65 ++ classStates

/-- The rules that make tokens. -/
def starts : List Nat := (List.range 32).filter fun rule => rule ≠ 24 ∧ rule ≠ 25

def all : List State :=
  { kind := .tokensStart, rule := -1, edges := goesOn (starts.map fun rule => 2 * rule + 1), decision := some 0, nonGreedy := some false } ::
    (rules.zipIdx.flatMap fun ((first, _), rule) => ends rule first) ++
    rules.zipIdx.flatMap fun ((_, states), rule) => states.map ({ · with rule := rule })

/-- The token types of the rules; the parts of a string body make none. -/
def tokenTypes : Array Int :=
  #[1, 2, 3, 4, 5, 6, 7, 8, 9, 10, 11, 12, 13, 14, 15, 16, 17, 18, 19, 20, 21, 22, 23, 24, 0, 0, 25, 26, 27, 28, 29, 30]

/-- The network whose blanks and comments carry out `command`. -/
def network (command : Command) : Network where
  kind := .lexer
  maxTokenType := 30
  states := all.toArray
  decisions := #[0, 139, 141, 154, 169, 180, 186, 192, 202]
  ruleStarts := ((List.range 32).map fun rule => 2 * rule + 1).toArray
  ruleStops := ((List.range 32).map fun rule => some (2 * rule + 2)).toArray
  ruleTokens := some tokenTypes
  modes := #[0]
  commands := some #[command]

/-! ## The table

Its parts are computed one by one: what stands before the edges, the edges, and the rest. -/

theorem table_parts :
    (readHead (network .skip).kind 30).run (lexerTable.drop 3) = .ok ((network .skip).draft bare, lexerTable.drop 565) ∧
    (readEdges ((network .skip).draft bare)).run (lexerTable.drop 565) = .ok ((network .skip).draft tied, lexerTable.drop 1844) ∧
    finish (network .skip).kind (ofDraft ((network .skip).draft tied)) (lexerTable.drop 1844) = .ok (network .skip) := by
  refine ⟨eq_ok_of_map Draft.listed_injective (by decide +kernel), eq_ok_of_map Draft.listed_injective (by decide +kernel), ?_⟩
  rw [ofDraft_draft]
  exact eq_ok_of_map listed_injective (by decide +kernel)

end LexerStates

/-- The table of the grammar spells these states. -/
theorem lexerNetwork_eq : lexerNetwork = LexerStates.network .skip := by
  have hdecode : Network.decode lexerTable = .ok (LexerStates.network .skip) :=
    Network.decode_of_parts rfl LexerStates.table_parts.1 LexerStates.table_parts.2.1 LexerStates.table_parts.2.2
  rw [lexerNetwork, hdecode]
  rfl

theorem keepingNetwork_eq : keepingNetwork = LexerStates.network (.channel 1) := by
  rw [keepingNetwork, lexerNetwork_eq]
  rfl

end NimbleLang.Grammar
