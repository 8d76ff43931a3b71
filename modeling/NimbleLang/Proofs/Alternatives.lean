import NimbleLang.Proofs.Surveys

/-!
The decisions of the grammar that two tokens settle: which statement comes, which operand, which operator, and whether
an expression goes on after an operand. Each has a survey, checked against the network, and a theorem that says which
alternative is taken before which tokens: `statement_verdict`, `operand_verdict`, `tail_verdict` and `loop_verdict`.

Whether an expression goes on depends on the precedence level in force: it does if the next token is an operator that
binds at least as tightly (`binding`).
-/

namespace NimbleLang.Predict

open Grammar
open Survey (moveIn_cons moveIn_nil move_of_row rescue_plain settle_picks settle_stuck)

/-! ## Places -/

/-- The return states on a stack, the innermost first. -/
def stack (returns : List Nat) : Context Unit := returns.foldr (fun n below => .call () below n) .root

/-- The precedence levels that the grammar calls expressions in. -/
def levels : List Int := [0, 7, 8, 9]

/-- How tightly an operator binds its operands; the others bind nothing. -/
def binding (t : Int) : Int :=
  if t = tTimes ∨ t = tDivide then 8
  else if t = tMinus ∨ t = tPlus then 7
  else if t = tLess ∨ t = tLessEqual ∨ t = tEqual then 6
  else -1

/-- The states before the operators, with their levels. -/
def operatorStates : List (Nat × Int) := [(127, 8), (130, 7), (133, 6)]

/-- The operators whose level fits. -/
def operatorTypes (fits : Int → Bool) : List Int :=
  [tTimes, tDivide, tMinus, tPlus, tLess, tLessEqual, tEqual].filter fun t => fits (binding t)

/-- The operators whose level fits, read in an alternative that has left so many rules. -/
def beforeOperator (alt outer : Int) (fits : Int → Bool) : List Config :=
  (operatorStates.filter fun (_, p) => fits p).map fun (n, _) => ⟨n, alt, .root, .always, outer, false⟩

/-- Where the rules that call expressions go on, with what they go on to call and how many rules end there. -/
def afterExpr (alt : Int) (exempt : Bool) : List Config :=
  [(74, [64], 2), (82, [70], 3), (85, [70], 3), (91, [70], 3), (103, [70], 3), (105, [70], 3), (140, [111, 70], 3),
    (51, [], 4), (29, [], 5), (89, [], 3), (95, [], 3), (99, [], 3), (87, [], 1), (93, [], 1), (115, [], 1)].map
    fun (n, returns, outer) => ⟨n, alt, stack returns, .always, outer, exempt⟩

/-- Where a call goes on after an argument. -/
def afterArgument (alt : Int) (exempt : Bool) : List Config := [143, 152].map fun n => ⟨n, alt, .root, .always, 3, exempt⟩

/-- The tokens that may follow an expression, apart from operators. -/
def followers : List Int := [Token.eof, tComma, tClose, tBegin, tEnd, tVar, tWhile, tIf, tPrint, tReturn, tId]

/-! ## Statements -/

def statementStart : ConfigSet where
  fullContext := false
  configs := #[⟨82, 1, .root, .always, 0, false⟩, ⟨85, 2, .root, .always, 0, false⟩, ⟨91, 3, .root, .always, 0, false⟩,
    ⟨103, 4, .root, .always, 0, false⟩, ⟨105, 5, .root, .always, 0, false⟩, ⟨140, 6, stack [111], .always, 0, false⟩]

/-- After a name: an assignment or a call. -/
def statementNamed : ConfigSet where
  fullContext := false
  configs := #[⟨83, 1, .root, .always, 0, false⟩, ⟨141, 6, stack [111], .always, 0, false⟩]

def statementSurvey : Survey where
  state := 110
  byPrecedence := false
  levels := levels
  raw := statementStart
  start _ := statementStart
  table := [(statementStart, [([tWhile], .picks 2), ([tIf], .picks 3), ([tPrint], .picks 4), ([tReturn], .picks 5),
      ([tId], .on statementNamed)]),
    (statementNamed, [([tAssign], .picks 1), ([tOpen], .picks 6)])]
  level _ := none
  memories := [[]]

instance statementSurvey_checked : statementSurvey.Checked where
  distinct := by decide +kernel
  unsettled := by decide +kernel
  known := by decide +kernel
  memories := by decide +kernel
  raw := by decide +kernel
  single _ _ := rfl
  levelled := nofun
  types := by decide +kernel
  rows := by decide +kernel

theorem statementSurvey_brief : statementSurvey.Brief := ⟨by decide, by decide⟩

theorem statementStart_row : statementSurvey.table.find? (·.1 = statementStart) = some (statementStart,
    [([tWhile], .picks 2), ([tIf], .picks 3), ([tPrint], .picks 4), ([tReturn], .picks 5), ([tId], .on statementNamed)]) := by
  decide

theorem statementNamed_row : statementSurvey.table.find? (·.1 = statementNamed) = some (statementNamed,
    [([tAssign], .picks 1), ([tOpen], .picks 6)]) := by
  decide

set_option maxRecDepth 4000 in
/-- A statement is told by its first token, or by its second one if the first is a name. -/
theorem statement_verdict (level t t' : Int) : statementSurvey.verdict level t t' =
    if t = tWhile then some 2 else if t = tIf then some 3 else if t = tPrint then some 4 else if t = tReturn then some 5
    else if t = tId then if t' = tAssign then some 1 else if t' = tOpen then some 6 else none
    else none := by
  have hstart : rescue States.network level statementStart.configs.toList = 0 := by
    rw [rescue_plain (by decide)]
    decide
  have hnamed : rescue States.network level statementNamed.configs.toList = 0 := by
    rw [rescue_plain (by decide)]
    decide
  have hanswer : ∀ alt, statementSurvey.chart.answer level alt = some alt := fun _ => rfl
  have hset : statementSurvey.start level = statementStart := rfl
  have hfirst := move_of_row statementStart_row t
  have hsecond := move_of_row statementNamed_row t'
  simp only [moveIn_cons, moveIn_nil, List.mem_singleton] at hfirst hsecond
  have hlast : statementSurvey.settle level statementNamed (statementSurvey.chart.move statementNamed t') =
      if t' = tAssign then some 1 else if t' = tOpen then some 6 else none := by
    rw [hsecond]
    split_ifs <;> simp [settle_picks, settle_stuck, hanswer, hnamed]
  rw [Survey.verdict, hset, hfirst, ← hlast]
  split_ifs <;> simp [settle_picks, settle_stuck, hanswer, hstart]

/-! ## Operands -/

def operandStart : ConfigSet where
  fullContext := false
  configs := #[⟨113, 1, .root, .always, 0, false⟩, ⟨117, 2, .root, .always, 0, false⟩, ⟨140, 3, stack [125], .always, 0, false⟩,
    ⟨120, 4, .root, .always, 0, false⟩, ⟨121, 5, .root, .always, 0, false⟩, ⟨122, 6, .root, .always, 0, false⟩,
    ⟨123, 7, .root, .always, 0, false⟩]

/-- After a name: a call, or whatever follows an operand. -/
def operandNamed : ConfigSet where
  fullContext := false
  dips := true
  configs := (⟨141, 3, stack [125], .always, 0, false⟩ :: beforeOperator 4 2 (fun _ => true) ++ afterExpr 4 false ++
    afterArgument 4 false).toArray

def operandSurvey : Survey where
  state := 124
  byPrecedence := false
  levels := levels
  raw := operandStart
  start _ := operandStart
  table := [(operandStart, [([tOpen], .picks 1), ([tNot, tMinus], .picks 2), ([tId], .on operandNamed), ([tString], .picks 5),
      ([tInt], .picks 6), ([tBool], .picks 7)]),
    (operandNamed, [([tOpen], .picks 3), (followers ++ operatorTypes (fun _ => true), .picks 4)])]
  level _ := none
  -- what follows a block is met both with a block around it and without
  memories := [[], [((stack [61], .root), .root)]]

instance operandSurvey_checked : operandSurvey.Checked where
  distinct := by decide +kernel
  unsettled := by decide +kernel
  known := by decide +kernel
  memories := by decide +kernel
  raw := by decide +kernel
  single _ _ := rfl
  levelled := nofun
  types := by decide +kernel
  rows := by decide +kernel

theorem operandSurvey_brief : operandSurvey.Brief := ⟨by decide, by decide⟩

theorem operandStart_row : operandSurvey.table.find? (·.1 = operandStart) = some (operandStart,
    [([tOpen], .picks 1), ([tNot, tMinus], .picks 2), ([tId], .on operandNamed), ([tString], .picks 5), ([tInt], .picks 6),
      ([tBool], .picks 7)]) := by
  decide

theorem operandNamed_row : operandSurvey.table.find? (·.1 = operandNamed) = some (operandNamed,
    [([tOpen], .picks 3), (followers ++ operatorTypes (fun _ => true), .picks 4)]) := by
  decide

set_option maxRecDepth 4000 in
/-- An operand is told by its first token; a name is called if a parenthesis follows it. -/
theorem operand_verdict (level t t' : Int) : operandSurvey.verdict level t t' =
    if t = tOpen then some 1 else if t = tNot ∨ t = tMinus then some 2
    else if t = tId then if t' = tOpen then some 3 else some 4
    else if t = tString then some 5 else if t = tInt then some 6 else if t = tBool then some 7 else none := by
  have hstart : rescue States.network level operandStart.configs.toList = 0 := by
    rw [rescue_plain (by decide)]
    decide
  have hnamed : rescue States.network level operandNamed.configs.toList = 4 := by
    rw [rescue_plain (by decide)]
    decide
  have hanswer : ∀ alt, operandSurvey.chart.answer level alt = some alt := fun _ => rfl
  have hset : operandSurvey.start level = operandStart := rfl
  have hfirst := move_of_row operandStart_row t
  have hsecond := move_of_row operandNamed_row t'
  simp only [moveIn_cons, moveIn_nil, List.mem_cons, List.not_mem_nil, or_false] at hfirst
  simp only [moveIn_cons, moveIn_nil, List.mem_singleton] at hsecond
  have hlast : operandSurvey.settle level operandNamed (operandSurvey.chart.move operandNamed t') =
      if t' = tOpen then some 3 else some 4 := by
    rw [hsecond]
    split_ifs <;> simp [settle_picks, settle_stuck, hanswer, hnamed]
  rw [Survey.verdict, hset, hfirst, ← hlast]
  split_ifs <;> simp [settle_picks, settle_stuck, hanswer, hstart]

/-! ## Operators -/

def tailStart : ConfigSet where
  fullContext := false
  hasGuards := true
  configs := #[⟨127, 1, .root, .precedence 8, 0, false⟩, ⟨130, 2, .root, .precedence 7, 0, false⟩,
    ⟨133, 3, .root, .precedence 6, 0, false⟩]

def tailSurvey : Survey where
  state := 135
  byPrecedence := false
  levels := levels
  raw := tailStart
  start _ := tailStart
  table := [(tailStart, [([tTimes, tDivide], .picks 1), ([tMinus, tPlus], .picks 2), ([tLess, tLessEqual, tEqual], .picks 3)])]
  level alt := some (9 - alt)
  memories := [[]]

instance tailSurvey_checked : tailSurvey.Checked where
  distinct := by decide +kernel
  unsettled := by decide +kernel
  known := by decide +kernel
  memories := by decide +kernel
  raw := by decide +kernel
  single _ _ := rfl
  levelled := nofun
  types := by decide +kernel
  rows := by decide +kernel

theorem tailSurvey_brief : tailSurvey.Brief := ⟨by decide, by decide⟩

theorem tailStart_row : tailSurvey.table.find? (·.1 = tailStart) = some (tailStart,
    [([tTimes, tDivide], .picks 1), ([tMinus, tPlus], .picks 2), ([tLess, tLessEqual, tEqual], .picks 3)]) := by
  decide

set_option maxRecDepth 4000 in
/-- An operator that the level allows is told by its token. -/
theorem tail_verdict {level : Int} (hlevel : level ∈ levels) (t t' : Int) :
    tailSurvey.verdict level t t' = if binding t ≥ level then some (9 - binding t) else none := by
  have hstart : ∀ level ∈ levels, rescue States.network level tailStart.configs.toList = 0 := by decide
  have hnonneg : ∀ level ∈ levels, 0 ≤ level := by decide
  have hanswer : ∀ alt, tailSurvey.chart.answer level alt = if 9 - alt ≥ level then some alt else none := fun _ => rfl
  have hset : tailSurvey.start level = tailStart := rfl
  have hfirst := move_of_row tailStart_row t
  simp only [moveIn_cons, moveIn_nil, List.mem_cons, List.not_mem_nil, or_false] at hfirst
  rw [Survey.verdict, hset, hfirst, binding]
  have := hnonneg level hlevel
  split_ifs <;> simp [settle_picks, settle_stuck, hstart level hlevel, *]
  all_goals omega

/-! ## Whether an expression goes on -/

/-- The set before the level is taken into account. -/
def loopRaw : ConfigSet where
  fullContext := false
  hasGuards := true
  dips := true
  configs := (operatorStates.map (fun (n, p) => (⟨n, 1, .root, .precedence p, 0, false⟩ : Config)) ++ afterExpr 2 true ++
    beforeOperator 2 2 (fun _ => true) ++ afterArgument 2 true).toArray

/-- An operator that the level does not allow can be read by an expression around. -/
def loopStart (level : Int) : ConfigSet where
  fullContext := false
  dips := true
  configs := (beforeOperator 1 0 (level ≤ ·) ++ afterExpr 2 true ++ beforeOperator 2 2 (· < level) ++ afterArgument 2 true).toArray

def loopRow (level : Int) : List (List Int × Move) :=
  [(operatorTypes (level ≤ ·), .picks 1), (followers ++ operatorTypes (· < level), .picks 2)]

def loopSurvey : Survey where
  state := 137
  byPrecedence := true
  levels := levels
  raw := loopRaw
  start := loopStart
  table := levels.map fun level => (loopStart level, loopRow level)
  level _ := none
  memories := [[]]

instance loopSurvey_checked : loopSurvey.Checked where
  distinct := by decide +kernel
  unsettled := by decide +kernel
  known := by decide +kernel
  memories := by decide +kernel
  raw := by decide +kernel
  single := nofun
  levelled _ := by decide +kernel
  types := by decide +kernel
  rows := by decide +kernel

theorem loopSurvey_brief : loopSurvey.Brief := ⟨by decide, by decide⟩

theorem loopStart_row : ∀ level ∈ levels, loopSurvey.table.find? (·.1 = loopStart level) = some (loopStart level, loopRow level) := by
  decide

theorem mem_operatorTypes {fits : Int → Bool} {t : Int} : t ∈ operatorTypes fits ↔ binding t ≠ -1 ∧ fits (binding t) = true := by
  unfold operatorTypes
  rw [List.mem_filter]
  refine and_congr_left fun _ => ?_
  unfold binding
  split_ifs <;> simp <;> tauto

set_option maxRecDepth 4000 in
/-- An expression goes on with an operator that the level allows, and with nothing else. -/
theorem loop_verdict {level : Int} (hlevel : level ∈ levels) (t t' : Int) :
    loopSurvey.verdict level t t' = some (if binding t ≥ level then 1 else 2) := by
  have hstart : ∀ level ∈ levels, rescue States.network level (loopStart level).configs.toList = 2 := by decide
  have hnonneg : ∀ level ∈ levels, 0 ≤ level := by decide
  have hanswer : ∀ alt, loopSurvey.chart.answer level alt = some alt := fun _ => rfl
  have hset : loopSurvey.start level = loopStart level := rfl
  have hfirst := move_of_row (loopStart_row level hlevel) t
  simp only [loopRow, moveIn_cons, moveIn_nil, mem_operatorTypes, decide_eq_true_eq] at hfirst
  rw [Survey.verdict, hset, hfirst]
  have := hnonneg level hlevel
  by_cases hbinds : binding t ≥ level
  · rw [if_pos ⟨by omega, hbinds⟩, if_pos hbinds]
    exact hanswer 1
  · rw [if_neg fun h => hbinds h.2, if_neg hbinds]
    split_ifs <;> simp [settle_picks, settle_stuck, hanswer, hstart level hlevel]

end NimbleLang.Predict
