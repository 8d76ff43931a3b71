import NimbleLang.Proofs.Paths
import NimbleLang.Proofs.Rooms

/-!
What an analysis says about reachability is exact. The findings that are about the ways through a block depend on
the statements of the block alone, not on types or scopes (`run_flow`); and they are right:

- `unreachable_exactly_unreached`: the statements noted as unreachable are those to which no way from the start of
  their body leads.
- `missing_return_exactly_falls_off`: a missing return is noted on the block of a function, once for each function
  that declares what it returns and through whose block some way comes to the end; and on no other block.
-/

namespace NimbleLang

open Fault (bind_eq_ok bind_bind_eq_ok)

/-! ## Findings about ways -/

/-- Whether a finding of a category is about the ways through a block. -/
def Category.isFlow (c : Category) : Bool := c = .unreachableStatement || c = .missingReturn

/-- The findings about the ways through blocks. -/
def Notes.flow (n : Notes) : List Finding := n.findings.filter (·.category.isFlow)

namespace Notes

@[simp] theorem flow_append (a b : Notes) : (a ++ b).flow = a.flow ++ b.flow := List.filter_append ..
@[simp] theorem flow_none : Notes.none.flow = [] := rfl
@[simp] theorem flow_typed (node : Node) (t : Ty) : (typed node t).flow = [] := rfl

variable {c : Category}

@[simp] theorem flow_found (h : c.isFlow = false) (node : Node) (m : String) : (found node c m).flow = [] := by
  simp [flow, found, h]

@[simp] theorem flow_require (h : c.isFlow = false) (well : Bool) (node : Node) (m : String) :
    (require well node c m).flow = [] := by
  cases well
  · exact flow_found h node m
  · rfl

theorem flow_ofFindings {fs : List Finding} (h : ∀ f ∈ fs, f.category.isFlow = true) : (ofFindings fs).flow = fs :=
  List.filter_eq_self.mpr h

/-- Findings of one category about ways are found among those about ways. -/
theorem filter_flow (n : Notes) (h : c.isFlow = true) :
    n.flow.filter (·.category = c) = n.findings.filter (·.category = c) := by
  rw [flow, List.filter_filter]
  refine List.filter_congr fun f _ => ?_
  by_cases e : f.category = c
  · simp [e, h]
  · simp [e]

end Notes

namespace Check

variable {look : Lookup} {n : Notes}

variable {c : Call} {types : List Ty} {t : Ty} {outer : Lookup} {s s' : Scope} {v : VarDec} {f : Finding}

theorem callType_flow (h : callType look c types = .ok (t, n)) :
    n.flow = [] := by
  rcases callType_ok h with ⟨s, ps, -, -, -, rfl⟩ | ⟨-, ⟨m, rfl⟩, -⟩
  · rfl
  · exact Notes.flow_found rfl ..

theorem closeCall_flow {m : Notes} (hm : m.flow = [])
    (h : closeCall look c types m = .ok (t, n)) : n.flow = [] := by
  obtain ⟨r, hr, h⟩ := bind_eq_ok.1 h
  cases h
  simp [hm, callType_flow hr]

theorem referenceType_flow (e : Expr) (x : String) : (referenceType look e x).2.flow = [] := by
  rcases referenceType_cases look e x with ⟨s, t, -, -, -, h⟩ | ⟨-, c, m, hc, h⟩
  · rw [h]
    rfl
  · rw [h]
    rcases hc with rfl | rfl <;> exact Notes.flow_found rfl ..

mutual
theorem expr_flow {e : Expr} {t : Ty} {n : Notes} (h : expr look e = .ok (t, n)) : n.flow = [] := by
  cases e with
  | parens p e | signed p s e =>
    obtain ⟨r, hr, h⟩ := bind_eq_ok.1 h
    cases h
    simp [expr_flow hr, Category.isFlow]
  | binary op l r =>
    obtain ⟨left, right, hl, hr, h⟩ := bind_bind_eq_ok.1 h
    cases h
    simp [expr_flow hl, expr_flow hr, Category.isFlow]
  | call p f as =>
    obtain ⟨r, c, hr, hc, h⟩ := bind_bind_eq_ok.1 h
    cases h
    simp [closeCall_flow (args_flow hr) hc, Category.isFlow]
  | reference p x =>
    rw [expr_reference] at h
    obtain ⟨-, rfl⟩ := Prod.mk.inj (Except.ok.inj h)
    simp [referenceType_flow]
  | stringLiteral | intLiteral | boolLiteral =>
    cases h
    rfl

theorem args_flow {as : List Expr} {ts : List Ty} {n : Notes} (h : args look as = .ok (ts, n)) : n.flow = [] := by
  cases as with
  | nil =>
    cases h
    rfl
  | cons e rest =>
    obtain ⟨r, rs, hr, hrs, h⟩ := bind_bind_eq_ok.1 h
    cases h
    simp [expr_flow hr, args_flow hrs]
end

theorem call_flow (h : call look c = .ok (t, n)) : n.flow = [] := by
  obtain ⟨r, hr, h⟩ := bind_eq_ok.1 h
  exact closeCall_flow (args_flow hr) h

/-! ## Declarations say nothing about ways -/

theorem duplicate_flow (s : Scope) (node : Node) (x : String) : (duplicate s node x).2.flow = [] :=
  Notes.flow_found rfl ..

theorem parameter_flow (s : Scope) (p : Parameter) : (parameter s p).2.flow = [] := by
  unfold parameter
  split
  · exact duplicate_flow ..
  · rfl

theorem parameters_flow (s : Scope) (ps : List Parameter) : (parameters s ps).2.flow = [] := by
  induction ps generalizing s with
  | nil => rfl
  | cons p ps ih => simp [parameters, parameter_flow, ih]

theorem enterVariable_flow (s : Scope) (v : VarDec) : (enterVariable s v).2.1.flow = [] := by
  unfold enterVariable
  split
  · exact duplicate_flow s (.varDec v) v.name
  · rfl

theorem initialiser_flow {value : Option Ty}
    (h : initialiser outer s v = .ok (value, n)) : n.flow = [] := by
  unfold initialiser at h
  split at h
  · cases h
    rfl
  · obtain ⟨r, hr, h⟩ := bind_eq_ok.1 h
    cases h
    exact expr_flow hr

theorem closeVarDec_flow (s : Scope) (v : VarDec) (value : Option Ty) : (closeVarDec s v value).2.flow = [] := by
  unfold closeVarDec
  dsimp only
  split
  · exact enterVariable_flow s v
  · simp [enterVariable_flow, Category.isFlow]

theorem varDec_flow (h : varDec outer s v = .ok (s', n)) : n.flow = [] := by
  obtain ⟨value, m, hm, -, rfl⟩ := varDec_eq_ok.1 h
  simp [initialiser_flow hm, closeVarDec_flow]

theorem varDecs_flow {vs : List VarDec} (h : varDecs outer s vs = .ok (s', n)) :
    n.flow = [] := by
  induction vs generalizing s n with
  | nil =>
    cases h
    rfl
  | cons v vs ih =>
    obtain ⟨r, rs, hr, hrs, h⟩ := bind_bind_eq_ok.1 h
    cases h
    simp [varDec_flow hr, ih hrs]

/-! ## What statements say about ways -/

mutual
/-- What is marked inside a statement. -/
def marksIn : Stmt → List Finding
  | .loop _ _ body => marksOf body ++ markAfterStop body
  | .ifThen _ _ yes => marksOf yes ++ markAfterStop yes
  | .ifElse _ _ yes no => marksOf yes ++ markAfterStop yes ++ (marksOf no ++ markAfterStop no)
  | _ => []

def marksOf : List Stmt → List Finding
  | [] => []
  | s :: rest => marksIn s ++ marksOf rest
end

mutual
theorem markAll_unreachable {s : Stmt} {f : Finding} (h : f ∈ markAll s) : f.category = .unreachableStatement := by
  cases s with
  | assign | print | leave | call =>
    rw [List.mem_singleton.mp h]
    rfl
  | loop p e body | ifThen p e body =>
    rcases List.mem_cons.mp h with rfl | h
    · rfl
    · exact markEach_unreachable h
  | ifElse p e yes no =>
    rcases List.mem_cons.mp h with rfl | h
    · rfl
    · rcases List.mem_append.mp h with h | h
      · exact markEach_unreachable h
      · exact markEach_unreachable h

theorem markEach_unreachable {ss : List Stmt} {f : Finding} (h : f ∈ markEach ss) :
    f.category = .unreachableStatement := by
  cases ss with
  | nil => cases h
  | cons s rest =>
    rcases List.mem_append.mp h with h | h
    · exact markAll_unreachable h
    · exact markEach_unreachable h
end

theorem markAfterStop_unreachable {ss : List Stmt} (h : f ∈ markAfterStop ss) :
    f.category = .unreachableStatement := by
  induction ss with
  | nil => cases h
  | cons s rest ih =>
    rw [markAfterStop] at h
    split at h
    · exact markEach_unreachable h
    · exact ih h

@[simp] theorem flow_marks (ss : List Stmt) : (Notes.ofFindings (markAfterStop ss)).flow = markAfterStop ss :=
  Notes.flow_ofFindings fun f hf => by rw [markAfterStop_unreachable hf]; rfl

theorem assignment_flow (own : Stmt) (x : String) (t : Ty) : (assignment look own x t).flow = [] := by
  unfold assignment
  split
  · exact Notes.flow_found rfl ..
  · exact Notes.flow_require rfl ..

theorem returned_flow (returns : Option SymbolType) (own : Stmt) (value : Option Ty) :
    (returned returns own value).flow = [] := by
  unfold returned
  dsimp only
  split
  · split
    · exact Notes.flow_found rfl ..
    · rfl
  · split
    · exact Notes.flow_found rfl ..
    · split
      · rfl
      · exact Notes.flow_found rfl ..

variable {returns : Option SymbolType}

mutual
/-- Whatever the types are, a statement is noted for what is marked inside it. -/
theorem statement_flow {s : Stmt} {n : Notes} (h : statement look returns s = .ok n) : n.flow = marksIn s := by
  cases s with
  | assign p x e =>
    obtain ⟨r, hr, h⟩ := bind_eq_ok.1 h
    cases h
    simp [expr_flow hr, assignment_flow, marksIn]
  | loop p e body =>
    obtain ⟨r, inner, hr, hi, h⟩ := bind_bind_eq_ok.1 h
    cases h
    simp [expr_flow hr, statements_flow hi, loopCondition, marksIn, Category.isFlow]
  | ifThen p e yes =>
    obtain ⟨r, inner, hr, hi, h⟩ := bind_bind_eq_ok.1 h
    cases h
    simp [expr_flow hr, statements_flow hi, ifCondition, marksIn, Category.isFlow]
  | ifElse p e yes no =>
    obtain ⟨r, innerYes, hr, hy, h⟩ := bind_bind_eq_ok.1 h
    obtain ⟨innerNo, hn, h⟩ := bind_eq_ok.1 h
    cases h
    simp [expr_flow hr, statements_flow hy, statements_flow hn, ifCondition, marksIn, Category.isFlow]
  | print p e =>
    obtain ⟨r, hr, h⟩ := bind_eq_ok.1 h
    cases h
    simp [expr_flow hr, marksIn, Category.isFlow]
  | leave p v =>
    cases v with
    | none =>
      cases h
      exact returned_flow ..
    | some e =>
      obtain ⟨r, hr, h⟩ := bind_eq_ok.1 h
      cases h
      simp [expr_flow hr, returned_flow, marksIn]
  | call c =>
    obtain ⟨r, hr, h⟩ := bind_eq_ok.1 h
    cases h
    exact call_flow hr

theorem statements_flow {ss : List Stmt} {n : Notes} (h : statements look returns ss = .ok n) : n.flow = marksOf ss := by
  cases ss with
  | nil =>
    cases h
    rfl
  | cons s rest =>
    obtain ⟨m, more, hm, hmore, h⟩ := bind_bind_eq_ok.1 h
    cases h
    simp [statement_flow hm, statements_flow hmore, marksOf]
end

/-- What is marked in a block. -/
def blockMarks (b : Block) : List Finding := marksOf b.statements ++ markAfterStop b.statements

def functionMarks (f : FuncDef) : List Finding :=
  blockMarks f.body.block ++ if f.returns.isSome then missingReturn f.body.block else []

theorem missingReturn_category {b : Block} (h : f ∈ missingReturn b) : f.category = .missingReturn := by
  unfold missingReturn at h
  split at h
  · cases h
  · rw [List.mem_singleton.mp h]

theorem body_flow {b : Body} (h : body outer s b = .ok (s', n)) :
    n.flow = blockMarks b.block := by
  obtain ⟨m, more, hv, hs, rfl⟩ := body_eq_ok.1 h
  simp [varDecs_flow hv, statements_flow hs, blockMarks]

theorem function_flow {f : FuncDef} (h : function outer s f = .ok (s', n)) :
    n.flow = functionMarks f := by
  obtain ⟨m, hb, rfl⟩ := function_eq_ok.1 h
  have hm : (Notes.ofFindings (if f.returns.isSome then missingReturn f.body.block else [])).flow =
      if f.returns.isSome then missingReturn f.body.block else [] := by
    apply Notes.flow_ofFindings
    intro g hg
    split at hg
    · rw [missingReturn_category hg]
      rfl
    · cases hg
  rw [Notes.flow_append, Notes.flow_append, parameters_flow, body_flow hb, hm]
  rfl

theorem surveyFunctions_flow {rooms rooms' : Rooms} {fs : List FuncDef}
    (h : surveyFunctions outer rooms fs = .ok (rooms', n)) : n.flow = fs.flatMap functionMarks := by
  induction fs generalizing rooms n with
  | nil =>
    cases h
    rfl
  | cons f fs ih =>
    obtain ⟨r, rs, hr, hrs, h⟩ := bind_bind_eq_ok.1 h
    cases h
    simp [function_flow hr, ih hrs]

end Check

/-- What an analysis finds about the ways through blocks, in the order it finds it. -/
theorem Analysis.run_flow {s : Script} {a : Analysis} (h : run (.script s) false = .ok a) :
    a.notes.flow = s.functions.flatMap Check.functionMarks ++ Check.blockMarks s.main.block := by
  obtain ⟨rooms, hs, -⟩ := survey_of_run h
  obtain ⟨r, m, hr, hm, hs⟩ := bind_bind_eq_ok.1 hs
  obtain ⟨-, hn⟩ := Prod.mk.inj (Except.ok.inj hs)
  rw [← hn, Notes.flow_append, Check.surveyFunctions_flow hr, Check.body_flow hm]

/-! ## Marks are exact -/

namespace Flow

open Check

mutual
/-- Marking a statement marks all that stands in it. -/
theorem mem_markAll (a : Address) (s : Stmt) (f : Finding) :
    f ∈ markAll s ↔ ∃ q ∈ spotsIn a s, f = unreachable q.stmt := by
  cases s with
  | assign | print | leave | call => simp [markAll, spotsIn]
  | loop p e body | ifThen p e body => simp [markAll, spotsIn, mem_markEach (0 :: a) 0 body]
  | ifElse p e yes no =>
    simp [markAll, spotsIn, mem_markEach (0 :: a) 0 yes, mem_markEach (1 :: a) 0 no, or_and_right, exists_or]

theorem mem_markEach (a : Address) (i : Nat) (ss : List Stmt) (f : Finding) :
    f ∈ markEach ss ↔ ∃ q ∈ spotsOf a i ss, f = unreachable q.stmt := by
  cases ss with
  | nil => simp [markEach, spotsOf]
  | cons s rest =>
    simp [markEach, spotsOf, mem_markAll (i :: a) s, mem_markEach a (i + 1) rest, or_and_right, exists_or]
end

/-- Of some statements, one that is not reached gives the finding. -/
def Missed (l qs : List Spot) (f : Finding) : Prop := ∃ q ∈ qs, ¬ Reaches l q.address ∧ f = unreachable q.stmt

variable {f : Finding}

theorem missed_append {l qs rs : List Spot} :
    Missed l (qs ++ rs) f ↔ Missed l qs f ∨ Missed l rs f := by
  simp [Missed, or_and_right, exists_or]

theorem missed_congr {l m qs : List Spot}
    (h : ∀ q ∈ qs, Reaches l q.address ↔ Reaches m q.address) : Missed l qs f ↔ Missed m qs f := by
  refine exists_congr fun q => and_congr_right fun hq => ?_
  rw [h q hq]

/-- The statement itself is reached, so what is missed is inside it. -/
theorem missed_self {q : Spot} {qs : List Spot} : Missed [q] (q :: qs) f ↔ Missed [q] qs f := by
  simp [Missed, reaches_self]

mutual
theorem mem_marksIn (a : Address) (s : Stmt) (f : Finding) : f ∈ marksIn s ↔ Missed [⟨a, s⟩] (spotsIn a s) f := by
  cases s with
  | assign | print | leave | call =>
    show f ∈ [] ↔ Missed [_] [_] f
    rw [missed_self]
    simp [Missed]
  | loop p e body =>
    rw [spotsIn, missed_self, marksIn, mem_blockMarks (0 :: a) 0 body]
    refine missed_congr fun q hq => ?_
    simp [reaches_loop, address_ne_of_mem_spotsOf hq]
  | ifThen p e yes =>
    rw [spotsIn, missed_self, marksIn, mem_blockMarks (0 :: a) 0 yes]
    refine missed_congr fun q hq => ?_
    simp [reaches_ifThen, address_ne_of_mem_spotsOf hq]
  | ifElse p e yes no =>
    rw [spotsIn, missed_self, missed_append, marksIn, List.mem_append, mem_blockMarks (0 :: a) 0 yes,
      mem_blockMarks (1 :: a) 0 no]
    refine or_congr (missed_congr fun q hq => ?_) (missed_congr fun q hq => ?_)
    · simp [reaches_ifElse, address_ne_of_mem_spotsOf hq, not_reaches_other_branch Nat.zero_ne_one hq]
    · simp [reaches_ifElse, address_ne_of_mem_spotsOf hq, not_reaches_other_branch Nat.one_ne_zero hq]

/-- What is marked in a block is what no way from its start leads to. -/
theorem mem_blockMarks (a : Address) (i : Nat) (ss : List Stmt) (f : Finding) :
    f ∈ marksOf ss ++ markAfterStop ss ↔ Missed (line a i ss) (spotsOf a i ss) f := by
  cases ss with
  | nil => simp [marksOf, markAfterStop, spotsOf, Missed]
  | cons s rest =>
    have hfirst := mem_marksIn (i :: a) s f
    have hrest := mem_blockMarks a (i + 1) rest f
    rw [spotsOf, missed_append, missed_congr fun q hq => reaches_first_of_line hq, ← hfirst, marksOf, List.append_assoc,
      List.mem_append, markAfterStop]
    refine or_congr_right ?_
    cases hs : stops s with
    | false =>
      rw [if_neg Bool.false_ne_true, hrest]
      exact missed_congr fun q hq => by rw [reaches_rest_of_line hq]; simp [hs]
    | true =>
      -- nothing after the statement is reached, and what was marked inside it before is marked again
      rw [if_pos rfl, List.mem_append, mem_markEach a (i + 1) rest]
      constructor
      · intro h
        rcases h with h | ⟨q, hq, hf⟩
        · obtain ⟨q, hq, -, hf⟩ := hrest.mp (List.mem_append_left _ h)
          exact ⟨q, hq, by rw [reaches_rest_of_line hq]; simp [hs], hf⟩
        · exact ⟨q, hq, by rw [reaches_rest_of_line hq]; simp [hs], hf⟩
      · intro h
        obtain ⟨q, hq, -, hf⟩ := h
        exact .inr ⟨q, hq, hf⟩
end

end Flow

/-! ## What an analysis says -/

/-- The blocks of a script's bodies. -/
def Script.blocks (s : Script) : List Block := s.functions.map (·.body.block) ++ [s.main.block]

namespace Check

theorem mem_blockMarks (b : Block) (f : Finding) :
    f ∈ blockMarks b ↔ ∃ q ∈ b.spots, ¬ b.Reaches q.address ∧ f = unreachable q.stmt :=
  Flow.mem_blockMarks [] 0 b.statements f

theorem blockMarks_unreachable {b : Block} {f : Finding} (h : f ∈ blockMarks b) : f.category = .unreachableStatement := by
  obtain ⟨q, -, -, rfl⟩ := (mem_blockMarks b f).mp h
  rfl

theorem mem_functionMarks {f : FuncDef} {g : Finding} (hg : g.category = .unreachableStatement) :
    g ∈ functionMarks f ↔ g ∈ blockMarks f.body.block := by
  rw [functionMarks, List.mem_append]
  refine or_iff_left fun h => ?_
  split at h
  · exact absurd (hg.symm.trans (missingReturn_category h)) nofun
  · cases h

theorem filter_blockMarks (b : Block) : (blockMarks b).filter (·.category = .missingReturn) = [] := by
  refine List.filter_eq_nil_iff.mpr fun f hf => ?_
  simp [blockMarks_unreachable hf]

theorem filter_functionMarks (f : FuncDef) :
    ((functionMarks f).filter (·.category = .missingReturn)).map (·.node) =
      if f.returns.isSome ∧ f.body.block.FallsOff then [.block f.body.block] else [] := by
  rw [functionMarks, List.filter_append, filter_blockMarks, List.nil_append]
  by_cases hr : f.returns.isSome = true
  · cases hs : stopsAny f.body.block.statements <;> simp [hr, missingReturn, hs, Block.fallsOff_iff]
  · simp [hr]

end Check

namespace Analysis

/-- The statements noted as unreachable are exactly those that no way from the start of their body leads to. -/
theorem unreachable_exactly_unreached {s : Script} {a : Analysis} (h : run (.script s) false = .ok a) (node : Node) :
    (∃ f ∈ a.notes.findings, f.category = .unreachableStatement ∧ f.node = node) ↔
      ∃ b ∈ s.blocks, ∃ q ∈ b.spots, ¬ b.Reaches q.address ∧ node = .statement q.stmt := by
  have hflow : ∀ f : Finding, f.category = .unreachableStatement →
      (f ∈ a.notes.findings ↔ ∃ b ∈ s.blocks, f ∈ Check.blockMarks b) := by
    intro f hf
    have hmem : f ∈ a.notes.flow ↔ f ∈ a.notes.findings := by simp [Notes.flow, Category.isFlow, hf]
    rw [← hmem, run_flow h, List.mem_append, List.mem_flatMap]
    simp [Script.blocks, Check.mem_functionMarks hf, or_and_right, exists_or]
  constructor
  · intro h
    obtain ⟨f, hf, hc, rfl⟩ := h
    obtain ⟨b, hb, hm⟩ := (hflow f hc).mp hf
    obtain ⟨q, hq, hn, rfl⟩ := (Check.mem_blockMarks b f).mp hm
    exact ⟨b, hb, q, hq, hn, rfl⟩
  · intro h
    obtain ⟨b, hb, q, hq, hn, rfl⟩ := h
    have hm := (Check.mem_blockMarks b _).mpr ⟨q, hq, hn, rfl⟩
    exact ⟨Check.unreachable q.stmt, (hflow _ rfl).mpr ⟨b, hb, hm⟩, rfl, rfl⟩

/-- Both branches return, one of them with a statement after it; and a statement comes after both. -/
def earlyReturns : Script where
  functions := []
  main :=
    { declared := []
      block := ⟨⟨2, 2⟩, [
        .ifElse ⟨2, 2⟩ (.boolLiteral ⟨2, 3⟩ "true")
          [.leave ⟨3, 5⟩ none, .print ⟨4, 6⟩ (.intLiteral ⟨4, 7⟩ "2")]
          [.leave ⟨5, 11⟩ none],
        .print ⟨6, 15⟩ (.intLiteral ⟨6, 16⟩ "1")]⟩ }

theorem earlyReturns_last_unreached :
    ∃ a, run (.script earlyReturns) false = .ok a ∧ ∃ b ∈ earlyReturns.blocks, ∃ q ∈ b.spots,
      ¬ b.Reaches q.address ∧ Node.statement (.print ⟨6, 15⟩ (.intLiteral ⟨6, 16⟩ "1")) = .statement q.stmt := by
  refine ⟨_, rfl, (unreachable_exactly_unreached rfl _).mp ⟨Check.unreachable _, ?_, rfl, rfl⟩⟩
  exact .tail _ (.head _)

/-- A missing return is noted for exactly the functions that declare what they return and through whose block some way
    comes to the end, once each and in their order; and each time on the block of the function. -/
theorem missing_return_exactly_falls_off {s : Script} {a : Analysis} (h : run (.script s) false = .ok a) :
    (a.notes.findings.filter (·.category = .missingReturn)).map (·.node) =
      (s.functions.filter fun f => f.returns.isSome ∧ f.body.block.FallsOff).map fun f => .block f.body.block := by
  rw [← Notes.filter_flow a.notes rfl, run_flow h, List.filter_append, Check.filter_blockMarks, List.append_nil]
  induction s.functions with
  | nil => rfl
  | cons f fs ih =>
    rw [List.flatMap_cons, List.filter_append, List.map_append, Check.filter_functionMarks, ih, List.filter_cons]
    by_cases hf : f.returns.isSome = true ∧ f.body.block.FallsOff <;> simp [hf]

/-- A function that returns only where its parameter is small. -/
def smallOnly : Script where
  functions := [{
    name := "small"
    parameters := [⟨⟨1, 3⟩, "x", .int⟩]
    returns := some .int
    body :=
      { declared := []
        block := ⟨⟨2, 10⟩, [
          .ifThen ⟨2, 10⟩ (.binary .less (.reference ⟨2, 11⟩ "x") (.intLiteral ⟨2, 13⟩ "1"))
            [.leave ⟨3, 15⟩ (some (.reference ⟨3, 16⟩ "x"))]]⟩ } }]
  main := ⟨[], ⟨⟨6, 20⟩, []⟩⟩

theorem smallOnly_missing_return :
    ∃ a, run (.script smallOnly) false = .ok a ∧
      (a.notes.findings.filter (·.category = .missingReturn)).map (·.node) =
        smallOnly.functions.map fun f => .block f.body.block := by
  refine ⟨_, rfl, ?_⟩
  rw [missing_return_exactly_falls_off (s := smallOnly) rfl]
  rfl

end Analysis

end NimbleLang
