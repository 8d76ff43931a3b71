import NimbleLang.Proofs.Verdict

/-!
Bodies do not influence each other. What is found in a function, the types noted in it and its scope depend on nothing
but the function and the types of all functions: they are the same in every script with functions of these names and
types, wherever in it the function stands (`function_independent`).

A function that stands elsewhere has other places. `move` puts a phrase elsewhere, and every check of a phrase that is
moved is the check of the phrase, with its notes moved (`function_move`). Texts and messages do not mention places.
-/

namespace NimbleLang

/-! ## Phrases that stand elsewhere -/

mutual
/-- An expression with other places. -/
def Expr.move (g : Place → Place) : Expr → Expr
  | .parens p e => .parens (g p) (e.move g)
  | .signed p s e => .signed (g p) s (e.move g)
  | .binary op l r => .binary op (l.move g) (r.move g)
  | .call p f as => .call (g p) f (moveArgs g as)
  | .reference p x => .reference (g p) x
  | .stringLiteral p t => .stringLiteral (g p) t
  | .intLiteral p t => .intLiteral (g p) t
  | .boolLiteral p t => .boolLiteral (g p) t

def Expr.moveArgs (g : Place → Place) : List Expr → List Expr
  | [] => []
  | e :: rest => e.move g :: moveArgs g rest
end

def Call.move (g : Place → Place) (c : Call) : Call := { c with place := g c.place, args := Expr.moveArgs g c.args }

mutual
def Stmt.move (g : Place → Place) : Stmt → Stmt
  | .assign p x e => .assign (g p) x (e.move g)
  | .loop p e body => .loop (g p) (e.move g) (moveBlock g body)
  | .ifThen p e yes => .ifThen (g p) (e.move g) (moveBlock g yes)
  | .ifElse p e yes no => .ifElse (g p) (e.move g) (moveBlock g yes) (moveBlock g no)
  | .print p e => .print (g p) (e.move g)
  | .leave p v => .leave (g p) (v.map (Expr.move g))
  | .call c => .call (c.move g)

def Stmt.moveBlock (g : Place → Place) : List Stmt → List Stmt
  | [] => []
  | s :: rest => s.move g :: moveBlock g rest
end

def VarDec.move (g : Place → Place) (v : VarDec) : VarDec :=
  { v with place := g v.place, init := v.init.map (Expr.move g) }

def Parameter.move (g : Place → Place) (p : Parameter) : Parameter := { p with place := g p.place }

def Block.move (g : Place → Place) (b : Block) : Block :=
  { place := g b.place, statements := Stmt.moveBlock g b.statements }

def Body.move (g : Place → Place) (b : Body) : Body :=
  { declared := b.declared.map (VarDec.move g), block := b.block.move g }

def FuncDef.move (g : Place → Place) (f : FuncDef) : FuncDef :=
  { f with parameters := f.parameters.map (Parameter.move g), body := f.body.move g }

def Node.move (g : Place → Place) : Node → Node
  | .expr e => .expr (e.move g)
  | .call c => .call (c.move g)
  | .varDec v => .varDec (v.move g)
  | .parameter p => .parameter (p.move g)
  | .statement s => .statement (s.move g)
  | .block b => .block (b.move g)

def Finding.move (g : Place → Place) (f : Finding) : Finding := { f with node := f.node.move g }

def Notes.move (g : Place → Place) (n : Notes) : Notes :=
  { findings := n.findings.map (Finding.move g), types := n.types.map fun q => (q.1.move g, q.2) }

variable (g : Place → Place)

/-! ## Texts -/

mutual
@[simp] theorem Expr.text_move (e : Expr) : (e.move g).text = e.text := by
  cases e with
  | parens p e | signed p s e => rw [move, text, text, text_move e]
  | binary op l r => rw [move, text, text, text_move l, text_move r]
  | call p f as => rw [move, text, text, textOf_move as]
  | reference | stringLiteral | intLiteral | boolLiteral => rfl

theorem Expr.textOf_move (as : List Expr) : textOf (moveArgs g as) = textOf as := by
  match as with
  | [] => rfl
  | [e] => exact text_move e
  | e :: e' :: rest =>
    show (e.move g).text ++ "," ++ textOf (moveArgs g (e' :: rest)) = e.text ++ "," ++ textOf (e' :: rest)
    rw [text_move e, textOf_move (e' :: rest)]
end

@[simp] theorem Call.text_move (c : Call) : (c.move g).text = c.text :=
  Expr.text_move g (.call c.place c.name c.args)

mutual
@[simp] theorem Stmt.text_move (s : Stmt) : (s.move g).text = s.text := by
  cases s with
  | assign p x e | print p e => rw [move, text, text, Expr.text_move]
  | loop p e body | ifThen p e body => rw [move, text, text, Expr.text_move, textOf_move body]
  | ifElse p e yes no => rw [move, text, text, Expr.text_move, textOf_move yes, textOf_move no]
  | leave p v =>
    cases v with
    | none => rfl
    | some e => rw [move, Option.map_some, text, text, Expr.text_move]
  | call c => exact Call.text_move g c

theorem Stmt.textOf_move (ss : List Stmt) : textOf (moveBlock g ss) = textOf ss := by
  cases ss with
  | nil => rfl
  | cons s rest => rw [moveBlock, textOf, textOf, text_move s, textOf_move rest]
end

@[simp] theorem Block.text_move (b : Block) : (b.move g).text = b.text := Stmt.textOf_move g b.statements

/-! ## Notes -/

namespace Notes

@[simp] theorem move_append (a b : Notes) : (a ++ b).move g = a.move g ++ b.move g := by
  show Notes.mk ((a.findings ++ b.findings).map _) ((a.types ++ b.types).map _) = _
  rw [List.map_append, List.map_append]
  rfl

@[simp] theorem move_none : Notes.none.move g = Notes.none := rfl

@[simp] theorem move_typed (node : Node) (t : Ty) : (typed node t).move g = typed (node.move g) t := rfl

@[simp] theorem move_found (node : Node) (c : Category) (m : String) :
    (found node c m).move g = found (node.move g) c m := rfl

@[simp] theorem move_require (well : Bool) (node : Node) (c : Category) (m : String) :
    (require well node c m).move g = require well (node.move g) c m := by
  cases well <;> rfl

theorem append_left_cancel {a b c : Notes} (h : a ++ b = a ++ c) : b = c := by
  obtain ⟨hf, ht⟩ := Notes.mk.inj h
  cases b
  cases c
  rw [Notes.mk.injEq]
  exact ⟨List.append_cancel_left hf, List.append_cancel_left ht⟩

@[simp] theorem move_ofFindings (fs : List Finding) : (ofFindings fs).move g = ofFindings (fs.map (Finding.move g)) := rfl

end Notes

/-! ## Expressions -/

namespace Check

variable (look : Lookup)

/-- The result of a check with its notes moved. -/
def moved {α : Type} (g : Place → Place) : Except Fault (α × Notes) → Except Fault (α × Notes) :=
  Except.map fun r => (r.1, r.2.move g)

/-- What is moved step by step is moved as a whole. -/
theorem map_bind_of {α α' β β' : Type} {h : α → α'} {m : β → β'} {x : Except Fault α} {k : α' → Except Fault β'}
    {k' : α → Except Fault β} (hk : ∀ a, k (h a) = (k' a).map m) : x.map h >>= k = (x >>= k').map m := by
  cases x with
  | error f => rfl
  | ok a => exact hk a

theorem misfits_move (as : List Expr) (ts ps : List Ty) :
    misfits ((Expr.moveArgs g as).zip ts) ps = (misfits (as.zip ts) ps).map fun q => (q.1.move g, q.2) := by
  induction as generalizing ts ps with
  | nil => rfl
  | cons e as ih =>
    cases ts with
    | nil => rfl
    | cons t ts =>
      cases ps with
      | nil => rfl
      | cons p ps =>
        rw [Expr.moveArgs, List.zip_cons_cons, List.zip_cons_cons, misfits, misfits, ih]
        split <;> rfl

theorem misfitMessage_move (ms : List (Expr × Ty × Ty)) :
    misfitMessage (ms.map fun q => (q.1.move g, q.2)) = misfitMessage ms := by
  have hmap (f : Expr × Ty × Ty → String) (hf : ∀ q, f (q.1.move g, q.2) = f q) :
      (ms.map fun q => (q.1.move g, q.2)).map f = ms.map f := by
    rw [List.map_map]
    exact List.map_congr_left fun q _ => hf q
  unfold misfitMessage
  rw [hmap, hmap]
  · exact fun q => rfl
  · intro q
    show (q.1.move g).text ++ ":" ++ q.2.1.spell = q.1.text ++ ":" ++ q.2.1.spell
    rw [Expr.text_move]

theorem callType_move (c : Call) (types : List Ty) :
    callType look (c.move g) types = moved g (callType look c types) := by
  have hname : (c.move g).name = c.name := rfl
  unfold callType
  rw [hname]
  cases look c.name with
  | none => rfl
  | some s =>
    dsimp only
    cases s.type with
    | none => rfl
    | some st =>
      cases st with
      | value t => rfl
      | function ps r =>
        dsimp only [Call.move]
        rw [misfits_move]
        cases hm : misfits (c.args.zip types) ps with
        | nil => rfl
        | cons m ms =>
          have hmsg := misfitMessage_move g (m :: ms)
          simp only [List.map_cons] at hmsg ⊢
          rw [hmsg]
          rfl

theorem closeCall_move (c : Call) (types : List Ty) (n : Notes) :
    closeCall look (c.move g) types (n.move g) = moved g (closeCall look c types n) := by
  rw [closeCall, closeCall, callType_move]
  exact map_bind_of fun r => congrArg Except.ok (by simp [Node.move])

theorem referenceType_move (e : Expr) (x : String) :
    referenceType look (e.move g) x = ((referenceType look e x).1, (referenceType look e x).2.move g) := by
  unfold referenceType
  cases look x with
  | none => rfl
  | some s =>
    dsimp only
    split <;> rfl

mutual
theorem expr_move (e : Expr) : expr look (e.move g) = moved g (expr look e) := by
  cases e with
  | parens p e | signed p s e =>
    rw [Expr.move, expr, expr, expr_move e]
    exact map_bind_of fun r => congrArg Except.ok (by simp [Node.move, Expr.move])
  | binary op l r =>
    rw [Expr.move, expr, expr, expr_move l, expr_move r]
    exact map_bind_of fun left => map_bind_of fun right => congrArg Except.ok (by simp [Node.move, Expr.move])
  | call p f as =>
    rw [Expr.move, expr, expr, args_move as]
    refine map_bind_of fun r => ?_
    have hc := closeCall_move g look ⟨p, f, as⟩ r.1 r.2
    rw [Call.move] at hc
    dsimp only
    rw [hc]
    exact map_bind_of fun c => congrArg Except.ok (by simp [Node.move, Expr.move])
  | reference p x =>
    rw [Expr.move, expr_reference, expr_reference]
    have hr := referenceType_move g look (.reference p x) x
    rw [Expr.move] at hr
    rw [hr]
    simp [moved, Except.map, Node.move, Expr.move]
  | stringLiteral | intLiteral | boolLiteral => rfl

theorem args_move (as : List Expr) : args look (Expr.moveArgs g as) = moved g (args look as) := by
  cases as with
  | nil => rfl
  | cons e rest =>
    rw [Expr.moveArgs, args, args, expr_move e, args_move rest]
    exact map_bind_of fun r => map_bind_of fun rs => congrArg Except.ok (by simp)
end

theorem call_move (c : Call) : call look (c.move g) = moved g (call look c) := by
  rw [call, call]
  show args look (Expr.moveArgs g c.args) >>= _ = _
  rw [args_move]
  exact map_bind_of fun r => closeCall_move g look c r.1 r.2

/-! ## Ways -/

mutual
theorem stops_move (s : Stmt) : stops (s.move g) = stops s := by
  cases s with
  | ifElse p e yes no => rw [Stmt.move, stops, stops, stopsAny_move yes, stopsAny_move no]
  | assign | loop | ifThen | print | leave | call => rfl

theorem stopsAny_move (ss : List Stmt) : stopsAny (Stmt.moveBlock g ss) = stopsAny ss := by
  cases ss with
  | nil => rfl
  | cons s rest => rw [Stmt.moveBlock, stopsAny, stopsAny, stops_move s, stopsAny_move rest]
end

theorem unreachable_move (s : Stmt) : unreachable (s.move g) = (unreachable s).move g := by
  rw [unreachable, Stmt.text_move]
  rfl

mutual
theorem markAll_move (s : Stmt) : markAll (s.move g) = (markAll s).map (Finding.move g) := by
  cases s with
  | loop p e body | ifThen p e body =>
    rw [Stmt.move, markAll, markAll, List.map_cons, ← unreachable_move, markEach_move body, Stmt.move]
  | ifElse p e yes no =>
    rw [Stmt.move, markAll, markAll, List.map_cons, List.map_append, ← unreachable_move, markEach_move yes,
      markEach_move no, Stmt.move]
  | assign p x e => exact congrArg (fun f => [f]) (unreachable_move g (.assign p x e))
  | print p e => exact congrArg (fun f => [f]) (unreachable_move g (.print p e))
  | leave p v => exact congrArg (fun f => [f]) (unreachable_move g (.leave p v))
  | call c => exact congrArg (fun f => [f]) (unreachable_move g (.call c))

theorem markEach_move (ss : List Stmt) : markEach (Stmt.moveBlock g ss) = (markEach ss).map (Finding.move g) := by
  cases ss with
  | nil => rfl
  | cons s rest => rw [Stmt.moveBlock, markEach, markEach, List.map_append, markAll_move s, markEach_move rest]
end

theorem markAfterStop_move (ss : List Stmt) :
    markAfterStop (Stmt.moveBlock g ss) = (markAfterStop ss).map (Finding.move g) := by
  induction ss with
  | nil => rfl
  | cons s rest ih =>
    rw [Stmt.moveBlock, markAfterStop, markAfterStop, stops_move, markEach_move, ih]
    split <;> rfl

theorem missingReturn_move (b : Block) : missingReturn (b.move g) = (missingReturn b).map (Finding.move g) := by
  have hs : stopsAny (b.move g).statements = stopsAny b.statements := stopsAny_move g b.statements
  rw [missingReturn, missingReturn, hs, Block.text_move]
  split <;> rfl

/-! ## Statements -/

theorem assignment_move (own : Stmt) (x : String) (t : Ty) :
    assignment look (own.move g) x t = (assignment look own x t).move g := by
  unfold assignment
  cases look x with
  | none => rfl
  | some s =>
    dsimp only
    rw [Notes.move_require]
    rfl

theorem returned_move (returns : Option SymbolType) (own : Stmt) (value : Option Ty) :
    returned returns (own.move g) value = (returned returns own value).move g := by
  unfold returned
  dsimp only
  split
  · cases value <;> rfl
  · cases value with
    | none => rfl
    | some t =>
      dsimp only
      split <;> rfl

theorem loopCondition_move (own : Stmt) (t : Ty) : loopCondition (own.move g) t = (loopCondition own t).move g := by
  rw [loopCondition, loopCondition, Notes.move_require]
  rfl

theorem ifCondition_move (own : Stmt) (e : Expr) (t : Ty) :
    ifCondition (own.move g) (e.move g) t = (ifCondition own e t).move g := by
  rw [ifCondition, ifCondition, Expr.text_move, Notes.move_require]
  rfl

variable (returns : Option SymbolType)

mutual
theorem statement_move (st : Stmt) :
    statement look returns (st.move g) = (statement look returns st).map (Notes.move g) := by
  cases st with
  | assign p x e =>
    have ha := assignment_move g look (.assign p x e) x
    rw [Stmt.move] at ha ⊢
    rw [statement, statement, expr_move]
    exact map_bind_of fun r => congrArg Except.ok (by simp [ha])
  | loop p e body =>
    have hc := loopCondition_move g (.loop p e body)
    rw [Stmt.move] at hc ⊢
    rw [statement, statement, expr_move, statements_move body]
    exact map_bind_of fun r => map_bind_of fun inner => congrArg Except.ok (by simp [hc, markAfterStop_move])
  | ifThen p e yes =>
    have hc := ifCondition_move g (.ifThen p e yes) e
    rw [Stmt.move] at hc ⊢
    rw [statement, statement, expr_move, statements_move yes]
    exact map_bind_of fun r => map_bind_of fun inner => congrArg Except.ok (by simp [hc, markAfterStop_move])
  | ifElse p e yes no =>
    have hc := ifCondition_move g (.ifElse p e yes no) e
    rw [Stmt.move] at hc ⊢
    rw [statement, statement, expr_move, statements_move yes, statements_move no]
    exact map_bind_of fun r => map_bind_of fun innerYes => map_bind_of fun innerNo =>
      congrArg Except.ok (by simp [hc, markAfterStop_move])
  | print p e =>
    rw [Stmt.move, statement, statement, expr_move]
    exact map_bind_of fun r => congrArg Except.ok (by simp [Node.move, Stmt.move])
  | leave p v =>
    have hr := returned_move g returns (.leave p v)
    cases v with
    | none => exact congrArg Except.ok (hr none)
    | some e =>
      rw [Stmt.move, Option.map_some] at hr ⊢
      rw [statement, statement, expr_move]
      exact map_bind_of fun r => congrArg Except.ok (by simp [hr])
  | call c =>
    rw [Stmt.move, statement, statement, call_move]
    exact map_bind_of fun r => rfl

theorem statements_move (ss : List Stmt) :
    statements look returns (Stmt.moveBlock g ss) = (statements look returns ss).map (Notes.move g) := by
  cases ss with
  | nil => rfl
  | cons s rest =>
    rw [Stmt.moveBlock, statements, statements, statement_move s, statements_move rest]
    exact map_bind_of fun n => map_bind_of fun more => congrArg Except.ok (by simp)
end

/-! ## Declarations and functions -/

variable (outer : Lookup)

theorem parameters_move (s : Scope) (ps : List Parameter) :
    parameters s (ps.map (Parameter.move g)) = ((parameters s ps).1, (parameters s ps).2.move g) := by
  induction ps generalizing s with
  | nil => rfl
  | cons p ps ih =>
    have hp : parameter s (p.move g) = ((parameter s p).1, (parameter s p).2.move g) := by
      have hname : (p.move g).name = p.name := rfl
      unfold parameter
      rw [hname]
      cases s.find? p.name <;> rfl
    rw [List.map_cons, parameters, parameters, hp]
    dsimp only
    rw [ih, Notes.move_append]

theorem initialiser_move (s : Scope) (v : VarDec) :
    initialiser outer s (v.move g) = moved g (initialiser outer s v) := by
  unfold initialiser VarDec.move
  cases v.init with
  | none => rfl
  | some e =>
    dsimp only [Option.map_some]
    rw [expr_move]
    cases expr (lookIn outer s) e <;> rfl

theorem enterVariable_move (s : Scope) (v : VarDec) :
    enterVariable s (v.move g) =
      ((enterVariable s v).1, (enterVariable s v).2.1.move g, (enterVariable s v).2.2) := by
  have hname : (v.move g).name = v.name := rfl
  unfold enterVariable
  rw [hname]
  cases s.find? v.name <;> rfl

theorem closeVarDec_move (s : Scope) (v : VarDec) (value : Option Ty) :
    closeVarDec s (v.move g) value = ((closeVarDec s v value).1, (closeVarDec s v value).2.move g) := by
  have hm : misfit (v.move g) value = misfit v value := by
    cases value <;> rfl
  rw [closeVarDec, closeVarDec, hm, enterVariable_move]
  cases misfit v value with
  | none => rfl
  | some t =>
    simp only [Notes.move_append]
    rfl

theorem varDec_move (s : Scope) (v : VarDec) : varDec outer s (v.move g) = moved g (varDec outer s v) := by
  rw [varDec_eq, varDec_eq, initialiser_move]
  refine map_bind_of fun r => ?_
  dsimp only
  rw [closeVarDec_move]
  exact congrArg Except.ok (by simp)

theorem varDecs_move (s : Scope) (vs : List VarDec) :
    varDecs outer s (vs.map (VarDec.move g)) = moved g (varDecs outer s vs) := by
  induction vs generalizing s with
  | nil => rfl
  | cons v vs ih =>
    rw [List.map_cons, varDecs, varDecs, varDec_move]
    refine map_bind_of fun r => ?_
    dsimp only
    rw [ih r.1]
    exact map_bind_of fun rs => congrArg Except.ok (by simp)

theorem body_move (s : Scope) (b : Body) : body outer s (b.move g) = moved g (body outer s b) := by
  rw [body, body]
  show varDecs outer s (b.declared.map (VarDec.move g)) >>= _ = _
  rw [varDecs_move]
  refine map_bind_of fun r => ?_
  have hst := statements_move g (lookIn outer r.1) r.1.returns b.block.statements
  simp only [block, Body.move, Block.move, bind_assoc, pure_bind] at hst ⊢
  rw [hst, markAfterStop_move]
  exact map_bind_of fun n => congrArg Except.ok (by simp)

/-- The check of a function that stands elsewhere is the check of the function, with its notes moved. -/
theorem function_move (s : Scope) (f : FuncDef) : function outer s (f.move g) = moved g (function outer s f) := by
  have hm : (if (f.move g).returns.isSome then missingReturn (f.move g).body.block else []) =
      (if f.returns.isSome then missingReturn f.body.block else []).map (Finding.move g) := by
    show (if f.returns.isSome then missingReturn (f.body.block.move g) else []) = _
    rw [missingReturn_move]
    split <;> rfl
  have hp := parameters_move g s f.parameters
  have hb := body_move g outer (parameters s f.parameters).1 f.body
  unfold function
  rw [hm]
  simp only [FuncDef.move, hp, hb]
  exact map_bind_of fun r => congrArg Except.ok (by simp)

/-! ## One function among others -/

variable {outer} {rooms rooms' : Rooms} {n : Notes}

theorem surveyFunctions_append {fs gs : List FuncDef} (h : surveyFunctions outer rooms (fs ++ gs) = .ok (rooms', n)) :
    ∃ between m more, surveyFunctions outer rooms fs = .ok (between, m) ∧
      surveyFunctions outer between gs = .ok (rooms', more) := by
  induction fs generalizing rooms n with
  | nil => exact ⟨rooms, Notes.none, n, rfl, h⟩
  | cons f fs ih =>
    obtain ⟨q, qs, hq, hqs, h⟩ := Fault.bind_bind_eq_ok.1 h
    obtain ⟨rfl, -⟩ := Prod.mk.inj (Except.ok.inj h)
    obtain ⟨between, m, more, hfs, hgs⟩ := ih hqs
    exact ⟨between, q.2 ++ m, more, Fault.bind_eq_ok.2 ⟨q, hq, Fault.bind_eq_ok.2 ⟨_, hfs, rfl⟩⟩, hgs⟩

/-- Among functions of different names, each is checked in its room as it is at the beginning, and leaves it as it is
    at the end. -/
theorem surveyFunctions_one {before after : List FuncDef} {f : FuncDef}
    (hd : ((before ++ f :: after).map (·.name)).Nodup)
    (h : surveyFunctions outer rooms (before ++ f :: after) = .ok (rooms', n)) :
    ∃ between m r, surveyFunctions outer rooms before = .ok (between, m) ∧ between f.name = rooms f.name ∧
      function outer (rooms f.name) f = .ok r ∧ rooms' f.name = r.1 := by
  rw [List.map_append, List.map_cons, List.nodup_append] at hd
  obtain ⟨-, hafter, hbefore⟩ := hd
  obtain ⟨between, m, more, hb, h⟩ := surveyFunctions_append h
  obtain ⟨r, rs, hr, hrs, h⟩ := Fault.bind_bind_eq_ok.1 h
  obtain ⟨rfl, -⟩ := Prod.mk.inj (Except.ok.inj h)
  have hroom : between f.name = rooms f.name := by
    refine surveyFunctions_others hb fun e he => ?_
    exact hbefore e.name (List.mem_map_of_mem he) f.name List.mem_cons_self
  refine ⟨between, m, r, hb, hroom, hroom ▸ hr, ?_⟩
  rw [surveyFunctions_others hrs, Function.update_self]
  intro e he hne
  exact (List.nodup_cons.mp hafter).1 (hne ▸ List.mem_map_of_mem he)

end Check

/-- The names of a script's functions, with their types. -/
def Script.headers (s : Script) : List (String × SymbolType) := s.functions.map fun f => (f.name, f.type)

theorem globals_eq_some {fs : List FuncDef} (hd : (fs.map (·.name)).Nodup) {x : String} {y : Symbol} :
    globals fs x = some y ↔ ∃ ty, (x, ty) ∈ fs.map (fun f => (f.name, f.type)) ∧ y = { name := x, type := some ty } := by
  rw [globals, Option.map_eq_some_iff]
  constructor
  · intro h
    obtain ⟨f, hf, rfl⟩ := h
    have hx : f.name = x := by simpa using List.find?_some hf
    have hmem : f ∈ fs := List.mem_reverse.mp (List.mem_of_find?_eq_some hf)
    exact ⟨f.type, List.mem_map.mpr ⟨f, hmem, by rw [hx]⟩, rfl⟩
  · intro h
    obtain ⟨ty, hmem, rfl⟩ := h
    obtain ⟨f, hf, e⟩ := List.mem_map.mp hmem
    obtain ⟨rfl, rfl⟩ := Prod.mk.inj e
    exact ⟨f, lastNamed_named hd hf, rfl⟩

/-- What names stand for around bodies is given by the names and types of the functions. -/
theorem globals_of_headers {s s' : Script} (hd : s.NamesDistinct) (hd' : s'.NamesDistinct) (h : s.headers ⊆ s'.headers)
    (h' : s'.headers ⊆ s.headers) : globals s.functions = globals s'.functions := by
  funext x
  apply Option.ext
  intro y
  rw [globals_eq_some hd.1, globals_eq_some hd'.1]
  constructor
  · intro hy
    obtain ⟨ty, hmem, hy⟩ := hy
    exact ⟨ty, h hmem, hy⟩
  · intro hy
    obtain ⟨ty, hmem, hy⟩ := hy
    exact ⟨ty, h' hmem, hy⟩

namespace Analysis

/-- While the second phase is at a function of a script, it adds these notes. -/
def Adds (s : Script) (f : FuncDef) (n : Notes) : Prop :=
  ∃ before after a b, s.functions = before ++ f :: after ∧
    before.foldlM checkFunction { start with scopes := declare start.scopes (.script s) } = .ok a ∧
    a.checkFunction f = .ok b ∧ b.notes = a.notes ++ n

theorem Adds.unique {s : Script} (distinct : s.NamesDistinct) {f : FuncDef} {n m : Notes} (hn : Adds s f n)
    (hm : Adds s f m) : m = n := by
  obtain ⟨before, after, a, b, hfs, ha, hb, hnotes⟩ := hn
  obtain ⟨before', after', a', b', hfs', ha', hb', hnotes'⟩ := hm
  have hd := distinct.1
  rw [hfs, List.map_append, List.map_cons, List.nodup_append] at hd
  obtain ⟨-, hafter, hbefore⟩ := hd
  have hnot : f ∉ before := fun hf => hbefore f.name (List.mem_map_of_mem hf) f.name List.mem_cons_self rfl
  have hnot' : f ∉ after := fun hf => (List.nodup_cons.mp hafter).1 (List.mem_map_of_mem hf)
  obtain ⟨rfl, -, -⟩ := (List.append_cons_inj_of_notMem hnot hnot').mp (hfs.symm.trans hfs')
  cases ha.symm.trans ha'
  cases hb.symm.trans hb'
  exact (Notes.append_left_cancel (hnotes.symm.trans hnotes')).symm

/-- The scope of a name at the end. -/
def scopeOf (a : Analysis) (x : String) : Option Scope := (a.scopes.childNamed global x).map a.scopes.scope

/-- With functions of different names, all that becomes of a function is decided by its check in an empty room. -/
theorem function_alone {s : Script} {a : Analysis} (distinct : s.NamesDistinct) (h : run (.script s) false = .ok a)
    {f : FuncDef} (hf : f ∈ s.functions) :
    ∃ scope n, Check.function (globals s.functions) { name := f.name, returns := some (.value f.returnType) } f =
      .ok (scope, n) ∧ Adds s f n ∧ a.scopeOf f.name = some scope := by
  obtain ⟨before, after, hfs⟩ := List.mem_iff_append.mp hf
  have hroom : s.rooms f.name = { name := f.name, returns := some (.value f.returnType) } := by
    rw [Script.rooms, Function.update_of_ne (distinct.2 f hf), emptyRooms, lastNamed_named distinct.1 hf]
    rfl
  have hd := distinct.1
  obtain ⟨rooms, hs, hfur⟩ := survey_of_run h
  obtain ⟨q, m, hq, -, hs⟩ := Fault.bind_bind_eq_ok.1 hs
  obtain ⟨rfl, -⟩ := Prod.mk.inj (Except.ok.inj hs)
  rw [hfs] at hd
  have hq' : Check.surveyFunctions (globals s.functions) s.rooms (before ++ f :: after) = .ok q := hfs ▸ hq
  obtain ⟨between, n₀, r, hb, hbetween, hr, hlast⟩ := Check.surveyFunctions_one hd hq'
  rw [hroom] at hbetween hr
  refine ⟨r.1, r.2, hr, ?_, ?_⟩
  · -- the analysis comes to the function with the scope of its name as it was made
    have hbefore := checkFunctions_survey (a := { start with scopes := declare start.scopes (.script s) }) before
      (declare_script s) (fun e he => .inr ⟨e, hfs ▸ List.mem_append_left _ he, rfl⟩)
    rw [hb] at hbefore
    obtain ⟨t, ht, htfur⟩ := hbefore
    have hin := inside_room (a := ⟨t, start.notes ++ n₀⟩) htfur (.inr ⟨f, hf, rfl⟩)
      fun outer own => Check.function outer own f
    rw [hbetween, hr] at hin
    obtain ⟨t', ht', -⟩ := hin
    exact ⟨before, after, _, _, hfs, ht, ht', rfl⟩
  · obtain ⟨k, hk, hscope⟩ := hfur.room f.name (.inr ⟨f, hf, rfl⟩)
    rw [Function.update_of_ne (distinct.2 f hf), hlast] at hscope
    rw [scopeOf, hk, Option.map_some, hscope]

/-- Bodies do not influence each other. In two scripts whose functions have the same names and types, the notes added
    at a function that is in both, perhaps at another place, are the same, and so is its scope in the end. -/
theorem function_independent {s s' : Script} {a a' : Analysis} (distinct : s.NamesDistinct)
    (distinct' : s'.NamesDistinct) (h : run (.script s) false = .ok a) (h' : run (.script s') false = .ok a')
    (headers : s.headers ⊆ s'.headers) (headers' : s'.headers ⊆ s.headers) (g : Place → Place) {f : FuncDef}
    (hf : f ∈ s.functions) (hf' : f.move g ∈ s'.functions) :
    ∃ n scope, (∀ m, Adds s f m ↔ m = n) ∧ (∀ m, Adds s' (f.move g) m ↔ m = n.move g) ∧
      a.scopeOf f.name = some scope ∧ a'.scopeOf f.name = some scope := by
  obtain ⟨scope, n, hc, hadds, hscope⟩ := function_alone distinct h hf
  obtain ⟨scope', n', hc', hadds', hscope'⟩ := function_alone distinct' h' hf'
  have hmove := Check.function_move g (globals s.functions)
    { name := f.name, returns := some (.value f.returnType) } f
  rw [hc, globals_of_headers distinct distinct' headers headers'] at hmove
  obtain ⟨rfl, rfl⟩ := Prod.mk.inj (Except.ok.inj (hc'.symm.trans hmove))
  refine ⟨n, _, fun m => ⟨hadds.unique distinct, ?_⟩, fun m => ⟨hadds'.unique distinct', ?_⟩, hscope, hscope'⟩
  · rintro rfl
    exact hadds
  · rintro rfl
    exact hadds'

/-- A function with a name in it that stands for nothing. -/
def half : FuncDef where
  name := "half"
  parameters := [⟨⟨1, 3⟩, "n", .int⟩]
  returns := some .int
  body :=
    { declared := [⟨⟨2, 10⟩, "r", .int, some
        (.binary .divide (.reference ⟨2, 15⟩ "n") (.reference ⟨2, 17⟩ "two"))⟩]
      block := ⟨⟨3, 18⟩, [.leave ⟨3, 18⟩ (some (.reference ⟨3, 19⟩ "r"))]⟩ }

def halfFirst : Script where
  functions := [half, {
    name := "show", parameters := [], returns := none
    body := ⟨[], ⟨⟨5, 26⟩, [.print ⟨5, 26⟩ (.call ⟨5, 27⟩ "half" [.intLiteral ⟨5, 29⟩ "8"])]⟩⟩ }]
  main := ⟨[], ⟨⟨6, 32⟩, [.call ⟨⟨6, 32⟩, "show", []⟩]⟩⟩

/-- The same function after the other one, which has another body, and with another main part. -/
def halfLast : Script where
  functions := [{
      name := "show", parameters := [], returns := none
      body := ⟨[⟨⟨1, 5⟩, "r", .bool, none⟩], ⟨⟨1, 9⟩, [.print ⟨1, 9⟩ (.reference ⟨1, 10⟩ "r")]⟩⟩ },
    half.move fun p => ⟨p.line + 1, p.index + 12⟩]
  main := ⟨[], ⟨⟨6, 33⟩, []⟩⟩

theorem half_independent : ∃ a a' n scope, run (.script halfFirst) false = .ok a ∧
    run (.script halfLast) false = .ok a' ∧ (∀ m, Adds halfFirst half m ↔ m = n) ∧
    (∀ m, Adds halfLast (half.move fun p => ⟨p.line + 1, p.index + 12⟩) m ↔
      m = n.move fun p => ⟨p.line + 1, p.index + 12⟩) ∧
    a.scopeOf "half" = some scope ∧ a'.scopeOf "half" = some scope := by
  obtain ⟨t, h, -⟩ := run_script halfFirst
  obtain ⟨t', h', -⟩ := run_script halfLast
  obtain ⟨n, scope, hsame⟩ := function_independent (by decide) (by decide) h h' (by decide) (by decide)
    (fun p => ⟨p.line + 1, p.index + 12⟩) (f := half) (.head _) (.tail _ (.head _))
  exact ⟨_, _, n, scope, h, h', hsame⟩

end Analysis

end NimbleLang
