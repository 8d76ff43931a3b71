import NimbleLang.Proofs.Runs
import NimbleLang.Proofs.Walk

/-!
The one way in which an analysis fails. A walk through a script comes, event by event, to where the checks of its
phrases come (`Follows`): what a listener reads from its state is what the checks hand on to each other. The types of
the phrases inside are noted before they are asked for, and agree with the reference; the scopes that are
entered were made in the first phase; and a walk leaves each of them for the outermost scope. What is left to fail is
a call of a name that stands for a value.

- `fails_exactly_at_value_call`: an analysis ends, or it fails for want of a function to call; the latter exactly if
  it comes to a call of a value.
-/

namespace NimbleLang

namespace Fault

theorem map_bind {α β γ : Type} (x : Except Fault α) (f : α → Except Fault β) (g : β → γ) :
    (x >>= f).map g = x >>= fun a => (f a).map g := by
  cases x <;> rfl

end Fault

theorem Notes.ofFindings_append (fs gs : List Finding) : Notes.ofFindings (fs ++ gs) = .ofFindings fs ++ .ofFindings gs := rfl

namespace Scopes

theorem update_update (t : Scopes) (n : Nat) (s s' : Scope) :
    (t.update n fun _ => s).update n (fun _ => s') = t.update n fun _ => s' := by
  apply Array.ext_getElem?
  intro i
  simp only [update, Array.getElem?_modify]
  split
  · rw [Option.map_map]
    rfl
  · rfl

theorem update_scope (t : Scopes) (n : Nat) : (t.update n fun _ => t.scope n) = t := by
  apply Array.ext_getElem?
  intro i
  simp only [update, Array.getElem?_modify]
  split
  · rename_i h
    subst h
    cases hx : t[n]? with
    | none => rfl
    | some x => simp [scope, Array.getD_eq_getD_getElem?, hx]
  · rfl

end Scopes

namespace Walk

open Typing Check

/-! ## Types that are noted -/

/-- What was noted stays, as long as what is noted later agrees with it. -/
theorem lastNoted_append {types more : List (Node × Ty)} {isIt : Node → Bool} {t : Ty}
    (hmore : ∀ q ∈ more, isIt q.1 = true → q.2 = t)
    (h : lastNoted types isIt = some t ∨ ∃ q ∈ more, isIt q.1 = true) : lastNoted (types ++ more) isIt = some t := by
  rw [lastNoted, List.reverse_append, List.find?_append]
  cases hf : more.reverse.find? fun q => isIt q.1 with
  | some q =>
    have hit : isIt q.1 = true := List.find?_some (p := fun q : Node × Ty => isIt q.1) hf
    rw [Option.some_or, Option.map_some, hmore q (List.mem_reverse.mp (List.mem_of_find?_eq_some hf)) hit]
  | none =>
    rw [Option.none_or]
    rcases h with h | ⟨q, hq, hit⟩
    · exact h
    · exact absurd hit (List.find?_eq_none.mp hf q (List.mem_reverse.mpr hq))

theorem isExpr_iff {e : Expr} {node : Node} : isExpr e node = true ↔ node = .expr e := by
  cases node <;> simp [isExpr]

theorem isCall_iff {c : Call} {node : Node} : isCall c node = true ↔ node = .call c := by
  cases node <;> simp [isCall]

section

variable {env : Env} {t : Scopes} {current : Option Nat} {m n : Notes} {nodes : List Node}

theorem entry_of_mem {q : Node × Ty} (h : q ∈ entries env nodes) : Site.entry? ⟨env, q.1⟩ = some q := by
  obtain ⟨node, -, he⟩ := List.mem_filterMap.mp h
  have hnode : q.1 = node := by
    unfold Site.entry? at he
    cases node with
    | expr | call =>
      cases he
      rfl
    | varDec v =>
      dsimp only at he
      split at he
      · cases he
      · cases he
        rfl
    | parameter | statement | block => cases he
  rw [hnode, he]

/-- The reference type of a phrase is what is noted for it, be it before or among the entries. -/
theorem lastNoted_entries {types : List (Node × Ty)} {isIt : Node → Bool} {node : Node} {u : Ty}
    (hit : ∀ x, isIt x = true ↔ x = node) (he : Site.entry? ⟨env, node⟩ = some (node, u))
    (h : lastNoted types isIt = some u ∨ node ∈ nodes) : lastNoted (types ++ entries env nodes) isIt = some u := by
  refine lastNoted_append ?_ (h.imp_right fun h => ⟨_, List.mem_filterMap.mpr ⟨node, h, he⟩, (hit node).mpr rfl⟩)
  intro q hq hisIt
  have hentry := entry_of_mem hq
  rw [(hit q.1).mp hisIt, he] at hentry
  exact congrArg Prod.snd (Option.some.inj hentry).symm

/-- The type of an expression can be read once it is noted, also after other notes. -/
theorem State.typeOf_append (hn : n.types = entries env nodes) {e : Expr}
    (h : State.typeOf ⟨t, current, m⟩ e = .ok (Typing.typeOf env e) ∨ .expr e ∈ nodes) :
    State.typeOf ⟨t, current, m ++ n⟩ e = .ok (Typing.typeOf env e) := by
  refine Fault.unless_eq_ok.2 ?_
  rw [Notes.types_append, hn]
  exact lastNoted_entries (fun _ => isExpr_iff) rfl (h.imp_left Fault.unless_eq_ok.1)

theorem State.typeOfCall_append (hn : n.types = entries env nodes) {c : Call} (h : .call c ∈ nodes) :
    State.typeOfCall ⟨t, current, m ++ n⟩ c = .ok (Typing.typeOfCall env c.name (Typing.typesOf env c.args)) := by
  refine Fault.unless_eq_ok.2 ?_
  rw [Notes.types_append, hn]
  exact lastNoted_entries (fun _ => isCall_iff) rfl (.inr h)

theorem State.typesOf_eq {st : State} {as : List Expr} (h : ∀ e ∈ as, st.typeOf e = .ok (Typing.typeOf env e)) :
    st.typesOf as = .ok (Typing.typesOf env as) := by
  induction as with
  | nil => rfl
  | cons e rest ih =>
    rw [State.typesOf, h e List.mem_cons_self, ih fun e' he => h e' (List.mem_cons_of_mem e he)]
    rfl

theorem mem_exprNodes (e : Expr) : .expr e ∈ exprNodes e := by
  cases e <;> simp [exprNodes]

theorem mem_argNodes {as : List Expr} {e : Expr} (h : e ∈ as) : .expr e ∈ argNodes as := by
  induction as with
  | nil => cases h
  | cons e' rest ih =>
    rw [argNodes]
    rcases List.mem_cons.mp h with rfl | h
    · exact List.mem_append_left _ (mem_exprNodes e)
    · exact List.mem_append_right _ (ih h)

end

/-! ## Walks that follow a check -/

/-- A call of a name that stands for a value in the scope the walk is in. -/
def State.CallsValue (st : State) (c : Call) : Prop :=
  ∃ n sym t, st.current = some n ∧ st.scopes.resolve n c.name = some sym ∧ sym.type = some (.value t)

/-- A walk comes to the state that a check comes to; where the check fails, it stops at a call of a value. -/
def Follows (st : State) (es : List Event) : Except Fault State → Prop
  | .ok st' => walk check st es = .ok st'
  | .error f => ∃ c stopped, walk check st es = .error ⟨.exit (.call c), f, stopped⟩ ∧ f = .absent ∧ stopped.CallsValue c

namespace Follows

variable {st st' : State} {es es' : List Event} {y : Except Fault State}

theorem append_ok (h : walk check st es = .ok st') (hy : Follows st' es' y) : Follows st (es ++ es') y := by
  cases y with
  | ok st'' => exact (walk_append_ok h es').trans hy
  | error f =>
    obtain ⟨c, stopped, hw, hf, hc⟩ := hy
    exact ⟨c, stopped, (walk_append_ok h es').trans hw, hf, hc⟩

theorem bind {α : Type} {x : Except Fault α} {g : α → State} {k : α → Except Fault State}
    (h : Follows st es (x.map g)) (hk : ∀ a, x = .ok a → Follows (g a) es' (k a)) : Follows st (es ++ es') (x >>= k) := by
  cases x with
  | ok a => exact append_ok h (hk a rfl)
  | error f =>
    obtain ⟨c, stopped, hw, hf, hc⟩ := h
    refine ⟨c, stopped, ?_, hf, hc⟩
    rw [walk_append, hw]
    rfl

theorem cons {e : Event} (h : check st e = .ok st') (hy : Follows st' es y) : Follows st (e :: es) y := by
  have hone : walk check st [e] = .ok st' := by
    rw [walk, h]
    rfl
  exact append_ok hone hy

/-- A check that only rounds off another one. -/
theorem map {α : Type} {x : Except Fault α} {g : α → State} {k : α → Except Fault State} (h : Follows st es (x.map g))
    (hk : ∀ a, k a = .ok (g a)) : Follows st es (x >>= k) := by
  cases x with
  | ok a =>
    show Follows st es (k a)
    rw [hk]
    exact h
  | error f => exact h

theorem step {e : Event} (h : check st e = .ok st') : Follows st [e] (.ok st') := cons h rfl

/-- Where there is nothing to check, nothing is noted. -/
theorem nothing (t : Scopes) (current : Option Nat) (m : Notes) :
    Follows ⟨t, current, m⟩ [] (.ok ⟨t, current, m ++ Notes.none⟩) := by
  rw [Notes.append_none]
  rfl

end Follows

/-! ## Expressions -/

section

variable {t : Scopes} {k : Nat} {env : Env}

/-- The check of a call fails only where the name stands for a value. -/
theorem callType_error {look : Lookup} (ha : Agrees look env) {c : Call} {types : List Ty} {f : Fault}
    (h : callType look c types = .error f) : f = .absent ∧ ∃ sym u, look c.name = some sym ∧ sym.type = some (.value u) := by
  unfold callType at h
  cases hf : look c.name with
  | none => simp [hf] at h
  | some sym =>
    rw [hf] at h
    dsimp only at h
    cases hs : sym.type with
    | none =>
      -- a lookup that agrees with an environment finds no symbol without a type
      have hagrees := ha c.name
      cases he : env c.name <;> simp [hf, hs, he] at hagrees
    | some st =>
      rw [hs] at h
      cases st with
      | value u =>
        cases h
        exact ⟨rfl, sym, u, rfl, hs⟩
      | function ps r =>
        dsimp only at h
        split at h <;> cases h

/-- A walk that comes to a call has the types of the arguments, and goes on as the check of the call does. -/
theorem follows_call (ha : Agrees (t.resolve k) env) {c : Call} {m n : Notes} {types : List Ty}
    (hargs : args (t.resolve k) c.args = .ok (types, n)) :
    Follows ⟨t, some k, m ++ n⟩ [.exit (.call c)]
      ((closeCall (t.resolve k) c types n).map fun r => ⟨t, some k, m ++ r.2⟩) := by
  obtain ⟨hts, hn, -⟩ := args_types ha hargs
  have hread : State.typesOf ⟨t, some k, m ++ n⟩ c.args = .ok types := by
    rw [hts]
    exact State.typesOf_eq fun e he => State.typeOf_append hn (.inr (mem_argNodes he))
  have hcheck : check ⟨t, some k, m ++ n⟩ (.exit (.call c)) =
      (callType (t.resolve k) c types).map fun r => ⟨t, some k, m ++ n ++ (r.2 ++ Notes.typed (.call c) r.1)⟩ := by
    show (State.here ⟨t, some k, m ++ n⟩ >>= fun k' => State.typesOf ⟨t, some k, m ++ n⟩ c.args >>= fun types =>
      callType (t.resolve k') c types >>= fun r => .ok _) = _
    rw [hread]
    show (callType (t.resolve k) c types >>= _) = _
    cases callType (t.resolve k) c types <;> rfl
  rw [closeCall, Fault.map_bind]
  cases hc : callType (t.resolve k) c types with
  | ok r =>
    rw [hc] at hcheck
    refine Follows.step (hcheck.trans ?_)
    simp [Except.map, Notes.append_assoc]
  | error f =>
    rw [hc] at hcheck
    obtain ⟨hf, sym, u, hsym, hu⟩ := callType_error ha hc
    refine ⟨c, ⟨t, some k, m ++ n⟩, ?_, hf, k, sym, u, rfl, hsym, hu⟩
    rw [walk, hcheck]
    rfl

/-- The type of an expression can be read after its check. -/
theorem State.typeOf_expr (ha : Agrees (t.resolve k) env) {e : Expr} {r : Ty × Notes} (h : expr (t.resolve k) e = .ok r)
    (current : Option Nat) (m : Notes) : State.typeOf ⟨t, current, m ++ r.2⟩ e = .ok r.1 := by
  obtain ⟨ht, hn⟩ := expr_types ha h
  rw [ht]
  exact State.typeOf_append hn (.inr (mem_exprNodes e))

mutual
theorem follows_expr (ha : Agrees (t.resolve k) env) (e : Expr) (m : Notes) :
    Follows ⟨t, some k, m⟩ (exprEvents e) ((expr (t.resolve k) e).map fun r => ⟨t, some k, m ++ r.2⟩) := by
  cases e with
  | parens p e | signed p s e =>
    rw [exprEvents, exprNodes, List.map_append, expr, Fault.map_bind]
    refine (follows_expr ha e m).bind fun r hr => Follows.step ?_
    rw [check, checkExpr, State.typeOf_expr ha hr]
    simp [State.judge, State.note, Notes.append_assoc, bind, Except.bind]
  | binary op l r =>
    rw [exprEvents, exprNodes, List.append_assoc, List.map_append, List.map_append, expr, Fault.map_bind]
    refine (follows_expr ha l m).bind fun left hl => ?_
    rw [Fault.map_bind]
    refine (follows_expr ha r (m ++ left.2)).bind fun right hr => Follows.step ?_
    -- what is noted on the right may be about the same expression, and then says the same of it
    have hleft : State.typeOf ⟨t, some k, m ++ left.2 ++ right.2⟩ l = .ok left.1 := by
      rw [(expr_types ha hl).1]
      refine State.typeOf_append (expr_types ha hr).2 (.inl ?_)
      rw [State.typeOf_expr ha hl, (expr_types ha hl).1]
    rw [check, checkExpr, hleft, State.typeOf_expr ha hr]
    simp [State.judge, State.note, Notes.append_assoc, bind, Except.bind]
  | call p f as =>
    rw [exprEvents, exprNodes, List.map_append, expr, Fault.map_bind]
    refine (follows_args ha as m).bind fun r hr => ?_
    rw [Fault.map_bind]
    refine (follows_call ha hr).bind fun c hc => Follows.step ?_
    obtain ⟨hts, hn, hl⟩ := args_types ha hr
    obtain ⟨ht, hcn⟩ := closeCall_types ha hl hc
    have hread : State.typeOfCall ⟨t, some k, m ++ c.2⟩ ⟨p, f, as⟩ = .ok c.1 := by
      have htypes : c.2.types = entries env (argNodes as ++ [.call ⟨p, f, as⟩]) := by
        rw [hcn, hn, entries_append, ht, hts]
        rfl
      rw [ht, hts]
      exact State.typeOfCall_append htypes (by simp)
    rw [check, checkExpr, hread]
    simp [State.judge, State.note, Notes.append_assoc, bind, Except.bind]
  | reference p x =>
    rw [expr_reference]
    exact Follows.step rfl
  | stringLiteral | intLiteral | boolLiteral => exact Follows.step rfl

theorem follows_args (ha : Agrees (t.resolve k) env) (as : List Expr) (m : Notes) :
    Follows ⟨t, some k, m⟩ (argEvents as) ((args (t.resolve k) as).map fun r => ⟨t, some k, m ++ r.2⟩) := by
  cases as with
  | nil => exact Follows.nothing t (some k) m
  | cons e rest =>
    rw [argEvents, argNodes, List.map_append, args, Fault.map_bind]
    refine (follows_expr ha e m).bind fun r hr => ?_
    rw [Fault.map_bind]
    refine (follows_args ha rest (m ++ r.2)).map fun rs => ?_
    rw [Notes.append_assoc]
    rfl
end

/-! ## Statements -/

variable {n : Notes}

/-- The type of a condition can still be read after the blocks that it decides on. -/
theorem State.typeOf_block (ha : Agrees (t.resolve k) env) {e : Expr} {u : Ty} {m : Notes}
    (h : State.typeOf ⟨t, some k, m⟩ e = .ok u) (hu : u = Typing.typeOf env e) {returns : Option SymbolType} {ss : List Stmt}
    (hn : statements (t.resolve k) returns ss = .ok n) (fs : List Finding) :
    State.typeOf ⟨t, some k, m ++ n ++ Notes.ofFindings fs⟩ e = .ok u := by
  subst hu
  have hmarks : (Notes.ofFindings fs).types = entries env [] := rfl
  exact State.typeOf_append hmarks (.inl (State.typeOf_append (statements_types ha hn) (.inl h)))

mutual
theorem follows_statement (ha : Agrees (t.resolve k) env) (st : Stmt) (m : Notes) :
    Follows ⟨t, some k, m⟩ (stmtEvents st)
      ((statement (t.resolve k) (t.scope k).returns st).map fun n => ⟨t, some k, m ++ n⟩) := by
  cases st with
  | assign p x e =>
    rw [stmtEvents, statement, Fault.map_bind]
    refine (follows_expr ha e m).bind fun r hr => Follows.step ?_
    rw [check, checkStmt, State.typeOf_expr ha hr]
    simp [State.here, Fault.unless, State.note, Notes.append_assoc, bind, Except.bind]
  | loop p e body | ifThen p e body =>
    rw [stmtEvents, statement, Fault.map_bind]
    refine (follows_expr ha e m).bind fun r hr => ?_
    rw [Fault.map_bind]
    refine (follows_statements ha body (m ++ r.2)).bind fun inner hi => Follows.cons rfl (Follows.step ?_)
    have hread := State.typeOf_block ha (State.typeOf_expr ha hr (some k) m) (expr_types ha hr).1 hi
      (markAfterStop body ++ missing none)
    rw [check, checkStmt, State.note, hread]
    simp [State.note, missing, Notes.append_assoc, bind, Except.bind]
  | ifElse p e yes no =>
    rw [stmtEvents, statement, Fault.map_bind]
    refine (follows_expr ha e m).bind fun r hr => ?_
    rw [Fault.map_bind]
    refine (follows_statements ha yes (m ++ r.2)).bind fun innerYes hy => Follows.cons rfl ?_
    have hyes := State.typeOf_block ha (State.typeOf_expr ha hr (some k) m) (expr_types ha hr).1 hy
      (markAfterStop yes ++ missing none)
    rw [Fault.map_bind]
    refine (follows_statements ha no _).bind fun innerNo hn => Follows.cons rfl (Follows.step ?_)
    have hno := State.typeOf_block ha hyes (expr_types ha hr).1 hn (markAfterStop no ++ missing none)
    rw [check, checkStmt, State.note, hno]
    simp [State.note, missing, Notes.append_assoc, bind, Except.bind]
  | print p e =>
    rw [stmtEvents, statement, Fault.map_bind]
    refine (follows_expr ha e m).bind fun r hr => Follows.step ?_
    rw [check, checkStmt, State.typeOf_expr ha hr]
    simp [State.note, Notes.append_assoc, bind, Except.bind]
  | leave p v =>
    cases v with
    | none => exact Follows.step rfl
    | some e =>
      rw [stmtEvents, statement, Fault.map_bind]
      refine (follows_expr ha e m).bind fun r hr => Follows.step ?_
      rw [check, checkStmt, State.typeOf_expr ha hr]
      simp [State.here, Fault.unless, State.note, Notes.append_assoc, bind, Except.bind]
  | call c =>
    rw [stmtEvents, statement, call, bind_assoc, Fault.map_bind]
    refine (follows_args ha c.args m).bind fun r hr => ?_
    rw [Fault.map_bind]
    refine (follows_call ha hr).bind fun a ha => Follows.step rfl

theorem follows_statements (ha : Agrees (t.resolve k) env) (ss : List Stmt) (m : Notes) :
    Follows ⟨t, some k, m⟩ (blockEvents ss)
      ((statements (t.resolve k) (t.scope k).returns ss).map fun n => ⟨t, some k, m ++ n⟩) := by
  cases ss with
  | nil => exact Follows.nothing t (some k) m
  | cons st rest =>
    rw [blockEvents, statements, Fault.map_bind]
    refine (follows_statement ha st m).bind fun n _ => ?_
    rw [Fault.map_bind]
    refine (follows_statements ha rest (m ++ n)).map fun more => ?_
    rw [Notes.append_assoc]
    rfl
end

end

/-! ## Bodies -/

/-- A walk in a room: scope `k` of a table, of which the scope is now `s`. -/
def inRoom (t : Scopes) (k : Nat) (s : Scope) (m : Notes) : State := ⟨t.update k fun _ => s, some k, m⟩

/-- Scope `k` stands in a table right inside the outermost scope, where names stand for what `outer` says. -/
structure IsRoom (t : Scopes) (k : Nat) (outer : Lookup) : Prop where
  below : Analysis.global < k
  inTable : k < t.size
  enclosing : t.enclosing k = some Analysis.global
  outermost : t.enclosing Analysis.global = none
  around : (t.scope Analysis.global).find? = outer

theorem isRoom {t : Scopes} {outer : Lookup} {named : String → Prop} {rooms : Rooms} {x : String} {k : Nat}
    (h : Furnished t outer named rooms) (hk : t.childNamed Analysis.global x = some k) : IsRoom t k outer := by
  obtain ⟨hne, hlt, henc⟩ := h.inside x k hk
  exact ⟨Nat.pos_of_ne_zero hne, hlt, henc, h.outermost, funext h.around⟩

namespace IsRoom

variable {t : Scopes} {k : Nat} {outer : Lookup} {env : Env} {s : Scope} {l : Locals}

/-- What names stand for in a room. -/
theorem resolve (h : IsRoom t k outer) (s : Scope) : (t.update k fun _ => s).resolve k = lookIn outer s := by
  funext x
  have houter : (t.update k fun _ => s).resolve Analysis.global x = outer x := by
    rw [Scopes.resolve_outermost (by rw [Scopes.enclosing_update]; exact h.outermost),
      Scopes.scope_update_ne t (Nat.ne_of_lt h.below), h.around]
  rw [Scopes.resolve, Scopes.scope_update_self h.inTable, Scopes.enclosing_update, h.enclosing, lookIn]
  cases s.find? x with
  | some y => rfl
  | none => exact (if_pos h.below).trans houter

theorem agrees (h : IsRoom t k outer) (ho : Agrees outer env) (hs : Holds s l) :
    Agrees ((t.update k fun _ => s).resolve k) (l.inside env) := by
  rw [h.resolve]
  exact hs.agrees ho

/-- What is entered in a room takes its place. -/
theorem enter_inRoom (s : Scope) (m : Notes) (r : Scope × Notes) :
    (inRoom t k s m).enter k r = inRoom t k r.1 (m ++ r.2) := by
  simp only [State.enter, inRoom, Scopes.update_update]

section

variable (h : IsRoom t k outer)
include h

theorem scope_inRoom (s : Scope) (m : Notes) : (inRoom t k s m).scopes.scope k = s :=
  Scopes.scope_update_self h.inTable _

theorem follows_parameters (s : Scope) (ps : List Parameter) (m : Notes) :
    Follows (inRoom t k s m) (ps.map fun p => .exit (.parameter p))
      (.ok (inRoom t k (parameters s ps).1 (m ++ (parameters s ps).2))) := by
  induction ps generalizing s m with
  | nil => exact Follows.nothing _ (some k) m
  | cons p ps ih =>
    have hp : check (inRoom t k s m) (.exit (.parameter p)) =
        .ok (inRoom t k (parameter s p).1 (m ++ (parameter s p).2)) := by
      rw [check, checkParameter, named_eq]
      show Except.ok ((inRoom t k s m).enter k (parameter ((inRoom t k s m).scopes.scope k) p)) = _
      rw [h.scope_inRoom, enter_inRoom]
    have hps := ih (parameter s p).1 (m ++ (parameter s p).2)
    rw [Notes.append_assoc] at hps
    exact Follows.cons hp hps

/-- A walk through the first value of a variable, which can then be read. -/
theorem follows_initialiser (ha : Agrees (lookIn outer s) env) (v : VarDec) (m : Notes) :
    Follows (inRoom t k s m) (v.init.elim [] exprEvents)
        ((initialiser outer s v).map fun r => inRoom t k s (m ++ r.2)) ∧
      ∀ r, initialiser outer s v = .ok r → (v.init.elim (.ok none) fun e => do
        return some (← (inRoom t k s (m ++ r.2)).typeOf e)) = .ok r.1 := by
  unfold initialiser
  cases v.init with
  | none =>
    constructor
    · exact Follows.nothing _ (some k) m
    · intro r hr
      cases hr
      rfl
  | some e =>
    rw [← h.resolve] at ha
    constructor
    · rw [Fault.map_bind, ← h.resolve]
      exact (follows_expr ha e m).map fun _ => rfl
    · intro r hr
      rw [← h.resolve] at hr
      obtain ⟨a, ha', hr⟩ := Fault.bind_eq_ok.1 hr
      cases hr
      show ((inRoom t k s (m ++ a.2)).typeOf e >>= _) = _
      rw [inRoom, State.typeOf_expr ha ha']
      rfl

theorem follows_varDec (ha : Agrees (lookIn outer s) env) (v : VarDec) (m : Notes) :
    Follows (inRoom t k s m) (varDecEvents v) ((varDec outer s v).map fun r => inRoom t k r.1 (m ++ r.2)) := by
  obtain ⟨hwalk, hread⟩ := h.follows_initialiser ha v m
  rw [varDecEvents, varDec_eq, Fault.map_bind]
  refine hwalk.bind fun r hr => ?_
  show Follows _ [_] (.ok (inRoom t k (closeVarDec s v r.1).1 (m ++ (r.2 ++ (closeVarDec s v r.1).2))))
  refine Follows.step ?_
  rw [check, checkVarDec, named_eq, hread r hr]
  show Except.ok ((inRoom t k s (m ++ r.2)).enter k (closeVarDec ((inRoom t k s (m ++ r.2)).scopes.scope k) v r.1)) = _
  rw [h.scope_inRoom, enter_inRoom, Notes.append_assoc]

theorem follows_varDecs (ho : Agrees outer env) (hs : Holds s l) (vs : List VarDec) (m : Notes) :
    Follows (inRoom t k s m) (vs.flatMap varDecEvents)
      ((varDecs outer s vs).map fun r => inRoom t k r.1 (m ++ r.2)) := by
  induction vs generalizing s l m with
  | nil => exact Follows.nothing _ (some k) m
  | cons v vs ih =>
    rw [List.flatMap_cons, varDecs, Fault.map_bind]
    refine (h.follows_varDec (hs.agrees ho) v m).bind fun r hr => ?_
    rw [Fault.map_bind]
    refine (ih (varDec_types ho hs hr).1 (m ++ r.2)).map fun rs => ?_
    rw [Notes.append_assoc]
    rfl

theorem follows_body (ho : Agrees outer env) (hs : Holds s l) (of : Option FuncDef) (b : Body) (m : Notes) :
    Follows (inRoom t k s m) (bodyEvents of b)
      ((body outer s b).map fun r => inRoom t k r.1 (m ++ (r.2 ++ Notes.ofFindings (missing of)))) := by
  rw [bodyEvents, body, Fault.map_bind]
  refine (h.follows_varDecs ho hs b.declared m).bind fun r hr => ?_
  dsimp only [block]
  rw [bind_assoc, Fault.map_bind]
  have hst := follows_statements (h.agrees ho (varDecs_types ho hs hr).1) b.block.statements (m ++ r.2)
  rw [h.resolve, Scopes.scope_update_self h.inTable] at hst
  refine hst.bind fun more _ => Follows.step ?_
  rw [check, State.note, Notes.ofFindings_append]
  simp [inRoom, Notes.append_assoc]

/-- A walk that leaves a room is in the outermost scope again. -/
theorem leave (s : Scope) (m : Notes) {e : Event} (he : e = .exitFunction ∨ e = .exitMain) :
    check (inRoom t k s m) e = .ok ⟨t.update k fun _ => s, some Analysis.global, m⟩ := by
  have hk : (t.update k fun _ => s).enclosing k = some Analysis.global := (Scopes.enclosing_update ..).trans h.enclosing
  rw [← hk]
  rcases he with rfl | rfl <;> rfl

end

end IsRoom

/-! ## Scripts -/

/-- A walk between bodies, in the outermost scope. -/
def between (a : Analysis) : State := ⟨a.scopes, some Analysis.global, a.notes⟩

/-- All rooms are there, and hold nothing but variables. -/
def Ready (outer : Lookup) (named : String → Prop) (a : Analysis) : Prop :=
  ∃ rooms held, Furnished a.scopes outer named rooms ∧ HoldsAll rooms held

section

variable {a a' : Analysis} {outer : Lookup} {named : String → Prop} {rooms : Rooms} {env : Env}

theorem inside_eq (h : Furnished a.scopes outer named rooms) {x : String} {k : Nat}
    (hk : a.scopes.childNamed Analysis.global x = some k) (check : Lookup → Scope → Except Fault (Scope × Notes)) :
    a.inside x check = check outer (a.scopes.scope k) >>= fun r =>
      .ok ⟨a.scopes.update k fun _ => r.1, a.notes ++ r.2⟩ := by
  rw [Analysis.inside, hk]
  show a.within k check = _
  rw [Analysis.within, h.around_room hk]
  rfl

theorem Ready.function (h : Ready outer named a) (ho : Agrees outer env) {f : FuncDef} (hf : named f.name)
    (ha : a.checkFunction f = .ok a') : Ready outer named a' := by
  obtain ⟨rooms, held, hfur, hs⟩ := h
  obtain ⟨k, hk, hroom⟩ := hfur.room f.name hf
  rw [Analysis.checkFunction, inside_eq hfur hk, hroom] at ha
  obtain ⟨r, hr, ha⟩ := Fault.bind_eq_ok.1 ha
  cases ha
  exact ⟨_, _, hfur.update hk r.1, hs.update f.name (function_types ho (hs f.name) hr).1⟩

theorem Ready.functions (h : Ready outer named a) (ho : Agrees outer env) {fs : List FuncDef}
    (hfs : ∀ f ∈ fs, named f.name) (ha : fs.foldlM Analysis.checkFunction a = .ok a') : Ready outer named a' := by
  induction fs generalizing a with
  | nil =>
    cases ha
    exact h
  | cons f fs ih =>
    rw [List.foldlM_cons] at ha
    obtain ⟨a₁, hf, ha⟩ := Fault.bind_eq_ok.1 ha
    exact ih (h.function ho (hfs f List.mem_cons_self) hf) (fun g hg => hfs g (List.mem_cons_of_mem f hg)) ha

/-- A walk that enters the scope of a name is in the room of the name. -/
theorem inRoom_of_childNamed {x : String} {k : Nat} {s : Scope} (hk : a.scopes.childNamed Analysis.global x = some k)
    (hs : a.scopes.scope k = s) :
    State.mk a.scopes (a.scopes.childNamed Analysis.global x) a.notes = inRoom a.scopes k s a.notes := by
  rw [hk, inRoom, ← hs, Scopes.update_scope]

/-- A walk through a function goes into its room and comes back. -/
theorem follows_function (h : Ready outer named a) (ho : Agrees outer env) {f : FuncDef} (hf : named f.name) :
    Follows (between a) (functionEvents f) ((a.checkFunction f).map between) := by
  obtain ⟨rooms, held, hfur, hs⟩ := h
  obtain ⟨k, hk, hroom⟩ := hfur.room f.name hf
  have hin := isRoom hfur hk
  have henter : check (between a) (.enterFunction f) = .ok (inRoom a.scopes k (rooms f.name) a.notes) :=
    congrArg Except.ok (inRoom_of_childNamed hk hroom)
  have hps := parameters_types (hs f.name) f.parameters
  rw [functionEvents, Analysis.checkFunction, inside_eq hfur hk, Fault.map_bind, hroom, function, bind_assoc]
  refine Follows.cons henter (Follows.append_ok (hin.follows_parameters (rooms f.name) f.parameters a.notes) ?_)
  refine (hin.follows_body ho hps.1 (some f) f.body _).bind fun r _ => Follows.step ?_
  rw [hin.leave _ _ (.inl rfl)]
  simp [between, missing, Notes.append_assoc]

theorem follows_main (h : Ready outer named a) (ho : Agrees outer env) (b : Body) (hmain : named "$main") :
    Follows (between a) (mainEvents b) ((a.checkMain b).map between) := by
  obtain ⟨rooms, held, hfur, hs⟩ := h
  obtain ⟨k, hk, hroom⟩ := hfur.room "$main" hmain
  have hin := isRoom hfur hk
  have henter : check (between a) .enterMain = .ok (inRoom a.scopes k (rooms "$main") a.notes) :=
    congrArg Except.ok (inRoom_of_childNamed hk hroom)
  have hmissing : Notes.ofFindings (missing none) = Notes.none := rfl
  rw [mainEvents, Analysis.checkMain, inside_eq hfur hk, Fault.map_bind, hroom]
  refine Follows.cons henter ((hin.follows_body ho (hs "$main") none b a.notes).bind fun r _ => Follows.step ?_)
  rw [hin.leave _ _ (.inr rfl), hmissing, Notes.append_none]
  rfl

theorem follows_functions (fs : List FuncDef) (h : Ready outer named a) (ho : Agrees outer env)
    (hfs : ∀ f ∈ fs, named f.name) :
    Follows (between a) (fs.flatMap functionEvents) ((fs.foldlM Analysis.checkFunction a).map between) := by
  induction fs generalizing a with
  | nil => rfl
  | cons f fs ih =>
    have hf := hfs f List.mem_cons_self
    rw [List.flatMap_cons, List.foldlM_cons, Fault.map_bind]
    refine (follows_function h ho hf).bind fun a' ha => ?_
    exact ih (h.function ho hf ha) fun g hg => hfs g (List.mem_cons_of_mem f hg)

end

/-! ## The first phase -/

/-- Events inside a body, of which the first phase takes no notice. -/
def Event.isInner : Event → Bool
  | .exitBlock .. | .exit _ => true
  | _ => false

@[simp] theorem isInner_exit (node : Node) : (Event.exit node).isInner = true := rfl

@[simp] theorem isInner_exitBlock (ss : List Stmt) (of : Option FuncDef) : (Event.exitBlock ss of).isInner = true := rfl

theorem walk_inner {st : State} {es : List Event} (h : es.all Event.isInner = true) : walk declare st es = .ok st := by
  induction es with
  | nil => rfl
  | cons e es ih =>
    rw [List.all_cons, Bool.and_eq_true] at h
    have he : declare st e = .ok st := by
      cases e with
      | exitBlock | exit => rfl
      | enterFunction | exitFunction | enterMain | exitMain => cases h.1
    rw [walk, he]
    exact ih h.2

theorem exprEvents_inner (e : Expr) : (exprEvents e).all Event.isInner = true := by
  simp [exprEvents]

theorem argEvents_inner (as : List Expr) : (argEvents as).all Event.isInner = true := by
  simp [argEvents]

mutual
theorem stmtEvents_inner (st : Stmt) : (stmtEvents st).all Event.isInner = true := by
  cases st with
  | assign p x e | print p e => simp [stmtEvents, -List.all_eq_true, exprEvents_inner e]
  | loop p e body | ifThen p e body =>
    simp [stmtEvents, -List.all_eq_true, exprEvents_inner e, blockEvents_inner body]
  | ifElse p e yes no =>
    simp [stmtEvents, -List.all_eq_true, exprEvents_inner e, blockEvents_inner yes, blockEvents_inner no]
  | leave p v =>
    cases v with
    | none => rfl
    | some e => simp [stmtEvents, -List.all_eq_true, exprEvents_inner e]
  | call c => simp [stmtEvents, -List.all_eq_true, argEvents_inner c.args]

theorem blockEvents_inner (ss : List Stmt) : (blockEvents ss).all Event.isInner = true := by
  cases ss with
  | nil => rfl
  | cons st rest => simp [blockEvents, -List.all_eq_true, stmtEvents_inner st, blockEvents_inner rest]
end

theorem varDecEvents_inner (v : VarDec) : (varDecEvents v).all Event.isInner = true := by
  cases hi : v.init with
  | none => simp [varDecEvents, hi]
  | some e => simp [varDecEvents, -List.all_eq_true, hi, exprEvents_inner e]

theorem bodyEvents_inner (of : Option FuncDef) (b : Body) : (bodyEvents of b).all Event.isInner = true := by
  have hv : (b.declared.flatMap varDecEvents).all Event.isInner = true := by
    rw [List.all_flatMap, List.all_eq_true]
    exact fun v _ => varDecEvents_inner v
  simp [bodyEvents, -List.all_eq_true, hv, blockEvents_inner]

theorem mapM_named (ps : List Parameter) : (ps.mapM fun p => named p.type) = .ok (ps.map (·.type.ty)) := by
  induction ps with
  | nil => rfl
  | cons p ps ih =>
    rw [List.mapM_cons, named_eq, ih]
    rfl

theorem named_returns (f : FuncDef) : f.returns.elim (.ok .void) named = .ok f.returnType := by
  unfold FuncDef.returnType
  cases f.returns with
  | none => rfl
  | some d => exact named_eq d

theorem declare_function (t : Scopes) (f : FuncDef) :
    walk declare (between ⟨t, {}⟩) (functionEvents f) = .ok (between ⟨Analysis.declareFunction t f, {}⟩) := by
  have henter : declare (between ⟨t, {}⟩) (.enterFunction f) = .ok (between ⟨Analysis.declareFunction t f, {}⟩) := by
    rw [declare, mapM_named, named_returns]
    rfl
  rw [functionEvents, walk, henter]
  dsimp only
  rw [walk_append_ok (walk_inner (by simp [Event.isInner])), walk_append_ok (walk_inner (bodyEvents_inner ..))]
  rfl

theorem declare_functions (t : Scopes) (fs : List FuncDef) :
    walk declare (between ⟨t, {}⟩) (fs.flatMap functionEvents) =
      .ok (between ⟨fs.foldl Analysis.declareFunction t, {}⟩) := by
  induction fs generalizing t with
  | nil => rfl
  | cons f fs ih =>
    rw [List.flatMap_cons, walk_append_ok (declare_function t f)]
    exact ih _

theorem declare_main (t : Scopes) (b : Body) :
    walk declare (between ⟨t, {}⟩) (mainEvents b) = .ok (between ⟨Analysis.declareMain t, {}⟩) := by
  show walk declare ⟨Analysis.declareMain t, some t.size, {}⟩ (bodyEvents none b ++ [.exitMain]) = _
  rw [walk_append_ok (walk_inner (bodyEvents_inner ..))]
  show Except.ok (State.mk _ ((Analysis.declareMain t).enclosing t.size) {}) = _
  rw [Analysis.declareMain, Scopes.enclosing_createChild, if_pos rfl]
  rfl

/-! ## What can go wrong -/

/-- The state in which the second phase starts. -/
def declared (s : Script) : State := between ⟨Analysis.declare Analysis.start.scopes (.script s), {}⟩

theorem walk_declare_script (s : Script) : walk declare (between Analysis.start) (scriptEvents s) = .ok (declared s) := by
  rw [scriptEvents, Analysis.start, walk_append_ok (declare_functions _ s.functions)]
  exact declare_main _ s.main

theorem ready_declared (s : Script) :
    Ready (globals s.functions) s.Named ⟨Analysis.declare Analysis.start.scopes (.script s), {}⟩ :=
  ⟨_, _, declare_script s, holds_rooms s⟩

theorem follows_script (s : Script) :
    Follows (declared s) (scriptEvents s) ((Analysis.run (.script s) false).map between) := by
  have ho := globals_agrees s.functions
  have hfs : ∀ f ∈ s.functions, s.Named f.name := fun f hf => .inr ⟨f, hf, rfl⟩
  show Follows _ _ ((s.functions.foldlM Analysis.checkFunction ⟨_, {}⟩ >>= fun a => a.checkMain s.main).map between)
  rw [scriptEvents, Fault.map_bind]
  refine (follows_functions s.functions (ready_declared s) ho hfs).bind fun a ha => ?_
  exact follows_main ((ready_declared s).functions ho hfs ha) ho s.main (.inl rfl)

/-- After some of the functions the second phase is in the outermost scope, where all rooms are found. -/
theorem between_functions (s : Script) {fs rest : List FuncDef} (hs : s.functions = fs ++ rest) {st : State}
    (h : walk check (declared s) (fs.flatMap functionEvents) = .ok st) :
    st.current = some Analysis.global ∧ ∀ x, s.Named x → (st.scopes.childNamed Analysis.global x).isSome = true := by
  have ho := globals_agrees s.functions
  have hfs : ∀ f ∈ fs, s.Named f.name := by
    intro f hf
    exact .inr ⟨f, by rw [hs]; exact List.mem_append_left rest hf, rfl⟩
  have hwalk := follows_functions fs (ready_declared s) ho hfs
  cases ha : fs.foldlM Analysis.checkFunction ⟨Analysis.declare Analysis.start.scopes (.script s), {}⟩ with
  | error f =>
    rw [ha] at hwalk
    obtain ⟨c, stopped, hw, -⟩ := hwalk
    cases hw.symm.trans h
  | ok a =>
    rw [ha] at hwalk
    cases hwalk.symm.trans h
    obtain ⟨rooms, held, hfur, -⟩ := (ready_declared s).functions ho hfs ha
    refine ⟨rfl, fun x hx => ?_⟩
    obtain ⟨k, hk, -⟩ := hfur.room x hx
    exact Option.isSome_iff_exists.mpr ⟨k, hk⟩

/-- The second phase comes to a call of a value. -/
def MeetsValueCall (s : Script) : Prop :=
  ∃ before c after st, scriptEvents s = before ++ .exit (.call c) :: after ∧
    walk check (declared s) before = .ok st ∧ st.CallsValue c

theorem checkCall_fails {st : State} {c : Call} (h : st.CallsValue c) : ∃ f, checkCall st c = .error f := by
  obtain ⟨n, sym, t, hn, hsym, ht⟩ := h
  rw [checkCall, State.here, hn]
  cases st.typesOf c.args with
  | error f => exact ⟨f, by simp [bind, Except.bind, Fault.unless]⟩
  | ok types =>
    have hcall : callType (st.scopes.resolve n) c types = .error .absent := by
      rw [callType, hsym]
      simp only [ht]
    exact ⟨.absent, by simp [bind, Except.bind, Fault.unless, hcall]⟩

theorem MeetsValueCall.fails {s : Script} (h : MeetsValueCall s) :
    ∃ stop, walk check (declared s) (scriptEvents s) = .error stop := by
  obtain ⟨before, c, after, st, hs, hw, hc⟩ := h
  obtain ⟨f, hf⟩ := checkCall_fails hc
  exact ⟨⟨.exit (.call c), f, st⟩, walk_eq_error.2 ⟨before, after, hs, hw, hf⟩⟩

end Walk

namespace Analysis

open Walk

/-- An analysis of a script fails in one way only. The first phase always ends, in the outermost scope. The second
    is in the outermost scope after every function, and finds there the scopes of all functions and of the main part.
    Either it ends, in the outermost scope, and the analysis with it; or it stops at a call, for want of a
    function. It does so exactly if it comes to a call of a name that stands for a value. -/
theorem fails_exactly_at_value_call (s : Script) :
    walk Walk.declare (between start) (scriptEvents s) = .ok (declared s) ∧
    (∀ fs rest st, s.functions = fs ++ rest → walk Walk.check (declared s) (fs.flatMap functionEvents) = .ok st →
      st.current = some global ∧ ∀ x, s.Named x → (st.scopes.childNamed global x).isSome = true) ∧
    ((∃ st, walk Walk.check (declared s) (scriptEvents s) = .ok st ∧ st.current = some global ∧
        run (.script s) false = .ok ⟨st.scopes, st.notes⟩) ∨
      ∃ c st, walk Walk.check (declared s) (scriptEvents s) = .error ⟨.exit (.call c), .absent, st⟩ ∧
        st.CallsValue c ∧ run (.script s) false = .error .absent) ∧
    ((∃ f, run (.script s) false = .error f) ↔ MeetsValueCall s) := by
  have hwalk := follows_script s
  refine ⟨walk_declare_script s, fun fs rest st hs h => between_functions s hs h, ?_⟩
  cases hrun : run (.script s) false with
  | ok a =>
    rw [hrun] at hwalk
    refine ⟨.inl ⟨between a, hwalk, rfl, rfl⟩, ?_, ?_⟩
    · intro h
      obtain ⟨f, hf⟩ := h
      cases hf
    · intro hm
      obtain ⟨stop, hstop⟩ := hm.fails
      cases hwalk.symm.trans hstop
  | error f =>
    rw [hrun] at hwalk
    obtain ⟨c, st, hw, rfl, hc⟩ := hwalk
    obtain ⟨before, after, hs, hb, -⟩ := walk_eq_error.1 hw
    exact ⟨.inr ⟨c, st, hw, hc, rfl⟩, fun _ => ⟨before, c, after, st, hs, hb, hc⟩, fun _ => ⟨_, rfl⟩⟩

/-- A function with a parameter that is named like another function, and called. -/
def callsParameter : Script where
  functions := [
    { name := "g", parameters := [], returns := none, body := ⟨[], ⟨⟨1, 5⟩, []⟩⟩ },
    { name := "f"
      parameters := [⟨⟨2, 10⟩, "g", .int⟩]
      returns := none
      body := ⟨[], ⟨⟨2, 14⟩, [.call ⟨⟨2, 14⟩, "g", []⟩]⟩⟩ }]
  main := ⟨[], ⟨⟨3, 19⟩, [.call ⟨⟨3, 19⟩, "g", []⟩]⟩⟩

theorem callsParameter_fails : run (.script callsParameter) false = .error .absent ∧ MeetsValueCall callsParameter := by
  have hrun : run (.script callsParameter) false = .error .absent := rfl
  exact ⟨hrun, (fails_exactly_at_value_call callsParameter).2.2.2.mp ⟨_, hrun⟩⟩

end Analysis

end NimbleLang
