import NimbleLang.Proofs.Faults

/-!
What the second phase says of a call. When a walk comes to a call of a function, the types of its arguments are noted, and
the call is judged by them, position by position (`call_judged_by_common_positions`). With as many arguments as parameters
that is all there is to check. Otherwise the positions that have only an argument, or only a parameter, are not looked
at, and a call with an argument too few can pass (`missing_argument_passes`).
-/

namespace NimbleLang

namespace Walk

open Typing Check

/-- The second phase comes to an event in a state. -/
def Comes (s : Script) (e : Event) (st : State) : Prop :=
  ∃ before after, scriptEvents s = before ++ e :: after ∧ walk check (declared s) before = .ok st

/-- A call of a name that stands for a function in the scope the walk is in. -/
def State.CallsFunction (st : State) (c : Call) (ps : List Ty) (r : Ty) : Prop :=
  ∃ n sym, st.current = some n ∧ st.scopes.resolve n c.name = some sym ∧ sym.type = some (.function ps r)

/-- Where there are both an argument and a parameter, their types agree. -/
def AgreeInCommon (types ps : List Ty) : Prop := ∀ (i : Nat) (t p : Ty), types[i]? = some t → ps[i]? = some p → t = p

variable {types ps : List Ty} {st : State}

theorem agreeInCommon_iff : AgreeInCommon types ps ↔ ∀ q ∈ types.zip ps, q.1 = q.2 := by
  constructor
  · intro h q hq
    obtain ⟨i, hi⟩ := List.mem_iff_getElem?.mp hq
    obtain ⟨ht, hp⟩ := List.getElem?_zip_eq_some.mp hi
    exact h i q.1 q.2 ht hp
  · intro h i t p ht hp
    exact h (t, p) (List.mem_iff_getElem?.mpr ⟨i, List.getElem?_zip_eq_some.mpr ⟨ht, hp⟩⟩)

/-- With as many arguments as parameters, the types agree only if they are the same. -/
theorem agreeInCommon_iff_eq (h : types.length = ps.length) : AgreeInCommon types ps ↔ types = ps := by
  constructor
  · intro hagree
    refine List.ext_getElem h fun i hi hi' => ?_
    exact hagree i _ _ (List.getElem?_eq_getElem hi) (List.getElem?_eq_getElem hi')
  · rintro rfl i t p ht hp
    exact Option.some.inj (ht.symm.trans hp)

theorem State.typesOf_length {as : List Expr} (h : st.typesOf as = .ok types) :
    types.length = as.length := by
  induction as generalizing types with
  | nil =>
    cases h
    rfl
  | cons e rest ih =>
    obtain ⟨t, ts, -, hts, h⟩ := Fault.bind_bind_eq_ok.1 h
    cases h
    exact congrArg (· + 1) (ih hts)

/-- A listener that is told of a call of a function does not fail: it would have to be a call of a value. -/
theorem Comes.call_passes {s : Script} {c : Call} {r : Ty} (h : Comes s (.exit (.call c)) st)
    (hc : st.CallsFunction c ps r) : ∃ st', checkCall st c = .ok st' := by
  obtain ⟨before, after, hs, hw⟩ := h
  cases hcheck : checkCall st c with
  | ok st' => exact ⟨st', rfl⟩
  | error f =>
    have hstop : walk check (declared s) (scriptEvents s) = .error ⟨.exit (.call c), f, st⟩ :=
      walk_eq_error.2 ⟨before, after, hs, hw, hcheck⟩
    have hfollows := follows_script s
    cases hrun : Analysis.run (.script s) false with
    | ok a =>
      rw [hrun] at hfollows
      cases hfollows.symm.trans hstop
    | error f' =>
      rw [hrun] at hfollows
      obtain ⟨c', st', hw', -, n', sym', t, hn', hsym', ht⟩ := hfollows
      cases hw'.symm.trans hstop
      obtain ⟨n, sym, hn, hsym, hfun⟩ := hc
      cases hn.symm.trans hn'
      cases hsym.symm.trans hsym'
      cases hfun.symm.trans ht

/-- What a listener makes of a call of a function whose arguments have the given types. -/
theorem checkCall_function {c : Call} {r : Ty} (hc : st.CallsFunction c ps r)
    (ht : st.typesOf c.args = .ok types) :
    checkCall st c = .ok (st.note (if misfits (c.args.zip types) ps = [] then Notes.typed (.call c) r
      else Notes.found (.call c) .invalidCall (misfitMessage (misfits (c.args.zip types) ps)) ++
        Notes.typed (.call c) .error)) := by
  obtain ⟨n, sym, hn, hsym, hfun⟩ := hc
  have hhere : st.here = .ok n := by rw [State.here, hn]; rfl
  rw [checkCall, hhere, ht]
  show (callType (st.scopes.resolve n) c types >>= fun q => Except.ok (st.note (q.2 ++ Notes.typed (.call c) q.1))) = _
  have hcall : callType (st.scopes.resolve n) c types =
      if misfits (c.args.zip types) ps = [] then .ok (r, Notes.none)
      else .ok (.error, Notes.found (.call c) .invalidCall (misfitMessage (misfits (c.args.zip types) ps))) := by
    rw [callType, hsym]
    simp only [hfun]
    cases misfits (c.args.zip types) ps with
    | nil => rfl
    | cons m ms => rfl
  rw [hcall]
  split
  · rfl
  · rfl

end Walk

namespace Analysis

open Walk

/-- When a walk comes to a call of a function, the types of the arguments are known. If they agree with the parameters in
    all positions that have both, the call gets the type that the function returns, and nothing is found; otherwise the
    call is found to be wrong and gets the type `error`. With as many arguments as parameters, they agree only
    if each argument has the type of its parameter. -/
theorem call_judged_by_common_positions {s : Script} {c : Call} {st : Walk.State} {ps : List Ty} {r : Ty}
    (comes : Comes s (.exit (.call c)) st) (callee : st.CallsFunction c ps r) :
    ∃ types, st.typesOf c.args = .ok types ∧ types.length = c.args.length ∧
      (AgreeInCommon types ps → Walk.check st (.exit (.call c)) = .ok (st.note (Notes.typed (.call c) r))) ∧
      (¬ AgreeInCommon types ps → Walk.check st (.exit (.call c)) = .ok (st.note
        (Notes.found (.call c) .invalidCall (Check.misfitMessage (Check.misfits (c.args.zip types) ps)) ++
          Notes.typed (.call c) .error))) ∧
      (c.args.length = ps.length → (AgreeInCommon types ps ↔ types = ps)) := by
  obtain ⟨st', hst'⟩ := comes.call_passes callee
  obtain ⟨n, -, hn⟩ := Fault.bind_eq_ok.1 hst'
  obtain ⟨types, htypes, -⟩ := Fault.bind_eq_ok.1 hn
  have hlength := Walk.State.typesOf_length htypes
  have hmisfits : Check.misfits (c.args.zip types) ps = [] ↔ AgreeInCommon types ps :=
    (Typing.misfits_eq_nil hlength.symm).trans (agreeInCommon_iff).symm
  have hcheck := checkCall_function callee htypes
  refine ⟨types, htypes, hlength, ?_, ?_, ?_⟩
  · intro hagree
    rw [if_pos (hmisfits.mpr hagree)] at hcheck
    exact hcheck
  · intro hagree
    rw [if_neg (mt hmisfits.mp hagree)] at hcheck
    exact hcheck
  · intro hcount
    exact agreeInCommon_iff_eq (hlength.trans hcount)

/-- A call whose first argument fits its parameter and whose second does not. -/
def misfitCall : Call := ⟨⟨2, 17⟩, "f", [.intLiteral ⟨2, 19⟩ "1", .stringLiteral ⟨2, 21⟩ "\"mouse\""]⟩

def secondMisfits : Script where
  functions := [{
    name := "f", parameters := [⟨⟨1, 3⟩, "a", .int⟩, ⟨⟨1, 7⟩, "b", .bool⟩], returns := some .int
    body := ⟨[], ⟨⟨1, 14⟩, [.leave ⟨1, 14⟩ (some (.reference ⟨1, 15⟩ "a"))]⟩⟩ }]
  main := ⟨[], ⟨⟨2, 17⟩, [.call misfitCall]⟩⟩

theorem secondMisfits_judged : ∃ st, Comes secondMisfits (.exit (.call misfitCall)) st ∧
    st.CallsFunction misfitCall [.int, .bool] .int ∧
    ∃ m, Walk.check st (.exit (.call misfitCall)) = .ok (st.note
      (Notes.found (.call misfitCall) .invalidCall m ++ Notes.typed (.call misfitCall) .error)) := by
  have hwalk : ∃ st, walk Walk.check (declared secondMisfits) ((scriptEvents secondMisfits).take 10) = .ok st ∧
      st.typesOf misfitCall.args = .ok [.int, .string] ∧ st.CallsFunction misfitCall [.int, .bool] .int :=
    ⟨_, by with_unfolding_all rfl, by with_unfolding_all rfl, 2, _, rfl, by with_unfolding_all rfl, rfl⟩
  obtain ⟨st, hwalk, hargs, callee⟩ := hwalk
  have comes : Comes secondMisfits (.exit (.call misfitCall)) st := ⟨_, _, rfl, hwalk⟩
  obtain ⟨types, htypes, -, -, hwrong, -⟩ := call_judged_by_common_positions comes callee
  cases hargs.symm.trans htypes
  refine ⟨st, comes, callee, _, hwrong ?_⟩
  intro hagree
  cases hagree 1 .string .bool rfl rfl

/-- A call without the argument that its function asks for. -/
def bareCall : Call := ⟨⟨2, 10⟩, "f", []⟩

def missingArgument : Script where
  functions := [{ name := "f", parameters := [⟨⟨1, 3⟩, "a", .int⟩], returns := none, body := ⟨[], ⟨⟨1, 8⟩, []⟩⟩ }]
  main := ⟨[], ⟨⟨2, 10⟩, [.call bareCall]⟩⟩

/-- Nothing is found, although a call has one argument less than its function has parameters. -/
theorem missing_argument_passes : (∃ st, Comes missingArgument (.exit (.call bareCall)) st ∧
      st.CallsFunction bareCall [.int] .void ∧ bareCall.args.length ≠ [Ty.int].length ∧
      Walk.check st (.exit (.call bareCall)) = .ok (st.note (Notes.typed (.call bareCall) .void))) ∧
    ∃ a, run (.script missingArgument) false = .ok a ∧ a.log.total = 0 := by
  refine ⟨⟨_, ⟨(scriptEvents missingArgument).take 5, _, rfl, by with_unfolding_all rfl⟩, ?_, by decide, ?_⟩, ?_⟩
  · exact ⟨2, _, rfl, by with_unfolding_all rfl, rfl⟩
  · with_unfolding_all rfl
  · obtain ⟨t, h, -⟩ := run_script missingArgument
    exact ⟨_, h, rfl⟩

end Analysis

end NimbleLang
