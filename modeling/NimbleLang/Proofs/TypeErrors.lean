import NimbleLang.Check.OfText
import NimbleLang.Proofs.Inquiries
import NimbleLang.Proofs.Readings
import NimbleLang.Proofs.Verdict

/-!
Expressions that are analysed alone. No name stands for anything there, so the check of an expression cannot fail, and an
expression has the type `error` exactly if something is found in it. Then something is found about the whole expression too: the
type `error` is never lost on the way up, and a call that is wrong is found under the line and the text of the expression that it
is (`Check.expr_nowhere`). What is found for other expressions of the same line and text may take the place of an entry, but an
entry stays.

- `Analysis.error_iff_entered`: every source that is parsed as an expression is analysed, and the type of the expression, the number of
  entries and the entry for the expression say the same.
-/

namespace NimbleLang

namespace Check

/-- Where no name stands for anything. -/
def nowhere : Lookup := fun _ => none

/-- What the check of an expression comes to where no name stands for anything. -/
structure Judged (e : Expr) (t : Ty) (n : Notes) : Prop where
  error_iff : t = .error ↔ n.findings ≠ []
  about : t = .error → ∃ f ∈ n.findings, f.node.line = e.place.line ∧ f.node.text = e.text
  sound : t ≠ .error → (∃ τ : Declared, t = τ.ty) ∧ e.Nameless

variable {e : Expr} {t : Ty} {m n : Notes}

theorem Judged.silent (h : Judged e t n) (ht : t ≠ .error) : n.findings = [] := by
  by_contra hne
  exact ht (h.error_iff.mpr hne)

/-- An expression that is found wrong exactly if it has the type `error`, after its parts. -/
theorem judged_require (c : Category) (msg : String) (hparts : t ≠ .error → m.findings = [])
    (hsound : t ≠ .error → (∃ τ : Declared, t = τ.ty) ∧ e.Nameless) :
    Judged e t (m ++ Notes.typed (.expr e) t ++ Notes.require (t != .error) (.expr e) c msg) := by
  by_cases ht : t = .error
  · subst ht
    have hfound : Notes.require (Ty.error != .error) (.expr e) c msg = Notes.found (.expr e) c msg := rfl
    rw [hfound]
    refine ⟨iff_of_true rfl ?_, fun _ => ⟨⟨.expr e, c, msg⟩, ?_, rfl, rfl⟩, hsound⟩
    · simp [Notes.found]
    · simp [Notes.found]
  · have hnone : Notes.require (t != .error) (.expr e) c msg = Notes.none := if_pos (bne_iff_ne.mpr ht)
    rw [hnone, Notes.append_none]
    refine ⟨iff_of_false ht ?_, fun h => absurd h ht, hsound⟩
    simp [hparts ht, Notes.typed]

theorem judged_literal (τ : Declared) (he : e.Nameless) : Judged e τ.ty (Notes.typed (.expr e) τ.ty) :=
  ⟨iff_of_false τ.ty_ne_error (not_not_intro rfl), fun h => absurd h τ.ty_ne_error, fun _ => ⟨⟨τ, rfl⟩, he⟩⟩

theorem signType_error (s : Sign) : signType s .error = .error := by cases s <;> rfl

/-- The finding is about the call, which has the place and the text of the expression that it is. -/
theorem closeCall_nowhere (c : Call) (ts : List Ty) (n : Notes) : ∃ m, closeCall nowhere c ts n =
    .ok (.error, n ++ Notes.found (.call c) .invalidCall m ++ Notes.typed (.call c) .error) := ⟨_, rfl⟩

mutual
theorem expr_nowhere (e : Expr) : ∃ t n, expr nowhere e = .ok (t, n) ∧ Judged e t n := by
  cases e with
  | parens p e =>
    obtain ⟨t, n, h, hj⟩ := expr_nowhere e
    exact ⟨t, _, by rw [expr, h]; rfl, judged_require _ _ hj.silent hj.sound⟩
  | signed p s e =>
    obtain ⟨t, n, h, hj⟩ := expr_nowhere e
    have hinner : signType s t ≠ .error → t ≠ .error := fun hs ht => hs (by rw [ht, signType_error])
    exact ⟨signType s t, _, by rw [expr, h]; rfl,
      judged_require _ _ (fun hs => hj.silent (hinner hs)) fun hs => ⟨signType_declared hs, (hj.sound (hinner hs)).2⟩⟩
  | binary op l r =>
    obtain ⟨tl, nl, hl, hjl⟩ := expr_nowhere l
    obtain ⟨tr, nr, hr, hjr⟩ := expr_nowhere r
    have hints : operatorType op tl tr ≠ .error → tl = .int ∧ tr = .int := fun ho => by_contra fun hi => ho (if_neg hi)
    refine ⟨operatorType op tl tr, _, by rw [expr, hl, hr]; rfl, judged_require _ _ (fun ho => ?_) fun ho => ?_⟩
    · obtain ⟨rfl, rfl⟩ := hints ho
      rw [Notes.findings_append, hjl.silent (by decide), hjr.silent (by decide)]
      rfl
    · obtain ⟨rfl, rfl⟩ := hints ho
      exact ⟨resultType_declared op, (hjl.sound (by decide)).2, (hjr.sound (by decide)).2⟩
  | call p f as =>
    obtain ⟨ts, n, h⟩ := args_nowhere as
    obtain ⟨m, hclose⟩ := closeCall_nowhere ⟨p, f, as⟩ ts n
    refine ⟨.error, _, by rw [expr, h]; dsimp only [bind, Except.bind]; rw [hclose]; rfl, iff_of_true rfl ?_,
      fun _ => ⟨⟨.call ⟨p, f, as⟩, .invalidCall, m⟩, ?_, rfl, rfl⟩, fun hne => absurd rfl hne⟩
    · simp [Notes.found]
    · simp [Notes.found]
  | reference p x =>
    exact ⟨.error, _, rfl, iff_of_true rfl (List.cons_ne_nil _ _), fun _ => ⟨_, List.mem_cons_self, rfl, rfl⟩,
      fun hne => absurd rfl hne⟩
  | stringLiteral p s => exact ⟨.string, _, rfl, judged_literal .string trivial⟩
  | intLiteral p s => exact ⟨.int, _, rfl, judged_literal .int trivial⟩
  | boolLiteral p s => exact ⟨.bool, _, rfl, judged_literal .bool trivial⟩

theorem args_nowhere (as : List Expr) : ∃ ts n, args nowhere as = .ok (ts, n) := by
  cases as with
  | nil => exact ⟨[], Notes.none, rfl⟩
  | cons e rest =>
    obtain ⟨t, n, h, -⟩ := expr_nowhere e
    obtain ⟨ts, more, hrest⟩ := args_nowhere rest
    exact ⟨t :: ts, n ++ more, by rw [args, h, hrest]; rfl⟩
end

end Check

/-! ## Looking up what was noted -/

/-- The log has an entry for a line and a text if something was found there. -/
theorem ErrorLog.find?_ofFindings {fs : List Finding} {line : Int} {text : String} :
    (∃ entry, (ofFindings fs).find? line text = some entry) ↔ ∃ f ∈ fs, f.node.line = line ∧ f.node.text = text := by
  rw [← Option.isSome_iff_exists, ofFindings_eq_addAll, find?_addAll, Option.isSome_map, latest_isSome]
  constructor
  · intro h
    obtain ⟨x, hx, hkey⟩ := h
    obtain ⟨f, hf, rfl⟩ := List.mem_map.mp hx
    exact ⟨f, hf, hkey⟩
  · intro h
    obtain ⟨f, hf, hkey⟩ := h
    exact ⟨f.addition, List.mem_map_of_mem hf, hkey⟩

namespace Analysis

/-- Of all in an expression the expression itself comes last. -/
theorem exprNodes_snoc (e : Expr) : ∃ inner, Typing.exprNodes e = inner ++ [.expr e] := by
  cases e with
  | call p f as => exact ⟨Typing.argNodes as ++ [.call ⟨p, f, as⟩], by simp [Typing.exprNodes]⟩
  | parens => exact ⟨_, rfl⟩
  | signed => exact ⟨_, rfl⟩
  | binary => exact ⟨_, rfl⟩
  | _ => exact ⟨[], rfl⟩

/-- The type that is noted last is found by the line and the text of its phrase. -/
theorem typeAt_of_last {a : Analysis} {node : Node} {t : Ty} (h : a.notes.types.getLast? = some (node, t)) :
    a.typeAt node.line node.text = .ok t := by
  obtain ⟨earlier, htypes⟩ := List.getLast?_eq_some_iff.mp h
  rw [typeAt, typesByLine, htypes, List.foldl_append, List.foldl_cons, List.foldl_nil]
  dsimp only
  rw [Assoc.get?_put_self, Option.bind_some, Assoc.get?_put_self]
  rfl

/-- An expression that stands alone is checked where no name stands for anything. -/
theorem run_expr {e : Expr} {t : Ty} {n : Notes} (h : Check.expr Check.nowhere e = .ok (t, n)) :
    ∃ a, run (.expr e) false = .ok a ∧ a.notes = n := by
  refine ⟨{ scopes := start.scopes.update global fun _ => start.scopes.scope global, notes := n }, ?_, rfl⟩
  have hlook : Check.lookIn (around start.scopes global) (start.scopes.scope global) = Check.nowhere := rfl
  show within start global (plain fun look => do return (← Check.expr look e).2) = _
  rw [within, plain, hlook, h]
  rfl

/-- A source that is parsed as an expression can be analysed. The type noted last is that of the whole expression, and it is looked up
under the line of the first token and the text. It is `error` exactly if the log has entries, and exactly if it has one for this
line and text. Otherwise it can be declared, and no variable and no call stands in the expression. -/
theorem error_iff_entered {text : String} {tree : Tree} (h : (Source.ofString text).parse .expr = .ok tree) :
    ∃ e a t first line shown, tree.toExpr? = some e ∧ ofText text .expr false = .ok a ∧
      tree.leaves.head? = some first ∧ first.line = some line ∧ tree.text = .ok shown ∧
      a.notes.types.getLast? = some (.expr e, t) ∧ a.typeAt line shown = .ok t ∧ t = Typing.typeOf (fun _ => none) e ∧
      (t = .error ↔ 0 < a.log.total) ∧
      (0 < a.log.total ↔ ∃ entry, a.log.find? line shown = some entry) ∧
      (t ≠ .error → (t = .int ∨ t = .bool ∨ t = .string) ∧ tree.Nameless) := by
  obtain ⟨hderives, hspelt⟩ := Grammar.spelt_of_parse (by decide) h
  obtain ⟨e, he⟩ := Grammar.reads_of_derives hderives hspelt
  obtain ⟨t, n, hcheck, hj⟩ := Check.expr_nowhere e
  obtain ⟨a, hrun, rfl⟩ := run_expr hcheck
  have hphrase : (Source.ofString text).phrase .expr = .ok (.expr e) := by
    rw [Source.phrase, h]
    show Fault.absent.unless (tree.toExpr?.map Phrase.expr) = _
    rw [he.toExpr]
    rfl
  -- the line of the expression is that of its first token
  obtain ⟨first, hfirst, hplace⟩ := Option.map_eq_some_iff.mp he.begins
  obtain ⟨line, hline⟩ := (hspelt first (List.mem_of_mem_head? hfirst)).line
  have hstart : e.place.line = line := by
    rw [← hplace, Tree.placeOf, hline]
    rfl
  have hagrees : Typing.Agrees Check.nowhere fun _ => none := fun _ => rfl
  obtain ⟨hreference, htypes⟩ := Typing.expr_types hagrees hcheck
  have hlast : a.notes.types.getLast? = some (.expr e, t) := by
    obtain ⟨inner, hinner⟩ := exprNodes_snoc e
    rw [htypes, hinner, Typing.entries_append, Typing.entries_expr, List.getLast?_concat, hreference]
  have htotal : 0 < a.log.total ↔ a.notes.findings ≠ [] := by
    rw [Nat.pos_iff_ne_zero, log, ne_eq, ErrorLog.total_ofFindings_eq_zero]
  refine ⟨e, a, t, first, line, e.text, he.toExpr, ?_, hfirst, hline, he.text, hlast, ?_, hreference, ?_, ?_, fun ht => ?_⟩
  · rw [ofText, hphrase]
    exact hrun
  · rw [← hstart]
    exact typeAt_of_last hlast
  · rw [htotal]
    exact hj.error_iff
  · rw [htotal, log, ErrorLog.find?_ofFindings, ← hstart]
    exact ⟨fun hne => hj.about (hj.error_iff.mpr hne), fun h => h.elim fun _ hf => List.ne_nil_of_mem hf.1⟩
  · obtain ⟨⟨τ, hτ⟩, hnameless⟩ := hj.sound ht
    refine ⟨?_, he.nameless hnameless⟩
    rw [hτ]
    cases τ with
    | int => exact .inl rfl
    | bool => exact .inr (.inl rfl)
    | string => exact .inr (.inr rfl)

theorem negatedNumber_total : (ofText "!1" .expr false).toOption.map (fun a => a.log.total) = some 1 := by
  rw [ofText, Source.phrase, Source.parse, Session.ofSource_eq]
  decide +kernel

theorem negatedNumber_entered : ∃ tree a, (Source.ofString "!1").parse .expr = .ok tree ∧ ofText "!1" .expr false = .ok a ∧
    a.log.total = 1 ∧ ∃ first line shown entry, tree.leaves.head? = some first ∧ first.line = some line ∧ tree.text = .ok shown ∧
      a.typeAt line shown = .ok .error ∧ a.log.find? line shown = some entry := by
  obtain ⟨a, ha, htotal⟩ := Option.map_eq_some_iff.mp negatedNumber_total
  have hok : ofText "!1" .expr false = .ok a := by
    cases hof : ofText "!1" .expr false with
    | error f =>
      rw [hof] at ha
      cases ha
    | ok b =>
      rw [hof] at ha
      rw [Option.some.inj ha]
  obtain ⟨phrase, hphrase, -⟩ := Fault.bind_eq_ok.1 hok
  obtain ⟨tree, htree, -⟩ := Fault.bind_eq_ok.1 hphrase
  obtain ⟨e, a', t, first, line, shown, -, hok', hfirst, hline, hshown, -, htype, -, herror, hentered, -⟩ := error_iff_entered htree
  obtain rfl : a = a' := Except.ok.inj (hok.symm.trans hok')
  have hpos : 0 < a.log.total := by omega
  obtain ⟨entry, hentry⟩ := hentered.mp hpos
  rw [herror.mpr hpos] at htype
  exact ⟨tree, a, htree, hok, htotal, first, line, shown, entry, hfirst, hline, hshown, htype, hentry⟩

end Analysis

end NimbleLang
