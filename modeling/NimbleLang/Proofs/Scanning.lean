import NimbleLang.Proofs.Cuts

/-!
What a scanner hands out next. Between two tokens of a Nimble source this is a matter of the source and the place alone, whatever
the scanner has learnt and noted: the next token among the pieces of the source (`Between.nextToken_eq`). A scanner never fails,
and its complaints blame no token (`Made.impersonal`).
-/

namespace NimbleLang

/-- A fault that no rule of a grammar recovers from. -/
def Fault.Sober : Fault → Prop
  | .recognition _ => False
  | _ => True

/-- A missing part is no failure of recognition. -/
theorem Fault.sober_unless {α : Type} {f g : Fault} {o : Option α} (h : f.unless o = .error g) (hf : f.Sober) : g.Sober := by
  cases o with
  | none => exact Except.error.inj h ▸ hf
  | some a => cases h

/-! ## Complaints -/

/-- A complaint of a parser, which is always about a token. -/
def Report.blamesToken : Report → Bool
  | .complaint _ _ _ token _ _ => token.isSome
  | _ => false

/-- Whether a parser has complained. -/
def Journal.Marred (j : Journal) : Prop := ∃ r ∈ j.reports, r.blamesToken = true

namespace Journal

variable {j : Journal}

theorem Marred.add (h : j.Marred) (r : Report) : (j.add r).Marred := by
  obtain ⟨c, hc, hcomplaint⟩ := h
  exact ⟨c, by simp [hc], hcomplaint⟩

theorem Marred.of_add {r : Report} (h : (j.add r).Marred) (hr : r.blamesToken = false) : j.Marred := by
  obtain ⟨c, hc, hcomplaint⟩ := h
  rw [add_reports, Array.mem_push] at hc
  rcases hc with hc | rfl
  · exact ⟨c, hc, hcomplaint⟩
  · rw [hr] at hcomplaint
    cases hcomplaint

theorem Marred.print (h : j.Marred) (line : String) : (j.print line).Marred := h

theorem Marred.append (h : j.Marred) (later : Journal) : (j.append later).Marred := by
  obtain ⟨c, hc, hcomplaint⟩ := h
  exact ⟨c, Array.mem_append.mpr (.inl hc), hcomplaint⟩

theorem Marred.of_append {later : Journal} (h : (j.append later).Marred) (hlater : ¬later.Marred) : j.Marred := by
  obtain ⟨c, hc, hcomplaint⟩ := h
  rcases Array.mem_append.mp hc with hc | hc
  · exact ⟨c, hc, hcomplaint⟩
  · exact absurd ⟨c, hc, hcomplaint⟩ hlater

theorem not_marred_blank (j : Journal) : ¬j.blank.Marred := fun ⟨_, hr, _⟩ => nomatch Array.mem_def.mp hr

end Journal

namespace Grammar

open Scan

variable {command : Command} {source : Source} {i n m : Nat} {j j' k k' : Journal} {p q : Piece} {ps : List Piece} {s : Scanner}

/-- There is one piece to be made from a place on. -/
theorem Made.unique (a : Made command source i n j p j') (b : Made command source i m k q k') : n = m ∧ p = q := by
  cases a with
  | dropped hs =>
    cases b with
    | dropped hs' =>
      obtain rfl := hs.unique hs'
      exact ⟨rfl, rfl⟩
    | shown hl | skipped hl | kept hl => exact absurd hs hl.not_stuck
  | shown hl hr hh | skipped hl hr hh hcommand | kept hl hr hh hcommand =>
    cases b with
    | dropped hs => exact absurd hs hl.not_stuck
    | shown hl' hr' hh' | skipped hl' hr' hh' hcommand' | kept hl' hr' hh' hcommand' =>
      obtain ⟨rfl, rfl⟩ := hl.unique hl'
      obtain rfl := Option.some.inj (hr.symm.trans hr')
      simp_all

/-- A scanner blames no token. -/
theorem Made.impersonal (h : Made command source i n j p j') (hm : j'.Marred) : j.Marred := by
  cases h with
  | shown | skipped | kept => exact hm
  | dropped => exact hm.of_add rfl

/-- What a scanner hands out with some pieces ahead: the first token among them, and then later pieces are ahead; or the end
token. -/
def HandsOut (command : Command) (source : Source) (s : Scanner) (ps : List Piece) (q : Except Fault Token × Scanner) : Prop :=
  (q.2.journal.Marred → s.journal.Marred) ∧
    ((∃ t n rest j j', q.1 = .ok t ∧ t.isEof = false ∧ Between command source n q.2 ∧ Course command source n j rest j' ∧
      tokensOf ps = t :: tokensOf rest) ∨ q.1 = .ok (endToken source) ∧ Between command source source.size q.2 ∧ tokensOf ps = [])

theorem Between.tokenLoop_eq (hb : Between command source i s) (hc : Course command source i j ps j') {fuel : Nat}
    (hfuel : ps.length < fuel) : HandsOut command source s ps ((tokenLoop fuel true).outcome s) := by
  induction hc generalizing s fuel with
  | ended =>
    obtain ⟨fuel, rfl⟩ : ∃ n, fuel = n + 1 := ⟨fuel - 1, by omega⟩
    cases hended : s.hitEnd with
    | true =>
      rw [tokenLoop, Run.outcome_get_bind, if_pos (by simp [hended]), Run.outcome_pure, hb.atEnd.emitEnd_eq]
      exact ⟨id, .inr ⟨rfl, hb, rfl⟩⟩
    | false =>
      obtain ⟨s', hmatch, hemit, hjournal, hb'⟩ := hb.blank
      rw [tokenLoop_fresh hended hmatch, if_neg (by decide), if_neg (by decide), hemit, hb'.atEnd.emitEnd_eq]
      exact ⟨fun h => hjournal ▸ h, .inr ⟨rfl, hb', rfl⟩⟩
  | @turn i n j j₁ j' p ps hn hinside hmade hrest ih =>
    obtain ⟨fuel, rfl⟩ : ∃ n, fuel = n + 1 := ⟨fuel - 1, by omega⟩
    rw [List.length_cons] at hfuel
    obtain ⟨n', p', s₁, -, hturn, hb₁, hmade₁⟩ := hb.turn (by omega)
    obtain ⟨rfl, rfl⟩ := hmade.unique hmade₁
    have hmakes := hturn.makes
    rw [tokenLoop_fresh hturn.unended hturn.matched]
    cases p with
    | token t =>
      obtain ⟨rfl, hskip, hmore, heof⟩ := hmakes
      rw [if_neg hskip, if_neg hmore]
      exact ⟨hmade₁.impersonal, .inl ⟨_, _, ps, _, _, rfl, beq_eq_false_iff_ne.mpr heof, hb₁, hrest, rfl⟩⟩
    | skipped start stop | dropped start stop =>
      obtain ⟨hnotes, hhands⟩ := ih hb₁ (show ps.length < fuel by omega)
      rw [if_pos hmakes.1]
      exact ⟨fun h => hmade₁.impersonal (hnotes h), hhands⟩

theorem Course.length_le (hc : Course command source i j ps j') : ps.length + i ≤ source.size := by
  induction hc with
  | ended => simp
  | turn hn hinside _ _ ih =>
    rw [List.length_cons]
    omega

theorem Between.nextToken_eq (hb : Between command source i s) (hc : Course command source i j ps j') :
    HandsOut command source s ps (nextToken.outcome s) := by
  have hlength := hc.length_le
  have hcursor := hb.placed.cursor
  unfold nextToken
  rw [Run.outcome_get_bind]
  refine hb.tokenLoop_eq hc ?_
  rw [hcursor]
  dsimp only
  omega

end Grammar

end NimbleLang
