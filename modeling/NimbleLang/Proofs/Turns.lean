import NimbleLang.Proofs.Runs
import NimbleLang.Scan.Lexer

/-!
The turns of a scanner. Each match from the beginning of a token on makes one piece of the characters it moves over: a
token, a match that is skipped, or characters that are dropped with a complaint (`Turn`). The turns up to the end of the source
(`Turns`) say what the scanner hands out: the tokens among the pieces, in order, and then the end token
(`Turns.nextToken_eq`, `Turns.tokensFrom_eq`, `Turns.tokensUpTo_eq`).
-/

namespace NimbleLang.Scan

/-- What a scanner makes of some characters. -/
inductive Piece where
  | token (t : Token)
  /-- A match that is skipped, with its first place and its last. -/
  | skipped (start stop : Int)
  /-- Characters that no rule matches, with the first place and the last. -/
  | dropped (start stop : Int)
  deriving DecidableEq, Repr

namespace Piece

def token? : Piece → Option Token
  | token t => some t
  | skipped _ _ => none
  | dropped _ _ => none

def start : Piece → Int
  | token t => t.start
  | skipped start _ => start
  | dropped start _ => start

def stop : Piece → Int
  | token t => t.stop
  | skipped _ stop => stop
  | dropped _ stop => stop

end Piece

/-- The tokens among some pieces. -/
def tokensOf (ps : List Piece) : List Token := ps.filterMap Piece.token?

/-- The scanner where a token begins. -/
def Scanner.fresh (s : Scanner) : Scanner :=
  { s with channel := 0, tokenStart := s.cursor.index, tokenColumn := s.column, tokenLine := s.line, text := none }

/-- A piece is what a match from `s` to `s'` makes of the characters between. -/
def Piece.Of (s s' : Scanner) : Piece → Prop
  | token t => t = emit s' ∧ s'.type ≠ Scanner.skipType ∧ s'.type ≠ Scanner.moreType ∧ s'.type ≠ Token.eof
  | skipped start stop => s'.type = Scanner.skipType ∧ s'.journal = s.journal ∧ start = s.cursor.index ∧ stop = s'.cursor.index - 1
  | dropped start stop => s'.type = Scanner.skipType ∧ (∃ r, s'.journal = s.journal.add r) ∧ start = s.cursor.index ∧
      stop = s'.cursor.index - 1

/-- One turn of a scanner that has not come to the end: a match, and the piece it makes. -/
structure Turn (s : Scanner) (p : Piece) (s' : Scanner) : Prop where
  unended : s.hitEnd = false
  matched : matchOnce.outcome s.fresh = (.ok s'.type, s')
  makes : p.Of s s'
  source : s'.cursor.source = s.cursor.source
  moves : s.cursor.index < s'.cursor.index
  inside : s'.cursor.index ≤ s.cursor.source.size

/-- The turns of a scanner up to the end of its source. An empty source takes a match too, to see its end. -/
inductive Turns : Scanner → List Piece → Scanner → Prop
  | ended {s : Scanner} : s.hitEnd = true → Turns s [] s
  | blank {s s' : Scanner} : s.hitEnd = false → matchOnce.outcome s.fresh = (.ok Token.eof, s') → emit s' = emitEnd s' → Turns s [] s'
  | turn {s s₁ s' : Scanner} {p : Piece} {ps : List Piece} : Turn s p s₁ → Turns s₁ ps s' → Turns s (p :: ps) s'

variable {s s' : Scanner} {p : Piece} {ps : List Piece}

/-- Every turn moves on, so there are at most as many as there are characters. -/
theorem Turns.length_le (h : Turns s ps s') : ps.length ≤ ((s.cursor.source.size : Int) - s.cursor.index).toNat := by
  induction h with
  | ended => exact Nat.zero_le _
  | blank => exact Nat.zero_le _
  | turn hturn _ ih =>
    have hmoves := hturn.moves
    have hinside := hturn.inside
    rw [hturn.source] at ih
    rw [List.length_cons]
    omega

/-! ## What is handed out -/

/-- A loop that begins a token begins with a match. -/
theorem tokenLoop_fresh (hs : s.hitEnd = false) {type : Int} (hm : matchOnce.outcome s.fresh = (.ok type, s')) (fuel : Nat) :
    (tokenLoop (fuel + 1) true).outcome s = if type = Scanner.skipType then (tokenLoop fuel true).outcome s'
      else if type = Scanner.moreType then (tokenLoop fuel false).outcome s' else (.ok (emit s'), s') := by
  rw [tokenLoop, Run.outcome_get_bind]
  rw [if_neg (by simp [hs]), if_pos rfl, Run.outcome_bind_ok (Run.outcome_set _ _)]
  have hfresh : { s with channel := 0, tokenStart := s.cursor.index, tokenColumn := s.column, tokenLine := s.line, text := none } =
    s.fresh := rfl
  rw [hfresh, Run.outcome_bind_ok hm]
  split
  · rfl
  · split
    · rfl
    · rw [Run.outcome_get_bind, Run.outcome_pure]

/-- A scanner hands out a token and has the later pieces ahead, or the end token if there is no token among the pieces. -/
def Handed (ps : List Piece) (s' : Scanner) (q : Except Fault Token × Scanner) : Prop :=
  (∃ t rest s₁, q = (.ok t, s₁) ∧ Turns s₁ rest s' ∧ t.isEof = false ∧ tokensOf ps = t :: tokensOf rest) ∨
    (tokensOf ps = [] ∧ q = (.ok (emitEnd s'), s'))

theorem Handed.cons {q : Except Fault Token × Scanner} (h : Handed ps s' q) (hp : p.token? = none) : Handed (p :: ps) s' q := by
  have htokens : tokensOf (p :: ps) = tokensOf ps := List.filterMap_cons_none hp
  unfold Handed
  rw [htokens]
  exact h

theorem Turns.tokenLoop_eq (h : Turns s ps s') {fuel : Nat} (hfuel : ps.length < fuel) :
    Handed ps s' ((tokenLoop fuel true).outcome s) := by
  induction h generalizing fuel with
  | ended hs =>
    obtain ⟨fuel, rfl⟩ : ∃ n, fuel = n + 1 := ⟨fuel - 1, by omega⟩
    right
    refine ⟨rfl, ?_⟩
    rw [tokenLoop, Run.outcome_get_bind]
    simp only [hs, Bool.and_self, if_true]
    rfl
  | blank hs hm hend =>
    obtain ⟨fuel, rfl⟩ : ∃ n, fuel = n + 1 := ⟨fuel - 1, by omega⟩
    right
    refine ⟨rfl, ?_⟩
    rw [tokenLoop_fresh hs hm, if_neg (by decide), if_neg (by decide), hend]
  | @turn s s₁ s' p ps hturn hrest ih =>
    obtain ⟨fuel, rfl⟩ : ∃ n, fuel = n + 1 := ⟨fuel - 1, by omega⟩
    rw [List.length_cons] at hfuel
    have hmakes := hturn.makes
    rw [tokenLoop_fresh hturn.unended hturn.matched]
    cases p with
    | token t =>
      obtain ⟨rfl, hskip, hmore, heof⟩ := hmakes
      rw [if_neg hskip, if_neg hmore]
      exact .inl ⟨_, ps, s₁, rfl, hrest, beq_eq_false_iff_ne.mpr heof, rfl⟩
    | skipped start stop | dropped start stop =>
      rw [if_pos hmakes.1]
      exact (ih (by omega)).cons rfl

theorem Turns.nextToken_eq (h : Turns s ps s') : Handed ps s' (nextToken.outcome s) := by
  have hlength := h.length_le
  have hfuel : ps.length < 2 * (((s.cursor.source.size : Int) - s.cursor.index).toNat + 2) := by omega
  have hloop := h.tokenLoop_eq hfuel
  unfold nextToken
  rw [Run.outcome_get_bind]
  exact hloop

theorem isEof_emitEnd (s : Scanner) : (emitEnd s).isEof = true := rfl

theorem Turns.tokensFrom_eq (h : Turns s ps s') {fuel : Nat} (hfuel : (tokensOf ps).length < fuel) (acc : Array Token) :
    (tokensFrom fuel acc).outcome s = (.ok (acc ++ (tokensOf ps).toArray), s') := by
  induction fuel generalizing s ps acc with
  | zero => omega
  | succ fuel ih =>
    rw [tokensFrom]
    rcases h.nextToken_eq with ⟨t, rest, s₁, hq, hturns, heof, htokens⟩ | ⟨htokens, hq⟩
    · rw [htokens, List.length_cons] at hfuel
      rw [Run.outcome_bind_ok hq, heof, if_neg (by decide), ih hturns (by omega), htokens]
      simp
    · rw [Run.outcome_bind_ok hq, isEof_emitEnd, if_pos rfl, htokens, Run.outcome_pure]
      simp

theorem Turns.length_tokensOf_le (h : Turns s ps s') :
    (tokensOf ps).length ≤ ((s.cursor.source.size : Int) - s.cursor.index).toNat :=
  Nat.le_trans (List.length_filterMap_le _ _) h.length_le

theorem Turns.tokensUpTo_eq (h : Turns s ps s') {n : Nat} (hn : (tokensOf ps).length < n) :
    (tokensUpTo n).outcome s = (.ok ((tokensOf ps).map .ok ++ [.ok (emitEnd s')]), s') := by
  induction n generalizing s ps with
  | zero => omega
  | succ n ih =>
    rw [tokensUpTo]
    rcases h.nextToken_eq with ⟨t, rest, s₁, hq, hturns, heof, htokens⟩ | ⟨htokens, hq⟩
    · rw [htokens, List.length_cons] at hn
      have hattempt : nextToken.attempt.outcome s = (.ok (.ok t), s₁) := by rw [Run.outcome_attempt, hq]
      rw [Run.outcome_bind_ok hattempt]
      dsimp only
      rw [heof, if_neg (by decide), Run.outcome_bind_ok (ih hturns (by omega)), Run.outcome_pure, htokens]
      rfl
    · have hattempt : nextToken.attempt.outcome s = (.ok (.ok (emitEnd s')), s') := by rw [Run.outcome_attempt, hq]
      rw [Run.outcome_bind_ok hattempt]
      dsimp only
      rw [isEof_emitEnd, if_pos rfl, Run.outcome_pure, htokens]
      rfl

end NimbleLang.Scan
