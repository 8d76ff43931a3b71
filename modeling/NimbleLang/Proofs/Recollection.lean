import NimbleLang.Proofs.Sessions

/-!
What parses leave of the lookahead sets. Whatever sources are read one after the other, with or without complaints, the
memory that they share goes through nothing but the steps of `Lookahead.Memory.Step`. So a set that is asked for is always
what can come next, except at the back state of a loop, where it may have grown for good
(`lookahead_grows_only_at_loops`). There it does grow (`recovery_enlarges_lookahead`).
-/

namespace NimbleLang

namespace Session

open Grammar Lookahead

/-- The memory of the session has come from `m` step by step. -/
def Remembers (m : Memory) (s : Session) : Prop := s.net = parserNetwork ∧ Memory.History parserNetwork m s.lookahead

instance (m : Memory) : Lasting (Remembers m) where
  part _ _ hmemory hnet hs := ⟨hnet.trans hs.1, hmemory ▸ hs.2⟩
  recogniser _ hrest hs := by
    have hnet := congrArg Recogniser.net hrest
    have hmemory := congrArg Recogniser.lookahead hrest
    exact ⟨hnet.trans hs.1, hmemory ▸ hs.2⟩
  remember hstep hs := ⟨hs.1, hs.2.tail (hs.1 ▸ hstep)⟩

/-- Parsing by the rule of a name takes the memory from step to step. -/
theorem parseNamed_remembers (m : Memory) (name : String) (levels : List Int) : Lasts (Remembers m) (parseNamed name levels) := by
  refine .bind (lift_indelible _) fun rule => ?_
  split
  · exact parse_indelible rule 0
  · exact .ite (parse_indelible rule _) (throw_indelible _)
  · exact throw_indelible _

theorem ofSource_remembers (source : Source) : Remembers (.ofNetwork parserNetwork) (ofSource source) := by
  rw [ofSource_eq_ofStream, Remembers, ofStream_net, ofStream_lookahead]
  exact ⟨rfl, .refl⟩

theorem inherit_remembers {m : Memory} {earlier : Session} (h : Remembers m earlier) (source : Source) :
    Remembers m ((ofSource source).inherit earlier) := by
  have hinherit (s : Session) (hs : s.net = parserNetwork) : Remembers m (s.inherit earlier) := ⟨hs, h.2⟩
  exact hinherit _ (ofSource_remembers source).1

theorem parseNamed_from {m : Memory} {s : Session} (h : Remembers m s) (name : String) :
    Remembers m ((parseNamed name []).outcome s).2 := by
  have hends := parseNamed_remembers m name [] s h
  unfold Run.Ends at hends
  split at hends
  all_goals
    rename_i hout
    rw [hout]
    exact hends

/-- The session after sources were read one after the other, each by the rule of a name and with what was learnt before. -/
def readEach (first : Source × String) (later : List (Source × String)) : Session :=
  later.foldl (fun s job => (treeAfter (some s) job.1 job.2).2) (treeAfter none first.1 first.2).2

theorem readEach_remembers (first : Source × String) (later : List (Source × String)) :
    Remembers (.ofNetwork parserNetwork) (readEach first later) := by
  have hfold (s : Session) (hs : Remembers (.ofNetwork parserNetwork) s) :
      Remembers (.ofNetwork parserNetwork) (later.foldl (fun s job => (treeAfter (some s) job.1 job.2).2) s) := by
    induction later generalizing s with
    | nil => exact hs
    | cons job later ih =>
      exact ih _ (parseNamed_from (inherit_remembers hs job.1) job.2)
  exact hfold _ (parseNamed_from (ofSource_remembers first.1) first.2)

end Session

namespace Grammar

open Lookahead Session

theorem parserNetwork_plain : Plain parserNetwork := by
  rw [parserNetwork_eq]
  exact network_plain

/-- Whatever was read, the memory of lookahead sets has gone through nothing but its steps; and in every memory that they lead
to, the set of a state is what can come next there, or has more than that if the state is the back state of a loop. -/
theorem lookahead_grows_only_at_loops (first : Source × String) (later : List (Source × String)) :
    Memory.History parserNetwork (.ofNetwork parserNetwork) (readEach first later).lookahead ∧
      ∀ m, Memory.History parserNetwork (.ofNetwork parserNetwork) m →
        ∀ n set m', next parserNetwork m n = .ok (set, m') →
          ∃ ahead, look parserNetwork n none none = .ok ahead ∧ (∀ t, ahead.contains t = true → set.contains t = true) ∧
            ((parserNetwork.state n).endsLoop = false → set = ahead) := by
  refine ⟨(readEach_remembers first later).2, ?_⟩
  intro m hm n set m' hnext
  have hfaithful := (Memory.faithful_ofNetwork parserNetwork).history parserNetwork_plain hm
  exact (hfaithful.next parserNetwork_plain hnext).found

/-- What counts as expected after a parameter, once recovery has dropped a name there. -/
def afterSurplusName : IntervalSet := ⟨some [⟨-1, 0⟩, ⟨1, 2⟩, ⟨3, 5⟩, ⟨9, 10⟩, ⟨11, 13⟩, ⟨14, 16⟩, ⟨28, 29⟩]⟩

theorem surplusName_enlarges : ((parseNamed "script" []).outcome (ofStream States.network
    (scannedBy (LexerStates.network .skip) (.ofString "func f(a:Int,b:Int c")))).2.lookahead.getD 41 none =
      some afterSurplusName := by
  decide +kernel

set_option maxRecDepth 4000 in
theorem parameterEnd_ahead : look States.network 41 none none = .ok ⟨some [⟨3, 5⟩]⟩ := by
  decide

/-- After a parameter, a comma or a parenthesis can come next. Once recovery has dropped a name there, other tokens count as
well. -/
theorem recovery_enlarges_lookahead : ∃ m ahead,
    next parserNetwork (readEach (.ofString "func f(a:Int,b:Int c", "script") []).lookahead 41 = .ok (afterSurplusName, m) ∧
      look parserNetwork 41 none none = .ok ahead ∧ afterSurplusName.contains tFunc = true ∧ ahead.contains tFunc = false := by
  have hread : readEach (.ofString "func f(a:Int,b:Int c", "script") [] = ((parseNamed "script" []).outcome
      (ofStream States.network (scannedBy (LexerStates.network .skip) (.ofString "func f(a:Int,b:Int c")))).2 := by
    rw [readEach, treeAfter, List.foldl_nil, Option.map_none, Option.getD_none, ofSource_eq]
  refine ⟨(readEach (.ofString "func f(a:Int,b:Int c", "script") []).lookahead, ⟨some [⟨3, 5⟩]⟩, ?_, ?_, by decide, by decide⟩
  · rw [hread, next, surplusName_enlarges]
    rfl
  · rw [parserNetwork_eq]
    exact parameterEnd_ahead

end Grammar

end NimbleLang
