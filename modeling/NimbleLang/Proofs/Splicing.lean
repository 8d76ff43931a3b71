import Mathlib.Data.List.Pairwise
import NimbleLang.Proofs.Reduction
import NimbleLang.Proofs.Stretches

/-!
Edits that are apart are spliced into the text (`splice_of_apart`): at each token what was put in front of it is written, and then
its own text or what was put in its place (`piece`). The order of the edits does not count. The text is written by a walk over the
tokens that looks up an edit at each position and moves past the range of a replacement; from every position on, it writes the
pieces that are ahead and comes to all edits that are left (`Ahead.writes`).
-/

namespace NimbleLang

open TokenStream

namespace Edit

/-- The range of the edit begins before the position and reaches it. -/
def Covers (i : Int) (e : Edit) : Prop := e.index < i ∧ i ≤ e.stop

instance (i : Int) (e : Edit) : Decidable (e.Covers i) := inferInstanceAs (Decidable (_ ∧ _))

/-- An edit about positions before `n`. -/
structure Fits (n : Nat) (e : Edit) : Prop where
  start : 0 ≤ e.index
  range : e.index ≤ e.stop
  stop : e.stop < n

end Edit

namespace Program

variable {left : List Edit} {d e : Edit} {t : Token} {i j n : Nat} {tokens : Array Token}

/-! ## The spliced text -/

/-- A token's own text, which is empty for the end. -/
def own? (t : Token) : Option String := if t.isEof then some "" else t.text?

theorem ownText_eq (t : Token) : ownText t = Fault.mistyped.unless (own? t) := by
  rw [ownText, own?]
  split <;> rfl

/-- What is written for the token at a position: what was put in front of it and its own text, or what was put in its place.
Nothing is written where a range goes on. -/
def piece (es : List Edit) (t : Token) (i : Nat) : Option String :=
  match es.find? (·.index == (i : Int)) with
  | some e => if e.isInsert then e.text.bind fun a => (own? t).map (a ++ ·) else some (e.text.getD "")
  | none => if ∃ e ∈ es, e.Covers i then some "" else own? t

def pieces (es : List Edit) (ts : List Token) : List (Option String) := ts.mapIdx fun i t => piece es t i

/-- Texts one after the other; each must be there. -/
def assembled (os : List (Option String)) : Except Fault String :=
  if os.all (·.isSome) then .ok (String.join (os.map (·.getD ""))) else .error .mistyped

/-- The text of the tokens with edits in it. -/
def spliced (es : List Edit) (ts : List Token) : Except Fault String := assembled (pieces es ts)

theorem assembled_cons (o : Option String) (os : List (Option String)) :
    assembled (o :: os) = do return (← Fault.mistyped.unless o) ++ (← assembled os) := by
  rw [assembled, assembled, List.all_cons, List.map_cons, String.join_cons]
  cases o with
  | none => rfl
  | some a =>
    rw [Option.isSome_some, Bool.true_and]
    split <;> rfl

theorem assembled_blank {os : List (Option String)} (h : ∀ k, i ≤ k → k < i + n → os[k]? = some (some "")) :
    assembled (os.drop i) = assembled (os.drop (i + n)) := by
  induction n generalizing i with
  | zero => rfl
  | succ n ih =>
    obtain ⟨hlt, hblank⟩ := List.getElem?_eq_some_iff.mp (h i (Nat.le_refl i) (by omega))
    have hrest : assembled (os.drop (i + 1)) = assembled (os.drop (i + 1 + n)) := ih fun k hk hk' => h k (by omega) (by omega)
    rw [List.drop_eq_getElem_cons hlt, hblank, assembled_cons, hrest, Nat.add_right_comm]
    cases assembled (os.drop (i + n + 1)) with
    | error f => rfl
    | ok a => exact congrArg Except.ok String.empty_append

theorem getElem?_pieces (es : List Edit) (ts : List Token) (i : Nat) : (pieces es ts)[i]? = ts[i]?.map (piece es · i) :=
  List.getElem?_mapIdx

theorem drop_pieces {es : List Edit} {ts : List Token} (ht : ts[i]? = some t) :
    (pieces es ts).drop i = piece es t i :: (pieces es ts).drop (i + 1) := by
  have hpiece : (pieces es ts)[i]? = some (piece es t i) := by rw [getElem?_pieces, ht, Option.map_some]
  obtain ⟨hlt, hget⟩ := List.getElem?_eq_some_iff.mp hpiece
  rw [List.drop_eq_getElem_cons hlt, hget]

/-! ## Writing -/

/-- Edits that a walk from position `i` on comes to one by one, before position `n`. -/
structure Ahead (i n : Nat) (es : List Edit) : Prop where
  starts : ∀ e ∈ es, (i : Int) ≤ e.index
  ranges : ∀ e ∈ es, e.index ≤ e.stop
  ends : ∀ e ∈ es, e.stop < n
  apart : ∀ d ∈ es, ∀ e ∈ es, d = e ∨ d.Apart e

theorem Ahead.mono (h : Ahead i n left) {l : List Edit} (hl : ∀ e ∈ l, e ∈ left ∧ (j : Int) ≤ e.index) : Ahead j n l where
  starts e he := (hl e he).2
  ranges e he := h.ranges e (hl e he).1
  ends e he := h.ends e (hl e he).1
  apart d hd e he := h.apart d (hl d hd).1 e (hl e he).1

theorem Ahead.not_covered (h : Ahead i n left) : ¬ ∃ e ∈ left, e.Covers i := by
  rintro ⟨e, he, hlt, -⟩
  have := h.starts e he
  omega

section

variable (h : Ahead i n left) (he : e ∈ left) (hi : e.index = i)
include h he hi

/-- Every other edit begins behind the one at the position of the walk. -/
theorem Ahead.behind (hd : d ∈ left) : d = e ∨ e.stop < d.index := by
  have := h.starts d hd
  have := h.ranges d hd
  refine (h.apart d hd e he).imp_right fun hapart => ?_
  rw [Edit.Apart] at hapart
  omega

theorem Ahead.mem_rest : d ∈ left.filter (·.index != (i : Int)) ↔ d ∈ left ∧ e.stop < d.index := by
  have hrange := h.ranges e he
  rw [List.mem_filter, bne_iff_ne]
  refine and_congr_right fun hd => ?_
  rcases h.behind he hi hd with rfl | hbehind
  · omega
  · omega

theorem Ahead.rest (hj : (j : Int) ≤ e.stop + 1) : Ahead j n (left.filter (·.index != (i : Int))) := by
  refine h.mono fun d hd => ?_
  obtain ⟨hd, hbehind⟩ := (h.mem_rest he hi).mp hd
  exact ⟨hd, by omega⟩

/-- Behind its range, an edit makes no difference. -/
theorem Ahead.drop_rest (hj : e.stop < j) (ts : List Token) :
    (pieces left ts).drop j = (pieces (left.filter (·.index != (i : Int))) ts).drop j := by
  have hrange := h.ranges e he
  refine List.ext_getElem? fun k => ?_
  rw [List.getElem?_drop, List.getElem?_drop, getElem?_pieces, getElem?_pieces]
  congr 1
  funext t
  have hfind : (left.filter (·.index != (i : Int))).find? (·.index == ((j + k : Nat) : Int)) =
      left.find? (·.index == ((j + k : Nat) : Int)) := by
    rw [List.find?_filter]
    congr 1
    funext d
    rw [Bool.eq_iff_iff, decide_eq_true_iff, beq_iff_eq, bne_iff_ne]
    omega
  have hcovered : (∃ d ∈ left, d.Covers ((j + k : Nat) : Int)) ↔
      ∃ d ∈ left.filter (·.index != (i : Int)), d.Covers ((j + k : Nat) : Int) := by
    refine exists_congr fun d => ?_
    rw [h.mem_rest he hi, and_assoc]
    refine and_congr_right fun hd => ⟨fun hcovers => ⟨?_, hcovers⟩, And.right⟩
    refine (h.behind he hi hd).resolve_left fun heq => ?_
    have := heq ▸ hcovers.2
    omega
  rw [piece, piece, hfind]
  simp only [hcovered]

/-- Within its range, nothing else is written. -/
theorem Ahead.piece_within (hij : i < j) (hj : (j : Int) ≤ e.stop) (t : Token) : piece left t j = some "" := by
  have hfind : left.find? (·.index == (j : Int)) = none := by
    refine List.find?_eq_none.mpr fun d hd hindex => ?_
    rw [beq_iff_eq] at hindex
    rcases h.behind he hi hd with rfl | hbehind
    · omega
    · omega
  rw [piece, hfind]
  exact if_pos ⟨e, he, by omega, hj⟩

theorem Ahead.assembled_rest (hn : n = tokens.size) :
    assembled ((pieces left tokens.toList).drop (i + 1)) =
      assembled ((pieces (left.filter (·.index != (i : Int))) tokens.toList).drop (e.stop + 1).toNat) := by
  have hrange := h.ranges e he
  have hend := h.ends e he
  have hblank : ∀ k, i + 1 ≤ k → k < i + 1 + (e.stop - i).toNat → (pieces left tokens.toList)[k]? = some (some "") := by
    intro k hk hk'
    have hlt : k < tokens.toList.length := by simpa using by omega
    rw [getElem?_pieces, List.getElem?_eq_getElem hlt, Option.map_some, h.piece_within he hi (by omega) (by omega)]
  rw [assembled_blank hblank, ← h.drop_rest he hi (by omega), show i + 1 + (e.stop - i).toNat = (e.stop + 1).toNat by omega]

end

theorem Ahead.eq_nil (h : Ahead i n left) (hi : n ≤ i) : left = [] := by
  refine List.eq_nil_iff_forall_not_mem.mpr fun e he => ?_
  have := h.starts e he
  have := h.ranges e he
  have := h.ends e he
  omega

/-- The rest of a walk from `i` on, with the edits that are left, writes the pieces from there on and comes to all of these edits. -/
def Writes (tokens : Array Token) (fuel i : Nat) (left : List Edit) : Prop :=
  write tokens ((tokens.size : Int) - 1) fuel i left = (assembled ((pieces left tokens.toList).drop i)).map (·, [])

theorem Ahead.writes_end (h : Ahead i tokens.size left) (hi : tokens.size ≤ i) (fuel : Nat) : Writes tokens fuel i left := by
  rw [Writes, h.eq_nil hi, List.drop_eq_nil_of_le (by simpa [pieces] using hi)]
  cases fuel with
  | zero => rfl
  | succ fuel =>
    rw [write, if_pos (by omega)]
    rfl

theorem Ahead.writes_own (h : Ahead i tokens.size left) (hi : i < tokens.size) (hfind : left.find? (·.index == (i : Int)) = none)
    {fuel : Nat} (ih : ∀ j left, i < j → Ahead j tokens.size left → Writes tokens fuel j left) : Writes tokens (fuel + 1) i left := by
  have ht : tokens[i]? = some tokens[i] := Array.getElem?_eq_getElem hi
  have hlater : ∀ d ∈ left, d ∈ left ∧ ((i + 1 : Nat) : Int) ≤ d.index := by
    intro d hd
    have hne := List.find?_eq_none.mp hfind d hd
    have hstart := h.starts d hd
    rw [beq_iff_eq] at hne
    exact ⟨hd, by omega⟩
  have hrest := ih (i + 1) left (Nat.lt_succ_self i) (h.mono hlater)
  rw [Writes, Int.natCast_succ] at hrest
  rw [Writes, write, if_neg (by omega), Int.toNat_natCast, ht, drop_pieces (Array.getElem?_toList.trans ht), assembled_cons, piece,
    hfind, if_neg h.not_covered]
  dsimp only
  rw [ownText_eq, hrest]
  cases own? tokens[i] with
  | none => rfl
  | some a => cases assembled ((pieces left tokens.toList).drop (i + 1)) <;> rfl

theorem Ahead.writes_edit (h : Ahead i tokens.size left) (hi : i < tokens.size) (hfind : left.find? (·.index == (i : Int)) = some e)
    {fuel : Nat} (ih : ∀ j left, i < j → Ahead j tokens.size left → Writes tokens fuel j left) : Writes tokens (fuel + 1) i left := by
  have ht : tokens[i]? = some tokens[i] := Array.getElem?_eq_getElem hi
  have he := List.mem_of_find?_eq_some hfind
  have hindex : e.index = i := by simpa using List.find?_some hfind
  have hrange := h.ranges e he
  have hrest := ih (e.stop + 1).toNat _ (by omega) (h.rest he hindex (by omega))
  rw [Writes, ← h.assembled_rest he hindex rfl, Int.toNat_of_nonneg (by omega)] at hrest
  rw [Writes, write, if_neg (by omega), Int.toNat_natCast, ht, drop_pieces (Array.getElem?_toList.trans ht), assembled_cons, piece,
    hfind]
  dsimp only
  cases hkind : e.kind with
  | replace last =>
    have hlast : e.last? = some last := by rw [Edit.last?, hkind]
    rw [Edit.stop_of_last hlast] at hrest
    rw [Edit.isInsert, hlast]
    dsimp only
    rw [hrest]
    cases assembled ((pieces left tokens.toList).drop (i + 1)) <;> rfl
  | before | after =>
    have hlast : e.last? = none := by rw [Edit.last?, hkind]
    rw [Edit.stop_of_insert hlast, hindex] at hrest
    rw [Edit.isInsert, hlast, ownText_eq]
    dsimp only
    rw [hrest]
    cases e.text with
    | none => rfl
    | some a =>
      cases own? tokens[i] with
      | none => rfl
      | some b => cases assembled ((pieces left tokens.toList).drop (i + 1)) <;> rfl

theorem Ahead.writes (h : Ahead i tokens.size left) (fuel : Nat) (hfuel : tokens.size < i + fuel) : Writes tokens fuel i left := by
  induction fuel generalizing i left with
  | zero => exact h.writes_end (by omega) 0
  | succ fuel ih =>
    by_cases hi : i < tokens.size
    · have hrest : ∀ j left, i < j → Ahead j tokens.size left → Writes tokens fuel j left := fun j left hj h => ih h (by omega)
      cases hfind : left.find? (·.index == (i : Int)) with
      | none => exact h.writes_own hi hfind hrest
      | some e => exact h.writes_edit hi hfind hrest
    · exact h.writes_end (by omega) _

/-- Edits that are apart make the spliced text. -/
theorem Ahead.wording {es : List Edit} (h : Ahead 0 tokens.size es) :
    wording tokens 0 ((tokens.size : Int) - 1) es = spliced es tokens.toList := by
  have hwrite := h.writes (tokens.size + 1) (by omega)
  rw [Writes, List.drop_zero, Int.natCast_zero, ← spliced] at hwrite
  rw [Program.wording, hwrite]
  cases spliced es tokens.toList with
  | error f => rfl
  | ok text =>
    show (if (tokens.size : Int) - 1 = (tokens.size : Int) - 1 then _ else _) = _
    rw [if_pos rfl]
    exact congrArg Except.ok String.append_empty

/-- Without edits, the spliced text is that of the tokens. -/
theorem spliced_nil {ts : List Token} {e : Token} (hinner : ∀ t ∈ ts, t.isEof = false) (he : e.isEof = true) :
    spliced [] (ts ++ [e]) = texts ts := by
  have hpieces : pieces [] (ts ++ [e]) = ts.map (·.text?) ++ [some ""] := by
    have hown : ts.map own? = ts.map (·.text?) := List.map_congr_left fun t ht => by rw [own?, hinner t ht]; rfl
    have hend : own? e = some "" := by rw [own?, he]; rfl
    rw [← hown, ← hend, ← List.map_singleton, ← List.map_append]
    refine List.ext_getElem? fun i => ?_
    rw [getElem?_pieces, List.getElem?_map]
    rfl
  rw [spliced, hpieces, assembled, texts]
  simp [Function.comp_def, String.join_append]

end Program

namespace Edits

open Program

variable {σ : Type} {s : Edits σ} {name : String} {e : Edit}

/-! ## Programs of edits that are apart -/

/-- The edits with another program under a name. -/
def withProgram (s : Edits σ) (name : String) (p : Program) : Edits σ :=
  { s with programs := (name, p) :: s.programs.filter (·.1 ≠ name) }

@[simp] theorem program_withProgram (s : Edits σ) (name : String) (p : Program) : (s.withProgram name p).program name = p := by
  simp [program, withProgram]

/-- Gives the instruction for an edit of the standard program; to delete is to replace by an empty text. -/
def issue (e : Edit) : Act σ Unit :=
  match e.kind with
  | .before => insertBefore standard e.index e.text
  | .after => insertAfter standard (e.index - 1) e.text
  | .replace last => replace standard e.index last e.text

theorem issue_fits (h : e.Fits s.stream.tokens.size) :
    (issue e).outcome s = (.ok (), s.withProgram standard (s.program standard ++ [some e])) := by
  have hstart := h.start
  have hrange := h.range
  have hstop := h.stop
  obtain ⟨kind, index, text⟩ := e
  cases kind with
  | before => rfl
  | after =>
    rw [issue]
    dsimp only
    rw [insertAfter, Int.sub_add_cancel]
    rfl
  | replace last =>
    rw [issue]
    dsimp only
    rw [replace, Run.outcome_bind_ok (Run.outcome_get s), if_neg]
    · rfl
    · simp only [Bool.or_eq_true, decide_eq_true_eq]
      rw [Edit.stop_of_last rfl] at hrange hstop
      dsimp only at *
      omega

def issueAll : List Edit → Act σ Unit
  | [] => return ()
  | e :: es => do
    issue e
    issueAll es

/-- The instructions for edits make up the program. -/
theorem issue_all {es : List Edit} (h : ∀ e ∈ es, e.Fits s.stream.tokens.size) :
    ∃ s', (issueAll es).outcome s = (.ok (), s') ∧ s'.stream = s.stream ∧
      s'.program standard = s.program standard ++ es.map some := by
  induction es generalizing s with
  | nil => exact ⟨s, rfl, rfl, by simp⟩
  | cons e es ih =>
    obtain ⟨he, hes⟩ := List.forall_mem_cons.mp h
    obtain ⟨s', hrun, hstream, hprogram⟩ := ih (s := s.withProgram standard (s.program standard ++ [some e])) hes
    refine ⟨s', ?_, hstream, ?_⟩
    · rw [issueAll, Run.outcome_bind_ok (issue_fits he), hrun]
    · rw [hprogram, program_withProgram, List.map_cons, List.append_assoc, List.singleton_append]

variable [TokenSource σ]

theorem outcome_reduced {r : Except Clash (List Edit)} {q : Program} {start stop : Int} (h : s.program name ≠ [])
    (hreduce : Program.reduce.outcome (s.program name) = (.ok r, q)) :
    (text name start stop).outcome s =
      (word (max start 0) (min stop ((s.stream.tokens.size : Int) - 1)) r).outcome (s.withProgram name q) := by
  have hstored : (reduce name).outcome s = (.ok r, s.withProgram name q) := by
    rw [reduce, Run.outcome_onPart, hreduce]
    rfl
  rw [text, Run.outcome_bind_ok (Run.outcome_get s), if_neg (by simpa using h), Run.outcome_bind_ok hstored]

/-- A program that cannot be reduced has no text. -/
theorem outcome_unreduced {f : Fault} {q : Program} {start stop : Int} (h : s.program name ≠ [])
    (hreduce : Program.reduce.outcome (s.program name) = (.error f, q)) :
    (text name start stop).outcome s = (.error f, s.withProgram name q) := by
  have hstored : (reduce name).outcome s = (.error f, s.withProgram name q) := by
    rw [reduce, Run.outcome_onPart, hreduce]
    rfl
  rw [text, Run.outcome_bind_ok (Run.outcome_get s), if_neg (by simpa using h), Run.outcome_bind_error hstored]

/-- A stream that has begun, or has no token to read, is left as it is. -/
theorem outcome_word {start stop : Int} (h : start ≤ stop → s.stream.index ≠ -1) (es : List Edit) :
    (word start stop (.ok es)).outcome s = (wording s.stream.tokens start stop es, s) := by
  rw [word]
  by_cases hread : start ≤ stop
  · have hlazy : (onStream TokenStream.lazyInit).outcome s = (.ok (), s) := by
      rw [onStream, Run.outcome_onPart, TokenStream.lazyInit, Run.outcome_get_bind, if_neg (h hread)]
      rfl
    rw [if_pos hread, Run.outcome_bind_ok hlazy, Run.outcome_get_bind, Run.outcome_lift]
  · rw [if_neg hread, Run.outcome_get_bind, Run.outcome_lift]

/-- The text of a program without edits is that of the stream. -/
theorem outcome_text_nil (h : s.program name = []) (start stop : Int) :
    (text name start stop).outcome s =
      (((TokenStream.text (some (max start 0)) (some (min stop ((s.stream.tokens.size : Int) - 1)))).outcome s.stream).1,
        { s with stream :=
            ((TokenStream.text (some (max start 0)) (some (min stop ((s.stream.tokens.size : Int) - 1)))).outcome s.stream).2 }) := by
  rw [text, Run.outcome_bind_ok (Run.outcome_get s), if_pos (by simpa using h)]
  rfl

/-- The whole text of a program that is reduced to edits that are apart. -/
theorem outcome_wholeText {ts : List Token} {last : Token} (hfilled : Filled ts last s.stream) {es : List Edit} {q : Program}
    (hreduce : Program.reduce.outcome (s.program standard) = (.ok (.ok es), q))
    (hahead : Ahead 0 s.stream.tokens.size es) : (wholeText.outcome s).1 = spliced es s.stream.tokens.toList := by
  have hsize := hfilled.size
  rw [wholeText, Run.outcome_bind_ok (Run.outcome_get s)]
  by_cases hprogram : s.program standard = []
  · obtain rfl : es = [] := by
      rw [hprogram] at hreduce
      exact (Except.ok.inj (Except.ok.inj (congrArg Prod.fst hreduce))).symm
    have hlast : (s.stream.tokens.size : Int) - 1 = (ts.length : Nat) := by omega
    have htext := hfilled.text (Nat.zero_le ts.length) (by omega)
    rw [outcome_text_nil hprogram, Int.max_self, Int.min_self, hlast, ← Int.natCast_zero, htext, hfilled.stretch_eq, List.drop_zero,
      List.take_of_length_le (by simp [numbered]), hfilled.tokens, numbered_concat]
    refine (spliced_nil (e := last.placed ts.length) (fun t ht => ?_) hfilled.buffered.last).symm
    obtain ⟨u, hu, i, rfl⟩ := mem_numbered ht
    exact hfilled.buffered.inner u hu
  · rw [outcome_reduced hprogram hreduce, Int.max_self, Int.min_self, outcome_word (s := s.withProgram standard q) fun _ => hfilled.begun]
    exact hahead.wording

/-- Edits that are apart are spliced into the text: each token gives its own text, or what was put in its place, and before it
what was put in front of it. -/
theorem splice_of_apart {ts : List Token} {last : Token} {stream : TokenStream σ} (hfilled : Filled ts last stream) (es : List Edit)
    (hfits : ∀ e ∈ es, e.Fits stream.tokens.size) (hapart : es.Pairwise Edit.Apart) :
    ((do issueAll es; wholeText : Act σ String).outcome { stream }).1 = spliced es stream.tokens.toList := by
  obtain ⟨s, hissue, rfl, hprogram⟩ := issue_all (s := { stream }) hfits
  replace hprogram : s.program standard = es.map some := hprogram
  have hedits : (es.map some).reduceOption = es := by simp [List.reduceOption]
  have hindependent : Independent (es.map some) := ⟨fun e he => (hfits e (hedits ▸ he)).range, hedits.symm ▸ hapart⟩
  have hreduce := hindependent.reduce
  rw [hedits, ← hprogram] at hreduce
  rw [Run.outcome_bind_ok hissue]
  refine outcome_wholeText hfilled hreduce
    ⟨fun e he => (hfits e he).start, fun e he => (hfits e he).range, fun e he => (hfits e he).stop, fun d hd e he => ?_⟩
  exact or_iff_not_imp_left.mpr (hapart.forall hd he)

/-- The blank and the sign are replaced, and text is put in front of the end and of the name. -/
def assignment : List Edit := [⟨.before, 3, some "1"⟩, ⟨.replace 2, 1, some " := "⟩, ⟨.before, 0, some "let "⟩]

theorem splice_of_apart_spaced : ∃ s, TokenStream.fill.outcome { source := spacedFrom 0, channel := none } = (.ok (), s) ∧
    Filled (spacedFrom 0).tokens.toList (spacedFrom 3).makeEnding s ∧ (∀ e ∈ assignment, e.Fits s.tokens.size) ∧
    assignment.Pairwise Edit.Apart ∧
    ((do issueAll assignment; wholeText : Act Listed String).outcome { stream := s }).1 = .ok "let x := 1" := by
  obtain ⟨s, hfill, hfilled⟩ := exists_filled
  have hfits : ∀ e ∈ assignment, e.Fits s.tokens.size := by
    rw [hfilled.size, assignment]
    simp only [List.forall_mem_cons]
    exact ⟨⟨by decide, by decide, by decide⟩, ⟨by decide, by decide, by decide⟩, ⟨by decide, by decide, by decide⟩, by simp⟩
  have hapart : assignment.Pairwise Edit.Apart := by decide
  refine ⟨s, hfill, hfilled, hfits, hapart, ?_⟩
  rw [splice_of_apart hfilled assignment hfits hapart, hfilled.tokens]
  decide

end Edits

end NimbleLang
