import NimbleLang.Network.Decode

/-!
A table decoded in parts: the states and what goes with them, then the edges, then the decisions. What is read in between is
told by the network that comes out (`draft`), so that the parts of a table can be computed one by one (`decode_of_parts`).
-/

namespace NimbleLang.Network

open Reader

/-- All that stands before the edges. -/
def readHead (kind : Kind) (maxTokenType : Int) : Reader Draft := do
  let d ← readStates { kind, maxTokenType }
  let d ← readRules d
  let d ← counted readMode d
  counted readSet d

/-- What stands after the edges, and what is done at the end. -/
def finish (kind : Kind) (net : Network) (data : List Int) : Except Fault Network := do
  let (net, _) ← (do
    let net ← counted readDecision net
    if kind = .lexer then return { net with commands := some (← counted readCommand #[]) }
    else return net : Reader Network).run data
  let net ← (List.range net.states.size).foldlM markPrecedence net
  net.verify
  return net

/-- The code of a kind of network. -/
def Kind.code : Kind → Int
  | .lexer => 0
  | .parser => 1

theorem decode_of_parts {kind : Kind} {maxTokenType : Int} {data edges rest : List Int} {d e : Draft} {net : Network}
    (htop : data.take 3 = [4, kind.code, maxTokenType])
    (hhead : (readHead kind maxTokenType).run (data.drop 3) = .ok (d, edges))
    (hedges : (readEdges d).run edges = .ok (e, rest)) (hfinish : finish kind (ofDraft e) rest = .ok net) :
    decode data = .ok net := by
  have hread : read.run data = StateT.run (do
      let d ← readHead kind maxTokenType
      let e ← readEdges d
      let net ← counted readDecision (ofDraft e)
      if kind = .lexer then return { net with commands := some (← counted readCommand #[]) }
      else return net : Reader Network) (data.drop 3) := by
    rw [← List.take_append_drop 3 data, htop]
    simp only [readHead, bind_assoc]
    cases kind <;> rfl
  have hok : ∀ (p : Draft × List Int) (f : Draft × List Int → Except Fault (Network × List Int)), (.ok p >>= f) = f p :=
    fun _ _ => rfl
  rw [decode, hread, StateT.run_bind, hhead, hok, StateT.run_bind, hedges, hok]
  exact hfinish

/-! ## Before the decisions, and before the edges -/

/-- A state while no decision has a number. -/
def tied (s : State) : State := { s with decision := s.decision.map fun _ => -1, precedenceDecision := false }

/-- A state while there are no edges. Of the loops only the ends know where these come back to. -/
def bare (s : State) : State :=
  { tied s with edges := [], blockStart := none, loopBack := if s.kind = .loopEnd then s.loopBack else none }

/-- The set written on an edge. -/
def symbols? : Edge → Option IntervalSet
  | .set _ l | .notSet _ l => some l
  | _ => none

/-- The draft that a network was, `f` telling what its states were then. -/
def draft (net : Network) (f : State → State) : Draft where
  kind := net.kind
  maxTokenType := net.maxTokenType
  states := (net.states.toList.map fun s => some (f s)).toArray
  loopBacks := net.states.toList.zipIdx.filterMap fun (s, n) => (bare s).loopBack.map fun k => (n, (k : Int))
  blockEnds := net.states.toList.zipIdx.filterMap fun (s, n) => s.blockEnd.map fun k => (n, (k : Int))
  ruleStarts := net.ruleStarts
  ruleStops := net.ruleStops
  ruleTokens := net.ruleTokens.getD #[]
  modes := net.modes
  sets := (net.states.toList.flatMap fun s => s.edges.filterMap symbols?).toArray

theorem ofDraft_draft (net : Network) (f : State → State) :
    ofDraft (net.draft f) =
      { net with
        states := (net.states.toList.map f).toArray, decisions := #[], commands := none
        ruleTokens := if net.kind = .lexer then some (net.ruleTokens.getD #[]) else none } := by
  simp [ofDraft, draft, Function.comp_def]

/-! ## Comparing states one after the other -/

deriving instance DecidableEq for Draft

/-- A draft and what is left to read, with the states as a list. -/
def Draft.listed (p : Draft × List Int) := (p.1.states.toList, { p.1 with states := #[] }, p.2)

theorem Draft.listed_injective : Function.Injective Draft.listed := by
  rintro ⟨⟨⟩, _⟩ ⟨⟨⟩, _⟩ h
  simp_all [Draft.listed, Array.toList_inj]

def listed (net : Network) := (net.states.toList, { net with states := #[] })

theorem listed_injective : Function.Injective listed := by
  rintro ⟨⟩ ⟨⟩ h
  simp_all [listed, Array.toList_inj]

theorem eq_ok_of_map {α β : Type} {f : α → β} (hf : Function.Injective f) {x : Except Fault α} {a : α}
    (h : x.toOption.map f = some (f a)) : x = .ok a := by
  cases x with
  | error e => simp [Except.toOption] at h
  | ok b =>
    have : f b = f a := by simpa [Except.toOption] using h
    rw [hf this]

end NimbleLang.Network
