/-!
Association lists that remember the order in which keys were first put in. Putting a value under a key that is
there replaces the value and leaves the key in its place.
-/

namespace NimbleLang.Assoc

variable {κ ν : Type} [DecidableEq κ]

/-- The value of a key. -/
def get? (k : κ) : List (κ × ν) → Option ν
  | [] => none
  | (k', v) :: rest => if k' = k then some v else get? k rest

/-- Puts a value under a key. -/
def put (k : κ) (v : ν) : List (κ × ν) → List (κ × ν)
  | [] => [(k, v)]
  | (k', v') :: rest => if k' = k then (k', v) :: rest else (k', v') :: put k v rest

@[simp] theorem get?_put_self (k : κ) (v : ν) (m : List (κ × ν)) : get? k (put k v m) = some v := by
  induction m with
  | nil => simp [put, get?]
  | cons p rest ih =>
    obtain ⟨k', v'⟩ := p
    by_cases h : k' = k <;> simp [put, get?, h, ih]

theorem get?_put_of_ne {k k' : κ} (h : k' ≠ k) (v : ν) (m : List (κ × ν)) : get? k' (put k v m) = get? k' m := by
  induction m with
  | nil => simp [put, get?, Ne.symm h]
  | cons p rest ih =>
    obtain ⟨k'', v''⟩ := p
    by_cases h' : k'' = k
    · subst h'
      simp [put, get?, Ne.symm h]
    · simp only [put, h', if_false, get?, ih]

/-- A key that is there keeps its place, and a new one comes last. -/
theorem keys_put (k : κ) (v : ν) (m : List (κ × ν)) :
    (put k v m).map Prod.fst = if k ∈ m.map Prod.fst then m.map Prod.fst else m.map Prod.fst ++ [k] := by
  induction m with
  | nil => simp [put]
  | cons p m ih =>
    by_cases h : p.1 = k
    · simp [put, h]
    · simp only [put, h, if_false, List.map_cons, ih, List.mem_cons, Ne.symm h, false_or]
      split <;> rfl

end NimbleLang.Assoc
