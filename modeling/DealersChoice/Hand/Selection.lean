import DealersChoice.Descending

/-!
# Selections

The ways to choose `k` elements of a list, in lexicographic order of their positions.

The positions themselves are listed one selection after the other, starting with the lowest. Each
position leaves room below the bound for those after it (`Fits`), and so each step of the listing
uses up room (`Fits.next`): counted down from the bound and read as digits, the positions are a
number that gets smaller.
-/

namespace DealersChoice

/-- All selections of `k` positions of a list, each in the order of the list. Selections with the
first element come before those without it. -/
def choose {α : Type} : Nat → List α → List (List α)
  | 0, _ => [[]]
  | _ + 1, [] => []
  | k + 1, a :: rest =>
    -- too few are left: no branch below can succeed
    if rest.length < k then []
    else (choose k rest).map (a :: ·) ++ choose (k + 1) rest

/-! ### The next positions -/

/-- The positions below `n` that are selected next: the last position that is not yet as far up as
it can be moves up by one, and those after it close up behind it. Nothing comes after the last
selection. -/
def nextPositions? (n : Nat) (positions : List Nat) : Option (List Nat) :=
  let k := positions.length
  let movable? := (List.range k).reverse.find? fun i ↦ positions.getD i 0 != i + n - k
  movable?.map fun i ↦ positions.take i ++ List.range' (positions.getD i 0 + 1) (k - i)

/-- The first position moves only when none of the others can. -/
theorem nextPositions?_cons (n a : Nat) (rest : List Nat) : nextPositions? n (a :: rest) =
    ((nextPositions? n rest).map (a :: ·)).or
      (if a = n - (rest.length + 1) then none
        else some (List.range' (a + 1) (rest.length + 1))) := by
  have hlimit : ∀ i, i + 1 + n - (rest.length + 1) = i + n - rest.length := fun i ↦ by omega
  have hfirst : [0].find? (fun i ↦ (a :: rest).getD i 0 != i + n - (rest.length + 1)) =
      if a = n - (rest.length + 1) then none else some 0 := by
    by_cases ha : a = n - (rest.length + 1) <;> simp [ha]
  simp only [nextPositions?, List.length_cons]
  rw [List.range_succ_eq_map, List.reverse_cons, ← List.map_reverse, List.find?_append,
    List.find?_map, hfirst]
  simp only [Function.comp_def, List.getD_cons_succ, Nat.succ_eq_add_one, hlimit]
  cases (List.range rest.length).reverse.find? fun i ↦ rest.getD i 0 != i + n - rest.length with
  | some i => simp
  | none => split <;> simp

/-- Each position leaves room below `n` for those after it. -/
def Fits (n : Nat) : List Nat → Prop
  | [] => True
  | a :: rest => a + rest.length < n ∧ Fits n rest

/-- The positions counted down from `n` and read as digits. -/
def room (n : Nat) : List Nat → Nat
  | [] => 0
  | a :: rest => (n - a) * (n + 1).pow rest.length + room n rest

theorem room_lt (n : Nat) (positions : List Nat) : room n positions < (n + 1).pow positions.length := by
  induction positions with
  | nil => exact Nat.one_pos
  | cons a rest ih =>
    calc room n (a :: rest)
        < (n - a) * (n + 1).pow rest.length + (n + 1).pow rest.length := Nat.add_lt_add_left ih _
      _ = (n - a + 1) * (n + 1).pow rest.length := (Nat.succ_mul ..).symm
      _ ≤ (n + 1) * (n + 1).pow rest.length := Nat.mul_le_mul_right _ (by omega)
      _ = (n + 1).pow rest.length * (n + 1) := Nat.mul_comm ..

/-- The first position decides about the room. -/
theorem room_cons_lt {n a b : Nat} {rest rest' : List Nat} (h : a < b) (hb : b ≤ n)
    (hlength : rest'.length = rest.length) : room n (b :: rest') < room n (a :: rest) := by
  have hbelow := room_lt n rest'
  rw [hlength] at hbelow
  rw [room, room, hlength]
  calc (n - b) * (n + 1).pow rest.length + room n rest'
      < (n - b) * (n + 1).pow rest.length + (n + 1).pow rest.length := Nat.add_lt_add_left hbelow _
    _ = (n - b + 1) * (n + 1).pow rest.length := (Nat.succ_mul ..).symm
    _ ≤ (n - a) * (n + 1).pow rest.length := Nat.mul_le_mul_right _ (by omega)
    _ ≤ (n - a) * (n + 1).pow rest.length + room n rest := Nat.le_add_right ..

theorem fits_range' {n s k : Nat} (h : s + k ≤ n) : Fits n (List.range' s k) := by
  induction k generalizing s with
  | zero => trivial
  | succ k ih =>
    rw [List.range'_succ, Fits, List.length_range']
    exact ⟨by omega, ih (by omega)⟩

theorem fits_range {n k : Nat} (h : k ≤ n) : Fits n (List.range k) := by
  rw [List.range_eq_range']
  exact fits_range' (by rwa [Nat.zero_add])

/-- **The next positions fit as well, and use up room.** -/
theorem Fits.next {n : Nat} {positions next : List Nat} (h : Fits n positions)
    (hnext : nextPositions? n positions = some next) :
    next.length = positions.length ∧ Fits n next ∧ room n next < room n positions := by
  induction positions generalizing next with
  | nil => cases hnext
  | cons a rest ih =>
    rw [nextPositions?_cons] at hnext
    cases hrest : nextPositions? n rest with
    | some moved =>
      obtain ⟨hlength, hfits, hless⟩ := ih h.2 hrest
      rw [hrest] at hnext
      obtain rfl : a :: moved = next := Option.some.inj hnext
      rw [List.length_cons, List.length_cons, Fits, room, room, hlength]
      exact ⟨rfl, ⟨h.1, hfits⟩, Nat.add_lt_add_left hless _⟩
    | none =>
      rw [hrest, Option.map_none, Option.none_or] at hnext
      split at hnext
      · cases hnext
      rename_i hmoves
      obtain rfl : List.range' (a + 1) (rest.length + 1) = next := Option.some.inj hnext
      have hroom : a + 1 + rest.length < n := by
        have hfits := h.1
        omega
      refine ⟨List.length_range', fits_range' (by omega), ?_⟩
      exact room_cons_lt (Nat.lt_succ_self a) (by omega) List.length_range'

/-! ### Listing positions -/

/-- Lists some positions and all that are selected after them, behind those listed before. -/
def listFrom (n : Nat) (listed : Array (List Nat)) (positions : List Nat) (h : Fits n positions) :
    Array (List Nat) :=
  match hnext : nextPositions? n positions with
  | some next => listFrom n (listed.push positions) next (h.next hnext).2.1
  | none => listed.push positions
termination_by room n positions
decreasing_by exact (h.next hnext).2.2

section Step

variable {n : Nat} {positions next : List Nat} (h : Fits n positions) (listed : Array (List Nat))

theorem listFrom_of_eq_none (hnone : nextPositions? n positions = none) :
    listFrom n listed positions h = listed.push positions := by
  rw [listFrom]
  split
  · rename_i next hnext
    rw [hnone] at hnext
    contradiction
  · rfl

theorem listFrom_of_eq_some (hnext : nextPositions? n positions = some next) :
    listFrom n listed positions h =
      listFrom n (listed.push positions) next (h.next hnext).2.1 := by
  rw [listFrom]
  split
  · rename_i found hfound
    obtain rfl : next = found := Option.some.inj (hnext.symm.trans hfound)
    rfl
  · rename_i hnone
    rw [hnone] at hnext
    contradiction

end Step

/-- The increasing lists of `k` numbers below `n`. -/
def increasingLists (n k : Nat) : List (List Nat) :=
  if h : k ≤ n then
    (listFrom n #[] (List.range k) (fits_range h)).toList
  else []

end DealersChoice
