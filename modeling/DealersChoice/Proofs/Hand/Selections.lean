import DealersChoice.Hand.Selection
import Mathlib.Data.List.Chain
import Mathlib.Data.List.FinRange
import Mathlib.Data.List.Lex
import Mathlib.Data.List.Perm.Subperm
import Mathlib.Data.List.Sort
import Mathlib.Data.Nat.Choose.Basic

/-!
# Selections are increasing positions

To choose `k` elements of a list is to choose `k` of its positions, in increasing order
(`IsSelection`), and to take what stands there (`pick`). The list of choices is made of exactly
these, each once, the lexicographically smaller positions first (`choose_eq_map_pick`,
`mem_increasingLists`, `pairwise_increasingLists`).

## The listing

Positions are listed by a loop that goes from one selection to the next until there is none; that it
ends is due to the room that each step uses up (`Fits.next`). What it lists rests on two facts. A
list in which each element is followed by its successor, and whose last element has none, is what
the loop lists from its first element on (`IsListing.listFrom_eq`, by induction on what is still to
be listed); and the choices of positions, which recur on the list that they are taken from, are such
a list (`isListing_choose_range'`). The order of the selections plays no part in either.
-/

namespace DealersChoice

variable {α β : Type} {n k : Nat}

/-- So many positions below a bound, in increasing order. -/
structure IsSelection (n k : Nat) (positions : List Nat) : Prop where
  ascend : positions.Pairwise (· < ·)
  inside : ∀ i ∈ positions, i < n
  size : positions.length = k

/-- The elements at some positions of a list. -/
def pick (l : List α) (positions : List Nat) : List α :=
  positions.filterMap (l[·]?)

/-! ### Choices -/

/-- **The selections of `k` elements** are the sublists of that length. -/
theorem mem_choose {l s : List α} : s ∈ choose k l ↔ s.Sublist l ∧ s.length = k := by
  induction l generalizing k s with
  | nil =>
    cases k with
    | zero => simp [choose]
    | succ k =>
      rw [choose]
      refine iff_of_false List.not_mem_nil fun ⟨hsub, hlength⟩ ↦ ?_
      rw [List.sublist_nil.1 hsub] at hlength
      contradiction
  | cons a rest ih =>
    cases k with
    | zero =>
      rw [choose, List.mem_singleton, List.length_eq_zero_iff]
      exact ⟨fun h ↦ ⟨h ▸ List.nil_sublist _, h⟩, And.right⟩
    | succ k =>
      have hcons : s.Sublist (a :: rest) ∧ s.length = k + 1 ↔
          (∃ r, r ∈ choose k rest ∧ a :: r = s) ∨ s ∈ choose (k + 1) rest := by
        rw [List.sublist_cons_iff, ih]
        constructor
        · rintro ⟨hsub | ⟨r, rfl, hsub⟩, hlength⟩
          · exact Or.inr ⟨hsub, hlength⟩
          · exact Or.inl ⟨r, ih.2 ⟨hsub, Nat.succ_inj.1 hlength⟩, rfl⟩
        · rintro (⟨r, hr, rfl⟩ | ⟨hsub, hlength⟩)
          · obtain ⟨hsub, hlength⟩ := ih.1 hr
            exact ⟨Or.inr ⟨r, rfl, hsub⟩, congrArg Nat.succ hlength⟩
          · exact ⟨Or.inl hsub, hlength⟩
      rw [choose, hcons]
      split
      · -- too few are left for a selection of any kind
        rename_i hfew
        refine iff_of_false List.not_mem_nil ?_
        rw [← hcons]
        rintro ⟨hsub, hlength⟩
        have hle := hsub.length_le
        rw [List.length_cons] at hle
        omega
      · rw [List.mem_append, List.mem_map]

/-- There is a selection as long as there are enough elements. -/
theorem choose_ne_nil_iff {l : List α} : choose k l ≠ [] ↔ k ≤ l.length := by
  constructor
  · intro hne
    obtain ⟨s, hs⟩ := List.exists_mem_of_ne_nil _ hne
    obtain ⟨hsub, hlength⟩ := mem_choose.1 hs
    exact hlength ▸ hsub.length_le
  · exact fun hle ↦ List.ne_nil_of_mem
      (mem_choose.2 ⟨List.take_sublist k l, List.length_take_of_le hle⟩)

/-- There are as many selections as subsets. -/
theorem length_choose (k : Nat) (l : List α) : (choose k l).length = l.length.choose k := by
  induction l generalizing k with
  | nil => cases k <;> rfl
  | cons a rest ih =>
    cases k with
    | zero => simp [choose]
    | succ k =>
      rw [choose, List.length_cons, Nat.choose_succ_succ]
      split
      · rename_i hfew
        rw [Nat.choose_eq_zero_of_lt hfew, Nat.choose_eq_zero_of_lt (Nat.lt_succ_of_lt hfew)]
        rfl
      · rw [List.length_append, List.length_map, ih, ih]

/-- What is chosen depends on positions only. -/
theorem choose_map (f : α → β) (k : Nat) (l : List α) :
    choose k (l.map f) = (choose k l).map (List.map f) := by
  induction l generalizing k with
  | nil => cases k <;> rfl
  | cons a rest ih =>
    cases k with
    | zero => rfl
    | succ k =>
      rw [List.map_cons, choose, choose, List.length_map]
      split
      · rfl
      · rw [ih, ih, List.map_append, List.map_map, List.map_map]
        rfl

/-- The selections of increasing numbers come in lexicographic order. -/
theorem pairwise_lt_choose {l : List Nat} (hl : l.Pairwise (· < ·)) (k : Nat) :
    (choose k l).Pairwise (· < ·) := by
  induction l generalizing k with
  | nil =>
    cases k with
    | zero => exact List.pairwise_singleton _ _
    | succ k => exact .nil
  | cons a rest ih =>
    obtain ⟨ha, hrest⟩ := List.pairwise_cons.1 hl
    cases k with
    | zero => exact List.pairwise_singleton _ _
    | succ k =>
      rw [choose]
      split
      · exact .nil
      · refine List.pairwise_append.2 ⟨?_, ih hrest _, fun s hs t ht ↦ ?_⟩
        · refine List.pairwise_map.2 ((ih hrest k).imp fun hlt ↦ ?_)
          exact List.cons_lt_cons_iff.2 (Or.inr ⟨rfl, hlt⟩)
        · -- a selection without `a` starts with a larger number
          obtain ⟨s, -, rfl⟩ := List.mem_map.1 hs
          obtain ⟨hsub, hlength⟩ := mem_choose.1 ht
          obtain ⟨b, t, rfl⟩ := List.exists_cons_of_length_eq_add_one hlength
          exact List.cons_lt_cons_iff.2
            (Or.inl (ha b (hsub.subset (List.mem_cons_self ..))))

/-! ### Listing positions -/

/-- A listing from some selection on: each is followed by the one that is selected next, and nothing
is after the last. -/
structure IsListing (n : Nat) (listed : List (List Nat)) : Prop where
  steps : listed.IsChain fun positions next ↦ nextPositions? n positions = some next
  ends : ∀ positions ∈ listed.getLast?, nextPositions? n positions = none

/-- **What is listed** from the first selection of a listing on is the listing. -/
theorem IsListing.listFrom_eq {positions : List Nat} {after : List (List Nat)}
    (h : IsListing n (positions :: after)) (hfits : Fits n positions) (listed : Array (List Nat)) :
    (listFrom n listed positions hfits).toList = listed.toList ++ positions :: after := by
  induction after generalizing positions listed with
  | nil =>
    rw [listFrom_of_eq_none hfits listed (h.ends positions rfl)]
    simp
  | cons next after ih =>
    obtain ⟨hnext, hsteps⟩ := List.isChain_cons_cons.1 h.steps
    have hafter : IsListing n (next :: after) := ⟨hsteps, fun p hp ↦ h.ends p hp⟩
    rw [listFrom_of_eq_some hfits listed hnext]
    simpa using ih hafter (hfits.next hnext).2.1 (listed.push positions)

theorem IsListing.append {l m : List (List Nat)}
    (hl : l.IsChain fun positions next ↦ nextPositions? n positions = some next) (hm : IsListing n m)
    (hbetween : ∀ positions ∈ l.getLast?, nextPositions? n positions = m.head?) :
    IsListing n (l ++ m) := by
  refine ⟨List.isChain_append.2 ⟨hl, hm.steps, fun positions hp next hnext ↦ ?_⟩, fun positions hp ↦ ?_⟩
  · exact (hbetween positions hp).trans hnext
  · rcases m with - | ⟨next, m⟩
    · rw [List.append_nil] at hp
      exact hbetween positions hp
    · rw [List.getLast?_append_of_ne_nil _ (List.cons_ne_nil next m)] at hp
      exact hm.ends positions hp

/-- The lowest positions are selected first, if there are enough. -/
theorem head?_choose_range' (k s m : Nat) : (choose k (List.range' s m)).head? =
    if k ≤ m then some (List.range' s k) else none := by
  induction k generalizing s m with
  | zero => cases m <;> rfl
  | succ k ih =>
    cases m with
    | zero => rfl
    | succ m =>
      rw [List.range'_succ, choose, List.length_range']
      by_cases hfew : m < k
      · rw [if_pos hfew, if_neg (by omega)]
        rfl
      · rw [if_neg hfew, List.head?_append, List.head?_map, ih, if_pos (by omega), if_pos (by omega)]
        rfl

/-- **The selections of some of the positions from `s` on are a listing.** -/
theorem isListing_choose_range' (k s m : Nat) : IsListing (s + m) (choose k (List.range' s m)) := by
  induction m generalizing k s with
  | zero =>
    cases k with
    | zero => exact ⟨.singleton _, fun positions h ↦ by cases h; rfl⟩
    | succ k => exact ⟨.nil, fun _ h ↦ by cases h⟩
  | succ m ih =>
    cases k with
    | zero => exact ⟨.singleton _, fun positions h ↦ by cases h; rfl⟩
    | succ k =>
      have hn : s + 1 + m = s + (m + 1) := by omega
      have hothers := hn ▸ ih k (s + 1)
      have hwithout := hn ▸ ih (k + 1) (s + 1)
      rw [List.range'_succ, choose, List.length_range']
      split
      · exact ⟨.nil, fun _ h ↦ by cases h⟩
      refine IsListing.append ?_ hwithout fun positions hpositions ↦ ?_
      · refine (List.isChain_map _).2 (hothers.steps.imp fun positions next hnext ↦ ?_)
        rw [nextPositions?_cons, hnext]
        rfl
      · -- when the others can move no more, `s` does, as long as there are enough positions above it
        rw [List.getLast?_map] at hpositions
        obtain ⟨rest, hrest, rfl⟩ := Option.map_eq_some_iff.1 hpositions
        have hlength : rest.length = k := (mem_choose.1 (List.mem_of_getLast? hrest)).2
        rw [nextPositions?_cons, hothers.ends rest hrest, hlength, head?_choose_range']
        by_cases henough : k + 1 ≤ m
        · rw [if_pos henough, if_neg (by omega)]
          rfl
        · rw [if_neg henough, if_pos (by omega)]
          rfl

theorem increasingLists_eq (n k : Nat) : increasingLists n k = choose k (List.range n) := by
  have hfirst := head?_choose_range' k 0 n
  rw [increasingLists]
  split
  · rename_i hle
    rw [if_pos hle] at hfirst
    obtain ⟨after, hafter⟩ := List.head?_eq_some_iff.1 hfirst
    have hlisting := isListing_choose_range' k 0 n
    rw [Nat.zero_add, hafter, ← List.range_eq_range'] at hlisting
    rw [hlisting.listFrom_eq, List.range_eq_range' (n := n), hafter, List.range_eq_range']
    rfl
  · rename_i hlt
    rw [if_neg hlt, List.head?_eq_none_iff, ← List.range_eq_range'] at hfirst
    exact hfirst.symm

/-! ### Positions -/

/-- **The listed positions are the selections.** -/
theorem mem_increasingLists {positions : List Nat} :
    positions ∈ increasingLists n k ↔ IsSelection n k positions := by
  rw [increasingLists_eq, mem_choose]
  constructor
  · rintro ⟨hsub, hlength⟩
    exact ⟨List.pairwise_lt_range.sublist hsub, fun i hi ↦ List.mem_range.1 (hsub.subset hi),
      hlength⟩
  · rintro ⟨hascend, hinside, hlength⟩
    have hnodup : positions.Nodup := hascend.imp Nat.ne_of_lt
    have hsubperm : positions.Subperm (List.range n) :=
      hnodup.subperm fun i hi ↦ List.mem_range.2 (hinside i hi)
    have : Std.Antisymm (α := Nat) (· < ·) := ⟨fun _ _ h h' ↦ absurd h (Nat.lt_asymm h')⟩
    exact ⟨List.sublist_of_subperm_of_pairwise hsubperm hascend List.pairwise_lt_range, hlength⟩

/-- They come in lexicographic order. -/
theorem pairwise_increasingLists (n k : Nat) : (increasingLists n k).Pairwise (· < ·) := by
  rw [increasingLists_eq]
  exact pairwise_lt_choose List.pairwise_lt_range k

/-- **To choose elements is to choose positions.** -/
theorem choose_eq_map_pick (k : Nat) (l : List α) :
    choose k l = (increasingLists l.length k).map (pick l) := by
  have hl : (List.finRange l.length).map l.get = l := List.map_get_finRange l
  have hrange : List.range l.length = (List.finRange l.length).map Fin.val :=
    List.map_coe_finRange_eq_range.symm
  have hpick : ∀ positions : List (Fin l.length),
      pick l (positions.map Fin.val) = positions.map l.get := fun positions ↦ by
    rw [pick, List.filterMap_map]
    exact List.filterMap_eq_map_iff_forall_eq_some.2 fun i _ ↦ by simp
  calc choose k l = choose k ((List.finRange l.length).map l.get) := by rw [hl]
    _ = (choose k (List.finRange l.length)).map fun positions ↦
          pick l (positions.map Fin.val) := by simp only [choose_map, hpick]
    _ = (increasingLists l.length k).map (pick l) := by
      rw [increasingLists_eq, hrange, choose_map, List.map_map]
      rfl

theorem pick_mem_choose {l : List α} {positions : List Nat}
    (h : IsSelection l.length k positions) : pick l positions ∈ choose k l := by
  rw [choose_eq_map_pick]
  exact List.mem_map_of_mem (mem_increasingLists.2 h)

/-- **Selections are listed completely and in order.** For all `n` and `k` the listing starts with
the lowest positions, if there are enough, goes from each selection to the next, and ends where
there is none. It has every increasing list of `k` numbers below `n` once and nothing else, the
lexicographically smaller first. They are as many as subsets: the empty one for `k = 0`, and none
exactly if `k` is too large. -/
theorem selections_listed_in_order (n k : Nat) :
    (increasingLists n k).head? = (if k ≤ n then some (List.range k) else none) ∧
    IsListing n (increasingLists n k) ∧
    (∀ positions, positions ∈ increasingLists n k ↔ IsSelection n k positions) ∧
    (increasingLists n k).Nodup ∧ (increasingLists n k).Pairwise (· < ·) ∧
    (increasingLists n k).length = n.choose k ∧
    increasingLists n 0 = [[]] ∧ (increasingLists n k = [] ↔ n < k) := by
  have hordered := pairwise_increasingLists n k
  have hhead := head?_choose_range' k 0 n
  have hlisting := isListing_choose_range' k 0 n
  rw [← List.range_eq_range', ← List.range_eq_range', ← increasingLists_eq] at hhead
  rw [← List.range_eq_range', ← increasingLists_eq, Nat.zero_add] at hlisting
  refine ⟨hhead, hlisting, fun _ ↦ mem_increasingLists, hordered.imp fun hlt ↦ ne_of_lt hlt, hordered,
    ?_, ?_, ?_⟩
  · rw [increasingLists_eq, length_choose, List.length_range]
  · rw [increasingLists_eq, choose]
  · rw [increasingLists_eq, ← not_iff_not, ← ne_eq, choose_ne_nil_iff, List.length_range, Nat.not_lt]

end DealersChoice
