import DealersChoice.Descending
import Mathlib.Data.List.Sort

/-!
# What a descending sort keeps

A sort rearranges its list and puts the highest keys first. Where the keys tell the elements apart,
nothing else does, so the order in which elements come in does not matter
(`sortDescending_eq_of_perm`). A search for the least element returns one from its list
(`mem_of_firstLeast`).
-/

namespace DealersChoice

variable {α : Type} {key : α → Nat} {l m : List α}

theorem insertDescending_perm (key : α → Nat) (a : α) (l : List α) :
    (insertDescending key a l).Perm (a :: l) := by
  induction l with
  | nil => exact .refl _
  | cons b rest ih =>
    rw [insertDescending]
    split
    · exact .refl _
    · exact (ih.cons b).trans (.swap a b rest)

theorem sortDescending_perm (key : α → Nat) (l : List α) : (sortDescending key l).Perm l := by
  induction l with
  | nil => exact .refl _
  | cons a rest ih => exact (insertDescending_perm key a _).trans (ih.cons a)

theorem pairwise_insertDescending (h : l.Pairwise fun a b ↦ key b ≤ key a) (a : α) :
    (insertDescending key a l).Pairwise fun a b ↦ key b ≤ key a := by
  induction l with
  | nil => exact List.pairwise_singleton _ _
  | cons b rest ih =>
    obtain ⟨hb, hrest⟩ := List.pairwise_cons.1 h
    rw [insertDescending]
    split
    · rename_i hle
      refine List.pairwise_cons.2 ⟨fun c hc ↦ ?_, h⟩
      rcases List.mem_cons.1 hc with rfl | hc
      · exact hle
      · exact (hb c hc).trans hle
    · rename_i hlt
      refine List.pairwise_cons.2 ⟨fun c hc ↦ ?_, ih hrest⟩
      rcases List.mem_cons.1 ((insertDescending_perm key a rest).mem_iff.1 hc) with rfl | hc
      · exact Nat.le_of_not_le hlt
      · exact hb c hc

theorem pairwise_sortDescending (key : α → Nat) (l : List α) :
    (sortDescending key l).Pairwise fun a b ↦ key b ≤ key a := by
  induction l with
  | nil => exact .nil
  | cons a rest ih => exact pairwise_insertDescending ih a

/-- **A descending list is determined by its elements**, if their keys tell them apart. -/
theorem sortDescending_eq_of_perm (hkey : ∀ a ∈ l, ∀ b ∈ l, key a = key b → a = b)
    (hm : m.Pairwise fun a b ↦ key b ≤ key a) (hperm : l.Perm m) : sortDescending key l = m := by
  have hsorted := sortDescending_perm key l
  refine List.Perm.eq_of_pairwise (fun a b ha hb hab hba ↦ ?_) (pairwise_sortDescending key l) hm
    (hsorted.trans hperm)
  exact hkey a (hsorted.mem_iff.1 ha) b (hperm.mem_iff.2 hb) (Nat.le_antisymm hba hab)

/-! ### Numbers -/

theorem descending_perm (l : List Nat) : (descending l).Perm l :=
  sortDescending_perm id l

theorem pairwise_descending (l : List Nat) : (descending l).Pairwise fun a b ↦ b ≤ a :=
  pairwise_sortDescending id l

theorem pairwise_lt_descending {l : List Nat} (h : l.Nodup) :
    (descending l).Pairwise fun a b ↦ b < a :=
  ((pairwise_descending l).and ((descending_perm l).nodup_iff.2 h)).imp fun ⟨hle, hne⟩ ↦
    Nat.lt_of_le_of_ne hle hne.symm

theorem length_descending (l : List Nat) : (descending l).length = l.length :=
  (descending_perm l).length_eq

theorem mem_descending {l : List Nat} {n : Nat} : n ∈ descending l ↔ n ∈ l :=
  (descending_perm l).mem_iff

theorem descending_eq_of_perm {l m : List Nat} (hm : m.Pairwise fun a b ↦ b ≤ a)
    (hperm : l.Perm m) : descending l = m :=
  sortDescending_eq_of_perm (fun _ _ _ _ h ↦ h) hm hperm

/-! ### The first of the least -/

theorem mem_of_foldl_keepBetter {precedes : α → α → Bool} {l : List α} {best : Option α} {a : α}
    (h : l.foldl (keepBetter precedes) best = some a) : best = some a ∨ a ∈ l := by
  induction l generalizing best with
  | nil => exact Or.inl h
  | cons b l ih =>
    rcases ih h with hbest | hmem
    · rcases best with - | c
      · exact Or.inr (Option.some.inj hbest ▸ List.mem_cons_self ..)
      · rw [keepBetter] at hbest
        split at hbest
        · exact Or.inr (Option.some.inj hbest ▸ List.mem_cons_self ..)
        · exact Or.inl hbest
    · exact Or.inr (List.mem_cons_of_mem b hmem)

/-- The least element is one of them. -/
theorem mem_of_firstLeast {precedes : α → α → Bool} {l : List α} {a : α}
    (h : firstLeast precedes l = some a) : a ∈ l :=
  (mem_of_foldl_keepBetter h).resolve_left (Option.some_ne_none a).symm

end DealersChoice
