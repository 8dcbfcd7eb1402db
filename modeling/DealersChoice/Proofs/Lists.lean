import DealersChoice.Pot
import Mathlib.Algebra.BigOperators.Group.List.Basic
import Mathlib.Algebra.GroupWithZero.Nat
import Mathlib.Data.List.Forall2
import Mathlib.Data.List.Nodup
import Mathlib.Data.List.Perm.Subperm
import Mathlib.Data.List.Rotate

/-!
# Totals, maxima and single changes of lists

What the books of a table are made of: sums of chips, the largest of some amounts, and lists in
which one element — the first with a given property — is changed.

A change at the first match is, when nothing else matches, the same as a change of every match
(`modify_findIdx?_eq_map`). Books have one entry per player, so this turns every change of one entry
into a `List.map`, and the views of the books commute with it.
-/

namespace DealersChoice

variable {α β : Type}

/-! ### Totals -/

theorem total_eq_sum (l : List Nat) : total l = l.sum := rfl

theorem total_append (l m : List Nat) : total (l ++ m) = total l + total m := by
  simp [total_eq_sum]

/-- Totals of two columns add up row by row. -/
theorem total_map_add (l : List α) (f g : α → Nat) :
    total (l.map fun a ↦ f a + g a) = total (l.map f) + total (l.map g) := by
  simp [total_eq_sum, List.sum_map_add]

theorem total_perm {l m : List Nat} (h : l.Perm m) : total l = total m := by
  rw [total_eq_sum, total_eq_sum, h.sum_eq]

theorem total_reverse (l : List Nat) : total l.reverse = total l :=
  total_perm l.reverse_perm

theorem total_eq_zero_iff {l : List Nat} : total l = 0 ↔ ∀ n ∈ l, n = 0 := by
  rw [total_eq_sum, List.sum_eq_zero_iff_forall_eq_nat]

theorem le_total_of_mem {l : List Nat} {n : Nat} (h : n ∈ l) : n ≤ total l := by
  induction l with
  | nil => simp at h
  | cons m l ih =>
    rw [total_cons]
    rcases List.mem_cons.1 h with rfl | h
    · omega
    · have := ih h
      omega

theorem total_le_of_sublist {l m : List Nat} (h : l.Sublist m) : total l ≤ total m := by
  induction h with
  | slnil => exact Nat.le_refl _
  | cons a _ ih =>
    rw [total_cons]
    omega
  | cons_cons a _ ih =>
    rw [total_cons, total_cons]
    omega

/-- The total of a list of lists is the total of their totals. -/
theorem total_flatMap (l : List α) (f : α → List Nat) :
    total (l.flatMap f) = total (l.map fun a ↦ total (f a)) := by
  induction l with
  | nil => rfl
  | cons a l ih => rw [List.flatMap_cons, total_append, ih, List.map_cons, total_cons]

/-- Zeros add nothing. -/
theorem total_map_filter_pos (l : List α) (f : α → Nat) :
    total ((l.filter fun a ↦ 0 < f a).map f) = total (l.map f) := by
  induction l with
  | nil => rfl
  | cons a l ih =>
    rw [List.filter_cons]
    split
    · rw [List.map_cons, List.map_cons, total_cons, total_cons, ih]
    · rename_i h
      have ha : f a = 0 := by simpa using h
      rw [List.map_cons, total_cons, ha, ih, Nat.zero_add]

/-- A number that stands at one place only. -/
theorem total_map_single [DecidableEq α] {l : List α} (hl : l.Nodup) {a : α} (ha : a ∈ l)
    (n : Nat) : total (l.map fun b ↦ if a = b then n else 0) = n := by
  induction l with
  | nil => simp at ha
  | cons b l ih =>
    rw [List.nodup_cons] at hl
    rw [List.map_cons, total_cons]
    rcases List.mem_cons.1 ha with rfl | hrest
    · have hrest : total (l.map fun b ↦ if a = b then n else 0) = 0 := by
        refine total_eq_zero_iff.2 fun m hm ↦ ?_
        obtain ⟨b, hb, rfl⟩ := List.mem_map.1 hm
        refine if_neg ?_
        rintro rfl
        exact hl.1 hb
      rw [if_pos rfl, hrest, Nat.add_zero]
    · have hne : a ≠ b := by
        rintro rfl
        exact hl.1 hrest
      rw [if_neg hne, ih hl.2 hrest, Nat.zero_add]

/-! ### Maxima -/

theorem le_foldl_max (l : List Nat) (n : Nat) : n ≤ l.foldl max n := by
  induction l generalizing n with
  | nil => exact Nat.le_refl n
  | cons a l ih => exact Nat.le_trans (Nat.le_max_left n a) (ih (max n a))

/-- The largest number of a list bounds all of them. -/
theorem le_foldl_max_of_mem {l : List Nat} {a : Nat} (h : a ∈ l) (n : Nat) :
    a ≤ l.foldl max n := by
  induction l generalizing n with
  | nil => simp at h
  | cons b l ih =>
    rcases List.mem_cons.1 h with h | h
    · subst h
      exact Nat.le_trans (Nat.le_max_right n a) (le_foldl_max l (max n a))
    · exact ih h (max n b)

/-- The largest number of a list is one of them, or the one it started from. -/
theorem foldl_max_eq_or_mem (l : List Nat) (n : Nat) : l.foldl max n = n ∨ l.foldl max n ∈ l := by
  induction l generalizing n with
  | nil => exact Or.inl rfl
  | cons a l ih =>
    rw [List.foldl_cons]
    rcases ih (max n a) with h | h
    · rcases Nat.le_total a n with hle | hle
      · exact Or.inl (h.trans (Nat.max_eq_left hle))
      · exact Or.inr (List.mem_cons.2 (Or.inl (h.trans (Nat.max_eq_right hle))))
    · exact Or.inr (List.mem_cons_of_mem a h)

/-! ### One element changed -/

/-- **When at most one element matches, changing the first match changes all of them.** -/
theorem modify_findIdx?_eq_map {l : List α} {p : α → Bool} (f : α → α)
    (h : l.Pairwise fun a b ↦ p a = true → p b = false) {i : Nat}
    (hi : l.findIdx? p = some i) :
    l.modify i f = l.map fun a ↦ if p a then f a else a := by
  induction l generalizing i with
  | nil => simp at hi
  | cons a l ih =>
    rw [List.pairwise_cons] at h
    rw [List.findIdx?_cons] at hi
    cases ha : p a with
    | true =>
      have hrest : ∀ b ∈ l, (if p b then f b else b) = b := by
        intro b hb
        rw [h.1 b hb ha]
        rfl
      simp only [ha, if_true, Option.some.injEq] at hi
      subst hi
      rw [List.modify_zero_cons, List.map_cons, ha, List.map_congr_left hrest, List.map_id']
      rfl
    | false =>
      rw [ha] at hi
      obtain ⟨j, hj, rfl⟩ := Option.map_eq_some_iff.1 hi
      rw [List.modify_succ_cons, List.map_cons, ha, ih h.2 hj]
      rfl

/-- Without a match, nothing changes. -/
theorem map_eq_self_of_findIdx?_eq_none {l : List α} {p : α → Bool} (f : α → α)
    (h : l.findIdx? p = none) : (l.map fun a ↦ if p a then f a else a) = l := by
  have hp := List.findIdx?_eq_none_iff.1 h
  have hid : ∀ a ∈ l, (if p a then f a else a) = a := by
    intro a ha
    rw [hp a ha]
    rfl
  rw [List.map_congr_left hid, List.map_id']

/-- The first match and what stands on either side of it. -/
theorem exists_modify_eq {l : List α} {p : α → Bool} {a : α} (h : l.find? p = some a) :
    ∃ before after, l.findIdx? p = some before.length ∧ l = before ++ a :: after ∧
      (∀ b ∈ before, p b = false) ∧
        ∀ f : α → α, l.modify before.length f = before ++ f a :: after := by
  obtain ⟨ha, before, after, rfl, hbefore⟩ := List.find?_eq_some_iff_append.1 h
  have hbefore : ∀ b ∈ before, p b = false := fun b hb ↦ by simpa using hbefore b hb
  have hnone : before.findIdx? p = none := List.findIdx?_eq_none_iff.2 hbefore
  refine ⟨before, after, ?_, rfl, hbefore, fun f ↦ ?_⟩
  · simp [hnone, List.findIdx?_cons, ha]
  · rw [List.modify_eq_take_cons_drop (by simp)]
    simp

/-- A column without repetition has at most one entry of each value. -/
theorem pairwise_key_of_nodup [BEq β] [LawfulBEq β] {l : List α} {key : α → β}
    (h : (l.map key).Nodup) (k : β) :
    l.Pairwise fun a b ↦ (key a == k) = true → (key b == k) = false := by
  refine (List.pairwise_map.1 h).imp fun {a b} hab ha ↦ ?_
  rw [beq_eq_false_iff_ne]
  rintro rfl
  exact hab (eq_of_beq ha)

/-- In a column without repetition, each entry is the first of its value. -/
theorem findIdx?_key_of_nodup [BEq β] [LawfulBEq β] {l : List α} {key : α → β}
    (h : (l.map key).Nodup) {i : Nat} {a : α} (hi : l[i]? = some a) :
    l.findIdx? (key · == key a) = some i := by
  obtain ⟨hlt, rfl⟩ := List.getElem?_eq_some_iff.1 hi
  refine List.findIdx?_eq_some_iff_getElem.2 ⟨hlt, beq_self_eq_true _, fun j hj heq ↦ ?_⟩
  have hj' : j < (l.map key).length := by
    rw [List.length_map]
    omega
  have hi' : i < (l.map key).length := by
    rw [List.length_map]
    exact hlt
  have hkeys : (l.map key)[j] = (l.map key)[i] := by
    simpa using heq
  have := (List.Nodup.getElem_inj_iff h).1 hkeys
  omega

/-- In a table without repeated keys, every entry is the one that is looked up. -/
theorem lookup_eq_some_of_mem [BEq α] [LawfulBEq α] {l : List (α × β)}
    (h : (l.map (·.1)).Nodup) {k : α} {v : β} (hmem : (k, v) ∈ l) : l.lookup k = some v := by
  induction l with
  | nil => simp at hmem
  | cons e l ih =>
    rw [List.map_cons, List.nodup_cons] at h
    rcases List.mem_cons.1 hmem with rfl | hrest
    · exact List.lookup_cons_self
    · have hne : (k == e.1) = false := by
        rw [beq_eq_false_iff_ne]
        rintro rfl
        exact h.1 (List.mem_map.2 ⟨(e.1, v), hrest, rfl⟩)
      rw [List.lookup_cons, hne]
      exact ih h.2 hrest

/-! ### Sublists -/

/-- What a list without repetition loses to a sublist that is not all of it. -/
theorem exists_mem_notMem_of_sublist {l m : List α} (h : l.Sublist m) (hne : l ≠ m)
    (hm : m.Nodup) : ∃ a ∈ m, a ∉ l := by
  by_contra hall
  have hsub : m ⊆ l := fun a ha ↦ by_contra fun hl ↦ hall ⟨a, ha, hl⟩
  exact hne (h.eq_of_length_le (hm.subperm hsub).length_le)

/-- Between a list and a sublist there are sublists of all lengths. -/
theorem exists_sublist_between {l m : List α} (h : l.Sublist m) {k : Nat} (hl : l.length ≤ k)
    (hm : k ≤ m.length) : ∃ s, l.Sublist s ∧ s.Sublist m ∧ s.length = k := by
  induction h generalizing k with
  | slnil => exact ⟨[], .slnil, .slnil, (Nat.le_zero.1 hm).symm⟩
  | @cons l m a h ih =>
    rcases Nat.lt_or_eq_of_le hm with hlt | rfl
    · obtain ⟨s, hls, hsm, hlength⟩ := ih hl (Nat.le_of_lt_succ hlt)
      exact ⟨s, hls, hsm.cons a, hlength⟩
    · exact ⟨a :: m, h.cons a, List.Sublist.refl _, rfl⟩
  | @cons_cons l m a h ih =>
    obtain ⟨k, rfl⟩ := Nat.exists_eq_add_one_of_ne_zero (Nat.ne_of_gt (Nat.zero_lt_of_lt hl))
    obtain ⟨s, hls, hsm, hlength⟩ := ih (Nat.le_of_succ_le_succ hl) (Nat.le_of_succ_le_succ hm)
    exact ⟨a :: s, hls.cons_cons a, hsm.cons_cons a, congrArg Nat.succ hlength⟩

/-- What is left when some elements are taken away, and then others. -/
theorem filter_notMem_append [DecidableEq α] (l gone others : List α) :
    l.filter (· ∉ gone ++ others) = (l.filter (· ∉ gone)).filter (· ∉ others) := by
  rw [List.filter_filter]
  exact List.filter_congr fun a _ ↦ by simp [Bool.and_comm]

/-! ### Lists related place by place -/

section Related

variable {R : α → α → Prop} {l l' : List α}

theorem forall₂_map_self {f : α → α} (h : ∀ a, R a (f a)) (l : List α) :
    List.Forall₂ R l (l.map f) :=
  List.forall₂_map_right_iff.2 (List.forall₂_same.2 fun a _ ↦ h a)

theorem forall₂_of_map_eq {α β γ : Type} {f : α → γ} {k : β → γ} {l : List α} {l' : List β}
    (h : l.map f = l'.map k) : List.Forall₂ (fun a b ↦ f a = k b) l l' := by
  rw [← List.forall₂_eq_eq_eq, List.forall₂_map_left_iff, List.forall₂_map_right_iff] at h
  exact h

/-- What is kept of a list, and what it turns into. -/
theorem forall₂_filter_filterMap {R : α → β → Prop} {p : α → Bool} {f : α → Option β}
    (hp : ∀ a, p a = (f a).isSome) (hR : ∀ a b, f a = some b → R a b) (l : List α) :
    List.Forall₂ R (l.filter p) (l.filterMap f) := by
  induction l with
  | nil => exact .nil
  | cons a l ih =>
    rw [List.filter_cons, hp]
    cases hfa : f a with
    | none => rwa [List.filterMap_cons_none hfa]
    | some b =>
      rw [List.filterMap_cons_some hfa]
      exact .cons (hR a b hfa) ih

/-- What related elements have in common, related lists have. -/
theorem map_eq_map_of_forall₂ {f : α → β} (h : List.Forall₂ R l l')
    (hf : ∀ a ∈ l, ∀ b, R a b → f b = f a) : l'.map f = l.map f := by
  induction h with
  | nil => rfl
  | cons hab _ ih =>
    rw [List.map_cons, List.map_cons, hf _ (List.mem_cons_self ..) _ hab,
      ih fun a ha ↦ hf a (List.mem_cons_of_mem _ ha)]

theorem eq_of_forall₂ (h : List.Forall₂ R l l') (hR : ∀ a ∈ l, ∀ b, R a b → b = a) : l' = l := by
  have hmap := map_eq_map_of_forall₂ (f := id) h hR
  rwa [List.map_id, List.map_id] at hmap

/-- The first elements with a property that related elements share are related. -/
theorem rel_find?_of_forall₂ {p : α → Bool} (h : List.Forall₂ R l l')
    (hp : ∀ a b, R a b → p b = p a) : Option.Rel R (l.find? p) (l'.find? p) := by
  induction h with
  | nil => exact .none
  | @cons a b _ _ hab _ ih =>
    rw [List.find?_cons, List.find?_cons, hp a b hab]
    split
    · exact .some hab
    · exact ih

end Related

/-! ### Rotations -/

theorem rotateLeft_eq_rotate (l : List α) (n : Nat) : l.rotateLeft n = l.rotate n := by
  rw [List.rotate_eq_drop_append_take_mod]
  rcases l with - | ⟨a, - | ⟨b, l⟩⟩
  · simp
  · simp [List.rotateLeft, Nat.mod_one]
  · rfl

end DealersChoice
