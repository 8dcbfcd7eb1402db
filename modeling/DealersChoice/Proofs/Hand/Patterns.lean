import DealersChoice.Hand.Strength
import DealersChoice.Proofs.Hand.Sets
import Mathlib.Data.List.GetD

/-!
# What a pattern keeps of a hand

A pattern keeps the ranks of up to five cards, highest first, and whether the hand is a flush. That
is all a standing needs: the groups of a pattern are those of the hand, and its slots tell a
straight (`straightTop?_ofRanks`).
-/

namespace DealersChoice

variable {ranks : List Nat} {oneSuit : Bool}

/-! ### Five slots -/

theorem toList_firstFive {l : List Nat} (h : l.length ≤ 5) :
    (firstFive l).toList = l ++ List.replicate (5 - l.length) 0 := by
  rw [firstFive, Vector.toList_ofFn]
  refine List.ext_getElem ?_ fun i hi _ ↦ ?_
  · rw [List.length_ofFn, List.length_append, List.length_replicate]
    omega
  · rw [List.getElem_ofFn, List.getElem_append]
    split
    · rename_i hlt
      exact List.getD_eq_getElem l 0 hlt
    · rename_i hle
      rw [List.getElem_replicate]
      exact List.getD_eq_default l 0 (Nat.le_of_not_lt hle)

/-- Five cards fill the slots. -/
theorem toList_firstFive_of_length {l : List Nat} (h : l.length = 5) : (firstFive l).toList = l := by
  rw [toList_firstFive h.le, h, Nat.sub_self, List.replicate_zero, List.append_nil]

/-- Descending numbers differ if neighbours differ. -/
theorem neighboursDiffer_iff {l : List Nat} (h : l.Pairwise fun a b ↦ b ≤ a) :
    RankPattern.neighboursDiffer l = true ↔ l.Nodup := by
  induction l with
  | nil => simp [RankPattern.neighboursDiffer]
  | cons a rest ih =>
    obtain ⟨ha, hrest⟩ := List.pairwise_cons.1 h
    cases rest with
    | nil => simp [RankPattern.neighboursDiffer]
    | cons b rest =>
      rw [RankPattern.neighboursDiffer, Bool.and_eq_true, ih hrest, List.nodup_cons (a := a),
        bne_iff_ne]
      refine and_congr_left fun _ ↦ ⟨fun hne hmem ↦ ?_, fun hnot heq ↦ ?_⟩
      · -- all further numbers are below the next one, and that is below `a`
        have hb := ha b (List.mem_cons_self ..)
        have hab : a ≤ b := by
          rcases List.mem_cons.1 hmem with rfl | hmem
          · exact Nat.le_refl _
          · exact (List.pairwise_cons.1 hrest).1 a hmem
        omega
      · exact hnot (heq ▸ List.mem_cons_self ..)

namespace RankPattern

theorem toList_ranks_ofRanks (hfew : ranks.length ≤ 5) :
    (ofRanks ranks oneSuit).ranks.toList =
      descending ranks ++ List.replicate (5 - ranks.length) 0 := by
  rw [ofRanks, List.take_of_length_le hfew, toList_firstFive (by rwa [length_descending]),
    length_descending]

theorem present_ofRanks (hfew : ranks.length ≤ 5) (hpos : ∀ r ∈ ranks, r ≠ 0) :
    (ofRanks ranks oneSuit).present = descending ranks := by
  rw [present, toList_ranks_ofRanks hfew, List.filter_append,
    List.filter_eq_self.2 fun r hr ↦ by simpa using hpos r (mem_descending.1 hr),
    List.filter_eq_nil_iff.2 fun r hr ↦ by simp [List.eq_of_mem_replicate hr], List.append_nil]

theorem size_ofRanks (hfew : ranks.length ≤ 5) (hpos : ∀ r ∈ ranks, r ≠ 0) :
    (ofRanks ranks oneSuit).size = ranks.length := by
  rw [size, present_ofRanks hfew hpos, length_descending]

theorem suited_ofRanks :
    (ofRanks ranks oneSuit).suited = true ↔
      oneSuit = true ∧ ranks.length = 5 ∧ ranks.Nodup := by
  rw [ofRanks, Bool.and_eq_true, Bool.and_eq_true, beq_iff_eq, and_assoc]
  refine and_congr_right fun _ ↦ and_congr_right fun hfive ↦ ?_
  rw [List.take_of_length_le hfive.le,
    toList_firstFive_of_length ((length_descending ranks).trans hfive),
    neighboursDiffer_iff (pairwise_descending ranks), (descending_perm ranks).nodup_iff]

/-- A pattern that is not suited does not tell whether the cards share a suit. -/
theorem ofRanks_eq_of_not_suited (h : ¬(ofRanks ranks true).suited = true) :
    ofRanks ranks true = ofRanks ranks false := by
  rw [Bool.not_eq_true] at h
  rw [ofRanks, mk.injEq] 
  exact ⟨rfl, h⟩

/-- **A pattern does not see the order of the cards.** -/
theorem ofRanks_perm {ranks' : List Nat} (h : ranks.Perm ranks') (hfew : ranks.length ≤ 5) :
    ofRanks ranks oneSuit = ofRanks ranks' oneSuit := by
  rw [ofRanks, ofRanks, List.take_of_length_le hfew,
    List.take_of_length_le (h.length_eq ▸ hfew),
    descending_eq_of_perm (pairwise_descending ranks') (h.trans (descending_perm ranks').symm),
    h.length_eq]

end RankPattern

/-! ### Straights -/

theorem pairwise_runFrom {top : Nat} (h : 5 < top) : (runFrom top).Pairwise fun a b ↦ b < a := by
  simp only [runFrom, List.pairwise_cons, List.mem_cons, List.not_mem_nil, or_false, forall_eq_or_imp,
    forall_eq, List.Pairwise.nil, and_true, false_implies, implies_true]
  omega

theorem pairwise_wheelRanks : wheelRanks.Pairwise fun a b ↦ b < a := by decide

/-- Cards of the ranks of a strictly descending list are that list in descending order. -/
theorem perm_iff_descending_eq {l : List Nat} (h : l.Pairwise fun a b ↦ b < a) :
    ranks.Perm l ↔ descending ranks = l :=
  ⟨descending_eq_of_perm (h.imp Nat.le_of_lt), fun heq ↦ heq ▸ (descending_perm ranks).symm⟩

/-- **The top of a straight.** -/
theorem straightTop?_ofRanks (hfew : ranks.length ≤ 5) (hrange : ∀ r ∈ ranks, 2 ≤ r ∧ r < 16)
    (wheel : Bool) (top : Nat) :
    straightTop? (.ofRanks ranks oneSuit) wheel = some top ↔
      5 < top ∧ ranks.Perm (runFrom top) ∨
        wheel = true ∧ ranks.Perm wheelRanks ∧ top = 5 := by
  have hpos : ∀ r ∈ ranks, r ≠ 0 := fun r hr ↦ by have := hrange r hr; omega
  have hpos' : ∀ r ∈ descending ranks, r ≠ 0 := fun r hr ↦ hpos r (mem_descending.1 hr)
  rw [straightTop?, RankPattern.present_ofRanks hfew hpos]
  split
  · -- five ranks in a row are five different ranks
    rename_i hgroups
    have hnot : ¬(ranks.length = 5 ∧ ranks.Nodup) := fun ⟨hfive, hnodup⟩ ↦
      (not_length_rankGroups_lt_five_iff hpos' (by rwa [length_descending])).2
        ⟨(length_descending ranks).trans hfive, (descending_perm ranks).nodup_iff.2 hnodup⟩ hgroups
    refine ⟨fun h ↦ absurd h (Option.some_ne_none top).symm, ?_⟩
    rintro (⟨htop, hperm⟩ | ⟨-, hperm, -⟩)
    · exact absurd ⟨hperm.length_eq,
        hperm.nodup_iff.2 ((pairwise_runFrom htop).imp Nat.ne_of_gt)⟩ hnot
    · exact absurd ⟨hperm.length_eq,
        hperm.nodup_iff.2 (pairwise_wheelRanks.imp Nat.ne_of_gt)⟩ hnot
  · rename_i hgroups
    obtain ⟨hfive, hnodup⟩ := (not_length_rankGroups_lt_five_iff hpos'
      (by rwa [length_descending])).1 hgroups
    have hstrict := pairwise_lt_descending ((descending_perm ranks).nodup_iff.1 hnodup)
    have hlow : ∀ r ∈ descending ranks, 2 ≤ r := fun r hr ↦ (hrange r (mem_descending.1 hr)).1
    rw [RankPattern.toList_ranks_ofRanks hfew, ← length_descending, hfive, Nat.sub_self,
      List.replicate_zero, List.append_nil, perm_iff_descending_eq pairwise_wheelRanks]
    have hrun : 5 < top ∧ ranks.Perm (runFrom top) ↔ 5 < top ∧ descending ranks = runFrom top :=
      and_congr_right fun htop ↦ perm_iff_descending_eq (pairwise_runFrom htop)
    rw [hrun]
    obtain ⟨a, rest, hslots⟩ := List.exists_cons_of_length_eq_add_one hfive
    obtain ⟨b, c, d, e, rfl⟩ := List.length_eq_four.1 (by
      rwa [hslots, List.length_cons, Nat.add_right_cancel_iff] at hfive)
    rw [hslots] at hstrict hlow ⊢
    have he := hlow e (by simp)
    simp only [List.pairwise_cons, List.mem_cons, List.not_mem_nil, or_false, forall_eq_or_imp,
      forall_eq, List.Pairwise.nil, and_true, false_implies, implies_true] at hstrict
    simp only [runFrom, wheelRanks, List.cons.injEq, and_true]
    split
    · rename_i heq
      simp only [List.cons.injEq, and_true] at heq
      obtain ⟨rfl, rfl, rfl, rfl, rfl⟩ := heq
      rw [Option.ite_none_right_eq_some, Option.some.injEq]
      constructor
      · rintro ⟨hwheel, rfl⟩
        exact Or.inr ⟨hwheel, ⟨rfl, rfl, rfl, rfl, rfl⟩, rfl⟩
      · rintro (hrun | ⟨hwheel, -, rfl⟩)
        · omega
        · exact ⟨hwheel, rfl⟩
    · rename_i hwheel heq
      simp only [List.cons.injEq, and_true] at heq
      obtain ⟨rfl, rfl, rfl, rfl, rfl⟩ := heq
      have hnot : ¬(a = 14 ∧ b = 5 ∧ c = 4 ∧ d = 3 ∧ e = 2) := fun ⟨ha, hb, hc, hd, he⟩ ↦
        hwheel ha hb hc hd he
      rw [Option.ite_none_right_eq_some, Option.some.injEq]
      omega
    · rename_i hnone
      exact absurd rfl (hnone a b c d e)

end DealersChoice
