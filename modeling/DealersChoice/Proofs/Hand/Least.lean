import DealersChoice.Proofs.Hand.Worths
import Mathlib.Data.List.Lex
import Mathlib.Order.Bounds.Basic

/-!
# The least worth

Worths are ordered by all the numbers they consist of, and these tell worths apart, so a set of
worths has at most one least element. A search goes through a list from the front and keeps what it
has unless something better comes: it ends with the first of the least elements
(`exists_firstLeast_eq`).
-/

namespace DealersChoice

variable {α β : Type}

/-! ### The order of worths -/

theorem Category.key_injective : Function.Injective Category.key := by
  intro c d h
  cases c <;> cases d <;> simp [Category.key, Category.index] at h ⊢ <;> exact h

namespace Worth

variable {v w : Worth}

theorem key_injective : Function.Injective key := by
  rintro ⟨place, category, kickers⟩ ⟨place', category', kickers'⟩ h
  have hlength : ∀ c : Category, c.key.length = 2 := fun c ↦ by cases c <;> rfl
  obtain ⟨rfl, hrest⟩ := List.cons.inj h
  obtain ⟨hcategory, hkickers⟩ := List.append_inj hrest (by rw [hlength, hlength])
  obtain rfl := Category.key_injective hcategory
  obtain rfl := Vector.toList_inj.1 hkickers
  rfl

instance : LE Worth where
  le a b := ¬b < a

theorem lt_iff : v < w ↔ v.key < w.key :=
  Iff.rfl

theorem le_iff : v ≤ w ↔ v.key ≤ w.key := by
  show ¬w.key < v.key ↔ _
  exact not_lt

theorem eq_of_le_of_le (h : v ≤ w) (h' : w ≤ v) : v = w :=
  key_injective (le_antisymm (le_iff.1 h) (le_iff.1 h'))

/-- Places decide first. -/
theorem place_le_of_le (h : v ≤ w) : v.place ≤ w.place := by
  by_contra hlt
  exact h (List.cons_lt_cons_iff.2 (Or.inl (Nat.lt_of_not_le hlt)))

theorem lt_of_beats (h : v.beats w = true) : v < w :=
  List.cons_lt_cons_iff.2 (Or.inl (of_decide_eq_true h))

/-- A set of worths has no two least ones. -/
theorem eq_of_isLeast {s : Set Worth} (hv : IsLeast s v) (hw : IsLeast s w) : v = w :=
  eq_of_le_of_le (hv.2 hw.1) (hw.2 hv.1)

end Worth

/-! ### The search for the least -/

/-- **A search ends with the first of the least elements**: all before it are larger, and none after
it is smaller. -/
theorem exists_firstLeast_eq [LinearOrder β] {f : α → β} {precedes : α → α → Bool}
    (hprecedes : ∀ a b, precedes a b = true ↔ f a < f b) {l : List α} {a : α}
    (h : firstLeast precedes l = some a) :
    ∃ before after, l = before ++ a :: after ∧ (∀ b ∈ before, f a < f b) ∧
      ∀ b ∈ after, f a ≤ f b := by
  induction l using List.reverseRecOn generalizing a with
  | nil => exact absurd h (Option.some_ne_none a).symm
  | append_singleton l c ih =>
    rw [firstLeast, List.foldl_append, ← firstLeast, List.foldl_cons, List.foldl_nil] at h
    cases hbest : firstLeast precedes l with
    | none =>
      have hnil : l = [] := by
        by_contra hne
        simpa [hbest] using (@isSome_firstLeast _ precedes l).2 hne
      rw [hbest, keepBetter, Option.some.injEq] at h
      exact ⟨[], [], by rw [hnil, h, List.nil_append], by simp, by simp⟩
    | some b =>
      obtain ⟨before, after, rfl, hbefore, hafter⟩ := ih hbest
      rw [hbest, keepBetter] at h
      split at h
      · -- the next element is better than the best so far, hence than all others
        rename_i hbetter
        obtain rfl := Option.some.inj h
        have hlt := (hprecedes c b).1 hbetter
        refine ⟨before ++ b :: after, [], rfl, fun d hd ↦ ?_, by simp⟩
        rcases List.mem_append.1 hd with hd | hd
        · exact hlt.trans (hbefore d hd)
        · rcases List.mem_cons.1 hd with rfl | hd
          · exact hlt
          · exact hlt.trans_le (hafter d hd)
      · rename_i hnot
        obtain rfl := Option.some.inj h
        refine ⟨before, after ++ [c], by simp, hbefore, fun d hd ↦ ?_⟩
        rcases List.mem_append.1 hd with hd | hd
        · exact hafter d hd
        · rw [List.mem_singleton.1 hd]
          exact not_lt.1 fun hlt ↦ hnot ((hprecedes c b).2 hlt)

/-- No element is smaller than the one that a search ends with. -/
theorem le_of_firstLeast [LinearOrder β] {f : α → β} {precedes : α → α → Bool}
    (hprecedes : ∀ a b, precedes a b = true ↔ f a < f b) {l : List α} {a : α}
    (h : firstLeast precedes l = some a) : ∀ b ∈ l, f a ≤ f b := by
  obtain ⟨before, after, rfl, hbefore, hafter⟩ := exists_firstLeast_eq hprecedes h
  intro b hb
  rcases List.mem_append.1 hb with hb | hb
  · exact (hbefore b hb).le
  · rcases List.mem_cons.1 hb with rfl | hb
    · exact le_rfl
    · exact hafter b hb

/-- **The least of listed worths.** -/
theorem firstLeast_eq_some_iff {worths : List Worth} {w : Worth} :
    firstLeast (fun a b ↦ decide (a < b)) worths = some w ↔ IsLeast {v | v ∈ worths} w := by
  have hleast : ∀ v, firstLeast (fun a b ↦ decide (a < b)) worths = some v →
      IsLeast {v | v ∈ worths} v := by
    intro v hv
    exact ⟨mem_of_firstLeast hv, fun u hu ↦
      Worth.le_iff.2 (le_of_firstLeast (f := Worth.key) (by simp [Worth.lt_iff]) hv u hu)⟩
  refine ⟨hleast w, fun h ↦ ?_⟩
  obtain ⟨v, hv⟩ := Option.isSome_iff_exists.1 ((isSome_firstLeast worths).2 (List.ne_nil_of_mem h.1))
  rw [hv, Worth.eq_of_isLeast (hleast v hv) h]

/-- **A best hand has the least worth of all candidates.** -/
theorem isLeast_of_bestAmong {candidates : List (List Card)} {policy : Policy}
    {wildRanks : List Rank} {best : MadeHand}
    (h : bestAmong candidates policy wildRanks = some best) :
    worthWith? best.cards policy wildRanks = some best.worth ∧
      IsLeast {w | ∃ cards ∈ candidates, worthWith? cards policy wildRanks = some w} best.worth := by
  have hmade : ∀ made, made ∈ candidates.filterMap (fun cards ↦
      (worthWith? cards policy wildRanks).map fun worth ↦ ({ worth, cards } : MadeHand)) ↔
        made.cards ∈ candidates ∧ worthWith? made.cards policy wildRanks = some made.worth := by
    rintro ⟨worth, cards⟩
    simp
  obtain ⟨hcards, hworth⟩ := (hmade best).1 (mem_of_firstLeast h)
  refine ⟨hworth, ⟨_, hcards, hworth⟩, ?_⟩
  rintro w ⟨cards, hcards, hw⟩
  exact Worth.le_iff.2 (le_of_firstLeast (f := fun made : MadeHand ↦ made.worth.key)
    (by simp [Worth.lt_iff]) h ⟨w, cards⟩ ((hmade ⟨w, cards⟩).2 ⟨hcards, hw⟩))

/-- **The worth that a search finds** is the least one of its candidates. -/
theorem worth_bestAmong_eq_some_iff {candidates : List (List Card)} {policy : Policy}
    {wildRanks : List Rank} {w : Worth} :
    (bestAmong candidates policy wildRanks).map (·.worth) = some w ↔
      IsLeast {v | ∃ cards ∈ candidates, worthWith? cards policy wildRanks = some v} w := by
  constructor
  · intro h
    obtain ⟨best, hbest, rfl⟩ := Option.map_eq_some_iff.1 h
    exact (isLeast_of_bestAmong hbest).2
  · intro h
    obtain ⟨cards, hcards, hw⟩ := h.1
    obtain ⟨best, hbest⟩ := Option.isSome_iff_exists.1
      (isSome_bestAmong.2 ⟨cards, hcards, Option.isSome_of_eq_some hw⟩)
    rw [hbest, Option.map_some, Worth.eq_of_isLeast (isLeast_of_bestAmong hbest).2 h]

end DealersChoice
