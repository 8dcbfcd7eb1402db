import DealersChoice.Proofs.Table.Cards

/-!
# How many cards everybody holds

Cards that move change the hands (`Table.handOf`), their sizes (`Table.held`) and the stock to draw
from (`Table.stock`). What a deal does to both is a `Table.Dealt`, which adds up over one card after
another: so many cards leave the stock, and everybody gets their share of them.

A choice of cards is in order if it names cards of the hand without repetition (`Table.Holds`). This
is what a request is checked for, and a choice in order selects as many cards as it names.
-/

namespace DealersChoice

namespace Player

variable {p : Player} {positions : List Nat}

/-- What is not selected is kept. -/
theorem length_keep (p : Player) (positions : List Nat) :
    (p.keep positions).hand.length + (p.selected positions).length = p.hand.length := by
  have hsplit := (List.filter_append_perm (fun d : LaidCard × Nat ↦ positions.contains d.2)
    p.hand.zipIdx).length_eq
  rw [List.length_append, List.length_zipIdx] at hsplit
  rw [keep, unselected, selected, List.length_map, List.length_map, Nat.add_comm]
  exact hsplit

/-- Positions in range select as many cards, if none is repeated. -/
theorem length_selected (hnodup : positions.Nodup) (hlt : ∀ i ∈ positions, i < p.hand.length) :
    (p.selected positions).length = positions.length := by
  let chosen := (p.hand.zipIdx.filter fun d ↦ positions.contains d.2).map (·.2)
  have hchosen : chosen = (List.range p.hand.length).filter (positions.contains ·) := by
    rw [List.range_eq_range', ← List.zipIdx_map_snd 0 p.hand, List.filter_map]
    rfl
  have hperm : chosen.Perm positions := by
    refine (List.perm_ext_iff_of_nodup (hchosen ▸ List.nodup_range.filter _) hnodup).2 fun i ↦ ?_
    rw [hchosen, List.mem_filter, List.mem_range, List.contains_iff_mem]
    exact ⟨And.right, fun hi ↦ ⟨hlt i hi, hi⟩⟩
  have hlength := hperm.length_eq
  rw [List.length_map] at hlength
  rwa [selected, List.length_map]

theorem length_turnUp (p : Player) (positions : List Nat) :
    (p.turnUp positions).hand.length = p.hand.length := by
  rw [turnUp, List.length_map, List.length_zipIdx]

end Player

namespace Table

variable {t t' t'' : Table} {who : PlayerId} {p : Player}

/-- The hand of a player; none if nobody of that number is seated. -/
def handOf (t : Table) (who : PlayerId) : List LaidCard :=
  ((t.player? who).map (·.hand)).getD []

/-- How many cards a player holds. -/
def held (t : Table) (who : PlayerId) : Nat :=
  ((t.player? who).map (·.hand.length)).getD 0

/-- A choice of cards of a player, none of them chosen twice. -/
def Holds (t : Table) (who : PlayerId) (positions : List Nat) : Prop :=
  positions.Nodup ∧ ∀ i ∈ positions, i < t.held who

theorem handOf_of_player? (h : t.player? who = some p) : t.handOf who = p.hand := by
  rw [handOf, h]
  rfl

theorem held_eq (t : Table) (who : PlayerId) : t.held who = (t.handOf who).length := by
  rw [held, handOf]
  cases t.player? who <;> rfl

theorem held_of_player? (h : t.player? who = some p) : t.held who = p.hand.length := by
  rw [held, h]
  rfl

/-- The hands are read off the seats. -/
theorem held_congr (h : t'.seats.map (Option.map fun p ↦ (p.id, p.hand.length)) =
    t.seats.map (Option.map fun p ↦ (p.id, p.hand.length))) (who : PlayerId) :
    t'.held who = t.held who := by
  have heq : ∀ t : Table, t.held who = (((t.players.map fun p ↦ (p.id, p.hand.length)).find?
      (·.1 == who)).map (·.2)).getD 0 := by
    intro t
    rw [List.find?_map, Option.map_map]
    rfl
  rw [heq, heq, map_players_congr h]

/-- A change of a player that leaves the cards alone. -/
theorem held_modifyPlayer_of_hand {f : Player → Player} (hid : ∀ p, (f p).id = p.id)
    (hhand : ∀ p, (f p).hand = p.hand) (t : Table) (who i : PlayerId) :
    (t.modifyPlayer who f).held i = t.held i := by
  refine held_congr (map_seats_modifyPlayer (fun p ↦ ?_) t who) i
  rw [hid, hhand]

theorem player?_mapPlayers {f : Player → Player} (hid : ∀ p, (f p).id = p.id) (t : Table)
    (i : PlayerId) : (t.mapPlayers f).player? i = (t.player? i).map f := by
  rw [player?, players_mapPlayers, List.find?_map, player?]
  congr 2
  funext p
  simp [hid]

/-- **One hand changes.** -/
theorem handOf_modifyPlayer {f : Player → Player} (h : t.Distinct) (hid : ∀ p, (f p).id = p.id)
    (hp : t.player? who = some p) (i : PlayerId) :
    (t.modifyPlayer who f).handOf i = if i = who then (f p).hand else t.handOf i := by
  have hone : ∀ p, (if p.id == who then f p else p).id = p.id := by
    intro p
    split
    · exact hid p
    · rfl
  rw [modifyPlayer_eq_mapPlayers h, handOf, player?_mapPlayers hone]
  split
  · rename_i hi
    have hwho : p.id = who := (mem_players_of_player? hp).2
    simp [hi, hp, hwho]
  · rename_i hi
    rw [handOf]
    cases hq : t.player? i with
    | none => rfl
    | some q =>
      have hother : q.id = i := (mem_players_of_player? hq).2
      simp [hother, hi]

theorem held_modifyPlayer {f : Player → Player} (h : t.Distinct) (hid : ∀ p, (f p).id = p.id)
    (hp : t.player? who = some p) (i : PlayerId) :
    (t.modifyPlayer who f).held i = if i = who then (f p).hand.length else t.held i := by
  rw [held_eq, handOf_modifyPlayer h hid hp, held_eq]
  split <;> rfl

theorem held_toMuck (t : Table) (cards : List LaidCard) (i : PlayerId) :
    (t.toMuck cards).held i = t.held i := rfl

theorem stock_toMuck (t : Table) (cards : List LaidCard) :
    (t.toMuck cards).stock = t.stock + cards.length := by
  have hmuck : (t.toMuck cards).muck = t.muck ++ cards.map (·.card) := rfl
  have hdeck : (t.toMuck cards).deck = t.deck := rfl
  rw [stock, stock, hmuck, hdeck, List.length_append, List.length_map, Nat.add_assoc]

@[simp] theorem stock_modifyPlayer (t : Table) (who : PlayerId) (f : Player → Player) :
    (t.modifyPlayer who f).stock = t.stock := by
  rw [stock, modifyPlayer_deck, modifyPlayer_muck, stock]

/-! ### Choices -/

theorem badPosition_go_eq_none_iff {n : Nat} {positions seen : List Nat} :
    badPosition?.go n positions seen = none ↔
      positions.Nodup ∧ ∀ i ∈ positions, i < n ∧ i ∉ seen := by
  induction positions generalizing seen with
  | nil => exact iff_of_true rfl ⟨List.nodup_nil, fun _ hi ↦ absurd hi List.not_mem_nil⟩
  | cons j rest ih =>
    rw [badPosition?.go]
    split
    · rename_i hbad
      refine iff_of_false (Option.some_ne_none j) fun h ↦ ?_
      obtain ⟨hlt, hnew⟩ := h.2 j (List.mem_cons_self ..)
      exact hbad.elim (Nat.not_le.2 hlt) hnew
    · rename_i hgood
      rw [not_or, Nat.not_le] at hgood
      rw [ih, List.nodup_cons, List.forall_mem_cons]
      constructor
      · rintro ⟨hnodup, hrest⟩
        exact ⟨⟨fun hj ↦ (hrest j hj).2 (List.mem_cons_self ..), hnodup⟩, hgood,
          fun i hi ↦ ⟨(hrest i hi).1, List.not_mem_of_not_mem_cons (hrest i hi).2⟩⟩
      · rintro ⟨⟨hj, hnodup⟩, -, hrest⟩
        refine ⟨hnodup, fun i hi ↦ ⟨(hrest i hi).1, fun hseen ↦ ?_⟩⟩
        rcases List.mem_cons.1 hseen with rfl | hseen
        · exact hj hi
        · exact (hrest i hi).2 hseen

/-- **A choice of cards passes its check exactly if it is in order.** -/
theorem checkPositions_eq_ok_iff {positions : List Nat} :
    t.checkPositions who positions = .ok () ↔ who ∈ t.ids ∧ t.Holds who positions := by
  rw [checkPositions, ← isSome_player?, Holds]
  cases hp : t.player? who with
  | none => simp
  | some p =>
    have hgood : badPosition? p.hand.length positions = none ↔ _ := badPosition_go_eq_none_iff
    rw [held_of_player? hp]
    cases hbad : badPosition? p.hand.length positions with
    | none => simpa [hbad] using hgood
    | some i => simpa [hbad] using hgood

/-! ### Dealing -/

/-- So many cards have left the stock, and everybody has got so many of them. -/
structure Dealt (t : Table) (n : Nat) (gets : PlayerId → Nat) (t' : Table) : Prop where
  moves : t.Moves t'
  stock : t'.stock + n = t.stock
  held : ∀ i, t'.held i = t.held i + gets i

theorem Dealt.refl (t : Table) : t.Dealt 0 (fun _ ↦ 0) t :=
  ⟨.refl t, rfl, fun _ ↦ rfl⟩

theorem Dealt.trans {n m : Nat} {gets gets' : PlayerId → Nat} (h : t.Dealt n gets t')
    (h' : t'.Dealt m gets' t'') : t.Dealt (n + m) (fun i ↦ gets i + gets' i) t'' where
  moves := Holding.trans h.moves h'.moves
  stock := by
    have := h.stock
    have := h'.stock
    omega
  held i := by rw [h'.held, h.held, Nat.add_assoc]

theorem Dealt.congr {n n' : Nat} {gets gets' : PlayerId → Nat} (h : t.Dealt n gets t')
    (hn : n = n') (hgets : ∀ i, gets i = gets' i) : t.Dealt n' gets' t' :=
  ⟨h.moves, hn ▸ h.stock, fun i ↦ hgets i ▸ h.held i⟩

/-- **Dealing the same again and again multiplies it**, as long as the stock lasts. -/
theorem times_dealt {n k : Nat} {gets : PlayerId → Nat} {f : Table → Attempt Table Breach}
    (hf : ∀ u, t.Moves u → k ≤ u.stock → (f u).Meets (u.Dealt k gets) fun _ _ ↦ False)
    (hstock : n * k ≤ t.stock) :
    (Attempt.times n f t).Meets (t.Dealt (n * k) fun i ↦ n * gets i) fun _ _ ↦ False := by
  induction n generalizing t with
  | zero => exact .of_done ((Dealt.refl t).congr (by omega) fun i ↦ by rw [Nat.zero_mul])
  | succ n ih =>
    rw [Nat.succ_mul] at hstock
    refine (hf t (.refl t) (by omega)).andThen fun next hdealt ↦ ?_
    have hless := hdealt.stock
    have hrest := ih (fun u hu ↦ hf u (hdealt.moves.trans hu)) (by omega : n * k ≤ next.stock)
    refine hrest.mono (fun t' h ↦ (hdealt.trans h).congr ?_ fun i ↦ ?_) fun _ _ h ↦ h
    · rw [Nat.succ_mul, Nat.add_comm]
    · rw [Nat.succ_mul, Nat.add_comm]

end Table

end DealersChoice
