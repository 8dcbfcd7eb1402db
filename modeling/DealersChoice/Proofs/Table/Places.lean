import DealersChoice.Proofs.Table.Seating

/-!
# Who sits where

The *places* of a table say which player sits on which seat. They are all that decides whether
somebody can sit down (`Table.sit_ok`), and nothing but an arrival, or the freeing of seats before a
hand, changes them. Whoever leaves keeps the seat until then (`Table.Vacates.freed`).
-/

namespace DealersChoice

namespace Table

variable {t t' : Table} {held : List Card} {who : PlayerId} {p : Player} {seat : Nat}

/-- Who sits on which seat. -/
def places (t : Table) : List (Option PlayerId) :=
  t.seats.map (Option.map (·.id))

theorem ids_eq (t : Table) : t.ids = t.places.filterMap id := by
  rw [ids, map_players]
  rfl

theorem places_eq_some_iff :
    t.places[seat]? = some (some who) ↔ ∃ p, t.seats[seat]? = some (some p) ∧ p.id = who := by
  rw [places, List.getElem?_map]
  rcases t.seats[seat]? with - | - | p <;> simp

theorem places_eq_none_iff : t.places[seat]? = some none ↔ t.seats[seat]? = some none := by
  rw [places, List.getElem?_map]
  rcases t.seats[seat]? with - | - | p <;> simp

/-- Nobody sits on two seats. -/
theorem Distinct.eq_seat (h : t.Distinct) {seat seat' : Nat} {p q : Player}
    (hp : t.seats[seat]? = some (some p)) (hq : t.seats[seat']? = some (some q))
    (hid : p.id = q.id) : seat = seat' := by
  have hplaces : (t.places.filterMap id).Nodup := by rwa [← ids_eq]
  have hone : t.places.Pairwise fun a b ↦ ∀ i, a = some i → ∀ j, b = some j → i ≠ j :=
    List.pairwise_filterMap.1 hplaces
  have hseat := places_eq_some_iff.2 ⟨p, hp, rfl⟩
  have hseat' := places_eq_some_iff.2 ⟨q, hq, hid.symm⟩
  obtain ⟨hlt, hget⟩ := List.getElem?_eq_some_iff.1 hseat
  obtain ⟨hlt', hget'⟩ := List.getElem?_eq_some_iff.1 hseat'
  rcases Nat.lt_trichotomy seat seat' with hless | heq | hmore
  · exact absurd rfl (List.pairwise_iff_getElem.1 hone _ _ hlt hlt' hless _ hget _ hget')
  · exact heq
  · exact absurd rfl (List.pairwise_iff_getElem.1 hone _ _ hlt' hlt hmore _ hget' _ hget)

/-! ### What changes no place -/

theorem Holding.places (h : t.Holding held t') : t'.places = t.places := by
  refine h.map_seats ?_
  rintro (- | p)
  · rfl
  · rfl

theorem places_modifyPlayer {f : Player → Player} (hf : ∀ p, (f p).id = p.id) (t : Table)
    (who : PlayerId) : (t.modifyPlayer who f).places = t.places :=
  map_seats_modifyPlayer hf t who

/-! ### Arrivals -/

/-- **Sitting down fills one empty seat.** -/
theorem seats_sit (h : t.sit p = .ok t') :
    t.seats[p.seat]? = some none ∧ t'.seats = t.seats.set p.seat (some p) := by
  rw [sit] at h
  split at h
  · contradiction
  · split at h
    · rename_i hseat
      rw [← Except.ok.inj h]
      exact ⟨hseat, rfl⟩
    · contradiction

theorem places_sit (h : t.sit p = .ok t') :
    t.places[p.seat]? = some none ∧ t'.places = t.places.set p.seat (some p.id) := by
  obtain ⟨hempty, hseats⟩ := seats_sit h
  refine ⟨places_eq_none_iff.2 hempty, ?_⟩
  rw [places, hseats, places]
  exact List.map_set ..

/-- **Whoever is new can sit down on an empty seat.** -/
theorem sit_ok (hnew : p.id ∉ t.ids) (hempty : t.places[p.seat]? = some none) :
    ∃ t', t.sit p = .ok t' := by
  have hnone : ¬(t.player? p.id).isSome = true := fun hsome ↦ hnew (isSome_player?.1 hsome)
  rw [sit, if_neg hnone, places_eq_none_iff.1 hempty]
  exact ⟨_, rfl⟩

/-- Who is seated keeps the seat when somebody else sits down. -/
theorem places_sit_of_some (h : t.sit p = .ok t') (hseat : t.places[seat]? = some (some who)) :
    t'.places[seat]? = some (some who) := by
  obtain ⟨hempty, hplaces⟩ := places_sit h
  have hne : p.seat ≠ seat := by
    rintro rfl
    exact absurd (Option.some.inj (hempty.symm.trans hseat)) (Option.some_ne_none who).symm
  rw [hplaces, List.getElem?_set_ne hne, hseat]

/-- A seat that is empty afterwards was empty before. -/
theorem empty_of_sit (h : t.sit p = .ok t') (hseat : t'.places[seat]? = some none) :
    t.places[seat]? = some none := by
  rw [(places_sit h).2, List.getElem?_set] at hseat
  split at hseat
  · split at hseat <;> simp at hseat
  · exact hseat

/-! ### Seats that become free -/

/-- The seat is empty, or it is the seat of somebody who has left or is about to leave. -/
def Vacates (t : Table) (leaving : List PlayerId) (seat : Nat) : Prop :=
  ∃ entry, t.seats[seat]? = some entry ∧
    ∀ p, entry = some p → p.hasLeft = true ∨ p.id ∈ leaving

/-- Whoever leaves is marked as gone. -/
theorem Vacates.dismiss {leaving : List PlayerId} (h : t.Vacates (who :: leaving) seat)
    (hd : t.Distinct) : (t.dismiss who).Vacates leaving seat := by
  obtain ⟨entry, hseat, hleaves⟩ := h
  have hone : (t.dismiss who).seats[seat]? =
      some (entry.map fun p ↦ if p.id == who then p.leave else p) := by
    rw [Table.dismiss, modifyPlayer_eq_mapPlayers hd]
    show (t.seats.map _)[seat]? = _
    rw [List.getElem?_map, hseat]
    rfl
  refine ⟨_, hone, fun p hp ↦ ?_⟩
  obtain ⟨q, hq, rfl⟩ := Option.map_eq_some_iff.1 hp
  split
  · exact Or.inl rfl
  · rename_i hstays
    refine (hleaves q hq).imp_right fun hmem ↦ (List.mem_cons.1 hmem).resolve_left ?_
    simpa using hstays

theorem Vacates.sit {leaving : List PlayerId} (h : t.Vacates leaving seat)
    (hsit : t.sit p = .ok t') (hne : p.seat ≠ seat) : t'.Vacates leaving seat := by
  rwa [Vacates, (seats_sit hsit).2, List.getElem?_set_ne hne]

/-- **The seats of those who have left are free when a hand starts.** -/
theorem Vacates.freed (h : t.Vacates [] seat) : t.prepare.moveButton.places[seat]? = some none := by
  obtain ⟨entry, hseat, hleaves⟩ := h
  have hplaces : t.prepare.moveButton.places = t.freeSeats.places := by
    show (t.freeSeats.seats.map _).map _ = t.freeSeats.seats.map _
    rw [List.map_map]
    refine List.map_congr_left fun entry _ ↦ ?_
    cases entry <;> rfl
  rw [hplaces, places, freeSeats, List.map_map, List.getElem?_map, hseat]
  rcases entry with - | p
  · rfl
  · have hleft : p.hasLeft = true := (hleaves p rfl).resolve_right List.not_mem_nil
    simp [hleft]

end Table

end DealersChoice
