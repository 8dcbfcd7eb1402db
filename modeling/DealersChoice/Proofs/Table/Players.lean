import DealersChoice.Proofs.Lists
import DealersChoice.Table.Basic

/-!
# The players at a table

A table is `Table.Distinct` when nobody sits on two seats. A change of one player is then a change
of all players with that number (`Table.modifyPlayer_eq_mapPlayers`), and everything that is read
off the seats commutes with it.

Without that assumption, a change of one player keeps every view of the seats that the change keeps
(`Table.map_seats_modifyPlayer`). This is what moving cards does to chips and turns: nothing.
-/

namespace DealersChoice

namespace Table

variable {t t' : Table} {who : PlayerId} {p : Player} {β : Type}

/-- The numbers of the seated players, in seating order. -/
def ids (t : Table) : List PlayerId :=
  t.players.map (·.id)

/-- Nobody sits on two seats. -/
def Distinct (t : Table) : Prop :=
  t.ids.Nodup

/-- Changes all players. -/
def mapPlayers (t : Table) (f : Player → Player) : Table :=
  { t with seats := t.seats.map (Option.map f) }

/-! ### Views of the seats -/

/-- What is read off every player is read off every seat. -/
theorem map_players (t : Table) (g : Player → β) :
    t.players.map g = (t.seats.map (Option.map g)).filterMap id := by
  rw [players, List.filterMap_map, List.map_filterMap]
  rfl

/-- Tables whose seats agree under a view agree on what is read off the players through it. -/
theorem map_players_congr {g : Player → β}
    (h : t'.seats.map (Option.map g) = t.seats.map (Option.map g)) :
    t'.players.map g = t.players.map g := by
  rw [map_players, map_players, h]

theorem players_mapPlayers (t : Table) (f : Player → Player) :
    (t.mapPlayers f).players = t.players.map f :=
  (t.map_players f).symm

/-- Only those who are seated are changed. -/
theorem mapPlayers_congr {f g : Player → Player} (h : ∀ p ∈ t.players, f p = g p) :
    t.mapPlayers f = t.mapPlayers g := by
  have hseats : t.seats.map (Option.map f) = t.seats.map (Option.map g) := by
    refine List.map_congr_left fun seat hseat ↦ Option.map_congr fun p hp ↦ h p ?_
    exact List.mem_filterMap.2 ⟨seat, hseat, hp⟩
  rw [mapPlayers, mapPlayers, hseats]

theorem mapPlayers_mapPlayers (t : Table) (f g : Player → Player) :
    (t.mapPlayers f).mapPlayers g = t.mapPlayers fun p ↦ g (f p) := by
  simp only [mapPlayers, List.map_map]
  congr 2
  funext seat
  exact Option.map_map g f seat

@[simp] theorem mapPlayers_id (t : Table) : (t.mapPlayers fun p ↦ p) = t := by
  simp [mapPlayers]

theorem ids_mapPlayers {f : Player → Player} (hid : ∀ p, (f p).id = p.id) (t : Table) :
    (t.mapPlayers f).ids = t.ids := by
  rw [ids, players_mapPlayers, List.map_map, ids]
  exact List.map_congr_left fun p _ ↦ hid p

/-! ### One player -/

theorem mem_ids : who ∈ t.ids ↔ ∃ p ∈ t.players, p.id = who :=
  List.mem_map

theorem isSome_player? : (t.player? who).isSome ↔ who ∈ t.ids := by
  rw [player?, List.find?_isSome, mem_ids]
  simp

theorem mem_players_of_player? (h : t.player? who = some p) : p ∈ t.players ∧ p.id = who :=
  ⟨List.mem_of_find?_eq_some h, by simpa using List.find?_some h⟩

theorem Distinct.eq_of_id_eq (h : t.Distinct) {p q : Player} (hp : p ∈ t.players)
    (hq : q ∈ t.players) (hid : p.id = q.id) : p = q :=
  List.inj_on_of_nodup_map h hp hq hid

theorem Distinct.player?_eq_some_iff (h : t.Distinct) :
    t.player? who = some p ↔ p ∈ t.players ∧ p.id = who := by
  refine ⟨mem_players_of_player?, fun ⟨hp, hid⟩ ↦ ?_⟩
  obtain ⟨q, hq⟩ := Option.isSome_iff_exists.1 (isSome_player?.2 (mem_ids.2 ⟨p, hp, hid⟩))
  have hmem := mem_players_of_player? hq
  rw [hq, h.eq_of_id_eq hmem.1 hp (hmem.2.trans hid.symm)]

theorem Distinct.eq_of_player? (h : t.Distinct) (hp : t.player? who = some p) {q : Player}
    (hq : q ∈ t.players) (hid : q.id = who) : q = p :=
  Option.some.inj ((h.player?_eq_some_iff.2 ⟨hq, hid⟩).symm.trans hp)

/-! ### Changing one player -/

/-- A change of one player touches nothing but the seats. -/
theorem modifyPlayer_eq (t : Table) (who : PlayerId) (f : Player → Player) :
    t.modifyPlayer who f = { t with seats := (t.modifyPlayer who f).seats } := by
  rw [modifyPlayer]
  split <;> rfl

@[simp] theorem modifyPlayer_button (t : Table) (who : PlayerId) (f : Player → Player) :
    (t.modifyPlayer who f).button = t.button := by
  rw [modifyPlayer_eq]

@[simp] theorem modifyPlayer_zones (t : Table) (who : PlayerId) (f : Player → Player) :
    (t.modifyPlayer who f).zones = t.zones := by
  rw [modifyPlayer_eq]

@[simp] theorem modifyPlayer_deck (t : Table) (who : PlayerId) (f : Player → Player) :
    (t.modifyPlayer who f).deck = t.deck := by
  rw [modifyPlayer_eq]

@[simp] theorem modifyPlayer_muck (t : Table) (who : PlayerId) (f : Player → Player) :
    (t.modifyPlayer who f).muck = t.muck := by
  rw [modifyPlayer_eq]

@[simp] theorem seatCount_modifyPlayer (t : Table) (who : PlayerId) (f : Player → Player) :
    (t.modifyPlayer who f).seatCount = t.seatCount := by
  rw [modifyPlayer]
  split
  · exact List.length_modify ..
  · rfl

/-- **A view of the seats that a change keeps is kept by the change of one player.** -/
theorem map_seats_modifyPlayer {f : Player → Player} {g : Player → β} (h : ∀ p, g (f p) = g p)
    (t : Table) (who : PlayerId) :
    (t.modifyPlayer who f).seats.map (Option.map g) = t.seats.map (Option.map g) := by
  have hseat : ∀ seat : Option Player, (seat.map f).map g = seat.map g := by
    rintro (- | p)
    · rfl
    · exact congrArg some (h p)
  rw [modifyPlayer]
  split
  · rename_i i _
    refine List.ext_getElem? fun j ↦ ?_
    rw [List.getElem?_map, List.getElem?_map, List.getElem?_modify]
    cases t.seats[j]? with
    | none => rfl
    | some seat =>
      by_cases hij : i = j
      · simpa [hij] using hseat seat
      · simp [hij]
  · rfl

theorem ids_modifyPlayer {f : Player → Player} (h : ∀ p, (f p).id = p.id) (t : Table)
    (who : PlayerId) : (t.modifyPlayer who f).ids = t.ids :=
  map_players_congr (map_seats_modifyPlayer h t who)

theorem Distinct.modifyPlayer (h : t.Distinct) {f : Player → Player} (hf : ∀ p, (f p).id = p.id)
    (who : PlayerId) : (t.modifyPlayer who f).Distinct := by
  rwa [Distinct, ids_modifyPlayer hf]

/-- A change of somebody who is not seated changes nothing. -/
theorem modifyPlayer_eq_self (h : t.player? who = none) (f : Player → Player) :
    t.modifyPlayer who f = t := by
  have hnone : t.seats.findIdx? (fun seat ↦ seat.any (·.id == who)) = none := by
    refine List.findIdx?_eq_none_iff.2 fun seat hseat ↦ ?_
    rcases seat with - | p
    · rfl
    · have hp : p ∈ t.players := List.mem_filterMap.2 ⟨some p, hseat, rfl⟩
      simpa using List.find?_eq_none.1 h p hp
  rw [modifyPlayer, hnone]

/-- A seated player among the others, and what a change of that player does. -/
theorem exists_players_eq (h : t.player? who = some p) : ∃ before after,
    t.players = before ++ p :: after ∧
      ∀ f, (t.modifyPlayer who f).players = before ++ f p :: after := by
  rw [player?, players, List.find?_filterMap] at h
  obtain ⟨seat, hseat, rfl⟩ := Option.bind_eq_some_iff.1 h
  obtain ⟨before, after, hi, hseats, -, hmodify⟩ := exists_modify_eq hseat
  refine ⟨before.filterMap id, after.filterMap id, by simp [players, hseats], fun f ↦ ?_⟩
  have hf : (t.modifyPlayer who f).seats = before ++ some (f p) :: after := by
    rw [modifyPlayer]
    rw [show t.seats.findIdx? (fun seat ↦ seat.any (·.id == who)) = some before.length from hi]
    exact hmodify (Option.map f)
  simp [players, hf]

/-- **When nobody sits twice, changing one player changes all players with that number.** -/
theorem modifyPlayer_eq_mapPlayers (h : t.Distinct) (who : PlayerId) (f : Player → Player) :
    t.modifyPlayer who f = t.mapPlayers fun p ↦ if p.id == who then f p else p := by
  let key (seat : Option Player) : Bool := seat.any (·.id == who)
  have hseats : t.seats.Pairwise fun a b ↦ key a = true → key b = false := by
    have hplayers := List.pairwise_filterMap.1 (pairwise_key_of_nodup h who)
    refine hplayers.imp fun {a b} hab ha ↦ ?_
    rcases a with - | p
    · simp [key] at ha
    · rcases b with - | q
      · rfl
      · exact hab p rfl q rfl ha
  have hmap : (t.seats.map fun seat ↦ if key seat then seat.map f else seat) =
      t.seats.map (Option.map fun p ↦ if p.id == who then f p else p) := by
    refine List.map_congr_left fun seat _ ↦ ?_
    rcases seat with - | p
    · rfl
    · by_cases hp : p.id = who <;> simp [key, hp]
  rw [mapPlayers, ← hmap, modifyPlayer]
  split
  · rename_i i hi
    rw [modify_findIdx?_eq_map (Option.map f) hseats hi]
  · rename_i hi
    rw [map_eq_self_of_findIdx?_eq_none (Option.map f) hi]

/-- What one player gains is what the table gains. -/
theorem chips_mapPlayers_add {f : Player → Player} (gain : Player → Nat)
    (h : ∀ p ∈ t.players, (f p).stack = p.stack + gain p) :
    (t.mapPlayers f).chips = t.chips + total (t.players.map gain) := by
  rw [chips, players_mapPlayers, List.map_map, chips, ← total_map_add]
  exact congrArg total (List.map_congr_left h)

/-- What one player pays, the table loses. -/
theorem chips_modifyPlayer_add (hp : t.player? who = some p) {f : Player → Player} {n : Nat}
    (h : (f p).stack + n = p.stack) : (t.modifyPlayer who f).chips + n = t.chips := by
  obtain ⟨before, after, hplayers, hmodify⟩ := exists_players_eq hp
  rw [chips, hmodify, chips, hplayers]
  simp only [List.map_append, List.map_cons, total_append, total_cons]
  omega

/-! ### The order of a hand -/

/-- Who acts from a seat, if anybody. -/
def actor (seat : Option Player) : Option PlayerId :=
  (seat.filter (·.active)).map (·.id)

/-- The order of a hand is read off the actors of the seats. -/
theorem turnOrder_eq (t : Table) : t.turnOrder =
    (((t.seats.map actor).rotate (t.button.getD (t.seatCount - 1) + 1))).filterMap id := by
  rw [turnOrder, activeAfter, seatsAfter, rotateLeft_eq_rotate, ← List.map_rotate,
    List.filterMap_map, List.filter_filterMap, List.map_filterMap]
  exact List.filterMap_congr fun seat _ ↦ rfl

/-- Tables with the same actors have the same order. -/
theorem turnOrder_congr (hseats : t'.seats.map actor = t.seats.map actor)
    (hbutton : t'.button = t.button) : t'.turnOrder = t.turnOrder := by
  have hcount : t'.seatCount = t.seatCount := by
    simpa [seatCount] using congrArg List.length hseats
  rw [turnOrder_eq, turnOrder_eq, hseats, hbutton, hcount]

theorem mem_turnOrder : who ∈ t.turnOrder ↔ ∃ p ∈ t.players, p.id = who ∧ p.active = true := by
  rw [turnOrder, activeAfter, seatsAfter, rotateLeft_eq_rotate]
  simp only [players, List.mem_map, List.mem_filter, List.mem_filterMap, List.mem_rotate]
  exact ⟨fun ⟨p, ⟨hp, hactive⟩, hid⟩ ↦ ⟨p, hp, hid, hactive⟩,
    fun ⟨p, hp, hid, hactive⟩ ↦ ⟨p, ⟨hp, hactive⟩, hid⟩⟩

theorem turnOrder_perm (t : Table) :
    t.turnOrder.Perm ((t.players.filter (·.active)).map (·.id)) := by
  rw [turnOrder, activeAfter, seatsAfter, rotateLeft_eq_rotate]
  exact ((((List.rotate_perm _ _).filterMap _).filter _).map _)

theorem turnOrder_subset (h : who ∈ t.turnOrder) : who ∈ t.ids := by
  obtain ⟨p, hp, hid, -⟩ := mem_turnOrder.1 h
  exact mem_ids.2 ⟨p, hp, hid⟩

theorem length_turnOrder_le (t : Table) : t.turnOrder.length ≤ t.seatCount := by
  rw [(turnOrder_perm t).length_eq, List.length_map]
  exact (List.length_filter_le ..).trans (List.length_filterMap_le ..)

theorem Distinct.nodup_turnOrder (h : t.Distinct) : t.turnOrder.Nodup :=
  (turnOrder_perm t).nodup_iff.2 (h.sublist (List.filter_sublist.map _))

theorem turnOrder_mapPlayers {f : Player → Player} (hid : ∀ p, (f p).id = p.id)
    (hactive : ∀ p, (f p).active = p.active) : (t.mapPlayers f).turnOrder = t.turnOrder := by
  refine turnOrder_congr ?_ rfl
  rw [mapPlayers, List.map_map]
  refine List.map_congr_left fun seat _ ↦ ?_
  rcases seat with - | p
  · rfl
  · cases hp : p.active <;> simp [actor, Option.filter, hactive, hid, hp]

/-- Who is put out of a hand drops out of its order; the others stay as they are. -/
theorem turnOrder_mapPlayers_inactive {f : Player → Player} (hid : ∀ p, (f p).id = p.id)
    (hactive : ∀ p, (f p).active = (p.active && p.id != who)) :
    (t.mapPlayers f).turnOrder = t.turnOrder.filter (· != who) := by
  have hseats : (t.mapPlayers f).seats.map actor =
      (t.seats.map actor).map (Option.filter (· != who)) := by
    rw [mapPlayers, List.map_map, List.map_map]
    refine List.map_congr_left fun seat _ ↦ ?_
    rcases seat with - | p
    · rfl
    · by_cases hp : p.active = true <;> by_cases hne : p.id = who <;>
        simp [actor, Option.filter, hactive, hid, hp, hne]
  have hcount : (t.mapPlayers f).seatCount = t.seatCount := List.length_map ..
  rw [turnOrder_eq, turnOrder_eq, hseats, hcount, ← List.map_rotate, List.filterMap_map,
    List.filter_filterMap]
  rfl

end Table

end DealersChoice
