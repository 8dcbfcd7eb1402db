import DealersChoice.Proofs.Table.Drawing
import Mathlib.Data.List.GetD

/-!
# Passing around the table

Cards are passed by picking up one selection after another and then handing over one parcel after
another. Both are changes of all hands at once: whatever is picked up, each hand loses what its
owner has chosen (`Table.foldl_pickUp_eq`), and whatever is handed over, each hand gets the parcels
that are meant for it (`Table.foldl_handOver_eq`).

Everybody in the order gives to one neighbour and gets from one (`Table.passesTo_iff`,
`Table.passesTo_iff_giver`). Hence passing is one exchange (`Table.passAround_eq`), and it does not
matter whose cards are picked up first (`Table.passAround_at_once`). If all parcels are of one size,
everybody holds as many cards as before (`Table.passAround_held`).
-/

namespace DealersChoice

namespace Player

variable {p : Player}

@[simp] theorem cardsAt_nil : p.cardsAt [] = [] := by
  simp [cardsAt, pick]

@[simp] theorem keep_nil : p.keep [] = p := by
  simp [keep, unselected]

theorem length_cardsBut_add_length_cardsAt (p : Player) (positions : List Nat) :
    (p.cardsBut positions).length + (p.cardsAt positions).length = p.hand.length := by
  rw [← unselected_eq, ← selected_eq]
  exact p.length_keep positions

end Player

/-- The other side. -/
def Side.opposite : Side → Side
  | left => right
  | right => left

namespace Table

variable {t t' : Table} {order : List PlayerId} {side : Side} {i who : PlayerId} {m : Nat}
  {selections : List (PlayerId × List Nat)}

/-! ### Neighbours -/

/-- Who gets the cards that a player passes. -/
def receiver (order : List PlayerId) (side : Side) (who : PlayerId) : PlayerId :=
  order.getD (neighbour side order.length (order.idxOf who)) who

/-- Who passes cards to a player: who would get them if they were passed the other way. -/
def giver (order : List PlayerId) (side : Side) (who : PlayerId) : PlayerId :=
  receiver order side.opposite who

/-- By how many places passing turns the order. -/
def turnOf (side : Side) (n : Nat) : Nat :=
  match side with
  | .left => 1
  | .right => n - 1

theorem neighbour_eq {n j : Nat} (hj : j < n) : neighbour side n j = (j + turnOf side n) % n := by
  cases side with
  | left => rfl
  | right =>
    show (j + n - 1) % n = (j + (n - 1)) % n
    rw [Nat.add_sub_assoc (by omega)]

/-- The receiver stands in the order, at the neighbouring place. -/
theorem getElem?_neighbour (side : Side) (hwho : who ∈ order) :
    order[neighbour side order.length (order.idxOf who)]? = some (receiver order side who) := by
  have hlt := List.idxOf_lt_length_of_mem hwho
  have hnext : neighbour side order.length (order.idxOf who) < order.length := by
    rw [neighbour_eq hlt]
    exact Nat.mod_lt _ (Nat.zero_lt_of_lt hlt)
  rw [receiver, List.getD_eq_getElem _ _ hnext, List.getElem?_eq_getElem hnext]

theorem receiver_mem (side : Side) (hwho : who ∈ order) : receiver order side who ∈ order :=
  List.mem_of_getElem? (getElem?_neighbour side hwho)

theorem idxOf_receiver (hnodup : order.Nodup) (side : Side) (hwho : who ∈ order) :
    order.idxOf (receiver order side who) = (order.idxOf who + turnOf side order.length) %
      order.length := by
  obtain ⟨hlt, heq⟩ := List.getElem?_eq_some_iff.1 (getElem?_neighbour side hwho)
  rw [← neighbour_eq (List.idxOf_lt_length_of_mem hwho), ← heq]
  exact hnodup.idxOf_getElem _ hlt

/-- Two turns in opposite directions cancel out. -/
theorem receiver_receiver_opposite (hnodup : order.Nodup) (side : Side) (hwho : who ∈ order) :
    receiver order side (receiver order side.opposite who) = who := by
  have hmem := receiver_mem side.opposite hwho
  have hlt := List.idxOf_lt_length_of_mem hwho
  refine (List.idxOf_inj (receiver_mem side hmem)).1 ?_
  rw [idxOf_receiver hnodup side hmem, idxOf_receiver hnodup side.opposite hwho, Nat.mod_add_mod,
    Nat.add_assoc]
  have hturns : turnOf side.opposite order.length + turnOf side order.length = order.length := by
    cases side <;> simp only [Side.opposite, turnOf] <;> omega
  rw [hturns, Nat.add_mod_right, Nat.mod_eq_of_lt hlt]

/-- One player passes to another if they stand next to each other, going round the order: to the
left if the one who passes stands first, to the right if the other does. -/
def PassesTo (order : List PlayerId) (side : Side) (giver taker : PlayerId) : Prop :=
  ∃ j < order.length, match side with
    | .left => order[j]? = some giver ∧ order[(j + 1) % order.length]? = some taker
    | .right => order[j]? = some taker ∧ order[(j + 1) % order.length]? = some giver

theorem passesTo_left_iff (hnodup : order.Nodup) :
    PassesTo order .left i who ↔ i ∈ order ∧ receiver order .left i = who := by
  constructor
  · rintro ⟨j, hj, hi, hwho⟩
    have hmem := List.mem_of_getElem? hi
    obtain ⟨hlt, rfl⟩ := List.getElem?_eq_some_iff.1 hi
    have hnext := getElem?_neighbour .left hmem
    rw [hnodup.idxOf_getElem j hj] at hnext
    exact ⟨hmem, Option.some.inj (hnext.symm.trans hwho)⟩
  · rintro ⟨hi, rfl⟩
    have hlt := List.idxOf_lt_length_of_mem hi
    exact ⟨order.idxOf i, hlt, by rw [List.getElem?_eq_getElem hlt, List.getElem_idxOf hlt],
      getElem?_neighbour .left hi⟩

/-- **Everybody in the order passes to one receiver.** -/
theorem passesTo_iff (hnodup : order.Nodup) :
    PassesTo order side i who ↔ i ∈ order ∧ receiver order side i = who := by
  cases side with
  | left => exact passesTo_left_iff hnodup
  | right =>
    show PassesTo order .left who i ↔ _
    rw [passesTo_left_iff hnodup]
    constructor
    · rintro ⟨hwho, rfl⟩
      exact ⟨receiver_mem .left hwho, receiver_receiver_opposite hnodup .right hwho⟩
    · rintro ⟨hi, rfl⟩
      exact ⟨receiver_mem .right hi, receiver_receiver_opposite hnodup .left hi⟩

/-- **Everybody in the order gets from one giver.** -/
theorem passesTo_iff_giver (hnodup : order.Nodup) :
    PassesTo order side i who ↔ who ∈ order ∧ giver order side who = i := by
  cases side with
  | left =>
    rw [giver, Side.opposite, ← passesTo_iff hnodup]
    rfl
  | right =>
    rw [giver, Side.opposite, ← passesTo_iff hnodup]
    rfl

/-! ### Selections -/

/-- The positions that a player has chosen; none without a selection. -/
def chosenBy (selections : List (PlayerId × List Nat)) (who : PlayerId) : List Nat :=
  (selections.lookup who).getD []

theorem chosenBy_cons_self (who : PlayerId) (positions : List Nat) :
    chosenBy ((who, positions) :: selections) who = positions := by
  rw [chosenBy, List.lookup_cons_self]
  rfl

theorem chosenBy_cons_of_ne {positions : List Nat} (h : i ≠ who) :
    chosenBy ((who, positions) :: selections) i = chosenBy selections i := by
  rw [chosenBy, List.lookup_cons, beq_false_of_ne h]
  rfl

theorem chosenBy_of_notMem (h : who ∉ selections.map (·.1)) : chosenBy selections who = [] := by
  have hnone : selections.lookup who = none := List.lookup_eq_none_iff.2 fun s hs ↦ by
    rw [bne_iff_ne]
    rintro rfl
    exact h (List.mem_map_of_mem hs)
  rw [chosenBy, hnone]
  rfl

theorem chosenBy_of_mem (hkeys : (selections.map (·.1)).Nodup) {s : PlayerId × List Nat}
    (hs : s ∈ selections) : chosenBy selections s.1 = s.2 := by
  rw [chosenBy, lookup_eq_some_of_mem hkeys (v := s.2) hs]
  rfl

/-- It does not matter in which order the selections are listed. -/
theorem chosenBy_perm {selections' : List (PlayerId × List Nat)} (h : selections'.Perm selections)
    (hkeys : (selections.map (·.1)).Nodup) (who : PlayerId) :
    chosenBy selections' who = chosenBy selections who := by
  by_cases hwho : who ∈ selections.map (·.1)
  · obtain ⟨s, hs, rfl⟩ := List.mem_map.1 hwho
    rw [chosenBy_of_mem hkeys hs,
      chosenBy_of_mem ((h.map (·.1)).nodup_iff.2 hkeys) (h.mem_iff.2 hs)]
  · have hwho' : who ∉ selections'.map (·.1) := mt (h.map (·.1)).mem_iff.1 hwho
    rw [chosenBy_of_notMem hwho, chosenBy_of_notMem hwho']

/-- The cards that a player has chosen. -/
def chosenCards (t : Table) (selections : List (PlayerId × List Nat)) (who : PlayerId) :
    List LaidCard :=
  ((t.player? who).map (·.cardsAt (chosenBy selections who))).getD []

theorem chosenCards_of_notMem (h : who ∉ selections.map (·.1)) :
    t.chosenCards selections who = [] := by
  rw [chosenCards, chosenBy_of_notMem h]
  cases t.player? who <;> simp

theorem chosenCards_cons_of_ne {positions : List Nat} (h : i ≠ who) :
    t.chosenCards ((who, positions) :: selections) i = t.chosenCards selections i := by
  rw [chosenCards, chosenCards, chosenBy_cons_of_ne h]

/-- The choices of others do not touch it. -/
theorem chosenCards_mapPlayers {f : Player → Player} (hid : ∀ p, (f p).id = p.id)
    (hsame : ∀ p, p.id = i → f p = p) :
    (t.mapPlayers f).chosenCards selections i = t.chosenCards selections i := by
  rw [chosenCards, chosenCards, player?_mapPlayers hid]
  cases hp : t.player? i with
  | none => rfl
  | some p => rw [Option.map_some, hsame p (mem_players_of_player? hp).2]

/-! ### Picking up -/

theorem pickUp_of_notMem {moving : Table × List (PlayerId × List LaidCard)}
    {s : PlayerId × List Nat} (h : s.1 ∉ order) : pickUp order side moving s = moving := by
  have hnone : order.findIdx? (· == s.1) = none :=
    List.findIdx?_eq_none_iff.2 fun i hi ↦ beq_false_of_ne fun heq ↦ h (heq ▸ hi)
  simp only [pickUp, hnone]

/-- Picking up cards of a player in the order. -/
theorem pickUp_eq (side : Side) (hwho : who ∈ order) (hseated : who ∈ t.ids) (positions : List Nat)
    (parcels : List (PlayerId × List LaidCard)) :
    pickUp order side (t, parcels) (who, positions) = (t.modifyPlayer who (·.keep positions),
      parcels ++ [(receiver order side who, t.chosenCards [(who, positions)] who)]) := by
  obtain ⟨p, hp⟩ := Option.isSome_iff_exists.1 (isSome_player?.2 hseated)
  have hplace : order.findIdx? (· == who) = some (order.idxOf who) := by
    rw [List.findIdx?_eq_some_iff_findIdx_eq]
    exact ⟨List.idxOf_lt_length_of_mem hwho, rfl⟩
  simp only [pickUp, hplace, hp, getElem?_neighbour side hwho, (mem_players_of_player? hp).2,
    chosenCards, chosenBy_cons_self, Option.map_some, Option.getD_some, Player.selected_eq]

/-- One parcel for each selection of a player in the order. -/
def parcels (t : Table) (order : List PlayerId) (side : Side)
    (selections : List (PlayerId × List Nat)) : List (PlayerId × List LaidCard) :=
  ((selections.map (·.1)).filter (· ∈ order)).map fun who ↦
    (receiver order side who, t.chosenCards selections who)

theorem parcels_cons_of_mem {positions : List Nat} (hwho : who ∈ order)
    (hnew : who ∉ selections.map (·.1)) (side : Side) :
    t.parcels order side ((who, positions) :: selections) =
      (receiver order side who, t.chosenCards [(who, positions)] who) ::
        t.parcels order side selections := by
  have hown : t.chosenCards ((who, positions) :: selections) who =
      t.chosenCards [(who, positions)] who := by
    rw [chosenCards, chosenCards, chosenBy_cons_self, chosenBy_cons_self]
  rw [parcels, List.map_cons, List.filter_cons_of_pos (by simpa using hwho), List.map_cons, hown]
  refine congrArg (_ :: ·) (List.map_congr_left fun i hi ↦ ?_)
  have hne : i ≠ who := fun heq ↦ hnew (heq ▸ (List.mem_filter.1 hi).1)
  rw [chosenCards_cons_of_ne hne]

theorem parcels_cons_of_notMem {positions : List Nat} (hwho : who ∉ order) (side : Side) :
    t.parcels order side ((who, positions) :: selections) = t.parcels order side selections := by
  rw [parcels, List.map_cons, List.filter_cons_of_neg (by simpa using hwho)]
  refine List.map_congr_left fun i hi ↦ ?_
  have hne : i ≠ who := fun heq ↦ hwho (heq ▸ by simpa using (List.mem_filter.1 hi).2)
  rw [chosenCards_cons_of_ne hne]

/-- **Whatever is picked up, each hand in the order loses what its owner has chosen.** -/
theorem foldl_pickUp_eq (side : Side) (hd : t.Distinct) (hseated : ∀ who ∈ order, who ∈ t.ids)
    (hkeys : (selections.map (·.1)).Nodup) (moved : List (PlayerId × List LaidCard)) :
    selections.foldl (pickUp order side) (t, moved) =
      (t.mapPlayers fun p ↦ if p.id ∈ order then p.keep (chosenBy selections p.id) else p,
        moved ++ t.parcels order side selections) := by
  induction selections generalizing t moved with
  | nil => simp [chosenBy, parcels]
  | cons s selections ih =>
    obtain ⟨who, positions⟩ := s
    obtain ⟨hnew, hkeys⟩ := List.nodup_cons.1 hkeys
    rw [List.foldl_cons]
    by_cases hwho : who ∈ order
    · let kept (p : Player) : Player := if p.id == who then p.keep positions else p
      have hid : ∀ p, (kept p).id = p.id := fun p ↦ by
        simp only [kept]
        split <;> rfl
      have hids : (t.mapPlayers kept).ids = t.ids := ids_mapPlayers hid t
      have hkept : t.modifyPlayer who (·.keep positions) = t.mapPlayers kept :=
        modifyPlayer_eq_mapPlayers hd who _
      rw [pickUp_eq side hwho (hseated who hwho), hkept,
        ih (by rwa [Distinct, hids]) (fun i hi ↦ hids ▸ hseated i hi) hkeys, mapPlayers_mapPlayers,
        List.append_assoc, parcels_cons_of_mem hwho hnew]
      refine Prod.ext (mapPlayers_congr fun p _ ↦ ?_) (congrArg (moved ++ _ :: ·) ?_)
      · rw [hid]
        by_cases hp : p.id = who
        · simp [kept, hp, hwho, chosenBy_of_notMem hnew, chosenBy_cons_self]
        · simp [kept, hp, chosenBy_cons_of_ne]
      · refine List.map_congr_left fun i hi ↦ ?_
        have hne : i ≠ who := fun heq ↦ hnew (heq ▸ (List.mem_filter.1 hi).1)
        rw [chosenCards_mapPlayers hid fun p hp ↦ by simp [kept, hp, hne]]
    · rw [pickUp_of_notMem hwho, ih hd hseated hkeys, parcels_cons_of_notMem hwho]
      refine Prod.ext (mapPlayers_congr fun p _ ↦ ?_) rfl
      split
      · rename_i hp
        rw [chosenBy_cons_of_ne]
        rintro rfl
        exact hwho hp
      · rfl

/-! ### Handing over -/

/-- The cards of the parcels for a player, one parcel after another. -/
def received (parcels : List (PlayerId × List LaidCard)) (who : PlayerId) : List LaidCard :=
  (parcels.filter (·.1 == who)).flatMap (·.2)

/-- **Whatever is handed over, each hand gets the parcels that are meant for it.** -/
theorem foldl_handOver_eq (hd : t.Distinct) (parcels : List (PlayerId × List LaidCard)) :
    parcels.foldl handOver t = t.mapPlayers fun p ↦
      { p with hand := p.hand ++ received parcels p.id } := by
  induction parcels generalizing t with
  | nil => simp [received]
  | cons q parcels ih =>
    let given (p : Player) : Player :=
      if p.id == q.1 then { p with hand := p.hand ++ q.2 } else p
    have hgiven : handOver t q = t.mapPlayers given := modifyPlayer_eq_mapPlayers hd q.1 _
    have hids : (handOver t q).ids = t.ids := ids_modifyPlayer (fun _ ↦ by rfl) t q.1
    rw [List.foldl_cons, ih (by rwa [Distinct, hids]), hgiven, mapPlayers_mapPlayers]
    refine mapPlayers_congr fun p _ ↦ ?_
    by_cases hp : p.id = q.1
    · simp [given, received, hp]
    · simp [given, received, hp, Ne.symm hp]

/-- **Everybody gets one parcel**, from their giver. -/
theorem received_parcels (hnodup : order.Nodup) (side : Side)
    (hkeys : (selections.map (·.1)).Nodup) (hwho : who ∈ order) :
    received (t.parcels order side selections) who =
      t.chosenCards selections (giver order side who) := by
  have hgiver : ∀ i, (i ∈ order ∧ receiver order side i = who) ↔ giver order side who = i :=
    fun i ↦ by rw [← passesTo_iff hnodup, passesTo_iff_giver hnodup, and_iff_right hwho]
  have hone : ((selections.map (·.1)).filter (· ∈ order)).filter
      (fun i ↦ receiver order side i == who) =
        (selections.map (·.1)).filter (· == giver order side who) := by
    rw [List.filter_filter]
    refine List.filter_congr fun i _ ↦ ?_
    rw [Bool.eq_iff_iff, Bool.and_eq_true, beq_iff_eq, decide_eq_true_eq, beq_iff_eq, and_comm,
      hgiver, eq_comm]
  rw [received, parcels, List.filter_map, List.flatMap_map]
  show List.flatMap (t.chosenCards selections) (List.filter (fun i ↦ receiver order side i == who)
    _) = _
  rw [hone, List.filter_beq]
  by_cases hmem : giver order side who ∈ selections.map (·.1)
  · rw [List.count_eq_one_of_mem hkeys hmem]
    simp
  · rw [List.count_eq_zero_of_not_mem hmem, chosenCards_of_notMem hmem]
    rfl

/-- Whoever is not in the order gets nothing. -/
theorem received_parcels_of_notMem (side : Side) (hwho : who ∉ order) :
    received (t.parcels order side selections) who = [] := by
  rw [received, List.filter_eq_nil_iff.2, List.flatMap_nil]
  intro parcel hparcel heq
  obtain ⟨i, hi, rfl⟩ := List.mem_map.1 hparcel
  have horder : i ∈ order := by simpa using (List.mem_filter.1 hi).2
  exact hwho (eq_of_beq heq ▸ receiver_mem side horder)

/-! ### The exchange -/

/-- **Passing is one exchange.** -/
theorem passAround_eq (hd : t.Distinct) (hnodup : order.Nodup) (htwo : 2 ≤ order.length)
    (hseated : ∀ who ∈ order, who ∈ t.ids) (hkeys : (selections.map (·.1)).Nodup) (side : Side) :
    t.passAround order selections side = t.mapPlayers fun p ↦
      if p.id ∈ order then
        { p with hand := p.cardsBut (chosenBy selections p.id) ++
            t.chosenCards selections (giver order side p.id) }
      else p := by
  rw [passAround, if_neg (Nat.not_lt.2 htwo), foldl_pickUp_eq side hd hseated hkeys, List.nil_append]
  dsimp only
  rw [foldl_handOver_eq, mapPlayers_mapPlayers]
  · refine mapPlayers_congr fun p _ ↦ ?_
    by_cases hp : p.id ∈ order
    · simp only [if_pos hp]
      rw [Player.keep, Player.unselected_eq, received_parcels hnodup side hkeys hp]
    · simp only [if_neg hp]
      rw [received_parcels_of_notMem side hp, List.append_nil]
  · rw [Distinct, ids_mapPlayers fun p ↦ by split <;> rfl]
    exact hd

/-- Whoever passes, only the seats change. -/
theorem passAround_eq_seats (t : Table) (order : List PlayerId)
    (selections : List (PlayerId × List Nat)) (side : Side) :
    t.passAround order selections side =
      { t with seats := (t.passAround order selections side).seats } := by
  let Seats (t' : Table) : Prop := t' = { t with seats := t'.seats }
  have hmodify : ∀ {t' : Table}, Seats t' → ∀ who f, Seats (t'.modifyPlayer who f) := by
    intro t' ht' who f
    rw [modifyPlayer_eq, ht']
  have hpick : Seats (selections.foldl (pickUp order side) (t, [])).1 := by
    refine List.foldlRecOn (motive := fun m : Table × List (PlayerId × List LaidCard) ↦ Seats m.1)
      _ _ rfl fun m hm selection _ ↦ ?_
    rw [pickUp]
    split
    · split
      · exact hmodify hm _ _
      · exact hm
    · exact hm
  rw [passAround]
  split
  · rfl
  · exact List.foldlRecOn (motive := Seats) _ _ hpick fun t' ht' parcel _ ↦ hmodify ht' _ _

/-- Passing takes nothing from the stock. -/
theorem stock_passAround (t : Table) (order : List PlayerId)
    (selections : List (PlayerId × List Nat)) (side : Side) :
    (t.passAround order selections side).stock = t.stock := by
  rw [passAround_eq_seats]
  rfl

/-- **Who passes as many cards as they get holds as many as before**: if everybody in the order
passes so many cards, nobody's hand changes in size. -/
theorem passAround_held (side : Side) (hd : t.Distinct) (hnodup : order.Nodup)
    (hseated : ∀ who ∈ order, who ∈ t.ids) {selections : List (PlayerId × List Nat)}
    (horder : selections.map (·.1) = order)
    (hvalid : ∀ s ∈ selections, t.Holds s.1 s.2 ∧ s.2.length = m) (i : PlayerId) :
    (t.passAround order selections side).held i = t.held i := by
  by_cases hfew : order.length < 2
  · rw [passAround, if_pos hfew]
  have hkeys : (selections.map (·.1)).Nodup := horder ▸ hnodup
  -- everybody has chosen so many cards
  have hchosen : ∀ who ∈ order, (t.chosenCards selections who).length = m := by
    intro who hwho
    rw [← horder] at hwho
    obtain ⟨s, hs, rfl⟩ := List.mem_map.1 hwho
    obtain ⟨⟨hpositions, hlt⟩, rfl⟩ := hvalid s hs
    obtain ⟨p, hp⟩ := Option.isSome_iff_exists.1
      (isSome_player?.2 (hseated s.1 (horder ▸ hwho)))
    rw [held_of_player? hp] at hlt
    rw [chosenCards, hp, chosenBy_of_mem hkeys hs, Option.map_some, Option.getD_some,
      ← Player.selected_eq, Player.length_selected hpositions hlt]
  rw [passAround_eq hd hnodup (Nat.not_lt.1 hfew) hseated hkeys, held, held,
    player?_mapPlayers fun p ↦ by split <;> rfl]
  cases hp : t.player? i with
  | none => rfl
  | some p =>
    have hpid : p.id = i := (mem_players_of_player? hp).2
    simp only [Option.map_some, Option.getD_some, hpid]
    split
    · rename_i hi
      have hgets := hchosen _ (receiver_mem side.opposite hi)
      have hgives := hchosen i hi
      rw [chosenCards, hp, Option.map_some, Option.getD_some] at hgives
      rw [List.length_append, giver, hgets, ← hgives]
      exact p.length_cardsBut_add_length_cardsAt _
    · rfl

/-! ### One simultaneous exchange -/

/-- Cards have been passed at once. -/
structure PassedAround (t : Table) (order : List PlayerId) (selections : List (PlayerId × List Nat))
    (side : Side) (t' : Table) : Prop where
  /-- Everybody in the order keeps what they have not chosen, and after it lies what the one has
  chosen who passes to them, as it lay there. -/
  hands : ∀ {who whom : PlayerId} {p q : Player}, PassesTo order side who whom →
    t.player? who = some p → t.player? whom = some q → t'.handOf whom =
      q.cardsBut (chosenBy selections whom) ++ p.cardsAt (chosenBy selections who)
  /-- Nobody else's hand has changed. -/
  others : ∀ who, who ∉ order → t'.handOf who = t.handOf who
  /-- Nothing but the hands has changed. -/
  rest : t' = t.mapPlayers fun p ↦ { p with hand := t'.handOf p.id }

theorem passedAround (hd : t.Distinct) (hnodup : order.Nodup) (htwo : 2 ≤ order.length)
    (hseated : ∀ who ∈ order, who ∈ t.ids) (hkeys : (selections.map (·.1)).Nodup) (side : Side) :
    t.PassedAround order selections side (t.passAround order selections side) := by
  have heq := passAround_eq hd hnodup htwo hseated hkeys side
  have hhand : ∀ who p, t.player? who = some p →
      (t.passAround order selections side).handOf who =
        if who ∈ order then p.cardsBut (chosenBy selections who) ++
          t.chosenCards selections (giver order side who) else p.hand := by
    intro who p hp
    rw [heq, handOf, player?_mapPlayers (fun p ↦ by split <;> rfl), hp]
    simp only [Option.map_some, Option.getD_some, (mem_players_of_player? hp).2]
    split <;> rfl
  refine ⟨fun {who whom p q} hpasses hp hq ↦ ?_, fun who hwho ↦ ?_, ?_⟩
  · obtain ⟨hwhom, hgiver⟩ := (passesTo_iff_giver hnodup).1 hpasses
    rw [hhand whom q hq, if_pos hwhom, hgiver, chosenCards, hp]
    rfl
  · cases hp : t.player? who with
    | none =>
      rw [heq, handOf, player?_mapPlayers (fun p ↦ by split <;> rfl), handOf, hp]
      rfl
    | some p => rw [hhand who p hp, if_neg hwho, handOf_of_player? hp]
  · conv_lhs => rw [heq]
    refine mapPlayers_congr fun p hp ↦ ?_
    rw [hhand p.id p (hd.player?_eq_some_iff.2 ⟨hp, rfl⟩)]
    split <;> rfl

/-- **Passing is one simultaneous exchange.** Everybody in the order gets from one neighbour and
gives to one. Everybody keeps the cards that they have not chosen, in their order, and gets after
them those that the one who passes to them has chosen, in the order and the way in which they lay
there; nobody else's hand changes, and nothing else at the table does. It makes no difference in
which order the selections are listed. -/
theorem passAround_at_once (hd : t.Distinct) (hnodup : order.Nodup) (htwo : 2 ≤ order.length)
    (hseated : ∀ who ∈ order, who ∈ t.ids) (hkeys : (selections.map (·.1)).Nodup) (side : Side) :
    (∀ whom ∈ order, ∃! who, PassesTo order side who whom) ∧
    (∀ who ∈ order, ∃! whom, PassesTo order side who whom) ∧
    t.PassedAround order selections side (t.passAround order selections side) ∧
    ∀ selections', selections'.Perm selections →
      t.passAround order selections' side = t.passAround order selections side := by
  refine ⟨fun whom hwhom ↦ ⟨giver order side whom, ?_, fun who h ↦ ?_⟩,
    fun who hwho ↦ ⟨receiver order side who, ?_, fun whom h ↦ ?_⟩,
    passedAround hd hnodup htwo hseated hkeys side, fun selections' hperm ↦ ?_⟩
  · exact (passesTo_iff_giver hnodup).2 ⟨hwhom, rfl⟩
  · exact ((passesTo_iff_giver hnodup).1 h).2.symm
  · exact (passesTo_iff hnodup).2 ⟨hwho, rfl⟩
  · exact ((passesTo_iff hnodup).1 h).2.symm
  · have hchosen := chosenBy_perm hperm hkeys
    rw [passAround_eq hd hnodup htwo hseated hkeys,
      passAround_eq hd hnodup htwo hseated ((hperm.map (·.1)).nodup_iff.2 hkeys)]
    simp only [chosenCards, hchosen]

/-- Three players with cards, and an empty seat among them. -/
def threeHolders : Table :=
  { seats :=
      [some { id := 1, name := "Ann", stack := 100, seat := 0
              hand := [⟨⟨.clubs, .two⟩, .down⟩, ⟨⟨.hearts, .king⟩, .up⟩] },
       none,
       some { id := 2, name := "Bob", stack := 100, seat := 2, hand := [⟨⟨.clubs, .five⟩, .down⟩] },
       some { id := 3, name := "Cid", stack := 100, seat := 3
              hand := [⟨⟨.spades, .nine⟩, .up⟩, ⟨⟨.spades, .ten⟩, .down⟩] }]
    zones := []
    deck := Deck.ofSeed (.ofName .standard) 0 }

/-- Passing to the right, Bob has chosen no card and gets Cid's nine, which lies open. -/
theorem threeHolders_pass :
    let t := threeHolders.passAround [1, 2, 3] [(3, [0]), (1, [1])] .right
    (∃! who, PassesTo [1, 2, 3] .right who 2) ∧
      threeHolders.PassedAround [1, 2, 3] [(3, [0]), (1, [1])] .right t ∧
      threeHolders.passAround [1, 2, 3] [(1, [1]), (3, [0])] .right = t ∧
      t.handOf 2 = [⟨⟨.clubs, .five⟩, .down⟩, ⟨⟨.spades, .nine⟩, .up⟩] := by
  have hd : threeHolders.Distinct := by
    unfold Distinct
    decide
  have hnodup : ([1, 2, 3] : List PlayerId).Nodup := by decide
  have hkeys : (([(3, [0]), (1, [1])] : List (PlayerId × List Nat)).map (·.1)).Nodup := by decide
  obtain ⟨hgiver, -, hpassed, horder⟩ :=
    passAround_at_once hd hnodup (by decide) (by decide) hkeys .right
  have hpasses : PassesTo [1, 2, 3] .right 3 2 := ⟨1, by decide, rfl, rfl⟩
  exact ⟨hgiver 2 (by decide), hpassed, horder _ (List.Perm.swap ..), hpassed.hands hpasses rfl rfl⟩

end Table

end DealersChoice
