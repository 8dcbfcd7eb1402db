import DealersChoice.Proofs.Table.Hands

/-!
# Every operation on cards moves them

Dealing, drawing, discarding, exposing, mucking and passing, one after the other. All of them are
`Table.Moves`, as long as whoever gets a card is seated.
-/

namespace DealersChoice

namespace Table

variable {t t' : Table} {who : PlayerId} {p : Player} {card : Card} {step : String}

/-- Cards have been moved, and if the operation has stopped, it has run out of them. -/
abbrev MovesCards (t : Table) (a : Attempt Table Breach) : Prop :=
  a.Meets t.Moves fun t' e ↦ t.Moves t' ∧ ∃ step, e = .noCards step

/-! ### Dealing -/

/-- Drawing a card for something moves it, if whatever is done with the card does. -/
theorem withCard_moves {f : Card → Table → Table}
    (hf : ∀ card next, t.Holding [card] next → t.Moves (f card next)) :
    t.MovesCards (t.withCard step f) := by
  rw [withCard]
  split
  · rename_i card next hnext
    exact Attempt.Meets.of_done (hf card next (holding_of_nextCard? hnext).1)
  · exact Attempt.Meets.of_stop ⟨Moves.refl t, step, rfl⟩

/-- **A card that is dealt to a seated player is in their hand.** -/
theorem dealTo_moves (hwho : who ∈ t.ids) (step : String) (facing : Facing) :
    t.MovesCards (dealTo step facing who t) := by
  refine withCard_moves fun card next h ↦ ?_
  obtain ⟨p, hp⟩ := Option.isSome_iff_exists.1 (isSome_player?.2 (h.ids ▸ hwho))
  refine h.modifyPlayer hp (f := (·.give card facing)) (fun _ ↦ rfl) fun c ↦ ?_
  simp [Player.give, Player.cards]

/-- **A card can be dealt as long as there is one.** -/
theorem dealTo_dealt (hd : t.Distinct) (hwho : who ∈ t.ids) (hstock : 0 < t.stock) (step : String)
    (facing : Facing) : (dealTo step facing who t).Meets
      (t.Dealt 1 fun i ↦ if i = who then 1 else 0) fun _ _ ↦ False := by
  have hmoves := dealTo_moves hwho step facing
  rw [dealTo, withCard] at hmoves ⊢
  cases hnext : t.nextCard? with
  | none =>
    have := stock_of_nextCard?_eq_none hnext
    omega
  | some drawn =>
    obtain ⟨card, next⟩ := drawn
    rw [hnext] at hmoves
    obtain ⟨hheld, hless, hseats, -⟩ := holding_of_nextCard? hnext
    obtain ⟨p, hp⟩ := Option.isSome_iff_exists.1 (isSome_player?.2 hwho)
    have hp' : next.player? who = some p := by
      rwa [player?, players, hseats]
    have hd' : next.Distinct := by
      rwa [Distinct, hheld.ids]
    refine .of_done ⟨hmoves.of_none rfl, ?_, fun i ↦ ?_⟩
    · rw [stock_modifyPlayer, hless]
    · have hsame : next.held i = t.held i := held_congr (by rw [hseats]) i
      rw [held_modifyPlayer (f := (·.give card facing)) hd' (fun _ ↦ rfl) hp', hsame]
      split
      · rename_i hi
        rw [hi, held_of_player? hp, Player.give, List.length_append, List.length_singleton]
      · rfl

/-- One card to everybody in an order. -/
theorem forEach_dealTo_dealt {order : List PlayerId} (hd : t.Distinct)
    (horder : ∀ who ∈ order, who ∈ t.ids) (hstock : order.length ≤ t.stock) (step : String)
    (facing : Facing) : (Attempt.forEach order (dealTo step facing) t).Meets
      (t.Dealt order.length order.count) fun _ _ ↦ False := by
  induction order generalizing t with
  | nil => exact .of_done (.refl t)
  | cons who order ih =>
    rw [List.length_cons] at hstock
    refine (dealTo_dealt hd (horder who (List.mem_cons_self ..)) (by omega) step facing).andThen
      fun next hdealt ↦ ?_
    have hless := hdealt.stock
    have hids : next.ids = t.ids := hdealt.moves.ids
    have horder' : ∀ i ∈ order, i ∈ next.ids := fun i hi ↦
      hids ▸ horder i (List.mem_cons_of_mem who hi)
    refine (ih (by rwa [Distinct, hids]) horder' (by omega)).mono (fun t' h ↦ ?_) fun _ _ h ↦ h
    refine (hdealt.trans h).congr (Nat.add_comm ..) fun i ↦ ?_
    by_cases hi : i = who
    · rw [if_pos hi, hi, List.count_cons_self, Nat.add_comm]
    · rw [if_neg hi, List.count_cons_of_ne (Ne.symm hi), Nat.zero_add]

/-- Putting a card on a zone touches nothing but the zones. -/
theorem putOnZone_eq (t : Table) (zone : String) (d : LaidCard) :
    t.putOnZone zone d = { t with zones := (t.putOnZone zone d).zones } := by
  rw [putOnZone]
  split <;> rfl

/-- What is on the zones then is a matter of what was on them. -/
theorem putOnZone_zones (h : t'.zones = t.zones) (zone : String) (d : LaidCard) :
    (t'.putOnZone zone d).zones = (t.putOnZone zone d).zones := by
  rw [putOnZone, putOnZone, h]
  cases t.zones.findIdx? (·.name == zone) with
  | none => rfl
  | some i => rfl

/-- Whether the cards of a zone are among those of the given zones, or of all of them. -/
def readsZone (zones : Option (List String)) (zone : String) : Bool :=
  zones.all (·.contains zone)

theorem board_eq (t : Table) (zones : Option (List String)) : t.board zones =
    (t.zones.filter (readsZone zones ·.name)).flatMap fun z ↦ z.cards.map (·.card) := by
  cases zones with
  | none => simp [board, readsZone]
  | some names => rfl

theorem board_congr (h : t'.zones = t.zones) (zones : Option (List String)) :
    t'.board zones = t.board zones := by
  rw [board_eq, h, ← board_eq]

/-- A card on a zone is one more card on the board, for those who read that zone. -/
theorem board_putOnZone (t : Table) (zones : Option (List String)) (zone : String) (d : LaidCard) :
    ((t.putOnZone zone d).board zones).Perm
      (t.board zones ++ if readsZone zones zone then [d.card] else []) := by
  rw [board_eq, board_eq, putOnZone]
  cases hz : t.zones.find? (·.name == zone) with
  | none =>
    have hnone : t.zones.findIdx? (·.name == zone) = none :=
      List.findIdx?_eq_none_iff.2 fun z hmem ↦ by simpa using List.find?_eq_none.1 hz z hmem
    simp only [hnone, List.filter_append, List.flatMap_append, List.filter_cons, List.filter_nil]
    split <;> simp
  | some z =>
    obtain ⟨before, after, hi, hzones, -, hmodify⟩ := exists_modify_eq hz
    have hname : z.name = zone := by simpa using List.find?_some hz
    simp only [hi, hmodify]
    simp only [hzones, List.filter_append, List.flatMap_append, List.filter_cons, hname]
    -- the card comes before those of later zones
    refine List.perm_iff_count.2 fun card ↦ ?_
    split
    · simp only [List.flatMap_cons, List.map_append, List.map_cons, List.map_nil, List.count_append]
      omega
    · simp

/-- What is held can go to the board. -/
theorem Holding.putOnZone {d : LaidCard} (h : t.Holding [d.card] t') (zone : String) :
    t.Moves (t'.putOnZone zone d) := by
  have heq := putOnZone_eq t' zone d
  have hseats : (t'.putOnZone zone d).seats = t'.seats := by rw [heq]
  have hbutton : (t'.putOnZone zone d).button = t'.button := by rw [heq]
  have hdeck : (t'.putOnZone zone d).deck = t'.deck := by rw [heq]
  have hmuck : (t'.putOnZone zone d).muck = t'.muck := by rw [heq]
  have hhand : (t'.putOnZone zone d).handCards = t'.handCards := by
    simp [handCards, players, hseats]
  refine ⟨by rw [hseats, h.seats], hbutton.trans h.button, by rw [hdeck, h.composition],
    fun c ↦ ?_⟩
  have hbefore := h.cards c
  rw [count_inPlay] at hbefore
  rw [count_inPlay, hhand, hdeck, hmuck, (board_putOnZone t' none zone d).count_eq, readsZone,
    Option.all_none, if_pos rfl, List.count_append, List.count_nil]
  omega

theorem dealToZone_moves (t : Table) (step zone : String) (facing : Facing) :
    t.MovesCards (dealToZone step zone facing t) :=
  withCard_moves fun card _ h ↦ h.putOnZone (d := { card := card, facing := facing }) zone

/-- A card for the board is a card that nobody gets. -/
theorem dealToZone_dealt (hstock : 0 < t.stock) (step zone : String) (facing : Facing) :
    (dealToZone step zone facing t).Meets (t.Dealt 1 fun _ ↦ 0) fun _ _ ↦ False := by
  have hmoves := dealToZone_moves t step zone facing
  rw [dealToZone, withCard] at hmoves ⊢
  cases hnext : t.nextCard? with
  | none =>
    have := stock_of_nextCard?_eq_none hnext
    omega
  | some drawn =>
    obtain ⟨card, next⟩ := drawn
    rw [hnext] at hmoves
    obtain ⟨-, hless, hseats, -⟩ := holding_of_nextCard? hnext
    have heq := putOnZone_eq next zone { card := card, facing := facing }
    refine .of_done ⟨hmoves.of_none rfl, ?_, fun i ↦ held_congr ?_ i⟩
    · rw [heq]
      exact hless
    · rw [heq, hseats]

theorem MovesCards.state {a : Attempt Table Breach} (h : t.MovesCards a) : t.Moves a.state :=
  Attempt.Meets.state (h.mono (fun _ h' ↦ h') fun _ _ h' ↦ h'.1)

/-- What moves cards after others have been moved moves cards. -/
theorem Moves.then {a : Attempt Table Breach} (h : t.Moves t') (ha : t'.MovesCards a) :
    t.MovesCards a :=
  ha.mono (fun _ h' ↦ h.trans h') fun _ _ ⟨h', herror⟩ ↦ ⟨h.trans h', herror⟩

/-- **Dealing a step moves cards**, also when they run out on the way. -/
theorem dealAll_moves {order : List PlayerId} (horder : ∀ who ∈ order, who ∈ t.ids)
    (step : String) (deal : Deal) : t.MovesCards (t.dealAll step deal order) := by
  refine Attempt.Meets.forEach (Moves.refl t) fun batch _ t' ht' ↦ ?_
  rw [dealBatch]
  split
  · refine Attempt.Meets.times _ ht' fun u hu ↦ Attempt.Meets.forEach hu fun who hwho v hv ↦ ?_
    exact hv.then (dealTo_moves (hv.ids ▸ horder who hwho) step batch.facing)
  · exact Attempt.Meets.times _ ht' fun u hu ↦ hu.then (dealToZone_moves u step _ batch.facing)

/-- What one round of a deal takes from the stock, with so many players in the hand. -/
def roundCost (deal : Deal) (players : Nat) : Nat :=
  match deal.target with
  | .hands => players
  | .board => 1

/-- What a player gets in one round of a deal. -/
def roundShare (deal : Deal) (order : List PlayerId) (who : PlayerId) : Nat :=
  match deal.target with
  | .hands => order.count who
  | .board => 0

/-- Everybody in an order without repetition gets the same. -/
theorem exists_roundShare_eq {order : List PlayerId} (hnodup : order.Nodup) (deal : Deal) :
    ∃ share, ∀ who ∈ order, roundShare deal order who = share := by
  simp only [roundShare]
  cases deal.target with
  | hands => exact ⟨1, fun who hwho ↦ List.count_eq_one_of_mem hnodup hwho⟩
  | board => exact ⟨0, fun _ _ ↦ rfl⟩

theorem dealBatch_dealt {order : List PlayerId} (hd : t.Distinct)
    (horder : ∀ who ∈ order, who ∈ t.ids) (step : String) (deal : Deal) (batch : Batch)
    (hstock : batch.count * roundCost deal order.length ≤ t.stock) :
    (dealBatch step deal order batch t).Meets (t.Dealt (batch.count * roundCost deal order.length)
      fun i ↦ batch.count * roundShare deal order i) fun _ _ ↦ False := by
  rw [dealBatch]
  rw [roundCost] at hstock ⊢
  simp only [roundShare]
  cases htarget : deal.target with
  | hands =>
    rw [htarget] at hstock
    refine times_dealt (fun u hu henough ↦ ?_) hstock
    refine forEach_dealTo_dealt (by rwa [Distinct, hu.ids]) (fun who hwho ↦ ?_) henough step _
    exact hu.ids ▸ horder who hwho
  | board =>
    rw [htarget] at hstock
    exact times_dealt (fun u _ henough ↦ dealToZone_dealt henough step _ _) hstock

theorem forEach_dealBatch_dealt {order : List PlayerId} (hd : t.Distinct)
    (horder : ∀ who ∈ order, who ∈ t.ids) (step : String) (deal : Deal) (batches : List Batch)
    (hstock : total (batches.map (·.count)) * roundCost deal order.length ≤ t.stock) :
    (Attempt.forEach batches (dealBatch step deal order) t).Meets
      (t.Dealt (total (batches.map (·.count)) * roundCost deal order.length) fun i ↦
        total (batches.map (·.count)) * roundShare deal order i) fun _ _ ↦ False := by
  induction batches generalizing t with
  | nil => exact .of_done ((Dealt.refl t).congr (Nat.zero_mul _).symm fun _ ↦ (Nat.zero_mul _).symm)
  | cons batch batches ih =>
    rw [List.map_cons, total_cons, Nat.add_mul] at hstock ⊢
    refine (dealBatch_dealt hd horder step deal batch (by omega)).andThen fun next hdealt ↦ ?_
    have hless := hdealt.stock
    have hids : next.ids = t.ids := hdealt.moves.ids
    refine (ih (by rwa [Distinct, hids]) (fun who hwho ↦ hids ▸ horder who hwho)
      (by omega)).mono (fun t' h ↦ ?_) fun _ _ h ↦ h
    exact (hdealt.trans h).congr rfl fun i ↦ (Nat.add_mul ..).symm

/-- **A step of dealing gives everybody their share**, if the stock has enough cards for all. -/
theorem dealAll_dealt {order : List PlayerId} (hd : t.Distinct)
    (horder : ∀ who ∈ order, who ∈ t.ids) (step : String) (deal : Deal)
    (hstock : deal.size * roundCost deal order.length ≤ t.stock) :
    (t.dealAll step deal order).Meets (t.Dealt (deal.size * roundCost deal order.length)
      fun i ↦ deal.size * roundShare deal order i) fun _ _ ↦ False :=
  forEach_dealBatch_dealt hd horder step deal deal.batches hstock

/-! ### Cards of one player -/

/-- Taking cards out of a hand holds them. -/
theorem holding_keep (hp : t.player? who = some p) (positions : List Nat) :
    t.Holding ((p.selected positions).map (·.card)) (t.modifyPlayer who (·.keep positions)) :=
  (Moves.refl t).modifyPlayer hp (f := (·.keep positions)) (fun _ ↦ rfl) fun c ↦
    count_selected p positions c

/-- **Discarding moves cards.** -/
theorem giveUp_moves (t : Table) (who : PlayerId) (positions : List Nat) :
    t.Moves (t.giveUp who positions) := by
  rw [giveUp]
  split
  · exact Moves.refl t
  · rename_i p hp
    exact (holding_keep hp positions).toMuck

/-- A player who gives cards up holds so many less; nobody else does. -/
theorem giveUp_held (hd : t.Distinct) {positions : List Nat} (h : t.Holds who positions)
    (i : PlayerId) : (t.giveUp who positions).held i + (if i = who then positions.length else 0) =
      t.held i := by
  obtain ⟨hnodup, hlt⟩ := h
  cases hp : t.player? who with
  | none =>
    have hnone : positions = [] := by
      refine List.eq_nil_iff_forall_not_mem.2 fun j hj ↦ ?_
      have := hlt j hj
      simp [held, hp] at this
    simp only [giveUp, hp]
    rw [hnone, List.length_nil, ite_self, Nat.add_zero]
  | some p =>
    rw [held_of_player? hp] at hlt
    have hlength := p.length_keep positions
    rw [Player.length_selected hnodup hlt] at hlength
    simp only [giveUp, hp]
    rw [held_toMuck, held_modifyPlayer (f := (·.keep positions)) hd (fun _ ↦ rfl) hp]
    split
    · rename_i hi
      rw [hlength, hi, held_of_player? hp]
    · rfl

theorem stock_le_giveUp (t : Table) (who : PlayerId) (positions : List Nat) :
    t.stock ≤ (t.giveUp who positions).stock := by
  rw [giveUp]
  split
  · exact Nat.le_refl _
  · rw [stock_toMuck, stock_modifyPlayer]
    exact Nat.le_add_right ..

/-- **Mucking a hand moves cards.** -/
theorem muckAll_moves (t : Table) (who : PlayerId) : t.Moves (t.muckAll who) := by
  rw [muckAll]
  split
  · exact Moves.refl t
  · rename_i p hp
    refine ((Moves.refl t).modifyPlayer hp (f := Player.dropHand) (fun _ ↦ rfl) fun c ↦ ?_).toMuck
    simp [Player.dropHand, Player.cards]

/-- Who folds gives their cards to the muck. -/
theorem muckIf_moves (t : Table) (who : PlayerId) (folds : Bool) :
    t.Moves (if folds = true then t.muckAll who else t) := by
  cases folds with
  | false => exact .refl t
  | true => exact muckAll_moves t who

theorem muckAll_held (hd : t.Distinct) {i : PlayerId} (hi : i ≠ who) :
    (t.muckAll who).held i = t.held i := by
  cases hp : t.player? who with
  | none => simp only [muckAll, hp]
  | some p =>
    simp only [muckAll, hp]
    rw [held_toMuck, held_modifyPlayer (f := Player.dropHand) hd (fun _ ↦ rfl) hp, if_neg hi]

theorem stock_le_muckAll (t : Table) (who : PlayerId) : t.stock ≤ (t.muckAll who).stock := by
  rw [muckAll]
  split
  · exact Nat.le_refl _
  · rw [stock_toMuck, stock_modifyPlayer]
    exact Nat.le_add_right ..

/-- **Turning cards up moves cards**: they stay where they are. -/
theorem turnUp_moves (t : Table) (who : PlayerId) (positions : List Nat) :
    t.Moves (t.turnUp who positions) := by
  rw [turnUp]
  cases hp : t.player? who with
  | none =>
    rw [modifyPlayer_eq_self hp]
    exact Moves.refl t
  | some p =>
    have hcards : (p.turnUp positions).cards = p.cards := by
      have hcard : ∀ d : LaidCard × Nat,
          (if positions.contains d.2 then d.1.turnUp else d.1).card = d.1.card := by
        intro d
        split <;> rfl
      rw [Player.cards, Player.turnUp, List.map_map, Player.cards]
      calc p.hand.zipIdx.map _ = p.hand.zipIdx.map (·.1.card) :=
            List.map_congr_left fun d _ ↦ hcard d
        _ = (p.hand.zipIdx.map (·.1)).map (·.card) := by rw [List.map_map]; rfl
        _ = p.hand.map (·.card) := by rw [List.zipIdx_map_fst]
    refine (Moves.refl t).modifyPlayer hp (f := (·.turnUp positions)) (fun _ ↦ rfl) fun c ↦ ?_
    rw [hcards]

theorem turnUp_held (t : Table) (who : PlayerId) (positions : List Nat) (i : PlayerId) :
    (t.turnUp who positions).held i = t.held i := by
  refine held_congr (map_seats_modifyPlayer (fun p ↦ ?_) t who) i
  rw [Player.length_turnUp]
  rfl

/-- **An exchange replaces cards**, one by one, or does nothing because there are too few. It draws
only if there are enough cards for all of it, so what it replaces always reaches the muck. -/
theorem exchange_spec (hd : t.Distinct) (step : String) (who : PlayerId) (positions : List Nat)
    (facing : Facing) : (t.exchange step who positions facing).Meets
      (fun t' ↦ t.Moves t' ∧ t'.stock = t.stock ∧ (∀ i, t'.held i = t.held i) ∧
        positions.length ≤ t.stock)
      fun t' e ↦ t' = t ∧ (∃ step, e = .noCards step) ∧ t.stock < positions.length := by
  rw [exchange]
  split
  · rename_i hstock
    exact .of_stop ⟨rfl, ⟨step, rfl⟩, hstock⟩
  · rename_i hstock
    have hfits : positions.length ≤ t.stock := Nat.not_lt.1 hstock
    split
    · exact .of_done ⟨.refl t, rfl, fun _ ↦ rfl, hfits⟩
    · rename_i p hp
      let kept := t.modifyPlayer who (·.keep positions)
      have hkept := holding_keep hp positions
      have hids : kept.ids = t.ids := hkept.ids
      have hwho : who ∈ kept.ids := hids ▸ isSome_player?.1 (Option.isSome_of_eq_some hp)
      have hless : kept.stock = t.stock := stock_modifyPlayer ..
      have hlength := p.length_keep positions
      -- as many cards are drawn as are selected, which may be fewer than the request names
      have henough : (p.selected positions).length * 1 ≤ kept.stock := by
        have := length_selected_le p positions
        show _ ≤ kept.deck.count + kept.muck.length
        simp only [kept, modifyPlayer_deck, modifyPlayer_muck]
        omega
      have hdrawn := times_dealt (t := kept) (fun u hu hstock ↦ dealTo_dealt
        (show u.Distinct by rwa [Distinct, hu.ids, hids]) (hu.ids ▸ hwho) hstock step facing)
        henough
      refine hdrawn.sure.thenDo fun t' h ↦
        ⟨(hkept.trans h.moves).toMuck, ?_, fun i ↦ ?_, hfits⟩
      · have := h.stock
        rw [stock_toMuck]
        omega
      · rw [held_toMuck, h.held, held_modifyPlayer (f := (·.keep positions)) hd (fun _ ↦ rfl) hp]
        split
        · rename_i hi
          rw [Nat.mul_one, hlength, hi, held_of_player? hp]
        · rw [Nat.mul_zero, Nat.add_zero]

/-! ### Passing -/

/-- The cards of parcels. -/
def parcelCards (parcels : List (PlayerId × List LaidCard)) : List Card :=
  parcels.flatMap fun parcel ↦ parcel.2.map (·.card)

/-- What is picked up is held, for somebody in the order. -/
theorem holding_pickUp (order : List PlayerId) (side : Side) (selection : PlayerId × List Nat)
    {moving : Table × List (PlayerId × List LaidCard)}
    (hheld : t.Holding (parcelCards moving.2) moving.1)
    (hfor : ∀ parcel ∈ moving.2, parcel.1 ∈ order) :
    t.Holding (parcelCards (pickUp order side moving selection).2)
        (pickUp order side moving selection).1 ∧
      ∀ parcel ∈ (pickUp order side moving selection).2, parcel.1 ∈ order := by
  obtain ⟨t', parcels⟩ := moving
  simp only [pickUp]
  split
  · rename_i i p _ hp
    split
    · rename_i receiver hreceiver
      have hid : p.id = selection.1 := (mem_players_of_player? hp).2
      refine ⟨?_, fun parcel hparcel ↦ ?_⟩
      · refine hheld.modifyPlayer (hid ▸ hp) (f := (·.keep selection.2)) (fun _ ↦ rfl) fun c ↦ ?_
        have hsplit := count_selected p selection.2 c
        simp only [parcelCards, List.flatMap_append, List.flatMap_cons, List.flatMap_nil,
          List.append_nil, List.count_append]
        omega
      · rcases List.mem_append.1 hparcel with h | h
        · exact hfor parcel h
        · rw [List.mem_singleton.1 h]
          exact List.mem_of_getElem? hreceiver
    · exact ⟨hheld, hfor⟩
  · exact ⟨hheld, hfor⟩

/-- What is held for seated players, they get. -/
theorem moves_handOver {parcels : List (PlayerId × List LaidCard)}
    (hheld : t.Holding (parcelCards parcels) t') (hfor : ∀ parcel ∈ parcels, parcel.1 ∈ t.ids) :
    t.Moves (parcels.foldl handOver t') := by
  induction parcels generalizing t' with
  | nil => exact hheld
  | cons parcel parcels ih =>
    refine ih ?_ fun q hq ↦ hfor q (List.mem_cons_of_mem parcel hq)
    have hseated : parcel.1 ∈ t'.ids := hheld.ids ▸ hfor parcel (List.mem_cons_self ..)
    obtain ⟨p, hp⟩ := Option.isSome_iff_exists.1 (isSome_player?.2 hseated)
    refine hheld.modifyPlayer hp (f := fun p ↦ { p with hand := p.hand ++ parcel.2 })
      (fun _ ↦ rfl) fun c ↦ ?_
    simp only [parcelCards, Player.cards, List.map_append, List.flatMap_cons, List.count_append]
    omega

theorem holding_foldl_pickUp (order : List PlayerId) (side : Side)
    (selections : List (PlayerId × List Nat)) (moving : Table × List (PlayerId × List LaidCard))
    (hheld : t.Holding (parcelCards moving.2) moving.1)
    (hfor : ∀ parcel ∈ moving.2, parcel.1 ∈ order) :
    t.Holding (parcelCards (selections.foldl (pickUp order side) moving).2)
        (selections.foldl (pickUp order side) moving).1 ∧
      ∀ parcel ∈ (selections.foldl (pickUp order side) moving).2, parcel.1 ∈ order := by
  induction selections generalizing moving with
  | nil => exact ⟨hheld, hfor⟩
  | cons selection selections ih =>
    obtain ⟨hheld', hfor'⟩ := holding_pickUp order side selection hheld hfor
    exact ih _ hheld' hfor'

/-- **Passing moves cards**, when everybody in the order is seated. All that is picked up is handed
over, since the neighbours are in the order too. -/
theorem passAround_moves {order : List PlayerId} (horder : ∀ who ∈ order, who ∈ t.ids)
    (selections : List (PlayerId × List Nat)) (side : Side) :
    t.Moves (t.passAround order selections side) := by
  rw [passAround]
  split
  · exact Moves.refl t
  · obtain ⟨hheld, hfor⟩ := holding_foldl_pickUp order side selections (t, []) (Moves.refl t)
      fun _ h ↦ absurd h List.not_mem_nil
    exact moves_handOver hheld fun parcel hparcel ↦ horder _ (hfor parcel hparcel)

end Table

end DealersChoice
