import DealersChoice.Proofs.Veil.Table

/-!
# Cards under a veil

Dealing, drawing, discarding, exposing, mucking and passing do under a veil what they do without it,
as long as everybody who gives or gets cards is seen. Which cards come up is decided by the deck and
the muck, of which a veil leaves nothing out.
-/

namespace DealersChoice

namespace Player.Heedless

theorem give (card : Card) (facing : Facing) : Player.Heedless (·.give card facing) :=
  ⟨fun _ ↦ rfl, fun _ ↦ rfl⟩

theorem keep (positions : List Nat) : Player.Heedless (·.keep positions) :=
  ⟨fun _ ↦ rfl, fun _ ↦ rfl⟩

theorem turnUp (positions : List Nat) : Player.Heedless (·.turnUp positions) :=
  ⟨fun _ ↦ rfl, fun _ ↦ rfl⟩

theorem dropHand : Player.Heedless dropHand :=
  ⟨fun _ ↦ rfl, fun _ ↦ rfl⟩

theorem leave : Player.Heedless leave :=
  ⟨fun _ ↦ rfl, fun _ ↦ rfl⟩

end Player.Heedless

namespace Veil

variable {u : Veil} {t t' : Table} {who : PlayerId} {step : String}

/-- An operation on a table, and the same one under the veil. -/
abbrev AlikeCards (u : Veil) : Attempt Table Breach → Attempt Table Breach → Prop :=
  Attempt.Alike u.CoversTable (Breach.less u.stake)

namespace CoversTable

/-! ### Dealing -/

/-- **The next card is the same.** -/
theorem nextCard? (h : u.CoversTable t t') : t.nextCard? = none ∧ t'.nextCard? = none ∨
    ∃ card s s', t.nextCard? = some (card, s) ∧ t'.nextCard? = some (card, s') ∧
      u.CoversTable s s' := by
  -- the muck may have to be shuffled first
  obtain ⟨s, s', hs, hnext, hnext'⟩ : ∃ s s', u.CoversTable s s' ∧
      t.nextCard? = s.deck.top?.map (fun p ↦ (p.1, { s with deck := p.2 })) ∧
      t'.nextCard? = s'.deck.top?.map fun p ↦ (p.1, { s' with deck := p.2 }) := by
    obtain rfl := h.eq
    by_cases hdry : t.deck.count = 0 ∧ t.muck ≠ []
    · refine ⟨_, _, h.move t.zones (t.deck.replenish t.muck) [], ?_, ?_⟩
      · rw [Table.nextCard?, if_pos hdry]
      · rw [Table.nextCard?, if_pos (by exact hdry)]
        rfl
    · refine ⟨t, u.table t, h, ?_, ?_⟩
      · rw [Table.nextCard?, if_neg hdry]
      · rw [Table.nextCard?, if_neg (by exact hdry)]
  have hdeck : s'.deck = s.deck := by rw [hs.eq, table]
  rw [hnext, hnext', hdeck]
  rcases s.deck.top? with - | ⟨card, deck⟩
  · exact Or.inl ⟨rfl, rfl⟩
  · refine Or.inr ⟨card, _, _, rfl, rfl, ?_⟩
    have hmove := hs.move s.zones deck s.muck
    obtain rfl := hs.eq
    exact hmove

theorem withCard {f : Card → Table → Table} (h : u.CoversTable t t')
    (hf : ∀ card s s', u.CoversTable s s' → u.CoversTable (f card s) (f card s')) :
    u.AlikeCards (t.withCard step f) (t'.withCard step f) := by
  rw [Table.withCard, Table.withCard]
  rcases h.nextCard? with ⟨hnone, hnone'⟩ | ⟨card, s, s', hnext, hnext', hs⟩
  · rw [hnone, hnone']
    exact .of_stop h rfl
  · rw [hnext, hnext']
    exact .of_done (hf card s s' hs)

theorem dealTo (h : u.CoversTable t t') (hwho : u.omits who = false) (facing : Facing) :
    u.AlikeCards (Table.dealTo step facing who t) (Table.dealTo step facing who t') :=
  h.withCard fun card _ _ hs ↦ hs.modifyPlayer hwho (.give card facing)

theorem putOnZone (h : u.CoversTable t t') (zone : String) (d : LaidCard) :
    u.CoversTable (t.putOnZone zone d) (t'.putOnZone zone d) := by
  have hzones := h.move (t.putOnZone zone d).zones t.deck t.muck
  obtain rfl := h.eq
  have hsame : ((u.table t).putOnZone zone d).zones = (t.putOnZone zone d).zones :=
    Table.putOnZone_zones (show (u.table t).zones = t.zones from rfl) zone d
  rw [Table.putOnZone_eq t, Table.putOnZone_eq (u.table t), hsame]
  exact hzones

theorem dealToZone (h : u.CoversTable t t') (zone : String) (facing : Facing) :
    u.AlikeCards (Table.dealToZone step zone facing t) (Table.dealToZone step zone facing t') :=
  h.withCard fun _ _ _ hs ↦ hs.putOnZone zone _

theorem dealBatch (h : u.CoversTable t t') (deal : Deal) {order : List PlayerId}
    (horder : ∀ i ∈ order, u.omits i = false) (batch : Batch) :
    u.AlikeCards (Table.dealBatch step deal order batch t)
      (Table.dealBatch step deal order batch t') := by
  rw [Table.dealBatch, Table.dealBatch]
  split
  · exact .times _ h fun s s' hs ↦ .forEach hs fun i hi s s' hs ↦ hs.dealTo (horder i hi) _
  · exact .times _ h fun s s' hs ↦ hs.dealToZone _ _

/-- **A deal is the same under the veil.** -/
theorem dealAll (h : u.CoversTable t t') (deal : Deal) {order : List PlayerId}
    (horder : ∀ i ∈ order, u.omits i = false) :
    u.AlikeCards (t.dealAll step deal order) (t'.dealAll step deal order) :=
  .forEach h fun batch _ _ _ hs ↦ hs.dealBatch deal horder batch

/-! ### Cards of one player -/

theorem toMuck (h : u.CoversTable t t') (cards : List LaidCard) :
    u.CoversTable (t.toMuck cards) (t'.toMuck cards) := by
  have hmove := h.move t.zones t.deck (t.muck ++ cards.map (·.card))
  obtain rfl := h.eq
  exact hmove

theorem checkPositions (h : u.CoversTable t t') (hwho : u.omits who = false)
    (positions : List Nat) : t'.checkPositions who positions = t.checkPositions who positions := by
  rw [Table.checkPositions, Table.checkPositions, h.player? hwho]
  cases t.player? who with
  | none => rfl
  | some p => simp only [Option.map_some, player_hand]

theorem exchange (h : u.CoversTable t t') (hwho : u.omits who = false) (positions : List Nat)
    (facing : Facing) : u.AlikeCards (t.exchange step who positions facing)
      (t'.exchange step who positions facing) := by
  have hstock : t'.deck.count + t'.muck.length = t.deck.count + t.muck.length := by rw [h.eq, table]
  rw [Table.exchange, Table.exchange, hstock, h.player? hwho]
  split
  · exact .of_stop h rfl
  · cases t.player? who with
    | none => exact .of_done h
    | some p =>
      have hgone : (u.player p).selected positions = p.selected positions :=
        player_view (g := (·.selected positions)) (fun _ _ ↦ rfl) u p
      simp only [Option.map_some, hgone]
      exact (Attempt.Alike.times _ (h.modifyPlayer hwho (.keep positions))
        fun s s' hs ↦ hs.dealTo hwho facing).thenDo fun s s' hs ↦ hs.toMuck _

theorem giveUp (h : u.CoversTable t t') (hwho : u.omits who = false) (positions : List Nat) :
    u.CoversTable (t.giveUp who positions) (t'.giveUp who positions) := by
  rw [Table.giveUp, Table.giveUp, h.player? hwho]
  cases t.player? who with
  | none => exact h
  | some p =>
    have hgone : (u.player p).selected positions = p.selected positions :=
      player_view (g := (·.selected positions)) (fun _ _ ↦ rfl) u p
    simp only [Option.map_some, hgone]
    exact (h.modifyPlayer hwho (.keep positions)).toMuck _

theorem turnUp (h : u.CoversTable t t') (hwho : u.omits who = false) (positions : List Nat) :
    u.CoversTable (t.turnUp who positions) (t'.turnUp who positions) :=
  h.modifyPlayer hwho (.turnUp positions)

theorem dismiss (h : u.CoversTable t t') (hwho : u.omits who = false) :
    u.CoversTable (t.dismiss who) (t'.dismiss who) :=
  h.modifyPlayer hwho .leave

theorem muckAll (h : u.CoversTable t t') (hwho : u.omits who = false) :
    u.CoversTable (t.muckAll who) (t'.muckAll who) := by
  rw [Table.muckAll, Table.muckAll, h.player? hwho]
  cases t.player? who with
  | none => exact h
  | some p =>
    simp only [Option.map_some, player_hand]
    exact (h.modifyPlayer hwho .dropHand).toMuck _

/-- Whether a late arrival has left is left out, too. -/
theorem dismiss_late (h : u.CoversTable t t') {q : Player} (hq : u.late = some q) :
    u.CoversTable (t.dismiss q.id) t' :=
  h.modifyPlayer_late hq .leave fun _ ↦ ⟨true, rfl⟩

/-- A late arrival has no cards to give to the muck. -/
theorem muckAll_late (h : u.CoversTable t t') {q : Player} (hq : u.late = some q) :
    u.CoversTable (t.muckAll q.id) t' := by
  obtain ⟨left, hseated⟩ := h.seats.seated hq
  have hmuck : t.muckAll q.id = t.modifyPlayer q.id Player.dropHand := by
    have hmuck : (t.modifyPlayer q.id Player.dropHand).muck ++ [] =
        (t.modifyPlayer q.id Player.dropHand).muck := List.append_nil _
    rw [Table.muckAll, hseated]
    exact congrArg (fun muck ↦ { t.modifyPlayer q.id Player.dropHand with muck }) hmuck
  rw [hmuck]
  exact h.modifyPlayer_late hq .dropHand fun left ↦ ⟨left, rfl⟩

/-! ### Passing -/

/-- Picking up a selection, with the parcels made up so far. Nobody who is left out gets one. -/
theorem pickUp (h : u.CoversTable t t') {order : List PlayerId}
    (horder : ∀ i ∈ order, u.omits i = false) (side : Side)
    {parcels : List (PlayerId × List LaidCard)} (hparcels : ∀ c ∈ parcels, u.omits c.1 = false)
    {selection : PlayerId × List Nat} (hwho : u.omits selection.1 = false) :
    ∃ s s' parcels', Table.pickUp order side (t, parcels) selection = (s, parcels') ∧
      Table.pickUp order side (t', parcels) selection = (s', parcels') ∧ u.CoversTable s s' ∧
      ∀ c ∈ parcels', u.omits c.1 = false := by
  have hstay : ∃ s s' parcels', (t, parcels) = (s, parcels') ∧ (t', parcels) = (s', parcels') ∧
      u.CoversTable s s' ∧ ∀ c ∈ parcels', u.omits c.1 = false :=
    ⟨t, t', parcels, rfl, rfl, h, hparcels⟩
  rw [Table.pickUp, Table.pickUp, h.player? hwho]
  cases order.findIdx? (· == selection.1) with
  | none => exact hstay
  | some i =>
    cases hp : t.player? selection.1 with
    | none => exact hstay
    | some p =>
      have hid : p.id = selection.1 := (Table.mem_players_of_player? hp).2
      cases hreceiver : order[Table.neighbour side order.length i]? with
      | none => simpa only [Option.map_some, hreceiver] using hstay
      | some receiver =>
        have hgone : (u.player p).selected selection.2 = p.selected selection.2 :=
          player_view (g := (·.selected selection.2)) (fun _ _ ↦ rfl) u p
        simp only [Option.map_some, hreceiver, player_id, hgone, hid]
        refine ⟨_, _, _, rfl, rfl, h.modifyPlayer hwho (.keep _), fun c hc ↦ ?_⟩
        rcases List.mem_append.1 hc with hc | hc
        · exact hparcels c hc
        · rw [List.mem_singleton.1 hc]
          exact horder receiver (List.mem_of_getElem? hreceiver)

theorem foldl_pickUp (h : u.CoversTable t t') {order : List PlayerId}
    (horder : ∀ i ∈ order, u.omits i = false) (side : Side) {selections : List (PlayerId × List Nat)}
    (hselections : ∀ c ∈ selections, u.omits c.1 = false)
    {parcels : List (PlayerId × List LaidCard)} (hparcels : ∀ c ∈ parcels, u.omits c.1 = false) :
    ∃ s s' parcels', selections.foldl (Table.pickUp order side) (t, parcels) = (s, parcels') ∧
      selections.foldl (Table.pickUp order side) (t', parcels) = (s', parcels') ∧
      u.CoversTable s s' ∧ ∀ c ∈ parcels', u.omits c.1 = false := by
  induction selections generalizing t t' parcels with
  | nil => exact ⟨t, t', parcels, rfl, rfl, h, hparcels⟩
  | cons selection selections ih =>
    obtain ⟨s, s', parcels', hpick, hpick', hs, hparcels'⟩ :=
      h.pickUp horder side hparcels (hselections selection (List.mem_cons_self ..))
    rw [List.foldl_cons, List.foldl_cons, hpick, hpick']
    exact ih hs (fun c hc ↦ hselections c (List.mem_cons_of_mem selection hc)) hparcels'

theorem foldl_handOver (h : u.CoversTable t t') {parcels : List (PlayerId × List LaidCard)}
    (hparcels : ∀ c ∈ parcels, u.omits c.1 = false) :
    u.CoversTable (parcels.foldl Table.handOver t) (parcels.foldl Table.handOver t') := by
  induction parcels generalizing t t' with
  | nil => exact h
  | cons parcel parcels ih =>
    exact ih (h.modifyPlayer (hparcels parcel (List.mem_cons_self ..)) ⟨fun _ ↦ rfl, fun _ ↦ rfl⟩)
      fun c hc ↦ hparcels c (List.mem_cons_of_mem parcel hc)

/-- **Cards go round in the same way.** -/
theorem passAround (h : u.CoversTable t t') {order : List PlayerId}
    (horder : ∀ i ∈ order, u.omits i = false) {selections : List (PlayerId × List Nat)}
    (hselections : ∀ c ∈ selections, u.omits c.1 = false) (side : Side) :
    u.CoversTable (t.passAround order selections side) (t'.passAround order selections side) := by
  rw [Table.passAround, Table.passAround]
  split
  · exact h
  · obtain ⟨s, s', parcels, hpick, hpick', hs, hparcels⟩ :=
      h.foldl_pickUp horder side hselections fun c (hc : c ∈ []) ↦ absurd hc List.not_mem_nil
    rw [hpick, hpick']
    exact hs.foldl_handOver hparcels

end CoversTable

end Veil

end DealersChoice
