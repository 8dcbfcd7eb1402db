import DealersChoice.Proofs.Table.Dealing

/-!
# Who gets the cards of a deal

A deal adds cards at the end of hands and zones, and leaves the cards that are there as they are.
`Table.Gives` says what each player and each zone gets: not which cards — the deck decides that —
but how many, in which order they lie, and which way they face. One deal after another adds up
(`Table.Gives.trans`), so what a step gives is put together from its rounds and batches.

None of this asks whether the cards last. Where they run out, the deal stops, and what it has given
until then is not a whole share.
-/

namespace DealersChoice

/-- Cards have been added at the end, facing like this. -/
def Grows (facings : List Facing) (before after : List LaidCard) : Prop :=
  ∃ dealt : List LaidCard, after = before ++ dealt ∧ dealt.map (·.facing) = facings

theorem Grows.refl (cards : List LaidCard) : Grows [] cards cards :=
  ⟨[], (List.append_nil cards).symm, rfl⟩

theorem Grows.trans {facings more : List Facing} {before between after : List LaidCard}
    (h : Grows facings before between) (h' : Grows more between after) :
    Grows (facings ++ more) before after := by
  obtain ⟨dealt, rfl, rfl⟩ := h
  obtain ⟨later, rfl, rfl⟩ := h'
  exact ⟨dealt ++ later, List.append_assoc .., List.map_append⟩

theorem Grows.append (cards : List LaidCard) (d : LaidCard) :
    Grows [d.facing] cards (cards ++ [d]) :=
  ⟨[d], rfl, rfl⟩

/-- How the cards lie that a player, or a zone, gets in a deal. -/
def Deal.facings (deal : Deal) : List Facing :=
  deal.batches.flatMap fun batch ↦ List.replicate batch.count batch.facing

theorem Deal.length_facings (deal : Deal) : deal.facings.length = deal.size := by
  rw [facings, List.length_flatMap, size]
  simp only [List.length_replicate]
  rfl

/-- What a player gets of it: all of it, if it deals to those in the order of the hand. -/
def Deal.toHand (deal : Deal) (order : List PlayerId) (who : PlayerId) : List Facing :=
  if deal.target = .hands ∧ who ∈ order then deal.facings else []

/-- What a zone gets of it: all of it, if it deals to that zone. -/
def Deal.toZone (deal : Deal) (zone : String) : List Facing :=
  if deal.target = .board ∧ zone = deal.zone.getD defaultZone then deal.facings else []

/-- How many of its cards go to the given zones, or to any zone. -/
def Deal.toBoard (deal : Deal) (zones : Option (List String)) : Nat :=
  if deal.target = .board ∧ Table.readsZone zones (deal.zone.getD defaultZone) then deal.size else 0

namespace Table

variable {t t' t'' : Table} {who : PlayerId} {toHand toHand' : PlayerId → List Facing}
  {toZone toZone' : String → List Facing}

/-- The cards of a zone; none if there is no zone of that name. -/
def cardsOn (t : Table) (zone : String) : List LaidCard :=
  (t.zone? zone).getD []

/-- Every player and every zone has got cards that face like this. -/
structure Gives (t : Table) (toHand : PlayerId → List Facing) (toZone : String → List Facing)
    (t' : Table) : Prop where
  ids : t'.ids = t.ids
  hands : ∀ who, Grows (toHand who) (t.handOf who) (t'.handOf who)
  zones : ∀ zone, Grows (toZone zone) (t.cardsOn zone) (t'.cardsOn zone)

/-- An operation has given such cards, if it has gone through. -/
abbrev GivesCards (t : Table) (toHand : PlayerId → List Facing) (toZone : String → List Facing)
    (a : Attempt Table Breach) : Prop :=
  a.Meets (t.Gives toHand toZone) fun _ _ ↦ True

theorem Gives.refl (t : Table) : t.Gives (fun _ ↦ []) (fun _ ↦ []) t :=
  ⟨rfl, fun _ ↦ .refl _, fun _ ↦ .refl _⟩

theorem Gives.trans (h : t.Gives toHand toZone t') (h' : t'.Gives toHand' toZone' t'') :
    t.Gives (fun who ↦ toHand who ++ toHand' who) (fun zone ↦ toZone zone ++ toZone' zone) t'' :=
  ⟨h'.ids.trans h.ids, fun who ↦ (h.hands who).trans (h'.hands who),
    fun zone ↦ (h.zones zone).trans (h'.zones zone)⟩

theorem GivesCards.congr {a : Attempt Table Breach} (h : t.GivesCards toHand toZone a)
    (hhand : ∀ who, toHand who = toHand' who) (hzone : ∀ zone, toZone zone = toZone' zone) :
    t.GivesCards toHand' toZone' a := by
  rwa [← funext hhand, ← funext hzone]

/-! ### One card -/

theorem exists_of_withCard {step : String} {f : Card → Table → Table}
    (hdone : (t.withCard step f).error? = none) : ∃ card next,
      (t.withCard step f).state = f card next ∧ next.seats = t.seats ∧ next.zones = t.zones := by
  rw [withCard] at hdone ⊢
  split
  · rename_i card next hnext
    obtain ⟨-, -, hseats, hzones⟩ := holding_of_nextCard? hnext
    exact ⟨card, next, rfl, hseats, hzones⟩
  · rename_i hnext
    rw [hnext] at hdone
    contradiction

/-- A card for one player is added to that player's hand. -/
theorem dealTo_gives (hd : t.Distinct) (hwho : who ∈ t.ids) (step : String) (facing : Facing) :
    t.GivesCards (fun i ↦ if i = who then [facing] else []) (fun _ ↦ [])
      (dealTo step facing who t) := by
  refine ⟨fun hdone ↦ ?_, fun _ ↦ trivial⟩
  obtain ⟨card, next, heq, hseats, hzones⟩ := exists_of_withCard hdone
  obtain ⟨p, hp⟩ := Option.isSome_iff_exists.1 (isSome_player?.2 hwho)
  have hids : next.ids = t.ids := by rw [ids, players, hseats, ids, players]
  have hhand : ∀ i, next.handOf i = t.handOf i := fun i ↦ by
    rw [handOf, player?, players, hseats, handOf, player?, players]
  have hp' : next.player? who = some p := by rwa [player?, players, hseats]
  rw [dealTo, heq]
  refine ⟨?_, fun i ↦ ?_, fun zone ↦ ?_⟩
  · exact (ids_modifyPlayer (f := (·.give card facing)) (fun _ ↦ rfl) next who).trans hids
  · rw [handOf_modifyPlayer (f := (·.give card facing)) (by rwa [Distinct, hids]) (fun _ ↦ rfl) hp']
    split
    · rename_i hi
      rw [hi, handOf_of_player? hp]
      exact .append p.hand ⟨card, facing⟩
    · rw [hhand]
      exact .refl _
  · have hsame : (next.modifyPlayer who (·.give card facing)).cardsOn zone = t.cardsOn zone := by
      rw [cardsOn, zone?, modifyPlayer_zones, hzones, cardsOn, zone?]
    rw [hsame]
    exact .refl _

/-- A card for a zone is added there; the zone is opened if there is none of that name. -/
theorem cardsOn_putOnZone (t : Table) (zone : String) (d : LaidCard) (other : String) :
    (t.putOnZone zone d).cardsOn other =
      if other = zone then t.cardsOn zone ++ [d] else t.cardsOn other := by
  rw [putOnZone]
  cases hz : t.zones.find? (·.name == zone) with
  | none =>
    have hnone : t.zones.findIdx? (·.name == zone) = none :=
      List.findIdx?_eq_none_iff.2 fun z hmem ↦ by simpa using List.find?_eq_none.1 hz z hmem
    simp only [hnone, cardsOn, zone?, List.find?_append]
    split
    · rename_i hother
      simp [hother, hz]
    · rename_i hother
      simp [Ne.symm hother]
  | some z =>
    obtain ⟨before, after, hi, hzones, hbefore, hmodify⟩ := exists_modify_eq hz
    have hname : z.name = zone := by simpa using List.find?_some hz
    simp only [hi, cardsOn, zone?, hmodify]
    split
    · rename_i hother
      have hnone : before.find? (·.name == zone) = none :=
        List.find?_eq_none.2 fun z hmem ↦ by simp [hbefore z hmem]
      simp [hother, hz, List.find?_append, hnone, hname]
    · rename_i hother
      have hne : z.name ≠ other := fun h ↦ hother (h.symm.trans hname)
      simp [hzones, List.find?_append, hne]

theorem dealToZone_gives (t : Table) (step zone : String) (facing : Facing) :
    t.GivesCards (fun _ ↦ []) (fun z ↦ if z = zone then [facing] else [])
      (dealToZone step zone facing t) := by
  refine ⟨fun hdone ↦ ?_, fun _ ↦ trivial⟩
  obtain ⟨card, next, heq, hseats, hzones⟩ := exists_of_withCard hdone
  have hput : (next.putOnZone zone ⟨card, facing⟩).seats = t.seats := by
    rw [putOnZone_eq]
    exact hseats
  rw [dealToZone, heq]
  refine ⟨?_, fun i ↦ ?_, fun z ↦ ?_⟩
  · rw [ids, players, hput, ids, players]
  · have hsame : (next.putOnZone zone ⟨card, facing⟩).handOf i = t.handOf i := by
      rw [handOf, player?, players, hput, handOf, player?, players]
    rw [hsame]
    exact .refl _
  · have hsame : ∀ z, next.cardsOn z = t.cardsOn z := fun z ↦ by
      rw [cardsOn, zone?, hzones, cardsOn, zone?]
    rw [cardsOn_putOnZone]
    split
    · rename_i hz
      rw [hsame, hz]
      exact .append _ ⟨card, facing⟩
    · rw [hsame]
      exact .refl _

/-! ### One card after another -/

/-- What each operation of a list gives adds up. -/
theorem forEach_gives {α : Type} {l : List α} {f : α → Table → Attempt Table Breach}
    {toHand : α → PlayerId → List Facing} {toZone : α → String → List Facing}
    (hf : ∀ a ∈ l, ∀ u : Table, u.ids = t.ids → u.GivesCards (toHand a) (toZone a) (f a u)) :
    t.GivesCards (fun i ↦ l.flatMap (toHand · i)) (fun z ↦ l.flatMap (toZone · z))
      (Attempt.forEach l f t) := by
  induction l generalizing t with
  | nil => exact .of_done (.refl t)
  | cons a l ih =>
    refine (hf a (List.mem_cons_self ..) t rfl).andThen fun next hnext ↦ ?_
    have hrest := ih fun b hb u hu ↦ hf b (List.mem_cons_of_mem a hb) u (hu.trans hnext.ids)
    exact hrest.mono (fun _ h ↦ hnext.trans h) fun _ _ h ↦ h

/-- What is given again and again is given so many times. -/
theorem times_gives {f : Table → Attempt Table Breach} (n : Nat)
    (hf : ∀ u : Table, u.ids = t.ids → u.GivesCards toHand toZone (f u)) :
    t.GivesCards (fun i ↦ (List.replicate n (toHand i)).flatten)
      (fun z ↦ (List.replicate n (toZone z)).flatten) (Attempt.times n f t) := by
  induction n generalizing t with
  | zero => exact .of_done (.refl t)
  | succ n ih =>
    refine (hf t rfl).andThen fun next hnext ↦ ?_
    have hrest := ih fun u hu ↦ hf u (hu.trans hnext.ids)
    exact hrest.mono (fun _ h ↦ hnext.trans h) fun _ _ h ↦ h

/-- Who takes part in a round gets one card facing like this in each of `n` rounds. -/
theorem flatten_replicate_round (n : Nat) (part : Prop) [Decidable part] (facing : Facing) :
    (List.replicate n (if part then [facing] else [])).flatten =
      if part then List.replicate n facing else [] := by
  split
  · exact List.flatten_replicate_singleton
  · exact List.flatten_replicate_nil

/-- One round in an order without repetition is one card for each. -/
theorem flatMap_round {order : List PlayerId} (hnodup : order.Nodup) (who : PlayerId)
    (facing : Facing) : (order.flatMap fun w ↦ if who = w then [facing] else []) =
      if who ∈ order then [facing] else [] := by
  induction order with
  | nil => rfl
  | cons w order ih =>
    rw [List.nodup_cons] at hnodup
    rw [List.flatMap_cons, ih hnodup.2]
    by_cases hw : who = w
    · simp [hw, hnodup.1]
    · simp [hw]

theorem dealBatch_gives {order : List PlayerId} (hd : t.Distinct) (hnodup : order.Nodup)
    (horder : ∀ who ∈ order, who ∈ t.ids) (step : String) (deal : Deal) (batch : Batch) :
    t.GivesCards
      (fun i ↦ if deal.target = .hands ∧ i ∈ order
        then List.replicate batch.count batch.facing else [])
      (fun z ↦ if deal.target = .board ∧ z = deal.zone.getD defaultZone
        then List.replicate batch.count batch.facing else [])
      (dealBatch step deal order batch t) := by
  have hnothing : ∀ n, (List.replicate n ([] : List Facing)).flatten = [] := fun _ ↦
    List.flatten_replicate_nil
  rw [dealBatch]
  cases htarget : deal.target with
  | hands =>
    -- a round gives a card to everybody, and the batch has so many rounds
    have hround : ∀ u : Table, u.ids = t.ids → u.GivesCards
        (fun i ↦ if i ∈ order then [batch.facing] else []) (fun _ ↦ [])
        (Attempt.forEach order (dealTo step batch.facing) u) := by
      intro u hu
      have hcards := forEach_gives (t := u) (l := order) fun who hwho v hv ↦
        dealTo_gives (by rwa [Distinct, hv, hu]) (hv ▸ hu ▸ horder who hwho) step batch.facing
      exact hcards.congr (fun i ↦ flatMap_round hnodup i batch.facing) fun _ ↦ by simp
    refine (times_gives batch.count hround).congr (fun i ↦ ?_) fun z ↦ ?_
    · rw [flatten_replicate_round]
      simp only [true_and]
    · rw [hnothing]
      simp only [reduceCtorEq, false_and, if_false]
  | board =>
    refine (times_gives batch.count fun u _ ↦ dealToZone_gives u step _ batch.facing).congr
      (fun i ↦ ?_) fun z ↦ ?_
    · rw [hnothing]
      simp only [reduceCtorEq, false_and, if_false]
    · rw [flatten_replicate_round]
      simp only [true_and]

/-- **A deal gives everybody in the order, or the zone that it names, all its cards**, and nothing
to anybody else. -/
theorem dealAll_gives {order : List PlayerId} (hd : t.Distinct) (hnodup : order.Nodup)
    (horder : ∀ who ∈ order, who ∈ t.ids) (step : String) (deal : Deal) :
    t.GivesCards (deal.toHand order) deal.toZone (t.dealAll step deal order) := by
  have hall : ∀ (part : Prop) [Decidable part], (deal.batches.flatMap fun batch ↦
      if part then List.replicate batch.count batch.facing else []) =
        if part then deal.facings else [] := by
    intro part _
    split
    · rfl
    · exact List.flatMap_eq_nil_iff.2 fun _ _ ↦ rfl
  have hbatches := forEach_gives (t := t) (l := deal.batches) fun batch _ u hu ↦
    dealBatch_gives (by rwa [Distinct, hu]) hnodup (fun who hwho ↦ hu ▸ horder who hwho) step deal
      batch
  exact hbatches.congr (fun i ↦ hall _) fun z ↦ hall _

/-! ### The board -/

/-- A card for a player is not on the board. -/
theorem board_dealTo (t : Table) (zones : Option (List String)) (step : String) (facing : Facing)
    (who : PlayerId) :
    (dealTo step facing who t).Meets (fun t' ↦ t'.board zones = t.board zones) fun _ _ ↦ True := by
  refine ⟨fun hdone ↦ ?_, fun _ ↦ trivial⟩
  obtain ⟨card, next, heq, -, hzones⟩ := exists_of_withCard hdone
  rw [dealTo, heq]
  exact board_congr ((modifyPlayer_zones ..).trans hzones) zones

theorem length_board_dealToZone (t : Table) (zones : Option (List String)) (step zone : String)
    (facing : Facing) : (dealToZone step zone facing t).Meets (fun t' ↦ (t'.board zones).length =
      (t.board zones).length + if readsZone zones zone then 1 else 0) fun _ _ ↦ True := by
  refine ⟨fun hdone ↦ ?_, fun _ ↦ trivial⟩
  obtain ⟨card, next, heq, -, hzones⟩ := exists_of_withCard hdone
  rw [dealToZone, heq, (board_putOnZone next zones zone _).length_eq, List.length_append,
    board_congr hzones]
  split <;> rfl

/-- **A deal puts all its cards on the board**, for those who read the zone that it names, or
none. -/
theorem length_board_dealAll (t : Table) (step : String) (deal : Deal) (order : List PlayerId)
    (zones : Option (List String)) : (t.dealAll step deal order).Meets (fun t' ↦
      (t'.board zones).length = (t.board zones).length + deal.toBoard zones) fun _ _ ↦ True := by
  let share := if deal.target = .board ∧ readsZone zones (deal.zone.getD defaultZone) then 1 else 0
  have hbatch : ∀ batch u, (dealBatch step deal order batch u).Meets (fun t' ↦
      (t'.board zones).length = (u.board zones).length + batch.count * share) fun _ _ ↦ True := by
    intro batch u
    rw [dealBatch]
    cases htarget : deal.target with
    | hands =>
      have hshare : share = 0 := if_neg fun h ↦ by simp [htarget] at h
      rw [hshare, Nat.mul_zero, Nat.add_zero]
      refine (Attempt.Meets.times (P := fun t' ↦ t'.board zones = u.board zones) _ rfl
        fun _ h ↦ Attempt.Meets.forEach h fun who _ v hv ↦ ?_).mono (fun _ h ↦ congrArg _ h)
          fun _ _ h ↦ h
      exact (board_dealTo v zones step batch.facing who).mono (fun _ h ↦ h.trans hv) fun _ _ h ↦ h
    | board =>
      have hshare : share = if readsZone zones (deal.zone.getD defaultZone) then 1 else 0 := by
        simp only [share, htarget, true_and]
      rw [hshare]
      exact Attempt.Meets.times_adds (fun v ↦ length_board_dealToZone v zones step _ batch.facing) _ u
  refine (Attempt.Meets.forEach_adds hbatch deal.batches t).mono (fun t' h ↦ ?_) fun _ _ h ↦ h
  rw [h, Deal.toBoard, Deal.size]
  simp only [share]
  split
  · simp only [Nat.mul_one]
  · simp only [Nat.mul_zero]
    rw [total_eq_zero_iff.2 (by simp)]

end Table

end DealersChoice
