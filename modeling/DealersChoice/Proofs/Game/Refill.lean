import DealersChoice.Proofs.Game.Progress

/-!
# Seats are free again with the next hand

Whoever leaves between two hands keeps the seat until the next one starts, so that the order of a
hand never changes. A table is therefore refilled in two goes (`Game.table_refills`): at once on the
seats that are empty, and on the seats of those who leave as soon as the next hand has started. The
next hand starts as long as enough of those who stay, and of those who have sat down already, have
chips. At a full table there may be too few of them, and then it is not refilled at all
(`Game.freed_seats_stay_taken`).

Departures and arrivals are each taken care of by one induction over the requests. What has to be
known of the table in between is who sits where, and which seats the next hand frees.
-/

namespace DealersChoice

/-- Somebody who wants to sit down. -/
structure Arrival where
  id : PlayerId
  name : String
  stack : Nat
  seat : Nat

namespace Arrival

/-- The player as they sit down. -/
def player (a : Arrival) : Player :=
  { id := a.id, name := a.name, stack := a.stack, seat := a.seat }

def request (a : Arrival) : Request :=
  .sitDown a.id a.name a.stack a.seat

end Arrival

namespace Table

variable {t t' left next : Table} {leaving : List PlayerId} {a : Arrival}
  {early late arrivals : List Arrival} {seat : Nat}

/-- New players on empty seats: nobody comes twice, and no two want the same seat. -/
structure Admits (t : Table) (arrivals : List Arrival) : Prop where
  new : ∀ a ∈ arrivals, a.id ∉ t.ids
  empty : ∀ a ∈ arrivals, t.places[a.seat]? = some none
  once : (arrivals.map (·.id)).Nodup
  apart : (arrivals.map (·.seat)).Nodup

/-- Some arrivals have been seated, and nothing else has happened to the seats. -/
structure Seated (t : Table) (arrivals : List Arrival) (t' : Table) : Prop where
  ids : ∀ id ∈ t'.ids, id ∈ t.ids ∨ id ∈ arrivals.map (·.id)
  empty : ∀ seat : Nat, t'.places[seat]? = some none → t.places[seat]? = some none
  vacates : ∀ seat, seat ∉ arrivals.map (·.seat) → t.Vacates [] seat → t'.Vacates [] seat

/-- The first one can sit down, and then the others can. -/
theorem Admits.sit (h : t.Admits (a :: arrivals)) :
    ∃ t', t.sit a.player = .ok t' ∧ t'.Admits arrivals := by
  obtain ⟨t', hsit⟩ := sit_ok (p := a.player) (h.new a (List.mem_cons_self ..))
    (h.empty a (List.mem_cons_self ..))
  obtain ⟨hid, honce⟩ := List.nodup_cons.1 h.once
  obtain ⟨hseat, hapart⟩ := List.nodup_cons.1 h.apart
  refine ⟨t', hsit, fun b hb hmem ↦ ?_, fun b hb ↦ ?_, honce, hapart⟩
  · rcases List.mem_cons.1 (((players_sit hsit).map (·.id)).mem_iff.1 hmem) with heq | hmem
    · exact hid (heq ▸ List.mem_map_of_mem hb)
    · exact h.new b (List.mem_cons_of_mem a hb) hmem
  · have hne : a.player.seat ≠ b.seat := by
      intro heq
      exact hseat (List.mem_map.2 ⟨b, hb, heq.symm⟩)
    rw [(places_sit hsit).2, List.getElem?_set_ne hne]
    exact h.empty b (List.mem_cons_of_mem a hb)

theorem Seated.cons (hsit : t.sit a.player = .ok t') {t'' : Table} (h : t'.Seated arrivals t'') :
    t.Seated (a :: arrivals) t'' where
  ids id hid := by
    rcases h.ids id hid with hid | hid
    · rcases List.mem_cons.1 (((players_sit hsit).map (·.id)).mem_iff.1 hid) with rfl | hid
      · exact Or.inr (List.mem_cons_self ..)
      · exact Or.inl hid
    · exact Or.inr (List.mem_cons_of_mem _ hid)
  empty seat hseat := empty_of_sit hsit (h.empty seat hseat)
  vacates seat hseat hvacates := by
    rw [List.map_cons, List.mem_cons, not_or] at hseat
    exact h.vacates seat hseat.2 (hvacates.sit hsit (Ne.symm hseat.1))

/-- A plan to refill a table: who is to leave, who is to sit down at once, and who is to sit down
when the next hand has started. -/
structure Refill (t : Table) (leaving : List PlayerId) (early late : List Arrival) : Prop where
  seated : ∀ id ∈ leaving, id ∈ t.ids
  new : ∀ a ∈ early ++ late, a.id ∉ t.ids
  once : ((early ++ late).map (·.id)).Nodup
  apart : ((early ++ late).map (·.seat)).Nodup
  empty : ∀ a ∈ early, t.seats[a.seat]? = some none
  freed : ∀ a ∈ late, t.Vacates leaving a.seat

/-- Who is to sit down at once can do so when the others have left. -/
theorem Refill.admits_early (h : t.Refill leaving early late) (hplaces : t'.places = t.places) :
    t'.Admits early where
  new a ha hmem := by
    rw [ids_eq, hplaces, ← ids_eq] at hmem
    exact h.new a (List.mem_append_left late ha) hmem
  empty a ha := by
    rw [hplaces]
    exact places_eq_none_iff.2 (h.empty a ha)
  once := (List.map_append ▸ h.once).of_append_left
  apart := (List.map_append ▸ h.apart).of_append_left

/-- Who is to sit down later can do so when the next hand has freed the seats of those who left. -/
theorem Refill.admits_late (h : t.Refill leaving early late) (hplaces : left.places = t.places)
    (hvacates : ∀ seat, t.Vacates leaving seat → left.Vacates [] seat)
    (hseated : left.Seated early t') (hnext : next.places = t'.prepare.moveButton.places) :
    next.Admits late where
  new a ha hmem := by
    have hold : a.id ∈ t'.ids := by
      rw [ids_eq, hnext, ← ids_eq] at hmem
      exact ids_prepare_subset t' hmem
    rcases hseated.ids _ hold with hold | hold
    · rw [ids_eq, hplaces, ← ids_eq] at hold
      exact h.new a (List.mem_append_right early ha) hold
    · have hdisjoint := List.disjoint_of_nodup_append (List.map_append ▸ h.once)
      exact hdisjoint hold (List.mem_map_of_mem ha)
  empty a ha := by
    have hdisjoint := List.disjoint_of_nodup_append (List.map_append ▸ h.apart)
    have hlate : a.seat ∉ early.map (·.seat) := fun hmem ↦
      hdisjoint hmem (List.mem_map_of_mem ha)
    rw [hnext]
    exact (hseated.vacates a.seat hlate (hvacates _ (h.freed a ha))).freed
  once := (List.map_append ▸ h.once).of_append_right
  apart := (List.map_append ▸ h.apart).of_append_right

end Table

namespace Game

variable {g : Game} {w : Seating} {who : PlayerId} {leaving : List PlayerId} {a : Arrival}
  {early late arrivals : List Arrival}

/-! ### Requests that go through -/

/-- Every request of a list goes through. -/
def GoesThrough (g : Game) : List Request → Prop
  | [] => True
  | r :: rest => (g.handle r).error? = none ∧ (g.handle r).state.GoesThrough rest

theorem handleAll_append (g : Game) (requests rest : List Request) :
    g.handleAll (requests ++ rest) = (g.handleAll requests).handleAll rest := by
  induction requests generalizing g with
  | nil => rfl
  | cons r requests ih => exact ih _

theorem goesThrough_append {requests rest : List Request} : g.GoesThrough (requests ++ rest) ↔
    g.GoesThrough requests ∧ (g.handleAll requests).GoesThrough rest := by
  induction requests generalizing g with
  | nil => exact (true_and _).symm.to_iff
  | cons r requests ih =>
    rw [List.cons_append, GoesThrough, GoesThrough, and_assoc, ih]
    rfl

/-! ### Departures between two hands -/

/-- **Between two hands, whoever is seated can leave**, and keeps the place until the next one. -/
theorem departures_go (hd : g.table.Distinct) (hwaiting : g.isUnderway = false)
    (hseated : ∀ id ∈ leaving, id ∈ g.table.ids) :
    g.GoesThrough (leaving.map .standUp) ∧
    ∃ table, g.handleAll (leaving.map .standUp) = { g with table } ∧
      table.places = g.table.places ∧
      ∀ seat, g.table.Vacates leaving seat → table.Vacates [] seat := by
  induction leaving generalizing g with
  | nil => exact ⟨trivial, g.table, rfl, rfl, fun _ h ↦ h⟩
  | cons who leaving ih =>
    have hplaces : (g.table.dismiss who).places = g.table.places :=
      Table.places_modifyPlayer SeatChange.leave.id g.table who
    have hids : (g.table.dismiss who).ids = g.table.ids :=
      Table.ids_modifyPlayer SeatChange.leave.id g.table who
    have hleft : g.handle (.standUp who) = .done { g with table := g.table.dismiss who } :=
      standUp_eq hwaiting (hseated who (List.mem_cons_self ..))
    have hrest := ih (g := { g with table := g.table.dismiss who })
      (hd.modifyPlayer SeatChange.leave.id who) hwaiting
      fun id hid ↦ hids ▸ hseated id (List.mem_cons_of_mem who hid)
    obtain ⟨hgoes, table, heq, hkept, hvacates⟩ := hrest
    rw [List.map_cons, GoesThrough, Game.handleAll, hleft]
    exact ⟨⟨rfl, hgoes⟩, table, heq, hkept.trans hplaces, fun seat hseat ↦
      hvacates seat (hseat.dismiss hd)⟩

/-! ### Arrivals -/

theorem sitDown_eq {table : Table} (hsit : g.table.sit a.player = .ok table) :
    g.handle a.request = .done { g with
      table
      chipsAtStart := if g.isUnderway then g.chipsAtStart + a.stack else g.chipsAtStart } := by
  have hsit : g.table.sit { id := a.id, name := a.name, stack := a.stack, seat := a.seat } =
    .ok table := hsit
  rw [Arrival.request, Game.handle, Game.sitDown, hsit]

/-- Nobody can sit down on a seat that is not empty. -/
theorem sitDown_refused (htaken : g.table.places[a.seat]? ≠ some none) :
    (g.handle a.request).error? ≠ none := by
  rw [Arrival.request, Game.handle, Game.sitDown]
  split
  · exact Option.some_ne_none _
  · rename_i table hsit
    exact absurd (Table.places_sit hsit).1 htaken

/-- **New players can sit down on empty seats.** -/
theorem arrivals_go (h : g.table.Admits arrivals) :
    g.GoesThrough (arrivals.map Arrival.request) ∧
    ∃ table chipsAtStart, g.handleAll (arrivals.map Arrival.request) =
      { g with table, chipsAtStart } ∧ g.table.Seated arrivals table := by
  induction arrivals generalizing g with
  | nil =>
    exact ⟨trivial, g.table, g.chipsAtStart, rfl, fun _ h ↦ Or.inl h, fun _ h ↦ h, fun _ _ h ↦ h⟩
  | cons a arrivals ih =>
    obtain ⟨table, hsit, hrest⟩ := h.sit
    obtain ⟨hgoes, table', chips, heq, hseated⟩ := ih (g := (g.handle a.request).state) <| by
      rw [sitDown_eq hsit]
      exact hrest
    rw [List.map_cons, GoesThrough, Game.handleAll]
    rw [sitDown_eq hsit] at hgoes heq hseated ⊢
    exact ⟨⟨rfl, hgoes⟩, table', chips, heq, .cons hsit hseated⟩

/-! ### The next hand -/

/-- **The seats of those who have left are free in the next hand**, which starts if enough players
have chips. -/
theorem Closed.beginHand (h : g.Closed w) (hready : g.variant.minPlayers ≤ g.readyPlayers) :
    (g.variant.CountsFit → g.bankrolls.chips ≤ maxStack →
      (g.handle .beginHand).error? = none) ∧
      (g.handle .beginHand).state.table.places = g.table.prepare.moveButton.places := by
  rw [Game.handle, Game.beginHand, beginOnce_eq h.stage hready]
  refine ⟨fun hcards hfits ↦ ?_, congrArg Seating.places (h.begins hready).state.seating⟩
  exact (carryOn_regular (h.toWhole.takeStep_freshHand hready hcards hfits)).error?_eq_none

/-- What is asked of a game before the next hand: some players leave, and others sit down. -/
def beforeHand (leaving : List PlayerId) (early : List Arrival) : List Request :=
  leaving.map .standUp ++ early.map Arrival.request

/-- **A table can be refilled.** Between two hands whoever is seated can leave, and new players can
sit down on the seats that are empty. A seat that is not empty stays taken until the next hand. But
the next hand can be started once enough players have chips, and then new players can sit down on
the seats of those who have left. It starts without an error if all chips fit into one stack and the
cards of the rules can be counted. -/
theorem table_refills (h : g.Played) (hwaiting : g.isUnderway = false)
    (hplan : g.table.Refill leaving early late) :
    g.GoesThrough (beforeHand leaving early) ∧
    (∀ a : Arrival, g.table.seats[a.seat]? ≠ some none →
      ((g.handleAll (beforeHand leaving early)).handle a.request).error? ≠ none) ∧
    (g.variant.minPlayers ≤ (g.handleAll (beforeHand leaving early)).readyPlayers →
      (g.variant.CountsFit →
        (g.handleAll (beforeHand leaving early)).bankrolls.chips ≤ maxStack →
        ((g.handleAll (beforeHand leaving early)).handle .beginHand).error? = none) ∧
      ((g.handleAll (beforeHand leaving early)).handle .beginHand).state.GoesThrough
        (late.map Arrival.request)) := by
  obtain ⟨w, hrest⟩ := h.rested
  obtain ⟨hleave, left, hleft, hplaces, hvacates⟩ :=
    departures_go (hrest.closed hwaiting).distinct hwaiting hplan.seated
  obtain ⟨hcome, table, chips, hcame, hseated⟩ := arrivals_go (g := { g with table := left })
    (hplan.admits_early hplaces)
  have hbefore : g.handleAll (beforeHand leaving early) =
      { g with table, chipsAtStart := chips } := by
    rw [beforeHand, handleAll_append, hleft, hcame]
  have hgoes : g.GoesThrough (beforeHand leaving early) :=
    goesThrough_append.2 ⟨hleave, hleft ▸ hcome⟩
  have hplayed := h.handleAll (beforeHand leaving early)
  rw [hbefore] at hplayed ⊢
  -- departures keep every place, and arrivals only fill empty ones, so a taken seat stays taken
  refine ⟨hgoes, fun a htaken ↦ sitDown_refused fun hempty ↦ htaken ?_, fun hready ↦ ?_⟩
  · exact Table.places_eq_none_iff.1 (hplaces ▸ hseated.empty a.seat hempty)
  -- nobody changes seats while the hand goes on, so what it frees at first is free afterwards
  · obtain ⟨w', hrest'⟩ := hplayed.rested
    obtain ⟨hstarts, hnext⟩ := (hrest'.closed hwaiting).beginHand hready
    exact ⟨hstarts, (arrivals_go (hplan.admits_late hplaces hvacates hseated hnext)).1⟩

/-- A table for `Variant.acesAndKings` where two of three seats are taken. -/
def acesAndKingsSeated : Game :=
  acesAndKings.handleAll [.sitDown 1 "Ann" 100 0, .sitDown 2 "Bob" 100 1]

/-- The second player leaves, and a third one sits down on the empty seat. When the hand has
started, a fourth one gets the seat of the second. -/
theorem acesAndKingsSeated_refills : acesAndKingsSeated.GoesThrough
    [.standUp 2, .sitDown 3 "Cid" 100 2, .beginHand, .sitDown 4 "Dan" 100 1] := by
  have hplayed : acesAndKingsSeated.Played := acesAndKings_reachable.played.handleAll _
  have hseats : acesAndKingsSeated.table.seats =
      [some ⟨1, "Ann", 100, 0, [], false, false⟩, some ⟨2, "Bob", 100, 1, [], false, false⟩,
        none] := by
    decide +kernel
  have hids : acesAndKingsSeated.table.ids = [1, 2] := by decide +kernel
  have hplan : acesAndKingsSeated.table.Refill [2] [⟨3, "Cid", 100, 2⟩] [⟨4, "Dan", 100, 1⟩] := by
    refine ⟨?_, ?_, by decide, by decide, ?_, ?_⟩
    · rw [hids]
      decide
    · rw [hids]
      simp
    · rw [hseats]
      simp
    · simp only [List.mem_singleton, forall_eq, Table.Vacates, hseats]
      exact ⟨_, rfl, fun p hp ↦ Or.inr (by simp [← Option.some.inj hp])⟩
  obtain ⟨hbefore, -, hafter⟩ := table_refills hplayed (by decide +kernel) hplan
  obtain ⟨hstarts, hlate⟩ := hafter (by decide +kernel)
  have hrest : (acesAndKingsSeated.handleAll
      (beforeHand [2] [⟨3, "Cid", 100, 2⟩])).GoesThrough [.beginHand, .sitDown 4 "Dan" 100 1] :=
    ⟨hstarts (by decide +kernel) (by decide +kernel), hlate⟩
  exact goesThrough_append.2 ⟨hbefore, hrest⟩

/-! ### Tables that cannot be refilled -/

/-- A table for `Variant.fourAces` with two seats, when the second of its two players has left. -/
def fourAcesLeft : Game :=
  fourAces.handleAll [.sitDown 1 "Ann" 100 0, .sitDown 2 "Bob" 100 1, .standUp 2]

/-- A table for `Variant.aceOrKing` with an ante of one that plays on by itself. -/
def aceOrKing : Game where
  variant := .aceOrKing
  settings := { seats := 2, stakes := { ante := 1 }, autoProgress := true }
  seed := 0
  table := Table.ofDeck 2 Variant.aceOrKing.deck 0 []
  betting := { limits := .noLimit, stakes := { ante := 1 } }
  history := History.start "Ace or King" 0 0 none

theorem aceOrKing_played : aceOrKing.Played :=
  have hopen : openTable .aceOrKing
      { seats := 2, stakes := { ante := 1 }, autoProgress := true } 0 = .ok aceOrKing := rfl
  .opened Variant.aceOrKing_isLoaded hopen

/-- One player has a single chip, and the other one has as many as a stack can hold. -/
def aceOrKingRich : Game :=
  aceOrKing.handleAll [.sitDown 1 "Ann" 1 0, .sitDown 2 "Bob" maxStack 1]

/-- **A table cannot always be refilled.** At a full table the seat of a player who has left is not
free for anybody, and if too few players are left, the next hand, which would free it, does not
start. And a hand that enough players can start stops if somebody wins more chips than a stack can
hold. -/
theorem freed_seats_stay_taken :
    (fourAcesLeft.Reachable ∧ fourAcesLeft.isUnderway = false ∧
      (∀ a : Arrival, (fourAcesLeft.handle a.request).error? ≠ none) ∧
      (fourAcesLeft.handle .beginHand).error? = some (.refused (.tooFewPlayers 2 1))) ∧
    aceOrKingRich.Played ∧ aceOrKingRich.isUnderway = false ∧
      aceOrKingRich.variant.minPlayers ≤ aceOrKingRich.readyPlayers ∧
      (aceOrKingRich.handle .beginHand).error? =
        some (.breach (.chipsAmiss (maxStack + 1) maxStack)) := by
  have hplaces : fourAcesLeft.table.places = [some 1, some 2] := by decide +kernel
  refine ⟨⟨fourAces_reachable.handleAll (by decide +kernel), by decide +kernel,
    fun a ↦ sitDown_refused ?_, by decide +kernel⟩, aceOrKing_played.handleAll _, by decide +kernel,
    by decide +kernel, by decide +kernel⟩
  rw [hplaces]
  rcases a.seat with - | - | seat <;> simp

end Game

end DealersChoice
