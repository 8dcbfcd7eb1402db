import DealersChoice.Proofs.Hand.Selections
import DealersChoice.Proofs.Table.Giving

/-!
# Drawing replaces all cards or none

Cards are drawn from the undealt ones, and when these are used up the muck is shuffled and drawn
from next. So there is one sequence that any number of draws takes a prefix of (`Table.drawOrder`),
and a draw can fail only when it has come to its end.

An exchange counts the cards before it takes any. Either they are too few and nothing changes, or
each of its draws succeeds: the cards that it takes stood in the sequence before, and what the
player gives up joins the muck when the last card has been drawn (`exchange_all_or_nothing`).
-/

namespace DealersChoice

/-! ### The cards at some positions -/

/-- The elements whose positions pass a test. -/
theorem map_filter_zipIdx_eq_pick {α : Type} (l : List α) (test : Nat → Bool) :
    (l.zipIdx.filter fun d ↦ test d.2).map (·.1) = pick l ((List.range l.length).filter test) := by
  have hpositions : (List.range l.length).filter test =
      (l.zipIdx.filter fun d ↦ test d.2).map (·.2) := by
    rw [List.range_eq_range', ← List.zipIdx_map_snd 0 l, List.filter_map]
    rfl
  rw [hpositions, pick, List.filterMap_map]
  refine (List.filterMap_eq_map_iff_forall_eq_some.2 fun d hd ↦ ?_).symm
  exact List.mk_mem_zipIdx_iff_getElem?.1 (List.mem_filter.1 hd).1

namespace Player

variable {p : Player} {card : Card} {facing : Facing}

/-- Adds cards to the end of the hand. -/
def giveAll (p : Player) (cards : List Card) (facing : Facing) : Player :=
  { p with hand := p.hand ++ cards.map fun card ↦ { card, facing } }

@[simp] theorem giveAll_nil : p.giveAll [] facing = p := by
  simp [giveAll]

@[simp] theorem giveAll_give (cards : List Card) :
    (p.give card facing).giveAll cards facing = p.giveAll (card :: cards) facing := by
  simp [giveAll, give]

/-- The cards of a hand at some positions, in the order of the hand. -/
def cardsAt (p : Player) (positions : List Nat) : List LaidCard :=
  pick p.hand ((List.range p.hand.length).filter (· ∈ positions))

/-- The cards of a hand at all other positions, in the order of the hand. -/
def cardsBut (p : Player) (positions : List Nat) : List LaidCard :=
  pick p.hand ((List.range p.hand.length).filter (· ∉ positions))

theorem selected_eq (p : Player) (positions : List Nat) : p.selected positions = p.cardsAt positions := by
  rw [selected, map_filter_zipIdx_eq_pick p.hand (positions.contains ·), cardsAt]
  simp

theorem unselected_eq (p : Player) (positions : List Nat) :
    p.unselected positions = p.cardsBut positions := by
  rw [unselected, map_filter_zipIdx_eq_pick p.hand (!positions.contains ·), cardsBut]
  simp

end Player

namespace Table

variable {t t' t'' : Table} {who : PlayerId} {p q : Player} {before after : List (Option Player)}
  {n m : Nat}

/-! ### One seat -/

/-- A player sits between these seats, and on none of the former. -/
structure SitsBetween (t : Table) (p : Player) (before after : List (Option Player)) : Prop where
  seats : t.seats = before ++ some p :: after
  first : ∀ seat ∈ before, seat.any (·.id == p.id) = false

theorem exists_sitsBetween (h : t.player? who = some p) :
    ∃ before after, t.SitsBetween p before after := by
  obtain rfl : p.id = who := (mem_players_of_player? h).2
  rw [player?, players, List.find?_filterMap] at h
  obtain ⟨seat, hseat, rfl⟩ := Option.bind_eq_some_iff.1 h
  obtain ⟨before, after, -, hseats, hfirst, -⟩ := exists_modify_eq hseat
  exact ⟨before, after, hseats, hfirst⟩

namespace SitsBetween

/-- Whoever sits there is the player of that number. -/
theorem player? (h : t.SitsBetween p before after) : t.player? p.id = some p := by
  have hfirst : before.find? (fun seat ↦ (id seat).any (·.id == p.id)) = none :=
    List.find?_eq_none.2 fun seat hseat ↦ by simpa using h.first seat hseat
  rw [Table.player?, players, List.find?_filterMap, h.seats, List.find?_append, hfirst]
  simp

/-- A change of the player changes this seat only. -/
theorem modifyPlayer (h : t.SitsBetween p before after) {f : Player → Player}
    (hid : (f p).id = p.id) : (t.modifyPlayer p.id f).SitsBetween (f p) before after := by
  refine ⟨?_, fun seat hseat ↦ hid ▸ h.first seat hseat⟩
  have hi : t.seats.findIdx? (fun seat ↦ seat.any (·.id == p.id)) = some before.length := by
    have hnone : before.findIdx? (fun seat ↦ seat.any (·.id == p.id)) = none :=
      List.findIdx?_eq_none_iff.2 h.first
    rw [h.seats, List.findIdx?_append, hnone]
    simp [List.findIdx?_cons]
  rw [Table.modifyPlayer, hi]
  show t.seats.modify before.length _ = _
  rw [h.seats, List.modify_eq_take_cons_drop (by simp)]
  simp

theorem congr (h : t.SitsBetween p before after) (hseats : t'.seats = t.seats) :
    t'.SitsBetween p before after :=
  ⟨hseats.trans h.seats, h.first⟩

end SitsBetween

/-! ### The order in which cards are drawn -/

/-- The undealt cards, and after them the muck as it will be shuffled. -/
def drawOrder (t : Table) : List Card :=
  (t.deck.replenish t.muck).undealt

theorem drawOrder_eq (t : Table) :
    t.drawOrder = t.deck.undealt ++ (shuffle t.deck.stream t.muck).1 := rfl

theorem length_drawOrder (t : Table) : t.drawOrder.length = t.stock := by
  rw [drawOrder, (Deck.undealt_replenish_perm t.deck t.muck).length_eq, List.length_append]
  rfl

/-- So many cards have been drawn. The muck has been shuffled if the undealt ones were too few. -/
structure Drawn (t : Table) (n : Nat) (t' : Table) : Prop where
  order : t'.drawOrder = t.drawOrder.drop n
  button : t'.button = t.button
  zones : t'.zones = t.zones
  composition : t'.deck.composition = t.deck.composition
  fromDeck : n ≤ t.deck.count → t'.muck = t.muck ∧ t'.deck.stream = t.deck.stream
  fromMuck : t.deck.count < n → t'.muck = []

namespace Drawn

theorem refl (t : Table) : t.Drawn 0 t :=
  ⟨rfl, rfl, rfl, rfl, fun _ ↦ ⟨rfl, rfl⟩, fun h ↦ absurd h (Nat.not_lt_zero _)⟩

theorem stock (h : t.Drawn n t') : t'.stock = t.stock - n := by
  rw [← length_drawOrder, h.order, List.length_drop, length_drawOrder]

/-- If there were enough of them, the undealt cards after the first ones are left. -/
theorem undealt_of_le (h : t.Drawn n t') (hn : n ≤ t.deck.count) :
    t'.deck.undealt = t.deck.undealt.drop n := by
  obtain ⟨hmuck, hstream⟩ := h.fromDeck hn
  have horder := h.order
  rw [drawOrder_eq, drawOrder_eq, hmuck, hstream, List.drop_append_of_le_length hn] at horder
  exact List.append_cancel_right horder

theorem deck_of_le (h : t.Drawn n t') (hn : n ≤ t.deck.count) :
    t'.deck = { t.deck with undealt := t.deck.undealt.drop n } := by
  show t'.deck = ⟨t.deck.composition, t.deck.undealt.drop n, t.deck.stream⟩
  rw [← h.composition, ← h.undealt_of_le hn, ← (h.fromDeck hn).2]

/-- If not, the rest of the shuffled muck is. -/
theorem undealt_of_lt (h : t.Drawn n t') (hn : t.deck.count < n) :
    t'.deck.undealt = t.drawOrder.drop n := by
  rw [← h.order, drawOrder_eq, h.fromMuck hn]
  exact (List.append_nil _).symm

theorem trans (h : t.Drawn n t') (h' : t'.Drawn m t'') : t.Drawn (n + m) t'' where
  order := by rw [h'.order, h.order, List.drop_drop]
  button := h'.button.trans h.button
  zones := h'.zones.trans h.zones
  composition := h'.composition.trans h.composition
  fromDeck := by
    intro hle
    have hn : n ≤ t.deck.count := by omega
    have hm : m ≤ t'.deck.count := by
      rw [Deck.count, h.undealt_of_le hn, List.length_drop]
      exact Nat.le_sub_of_add_le' hle
    obtain ⟨hmuck, hstream⟩ := h.fromDeck hn
    obtain ⟨hmuck', hstream'⟩ := h'.fromDeck hm
    exact ⟨hmuck'.trans hmuck, hstream'.trans hstream⟩
  fromMuck := by
    intro hlt
    by_cases hm : t'.deck.count < m
    · exact h'.fromMuck hm
    · rw [(h'.fromDeck (Nat.not_lt.1 hm)).1]
      -- the muck was shuffled during the first draws
      refine h.fromMuck ?_
      by_contra hn
      rw [Deck.count, h.undealt_of_le (Nat.not_lt.1 hn), List.length_drop] at hm
      rw [Deck.count] at hlt hn
      omega

theorem modifyPlayer (h : t.Drawn n t') (who : PlayerId) (f : Player → Player) :
    t.Drawn n (t'.modifyPlayer who f) := by
  have heq := modifyPlayer_eq t' who f
  refine ⟨?_, ?_, ?_, ?_, ?_, ?_⟩ <;> rw [heq]
  · exact h.order
  · exact h.button
  · exact h.zones
  · exact h.composition
  · exact h.fromDeck
  · exact h.fromMuck

end Drawn

/-- **There is a next card as long as there is any**, and it is the first in the order. -/
theorem exists_nextCard?_eq (hstock : 0 < t.stock) : ∃ card next, t.nextCard? = some (card, next) ∧
    t.Drawn 1 next ∧ next.seats = t.seats ∧ t.drawOrder.take 1 = [card] := by
  cases hundealt : t.deck.undealt with
  | cons card rest =>
    refine ⟨card, { t with deck := { t.deck with undealt := rest } }, ?_, ?_, rfl, ?_⟩
    · simp [nextCard?, Deck.count, Deck.top?, hundealt]
    · refine ⟨?_, rfl, rfl, rfl, fun _ ↦ ⟨rfl, rfl⟩, fun hlt ↦ ?_⟩
      · rw [drawOrder_eq, drawOrder_eq, hundealt]
        rfl
      · rw [Deck.count, hundealt, List.length_cons] at hlt
        omega
    · rw [drawOrder_eq, hundealt]
      rfl
  | nil =>
    have hmuck : t.muck ≠ [] := by
      rintro hnil
      rw [Table.stock, Deck.count, hundealt, hnil] at hstock
      exact Nat.lt_irrefl 0 hstock
    have hne : (shuffle t.deck.stream t.muck).1 ≠ [] := fun hnil ↦
      hmuck (hnil ▸ (shuffle_perm t.deck.stream t.muck)).nil_eq.symm
    obtain ⟨card, rest, hshuffled⟩ := List.exists_cons_of_ne_nil hne
    refine ⟨card, { t with
      deck := { t.deck with undealt := rest, stream := (shuffle t.deck.stream t.muck).2 }
      muck := [] }, ?_, ?_, rfl, ?_⟩
    · simp [nextCard?, Deck.count, Deck.top?, Deck.replenish, hundealt, hmuck, hshuffled]
    · refine ⟨?_, rfl, rfl, rfl, fun hle ↦ ?_, fun _ ↦ rfl⟩
      · rw [drawOrder_eq, drawOrder_eq, hundealt, hshuffled]
        exact List.append_nil _
      · rw [Deck.count, hundealt, List.length_nil] at hle
        omega
    · rw [drawOrder_eq, hundealt, hshuffled]
      rfl

/-- Cards that are dealt to one player, one after another, are the first ones in the order. -/
theorem exists_times_dealTo_eq (h : t.SitsBetween p before after) (hstock : n ≤ t.stock)
    (step : String) (facing : Facing) :
    ∃ t', Attempt.times n (dealTo step facing p.id) t = .done t' ∧ t.Drawn n t' ∧
      t'.SitsBetween (p.giveAll (t.drawOrder.take n) facing) before after := by
  induction n generalizing t p with
  | zero => exact ⟨t, rfl, .refl t, by simpa using h⟩
  | succ n ih =>
    obtain ⟨card, next, hnext, hdrawn, hseats, hcard⟩ :=
      exists_nextCard?_eq (Nat.lt_of_lt_of_le (Nat.succ_pos n) hstock)
    let dealt := next.modifyPlayer p.id (·.give card facing)
    have hdealt : dealTo step facing p.id t = .done dealt := by
      rw [dealTo, withCard, hnext]
    have hone : t.Drawn 1 dealt := hdrawn.modifyPlayer p.id _
    have hsits : dealt.SitsBetween (p.give card facing) before after :=
      (h.congr hseats).modifyPlayer (f := (·.give card facing)) rfl
    obtain ⟨t', hrest, hdrawn', hsits'⟩ := ih hsits (by have := hone.stock; omega)
    refine ⟨t', ?_, Nat.add_comm 1 n ▸ hone.trans hdrawn', ?_⟩
    · rw [Attempt.times, hdealt, Attempt.andThen_done]
      exact hrest
    · have horder : t.drawOrder.take (n + 1) = card :: dealt.drawOrder.take n := by
        rw [hone.order, Nat.add_comm n 1, List.take_add, hcard, List.singleton_append]
      rwa [horder, ← Player.giveAll_give]

/-! ### Exchanges -/

/-- Some cards of a player have been replaced, as many as `positions` names. With the muck shuffled
like this, the new cards are the first of the undealt ones and of the muck after them. -/
structure Exchanged (t : Table) (p : Player) (positions : List Nat) (facing : Facing)
    (shuffled : List Card) (t' : Table) : Prop where
  /-- Everybody sits where they sat, and only this hand has changed. -/
  seats : ∃ before after, t.SitsBetween p before after ∧ t'.SitsBetween { p with
    hand := p.cardsBut positions ++ ((t.deck.undealt ++ shuffled).take positions.length).map
      fun card ↦ { card, facing } } before after
  /-- Each card has been replaced. -/
  complete : ((t.deck.undealt ++ shuffled).take positions.length).length = positions.length
  fromDeck : positions.length ≤ t.deck.count →
    t'.deck = { t.deck with undealt := t.deck.undealt.drop positions.length } ∧
      t'.muck = t.muck ++ (p.cardsAt positions).map (·.card)
  fromMuck : t.deck.count < positions.length →
    t'.deck.undealt = (t.deck.undealt ++ shuffled).drop positions.length ∧
      t'.muck = (p.cardsAt positions).map (·.card)
  composition : t'.deck.composition = t.deck.composition
  button : t'.button = t.button
  zones : t'.zones = t.zones

theorem exists_exchange_eq_done {positions : List Nat} (hp : t.player? who = some p)
    (hnodup : positions.Nodup) (hheld : ∀ i ∈ positions, i < p.hand.length)
    (hstock : positions.length ≤ t.stock) (step : String) (facing : Facing) :
    ∃ t', t.exchange step who positions facing = .done t' ∧
      t.Exchanged p positions facing (shuffle t.deck.stream t.muck).1 t' := by
  obtain rfl : p.id = who := (mem_players_of_player? hp).2
  obtain ⟨before, after, hsits⟩ := exists_sitsBetween hp
  let kept := t.modifyPlayer p.id (·.keep positions)
  have hkept : kept.SitsBetween (p.keep positions) before after :=
    hsits.modifyPlayer (f := (·.keep positions)) rfl
  have hnone : t.Drawn 0 kept := (Drawn.refl t).modifyPlayer p.id (·.keep positions)
  have horder : kept.drawOrder = t.drawOrder := hnone.order
  obtain ⟨drawn, htimes, hdrawn, hhand⟩ := exists_times_dealTo_eq hkept
    (show positions.length ≤ kept.stock from hnone.stock ▸ hstock) step facing
  have hall : t.Drawn positions.length drawn := by simpa using hnone.trans hdrawn
  have hsize : (p.selected positions).length = positions.length :=
    Player.length_selected hnodup hheld
  refine ⟨drawn.toMuck (p.selected positions), ?_, ?_⟩
  · have hfits : ¬t.deck.count + t.muck.length < positions.length := Nat.not_lt.2 hstock
    rw [exchange, if_neg hfits, hp]
    simp only [hsize]
    exact congrArg (Attempt.thenDo · (·.toMuck (p.selected positions))) htimes
  · rw [horder, Player.giveAll, Player.keep, Player.unselected_eq, drawOrder_eq] at hhand
    refine ⟨⟨before, after, hsits, hhand.congr rfl⟩, ?_, fun hle ↦ ⟨?_, ?_⟩, fun hlt ↦ ⟨?_, ?_⟩,
      hall.composition, hall.button, hall.zones⟩
    · rw [← drawOrder_eq, List.length_take, length_drawOrder]
      exact Nat.min_eq_left hstock
    · exact hall.deck_of_le hle
    · rw [← Player.selected_eq, ← (hall.fromDeck hle).1]
      rfl
    · exact hall.undealt_of_lt hlt
    · rw [← Player.selected_eq]
      exact congrArg (· ++ _) (hall.fromMuck hlt)

/-- **An exchange replaces all cards or none.** It stops exactly if the undealt cards and the muck
are together fewer than the cards to be replaced, and then it has changed nothing. Otherwise the
player keeps the other cards in their order and gets as many new ones after them, the undealt cards
first and then those of the muck in some order. What the player gives up is in the muck, and nothing
else has changed. -/
theorem exchange_all_or_nothing {positions : List Nat} (hp : t.player? who = some p)
    (hnodup : positions.Nodup) (hheld : ∀ i ∈ positions, i < p.hand.length) (step : String)
    (facing : Facing) :
    ((t.exchange step who positions facing).error? ≠ none ↔
      t.deck.count + t.muck.length < positions.length) ∧
    (t.deck.count + t.muck.length < positions.length →
      t.exchange step who positions facing = .stop t (.noCards step)) ∧
    (positions.length ≤ t.deck.count + t.muck.length →
      ∃ t' shuffled, t.exchange step who positions facing = .done t' ∧ shuffled.Perm t.muck ∧
        t.Exchanged p positions facing shuffled t') := by
  have hstop : t.deck.count + t.muck.length < positions.length →
      t.exchange step who positions facing = .stop t (.noCards step) := fun hfew ↦ if_pos hfew
  have hdone := fun henough ↦ exists_exchange_eq_done hp hnodup hheld henough step facing
  refine ⟨⟨fun herror ↦ ?_, fun hfew ↦ ?_⟩, hstop, fun henough ↦ ?_⟩
  · by_contra henough
    obtain ⟨t', hexchange, -⟩ := hdone (Nat.not_lt.1 henough)
    exact herror (hexchange ▸ rfl)
  · rw [hstop hfew]
    exact Option.some_ne_none _
  · obtain ⟨t', hexchange, hexchanged⟩ := hdone henough
    exact ⟨t', _, hexchange, shuffle_perm _ _, hexchanged⟩

/-- A player with three cards. -/
def cardHolder : Player :=
  { id := 1, name := "Ann", stack := 100, seat := 1
    hand := [⟨⟨.clubs, .two⟩, .down⟩, ⟨⟨.hearts, .king⟩, .up⟩, ⟨⟨.spades, .three⟩, .down⟩] }

/-- A table with one card to deal and two in the muck. -/
def shortTable : Table :=
  { seats := [none, some cardHolder], zones := []
    deck := { Deck.ofSeed (.ofName .standard) 0 with undealt := [⟨.clubs, .ace⟩] }
    muck := [⟨.clubs, .five⟩, ⟨.clubs, .six⟩] }

/-- For two cards the muck is shuffled during the draw, and the king stays. -/
theorem king_stays : ∃ t' shuffled, shortTable.exchange "draw" 1 [0, 2] .down = .done t' ∧
    shuffled.Perm [⟨.clubs, .five⟩, ⟨.clubs, .six⟩] ∧
    shortTable.Exchanged cardHolder [0, 2] .down shuffled t' := by
  have hp : shortTable.player? 1 = some cardHolder := rfl
  exact (exchange_all_or_nothing hp (by decide) (by decide) "draw" .down).2.2 (by decide)

end Table

end DealersChoice
