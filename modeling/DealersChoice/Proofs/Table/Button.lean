import DealersChoice.Proofs.Table.Places
import Mathlib.Data.List.Find

/-!
# The button goes round

For a new hand the button moves to the next seat whose player can play. What decides where it stops
are those seats, read clockwise from the button on (`Table.readyRound`): it stops at the first of
them, and read from there that seat is the last one and the others have moved up
(`Table.readyRound_moveButton`). So `n` moves turn the round by `n` (`Table.readyRound_iterate`),
and as many moves as there are such seats stop once at each.

The order of a hand is read along the same walk, so that it ends with the player at the button. That
no player is named twice in it needs `Table.Distinct`; that no seat is read twice does not.
-/

namespace DealersChoice

namespace Table

variable {t : Table} {kind : Player → Bool} {start seat : Nat}

/-! ### Clockwise -/

/-- The seat that orders start after: that of the button, or the last one while there is no
button. -/
def buttonSeat (t : Table) : Nat :=
  t.button.getD (t.seatCount - 1)

/-- How many seats lie between two seats, clockwise. From a seat to itself these are all the
others. -/
def gap (t : Table) (start seat : Nat) : Nat :=
  (seat + t.seatCount - (start + 1) % t.seatCount) % t.seatCount

/-- All seats whose players are of some kind, each once, clockwise from a seat on. -/
structure GoesRound (t : Table) (start : Nat) (kind : Player → Bool) (round : List Nat) : Prop where
  mem_iff : ∀ seat, seat ∈ round ↔ ∃ p, t.seats[seat]? = some (some p) ∧ kind p = true
  ascend : round.Pairwise fun seat next ↦ t.gap start seat < t.gap start next

/-- All seats, clockwise from a seat on, which comes last. -/
def clockwise (t : Table) (start : Nat) : List Nat :=
  (List.range t.seatCount).rotate (start + 1)

/-- Who sits on a seat. -/
def occupant (t : Table) (seat : Nat) : Option Player :=
  t.seats[seat]?.join

theorem map_occupant_range (t : Table) : (List.range t.seatCount).map t.occupant = t.seats := by
  refine List.ext_getElem (by simp [seatCount]) fun i _ hi ↦ ?_
  rw [List.getElem_map, List.getElem_range, occupant, List.getElem?_eq_getElem hi]
  rfl

theorem any_occupant_iff :
    (t.occupant seat).any kind = true ↔ ∃ p, t.seats[seat]? = some (some p) ∧ kind p = true := by
  rw [occupant]
  rcases t.seats[seat]? with - | - | p <;> simp

/-- Clockwise from a seat on, the gaps go up one by one. -/
theorem map_gap_clockwise (t : Table) (start : Nat) :
    (t.clockwise start).map (t.gap start) = List.range t.seatCount := by
  refine List.ext_getElem (by simp [clockwise]) fun i hi _ ↦ ?_
  have hlt : i < t.seatCount := by simpa [clockwise] using hi
  have hstart : (start + 1) % t.seatCount < t.seatCount := Nat.mod_lt _ (Nat.zero_lt_of_lt hlt)
  simp only [clockwise, List.getElem_map, List.getElem_rotate, List.getElem_range, List.length_range,
    gap]
  rw [Nat.add_mod_eq_ite, Nat.mod_eq_of_lt hlt]
  split
  · rename_i hwraps
    rw [Nat.sub_add_cancel hwraps, Nat.add_sub_cancel, Nat.mod_eq_of_lt hlt]
  · rw [Nat.add_right_comm, Nat.add_sub_cancel, Nat.add_mod_right, Nat.mod_eq_of_lt hlt]

/-- **From the seat that is reached next, the walk goes on as before** and ends with what was
passed. -/
theorem clockwise_of_split {before after : List Nat}
    (h : t.clockwise start = before ++ seat :: after) :
    t.clockwise seat = after ++ (before ++ [seat]) := by
  have hlt : before.length < t.seatCount := by
    have hlength : (t.clockwise start).length = t.seatCount := by simp [clockwise]
    rw [← hlength, h, List.length_append, List.length_cons]
    omega
  have hseat : seat = (before.length + (start + 1)) % t.seatCount := by
    have hget : (t.clockwise start)[before.length]? = some seat := by simp [h]
    rw [clockwise, List.getElem?_rotate (by simpa using hlt), List.length_range,
      List.getElem?_range (Nat.mod_lt _ (Nat.zero_lt_of_lt hlt))] at hget
    exact (Option.some.inj hget).symm
  have hmod := List.rotate_mod (List.range t.seatCount)
  rw [List.length_range] at hmod
  calc t.clockwise seat
      = (List.range t.seatCount).rotate ((before.length + (start + 1) + 1) % t.seatCount) := by
        rw [clockwise, ← hmod, hseat, Nat.mod_add_mod]
    _ = (t.clockwise start).rotate (before.length + 1) := by
        rw [hmod, clockwise, List.rotate_rotate]
        congr 1
        omega
    _ = (before ++ [seat] ++ after).rotate (before ++ [seat]).length := by simp [h]
    _ = after ++ (before ++ [seat]) := List.rotate_append_length_eq ..

/-! ### Seats of some kind -/

/-- The seats whose players are of some kind, clockwise from a seat on. -/
def roundFrom (t : Table) (start : Nat) (kind : Player → Bool) : List Nat :=
  (t.clockwise start).filter fun seat ↦ (t.occupant seat).any kind

theorem goesRound_roundFrom (t : Table) (start : Nat) (kind : Player → Bool) :
    t.GoesRound start kind (t.roundFrom start kind) := by
  refine ⟨fun seat ↦ ?_, ?_⟩
  · rw [roundFrom, List.mem_filter, any_occupant_iff, clockwise, List.mem_rotate, List.mem_range]
    exact and_iff_right_of_imp fun ⟨p, hp, _⟩ ↦ (List.getElem?_eq_some_iff.1 hp).1
  · have hgaps : ((t.clockwise start).map (t.gap start)).Pairwise (· < ·) := by
      rw [map_gap_clockwise]
      exact List.pairwise_lt_range
    exact (List.pairwise_map.1 hgaps).filter _

theorem length_roundFrom (t : Table) (start : Nat) (kind : Player → Bool) :
    (t.roundFrom start kind).length = t.seats.countP (·.any kind) := by
  conv_rhs => rw [← map_occupant_range, List.countP_map]
  rw [roundFrom, ← List.countP_eq_length_filter, clockwise, (List.rotate_perm _ _).countP_eq]
  rfl

/-- Read from the first of some seats on, that one comes last. -/
theorem roundFrom_of_cons {first : Nat} {rest : List Nat}
    (h : t.roundFrom start kind = first :: rest) : t.roundFrom first kind = rest ++ [first] := by
  obtain ⟨before, after, hsplit, hbefore, hfirst, hafter⟩ := List.filter_eq_cons_iff.1 h
  rw [roundFrom, clockwise_of_split hsplit, List.filter_append, List.filter_append, hafter,
    List.filter_eq_nil_iff.2 hbefore, List.filter_singleton, hfirst]
  rfl

/-! ### Moves of the button -/

/-- The seats whose players can play, as the button is going to reach them. -/
def readyRound (t : Table) : List Nat :=
  t.roundFrom t.buttonSeat Player.isReady

/-- Without a button the walk starts with the first seat. -/
theorem clockwise_last (t : Table) : t.clockwise (t.seatCount - 1) = List.range t.seatCount := by
  rw [clockwise]
  rcases Nat.eq_zero_or_pos t.seatCount with hzero | hpos
  · simp [hzero]
  · rw [Nat.sub_add_cancel hpos]
    have hlength := List.rotate_length (List.range t.seatCount)
    rwa [List.length_range] at hlength

/-- **The button stops at the first seat of the round**, and a move changes nothing else. -/
theorem moveButton_eq (t : Table) : t.moveButton = { t with button := t.readyRound.head? } := by
  rw [readyRound, roundFrom, List.head?_filter, moveButton]
  congr 1
  refine (List.find?_congr fun seat _ ↦ ?_).trans (congrArg (List.find? _) ?_)
  · rw [occupant]
    rcases t.seats[seat]? with - | - | p <;> rfl
  · cases hbutton : t.button with
    | some seat =>
      rw [buttonSeat, hbutton, rotateLeft_eq_rotate]
      rfl
    | none =>
      rw [buttonSeat, hbutton, rotateLeft_eq_rotate, List.rotate_zero]
      exact (clockwise_last t).symm

/-- **The button moves to somebody who can play**, if anybody can. -/
theorem exists_button_moveButton (h : ∃ p ∈ t.players, p.isReady = true) :
    ∃ seat p, t.moveButton.button = some seat ∧ t.seats[seat]? = some (some p) ∧
      p.isReady = true := by
  have hround : t.GoesRound t.buttonSeat Player.isReady t.readyRound := goesRound_roundFrom ..
  obtain ⟨p, hp, hready⟩ := h
  obtain ⟨entry, hentry, rfl⟩ := List.mem_filterMap.1 hp
  obtain ⟨seat, hseat⟩ := List.getElem?_of_mem hentry
  have hmem := (hround.mem_iff seat).2 ⟨p, hseat, hready⟩
  obtain ⟨first, rest, hfirst⟩ := List.exists_cons_of_ne_nil (List.ne_nil_of_mem hmem)
  obtain ⟨q, hq, hplays⟩ := (hround.mem_iff first).1 (hfirst ▸ List.mem_cons_self ..)
  have hbutton : t.moveButton.button = some first := by
    rw [moveButton_eq, hfirst]
    rfl
  exact ⟨first, q, hbutton, hq, hplays⟩

/-- **A move turns the round by one seat.** -/
theorem readyRound_moveButton (h : t.readyRound ≠ []) :
    t.moveButton.readyRound = t.readyRound.rotate 1 := by
  obtain ⟨first, rest, hround⟩ := List.exists_cons_of_ne_nil h
  have hnext : t.moveButton.readyRound = t.roundFrom first Player.isReady := by
    rw [moveButton_eq, hround]
    rfl
  rw [hnext, hround, List.rotate_cons_succ, List.rotate_zero]
  exact roundFrom_of_cons hround

theorem readyRound_iterate (h : t.readyRound ≠ []) (moves : Nat) :
    (moveButton^[moves] t).readyRound = t.readyRound.rotate moves := by
  induction moves with
  | zero => rw [List.rotate_zero, Function.iterate_zero_apply]
  | succ moves ih =>
    have hne : (moveButton^[moves] t).readyRound ≠ [] := by rwa [ih, ne_eq, List.rotate_eq_nil_iff]
    rw [Function.iterate_succ_apply', readyRound_moveButton hne, ih, List.rotate_rotate]

/-- However often the button moves, nothing else at the table changes. -/
theorem exists_iterate_moveButton_eq (t : Table) (moves : Nat) :
    ∃ button, moveButton^[moves] t = { t with button := button } := by
  induction moves with
  | zero => exact ⟨t.button, rfl⟩
  | succ moves ih =>
    obtain ⟨button, hbefore⟩ := ih
    rw [Function.iterate_succ_apply', hbefore, moveButton_eq]
    exact ⟨_, rfl⟩

/-- **The button goes round and round**, one seat with each move. -/
theorem iterate_moveButton (h : t.readyRound ≠ []) (moves : Nat) : moveButton^[moves + 1] t =
    { t with button := t.readyRound[moves % t.readyRound.length]? } := by
  have hlt : moves % t.readyRound.length < t.readyRound.length :=
    Nat.mod_lt _ (List.length_pos_iff.2 h)
  have hstop : (moveButton^[moves + 1] t).button =
      t.readyRound[moves % t.readyRound.length]? := by
    rw [Function.iterate_succ_apply', moveButton_eq, readyRound_iterate h, ← List.rotate_mod]
    exact List.head?_rotate hlt
  obtain ⟨button, hmoved⟩ := exists_iterate_moveButton_eq t (moves + 1)
  rw [hmoved] at hstop ⊢
  rw [← hstop]

/-! ### The order of a hand -/

/-- **The player at the button is last in the order**, while in the hand. -/
theorem getLast?_turnOrder (hbutton : t.button = some seat) (hseat : t.seats[seat]? = some (some p))
    (hactive : p.active = true) : t.turnOrder.getLast? = some p.id := by
  have hactor : (t.seats.map actor)[seat]? = some (some p.id) := by
    rw [List.getElem?_map, hseat]
    simp [actor, Option.filter, hactive]
  have hlt' : seat < (t.seats.map actor).length := (List.getElem?_eq_some_iff.1 hactor).1
  rw [turnOrder_eq, hbutton, Option.getD_some, List.rotate_eq_drop_append_take hlt',
    List.take_add_one, hactor, Option.toList_some, ← List.append_assoc, List.filterMap_append]
  simp

/-- The order of a hand as it should be: it names the active players clockwise from the button, each
once, and the player at the button is the last. -/
structure EndsAtButton (t : Table) : Prop where
  inOrder : ∃ round, t.GoesRound t.buttonSeat (·.active) round ∧
    List.Forall₂ (fun seat who ↦ t.places[seat]? = some (some who)) round t.turnOrder
  once : t.Distinct → t.turnOrder.Nodup
  last : ∃ seat p, t.button = some seat ∧ t.seats[seat]? = some (some p) ∧
    t.turnOrder.getLast? = some p.id

/-- The order names who sits on the seats of the active players, one after the other. -/
theorem forall₂_turnOrder (t : Table) :
    List.Forall₂ (fun seat who ↦ t.places[seat]? = some (some who))
      (t.roundFrom t.buttonSeat (·.active)) t.turnOrder := by
  have horder : t.turnOrder =
      (t.clockwise t.buttonSeat).filterMap fun seat ↦ actor (t.occupant seat) := by
    rw [turnOrder_eq, ← map_occupant_range, List.map_map, ← List.map_rotate, List.filterMap_map]
    rfl
  rw [horder]
  refine forall₂_filter_filterMap (fun seat ↦ ?_) (fun seat who hwho ↦ ?_) _
  · cases t.occupant seat with
    | none => rfl
    | some p => cases hactive : p.active <;> simp [actor, Option.filter, hactive]
  · obtain ⟨p, hp, rfl⟩ := Option.map_eq_some_iff.1 hwho
    obtain ⟨hseat, -⟩ := Option.filter_eq_some_iff.1 hp
    exact places_eq_some_iff.2 ⟨p, Option.join_eq_some_iff.1 hseat, rfl⟩

theorem endsAtButton {p : Player} (hbutton : t.button = some seat)
    (hseat : t.seats[seat]? = some (some p)) (hactive : p.active = true) : t.EndsAtButton where
  inOrder := ⟨_, goesRound_roundFrom t t.buttonSeat _, forall₂_turnOrder t⟩
  once := Distinct.nodup_turnOrder
  last := ⟨seat, p, hbutton, hseat, getLast?_turnOrder hbutton hseat hactive⟩

/-- **The button is fair.** With `m` players who can play, `m` moves of the button stop once at the
seat of each, clockwise and first at the one that comes first after the old button, and later moves
go on in the same round. Nothing else changes. Wherever the button stops, if those who can play are
active, the order of the hand names all active players once, clockwise, the one at the button
last. -/
theorem button_goes_round (t : Table) {m : Nat} (hready : t.seats.countP (·.any Player.isReady) = m)
    (hsome : 1 ≤ m) : ∃ round, t.GoesRound t.buttonSeat Player.isReady round ∧ round.length = m ∧
      ((List.range m).map fun moves ↦ (moveButton^[moves + 1] t).button) = round.map some ∧
      ∀ moves, ∃ seat ∈ round, round[moves % m]? = some seat ∧
        moveButton^[moves + 1] t = { t with button := some seat } ∧
        ((∀ p ∈ t.players, p.isReady = true → p.active = true) →
          (moveButton^[moves + 1] t).EndsAtButton) := by
  have hround : t.GoesRound t.buttonSeat Player.isReady t.readyRound := goesRound_roundFrom ..
  have hlength : t.readyRound.length = m := (length_roundFrom ..).trans hready
  have hne : t.readyRound ≠ [] := List.ne_nil_of_length_pos (hlength ▸ hsome)
  have hmoves := iterate_moveButton hne
  rw [hlength] at hmoves
  refine ⟨t.readyRound, hround, hlength, ?_, fun moves ↦ ?_⟩
  · refine List.ext_getElem (by simp [hlength]) fun i hi _ ↦ ?_
    have hlt : i < m := by simpa using hi
    simp [hmoves, Nat.mod_eq_of_lt hlt]
  · have hlt : moves % m < t.readyRound.length := by
      rw [hlength]
      exact Nat.mod_lt _ hsome
    have hseat := List.getElem?_eq_getElem hlt
    have hmem := List.getElem_mem hlt
    refine ⟨_, hmem, hseat, hseat ▸ hmoves moves, fun hactive ↦ ?_⟩
    obtain ⟨p, hp, hplays⟩ := (hround.mem_iff _).1 hmem
    have hpmem : p ∈ t.players := List.mem_filterMap.2 ⟨some p, List.mem_of_getElem? hp, rfl⟩
    rw [hmoves moves, hseat]
    exact endsAtButton rfl hp (hactive p hpmem hplays)

/-- Five seats: Ann is all in, Bob and Cid have chips, Dee has left, and nobody sits between Bob and
Cid. The button is at Dee's seat. -/
def fiveSeats : Table :=
  { seats :=
      [some { id := 1, name := "Ann", stack := 0, seat := 0, active := true },
       some { id := 2, name := "Bob", stack := 100, seat := 1, active := true },
       none,
       some { id := 3, name := "Cid", stack := 100, seat := 3, active := true },
       some { id := 4, name := "Dee", stack := 100, seat := 4, hasLeft := true }]
    button := some 4
    zones := []
    deck := Deck.ofSeed (.ofName .standard) 0 }

/-- The button goes from Bob to Cid and back, and when it is at Cid's seat the order is Ann, Bob,
Cid. -/
theorem fiveSeats_go_round :
    fiveSeats.seats.countP (·.any Player.isReady) = 2 ∧ 1 ≤ 2 ∧
    (∀ p ∈ fiveSeats.players, p.isReady = true → p.active = true) ∧
    (∃ round, fiveSeats.GoesRound 4 Player.isReady round ∧ round.length = 2 ∧
      [some 1, some 3] = round.map some ∧
      ∀ moves, ∃ seat ∈ round, round[moves % 2]? = some seat ∧
        moveButton^[moves + 1] fiveSeats = { fiveSeats with button := some seat } ∧
        (moveButton^[moves + 1] fiveSeats).EndsAtButton) ∧
    (moveButton^[2] fiveSeats).turnOrder = [1, 2, 3] := by
  have hactive : ∀ p ∈ fiveSeats.players, p.isReady = true → p.active = true := by decide
  obtain ⟨round, hround, hlength, hstops, hmoves⟩ :=
    button_goes_round fiveSeats (m := 2) (by decide) (by decide)
  refine ⟨by decide, by decide, hactive, ⟨round, hround, hlength, hstops, fun moves ↦ ?_⟩, by decide⟩
  obtain ⟨seat, hmem, hseat, hmoved, horder⟩ := hmoves moves
  exact ⟨seat, hmem, hseat, hmoved, horder hactive⟩

end Table

end DealersChoice
