import DealersChoice.History
import DealersChoice.Proofs.Table.Dealing
import DealersChoice.Proofs.Table.Places

/-!
# The table under a veil

Two games can differ in things that the hand being played takes no notice of. A `Veil` names such
things, and takes them out of a table, of the accounts and of a game; two games differ in nothing
else if they look the same under it. What makes this useful is that a game under a veil is a game
again, and that every operation does under the veil what it does without (`Veil.CoversTable`, and
its counterparts for the betting and for games): an operation never looks at what is hidden.

Here are the seats. Hidden are a player who has come late, with the seat, and of one who has folded
whether they have left.
-/

namespace DealersChoice

/-- The same breach, if the count of the chips leaves some of them out. -/
def Breach.less (n : Nat) : Breach → Breach
  | .chipsAmiss expected found => .chipsAmiss (expected - n) (found - n)
  | breach => breach

/-- A change of a player that takes no notice of whether they have left. -/
structure Player.Heedless (f : Player → Player) : Prop where
  id : ∀ p, (f p).id = p.id
  left : ∀ p, f { p with hasLeft := true } = { f p with hasLeft := true }

/-- A player who waits for the next hand, and who may have left in the meantime. -/
def Player.waiting (p : Player) (left : Bool) : Player :=
  { p with hand := [], active := false, hasLeft := left }

/-- What is left out of a game. -/
structure Veil where
  /-- A player who has folded. Whether they have left is left out, and so are their marks in the
  betting round, which nobody reads any more. -/
  gone : Option PlayerId := none
  /-- A player who has come during the hand. -/
  late : Option Player := none
  /-- A decision in the history, with those before it. -/
  noted : Option (List HistoryEntry × HistoryEntry) := none
  /-- Whether the game walks on by itself, if it is not to be as the settings say. -/
  autoProgress : Option Bool := none

namespace Veil

variable {u : Veil} {t t' : Table} {who : PlayerId} {p : Player} {f : Player → Player}

/-- The chips that a late arrival brings. -/
def stake (u : Veil) : Nat :=
  (u.late.map (·.stack)).getD 0

/-- Whether a player is left out altogether. -/
def omits (u : Veil) (who : PlayerId) : Bool :=
  u.late.any (·.id == who)

theorem omits_eq_true : u.omits who = true ↔ ∃ q, u.late = some q ∧ q.id = who := by
  rw [omits, Option.any_eq_true_iff_get]
  cases u.late <;> simp

/-- Without a late arrival nobody is left out altogether. -/
theorem omits_of_late_eq_none (hlate : u.late = none) (who : PlayerId) : u.omits who = false := by
  rw [omits, hlate]
  rfl

def player (u : Veil) (p : Player) : Player :=
  if u.gone = some p.id then { p with hasLeft := true } else p

def seat (u : Veil) (entry : Option Player) : Option Player :=
  (entry.filter fun p ↦ !u.omits p.id).map u.player

def table (u : Veil) (t : Table) : Table :=
  { t with seats := t.seats.map u.seat }

/-! ### Players -/

theorem player_eq (u : Veil) (p : Player) : ∃ left, u.player p = { p with hasLeft := left } := by
  rw [player]
  split
  · exact ⟨true, rfl⟩
  · exact ⟨p.hasLeft, rfl⟩

/-- Nothing else of a player is left out. -/
theorem player_view {β : Type} {g : Player → β} (hg : ∀ p left, g { p with hasLeft := left } = g p)
    (u : Veil) (p : Player) : g (u.player p) = g p := by
  obtain ⟨left, h⟩ := u.player_eq p
  rw [h, hg]

@[simp] theorem player_id (u : Veil) (p : Player) : (u.player p).id = p.id :=
  player_view (g := (·.id)) (fun _ _ ↦ rfl) u p

@[simp] theorem player_stack (u : Veil) (p : Player) : (u.player p).stack = p.stack :=
  player_view (g := (·.stack)) (fun _ _ ↦ rfl) u p

@[simp] theorem player_seat (u : Veil) (p : Player) : (u.player p).seat = p.seat :=
  player_view (g := (·.seat)) (fun _ _ ↦ rfl) u p

@[simp] theorem player_hand (u : Veil) (p : Player) : (u.player p).hand = p.hand :=
  player_view (g := (·.hand)) (fun _ _ ↦ rfl) u p

@[simp] theorem player_active (u : Veil) (p : Player) : (u.player p).active = p.active :=
  player_view (g := (·.active)) (fun _ _ ↦ rfl) u p

theorem player_comm (hf : Player.Heedless f) (u : Veil) (p : Player) :
    u.player (f p) = f (u.player p) := by
  by_cases h : u.gone = some p.id
  · rw [player, if_pos (hf.id p ▸ h), player, if_pos h, hf.left]
  · rw [player, if_neg (hf.id p ▸ h), player, if_neg h]

/-! ### Seats -/

/-- **What a heedless change does to a seat, it does under the veil.** -/
theorem seat_map (hf : Player.Heedless f) (u : Veil) (entry : Option Player) :
    u.seat (entry.map f) = (u.seat entry).map f := by
  rcases entry with - | p
  · rfl
  · cases ho : u.omits p.id <;> simp [seat, Option.filter, hf.id, ho, player_comm hf]

theorem seat_of_late_eq_none (hlate : u.late = none) (entry : Option Player) :
    u.seat entry = entry.map u.player := by
  rcases entry with - | p
  · rfl
  · rw [seat, Option.filter_some_pos (by rw [omits_of_late_eq_none hlate]; rfl)]

theorem players_table (u : Veil) (t : Table) :
    (u.table t).players = (t.players.filter fun p ↦ !u.omits p.id).map u.player := by
  rw [Table.players, table, List.filterMap_map, Table.players, List.filter_filterMap,
    List.map_filterMap]
  rfl

theorem player?_table (hwho : u.omits who = false) (t : Table) :
    (u.table t).player? who = (t.player? who).map u.player := by
  rw [Table.player?, players_table, List.find?_map, List.find?_filter, Table.player?]
  congr 2
  funext p
  by_cases hp : p.id = who
  · simp [hp, hwho]
  · simp [hp]

theorem ids_table (u : Veil) (t : Table) : (u.table t).ids = t.ids.filter fun i ↦ !u.omits i := by
  rw [Table.ids, players_table, List.map_map, Table.ids, List.filter_map]
  exact List.map_congr_left fun p _ ↦ u.player_id p

theorem table_mapPlayers (hf : Player.Heedless f) (u : Veil) (t : Table) :
    u.table (t.mapPlayers f) = (u.table t).mapPlayers f := by
  have hseats : (t.seats.map (Option.map f)).map u.seat =
      (t.seats.map u.seat).map (Option.map f) := by
    rw [List.map_map, List.map_map]
    exact List.map_congr_left fun entry _ ↦ seat_map hf u entry
  rw [table, Table.mapPlayers, hseats]
  rfl

end Veil

/-- A change of one player is heedless if it is. -/
theorem Player.Heedless.only {f : Player → Player} (hf : Player.Heedless f) (who : PlayerId) :
    Player.Heedless fun p ↦ if p.id == who then f p else p where
  id p := by
    split
    · exact hf.id p
    · rfl
  left p := by
    split
    · exact hf.left p
    · rfl

namespace Veil

variable {u : Veil} {t t' : Table} {who : PlayerId} {p : Player} {f : Player → Player}

/-- What a veil leaves out is out of the hand: who has gone is seated, and who has come late waits
on the seat they took, with what they brought. -/
structure Seats (u : Veil) (t : Table) : Prop where
  distinct : t.Distinct
  gone : ∀ who, u.gone = some who → who ∈ t.ids
  late : ∀ q, u.late = some q → ∃ left, t.seats[q.seat]? = some (some (q.waiting left))

/-- The second table is the first one under the veil. -/
structure CoversTable (u : Veil) (t t' : Table) : Prop where
  eq : t' = u.table t
  seats : u.Seats t

/-- Who has come late waits. -/
theorem Seats.waits (h : u.Seats t) (hp : p ∈ t.players) (ho : u.omits p.id = true) :
    ∃ q left, u.late = some q ∧ p = q.waiting left := by
  obtain ⟨q, hq, hid⟩ := omits_eq_true.1 ho
  obtain ⟨left, hseat⟩ := h.late q hq
  have hmem : q.waiting left ∈ t.players :=
    List.mem_filterMap.2 ⟨_, List.mem_of_getElem? hseat, rfl⟩
  exact ⟨q, left, hq, h.distinct.eq_of_id_eq hp hmem hid.symm⟩

theorem Seats.seated (h : u.Seats t) {q : Player} (hq : u.late = some q) :
    ∃ left, t.player? q.id = some (q.waiting left) := by
  obtain ⟨left, hseat⟩ := h.late q hq
  have hmem : q.waiting left ∈ t.players :=
    List.mem_filterMap.2 ⟨_, List.mem_of_getElem? hseat, rfl⟩
  exact ⟨left, h.distinct.player?_eq_some_iff.2 ⟨hmem, rfl⟩⟩

/-- Who is in the order of the hand is not left out. -/
theorem Seats.omits_eq_false (h : u.Seats t) (hwho : who ∈ t.turnOrder) : u.omits who = false := by
  obtain ⟨p, hp, rfl, hactive⟩ := Table.mem_turnOrder.1 hwho
  refine Bool.eq_false_iff.2 fun ho ↦ ?_
  obtain ⟨q, left, -, rfl⟩ := h.waits hp ho
  exact absurd hactive Bool.false_ne_true

/-- Whoever sits on another seat than a late arrival is seen. -/
theorem Seats.seat_of_ne (h : u.Seats t) {seat : Nat} (hne : ∀ q, u.late = some q → q.seat ≠ seat)
    (hp : t.seats[seat]? = some (some p)) : u.seat (some p) = some (u.player p) := by
  have ho : u.omits p.id = false := by
    refine Bool.eq_false_iff.2 fun ho ↦ ?_
    have hmem : p ∈ t.players := List.mem_filterMap.2 ⟨_, List.mem_of_getElem? hp, rfl⟩
    obtain ⟨q, left, hq, rfl⟩ := h.waits hmem ho
    obtain ⟨left', hwaits⟩ := h.late q hq
    exact hne q hq (h.distinct.eq_seat hwaits hp rfl)
  rw [Veil.seat, Option.filter_some_pos (by simp [ho]), Option.map_some]

theorem Seats.distinct_table (h : u.Seats t) : (u.table t).Distinct := by
  rw [Table.Distinct, ids_table]
  exact List.Nodup.filter _ h.distinct

namespace CoversTable

theorem player? (h : u.CoversTable t t') (hwho : u.omits who = false) :
    t'.player? who = (t.player? who).map u.player := by
  rw [h.eq, player?_table hwho]

/-- **The order of the hand is the same under the veil.** -/
theorem turnOrder (h : u.CoversTable t t') : t'.turnOrder = t.turnOrder := by
  obtain ⟨rfl, hs⟩ := h
  refine Table.turnOrder_congr ?_ rfl
  rw [table, List.map_map]
  refine List.map_congr_left fun entry hentry ↦ ?_
  rcases entry with - | p
  · rfl
  · have hp : p ∈ t.players := List.mem_filterMap.2 ⟨_, hentry, rfl⟩
    cases ho : u.omits p.id with
    | false => simp [seat, Table.actor, Option.filter, ho]
    | true =>
      obtain ⟨q, left, -, rfl⟩ := hs.waits hp ho
      rw [Function.comp_apply, seat, Option.filter_some_neg (by simp [ho])]
      rfl

/-- The chips on the table, but for those of a late arrival. -/
theorem chips (h : u.CoversTable t t') : t'.chips + u.stake = t.chips := by
  obtain ⟨rfl, hs⟩ := h
  have hchips : (u.table t).chips =
      total ((t.players.filter fun p ↦ !u.omits p.id).map (·.stack)) := by
    rw [Table.chips, players_table, List.map_map]
    exact congrArg total (List.map_congr_left fun p _ ↦ u.player_stack p)
  rw [hchips, Table.chips]
  cases hq : u.late with
  | none => simp [stake, omits, hq]
  | some q =>
    obtain ⟨left, hseated⟩ := hs.seated hq
    obtain ⟨before, after, hplayers, -⟩ := Table.exists_players_eq hseated
    have hnodup : (before ++ q.waiting left :: after).Pairwise fun a b ↦ a.id ≠ b.id :=
      hplayers ▸ List.pairwise_map.1 hs.distinct
    have homits (p : Player) : u.omits p.id = (q.id == p.id) := by rw [omits, hq]; rfl
    have hothers : ∀ p ∈ before ++ after, (!u.omits p.id) = true := by
      intro p hp
      rw [homits, Bool.not_eq_true', beq_eq_false_iff_ne]
      rcases List.mem_append.1 hp with hp | hp
      · exact ((List.pairwise_append.1 hnodup).2.2 p hp _ (List.mem_cons_self ..)).symm
      · exact (List.pairwise_cons.1 (List.pairwise_append.1 hnodup).2.1).1 p hp
    rw [hplayers, List.filter_append, List.filter_cons_of_neg (by simp [homits, Player.waiting]),
      ← List.filter_append, List.filter_eq_self.2 hothers]
    simp only [stake, hq, List.map_append, List.map_cons, total_append, total_cons, Option.map_some,
      Option.getD_some, Player.waiting]
    omega

/-! ### Changes -/

/-- Cards move outside the seats. -/
theorem move (h : u.CoversTable t t') (zones : List Zone) (deck : Deck) (muck : List Card) :
    u.CoversTable { t with zones, deck, muck } { t' with zones, deck, muck } := by
  obtain ⟨rfl, hs⟩ := h
  exact ⟨rfl, hs.distinct, hs.gone, hs.late⟩

/-- **A heedless change of a player in the hand.** -/
theorem modifyPlayer (h : u.CoversTable t t') (hwho : u.omits who = false)
    (hf : Player.Heedless f) :
    u.CoversTable (t.modifyPlayer who f) (t'.modifyPlayer who f) := by
  obtain ⟨rfl, hs⟩ := h
  refine ⟨?_, hs.distinct.modifyPlayer hf.id who, fun i hi ↦ ?_, fun q hq ↦ ?_⟩
  · rw [Table.modifyPlayer_eq_mapPlayers hs.distinct,
      Table.modifyPlayer_eq_mapPlayers hs.distinct_table, table_mapPlayers (hf.only who)]
  · rw [Table.ids_modifyPlayer hf.id]
    exact hs.gone i hi
  · obtain ⟨left, hseat⟩ := hs.late q hq
    have hne : ¬((q.waiting left).id == who) = true := fun heq ↦ by
      rw [omits_eq_true.2 ⟨q, hq, eq_of_beq heq⟩] at hwho
      contradiction
    refine ⟨left, ?_⟩
    rw [Table.modifyPlayer_eq_mapPlayers hs.distinct]
    show (t.seats.map _)[q.seat]? = _
    rw [List.getElem?_map, hseat, Option.map_some, Option.map_some, if_neg hne]

/-- **Somebody else sits down**, on another seat than the late arrival's. -/
theorem sit (h : u.CoversTable t t') (hnew : u.omits p.id = false)
    (hseat : ∀ q, u.late = some q → q.seat ≠ p.seat) :
    (∃ e, t.sit p = .error e ∧ t'.sit p = .error e) ∨
      ∃ s s', t.sit p = .ok s ∧ t'.sit p = .ok s' ∧ u.CoversTable s s' := by
  have hsame : (t'.player? p.id).isSome = (t.player? p.id).isSome := by
    rw [h.player? hnew, Option.isSome_map]
  have hentry : t'.seats[p.seat]? = (t.seats[p.seat]?).map u.seat := by
    rw [h.eq, table, List.getElem?_map]
  rw [Table.sit, Table.sit, hsame, hentry]
  by_cases hthere : (t.player? p.id).isSome = true
  · exact Or.inl ⟨_, if_pos hthere, if_pos hthere⟩
  rw [if_neg hthere, if_neg hthere]
  rcases hempty : t.seats[p.seat]? with - | - | q
  · exact Or.inl ⟨_, rfl, rfl⟩
  · -- whoever is marked as gone is seated, so it is not the new player
    have hstays : u.gone ≠ some p.id := fun hgone ↦
      hthere (Table.isSome_player?.2 (h.seats.gone p.id hgone))
    have hplayer : u.seat (some p) = some p := by
      rw [seat, Option.filter_some_pos (by simp [hnew]), Option.map_some, player, if_neg hstays]
    have hok : t.sit p = .ok { t with seats := t.seats.set p.seat (some p) } := by
      rw [Table.sit, if_neg hthere, hempty]
    refine Or.inr ⟨_, _, rfl, rfl, ?_, h.seats.distinct.sit hok, fun i hi ↦ ?_, fun q hq ↦ ?_⟩
    · rw [h.eq, table, table, List.map_set, hplayer]
    · rw [Table.ids, ((Table.players_sit hok).map _).mem_iff]
      exact List.mem_cons_of_mem _ (h.seats.gone i hi)
    · obtain ⟨left, hwaits⟩ := h.seats.late q hq
      exact ⟨left, (List.getElem?_set_ne (hseat q hq).symm).trans hwaits⟩
  · refine Or.inl ⟨_, rfl, ?_⟩
    rw [Option.map_some, h.seats.seat_of_ne hseat hempty]

/-- **A heedless change of the late arrival**, who waits afterwards as before, is left out. -/
theorem modifyPlayer_late (h : u.CoversTable t t') {q : Player} (hq : u.late = some q)
    (hf : Player.Heedless f) (hwaits : ∀ left, ∃ left', f (q.waiting left) = q.waiting left') :
    u.CoversTable (t.modifyPlayer q.id f) t' := by
  have homits : u.omits q.id = true := omits_eq_true.2 ⟨q, hq, rfl⟩
  obtain ⟨rfl, hs⟩ := h
  refine ⟨?_, hs.distinct.modifyPlayer hf.id _, fun i hi ↦ ?_, fun r hr ↦ ?_⟩
  · have hnobody : (u.table t).player? q.id = none := by
      refine Option.not_isSome_iff_eq_none.1 fun hsome ↦ ?_
      have hmem := Table.isSome_player?.1 hsome
      rw [ids_table, List.mem_filter, homits] at hmem
      exact Bool.false_ne_true hmem.2
    rw [Table.modifyPlayer_eq_mapPlayers hs.distinct, table_mapPlayers (hf.only q.id),
      ← Table.modifyPlayer_eq_mapPlayers hs.distinct_table, Table.modifyPlayer_eq_self hnobody]
  · rw [Table.ids_modifyPlayer hf.id]
    exact hs.gone i hi
  · obtain rfl := Option.some.inj (hq.symm.trans hr)
    obtain ⟨left, hseat⟩ := hs.late q hq
    obtain ⟨left', hleft'⟩ := hwaits left
    have hself : ((q.waiting left).id == q.id) = true := beq_self_eq_true q.id
    refine ⟨left', ?_⟩
    rw [Table.modifyPlayer_eq_mapPlayers hs.distinct]
    show (t.seats.map _)[q.seat]? = _
    rw [List.getElem?_map, hseat, Option.map_some, Option.map_some, if_pos hself, hleft']

end CoversTable

end Veil

end DealersChoice
