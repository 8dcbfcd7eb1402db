import DealersChoice.Proofs.Game.Agreement
import DealersChoice.Proofs.Game.Refill
import DealersChoice.Proofs.Game.Standstill
import DealersChoice.Proofs.Veil.Requests

/-!
# Late arrivals wait

Who sits down during a hand has no part in it. Whatever is asked of the game until the next hand
begins, it is the game without the late arrival, and one player more who waits on a seat with the
chips that they brought (`Game.Joined`). The late arrival is never asked for anything, whatever they
ask for themselves is refused, and if they leave again, nobody notices.

This is so as long as all chips fit one stack, those of the late arrival included, and under rules
whose cards can be counted. Then only the seat and the name that are taken tell that somebody has
come. With more chips somebody may win more than a stack can hold, and the error that says so counts
the chips of the late arrival on either side (`Game.arrivals_show`).

The proof is one simulation: the game without the late arrival is the one with them, under a veil.
-/

namespace DealersChoice

/-- An error that is not about the books does not count any chips. -/
theorem PlayError.less_of_not_isAmiss {e : PlayError} (h : ¬e.IsAmiss) (n : Nat) :
    e.less n = e := by
  cases e with
  | breach cause =>
    cases cause with
    | chipsAmiss => exact absurd trivial h
    | _ => rfl
  | setup | refused => rfl

/-- An inquiry that waits for somebody stays open. -/
theorem Game.Pending.closeInquiry {g : Game} (h : g.Pending) : g.closeInquiry = g := by
  unfold Game.closeInquiry
  split
  · rename_i hq
    exact absurd rfl (h _ hq)
  · rfl

namespace Veil

variable {u : Veil} {g g' : Game} {w : Seating} {who : PlayerId} {q : Player} {r : Request}

namespace Covers

/-! ### What a late arrival asks for -/

/-- A late arrival has a seat, and nobody else can have it. -/
theorem sitDown_late (h : u.Covers g g') (hq : u.late = some q) {id : PlayerId} {seat : Nat}
    (hconcerns : id = q.id ∨ seat = q.seat) (name : String) (stack : Nat) :
    ∃ e, g.sitDown id name stack seat = .stop g e := by
  obtain ⟨left, hseat⟩ := h.seats.late q hq
  obtain ⟨left', hseated⟩ := h.seats.seated hq
  rw [Game.sitDown, Table.sit]
  by_cases hthere : (g.table.player? id).isSome = true
  · rw [if_pos hthere]
    exact ⟨_, rfl⟩
  · rw [if_neg hthere]
    rcases hconcerns with rfl | rfl
    · rw [hseated] at hthere
      exact absurd rfl hthere
    · rw [hseat]
      exact ⟨_, rfl⟩

/-- **A late arrival is never on turn**, so whatever they do is refused. -/
theorem act_late (h : u.Covers g g') (hwho : u.omits who = true) (action : Action) :
    ∃ e, g.act who action = .stop g e := by
  suffices hrefused : ∃ e, g.actOnce who action = .stop g e by
    obtain ⟨e, he⟩ := hrefused
    exact ⟨e, by rw [Game.act, he]; rfl⟩
  rcases g.actOnce_cases who action with ⟨e, heq, -⟩ | ⟨-, ⟨p, -, -, heq⟩ | ⟨q, -, hq, heq⟩⟩
  · exact ⟨e, heq⟩
  · have hturn : g.betting.toAct ≠ some who := fun hturn ↦ by
      rw [(h.bets.turn who hturn).2] at hwho
      contradiction
    have hact : g.betting.act who action p.stack = .error (.outOfTurn g.betting.toAct who) := by
      rw [Betting.act, if_pos hturn]
      rfl
    rw [heq, Game.actInRound_refused hact]
    exact ⟨_, rfl⟩
  · have hnext : g.inquiry.bind (·.unanswered.head?) ≠ some who := fun hnext ↦ by
      rw [hq, Option.bind_some] at hnext
      rw [(h.asks q hq).unanswered who (List.mem_of_head? hnext)] at hwho
      contradiction
    rw [heq, Game.answer, if_pos hnext]
    exact ⟨_, rfl⟩

/-- Nobody is taken out of the inquiry with a late arrival. -/
theorem without_late (h : u.Covers g g') (hwho : u.omits who = true) :
    g.inquiry.map (Inquiry.without · who) = g.inquiry := by
  cases hq : g.inquiry with
  | none => rfl
  | some q =>
    obtain ⟨hasked, hunanswered, hchosen⟩ := h.asks q hq
    have hother : ∀ i, u.omits i = false → (i != who) = true := fun i hi ↦ by
      refine bne_iff_ne.2 fun heq ↦ ?_
      rw [heq, hwho] at hi
      contradiction
    rw [Option.map_some, Inquiry.without,
      List.filter_eq_self.2 fun i hi ↦ hother i (hunanswered i hi),
      List.filter_eq_self.2 fun i hi ↦ hother i (hasked i hi),
      List.filter_eq_self.2 fun c hc ↦ hother c.1 (hchosen c hc)]

/-- Leaving the hand, a late arrival leaves nothing behind. -/
theorem leaveHand_late (h : u.Covers g g') (hq : u.late = some q) (hhand : g.InSession w)
    (hpending : g.Pending) : ∃ table, u.CoversTable table g'.table ∧
      g.leaveHand q.id = ({ g with table } : Game).reconcile := by
  have hwho : u.omits q.id = true := omits_eq_true.2 ⟨q, hq, rfl⟩
  have htable := (h.table.dismiss_late hq).muckAll_late hq
  have hplace : g.betting.place? q.id = none := by
    refine List.findIdx?_eq_none_iff.2 fun a ha ↦ beq_eq_false_iff_ne.2 fun heq ↦ ?_
    rw [← heq, h.bets.seen a ha] at hwho
    contradiction
  have hfold : g.betting.foldOutOfTurn q.id = (none, g.betting) := by
    rw [Betting.foldOutOfTurn, hplace]
  have habandoned : g.abandoned q.id =
      { g with table := (g.table.dismiss q.id).muckAll q.id } := by
    rw [Game.abandoned, h.without_late hwho, hfold]
  have hopen : g.stage ≠ .complete := by rcases hhand.stage with hs | hs <;> simp [hs]
  have hmany : 2 ≤ ((g.table.dismiss q.id).muckAll q.id).turnOrder.length := by
    rw [← htable.turnOrder, h.turnOrder, ← hhand.live]
    exact hhand.contested
  refine ⟨_, htable, ?_⟩
  rw [Game.leaveHand_eq, hfold, habandoned]
  dsimp only [Option.elim_none]
  rw [Attempt.andThen_done, Game.settleDeparture_of_contested (by exact hopen) (by exact hmany),
    Game.Pending.closeInquiry (by exact hpending), Attempt.andThen_done]

/-- **When a late arrival leaves, nobody notices.** -/
theorem standUp_late (h : u.Covers g g') (hq : u.late = some q) (hplayed : g.Played)
    (hcards : g.variant.CountsFit) : u.Covers (g.standUp q.id).state g' := by
  rcases g.standUp_cases q.id with ⟨e, heq, -⟩ | ⟨-, heq⟩ | ⟨hstage, heq⟩
  · rw [heq]
    exact h
  · rw [heq]
    exact h.withTable (h.table.dismiss_late hq)
  · have hunderway := Game.isUnderway_of_stage hstage
    obtain ⟨w, hrest⟩ := hplayed.rested
    obtain ⟨table, htable, hleave⟩ :=
      h.leaveHand_late hq (hrest.inSession hunderway) (hplayed.steady hunderway).2
    have hgone : u.Covers { g with table } g' := h.withTable htable
    rw [heq, hleave, Game.reconcile]
    split
    · rename_i hbalance
      -- a game that walks on by itself has done so before, unless chips or cards are missing
      have hchips : ({ g with table } : Game).chips = g.chips :=
        congrArg (· + g.betting.chipsInPots) (htable.chips.symm.trans h.table.chips)
      have hrests : g.settings.autoProgress = true → g.isIdle = false := fun hauto ↦
        Bool.eq_false_iff.2 fun hidle ↦ hplayed.moored.rests hcards hauto hidle (hchips ▸ hbalance)
      rw [Attempt.andThen_done, Game.carryOn]
      split
      · rename_i hauto
        rw [Game.walkOn_of_rests (g := { g with table }) (hrests hauto)]
        exact hgone
      · exact hgone
    · exact hgone

/-- **Whatever a late arrival asks for, nobody notices.** -/
theorem handle_late (h : u.Covers g g') (hq : u.late = some q) (hplayed : g.Played)
    (hcards : g.variant.CountsFit) (hr : r.Concerns q) : u.Covers (g.handle r).state g' := by
  cases r with
  | sitDown id name stack seat =>
    obtain ⟨e, he⟩ := h.sitDown_late hq hr name stack
    rw [Game.handle, he]
    exact h
  | standUp id =>
    obtain rfl : id = q.id := hr
    exact h.standUp_late hq hplayed hcards
  | act who action =>
    obtain rfl : who = q.id := hr
    obtain ⟨e, he⟩ := h.act_late (omits_eq_true.2 ⟨q, hq, rfl⟩) action
    rw [Game.handle, he]
    exact h
  | beginHand | advance => exact hr.elim

end Covers

end Veil

namespace Game

variable {g joined alone : Game} {a : Arrival} {r : Request} {requests : List Request}

/-! ### The two games -/

/-- Leaves out somebody who sits down during the hand. -/
def lateVeil (a : Arrival) : Veil where
  late := some a.player

/-- A game that somebody has joined during the hand, and the same game without them. In the first
one they wait on the seat they took, with the chips they brought, and are not asked for anything.
The second one has that seat empty and accounts for these chips less, and is otherwise the same. -/
structure Joined (a : Arrival) (joined alone : Game) : Prop where
  waits : ∃ left, joined.table.seats[a.seat]? = some (some (a.player.waiting left))
  unasked : joined.onTurn ≠ some a.id
  counted : a.stack ≤ joined.chipsAtStart
  others : alone = { joined with
    table := { joined.table with seats := joined.table.seats.set a.seat none }
    chipsAtStart := joined.chipsAtStart - a.stack }

/-- How those of a host's requests turn out that do not concern a player. -/
def reportsApart (p : Player) (g : Game) : List Request → List (Option PlayError)
  | [] => []
  | r :: rest =>
    let later := (g.handle r).state.reportsApart p rest
    if r.Concerns p then later else (g.handle r).error? :: later

/-- Only the seat of the late arrival is left out. -/
theorem table_lateVeil {t : Table} (h : (lateVeil a).Seats t) :
    (lateVeil a).table t = { t with seats := t.seats.set a.seat none } := by
  obtain ⟨left, hseat⟩ : ∃ left, t.seats[a.seat]? = some (some (a.player.waiting left)) :=
    h.late a.player rfl
  have hseats : t.seats.map (lateVeil a).seat = t.seats.set a.seat none := by
    refine List.ext_getElem? fun i ↦ ?_
    rw [List.getElem?_map]
    by_cases hi : a.seat = i
    · subst hi
      have hlt : a.seat < t.seats.length := (List.getElem?_eq_some_iff.1 hseat).1
      have homits : (lateVeil a).omits (a.player.waiting left).id = true := beq_self_eq_true a.id
      rw [hseat, List.getElem?_set_self hlt, Option.map_some, Veil.seat,
        Option.filter_some_neg (by simp [homits])]
      rfl
    · rw [List.getElem?_set_ne hi]
      rcases hentry : t.seats[i]? with - | - | p
      · rfl
      · rfl
      · have hother : ∀ q, (lateVeil a).late = some q → q.seat ≠ i := fun q hq ↦
          Option.some.inj hq ▸ hi
        rw [Option.map_some, h.seat_of_ne hother hentry]
        rfl
  rw [Veil.table, hseats]

theorem betting_lateVeil (b : Betting) : (lateVeil a).betting b = b := by
  have haccounts : b.accounts.map (lateVeil a).account = b.accounts := List.map_id _
  rw [Veil.betting, haccounts]

/-- Whoever sits down during a hand waits on the seat they took. -/
theorem seats_arrival (hd : g.table.Distinct) {table : Table}
    (hsit : g.table.sit a.player = .ok table) : (lateVeil a).Seats table := by
  obtain ⟨hempty, htable⟩ := Table.sit_set hsit
  refine ⟨hd.sit hsit, fun _ hi ↦ absurd hi (Option.some_ne_none _).symm, ?_⟩
  rintro q hq
  obtain rfl := Option.some.inj hq
  refine ⟨false, ?_⟩
  rw [htable]
  exact List.getElem?_set_self (List.getElem?_eq_some_iff.1 hempty).1

/-- Without the seat that is taken, the table is what it was before. -/
theorem table_arrival (hd : g.table.Distinct) {table : Table}
    (hsit : g.table.sit a.player = .ok table) : (lateVeil a).table table = g.table := by
  obtain ⟨hempty, htable⟩ : g.table.seats[a.seat]? = some none ∧
      table = { g.table with seats := g.table.seats.set a.seat (some a.player) } :=
    Table.sit_set hsit
  obtain ⟨hlt, hnone⟩ := List.getElem?_eq_some_iff.1 hempty
  have hback : (g.table.seats.set a.seat (some a.player)).set a.seat none = g.table.seats := by
    rw [List.set_set, ← hnone, List.set_getElem_self]
  rw [table_lateVeil (seats_arrival hd hsit), htable]
  exact congrArg (fun seats ↦ { g.table with seats }) hback

/-- **Somebody has sat down**: without them, the game is what it was before. -/
theorem Played.covers_arrival (h : g.Played) (hunderway : g.isUnderway = true) {table : Table}
    (hsit : g.table.sit a.player = .ok table) :
    (lateVeil a).Covers { g with table, chipsAtStart := g.chipsAtStart + a.stack } g := by
  obtain ⟨w, hrest⟩ := h.rested
  have hhand := hrest.inSession hunderway
  -- nobody with the name of the late arrival was seated, so nobody who takes part is left out
  have hseen : ∀ i ∈ g.table.ids, (lateVeil a).omits i = false := fun i hi ↦
    beq_eq_false_iff_ne.2 fun heq ↦ (Table.sit_eq hsit).1 (by exact heq ▸ hi)
  have hordered : ∀ i ∈ g.table.turnOrder, (lateVeil a).omits i = false := fun i hi ↦
    hseen i (Table.turnOrder_subset hi)
  have haccounts : ∀ o ∈ g.betting.accounts, o.player ∈ g.table.ids := fun o ho ↦
    hhand.covered.mem_ids (List.mem_map_of_mem (f := Betting.contribution) ho)
  refine ⟨?_, seats_arrival hhand.distinct hsit, ⟨fun _ _ hgone ↦
      absurd hgone (Option.some_ne_none _).symm,
    fun o ho ↦ hseen _ (haccounts o ho), fun who hturn ↦ ⟨(Option.some_ne_none _).symm, ?_⟩⟩,
    fun q hq ↦ ?_, Nat.le_add_left .., fun _ _ hnoted ↦ absurd hnoted (Option.some_ne_none _).symm⟩
  · have hchips : g.chipsAtStart + a.stack - (lateVeil a).stake = g.chipsAtStart :=
      Nat.add_sub_cancel ..
    rw [Veil.game]
    simp only [table_arrival hhand.distinct hsit, betting_lateVeil, hchips]
    rfl
  · obtain ⟨-, -, hplay⟩ := h.asking hturn
    obtain ⟨-, o, ho, rfl, -⟩ := hplay.turn.asking hturn
    exact hseen _ (haccounts o ho)
  · have hasks := (h.steady hunderway).1.asks q hq
    exact ⟨fun i hi ↦ hordered i (hasks.asked ▸ hi), fun i hi ↦ hordered i (hasks.rest.mem hi),
      fun c hc ↦ hordered c.1 (hasks.mem_of_chosen hc)⟩

/-- What it means that one game is the other one without the late arrival. -/
theorem joined_of_covers (h : (lateVeil a).Covers joined alone) : Joined a joined alone := by
  refine ⟨h.seats.late a.player rfl, fun hturn ↦ ?_, h.counted, ?_⟩
  · have homits : (lateVeil a).omits a.id = true := beq_self_eq_true a.id
    rw [onTurn, Option.or_eq_some_iff] at hturn
    rcases hturn with hturn | ⟨-, hturn⟩
    · rw [(h.bets.turn a.id hturn).2] at homits
      contradiction
    · obtain ⟨q, hq, hnext⟩ := Option.bind_eq_some_iff.1 hturn
      rw [(h.asks q hq).unanswered a.id (List.mem_of_head? hnext)] at homits
      contradiction
  · rw [h.eq, Veil.game, table_lateVeil h.seats, betting_lateVeil]
    rfl

/-! ### Runs -/

/-- **Every run comes to the same without the late arrival**, and without what they ask for. -/
theorem handleAll_apart {u : Veil} {p : Player} (h : u.Covers joined alone) (hp : u.late = some p)
    (hauto : u.autoProgress = none) (hplayed : joined.Played)
    (hcards : joined.variant.CountsFit) (hwithin : joined.WithinHand requests) :
    u.Covers (joined.handleAll requests)
        (alone.handleAll (requests.filter fun r ↦ ¬r.Concerns p)) ∧
      alone.reports (requests.filter fun r ↦ ¬r.Concerns p) =
        (joined.reportsApart p requests).map (Option.map (PlayError.less u.stake)) := by
  induction requests generalizing joined alone with
  | nil => exact ⟨h, rfl⟩
  | cons r rest ih =>
    have hplayed' := hplayed.handled r
    have hcards' : (joined.handle r).state.variant.CountsFit :=
      (variant_handle joined r).symm ▸ hcards
    by_cases hr : r.Concerns p
    · rw [List.filter_cons_of_neg (by simpa using hr), reportsApart, if_pos hr]
      exact ih (h.handle_late hp hplayed hcards hr) hplayed' hcards' hwithin.2
    · have hone := h.handle hauto (fun q hq ↦ Option.some.inj (hp.symm.trans hq) ▸ hr) hwithin.1
      obtain ⟨hrest, hreports⟩ := ih hone.state hplayed' hcards' hwithin.2
      rw [List.filter_cons_of_pos (by simpa using hr), reportsApart, if_neg hr]
      refine ⟨hrest, ?_⟩
      rw [reports, hreports, List.map_cons, hone.error]

/-- Where all chips fit into one stack, no error is about the books. -/
theorem reportsApart_less (h : g.Reachable) (hcards : g.variant.CountsFit)
    (hfits : g.AffordsAll requests) (p : Player) (n : Nat) :
    (g.reportsApart p requests).map (Option.map (PlayError.less n)) =
      g.reportsApart p requests := by
  induction requests generalizing g with
  | nil => rfl
  | cons r rest ih =>
    have hrest := ih (.handled r h hfits.1) ((variant_handle g r).symm ▸ hcards) hfits.2
    rw [reportsApart]
    split
    · exact hrest
    · have hone : (g.handle r).error?.map (PlayError.less n) = (g.handle r).error? := by
        cases herror : (g.handle r).error? with
        | none => rfl
        | some e =>
          rw [Option.map_some, PlayError.less_of_not_isAmiss (h.not_isAmiss hcards herror)]
      rw [List.map_cons, hone, hrest]

/-- **Late arrivals do not touch the hand.** Whatever is asked of a game that somebody has joined
during the hand, by them or by others, as long as no new hand begins: they wait, and for everybody
else the game is what it would be if they had not come and had asked for nothing. Requests by others
turn out as they would, if they are not about the seat and the name that are taken. All chips have
to fit one stack, those of the late arrival included, and the cards of the rules have to be such
that they can be counted. -/
theorem late_arrivals_wait (h : g.Reachable) (hcards : g.variant.CountsFit)
    (hunderway : g.isUnderway = true) (hbrings : g.Affords a.request)
    (hjoined : g.handle a.request = .done joined) (hwithin : joined.WithinHand requests)
    (hfits : joined.AffordsAll requests) :
    Joined a (joined.handleAll requests)
      (g.handleAll (requests.filter fun r ↦ ¬r.Concerns a.player)) ∧
    g.reports (requests.filter fun r ↦ ¬r.Concerns a.player) =
      joined.reportsApart a.player requests := by
  have hcovers : (lateVeil a).Covers joined g := by
    cases hsit : g.table.sit a.player with
    | error cause =>
      have hsit : g.table.sit { id := a.id, name := a.name, stack := a.stack, seat := a.seat } =
        .error cause := hsit
      rw [Arrival.request, Game.handle, Game.sitDown, hsit] at hjoined
      cases hjoined
    | ok table =>
      rw [sitDown_eq hsit, if_pos hunderway] at hjoined
      obtain rfl := (Attempt.mk.inj hjoined).1
      exact h.played.covers_arrival hunderway hsit
  have hreachable : joined.Reachable := by
    have hnext := h.handled a.request hbrings
    rwa [hjoined] at hnext
  have hcards' : joined.variant.CountsFit := by
    have hsame := variant_handle g a.request
    rw [hjoined] at hsame
    exact hsame.symm ▸ hcards
  obtain ⟨hrest, hreports⟩ := handleAll_apart hcovers rfl rfl hreachable.played hcards' hwithin
  exact ⟨joined_of_covers hrest,
    hreports.trans (reportsApart_less hreachable hcards' hfits a.player _)⟩

/-- A table for `Variant.acesAndKings` where two of three seats are taken, with so many chips at the
second one, when the blinds are posted. -/
def acesAndKingsPosted (stack : Nat) : Game :=
  acesAndKings.handleAll [.sitDown 1 "Ann" 100 0, .sitDown 2 "Bob" stack 1, .beginHand]

/-- Somebody who comes late, and takes the third seat. -/
def lateComer : Arrival :=
  ⟨3, "Cid", 50, 2⟩

def acesAndKingsJoined (stack : Nat) : Game :=
  ((acesAndKingsPosted stack).handle lateComer.request).state

/-- The late arrival would like to fold, and then leaves. The others play on until one of them
folds. -/
theorem acesAndKingsJoined_waits :
    (acesAndKingsPosted 100).Reachable ∧ (acesAndKingsPosted 100).variant.CountsFit ∧
    ((acesAndKingsJoined 100).handleAll
      [.advance, .act 3 .fold, .standUp 3, .advance, .act 1 .fold]).stage = .complete ∧
    Joined lateComer
      ((acesAndKingsJoined 100).handleAll
        [.advance, .act 3 .fold, .standUp 3, .advance, .act 1 .fold])
      ((acesAndKingsPosted 100).handleAll [.advance, .advance, .act 1 .fold]) ∧
    (acesAndKingsPosted 100).reports [.advance, .advance, .act 1 .fold] =
      (acesAndKingsJoined 100).reportsApart lateComer.player
        [.advance, .act 3 .fold, .standUp 3, .advance, .act 1 .fold] := by
  have hreachable : (acesAndKingsPosted 100).Reachable :=
    acesAndKings_reachable.handleAll (by decide +kernel)
  have hcards : (acesAndKingsPosted 100).variant.CountsFit := by decide +kernel
  have herror : ((acesAndKingsPosted 100).handle lateComer.request).error? = none := by
    decide +kernel
  have hjoined : (acesAndKingsPosted 100).handle lateComer.request =
      .done (acesAndKingsJoined 100) := congrArg (Attempt.mk _) herror
  have hwithin : (acesAndKingsJoined 100).WithinHand
      [.advance, .act 3 .fold, .standUp 3, .advance, .act 1 .fold] := by
    decide +kernel
  obtain ⟨hapart, hreports⟩ := late_arrivals_wait hreachable hcards (by decide +kernel)
    (by decide +kernel) hjoined hwithin (by decide +kernel)
  exact ⟨hreachable, hcards, by decide +kernel, hapart, hreports⟩

/-- **Two things tell that somebody has come.** If somebody wins more chips than a stack can hold,
the error counts those of a late arrival on either side. And nobody else can take the same seat. -/
theorem arrivals_show :
    ((acesAndKingsPosted maxStack).Played ∧ (acesAndKingsPosted maxStack).isUnderway = true ∧
      ((acesAndKingsPosted maxStack).handle lateComer.request).error? = none ∧
      (acesAndKingsPosted maxStack).reports [.advance, .advance, .act 1 .fold] =
        [none, none, some (.breach (.chipsAmiss (maxStack + 100) (maxStack + 99)))] ∧
      (acesAndKingsJoined maxStack).reports [.advance, .advance, .act 1 .fold] =
        [none, none, some (.breach (.chipsAmiss (maxStack + 150) (maxStack + 149)))]) ∧
    (acesAndKingsPosted 100).Reachable ∧ (acesAndKingsPosted 100).isUnderway = true ∧
      ((acesAndKingsPosted 100).handle lateComer.request).error? = none ∧
      (acesAndKingsPosted 100).reports [.sitDown 4 "Dan" 50 2] = [none] ∧
      (acesAndKingsJoined 100).reports [.sitDown 4 "Dan" 50 2] =
        [some (.refused (.seatTaken 2))] :=
  ⟨⟨acesAndKings_reachable.played.handleAll _, by decide +kernel, by decide +kernel,
    by decide +kernel, by decide +kernel⟩, acesAndKings_reachable.handleAll (by decide +kernel),
    by decide +kernel, by decide +kernel, by decide +kernel, by decide +kernel⟩

end Game

end DealersChoice
