import DealersChoice.Game.View
import DealersChoice.Proofs.Game.Agreement
import DealersChoice.Proofs.Game.Legality
import DealersChoice.Proofs.Veil.Requests

/-!
# Leaving on turn is folding

A player who is asked to bet may fold, or get up and leave. The two go different ways through the
betting and the seats, and come to the same: they stop alike or go through alike, and the games they
lead to differ in nothing but whether the player has left, the marks of the player's folded account,
and the fold in the history (`Game.FoldedOrLeft`). Whatever is asked of both games afterwards,
within the hand, turns out alike, and they keep differing in nothing else
(`Game.leaving_is_folding`).

Neither game is the other one under a veil, since the history of one and the seats of the other tell
more. But under a veil for each they are the same game (`Game.InSession.exists_alike_fold_leave`),
and both follow that one.
-/

namespace DealersChoice

namespace Betting

variable {b b' : Betting} {u : Veil} {who : PlayerId} {a : Account} {i stack : Nat}
  {f : Account → Account} {accepted : Accepted}

/-- Folding costs nothing. -/
theorem paid_of_fold (hact : b.act who .fold stack = .ok (accepted, b')) : accepted.paid = 0 := by
  have hprice := (act_eq hact).1
  rw [if_neg (by simp), price] at hprice
  dsimp only at hprice
  split at hprice
  · contradiction
  · exact (Except.ok.inj hprice).symm

/-- Once one account has folded and the round is closed, nothing that the veil leaves out counts. -/
theorem bets_modify (hb : b.Distinct) (hi : b.place? who = some i)
    (hfold : ∀ a, (f a).folded = true) (hgone : u.gone = some who) (hlate : u.late = none) :
    u.Bets { b.modify i f with phase := .over } := by
  obtain ⟨a, ha⟩ := exists_account? hi
  obtain rfl : a.player = who := by simpa using List.find?_some ha
  obtain ⟨before, after, -, haccounts, hmodify⟩ := exists_accounts_eq ha hi
  have hnodup : (before ++ a :: after).Pairwise fun x y ↦ x.player ≠ y.player := by
    rw [Distinct, players_eq, haccounts] at hb
    exact List.pairwise_map.1 hb
  have hothers : ∀ o ∈ before ++ after, a.player ≠ o.player :=
    (List.pairwise_cons.1 ((List.pairwise_middle fun h ↦ Ne.symm h).1 hnodup)).1
  refine ⟨fun o ho hplayer ↦ ?_, fun o _ ↦ by rw [Veil.omits, hlate]; rfl,
    fun _ hturn ↦ absurd hturn (Option.some_ne_none _).symm⟩
  rw [hgone] at hplayer
  have ho : o ∈ before ++ f a :: after := hmodify f ▸ ho
  rcases List.mem_cons.1 (List.perm_middle.mem_iff.1 ho) with rfl | ho
  · exact hfold a
  · exact absurd (Option.some.inj hplayer) (hothers o ho)

/-- Whoever is on turn passes it on with the fold. -/
theorem foldOutOfTurn_of_turn (hi : b.place? who = some i) (hasked : b.toAct = some who)
    {turn : Turn} (hturn : (match (b.modify i fun a ↦ { a with folded := true }).survivor? with
      | some winner => (b.modify i fun a ↦ { a with folded := true }).endFor winner
      | none => (b.modify i fun a ↦ { a with folded := true }).passTurn (i + 1)) = (turn, b')) :
    b.foldOutOfTurn who = (some turn, b') := by
  have hasked' : (b.modify i fun a ↦ { a with folded := true }).toAct = some who := hasked
  rw [foldOutOfTurn, hi]
  dsimp only
  cases hsurvivor : (b.modify i fun a ↦ { a with folded := true }).survivor? with
  | some winner =>
    have hturn : (b.modify i fun a ↦ { a with folded := true }).endFor winner = (turn, b') := by
      simpa only [hsurvivor] using hturn
    dsimp only
    rw [hturn]
  | none =>
    have hturn : (b.modify i fun a ↦ { a with folded := true }).passTurn (i + 1) =
        (turn, b') := by
      simpa only [hsurvivor] using hturn
    dsimp only
    rw [if_pos hasked', hturn]

/-- Whose turn it was does not matter for whose it is next, so rounds that are the same under the
veil but for that pass the turn alike. -/
theorem settleTurn_alike {c d c' d' : Betting} {turn turn' : Turn} {start : Nat}
    (hc : u.Bets { c with phase := .over }) (hd : u.Bets { d with phase := .over })
    (hsame : u.betting { c with phase := .over } = u.betting { d with phase := .over })
    (hturn : (match c.survivor? with
      | some winner => c.endFor winner
      | none => c.passTurn start) = (turn, c'))
    (hturn' : (match d.survivor? with
      | some winner => d.endFor winner
      | none => d.passTurn start) = (turn', d')) :
    turn' = turn ∧ ∃ seen, u.CoversBets c' seen ∧ u.CoversBets d' seen := by
  let closed : Betting := u.betting { c with phase := .over }
  let seen : Turn × Betting := match closed.survivor? with
    | some winner => closed.endFor winner
    | none => closed.passTurn start
  have hfirst : Veil.CoversBets.TurnsAlike u (turn, c') seen := by
    rw [← hturn]
    exact (Veil.CoversBets.mk rfl hc).settleTurn start
  have hsecond : Veil.CoversBets.TurnsAlike u (turn', d') seen := by
    rw [← hturn']
    exact (Veil.CoversBets.mk hsame hd).settleTurn start
  exact ⟨hsecond.turn.symm.trans hfirst.turn, _, hfirst.bets, hsecond.bets⟩

/-- **Folding on turn and folding out of turn come to the same** for whoever is on turn: the same
turn comes up, and what is left out of the folded account is all that differs. -/
theorem act_fold_alike (hb : b.Distinct) (hact : b.act who .fold stack = .ok (accepted, b'))
    (hgone : u.gone = some who) (hlate : u.late = none) :
    (b.foldOutOfTurn who).1 = some accepted.turn ∧
      ∃ c, u.CoversBets b' c ∧ u.CoversBets (b.foldOutOfTurn who).2 c := by
  obtain ⟨-, i, hi, hturn⟩ := act_eq hact
  rw [paid_of_fold hact, noteRaise_enter_zero] at hturn
  let acted (a : Account) : Account :=
    { a with
      inRound := a.inRound + 0
      inPot := a.inPot + 0
      hasActed := true
      raiseOpen := false
      allIn := a.allIn || (0 < 0 && 0 == stack)
      folded := a.folded || (Action.fold == Action.fold) }
  let folded (a : Account) : Account := { a with folded := true }
  have hsame : u.betting { b.modify i acted with phase := .over } =
      u.betting { b.modify i folded with phase := .over } := by
    obtain ⟨a, ha⟩ := exists_account? hi
    have hplayer : u.gone = some a.player := by
      rw [hgone, show a.player = who by simpa using List.find?_some ha]
    obtain ⟨before, after, -, -, hmodify⟩ := exists_accounts_eq ha hi
    simp only [Veil.betting, hmodify, List.map_append, List.map_cons]
    have haccount : u.account (acted a) = u.account (folded a) := by
      simp [Veil.account, acted, folded, hplayer]
    rw [haccount]
    rfl
  obtain ⟨turn, c, hout⟩ : ∃ turn c, (match (b.modify i folded).survivor? with
      | some winner => (b.modify i folded).endFor winner
      | none => (b.modify i folded).passTurn (i + 1)) = (turn, c) := ⟨_, _, rfl⟩
  obtain ⟨rfl, hseen⟩ := settleTurn_alike
    (bets_modify hb hi (f := acted) (fun _ ↦ Bool.or_true _) hgone hlate)
    (bets_modify hb hi (f := folded) (fun _ ↦ rfl) hgone hlate) hsame hturn hout
  rw [foldOutOfTurn_of_turn hi (toAct_of_act hact) hout]
  exact ⟨rfl, hseen⟩

end Betting

namespace Game

variable {g : Game} {w : Seating} {u : Veil} {who : PlayerId} {p : Player} {b : Betting}
  {accepted : Accepted} {turn : Turn}

/-! ### Two ways out of a hand -/

/-- The decision to fold, as it is added to the history. -/
def foldEntry (g : Game) (who : PlayerId) : HistoryEntry where
  player := who
  step := g.lastStepName
  action := .fold
  paid := 0

/-- The game once a player has folded in it, but for the turn. -/
def folded (g : Game) (who : PlayerId) (betting : Betting) : Game :=
  { g with
    betting
    table := (g.table.modifyPlayer who fun p ↦ { p.pay 0 with active := p.active && !true }).muckAll who
    history := { g.history with entries := g.history.entries ++ [g.foldEntry who] } }

/-- Folding on turn. -/
theorem actOnce_fold (hstage : g.stage = .dealing ∨ g.stage = .betting)
    (hp : g.table.player? who = some p)
    (hact : g.betting.act who .fold p.stack = .ok (accepted, b)) :
    g.actOnce who .fold = ((g.folded who b).follow accepted.turn).andThen reconcile := by
  have hasked : g.betting.toAct.isSome = true :=
    Option.isSome_of_eq_some (Betting.toAct_of_act hact)
  rw [actOnce, if_neg (by tauto), hp]
  dsimp only
  rw [if_pos hasked, actInRound, hact]
  dsimp only
  rw [Betting.paid_of_fold hact]
  rfl

/-- If nobody is asked, a departure on turn needs no more than what follows the turn. -/
theorem Aligned.settled_follow (h : g.Aligned) (hstage : g.stage = .dealing ∨ g.stage = .betting)
    (hasked : g.inquiry = none) (hlive : g.betting.livePlayers ≠ []) (hfits : g.betting.Fits turn) :
    (g.follow turn).andThen settleDeparture = g.follow turn := by
  have hopen : g.stage ≠ .complete := by rcases hstage with hs | hs <;> simp [hs]
  have hstays : ∀ g' : Game, g'.Aligned → g'.stage ≠ .complete → g'.inquiry = none →
      2 ≤ g'.betting.livePlayers.length → g'.settleDeparture = .done g' := by
    intro g' h' hopen' hasked' hmany
    rw [settleDeparture_of_contested hopen' (h'.live ▸ hmany), closeInquiry, hasked']
  rcases follow_cases h.accounts hlive hfits with ⟨hmany, heq | heq⟩ | ⟨winner, -, heq⟩
  · rw [heq, Attempt.andThen_done, hstays g h hopen hasked hmany]
  · rw [heq, Attempt.andThen_done, hstays _ h.returnUncalled hopen hasked
      (h.contested_returnUncalled hmany)]
  · -- the hand is over, whether or not the books balance
    have hover := h.returnUncalled.toWhole.concede hopen winner
    rw [heq]
    generalize g.returnUncalled.concede winner = a at hover
    obtain ⟨g', - | e⟩ := a
    · exact settleDeparture_of_complete (hover.of_none rfl).complete
    · rfl

/-- Who leaves on turn leaves the hand, and the turn passes. -/
theorem InSession.leaveHand_of_turn (h : g.InSession w) (hasked : g.inquiry = none)
    (hturn : (g.betting.foldOutOfTurn who).1 = some turn) :
    g.leaveHand who = ((g.abandoned who).follow turn).andThen reconcile := by
  have hlive : (g.abandoned who).betting.livePlayers ≠ [] :=
    (leaveHand_cases h.accounts h.nodup_livePlayers h.contested who).1
  have hfits : (g.abandoned who).betting.Fits turn := fun winner ↦ by
    rw [← Option.some_inj, ← hturn]
    exact Betting.foldOutOfTurn_fits who h.contested winner
  have hnone : (g.abandoned who).inquiry = none := by
    show g.inquiry.map _ = none
    rw [hasked, Option.map_none]
  rw [leaveHand_eq, hturn]
  exact congrArg (Attempt.andThen · reconcile)
    ((h.toAligned.abandoned who).settled_follow h.stage hnone hlive hfits)

/-! ### Under a veil for each -/

/-- Leaves out whether a player who has folded has left. -/
def departureVeil (who : PlayerId) : Veil where
  gone := some who

/-- Leaves out the fold in the history as well. -/
def foldVeil (g : Game) (who : PlayerId) : Veil where
  gone := some who
  noted := some (g.history.entries, g.foldEntry who)

/-- Where somebody has folded or left, the seats are the same under the veil. -/
theorem seats_alike (hseats : u.Seats g.table) (hgone : u.gone = some who) (hlate : u.late = none) :
    ∃ t, u.CoversTable (g.folded who b).table t ∧ u.CoversTable (g.abandoned who).table t := by
  have hseen : u.omits who = false := by rw [Veil.omits, hlate]; rfl
  have hcovers : u.CoversTable g.table (u.table g.table) := ⟨rfl, hseats⟩
  have hfold := hcovers.modifyPlayer hseen (f := fun p ↦
    { p.pay 0 with active := p.active && !true }) ⟨fun _ ↦ rfl, fun _ ↦ rfl⟩
  have hleave := hcovers.dismiss hseen
  have hsame : ((u.table g.table).modifyPlayer who fun p ↦
      { p.pay 0 with active := p.active && !true }) = (u.table g.table).dismiss who := by
    rw [Table.dismiss, Table.modifyPlayer_eq_mapPlayers hseats.distinct_table,
      Table.modifyPlayer_eq_mapPlayers hseats.distinct_table, Table.mapPlayers, Table.mapPlayers]
    congr 1
    refine List.map_congr_left fun entry hentry ↦ ?_
    obtain ⟨o, -, rfl⟩ := List.mem_map.1 hentry
    rcases o with - | p
    · rfl
    · rw [Veil.seat_of_late_eq_none hlate, Option.map_some, Option.map_some, Option.map_some,
        Veil.player_id]
      by_cases hid : p.id = who
      · -- whoever has left already is folded and marked by either
        simp [hid, Veil.player, hgone, Player.pay, Player.leave]
      · simp [hid]
  exact ⟨_, hsame ▸ hfold.muckAll hseen, hleave.muckAll hseen⟩

theorem InSession.seats_of_seated (h : g.InSession w) (hp : g.table.player? who = some p)
    (hgone : u.gone = some who) (hlate : u.late = none) : u.Seats g.table := by
  refine ⟨h.distinct, fun i hi ↦ ?_, fun q hq ↦ by simp [hlate] at hq⟩
  obtain rfl := Option.some.inj (hgone.symm.trans hi)
  exact Table.isSome_player?.1 (Option.isSome_of_eq_some hp)

/-- In the history, the fold is all that differs. -/
theorem history_foldVeil (g : Game) (who : PlayerId) (b : Betting) :
    (g.foldVeil who).history (g.folded who b).history = g.history := by
  have hentries : (g.history.entries ++ [g.foldEntry who]).eraseIdx g.history.entries.length =
      g.history.entries := by
    rw [List.eraseIdx_append_of_length_le (Nat.le_refl _), Nat.sub_self]
    exact List.append_nil _
  exact congrArg (fun entries ↦ { g.history with entries }) hentries

/-- **Before the turn passes, the game of whoever has folded and the game of whoever has left are
the same**, each under its veil. -/
theorem InSession.covers_fold_leave (h : g.InSession w) (hasked : g.inquiry = none)
    (hp : g.table.player? who = some p)
    (hact : g.betting.act who .fold p.stack = .ok (accepted, b)) :
    (g.foldVeil who).Covers (g.folded who b) ((departureVeil who).game (g.abandoned who)) ∧
      (departureVeil who).Covers (g.abandoned who)
        ((departureVeil who).game (g.abandoned who)) := by
  obtain ⟨-, c, hfold, hleave⟩ :=
    Betting.act_fold_alike (u := g.foldVeil who) h.accounts hact rfl rfl
  obtain ⟨-, _, -, hleave'⟩ :=
    Betting.act_fold_alike (u := departureVeil who) h.accounts hact rfl rfl
  obtain ⟨t, htable, htable'⟩ :=
    seats_alike (b := b) (h.seats_of_seated (u := g.foldVeil who) hp rfl rfl) rfl rfl
  obtain ⟨_, -, htable''⟩ :=
    seats_alike (b := b) (h.seats_of_seated (u := departureVeil who) hp rfl rfl) rfl rfl
  have hseated : (departureVeil who).table (g.abandoned who).table =
      (g.foldVeil who).table (g.folded who b).table := htable'.eq.symm.trans htable.eq
  have hbets : (departureVeil who).betting (g.abandoned who).betting =
      (g.foldVeil who).betting b := hleave.eq.symm.trans hfold.eq
  have hnone : (g.abandoned who).inquiry = g.inquiry := by
    show g.inquiry.map _ = g.inquiry
    rw [hasked, Option.map_none]
  refine ⟨⟨?_, htable.seats, hfold.bets, fun q _ ↦ Veil.asks_of_late_eq_none rfl q,
      Nat.zero_le _, fun before entry hnoted ↦ ?_⟩,
    ⟨rfl, htable''.seats, hleave'.bets, fun q _ ↦ Veil.asks_of_late_eq_none rfl q,
      Nat.zero_le _, fun _ _ hnoted ↦ absurd hnoted (Option.some_ne_none _).symm⟩⟩
  · rw [Veil.game, Veil.game, hseated, hbets, hnone, history_foldVeil]
    rfl
  · obtain ⟨rfl, rfl⟩ := Prod.mk.inj (Option.some.inj hnoted)
    exact List.prefix_rfl

/-- **Folding on turn and leaving on turn are the same under the veil** of the one and the other:
they lead to the same game, or stop alike. -/
theorem InSession.exists_alike_fold_leave (h : g.InSession w) (hasked : g.inquiry = none)
    (hp : g.table.player? who = some p)
    (hact : g.betting.act who .fold p.stack = .ok (accepted, b)) :
    ∃ seen : Play, (g.foldVeil who).Alike (g.actOnce who .fold) seen ∧
      (departureVeil who).Alike (g.leaveHand who) seen := by
  obtain ⟨hturn, -⟩ := Betting.act_fold_alike (u := departureVeil who) h.accounts hact rfl rfl
  obtain ⟨hfold, hleave⟩ := h.covers_fold_leave hasked hp hact
  rw [actOnce_fold h.stage hp hact, h.leaveHand_of_turn hasked hturn]
  exact ⟨_, (hfold.follow fun _ _ ↦ rfl).andThen fun _ _ hs ↦ hs.reconcile,
    (hleave.follow fun _ _ ↦ rfl).andThen fun _ _ hs ↦ hs.reconcile⟩

/-! ### What is left of the difference -/

/-- The seat is the same, but for whether `who` has left. -/
def SameSeat (who : PlayerId) (seat seat' : Option Player) : Prop :=
  seat' = seat ∨
    ∃ p hasLeft, seat = some p ∧ p.id = who ∧ seat' = some { p with hasLeft }

/-- The account is the same, but for the marks of the round if `who` has folded. -/
def SameAccount (who : PlayerId) (a a' : Account) : Prop :=
  a' = a ∨ a.player = who ∧ a.folded = true ∧
    ∃ hasActed raiseOpen, a' = { a with hasActed, raiseOpen }

/-- The second game differs from the first one in nothing but whether `who` has left, the marks of
their folded account, and that the history of the first one has a fold after `before`. -/
structure FoldedOrLeft (who : PlayerId) (before : List HistoryEntry) (fold : HistoryEntry)
    (folded left : Game) : Prop where
  rest : left = { folded with
    table := { folded.table with seats := left.table.seats }
    betting := { folded.betting with accounts := left.betting.accounts }
    history := { folded.history with entries := left.history.entries } }
  seats : List.Forall₂ (SameSeat who) folded.table.seats left.table.seats
  accounts : List.Forall₂ (SameAccount who) folded.betting.accounts left.betting.accounts
  entries : ∃ since, folded.history.entries = before ++ fold :: since ∧
    left.history.entries = before ++ since

section SameView

variable {v : Veil} (hgone : u.gone = some who) (hgone' : v.gone = some who)
include hgone hgone'

/-- Seats that are the same under two veils for the player. -/
theorem sameSeat (hlate : u.late = none) (hlate' : v.late = none) {seat seat' : Option Player}
    (h : u.seat seat = v.seat seat') : SameSeat who seat seat' := by
  rw [Veil.seat_of_late_eq_none hlate, Veil.seat_of_late_eq_none hlate'] at h
  rcases seat with - | p
  · exact Or.inl (Option.map_eq_none_iff.1 h.symm)
  · obtain ⟨p', rfl, hplayer⟩ := Option.map_eq_some_iff.1 h.symm
    have hid : p'.id = p.id := by simpa using congrArg Player.id hplayer
    by_cases hwho : p.id = who
    · obtain ⟨left, hleft⟩ := u.player_eq p
      obtain ⟨left', hleft'⟩ := v.player_eq p'
      refine Or.inr ⟨p, p'.hasLeft, rfl, hwho, congrArg some ?_⟩
      exact congrArg (fun q : Player ↦ { q with hasLeft := p'.hasLeft })
        (hleft'.symm.trans (hplayer.trans hleft))
    · have hstays : u.gone ≠ some p.id := by simpa [hgone] using Ne.symm hwho
      have hstays' : v.gone ≠ some p'.id := by simpa [hgone', hid] using Ne.symm hwho
      rw [Veil.player, if_neg hstays', Veil.player, if_neg hstays] at hplayer
      exact Or.inl (congrArg some hplayer)

/-- Accounts that are the same under two veils for the player, who has folded. -/
theorem sameAccount {a a' : Account} (hfolded : a.player = who → a.folded = true)
    (h : u.account a = v.account a') : SameAccount who a a' := by
  have hid : a'.player = a.player := by simpa using (congrArg Account.player h).symm
  by_cases hwho : a.player = who
  · refine Or.inr ⟨hwho, hfolded hwho, a'.hasActed, a'.raiseOpen, ?_⟩
    rw [Veil.account, if_pos (by rw [hgone, hwho]), Veil.account,
      if_pos (by rw [hgone', hid, hwho])] at h
    exact congrArg (fun o : Account ↦
      { o with hasActed := a'.hasActed, raiseOpen := a'.raiseOpen }) h.symm
  · refine Or.inl ?_
    rw [Veil.account_eq_self (by simpa [hgone] using Ne.symm hwho),
      Veil.account_eq_self (by simpa [hgone', hid] using Ne.symm hwho)] at h
    exact h.symm

end SameView

/-- **Two games that are the same under the two veils** differ as they are to. -/
theorem foldedOrLeft_of_covers {folded left seen : Game}
    (hfold : (g.foldVeil who).Covers folded seen) (hleave : (departureVeil who).Covers left seen) :
    FoldedOrLeft who g.history.entries (g.foldEntry who) folded left := by
  have hsame : (departureVeil who).game left = (g.foldVeil who).game folded :=
    hleave.eq.symm.trans hfold.eq
  refine ⟨?_, ?_, ?_, ?_⟩
  · exact congrArg (fun x : Game ↦ { x with
      table := { x.table with seats := left.table.seats }
      betting := { x.betting with accounts := left.betting.accounts }
      history := { x.history with entries := left.history.entries } }) hsame
  · have hseats : folded.table.seats.map (g.foldVeil who).seat =
        left.table.seats.map (departureVeil who).seat := (congrArg (·.table.seats) hsame).symm
    exact (forall₂_of_map_eq hseats).imp fun _ _ h ↦
      sameSeat (u := g.foldVeil who) (v := departureVeil who) rfl rfl rfl rfl h
  · have haccounts : folded.betting.accounts.map (g.foldVeil who).account =
        left.betting.accounts.map (departureVeil who).account :=
      (congrArg (·.betting.accounts) hsame).symm
    exact ((List.forall₂_and_left _ _).2 ⟨hfold.bets.folded, forall₂_of_map_eq haccounts⟩).imp fun a b h ↦
      sameAccount (u := g.foldVeil who) (v := departureVeil who) rfl rfl
        (fun hwho ↦ h.1 (hwho ▸ rfl)) h.2
  · obtain ⟨since, hsince⟩ := hfold.noted _ _ rfl
    have hentries : left.history.entries =
        folded.history.entries.eraseIdx g.history.entries.length :=
      congrArg (·.history.entries) hsame
    refine ⟨since, by rw [← hsince, List.append_assoc]; rfl, ?_⟩
    rw [hentries, ← hsince, List.append_assoc,
      List.eraseIdx_append_of_length_le (Nat.le_refl _), Nat.sub_self]
    rfl

/-- **Leaving on turn is folding.** Where a player is asked to bet and may fold, leaving and folding
stop alike or both go through, and they go through if no stack is too small for the chips and the
cards of the rules can be counted. Whatever is asked of the two games afterwards, as long as no new
hand begins, is answered alike. Then the two differ in nothing but whether the player has left, the
marks of their folded account, and the fold in the history, so that everybody sees the same, and the
hand has the same outcome. -/
theorem leaving_is_folding (h : g.Played) (hturn : g.betting.toAct = some who)
    (hoffers : g.Offers who .fold) :
    (g.Reachable → g.variant.CountsFit → (g.act who .fold).error? = none) ∧
    (g.standUp who).error? = (g.act who .fold).error? ∧
    ∀ requests, (g.act who .fold).state.WithinHand requests →
      (g.standUp who).state.reports requests = (g.act who .fold).state.reports requests ∧
      FoldedOrLeft who g.history.entries (g.foldEntry who)
        ((g.act who .fold).state.handleAll requests) ((g.standUp who).state.handleAll requests) ∧
      ((g.standUp who).state.handleAll requests).publicView =
        ((g.act who .fold).state.handleAll requests).publicView ∧
      ((g.standUp who).state.handleAll requests).outcome =
        ((g.act who .fold).state.handleAll requests).outcome ∧
      ∀ owner viewer, ((g.standUp who).state.handleAll requests).handSeenBy? owner viewer =
        ((g.act who .fold).state.handleAll requests).handSeenBy? owner viewer := by
  obtain ⟨w, hhand, -⟩ := h.asking hturn
  have hfree := (h.steady (isUnderway_of_stage hhand.stage)).1.free (Option.isSome_of_eq_some hturn)
  obtain ⟨p, hp, -⟩ := id hoffers
  obtain ⟨⟨accepted, b⟩, hact⟩ := (offers_iff_of_bets hp hturn).1 hoffers
  obtain ⟨seen, hfold, hleave⟩ := hhand.exists_alike_fold_leave hfree.unasked hp hact
  have hacted : (g.foldVeil who).Alike (g.act who .fold) (seen.andThen carryOn) :=
    hfold.andThen fun _ _ hs ↦ hs.carryOn rfl
  have hleft : (departureVeil who).Alike (g.standUp who) (seen.andThen carryOn) := by
    have hstage := hhand.stage
    rw [standUp, hp, if_neg (by simp), if_neg (by tauto)]
    exact hleave.andThen fun _ _ hs ↦ hs.carryOn rfl
  refine ⟨fun hreachable hcards ↦ ?_, ?_, fun requests hwithin ↦ ?_⟩
  · have honTurn : g.onTurn = some who := by rw [onTurn, hturn, Option.some_or]
    have hverdict := hreachable.act_verdict hcards honTurn .fold
    exact hverdict.error?_eq_none_iff.2 ⟨hoffers, Nat.zero_le _⟩
  · have herrors : (g.standUp who).error?.map (PlayError.less 0) =
        (g.act who .fold).error?.map (PlayError.less 0) := hleft.error.symm.trans hacted.error
    simpa [PlayError.less_zero] using herrors
  -- nobody has come late, so nobody's requests are left out
  have hothers : ∀ u : Veil, u.late = none → ∀ r ∈ requests, ∀ q, u.late = some q →
      ¬Request.Concerns q r := fun u hlate _ _ q hq ↦ by simp [hlate] at hq
  have hwithin' := (hleft.state.withinHand_iff rfl (hothers _ rfl)).1
    ((hacted.state.withinHand_iff rfl (hothers _ rfl)).2 hwithin)
  obtain ⟨hfolded, hreports⟩ := hacted.state.handleAll rfl (hothers _ rfl) hwithin
  obtain ⟨hgone, hreports'⟩ := hleft.state.handleAll rfl (hothers _ rfl) hwithin'
  refine ⟨?_, foldedOrLeft_of_covers hfolded hgone, ?_, ?_, fun owner viewer ↦ ?_⟩
  · have hanswers : ((g.standUp who).state.reports requests).map (Option.map (PlayError.less 0)) =
        ((g.act who .fold).state.reports requests).map (Option.map (PlayError.less 0)) :=
      hreports'.symm.trans hreports
    simpa [PlayError.less_zero] using hanswers
  · exact (hgone.publicView_of_late_eq_none rfl).symm.trans
      (hfolded.publicView_of_late_eq_none rfl)
  · exact (congrArg (·.outcome) hgone.eq).symm.trans (congrArg (·.outcome) hfolded.eq)
  · exact (hgone.handSeenBy? rfl viewer).symm.trans (hfolded.handSeenBy? rfl viewer)

/-- A table for `Variant.acesAndKings` where the first of three players is asked to call the
blind. -/
def acesAndKingsOpened : Game :=
  acesAndKings.handleAll (acesAndKingsRequests.take 6)

/-- Whether that player folds or leaves, once the second one folds the third one has won, and the
tables look the same. -/
theorem acesAndKingsOpened_leaves :
    acesAndKingsOpened.betting.toAct = some 1 ∧ acesAndKingsOpened.Offers 1 .fold ∧
    ((acesAndKingsOpened.act 1 .fold).state.handleAll [.act 2 .fold]).stage = .complete ∧
    ((acesAndKingsOpened.standUp 1).state.handleAll [.act 2 .fold]).publicView =
      ((acesAndKingsOpened.act 1 .fold).state.handleAll [.act 2 .fold]).publicView := by
  have hplayed : acesAndKingsOpened.Played := acesAndKings_reachable.played.handleAll _
  have hturn : acesAndKingsOpened.betting.toAct = some 1 := by decide +kernel
  have hfold : (⟨.fold, 0, 0⟩ : Choice) ∈ acesAndKingsOpened.choices 1 := by decide +kernel
  have hseated : (acesAndKingsOpened.table.player? 1).isSome = true := by decide +kernel
  obtain ⟨p, hp⟩ := Option.isSome_iff_exists.1 hseated
  have hoffers : acesAndKingsOpened.Offers 1 .fold := ⟨p, hp, ⟨_, hfold, rfl⟩, nofun⟩
  obtain ⟨-, -, hruns⟩ := leaving_is_folding hplayed hturn hoffers
  obtain ⟨-, -, hview, -⟩ := hruns [.act 2 .fold] (by decide +kernel)
  exact ⟨hturn, hoffers, by decide +kernel, hview⟩

end Game

end DealersChoice
