import DealersChoice.Proofs.Game.Orderly.Basic
import DealersChoice.Proofs.Game.Session.Runs
import DealersChoice.Proofs.Game.Setup

/-!
# When chips go missing

A stack that wins more than it can hold loses the rest. That happens only when the pots are paid out
at the end of a hand: before that, nobody has more in the stack and in the pots than they brought,
so a stack can hold whatever goes back to it. So as long as nobody sits down with more than a stack
can hold (`Request.Fits`), all chips are there while a hand is on, however many there are altogether
(`Game.Tidy`).
-/

namespace DealersChoice

/-- Nobody sits down with more chips than a stack can hold. -/
def Request.Fits : Request → Prop
  | .sitDown _ _ stack _ => stack ≤ maxStack
  | _ => True

instance (r : Request) : Decidable r.Fits :=
  match r with
  | .sitDown .. => Nat.decLe ..
  | .standUp _ | .beginHand | .advance | .act .. => .isTrue trivial

namespace Table

variable {t : Table}

/-- No stack is more than it can be. -/
def Fits (t : Table) : Prop :=
  ∀ p ∈ t.players, p.stack ≤ maxStack

theorem Fits.modifyPlayer (h : t.Fits) {f : Player → Player}
    (hf : ∀ p, p.stack ≤ maxStack → (f p).stack ≤ maxStack) (who : PlayerId) :
    (t.modifyPlayer who f).Fits := by
  cases hp : t.player? who with
  | none => rwa [modifyPlayer_eq_self hp]
  | some p =>
    obtain ⟨before, after, hplayers, hmodify⟩ := exists_players_eq hp
    intro q hq
    rw [Fits, hplayers] at h
    rw [hmodify] at hq
    simp only [List.mem_append, List.mem_cons] at h hq
    rcases hq with hq | rfl | hq
    · exact h q (Or.inl hq)
    · exact hf p (h p (Or.inr (Or.inl rfl)))
    · exact h q (Or.inr (Or.inr hq))

/-- **Whatever a stack wins, it holds no more than it can.** -/
theorem Fits.collect (h : t.Fits) (who : PlayerId) (n : Nat) :
    (t.modifyPlayer who (·.collect n)).Fits :=
  h.modifyPlayer (fun _ _ ↦ Nat.min_le_right ..) who

end Table

namespace Game

variable {g g' : Game} {w : Seating} {who : PlayerId} {p : Player}

/-- The books of a hand that is on: all chips are there, and nobody has more of them than a stack
can hold. -/
structure Solvent (g : Game) : Prop where
  counted : g.chipsAtStart = g.holdings.chips
  each : ∀ entry ∈ g.holdings, entry.2 ≤ maxStack

/-- The stacks hold what they can, and the books of a hand that is on are in order. -/
structure Tidy (g : Game) : Prop where
  fits : g.table.Fits
  books : g.isUnderway = true → g.Solvent

/-- The game is tidy afterwards, whether or not the operation goes through. -/
abbrev Tidily (a : Play) : Prop :=
  a.Meets Tidy fun g _ ↦ g.Tidy

theorem Solvent.table (h : g.Solvent) : g.table.Fits := fun _ hp ↦
  Nat.le_trans (Nat.le_add_right ..) (h.each _ (List.mem_map_of_mem hp))

theorem Solvent.tidy (h : g.Solvent) : g.Tidy :=
  ⟨h.table, fun _ ↦ h⟩

theorem Tidy.of_over (h : g.table.Fits) (hover : g.isUnderway = false) : g.Tidy :=
  ⟨h, fun hunderway ↦ by rw [hover] at hunderway; contradiction⟩

/-- **No chips are missing while a hand is on.** -/
theorem Solvent.chips_eq (h : g.Solvent) (haligned : g.Aligned) : g.chips = g.chipsAtStart :=
  haligned.chips_eq.trans h.counted.symm

/-- The books look at what everybody has, and at nothing else. -/
theorem Solvent.congr (h : g.Solvent) (hholdings : g'.holdings = g.holdings)
    (hstart : g'.chipsAtStart = g.chipsAtStart) : g'.Solvent where
  counted := by rw [hstart, hholdings, h.counted]
  each := by
    rw [hholdings]
    exact h.each

theorem Solvent.moves (h : g.Solvent) (htable : g.table.Moves g'.table)
    (hbetting : g'.betting.contributions = g.betting.contributions)
    (hstart : g'.chipsAtStart = g.chipsAtStart) : g'.Solvent :=
  h.congr (holdings_moves htable hbetting) hstart

theorem Solvent.cardsMove (h : g.Solvent) (hmove : g.CardsMove g') : g'.Solvent :=
  h.moves hmove.table (by rw [hmove.betting]) hmove.chipsAtStart

theorem Solvent.movesCards (h : g.Solvent) {a : Play} (ha : g.MovesCards a) : Tidily a :=
  ha.mono (fun _ hmove ↦ (h.cardsMove hmove).tidy) fun _ _ hstop ↦ (h.cardsMove hstop.1).tidy

/-- **What goes back to a stack, it can hold.** -/
theorem Solvent.returnUncalled (h : g.Solvent) (haligned : g.Aligned) : g.returnUncalled.Solvent :=
  h.congr (haligned.holdings_returnUncalled h.each) rfl

/-! ### The end of a hand -/

/-- When a hand is over, nothing but the stacks counts. -/
theorem tidily_conclude (h : g.table.Fits) (outcome : Outcome) : Tidily (g.conclude outcome) := by
  have htidy : (g.conclude outcome).state.Tidy := by
    refine .of_over ?_ (by rw [isUnderway, stage_conclude])
    rw [table_conclude]
    exact h
  exact ⟨fun _ ↦ htidy, fun _ ↦ htidy⟩

theorem fits_payOut {t : Table} (h : t.Fits) (awards : List Award) : (payOut t awards).Fits :=
  List.foldlRecOn (motive := Table.Fits) _ _ h fun _ ht a _ ↦ ht.collect a.player a.amount

/-- What follows a betting action. -/
theorem Solvent.follow (h : g.Solvent) (haligned : g.Aligned) (turn : Turn) :
    Tidily (g.follow turn) := by
  cases turn with
  | next => exact .of_done h.tidy
  | complete => exact .of_done (h.returnUncalled haligned).tidy
  | survivor winner =>
    exact tidily_conclude ((h.returnUncalled haligned).table.collect winner _) _

theorem Solvent.settleShowdown (h : g.Solvent) (haligned : g.Aligned) :
    Tidily g.settleShowdown := by
  have hclosed := h.returnUncalled haligned
  rw [Game.settleShowdown]
  split
  · exact .of_stop hclosed.tidy
  · exact tidily_conclude (fits_payOut hclosed.table _) _

/-! ### Steps -/

theorem Solvent.putIn (h : g.Solvent) (haligned : g.Aligned) (who : PlayerId) (amount : Nat)
    (ante : Bool) : (g.putIn who amount ante).Solvent := by
  obtain ⟨paid, stack, betting, heq, hputs, hstack⟩ :=
    putIn_eq haligned.distinct haligned.accounts who amount ante
  rw [heq]
  refine h.congr (holdings_putsIn haligned.distinct (.pay paid) hputs (.refl _) ?_) rfl
  intro p hp hid
  obtain ⟨hwhole, hpaid⟩ := hstack p hp hid
  exact hpaid.trans hwhole.symm

theorem Solvent.collectForcedBets (h : g.Solvent) (hhand : g.InSession w) (kind : ForcedBet) :
    (g.collectForcedBets kind).Solvent :=
  (collectForcedBets_keeps (P := fun g ↦ g.InSession w ∧ g.Solvent)
    (fun _ who amount ante hg ↦
      ⟨hg.1.putIn who amount ante, hg.2.putIn hg.1.toAligned who amount ante⟩)
    (fun _ _ hg ↦ ⟨hg.1.cardsMove ⟨.refl _, rfl, rfl, rfl, rfl, rfl, fun _ hi ↦ Or.inl hi⟩,
      hg.2.congr rfl rfl⟩) ⟨hhand, h⟩ kind).2

theorem Solvent.openBets (h : g.Solvent) (haligned : g.Aligned) (size : FixedBet) :
    Tidily (g.openBets size) := by
  rw [Game.openBets]
  dsimp only
  split
  · exact .of_done (Solvent.tidy (h.congr rfl rfl))
  · rename_i first _
    obtain ⟨⟨turn, betting⟩, hopen⟩ : ∃ r, g.betting.openFrom size first = r := ⟨_, rfl⟩
    have hcontributions := (Betting.openFrom_spec hopen).1
    rw [hopen]
    have hopened : ({ g with opener := none, betting } : Game).Solvent :=
      h.moves (.refl _) hcontributions rfl
    exact hopened.follow (haligned.moves (.refl _) hcontributions rfl fun _ hi ↦ Or.inl hi) turn

/-- **A step keeps the game tidy**, whether it goes through or stops. -/
theorem Solvent.takeStep (h : g.Solvent) (hpoised : g.Poised w) : Tidily g.takeStep := by
  cases hstep : g.nextStep? with
  | none =>
    obtain ⟨i, name, heq⟩ := takeStep_of_none hstep
    rw [heq]
    exact .of_stop h.tidy
  | some step =>
    have hnoted := hpoised.noted step
    have hdealing := hnoted.entered (Or.inl rfl)
    have hbetting := hnoted.entered (Or.inr rfl)
    have hsame : ∀ stage, ({ g.noted step with stage } : Game).Solvent := fun _ ↦ h.congr rfl rfl
    rw [takeStep_eq hstep]
    refine reconcile_meets (perform_meets hnoted.early ?_ ?_ ?_ ?_ ?_)
    · exact fun kind _ ↦ ((hsame .betting).collectForcedBets hbetting kind).tidy
    · exact fun size _ ↦ (hsame .betting).openBets hbetting.toAligned size
    · exact fun deal _ ↦ (hsame .dealing).movesCards (dealStep_movesCards _ step.name deal)
    · exact fun _ ↦ ((hsame .dealing).cardsMove (ask_cardsMove _ g.stepsDone)).tidy
    · exact fun _ ↦ (hsame .showdown).settleShowdown hnoted.atShowdown

/-- A game at rest is solvent, if a hand is on. -/
theorem Tidy.takeStep (h : g.Tidy) (hrest : g.Rested w) (hunderway : g.isUnderway = true) :
    Tidily g.takeStep :=
  (h.books hunderway).takeStep (hrest.inSession hunderway).poised

/-- **So does walking on.** -/
theorem tidily_carryOn {a : Play} (h : Tidily a) (hrest : Restfully w a) :
    Tidily (a.andThen carryOn) := by
  have hboth : a.Meets (fun g ↦ g.Tidy ∧ g.Rested w) fun g _ ↦ g.Tidy ∧ g.Rested w := h.and hrest
  have hwalks := carryOn_meets (P := fun g ↦ g.Tidy ∧ g.Rested w) (S := fun g _ ↦ g.Tidy ∧ g.Rested w)
    (fun g hg hidle ↦ by
      have hunderway := isUnderway_of_isIdle hidle
      exact (hg.1.takeStep hg.2 hunderway).and
        ((hg.2.inSession hunderway).poised.takeStep hg.2)) hboth
  exact hwalks.mono (fun _ h ↦ h.1) fun _ _ h ↦ h.1

/-! ### Requests -/

theorem Solvent.actInRound (h : g.Solvent) (hhand : g.InSession w)
    (hp : g.table.player? who = some p) (action : Action) :
    Tidily (g.actInRound who action p.stack) := by
  cases hact : g.betting.act who action p.stack with
  | error cause =>
    rw [actInRound_refused hact]
    exact .of_stop h.tidy
  | ok r =>
    obtain ⟨accepted, betting⟩ := r
    obtain ⟨hpaid, hputs, -⟩ := Betting.act_spec hhand.accounts hact
    have hmuck := Table.muckIf_moves (g.table.modifyPlayer who fun p ↦
      { p.pay accepted.paid with active := p.active && !(action == .fold) }) who (action == .fold)
    have hstack : ∀ q ∈ g.table.players, q.id = who →
        (q.pay accepted.paid).stack + accepted.paid = q.stack ∧
          (0 < accepted.paid → q.stack = p.stack) := by
      intro q hq hwho
      rw [hhand.distinct.eq_of_player? hp hq hwho]
      refine ⟨?_, fun _ ↦ rfl⟩
      show p.stack - min accepted.paid p.stack + accepted.paid = p.stack
      omega
    simp only [Game.actInRound, hact]
    refine Solvent.follow ?_ ?_ _
    · refine h.congr (holdings_putsIn hhand.distinct (.bet accepted.paid _) hputs hmuck ?_) rfl
      exact fun q hq hwho ↦ (hstack q hq hwho).1
    · exact hhand.toAligned.putsIn (.bet accepted.paid _) hputs hmuck hstack rfl
        fun _ hi ↦ Or.inl hi

/-- **An action keeps the game tidy.** -/
theorem Tidy.actOnce (h : g.Tidy) (hrest : g.Rested w) (who : PlayerId) (action : Action) :
    Tidily (g.actOnce who action) := by
  rcases g.actOnce_cases who action with ⟨e, heq, -⟩ | ⟨hstage, hdecision⟩
  · rw [heq]
    exact .of_stop h
  · have hunderway := isUnderway_of_stage hstage
    have hhand := hrest.inSession hunderway
    have hsolvent := h.books hunderway
    rcases hdecision with ⟨p, hp, -, heq⟩ | ⟨q, -, hq, heq⟩
    · rw [heq]
      exact reconcile_meets (hsolvent.actInRound hhand hp action)
    · rw [heq]
      have hanswer := answer_decides hhand.distinct hhand.asked hq who action
      exact reconcile_meets (hanswer.mono (fun _ hmove ↦ (hsolvent.cardsMove hmove).tidy)
        fun _ _ hstop ↦ hstop.1 ▸ h)

theorem Solvent.abandoned (h : g.Solvent) (hhand : g.InSession w) (who : PlayerId) :
    (g.abandoned who).Solvent :=
  h.congr (holdings_putsIn hhand.distinct .leave
    (Betting.foldOutOfTurn_putsIn hhand.accounts who) (Table.muckAll_moves _ who)
    fun _ _ _ ↦ rfl) rfl

theorem Solvent.settleDeparture (h : g.Solvent) (hhand : g.InSession w) :
    Tidily g.settleDeparture := by
  have hopen : g.stage ≠ .complete := by rcases hhand.stage with hs | hs <;> simp [hs]
  rw [settleDeparture_of_contested hopen (hhand.live ▸ hhand.contested)]
  exact .of_done (h.cardsMove (closeInquiry_cardsMove hhand.asked)).tidy

/-- **Leaving a hand keeps the game tidy.** -/
theorem Solvent.leaveHand (h : g.Solvent) (hhand : g.InSession w) (who : PlayerId) :
    Tidily (g.leaveHand who) := by
  have hsolvent := h.abandoned hhand who
  have haligned := hhand.toAligned.abandoned who
  have hseating := hhand.seating_abandoned who
  obtain ⟨hlive, ⟨turn, -, hfits, heq⟩ | ⟨hmany, heq⟩⟩ :=
    leaveHand_cases hhand.accounts hhand.nodup_livePlayers hhand.contested who
  · have hfollow := (haligned.follow hseating hhand.dealer hhand.stage hlive hfits).and
      (hsolvent.follow haligned turn)
    rw [heq]
    refine reconcile_meets ((hfollow.mono (fun _ h ↦ h) fun _ _ h ↦ h.2).andThen fun g' hg' ↦ ?_)
    rcases hg' with ⟨hg' | hg', htidy⟩
    · exact (htidy.books (isUnderway_of_stage hg'.stage)).settleDeparture hg'
    · rw [settleDeparture_of_complete hg'.complete]
      exact .of_done htidy
  · have hsession : (g.abandoned who).InSession w :=
      ⟨haligned, hseating, hhand.dealer, hhand.stage, hmany⟩
    rw [heq]
    exact reconcile_meets (hsolvent.settleDeparture hsession)

theorem Tidy.standUp (h : g.Tidy) (hrest : g.Rested w) (who : PlayerId) :
    Tidily (g.standUp who) := by
  rcases g.standUp_cases who with ⟨e, heq, -⟩ | ⟨hstage, heq⟩ | ⟨hstage, heq⟩
  · rw [heq]
    exact .of_stop h
  · rw [heq]
    -- nobody leaves in the middle of a showdown
    have hover : g.isUnderway = false := (hrest.resolve_left fun hhand ↦ hstage hhand.stage).stage
    have hfits : (g.table.dismiss who).Fits :=
      h.fits.modifyPlayer (f := Player.leave) (fun _ hp ↦ hp) who
    exact .of_done (.of_over hfits hover)
  · rw [heq]
    have hunderway := isUnderway_of_stage hstage
    have hhand := hrest.inSession hunderway
    exact tidily_carryOn ((h.books hunderway).leaveHand hhand who) (hhand.leaveHand who)

/-- **Who sits down with no more than a stack can hold brings no disorder.** -/
theorem Tidy.sitDown (h : g.Tidy) (hrest : g.Rested w) (id : PlayerId) (name : String) {stack : Nat}
    (hfits : stack ≤ maxStack) (seat : Nat) : Tidily (g.sitDown id name stack seat) := by
  rw [Game.sitDown]
  split
  · exact .of_stop h
  · rename_i table hsit
    refine .of_done ⟨fun p hp ↦ ?_, fun hunderway ↦ ?_⟩
    · rcases List.mem_cons.1 ((Table.players_sit hsit).mem_iff.1 hp) with rfl | hp
      · exact hfits
      · exact h.fits p hp
    · have hunderway : g.isUnderway = true := hunderway
      have hsolvent := h.books hunderway
      have hholdings := (hrest.inSession hunderway).toAligned.holdings_sitDown hsit
        (if g.isUnderway then g.chipsAtStart + stack else g.chipsAtStart)
      refine ⟨?_, fun entry hentry ↦ ?_⟩
      · rw [Bankrolls.chips, total_perm (hholdings.map (·.2)), List.map_cons, total_cons,
          ← Bankrolls.chips, ← hsolvent.counted, if_pos hunderway, Nat.add_comm]
      · rcases List.mem_cons.1 (hholdings.mem_iff.1 hentry) with rfl | hentry
        · exact hfits
        · exact hsolvent.each entry hentry

/-- Whatever the last hand has come to, a fresh one begins with its books in order. -/
theorem Tidy.solvent_freshHand (h : g.Tidy) : g.freshHand.Solvent where
  counted := by
    rw [holdings_freshHand]
    exact chips_freshHand g
  each entry hentry := by
    rw [holdings_freshHand, bankrolls, Table.players_freeSeats] at hentry
    obtain ⟨p, hp, rfl⟩ := List.mem_map.1 hentry
    exact h.fits p (List.mem_filter.1 hp).1

theorem Tidy.beginHand (h : g.Tidy) (hrest : g.Rested w) : Tidily g.beginHand := by
  rw [Game.beginHand]
  rcases g.beginOnce_cases with ⟨e, heq, -⟩ | ⟨hwaiting, hready, heq⟩
  · rw [heq]
    exact .of_stop h
  · have hclosed := hrest.closed hwaiting
    obtain ⟨hpoised, hfresh⟩ := hclosed.freshHand hready
    rw [heq]
    exact tidily_carryOn (h.solvent_freshHand.takeStep hpoised)
      (hpoised.takeStep hfresh)

theorem Tidy.advance (h : g.Tidy) (hrest : g.Rested w) : Tidily g.advance := by
  rw [Game.advance]
  rcases g.advanceOnce_cases with ⟨e, heq, -⟩ | ⟨hunderway, -, -, heq⟩
  · rw [heq]
    exact .of_stop h
  · rw [heq]
    exact tidily_carryOn (h.takeStep hrest hunderway)
      ((hrest.inSession hunderway).poised.takeStep hrest)

/-- **No request makes disorder**, if nobody sits down with more than a stack can hold. -/
theorem Tidy.handle (h : g.Tidy) (hrest : g.Rested w) {r : Request} (hr : r.Fits) :
    Tidily (g.handle r) := by
  cases r with
  | sitDown id name stack seat => exact h.sitDown hrest id name hr seat
  | standUp id => exact h.standUp hrest id
  | beginHand => exact h.beginHand hrest
  | advance => exact h.advance hrest
  | act who action => exact tidily_carryOn (h.actOnce hrest who action) (hrest.actOnce who action)

theorem tidy_of_openTable {v : Variant} {settings : Settings} {drawn : Nat} (hv : v.IsLoaded)
    (h : openTable v settings drawn = .ok g) : g.Tidy := by
  have hover := (over_of_openTable hv h).stage
  obtain ⟨-, rfl⟩ := openTable_eq h
  refine .of_over (fun p hp ↦ ?_) hover
  rw [Table.players_ofDeck] at hp
  exact absurd hp List.not_mem_nil

end Game

end DealersChoice
