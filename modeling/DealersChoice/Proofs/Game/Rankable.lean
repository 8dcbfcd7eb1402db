import DealersChoice.Proofs.Game.DealtOut
import DealersChoice.Proofs.Showdown.BestHands
import Mathlib.Data.List.Flatten

/-!
# Which rules can rank the hands that are dealt

At a showdown everybody in the hand holds the cards that have been dealt to each player, and sees
the board that has been dealt, unless the rules take cards away. So whether a rule without a
qualifier gives them a hand is mostly settled by the rules of the variant: by how many cards they
deal, by how many the rule takes, and by how often a rank is in the deck (`Game.hands_at_showdown`),
as long as the cards of a full table can be counted, so that no deal runs out of them.

Loading does not ask for that. There are rules that ask a ranking by categories for six cards, and
where they are played, nobody ever holds a hand, and every pot is chopped
(`Game.six_cards_have_no_hand`).
-/

namespace DealersChoice

/-- The cards that the first steps deal make a hand of a size that the rule can judge. -/
def Variant.Fits (v : Variant) (done : Nat) (rule : BestHandRule) : Prop :=
  rule.SizeFits (v.handSize done) (v.boardSize done rule.zones)

namespace Game

variable {g : Game} {w : Seating} {step : Step} {who : PlayerId} {p : Player}

/-- The cards that a player can use are different cards of the deck. -/
theorem Whole.subperm_deck (h : g.Whole) (hp : g.table.player? who = some p)
    (zones : Option (List String)) :
    (p.cards ++ g.table.board zones).Subperm g.variant.deck.cards := by
  have hdeck : g.table.inPlay.Perm g.variant.deck.cards := List.perm_iff_count.2 h.cards
  have hhand : p.cards.Sublist g.table.handCards := by
    rw [Table.handCards, List.flatMap_def]
    exact List.sublist_flatten_of_mem (List.mem_map_of_mem (Table.mem_players_of_player? hp).1)
  have hboard : (g.table.board zones).Sublist (g.table.board none) := by
    rw [Table.board_eq]
    exact List.filter_sublist.flatMap _
  have hsub : (p.cards ++ g.table.board zones).Sublist g.table.inPlay := by
    rw [Table.inPlay, List.append_assoc]
    exact (hhand.append hboard).trans (List.sublist_append_right ..)
  exact hsub.subperm.trans hdeck.subperm

/-! ### Showdowns -/

/-- **Who has been supplied holds a hand if the rule can judge so many cards** and bears some hand
of them. -/
theorem Supplied.hand (h : g.Supplied) (hwhole : g.Whole) (hwho : who ∈ g.table.turnOrder) :
    ∃ p, g.table.player? who = some p ∧ p.hand.length = g.variant.handSize g.stepsDone ∧
      ∀ rule : BestHandRule, rule.qualifier = none →
        ((rule.best? p.cards g.table).isSome = true ↔
          g.variant.Fits g.stepsDone rule ∧ rule.BearsSome p.cards (g.table.board rule.zones)) ∧
        (rule.DeckFits g.variant.deck →
          ((rule.best? p.cards g.table).isSome = true ↔ g.variant.Fits g.stepsDone rule)) := by
  obtain ⟨p, hp⟩ :=
    Option.isSome_iff_exists.1 (Table.isSome_player?.2 (Table.turnOrder_subset hwho))
  have hsize : p.hand.length = g.variant.handSize g.stepsDone :=
    (Table.held_of_player? hp).symm.trans (h.hands who hwho)
  have hcards : p.cards.length = g.variant.handSize g.stepsDone := by
    rw [Player.cards, List.length_map, hsize]
  have hfits : ∀ rule : BestHandRule,
      rule.SizeFits p.cards.length (g.table.board rule.zones).length ↔
        g.variant.Fits g.stepsDone rule := fun rule ↦ by rw [hcards, h.board, Variant.Fits]
  refine ⟨p, hp, hsize, fun rule hrule ↦ ⟨?_, fun hdeck ↦ ?_⟩⟩
  · rw [BestHandRule.isSome_best?_iff hrule, hfits]
  · rw [BestHandRule.isSome_best?_iff_of_deckFits hrule hdeck (hwhole.subperm_deck hp _), hfits]

/-- Without declarations an award names no rule for want of hands alone. -/
theorem ruleName_eq_none_iff (hundeclared : g.declarations = []) {pot : SettledPot}
    (hpot : pot ∈ g.settlement.pots) {a : Award} (ha : a ∈ pot.awards) :
    a.ruleName = none ↔ ∀ who ∈ g.table.turnOrder, who ∈ pot.eligible →
      ∀ rule ∈ g.variant.showdown.hands, ∀ p, g.table.player? who = some p →
        rule.best? p.cards g.table = none := by
  rw [settlement, hundeclared] at hpot
  exact ruleName_eq_none_iff_of_settle hpot ha

/-- **Which hands a showdown can rank, and when a pot is chopped for want of one.** Rules ask nobody
to give up or to pass cards, and a showdown is processed. If the cards of a full table can be
counted, everybody who is still in holds what has been dealt to each player. Under a rule without a
qualifier they hold a hand if and only if the cards dealt make a hand of a size that the rule can
judge, and its ranking bears some hand that they can choose; if no rank is in the deck too often,
the sizes alone matter.

The hand ends with the settlement of all pots, whose sums a machine word holds unless they exceed
`maxStack`. If nobody has declared, an award names no rule if and only if nobody who is still in and
can win its pot holds a hand under any rule; so no award does if some rule without a qualifier fits
the cards and the deck. -/
theorem hands_at_showdown (h : g.StepFrom Played) (hkeeps : g.variant.KeepsHands)
    (hstep : g.nextStep? = some step) (hkind : step.kind = .showdown) :
    (g.variant.CountsFit → ∀ who ∈ g.returnUncalled.table.turnOrder, ∃ p,
      g.returnUncalled.table.player? who = some p ∧
      p.hand.length = g.variant.handSize g.stepsDone ∧
      ∀ rule ∈ g.variant.showdown.hands, rule.qualifier = none →
        ((rule.best? p.cards g.returnUncalled.table).isSome = true ↔
          g.variant.Fits g.stepsDone rule ∧
            rule.BearsSome p.cards (g.returnUncalled.table.board rule.zones)) ∧
        (rule.DeckFits g.variant.deck →
          ((rule.best? p.cards g.returnUncalled.table).isSome = true ↔
            g.variant.Fits g.stepsDone rule))) ∧
    g.takeStep.state.outcome = some g.returnUncalled.settlement ∧
    (g.declarations = [] →
      (∀ pot ∈ g.returnUncalled.settlement.pots, ∀ a ∈ pot.awards,
        (a.ruleName = none ↔ ∀ who ∈ g.returnUncalled.table.turnOrder, who ∈ pot.eligible →
          ∀ rule ∈ g.variant.showdown.hands, ∀ p, g.returnUncalled.table.player? who = some p →
            rule.best? p.cards g.returnUncalled.table = none)) ∧
      (g.variant.CountsFit → ∀ rule ∈ g.variant.showdown.hands, rule.qualifier = none →
        g.variant.Fits g.stepsDone rule → rule.DeckFits g.variant.deck →
          ∀ a ∈ g.returnUncalled.settlement.awards, a.ruleName ≠ none)) := by
  obtain ⟨w, hpoised, -⟩ := h.poised
  have hclosed := hpoised.toAligned.returnUncalled
  have hcourse := course_returnUncalled g
  have hvariant := variant_of_course hcourse
  have hcount := stepsDone_of_course hcourse
  have hsupplied : g.variant.CountsFit → g.returnUncalled.Supplied := fun hcards ↦
    (h.supplied hcards hkeeps).stays
      ⟨(returnUncalled_hands hpoised.distinct).1, zones_returnUncalled g⟩ hcourse
  have hhands : g.variant.CountsFit → ∀ who ∈ g.returnUncalled.table.turnOrder, _ :=
    fun hcards who hwho ↦ (hsupplied hcards).hand hclosed.toWhole hwho
  rw [hvariant, hcount] at hhands
  have hpots : g.declarations = [] → ∀ pot ∈ g.returnUncalled.settlement.pots,
      ∀ a ∈ pot.awards, _ :=
    fun hundeclared pot hpot a ha ↦ ruleName_eq_none_iff (by simpa only [returnUncalled]) hpot ha
  rw [hvariant] at hpots
  have hpaid := (hpoised.toAligned.paidBy_returnUncalled
    (livePlayers_ne_nil_of_contested hpoised.contested)).2
  refine ⟨fun hcards who hwho ↦ ?_, hpoised.outcome_takeStep hstep hkind, fun hundeclared ↦
    ⟨hpots hundeclared, fun hcards rule hrule hqualifier hfits hdeck a ha hnone ↦ ?_⟩⟩
  · obtain ⟨p, hp, hsize, hhand⟩ := hhands hcards who hwho
    exact ⟨p, hp, hsize, fun rule _ ↦ hhand rule⟩
  · obtain ⟨pot, hpot, ha⟩ := List.mem_flatMap.1 ha
    -- whoever wins an award can win the pot, and holds a hand
    have hwho := hpaid.live pot hpot a ha
    obtain ⟨p, hp, -, hhand⟩ := hhands hcards a.player hwho.2
    have hsome := ((hhand rule hqualifier).2 hdeck).2 hfits
    rw [(hpots hundeclared pot hpot a ha).1 hnone a.player hwho.2 hwho.1 rule hrule p hp] at hsome
    exact absurd hsome Bool.noConfusion

/-- Aces and kings can be ranked: three players hold two cards each, and all of them hold a hand. So
every award of the 154 chips has a rule. -/
theorem acesAndKingsDue_hands :
    acesAndKingsDue.StepFrom Played ∧ acesAndKingsDue.variant.KeepsHands ∧
    acesAndKingsDue.variant.CountsFit ∧
    acesAndKingsDue.nextStep? = some { name := "Showdown", kind := .showdown } ∧
    acesAndKingsDue.declarations = [] ∧
    (∀ who ∈ [2, 3, 1], ∃ p, acesAndKingsDue.returnUncalled.table.player? who = some p ∧
      p.hand.length = 2 ∧ ∀ rule ∈ Variant.acesAndKings.showdown.hands,
        (rule.best? p.cards acesAndKingsDue.returnUncalled.table).isSome = true) ∧
    acesAndKingsDue.returnUncalled.settlement.paidOut = 154 ∧
    ∀ a ∈ acesAndKingsDue.returnUncalled.settlement.awards, a.ruleName ≠ none := by
  obtain ⟨haffords, hidle, hstep, hundeclared, hvariant, hdone, horder, hchips⟩ :
      acesAndKings.AffordsAll acesAndKingsRequests ∧ acesAndKingsDue.isIdle = true ∧
      acesAndKingsDue.nextStep? = some { name := "Showdown", kind := .showdown } ∧
      acesAndKingsDue.declarations = [] ∧ acesAndKingsDue.variant = .acesAndKings ∧
      acesAndKingsDue.stepsDone = 3 ∧
      acesAndKingsDue.returnUncalled.table.turnOrder = [2, 3, 1] ∧
      acesAndKingsDue.returnUncalled.betting.chipsInPots = 154 := by decide +kernel
  have hfrom : acesAndKingsDue.StepFrom Played :=
    .asked (acesAndKings_reachable.handleAll haffords).played hidle
  have hkeeps : acesAndKingsDue.variant.KeepsHands := by
    rw [hvariant, Variant.KeepsHands]
    decide
  have hrules : ∀ rule ∈ Variant.acesAndKings.showdown.hands, rule.qualifier = none ∧
      Variant.acesAndKings.Fits 3 rule ∧ rule.DeckFits Variant.acesAndKings.deck := by
    intro rule hrule
    obtain rfl := List.mem_singleton.1 hrule
    refine ⟨rfl, ⟨by decide, trivial, fun _ ↦ by decide⟩, fun ranking hranking rank _ _ ↦ ?_⟩
    obtain rfl := Option.some.inj hranking
    cases rank <;> decide
  have hcards : acesAndKingsDue.variant.CountsFit := by
    rw [hvariant]
    decide
  obtain ⟨hhands, -, hawards⟩ := hands_at_showdown hfrom hkeeps hstep rfl
  replace hhands := hhands hcards
  replace hawards := (hawards hundeclared).2 hcards
  rw [horder] at hhands
  rw [hvariant, hdone] at hhands hawards
  refine ⟨hfrom, hkeeps, hcards, hstep, hundeclared, fun who hwho ↦ ?_, ?_, fun a ha ↦ ?_⟩
  · obtain ⟨p, hp, hsize, hhand⟩ := hhands who hwho
    refine ⟨p, hp, hsize, fun rule hrule ↦ ?_⟩
    obtain ⟨hqualifier, hfits, hdeck⟩ := hrules rule hrule
    exact ((hhand rule hrule hqualifier).2 hdeck).2 hfits
  · obtain ⟨w, hpoised, -⟩ := hfrom.poised
    exact (hpoised.toAligned.paidBy_returnUncalled
      (livePlayers_ne_nil_of_contested hpoised.contested)).1.trans hchips
  · have hrule : Variant.acesAndKings.showdown.hands.head (by decide) ∈ _ := List.head_mem _
    obtain ⟨hqualifier, hfits, hdeck⟩ := hrules _ hrule
    exact hawards _ hrule hqualifier hfits hdeck a ha

end Game

/-! ### Six cards to a hand -/

/-- The best hand of six cards wins. -/
def BestHandRule.sixCards : BestHandRule where
  name := "High"
  policy := .high
  selection := .any 6
  zones := none
  qualifier := none
  wildRanks := []

/-- A game for two from a deck of aces and kings: two cards each, and four on the board. -/
def Variant.sixToAHand : Variant where
  name := "Six to a Hand"
  minPlayers := 2
  maxPlayers := 2
  deck := { ranks := [.ace, .king], suits := Suit.all, jokers := 0 }
  blindStyle := .antesOnly
  limits := [.noLimit]
  steps :=
    [{ name := "Antes", kind := .forcedBet .antes },
     { name := "Deal", kind := .deal ⟨.hands, none, [{ count := 2, facing := .down }]⟩ },
     { name := "Board", kind := .deal ⟨.board, some defaultZone, [{ count := 4, facing := .up }]⟩ },
     { name := "Showdown", kind := .showdown }]
  showdown := ⟨.clockwise, .button, [.sixCards]⟩
  zones := [defaultZone]

/-- The document of `sixToAHand`. -/
def Variant.sixToAHandDocument : Json :=
  let step (name kind : String) (data : Json) : Json := .obj [("name", .str name), (kind, data)]
  .obj
    [("game", .str "Six to a Hand"),
     ("players", .arr [.nat 2, .nat 2]),
     ("deck", .obj [("type", .str "custom"), ("ranks", .arr [.str "A", .str "K"])]),
     ("forcedBets", .arr [.str "antes_only"]),
     ("bettingStructures", .arr [.str "no-limit"]),
     ("gamePlay", .arr
       [step "Antes" "bet" (.arr [.str "antes"]),
        step "Deal" "deal" (.obj [("location", .str "player"),
          ("cards", .arr [.obj [("number", .nat 2)]])]),
        step "Board" "deal" (.obj [("location", .str "community"),
          ("cards", .arr [.obj [("number", .nat 4), ("state", .str "face up")]])]),
        step "Showdown" "showdown" .null]),
     ("showdown", .obj [("bestHand", .arr [.obj [("name", .str "High"),
       ("evaluationType", .str "high"), ("anyCards", .nat 6)]])])]

theorem Variant.sixToAHand_isLoaded : sixToAHand.IsLoaded :=
  ⟨sixToAHandDocument, rfl⟩

namespace Game

/-- A table for `Variant.sixToAHand` with an ante of ten. -/
def sixToAHand : Game where
  variant := .sixToAHand
  settings := { seats := 2, stakes := { ante := 10 } }
  seed := 0
  table := Table.ofDeck 2 Variant.sixToAHand.deck 0 [defaultZone]
  betting := { limits := .noLimit, stakes := { ante := 10 } }
  history := History.start "Six to a Hand" 0 0 none

/-- The game when its showdown is due: both players have anted and got their cards, and so has the
board. -/
def sixToAHandDue : Game :=
  sixToAHand.handleAll
    [.sitDown 1 "Ann" 100 0, .sitDown 2 "Bob" 100 1, .beginHand, .advance, .advance]

/-- **Rules that load need not rank the hands they deal**: both players hold six cards and no hand
under the only rule, which has no qualifier, and they split the pot without one. -/
theorem six_cards_have_no_hand :
    (¬∀ g : Game, g.StepFrom Played → g.variant.KeepsHands →
      ∀ step, g.nextStep? = some step → step.kind = .showdown →
        ∀ who ∈ g.returnUncalled.table.turnOrder, ∀ rule ∈ g.variant.showdown.hands,
          rule.qualifier = none → ∃ p, g.returnUncalled.table.player? who = some p ∧
            (rule.best? p.cards g.returnUncalled.table).isSome = true) ∧
    ¬∀ g : Game, g.StepFrom Played → g.variant.KeepsHands →
      ∀ step, g.nextStep? = some step → step.kind = .showdown →
        (∃ rule ∈ g.variant.showdown.hands, rule.qualifier = none) → g.declarations = [] →
          ∀ a ∈ g.returnUncalled.settlement.awards, a.ruleName ≠ none := by
  obtain ⟨hidle, hstep, hundeclared, hvariant, horder, hnone, hawards⟩ :
      sixToAHandDue.isIdle = true ∧
      sixToAHandDue.nextStep? = some { name := "Showdown", kind := .showdown } ∧
      sixToAHandDue.declarations = [] ∧ sixToAHandDue.variant = .sixToAHand ∧
      sixToAHandDue.returnUncalled.table.turnOrder = [2, 1] ∧
      ((sixToAHandDue.returnUncalled.table.player? 2).bind fun p ↦
        BestHandRule.sixCards.best? p.cards sixToAHandDue.returnUncalled.table).isSome = false ∧
      sixToAHandDue.returnUncalled.settlement.awards = [⟨2, 10, none⟩, ⟨1, 10, none⟩] := by
    decide +kernel
  have hopen : openTable .sixToAHand { seats := 2, stakes := { ante := 10 } } 0 =
      .ok sixToAHand := rfl
  have hfrom : sixToAHandDue.StepFrom Played :=
    .asked (Played.handleAll (.opened Variant.sixToAHand_isLoaded hopen) _) hidle
  have hkeeps : sixToAHandDue.variant.KeepsHands := by
    rw [hvariant, Variant.KeepsHands]
    decide
  have hrule : .sixCards ∈ sixToAHandDue.variant.showdown.hands := by
    rw [hvariant]
    exact List.mem_singleton_self _
  constructor
  · intro hlaw
    obtain ⟨p, hp, hsome⟩ := hlaw _ hfrom hkeeps _ hstep rfl 2 (horder ▸ List.mem_cons_self ..) _
      hrule rfl
    rw [hp, Option.bind_some, hsome] at hnone
    exact absurd hnone Bool.noConfusion
  · intro hlaw
    have hnamed := hlaw _ hfrom hkeeps _ hstep rfl ⟨_, hrule, rfl⟩ hundeclared
    rw [hawards] at hnamed
    exact hnamed _ (List.mem_cons_self ..) rfl

end Game

end DealersChoice
