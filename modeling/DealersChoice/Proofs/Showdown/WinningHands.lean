import DealersChoice.Proofs.Showdown.AwardLaw
import DealersChoice.Proofs.Showdown.Shown
import DealersChoice.Proofs.Variant.Loaded

/-!
# The hands listed as winning

An award bears the name of the rule that it was won under, and the hand that won it is looked up
again by that name. What is found is the hand under the *first* rule of the name (`listedHand?`),
while the pot was divided rule by rule, whatever their names (`PotContest.ruled`).

So the hands listed are those that won whenever no two rules have one name; and they are, no more
and no less, if and only if everybody who wins under a rule shows the same hand under the first rule
of its name (`winning_hands`). Rules that load may share a name, and then the hand that won can be
missing from the list, and another one stand in its place (`fewest_pips_not_listed`).
-/

namespace DealersChoice

/-! ### Elements added once -/

section AddNew

variable {α : Type} [BEq α] [LawfulBEq α] {l seen : List α} {a b : α}

theorem mem_addNew : b ∈ addNew l a ↔ b ∈ l ∨ b = a := by
  rw [addNew]
  split
  · rename_i hmem
    have ha : a ∈ l := by simpa using hmem
    exact ⟨Or.inl, fun h ↦ h.elim id fun heq ↦ heq ▸ ha⟩
  · rw [List.mem_append, List.mem_singleton]

theorem nodup_addNew (h : l.Nodup) (a : α) : (addNew l a).Nodup := by
  rw [addNew]
  split
  · exact h
  · rename_i hnew
    have ha : a ∉ l := by simpa using hnew
    exact List.nodup_append.2 ⟨h, List.nodup_singleton a, fun b hb c hc ↦
      List.mem_singleton.1 hc ▸ ne_of_mem_of_not_mem hb ha⟩

theorem mem_foldl_addNew : b ∈ l.foldl addNew seen ↔ b ∈ seen ∨ b ∈ l := by
  induction l generalizing seen with
  | nil => simp
  | cons a l ih => rw [List.foldl_cons, ih, mem_addNew, List.mem_cons, or_assoc]

theorem nodup_foldl_addNew (h : seen.Nodup) (l : List α) : (l.foldl addNew seen).Nodup := by
  induction l generalizing seen with
  | nil => exact h
  | cons a l ih => exact ih (nodup_addNew h a)

end AddNew

/-! ### The rule of an award -/

namespace PotContest

variable {c : PotContest} {amount rule : Nat} {a : Award}

/-- The awards that were won with a hand, each with the place of its rule. -/
def ruled (c : PotContest) (amount : Nat) : List (Nat × Award) :=
  (c.division c.eliminated amount).flatMap fun s ↦ (s.awards c).map (s.rule, ·)

/-- Whoever gets an award under a rule holds the best hand for it. -/
theorem of_mem_ruled (h : (rule, a) ∈ c.ruled amount) :
    c.HoldsBest c.eliminated rule a.player ∧ 0 < a.amount ∧
      ∃ r, c.rules[rule]? = some r ∧ a.ruleName = some r.name := by
  obtain ⟨s, hs, hmem⟩ := List.mem_flatMap.1 h
  obtain ⟨_, haward, heq⟩ := List.mem_map.1 hmem
  obtain ⟨rfl, rfl⟩ := Prod.mk.inj heq
  obtain ⟨w, hw, rfl⟩ := List.mem_map.1 haward
  obtain ⟨hw, hpos⟩ := List.mem_filter.1 hw
  have hrule : s.rule ∈ c.sides c.eliminated := by
    rw [← rules_division]
    exact List.mem_map_of_mem hs
  have hwinner : w.1 ∈ s.players := List.mem_map_of_mem hw
  rw [players_of_mem_division hs] at hwinner
  have hr := List.getElem?_eq_getElem (mem_sides.1 hrule).1
  exact ⟨mem_winners.1 hwinner, of_decide_eq_true hpos, _, hr, by simp only [hr, Option.map_some]⟩

/-- **The awards won with a hand are those that name a rule.** -/
theorem map_snd_ruled (c : PotContest) (amount : Nat) :
    (c.ruled amount).map (·.2) = (c.awards amount).filter (·.ruleName.isSome) := by
  have hawards : (c.ruled amount).map (·.2) =
      (c.division c.eliminated amount).flatMap (·.awards c) := by
    simp only [ruled, List.map_flatMap, List.map_map, Function.comp_def, List.map_id']
  by_cases hsides : c.sides c.eliminated = []
  · rw [hawards, awards_of_no_sides hsides, division, hsides, List.filter_map]
    simp [shareOut]
  · have heq : c.awards amount = (c.ruled amount).map (·.2) := by
      rw [hawards, awards_of_sides hsides, division, List.flatMap_map]
      rfl
    rw [heq, List.filter_eq_self.2 fun a ha ↦ ?_]
    obtain ⟨⟨rule, _⟩, hmem, rfl⟩ := List.mem_map.1 ha
    obtain ⟨-, -, r, -, hname⟩ := of_mem_ruled hmem
    rw [hname, Option.isSome_some]

end PotContest

/-! ### Hands that win -/

/-- The hand that is looked up for chips won under a rule: the one under the first rule of its
name. -/
def listedHand? (rules : ShowdownRules) (shown : List Showing) (rule : Nat) (who : PlayerId) :
    Option RevealedHand :=
  (rules.hands[rule]?.map (·.name)).bind fun name ↦
    (rules.hands.findIdx? (·.name == name)).bind fun i ↦ handUnder? shown i who

section Settle

variable (rules : ShowdownRules) (t : Table) (pots : List Pot) (order : List PlayerId)
  (first : Option PlayerId) (declarations : Declarations)

/-- A player is awarded chips of some pot under the rule at a place. -/
def WinsUnder (rule : Nat) (who : PlayerId) : Prop :=
  ∃ pot ∈ pots, ∃ a, (rule, a) ∈ (contest rules t order first declarations pot).ruled pot.amount ∧
    a.player = who

variable {rules t pots order first declarations} {rule : Nat} {who : PlayerId}

/-- Whoever wins under a rule shows a hand under it. -/
theorem WinsUnder.exists_hand (h : WinsUnder rules t pots order first declarations rule who) :
    ∃ hand, handUnder? (showings rules t order first) rule who = some hand := by
  obtain ⟨pot, -, a, ha, rfl⟩ := h
  obtain ⟨⟨-, hand, hhand, -⟩, -⟩ := PotContest.of_mem_ruled ha
  exact ⟨hand, hhand⟩

/-- **What is listed** are the hands that are looked up for those who win. -/
theorem mem_winning {hand : RevealedHand} :
    hand ∈ (settle rules t pots order first declarations).winning ↔
      ∃ rule who, WinsUnder rules t pots order first declarations rule who ∧
        listedHand? rules (showings rules t order first) rule who = some hand := by
  have hlisted : ∀ {pot : Pot} {rule : Nat} {a : Award},
      (rule, a) ∈ (contest rules t order first declarations pot).ruled pot.amount →
      winningHand? rules (showings rules t order first) a =
        listedHand? rules (showings rules t order first) rule a.player := by
    intro pot rule a ha
    obtain ⟨-, -, r, hr, hname⟩ := PotContest.of_mem_ruled ha
    have hr : rules.hands[rule]? = some r := hr
    rw [winningHand?, listedHand?, hname, hr]
    rfl
  simp only [settle, mem_foldl_addNew, List.not_mem_nil, false_or, List.mem_filterMap,
    List.mem_flatMap, List.mem_map, exists_exists_and_eq_and]
  constructor
  · rintro ⟨a, ⟨pot, hpot, ha⟩, hhand⟩
    have hnamed : a.ruleName.isSome = true := by
      cases hname : a.ruleName with
      | none => simp [winningHand?, hname] at hhand
      | some name => rfl
    have hmem : a ∈ ((contest rules t order first declarations pot).awards pot.amount).filter
        (·.ruleName.isSome) := List.mem_filter.2 ⟨ha, hnamed⟩
    rw [← PotContest.map_snd_ruled] at hmem
    obtain ⟨⟨rule, _⟩, hruled, rfl⟩ := List.mem_map.1 hmem
    exact ⟨rule, _, ⟨pot, hpot, _, hruled, rfl⟩, hlisted hruled ▸ hhand⟩
  · rintro ⟨rule, who, ⟨pot, hpot, a, ha, rfl⟩, hhand⟩
    have hmem : a ∈ ((contest rules t order first declarations pot).ruled pot.amount).map (·.2) :=
      List.mem_map_of_mem ha
    rw [PotContest.map_snd_ruled] at hmem
    exact ⟨a, ⟨pot, hpot, (List.mem_filter.1 hmem).1⟩, hlisted ha ▸ hhand⟩

/-- A hand that is looked up bears the player and the name of the rule. -/
theorem of_listedHand? {hand : RevealedHand}
    (h : listedHand? rules (showings rules t order first) rule who = some hand) :
    hand.player = who ∧ rules.hands[rule]?.map (·.name) = some hand.ruleName := by
  obtain ⟨name, hname, hfound⟩ := Option.bind_eq_some_iff.1 h
  obtain ⟨i, hi, hhand⟩ := Option.bind_eq_some_iff.1 hfound
  obtain ⟨hplayer, hnamed⟩ := of_bestShown? (handUnder?_showings_eq_some_iff.1 hhand).2
  obtain ⟨hlt, hsame, -⟩ := List.findIdx?_eq_some_iff_getElem.1 hi
  rw [List.getElem?_eq_getElem hlt, Option.map_some, eq_of_beq hsame] at hnamed
  exact ⟨hplayer, hname.trans hnamed⟩

/-- If no two rules have one name, the rule that is found is the one that won. -/
theorem listedHand?_of_nodup (hnames : (rules.hands.map (·.name)).Nodup) {shown : List Showing}
    (hrule : rule < rules.hands.length) :
    listedHand? rules shown rule who = handUnder? shown rule who := by
  have hr := List.getElem?_eq_getElem hrule
  rw [listedHand?, hr, Option.map_some, Option.bind_some, findIdx?_key_of_nodup hnames hr,
    Option.bind_some]

variable (rules t pots order first declarations) in
/-- The hands listed as winning are those under whose rule their player was awarded chips. -/
def ListsWinners : Prop :=
  ∀ hand, hand ∈ (settle rules t pots order first declarations).winning ↔
    ∃ rule who, WinsUnder rules t pots order first declarations rule who ∧
      handUnder? (showings rules t order first) rule who = some hand

/-- **The list is right exactly if every winner shows the same hand under the first rule of the
name.** -/
theorem listsWinners_iff : ListsWinners rules t pots order first declarations ↔
    ∀ rule who, WinsUnder rules t pots order first declarations rule who →
      listedHand? rules (showings rules t order first) rule who =
        handUnder? (showings rules t order first) rule who := by
  constructor
  · intro hlists rule who hwins
    obtain ⟨hand, hhand⟩ := hwins.exists_hand
    obtain ⟨rule', who', -, hlisted⟩ := mem_winning.1 ((hlists hand).2 ⟨rule, who, hwins, hhand⟩)
    -- the hand bears the player and the name, so it is also what is looked up for this rule
    obtain ⟨hplayer, hname⟩ := of_bestShown? (handUnder?_showings_eq_some_iff.1 hhand).2
    obtain ⟨hplayer', hname'⟩ := of_listedHand? hlisted
    rw [hhand, ← hlisted, ← hplayer, ← hplayer', listedHand?, listedHand?, hname, hname']
  · intro hsame hand
    rw [mem_winning]
    constructor <;> rintro ⟨rule, who, hwins, hhand⟩
    · exact ⟨rule, who, hwins, hsame rule who hwins ▸ hhand⟩
    · exact ⟨rule, who, hwins, (hsame rule who hwins).trans hhand⟩

theorem listsWinners_of_nodup (hnames : (rules.hands.map (·.name)).Nodup) :
    ListsWinners rules t pots order first declarations := by
  refine listsWinners_iff.2 fun rule who hwins ↦ listedHand?_of_nodup hnames ?_
  obtain ⟨pot, -, a, ha, -⟩ := hwins
  obtain ⟨-, -, r, hr, -⟩ := PotContest.of_mem_ruled ha
  exact (List.getElem?_eq_some_iff.1 hr).1

/-- **Which hands are listed as winning**: without repetition, for all who win chips under a rule,
their hands under the first rule of its name. They are the hands that won exactly if every winner
shows the same hand under both, and so always if no two rules have one name. -/
theorem winning_hands (rules : ShowdownRules) (t : Table) (pots : List Pot) (order : List PlayerId)
    (first : Option PlayerId) (declarations : Declarations) :
    (settle rules t pots order first declarations).winning.Nodup ∧
    (∀ hand, hand ∈ (settle rules t pots order first declarations).winning ↔
      ∃ rule who, WinsUnder rules t pots order first declarations rule who ∧
        listedHand? rules (showings rules t order first) rule who = some hand) ∧
    (ListsWinners rules t pots order first declarations ↔
      ∀ rule who, WinsUnder rules t pots order first declarations rule who →
        listedHand? rules (showings rules t order first) rule who =
          handUnder? (showings rules t order first) rule who) ∧
    ((rules.hands.map (·.name)).Nodup → ListsWinners rules t pots order first declarations) :=
  ⟨nodup_foldl_addNew List.nodup_nil _, fun _ ↦ mem_winning, listsWinners_iff,
    listsWinners_of_nodup⟩

end Settle

/-! ### Two rules of one name -/

/-- A game for two, two cards each, in which the most and the fewest pips share the pot. The two
rules have the given names. -/
def Variant.mostAndFewest (most fewest : String) : Variant where
  name := "Most and Fewest"
  minPlayers := 2
  maxPlayers := 2
  deck := .ofName .standard
  blindStyle := .antesOnly
  limits := [.noLimit]
  steps :=
    [{ name := "Antes", kind := .forcedBet .antes },
     { name := "Deal", kind := .deal ⟨.hands, none, [{ count := 2, facing := .down }]⟩ },
     { name := "Showdown", kind := .showdown }]
  showdown := ⟨.clockwise, .button,
    [⟨most, .fortyNine, .any 2, none, none, []⟩, ⟨fewest, .zero, .any 2, none, none, []⟩]⟩
  zones := []

/-- The document of `mostAndFewest`. -/
def Variant.mostAndFewestDocument (most fewest : String) : Json :=
  let step (name kind : String) (data : Json) : Json := .obj [("name", .str name), (kind, data)]
  let hand (name policy : String) : Json := .obj
    [("name", .str name), ("evaluationType", .str policy), ("anyCards", .nat 2)]
  .obj
    [("game", .str "Most and Fewest"),
     ("players", .arr [.nat 2, .nat 2]),
     ("deck", .obj [("type", .str "standard")]),
     ("forcedBets", .arr [.str "antes_only"]),
     ("bettingStructures", .arr [.str "no-limit"]),
     ("gamePlay", .arr
       [step "Antes" "bet" (.arr [.str "antes"]),
        step "Deal" "deal" (.obj [("location", .str "player"),
          ("cards", .arr [.obj [("number", .nat 2)]])]),
        step "Showdown" "showdown" .null]),
     ("showdown", .obj [("bestHand", .arr [hand most "49", hand fewest "zero"])])]

theorem Variant.mostAndFewest_isLoaded (most fewest : String) :
    (mostAndFewest most fewest).IsLoaded :=
  ⟨mostAndFewestDocument most fewest, rfl⟩

/-- One player holds nineteen pips, and the other five. -/
def nineteenAgainstFive : Table :=
  { Table.ofDeck 2 (.ofName .standard) 0 [] with
    seats :=
      [some { id := 1, name := "Ann", stack := 90, seat := 0, active := true, hand :=
          [⟨⟨.clubs, .ten⟩, .down⟩, ⟨⟨.hearts, .nine⟩, .down⟩] },
       some { id := 2, name := "Bob", stack := 90, seat := 1, active := true, hand :=
          [⟨⟨.clubs, .three⟩, .down⟩, ⟨⟨.spades, .two⟩, .down⟩] }] }

/-- Rules with names of their own list the hands that won. -/
theorem most_and_fewest_listed :
    ((Variant.mostAndFewest "Most" "Fewest").showdown.hands.map (·.name)).Nodup ∧
      ListsWinners (Variant.mostAndFewest "Most" "Fewest").showdown nineteenAgainstFive
        [⟨20, [1, 2]⟩] [1, 2] none [] :=
  have hnames : ((Variant.mostAndFewest "Most" "Fewest").showdown.hands.map (·.name)).Nodup := by
    decide
  ⟨hnames, (winning_hands _ _ _ _ _ _).2.2.2 hnames⟩

/-- **A hand that won need not be listed**: if both rules have one name, the fewest pips win half of
the pot, but what is listed is what the same cards are worth for the most pips. -/
theorem fewest_pips_not_listed :
    ¬∀ v : Variant, v.IsLoaded → ∀ t pots order first declarations,
      ListsWinners v.showdown t pots order first declarations := by
  intro hlists
  have hfewest : WinsUnder (Variant.mostAndFewest "Pips" "Pips").showdown nineteenAgainstFive
      [⟨20, [1, 2]⟩] [1, 2] none [] 1 2 :=
    ⟨_, List.mem_singleton_self _, ⟨2, 10, some "Pips"⟩, by decide +kernel, rfl⟩
  have hsame := listsWinners_iff.1 (hlists _ (Variant.mostAndFewest_isLoaded "Pips" "Pips")
    nineteenAgainstFive [⟨20, [1, 2]⟩] [1, 2] none []) 1 2 hfewest
  revert hsame
  decide +kernel

end DealersChoice
