import Mathlib.Data.List.Forall2
import DealersChoice.Variant.Load

/-!
# What loaded rules guarantee

Loading is a chain of checks, so whatever a check demands holds of the rules that come out. A check
is read off the chain by peeling the checks before it. So every step that asks for a decision can be
answered (`StepKind.Answerable`), play ends with a showdown, and the deck suffices for a full table.
The last check counts cards in a machine word, so it only says this of rules whose cards can be
counted in one (`Variant.CountsFit`).
-/

namespace DealersChoice

/-- A chain of checks that succeeds has a first check that does. -/
theorem Checked.exists_of_bind {α β : Type} {x : Checked α} {f : α → Checked β} {r : β}
    (h : x >>= f = .ok r) : ∃ a, x = .ok a ∧ f a = .ok r := by
  cases x with
  | error e => contradiction
  | ok a => exact ⟨a, rfl, h⟩

/-- A list is read part by part. -/
theorem Checked.forall₂_of_mapM {α β : Type} {f : α → Checked β} {l : List α} {r : List β}
    (h : l.mapM f = .ok r) : List.Forall₂ (fun a b ↦ f a = .ok b) l r := by
  induction l generalizing r with
  | nil =>
    obtain rfl := Except.ok.inj h
    exact .nil
  | cons a l ih =>
    rw [List.mapM_cons] at h
    obtain ⟨first, hfirst, h⟩ := Checked.exists_of_bind h
    obtain ⟨rest, hrest, h⟩ := Checked.exists_of_bind h
    obtain rfl := Except.ok.inj h
    exact .cons hfirst (ih hrest)

/-- Each part of a list that is read part by part comes from one part of the document. -/
theorem Checked.exists_of_mapM {α β : Type} {f : α → Checked β} {l : List α} {r : List β}
    (h : l.mapM f = .ok r) : ∀ b ∈ r, ∃ a ∈ l, f a = .ok b := by
  have hparts := Checked.forall₂_of_mapM h
  clear h
  induction hparts with
  | nil => exact fun b hb ↦ absurd hb List.not_mem_nil
  | @cons a _ _ _ hfirst _ ih =>
    intro b hb
    rcases List.mem_cons.1 hb with rfl | hb
    · exact ⟨a, List.mem_cons_self .., hfirst⟩
    · obtain ⟨a', ha', heq⟩ := ih b hb
      exact ⟨a', List.mem_cons_of_mem a ha', heq⟩

theorem eq_some_of_need {α : Type} {name : String} {o : Option α} {a : α}
    (h : need name o = .ok a) : o = some a := by
  cases o with
  | none => contradiction
  | some b => exact congrArg some (Except.ok.inj h)

theorem eq_some_of_needSome {α : Type} {name : String} {o : Option (List α)} {l : List α}
    (h : needSome name o = .ok l) : o = some l :=
  (Option.filter_eq_some_iff.1 (eq_some_of_need h)).1

/-! ### Steps -/

/-- Whether some decision meets what a step asks of a player. -/
def StepKind.Answerable : StepKind → Prop
  | .draw rule => rule.min ≤ rule.max
  | .discard count | .expose count => count.min ≤ count.max
  | .declare options => options ≠ []
  | _ => True

theorem countOf_le {step : String} {cards : List CardEntry} {count : CardRange} {facing : Facing}
    (h : countOf step cards = .ok (count, facing)) : count.min ≤ count.max := by
  have hchecked : ∀ range : CardRange, ∀ entry : CardEntry,
      (if range.max < range.min then throw (.badStep step (.minAboveMax range.min range.max))
        else do return (range, ← facingOf step entry.state) : Checked (CardRange × Facing)) =
        .ok (count, facing) → count.min ≤ count.max := by
    intro range entry h
    split at h
    · contradiction
    · rename_i hle
      obtain ⟨facing, -, h⟩ := Checked.exists_of_bind h
      obtain ⟨rfl, -⟩ := Prod.mk.inj (Except.ok.inj h)
      exact Nat.not_lt.1 hle
  unfold countOf at h
  split at h
  · dsimp only at h
    split at h
    · exact hchecked _ _ h
    · exact hchecked _ _ h
    · contradiction
  · contradiction

/-- **Whatever a step asks for, it can be given**, as far as the counts of the rules go. -/
theorem answerable_of_stepKind {step kind : String} {data : Json} {k : StepKind}
    (h : stepKind step kind data = .ok k) : k.Answerable := by
  have hcount : ∀ {document : ChoiceDocument} {f : CardRange × Facing → Checked StepKind},
      (countOf step document.cards >>= f) = .ok k →
      (∀ count facing, count.min ≤ count.max → f (count, facing) = .ok k → k.Answerable) →
      k.Answerable := by
    intro document f h hf
    obtain ⟨⟨count, facing⟩, hcount, h⟩ := Checked.exists_of_bind h
    exact hf count facing (countOf_le hcount) h
  unfold stepKind at h
  split at h
  -- a step that asks for nothing can be answered
  · obtain ⟨type, -, h⟩ := Checked.exists_of_bind h
    unfold betStep at h
    repeat' split at h
    all_goals first | contradiction | (obtain rfl := Except.ok.inj h; trivial)
  · obtain ⟨document, -, h⟩ := Checked.exists_of_bind h
    obtain ⟨deal, -, h⟩ := Checked.exists_of_bind h
    obtain rfl := Except.ok.inj h
    trivial
  · obtain ⟨document, -, h⟩ := Checked.exists_of_bind h
    refine hcount h fun count facing hle h ↦ ?_
    obtain rfl := Except.ok.inj h
    exact hle
  · obtain ⟨document, -, h⟩ := Checked.exists_of_bind h
    refine hcount h fun count facing hle h ↦ ?_
    obtain rfl := Except.ok.inj h
    exact hle
  · obtain ⟨document, -, h⟩ := Checked.exists_of_bind h
    refine hcount h fun count facing hle h ↦ ?_
    obtain rfl := Except.ok.inj h
    exact hle
  · obtain ⟨document, -, h⟩ := Checked.exists_of_bind h
    refine hcount h fun count facing _ h ↦ ?_
    dsimp only at h
    split at h
    · contradiction
    · obtain rfl := Except.ok.inj h
      trivial
  · obtain ⟨options, -, h⟩ := Checked.exists_of_bind h
    dsimp only at h
    split at h
    · contradiction
    · rename_i hoptions
      obtain rfl := Except.ok.inj h
      simpa [StepKind.Answerable] using hoptions
  · obtain rfl := Except.ok.inj h
    trivial
  · contradiction

theorem answerable_of_toStep {d : StepDocument} {step : Step} (h : d.toStep = .ok step) :
    step.kind.Answerable := by
  rw [StepDocument.toStep] at h
  split at h
  · obtain ⟨kind, hkind, h⟩ := Checked.exists_of_bind h
    obtain rfl := Except.ok.inj h
    exact answerable_of_stepKind hkind
  · contradiction

/-! ### Decks -/

/-- The ranks of a deck are read off the list of its document, if it has one, and jokers are none of
them. -/
theorem DeckDocument.ranks_of_toComposition {d : DeckDocument} {c : Composition}
    (h : d.toComposition = .ok c) : Rank.joker ∉ c.ranks ∧ ∀ texts, d.ranks = some texts →
      (texts.mapM fun text ↦ inNotation (Rank.ofText? text)) = .ok c.ranks := by
  rw [DeckDocument.toComposition] at h
  -- whichever of the two lists the document spells out, the same is checked of them
  cases hranks : d.ranks <;> cases hsuits : d.suits
  all_goals
    simp only [hranks, hsuits] at h
    obtain ⟨ranks, hread, h⟩ := Checked.exists_of_bind h
    obtain ⟨suits, -, h⟩ := Checked.exists_of_bind h
    split at h
    · contradiction
    · rename_i hnone
      have heq : ranks = c.ranks := by
        split at h
        · split at h
          · contradiction
          · rw [← Except.ok.inj h]
        · rw [← Except.ok.inj h]
      subst heq
      refine ⟨by simpa using hnone, fun texts htexts ↦ ?_⟩
      first | contradiction | exact Option.some.inj htexts ▸ hread

/-- Jokers are counted, not listed as a rank. -/
theorem joker_notMem_of_toComposition {d : DeckDocument} {c : Composition}
    (h : d.toComposition = .ok c) : Rank.joker ∉ c.ranks :=
  (DeckDocument.ranks_of_toComposition h).1

/-! ### Rules -/

/-- The parts of rules are read off the parts of their document, and have no fault together. -/
theorem VariantDocument.parts_of_toVariant {d : VariantDocument} {v : Variant}
    (h : d.toVariant = .ok v) : 2 ≤ v.minPlayers ∧ v.fault? = none ∧
      (∃ deck, d.deck = some deck ∧ deck.toComposition = .ok v.deck) ∧
      (∃ steps, d.gamePlay = some steps ∧ steps.mapM StepDocument.toStep = .ok v.steps) ∧
      ∃ showdown hands, d.showdown = some showdown ∧ showdown.bestHand = some hands ∧
        hands.mapM BestHandDocument.toRule = .ok v.showdown.hands := by
  rw [toVariant] at h
  obtain ⟨name, -, h⟩ := Checked.exists_of_bind h
  obtain ⟨players, -, h⟩ := Checked.exists_of_bind h
  split at h
  · contradiction
  · rename_i hrange
    obtain ⟨deck, hdeck, h⟩ := Checked.exists_of_bind h
    obtain ⟨composition, hcomposition, h⟩ := Checked.exists_of_bind h
    obtain ⟨style, -, h⟩ := Checked.exists_of_bind h
    obtain ⟨limits, -, h⟩ := Checked.exists_of_bind h
    obtain ⟨documents, hdocuments, h⟩ := Checked.exists_of_bind h
    obtain ⟨steps, hsteps, h⟩ := Checked.exists_of_bind h
    obtain ⟨showdown, hshowdown, h⟩ := Checked.exists_of_bind h
    obtain ⟨rules, hrules, h⟩ := Checked.exists_of_bind h
    obtain ⟨hands, hhands, hrules⟩ := Checked.exists_of_bind hrules
    obtain ⟨read, hread, hrules⟩ := Checked.exists_of_bind hrules
    obtain rfl := Except.ok.inj hrules
    simp only at h
    split at h
    · contradiction
    · rename_i hfault
      obtain rfl := Except.ok.inj h
      exact ⟨Nat.not_lt.1 fun hlt ↦ hrange (Or.inl hlt), hfault,
        ⟨deck, eq_some_of_need hdeck, hcomposition⟩,
        ⟨documents, eq_some_of_needSome hdocuments, hsteps⟩,
        showdown, hands, eq_some_of_need hshowdown, eq_some_of_needSome hhands, hread⟩

/-- Rules that some document loads to. -/
def Variant.IsLoaded (v : Variant) : Prop :=
  ∃ document : Json, Variant.ofJson document = .ok v

namespace Variant

variable {v : Variant}

theorem IsLoaded.of_text {text : String} (h : Variant.ofText text = .ok v) : v.IsLoaded := by
  rw [Variant.ofText] at h
  split at h
  · rename_i document _
    exact ⟨document, h⟩
  · contradiction

/-- **Loaded rules have a range of players and no fault**, steps that can be answered, and no jokers
but those that the deck counts. -/
theorem IsLoaded.spec (h : v.IsLoaded) : 2 ≤ v.minPlayers ∧ v.fault? = none ∧
    (∀ step ∈ v.steps, step.kind.Answerable) ∧ Rank.joker ∉ v.deck.ranks := by
  obtain ⟨document, h⟩ := h
  rw [ofJson] at h
  split at h
  · obtain ⟨hmin, hfault, ⟨deck, -, hdeck⟩, ⟨steps, -, hsteps⟩, -⟩ :=
      VariantDocument.parts_of_toVariant h
    refine ⟨hmin, hfault, fun step hstep ↦ ?_, joker_notMem_of_toComposition hdeck⟩
    obtain ⟨document, -, hread⟩ := Checked.exists_of_mapM hsteps step hstep
    exact answerable_of_toStep hread
  · contradiction

/-- **The deck passes the check of every best hand.** -/
theorem IsLoaded.missing?_eq_none (h : v.IsLoaded) {rule : BestHandRule}
    (hrule : rule ∈ v.showdown.hands) : v.deck.missing? rule = none := by
  have hfault := h.spec.2.1
  rw [fault?] at hfault
  split at hfault
  · contradiction
  · simp only [Option.or_eq_none_iff] at hfault
    have hsupported := List.findSome?_eq_none_iff.1 hfault.2.1 rule hrule
    rw [unsupported?] at hsupported
    split at hsupported
    · contradiction
    · assumption

/-- The cards that a full table needs can be counted in a machine word. -/
def CountsFit (v : Variant) : Prop :=
  v.cardsNeeded < UInt64.size

instance : Decidable v.CountsFit :=
  inferInstanceAs (Decidable (_ < _))

theorem CountsFit.toNat_cardsCounted (h : v.CountsFit) :
    v.cardsCounted.toNat = v.cardsNeeded := by
  have hcounted : v.cardsCounted.toNat = v.cardsNeeded % UInt64.size := by
    simp only [cardsCounted, cardsNeeded, UInt64.toNat_add, UInt64.toNat_mul, UInt64.toNat_ofNat']
    rw [← Nat.mul_mod, ← Nat.add_mod]
  rw [hcounted, Nat.mod_eq_of_lt h]

/-- **A full table can be dealt out.** -/
theorem IsLoaded.cardsNeeded_le (h : v.IsLoaded) (hfits : v.CountsFit) :
    v.cardsNeeded ≤ v.deck.size := by
  have hfault := h.spec.2.1
  rw [fault?] at hfault
  split at hfault
  · contradiction
  · simp only [Option.or_eq_none_iff] at hfault
    obtain ⟨-, -, hdeck⟩ := hfault
    split at hdeck
    · contradiction
    · split at hdeck
      · contradiction
      · rename_i hle
        exact hfits.toNat_cardsCounted ▸ Nat.not_lt.1 hle

/-- **Play ends with a showdown**: there is a first step, and any other step has one after it. -/
theorem IsLoaded.step_after (h : v.IsLoaded) : 0 < v.steps.length ∧
    ∀ {i : Nat} {step : Step}, v.step? i = some step → step.kind ≠ .showdown →
      i + 1 < v.steps.length := by
  have hlast : v.steps.getLast?.map (·.kind) = some .showdown := by
    have hfault := h.spec.2.1
    rw [fault?] at hfault
    split at hfault
    · contradiction
    · rename_i hlast
      exact Decidable.not_not.1 hlast
  obtain ⟨last, hlast, hkind⟩ := Option.map_eq_some_iff.1 hlast
  rw [List.getLast?_eq_getElem?] at hlast
  obtain ⟨hlt, -⟩ := List.getElem?_eq_some_iff.1 hlast
  refine ⟨by omega, fun {i step} hstep hother ↦ ?_⟩
  obtain ⟨hi, -⟩ := List.getElem?_eq_some_iff.1 hstep
  have hne : i ≠ v.steps.length - 1 := by
    rintro rfl
    obtain rfl := Option.some.inj (hlast.symm.trans hstep)
    exact hother hkind
  omega

/-! ### Small variants -/

/-- A game for two with a deck of four aces: two cards each, of which one may be given up. -/
def fourAces : Variant where
  name := "Four Aces"
  minPlayers := 2
  maxPlayers := 2
  deck := { ranks := [.ace], suits := Suit.all, jokers := 0 }
  blindStyle := .antesOnly
  limits := [.noLimit]
  steps :=
    [{ name := "Antes", kind := .forcedBet .antes },
     { name := "Deal", kind := .deal ⟨.hands, none, [{ count := 2, facing := .down }]⟩ },
     { name := "Discard", kind := .discard { min := 0, max := 1 } },
     { name := "Showdown", kind := .showdown }]
  showdown := ⟨.clockwise, .button, [⟨"High", .high, .any 5, none, none, []⟩]⟩
  zones := []

/-- The document of a game with a deck of four aces, up to how many players it admits and what is
done with two of the aces. -/
def fourAcesDocument (most : Nat) (decision : Json) : Json :=
  let step (name kind : String) (data : Json) : Json := .obj [("name", .str name), (kind, data)]
  .obj
    [("game", .str "Four Aces"),
     ("players", .arr [.nat 2, .nat most]),
     ("deck", .obj [("type", .str "custom"), ("ranks", .arr [.str "A"])]),
     ("forcedBets", .arr [.str "antes_only"]),
     ("bettingStructures", .arr [.str "no-limit"]),
     ("gamePlay", .arr
       [step "Antes" "bet" (.arr [.str "antes"]),
        step "Deal" "deal" (.obj [("location", .str "player"),
          ("cards", .arr [.obj [("number", .nat 2)]])]),
        decision,
        step "Showdown" "showdown" .null]),
     ("showdown", .obj [("bestHand", .arr [.obj [("name", .str "High"),
       ("evaluationType", .str "high"), ("anyCards", .nat 5)]])])]

theorem fourAces_isLoaded : fourAces.IsLoaded :=
  ⟨fourAcesDocument 2 (.obj [("name", .str "Discard"),
    ("discard", .obj [("cards", .arr [.obj [("max", .nat 1)]])])]), rfl⟩

/-- The same game with a draw in place of the discard: at least one card has to be exchanged, and
none is left. -/
def fourAcesDraw : Variant :=
  { fourAces with
    steps :=
      [{ name := "Antes", kind := .forcedBet .antes },
       { name := "Deal", kind := .deal ⟨.hands, none, [{ count := 2, facing := .down }]⟩ },
       { name := "Draw", kind := .draw { min := 1, max := 2, facing := .down } },
       { name := "Showdown", kind := .showdown }] }

theorem fourAcesDraw_isLoaded : fourAcesDraw.IsLoaded :=
  ⟨fourAcesDocument 2 (.obj [("name", .str "Draw"),
    ("draw", .obj [("cards", .arr [.obj [("min", .nat 1), ("max", .nat 2)]])])]), rfl⟩

/-- The same game with a pass in place of the discard: everybody gives one card to the left. -/
def fourAcesPass : Variant :=
  { fourAces with
    steps :=
      [{ name := "Antes", kind := .forcedBet .antes },
       { name := "Deal", kind := .deal ⟨.hands, none, [{ count := 2, facing := .down }]⟩ },
       { name := "Pass", kind := .pass { count := 1, side := .left } },
       { name := "Showdown", kind := .showdown }] }

theorem fourAcesPass_isLoaded : fourAcesPass.IsLoaded :=
  ⟨fourAcesDocument 2 (.obj [("name", .str "Pass"),
    ("pass", .obj [("cards", .arr [.obj [("number", .nat 1)]])])]), rfl⟩

/-- A game for two or three with blinds and a deck of aces and kings: two cards each, and one round
of bets. -/
def acesAndKings : Variant where
  name := "Aces and Kings"
  minPlayers := 2
  maxPlayers := 3
  deck := { ranks := [.ace, .king], suits := Suit.all, jokers := 0 }
  blindStyle := .blinds
  limits := [.noLimit]
  steps :=
    [{ name := "Blinds", kind := .forcedBet .blinds },
     { name := "Deal", kind := .deal ⟨.hands, none, [{ count := 2, facing := .down }]⟩ },
     { name := "Bets", kind := .bet .small },
     { name := "Showdown", kind := .showdown }]
  showdown := ⟨.clockwise, .button, [⟨"High", .high, .any 5, none, none, []⟩]⟩
  zones := []

/-- The document of `acesAndKings`. -/
def acesAndKingsDocument : Json :=
  let step (name kind : String) (data : Json) : Json := .obj [("name", .str name), (kind, data)]
  .obj
    [("game", .str "Aces and Kings"),
     ("players", .arr [.nat 2, .nat 3]),
     ("deck", .obj [("type", .str "custom"), ("ranks", .arr [.str "A", .str "K"])]),
     ("forcedBets", .arr [.str "blinds"]),
     ("bettingStructures", .arr [.str "no-limit"]),
     ("gamePlay", .arr
       [step "Blinds" "bet" (.arr [.str "blinds"]),
        step "Deal" "deal" (.obj [("location", .str "player"),
          ("cards", .arr [.obj [("number", .nat 2)]])]),
        step "Bets" "bet" (.arr [.str "small"]),
        step "Showdown" "showdown" .null]),
     ("showdown", .obj [("bestHand", .arr [.obj [("name", .str "High"),
       ("evaluationType", .str "high"), ("anyCards", .nat 5)]])])]

theorem acesAndKings_isLoaded : acesAndKings.IsLoaded :=
  ⟨acesAndKingsDocument, rfl⟩

/-- A game for two that asks nobody for anything: one card each from a deck of aces and kings, and
an ace wins. -/
def aceOrKing : Variant where
  name := "Ace or King"
  minPlayers := 2
  maxPlayers := 2
  deck := { ranks := [.ace, .king], suits := Suit.all, jokers := 0 }
  blindStyle := .antesOnly
  limits := [.noLimit]
  steps :=
    [{ name := "Antes", kind := .forcedBet .antes },
     { name := "Deal", kind := .deal ⟨.hands, none, [{ count := 1, facing := .down }]⟩ },
     { name := "Showdown", kind := .showdown }]
  showdown := ⟨.clockwise, .button, [⟨"Pips", .fortyNine, .any 1, none, none, []⟩]⟩
  zones := []

/-- The document of `aceOrKing`. -/
def aceOrKingDocument : Json :=
  let step (name kind : String) (data : Json) : Json := .obj [("name", .str name), (kind, data)]
  .obj
    [("game", .str "Ace or King"),
     ("players", .arr [.nat 2, .nat 2]),
     ("deck", .obj [("type", .str "custom"), ("ranks", .arr [.str "A", .str "K"])]),
     ("forcedBets", .arr [.str "antes_only"]),
     ("bettingStructures", .arr [.str "no-limit"]),
     ("gamePlay", .arr
       [step "Antes" "bet" (.arr [.str "antes"]),
        step "Deal" "deal" (.obj [("location", .str "player"),
          ("cards", .arr [.obj [("number", .nat 1)]])]),
        step "Showdown" "showdown" .null]),
     ("showdown", .obj [("bestHand", .arr [.obj [("name", .str "Pips"),
       ("evaluationType", .str "49"), ("anyCards", .nat 1)]])])]

theorem aceOrKing_isLoaded : aceOrKing.IsLoaded :=
  ⟨aceOrKingDocument, rfl⟩

/-- A game for two from a deck of aces and kings: one card each, and one on the board, which lies as
`facing` says. -/
def oneOnBoard (facing : Facing) : Variant where
  name := "One on Board"
  minPlayers := 2
  maxPlayers := 2
  deck := { ranks := [.ace, .king], suits := Suit.all, jokers := 0 }
  blindStyle := .antesOnly
  limits := [.noLimit]
  steps :=
    [{ name := "Antes", kind := .forcedBet .antes },
     { name := "Deal", kind := .deal ⟨.hands, none, [{ count := 1, facing := .down }]⟩ },
     { name := "Board", kind := .deal ⟨.board, some defaultZone, [{ count := 1, facing }]⟩ },
     { name := "Showdown", kind := .showdown }]
  showdown := ⟨.clockwise, .button, [⟨"Pips", .fortyNine, .any 2, none, none, []⟩]⟩
  zones := [defaultZone]

/-- The document of `oneOnBoard`, up to how the board is dealt. -/
def oneOnBoardDocument (batch : Json) : Json :=
  let step (name kind : String) (data : Json) : Json := .obj [("name", .str name), (kind, data)]
  .obj
    [("game", .str "One on Board"),
     ("players", .arr [.nat 2, .nat 2]),
     ("deck", .obj [("type", .str "custom"), ("ranks", .arr [.str "A", .str "K"])]),
     ("forcedBets", .arr [.str "antes_only"]),
     ("bettingStructures", .arr [.str "no-limit"]),
     ("gamePlay", .arr
       [step "Antes" "bet" (.arr [.str "antes"]),
        step "Deal" "deal" (.obj [("location", .str "player"),
          ("cards", .arr [.obj [("number", .nat 1)]])]),
        step "Board" "deal" (.obj [("location", .str "community"), ("cards", .arr [batch])]),
        step "Showdown" "showdown" .null]),
     ("showdown", .obj [("bestHand", .arr [.obj [("name", .str "Pips"),
       ("evaluationType", .str "49"), ("anyCards", .nat 2)]])])]

/-- Unless a deal says so, its cards lie face down. -/
theorem oneOnBoard_isLoaded (facing : Facing) : (oneOnBoard facing).IsLoaded := by
  cases facing with
  | up => exact ⟨oneOnBoardDocument (.obj [("number", .nat 1), ("state", .str "face up")]), rfl⟩
  | down => exact ⟨oneOnBoardDocument (.obj [("number", .nat 1)]), rfl⟩

end Variant

end DealersChoice
