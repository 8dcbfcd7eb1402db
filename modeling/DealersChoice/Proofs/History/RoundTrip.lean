import DealersChoice.History.Json
import DealersChoice.Proofs.Json.Decoding

/-!
# Histories read back

The line of a history holds one line feed, at its end, and reads back as the same history
(`History.ofLine?_toLine`). A history's numbers have the widths of its fields (`History.Fits`): one
byte for a kicker and for the size of a badugi, four for chips, points and places, and eight for
players, seats, positions and the seed. Its texts may hold any characters.
-/

namespace DealersChoice

open Json (Decodes)

/-- The largest number of four bytes. -/
def maxFourBytes : Nat := 0xFFFFFFFF

/-! ### Widths -/

def Category.Fits : Category → Prop
  | badugi cards => cards ≤ 0xFF
  | points total => total ≤ maxFourBytes
  | _ => True

structure Worth.Fits (w : Worth) : Prop where
  place : w.place ≤ maxFourBytes
  category : w.category.Fits
  kickers : ∀ k ∈ w.kickers.toList, k ≤ 0xFF

structure RevealedHand.Fits (h : RevealedHand) : Prop where
  player : h.player ≤ Json.maxNat
  worth : h.worth.Fits

structure Award.Fits (a : Award) : Prop where
  player : a.player ≤ Json.maxNat
  amount : a.amount ≤ maxFourBytes

structure SettledPot.Fits (p : SettledPot) : Prop where
  amount : p.amount ≤ maxFourBytes
  eligible : ∀ id ∈ p.eligible, id ≤ Json.maxNat
  awards : ∀ a ∈ p.awards, a.Fits

structure Outcome.Fits (o : Outcome) : Prop where
  pots : ∀ p ∈ o.pots, p.Fits
  revealed : ∀ h ∈ o.revealed, h.Fits
  winning : ∀ h ∈ o.winning, h.Fits
  winners : ∀ id ∈ o.winners, id ≤ Json.maxNat

def Action.Fits : Action → Prop
  | bet chips | raise chips => chips ≤ maxFourBytes
  | draw cards | discard cards | expose cards | pass cards => ∀ i ∈ cards, i ≤ Json.maxNat
  | fold | check | call | allIn | declare _ => True

structure HistoryEntry.Fits (e : HistoryEntry) : Prop where
  player : e.player ≤ Json.maxNat
  action : e.action.Fits
  paid : e.paid ≤ maxFourBytes

/-- The numbers of a history fit its fields. -/
structure History.Fits (h : History) : Prop where
  seed : h.seed ≤ Json.maxNat
  button : ∀ seat ∈ h.button, seat ≤ Json.maxNat
  entries : ∀ e ∈ h.entries, e.Fits
  outcome : ∀ o ∈ h.outcome, o.Fits

/-! ### Cards and zones -/

theorem Suit.decodes (s : Suit) : Decodes ofJson? s.toJson s :=
  .oneOf (by decide) (by cases s <;> decide)

theorem Rank.decodes (r : Rank) : Decodes ofJson? r.toJson r :=
  .oneOf (by decide) (by cases r <;> decide)

theorem Facing.decodes (f : Facing) : Decodes ofJson? f.toJson f :=
  .oneOf (by decide) (by cases f <;> decide)

theorem Card.decodes (c : Card) : Decodes ofJson? c.toJson c := by
  have hsuit := c.suit.decodes
  have hrank := c.rank.decodes
  refine .record (fun _ ↦ rfl) rfl (by decide) ?_ ?_
  · simp [hsuit.exact, hrank.exact]
  · simp [hsuit.required, hrank.required]

theorem LaidCard.decodes (d : LaidCard) : Decodes ofJson? d.toJson d := by
  have hcard := d.card.decodes
  have hfacing := d.facing.decodes
  refine .record (fun _ ↦ rfl) rfl (by decide) ?_ ?_
  · simp [hcard.exact, hfacing.exact]
  · simp [hcard.required, hfacing.required]

theorem Zone.decodes (z : Zone) : Decodes ofJson? z.toJson z := by
  have hname := Decodes.str z.name
  have hcards := Decodes.list fun d (_ : d ∈ z.cards) ↦ d.decodes
  refine .record (fun _ ↦ rfl) rfl (by decide) ?_ ?_
  · simp [hname.exact, hcards.exact]
  · simp [hname.required, hcards.required]

/-! ### Decisions -/

theorem Declaration.decodes (d : Declaration) : Decodes ofJson? d.toJson d :=
  .oneOf (by decide) (by cases d <;> decide)

/-- A choice with data is an object of one member. -/
theorem Json.exact_choice {name : String} {v : Json} (h : Json.Exact v) :
    Json.Exact (.obj [(name, v)]) :=
  .obj _ fun _ hm ↦ List.mem_singleton.1 hm ▸ h

theorem Action.decodes {a : Action} (h : a.Fits) : Decodes ofJson? a.toJson a := by
  have hpositions : ∀ {cards : List Nat}, (∀ i ∈ cards, i ≤ Json.maxNat) →
      Decodes positions? (.ofList .nat cards) cards := fun h ↦ .list fun i hi ↦ .count (h i hi)
  cases a with
  | fold | check | call | allIn => exact ⟨.str _, rfl⟩
  | bet chips | raise chips =>
    have hchips := Decodes.chips h
    exact ⟨Json.exact_choice hchips.exact, by simp [ofJson?, toJson, Json.choice?, hchips.decode_eq]⟩
  | draw cards | discard cards | expose cards | pass cards =>
    have hcards := hpositions h
    exact ⟨Json.exact_choice hcards.exact, by simp [ofJson?, toJson, Json.choice?, hcards.decode_eq]⟩
  | declare d =>
    have hd := d.decodes
    exact ⟨Json.exact_choice hd.exact, by simp [ofJson?, toJson, Json.choice?, hd.decode_eq]⟩

theorem HistoryEntry.decodes {e : HistoryEntry} (h : e.Fits) : Decodes ofJson? e.toJson e := by
  have hplayer := Decodes.count h.player
  have hstep := Decodes.str e.step
  have haction := Action.decodes h.action
  have hpaid := Decodes.chips h.paid
  refine .record (fun _ ↦ rfl) rfl (by decide) ?_ ?_
  · simp [hplayer.exact, hstep.exact, haction.exact, hpaid.exact]
  · simp [hplayer.required, hstep.required, haction.required, hpaid.required]

/-! ### Outcomes -/

theorem Category.decodes {c : Category} (h : c.Fits) : Decodes ofJson? c.toJson c := by
  cases c with
  | badugi cards =>
    have hcards := Decodes.byte h
    exact ⟨Json.exact_choice hcards.exact, by simp [ofJson?, toJson, Json.choice?, hcards.decode_eq]⟩
  | points total =>
    have htotal := Decodes.chips h
    exact ⟨Json.exact_choice htotal.exact, by simp [ofJson?, toJson, Json.choice?, htotal.decode_eq]⟩
  | highCard | onePair | twoPair | threeOfAKind | straight | flush | fullHouse | fourOfAKind
  | straightFlush | fiveOfAKind => exact ⟨.str _, rfl⟩

/-- Five numbers of one byte are read as five numbers. -/
theorem Worth.kickers?_ofList {kickers : Vector Nat 5} (h : ∀ k ∈ kickers.toList, k ≤ 0xFF) :
    Decodes kickers? (.ofList .nat kickers.toList) kickers := by
  have hlist := Decodes.list fun k hk ↦ Decodes.byte (h k hk)
  refine ⟨hlist.exact, ?_⟩
  have harray : kickers.toList.toArray = kickers.toArray := kickers.toArray.toArray_toList
  rw [kickers?, hlist.decode_eq]
  simp [harray]

theorem Worth.decodes {w : Worth} (h : w.Fits) : Decodes ofJson? w.toJson w := by
  have hplace := Decodes.chips h.place
  have hcategory := Category.decodes h.category
  have hkickers := Worth.kickers?_ofList h.kickers
  refine .record (fun _ ↦ rfl) rfl (by decide) ?_ ?_
  · simp [hplace.exact, hcategory.exact, hkickers.exact]
  · simp [hplace.required, hcategory.required, hkickers.required]

theorem RevealedHand.decodes {r : RevealedHand} (h : r.Fits) : Decodes ofJson? r.toJson r := by
  have hplayer := Decodes.count h.player
  have hname := Decodes.str r.ruleName
  have hworth := Worth.decodes h.worth
  have hcards := Decodes.list fun c (_ : c ∈ r.cards) ↦ c.decodes
  refine .record (fun _ ↦ rfl) rfl (by decide) ?_ ?_
  · simp [hplayer.exact, hname.exact, hworth.exact, hcards.exact]
  · simp [hplayer.required, hname.required, hworth.required, hcards.required]

theorem Award.decodes {a : Award} (h : a.Fits) : Decodes ofJson? a.toJson a := by
  have hplayer := Decodes.count h.player
  have hamount := Decodes.chips h.amount
  obtain ⟨hexact, hname⟩ := Decodes.orNone (o := a.ruleName) (by simp) fun s _ ↦ Decodes.str s
  refine .record (fun _ ↦ rfl) rfl (by decide) ?_ ?_
  · simp [hplayer.exact, hamount.exact, hexact]
  · simp [hplayer.required, hamount.required, hname]

theorem SettledPot.decodes {p : SettledPot} (h : p.Fits) : Decodes ofJson? p.toJson p := by
  have hamount := Decodes.chips h.amount
  have heligible := Decodes.list fun id hid ↦ Decodes.count (h.eligible id hid)
  have hawards := Decodes.list fun a ha ↦ Award.decodes (h.awards a ha)
  refine .record (fun _ ↦ rfl) rfl (by decide) ?_ ?_
  · simp [hamount.exact, heligible.exact, hawards.exact]
  · simp [hamount.required, heligible.required, hawards.required]

theorem Outcome.decodes {o : Outcome} (h : o.Fits) : Decodes ofJson? o.toJson o := by
  have hpots := Decodes.list fun p hp ↦ SettledPot.decodes (h.pots p hp)
  have hrevealed := Decodes.list fun r hr ↦ RevealedHand.decodes (h.revealed r hr)
  have hwinning := Decodes.list fun r hr ↦ RevealedHand.decodes (h.winning r hr)
  have hwinners := Decodes.list fun id hid ↦ Decodes.count (h.winners id hid)
  have hconceded := Decodes.bool o.conceded
  refine .record (fun _ ↦ rfl) rfl (by decide) ?_ ?_
  · simp [hpots.exact, hrevealed.exact, hwinning.exact, hwinners.exact, hconceded.exact]
  · simp [hpots.required, hrevealed.required, hwinning.required, hwinners.required,
      hconceded.required]

/-! ### Histories -/

namespace History

theorem decodes {h : History} (hfits : h.Fits) : Decodes ofJson? h.toJson h := by
  have hid := Decodes.str h.id
  have hvariant := Decodes.str h.variant
  have hseed := Decodes.count hfits.seed
  obtain ⟨hbutton, hseat⟩ := Decodes.orNone (by simp) fun seat hseat ↦
    Decodes.count (hfits.button seat hseat)
  have hsteps := Decodes.list fun s (_ : s ∈ h.steps) ↦ Decodes.str s
  have hentries := Decodes.list fun e he ↦ HistoryEntry.decodes (hfits.entries e he)
  have hboard := Decodes.list fun z (_ : z ∈ h.board) ↦ z.decodes
  obtain ⟨houtcome, hresult⟩ := Decodes.orNone (by simp [Outcome.toJson]) fun o ho ↦
    Outcome.decodes (hfits.outcome o ho)
  obtain ⟨hstamp, hts⟩ := Decodes.orNone (o := h.stamp) (by simp) fun s _ ↦ Decodes.str s
  refine .record (fun _ ↦ rfl) rfl (by decide) ?_ ?_
  · simp [hid.exact, hvariant.exact, hseed.exact, hbutton, hsteps.exact, hentries.exact,
      hboard.exact, houtcome, hstamp]
  · simp [hid.required, hvariant.required, hseed.required, hseat, hsteps.required,
      hentries.required, hboard.orElse, hresult, hts]

/-- **Histories read back.** The line of a history has one line feed, at its end, and holds the
history. -/
theorem ofLine?_toLine {h : History} (hfits : h.Fits) :
    (∃ body, h.toLine = body ++ "\n" ∧ '\n' ∉ body.toList) ∧ ofLine? h.toLine = some h := by
  have hdecodes := decodes hfits
  refine ⟨⟨h.toJson.render, rfl, ?_⟩, ?_⟩
  · rw [Json.render, String.toList_ofList]
    exact Json.newline_notMem_chars hdecodes.exact
  · rw [ofLine?, toLine, Json.read_line hdecodes.exact, Option.bind_some, hdecodes.decode_eq]

/-- Texts may hold quotes, backslashes, control characters and letters of any script. -/
theorem ofLine?_toLine_controls :
    let h : History :=
      { id := "a\"b\\c\nd\u0007é", variant := "七", seed := 0xFFFFFFFFFFFFFFFF, button := some 3
        steps := ["Deal\n"], entries := [⟨7, "Bet", .raise 50, 50⟩, ⟨8, "Bet", .draw [0, 2], 0⟩] }
    (∃ body, h.toLine = body ++ "\n" ∧ '\n' ∉ body.toList) ∧ ofLine? h.toLine = some h :=
  ofLine?_toLine
    { seed := by decide, button := by decide, outcome := by simp
      entries := by
        simp only [List.mem_cons, List.not_mem_nil, or_false, forall_eq_or_imp, forall_eq]
        exact ⟨⟨by decide, show 50 ≤ maxFourBytes by decide, by decide⟩,
          ⟨by decide, show ∀ i ∈ [0, 2], i ≤ Json.maxNat by decide, by decide⟩⟩ }

end History

end DealersChoice
