import DealersChoice.Game.View
import DealersChoice.Proofs.Game.Board
import Mathlib.Logic.Equiv.Basic

/-!
# What everyone sees

Two games look alike (`Game.LooksLike`) if they differ in nothing but which cards lie face down, are
undealt or are in the muck; putting other cards in the place of those is one way to get such a game
(`Game.disguise`). Whoever does not own a hand sees the same of it in both
(`Game.handSeenBy?_of_looksLike`). But the board is shown as it is, so what a host shows to everyone
keeps all secrets exactly if the community cards lie face up (`Game.publicView_of_looksLike`), as
they do under rules that deal them so.
-/

namespace DealersChoice

/-! ### Looking alike -/

/-- The cards lie the same way, and are the same if they lie face up. -/
def LaidCard.LooksLike (d d' : LaidCard) : Prop :=
  d'.facing = d.facing ∧ (d.facing = .up → d'.card = d.card)

/-- The players are the same, but for cards of the hand that lie face down. -/
def Player.LooksLike (p p' : Player) : Prop :=
  p' = { p with hand := p'.hand } ∧ List.Forall₂ LaidCard.LooksLike p.hand p'.hand

/-- The zones are the same, but for cards that lie face down. -/
def Zone.LooksLike (z z' : Zone) : Prop :=
  z'.name = z.name ∧ List.Forall₂ LaidCard.LooksLike z.cards z'.cards

/-- The tables are the same, but for which cards lie face down, are undealt or are in the muck. -/
structure Table.LooksLike (t t' : Table) : Prop where
  seats : List.Forall₂ (Option.Rel Player.LooksLike) t.seats t'.seats
  button : t'.button = t.button
  zones : List.Forall₂ Zone.LooksLike t.zones t'.zones
  deck : t'.deck = { t.deck with undealt := t'.deck.undealt }
  undealt : t'.deck.undealt.length = t.deck.undealt.length
  muck : t'.muck.length = t.muck.length

/-- The games are the same, but for which cards lie face down, are undealt or are in the muck. -/
structure Game.LooksLike (g g' : Game) : Prop where
  table : g.table.LooksLike g'.table
  rest : g' = { g with table := g'.table }

/-! ### Other cards in the place of hidden ones -/

/-- A card of the same suit, but not the same. -/
def Card.other (c : Card) : Card :=
  { c with rank := if c.rank = .two then .three else .two }

theorem Card.other_ne (c : Card) : c.other ≠ c := by
  intro h
  have hrank : (if c.rank = .two then Rank.three else .two) = c.rank := congrArg Card.rank h
  split at hrank
  · rename_i htwo
    rw [htwo] at hrank
    contradiction
  · rename_i hother
    exact hother hrank.symm

/-- Another card in the place of one that lies face down. -/
def LaidCard.disguise (σ : Card → Card) (d : LaidCard) : LaidCard :=
  if d.isUp then d else { d with card := σ d.card }

def Player.disguise (σ : Card → Card) (p : Player) : Player :=
  { p with hand := p.hand.map (·.disguise σ) }

def Zone.disguise (σ : Card → Card) (z : Zone) : Zone :=
  { z with cards := z.cards.map (·.disguise σ) }

def Table.disguise (σ : Card → Card) (t : Table) : Table :=
  { t with
    seats := t.seats.map (Option.map (·.disguise σ))
    zones := t.zones.map (·.disguise σ)
    deck := { t.deck with undealt := t.deck.undealt.map σ }
    muck := t.muck.map σ }

/-- Other cards in the place of those that lie face down, are undealt or are in the muck. -/
def Game.disguise (σ : Card → Card) (g : Game) : Game :=
  { g with table := g.table.disguise σ }

variable {σ : Card → Card} {d d' : LaidCard} {z z' : Zone}

theorem LaidCard.looksLike_disguise (σ : Card → Card) (d : LaidCard) :
    d.LooksLike (d.disguise σ) := by
  rw [disguise]
  split
  · exact ⟨rfl, fun _ ↦ rfl⟩
  · rename_i hdown
    exact ⟨rfl, fun hup ↦ absurd (by rw [isUp, hup]; rfl) hdown⟩

theorem Player.looksLike_disguise (σ : Card → Card) (p : Player) : p.LooksLike (p.disguise σ) :=
  ⟨rfl, forall₂_map_self (LaidCard.looksLike_disguise σ) p.hand⟩

theorem Zone.looksLike_disguise (σ : Card → Card) (z : Zone) : z.LooksLike (z.disguise σ) :=
  ⟨rfl, forall₂_map_self (LaidCard.looksLike_disguise σ) z.cards⟩

/-- **Other cards in the place of hidden ones cannot be told from them** by looking. -/
theorem Game.looksLike_disguise (σ : Card → Card) (g : Game) : g.LooksLike (g.disguise σ) := by
  refine ⟨⟨forall₂_map_self (fun entry ↦ ?_) _, rfl, forall₂_map_self (Zone.looksLike_disguise σ) _,
    rfl, List.length_map .., List.length_map ..⟩, rfl⟩
  cases entry with
  | none => exact .none
  | some p => exact .some (Player.looksLike_disguise σ p)

/-! ### Views -/

/-- **Whoever does not own a hand sees the same of it**, whatever lies face down. -/
theorem seenBy_of_looksLike {hand hand' : List LaidCard}
    (h : List.Forall₂ LaidCard.LooksLike hand hand') (owner : PlayerId) {viewer : Option PlayerId}
    (hviewer : viewer ≠ some owner) : seenBy hand' owner viewer = seenBy hand owner viewer := by
  refine map_eq_map_of_forall₂ h fun d _ d' hd ↦ ?_
  have hother : (viewer == some owner) = false := beq_false_of_ne hviewer
  rw [hother, Bool.or_false, Bool.or_false, LaidCard.isUp, LaidCard.isUp, hd.1]
  cases hfacing : d.facing with
  | up => rw [hd.2 hfacing]
  | down => rfl

theorem LaidCard.LooksLike.eq_of_up (h : d.LooksLike d') (hup : d.facing = .up) : d' = d := by
  show LaidCard.mk d'.card d'.facing = d
  rw [h.2 hup, h.1]

theorem Zone.LooksLike.eq_of_up (h : z.LooksLike z') (hup : ∀ d ∈ z.cards, d.facing = .up) :
    z' = z := by
  show Zone.mk z'.name z'.cards = z
  rw [h.1, eq_of_forall₂ h.2 fun d hd _ hlike ↦ hlike.eq_of_up (hup d hd)]

namespace Table

variable {t t' : Table}

/-- A board that lies face up looks like no other. -/
theorem LooksLike.zones_eq (h : t.LooksLike t') (hup : t.BoardUp) : t'.zones = t.zones :=
  eq_of_forall₂ h.zones fun z hz _ hlike ↦ hlike.eq_of_up (hup z hz)

/-- **A board on which no card can be disguised lies face up.** -/
theorem boardUp_of_disguise (hσ : ∀ c, σ c ≠ c) (h : (t.disguise σ).zones = t.zones) :
    t.BoardUp := by
  intro z hz d hd
  have hzone : z.disguise σ = z := List.map_inj_left.1 (h.trans (List.map_id _).symm) z hz
  have hcards : z.cards.map (·.disguise σ) = z.cards := congrArg Zone.cards hzone
  have hcard : d.disguise σ = d := List.map_inj_left.1 (hcards.trans (List.map_id _).symm) d hd
  cases hfacing : d.facing with
  | up => rfl
  | down =>
    rw [LaidCard.disguise, LaidCard.isUp, hfacing] at hcard
    exact absurd (congrArg LaidCard.card hcard) (hσ d.card)

theorem LooksLike.players (h : t.LooksLike t') :
    List.Forall₂ Player.LooksLike t.players t'.players :=
  List.rel_filterMap (fun _ _ hentry ↦ hentry) h.seats

theorem LooksLike.player? (h : t.LooksLike t') (who : PlayerId) :
    Option.Rel Player.LooksLike (t.player? who) (t'.player? who) := by
  refine rel_find?_of_forall₂ h.players fun p p' hp ↦ ?_
  rw [hp.1]

end Table

namespace Game

variable {g g' : Game}

/-- **Whoever does not own a hand sees the same of it in games that look alike.** -/
theorem handSeenBy?_of_looksLike (h : g.LooksLike g') (owner : PlayerId) {viewer : Option PlayerId}
    (hviewer : viewer ≠ some owner) : g'.handSeenBy? owner viewer = g.handSeenBy? owner viewer := by
  have howner := h.table.player? owner
  rw [handSeenBy?, handSeenBy?]
  generalize g.table.player? owner = p, g'.table.player? owner = p' at howner
  cases howner with
  | none => rfl
  | some hp => exact congrArg some (seenBy_of_looksLike hp.2 owner hviewer)

/-- **Everyone sees the same of games that look alike, but for the board.** -/
theorem LooksLike.publicView (h : g.LooksLike g') :
    g'.publicView = { g.publicView with zones := g'.table.zones } := by
  have hplayers : g'.publicView.players = g.publicView.players := by
    refine map_eq_map_of_forall₂ h.table.players fun p _ p' hp ↦ ?_
    have hcards : seenBy p'.hand p.id none = seenBy p.hand p.id none :=
      seenBy_of_looksLike hp.2 p.id (Option.some_ne_none _).symm
    rw [hp.1]
    simp only [hcards]
  calc g'.publicView
      = ({ g with table := g'.table } : Game).publicView := congrArg Game.publicView h.rest
    _ = { g.publicView with
          button := g'.table.button, zones := g'.table.zones
          players := g'.publicView.players } := rfl
    _ = { g.publicView with zones := g'.table.zones } := by
      rw [h.table.button, hplayers]
      rfl

/-- **What everyone sees keeps the secrets of the hands, and those of the board only if there are
none.** Games that look alike show the same but for the board. So the secrets are kept exactly if
all community cards lie face up, as they do whenever the rules deal them so. -/
theorem publicView_of_looksLike (g : Game) :
    (∀ g', g.LooksLike g' → g'.publicView = { g.publicView with zones := g'.table.zones }) ∧
    ((∀ g', g.LooksLike g' → g'.publicView = g.publicView) ↔ g.table.BoardUp) ∧
    (g.Played → g.variant.DealsBoardUp → ∀ g', g.LooksLike g' → g'.publicView = g.publicView) := by
  have hkept : g.table.BoardUp → ∀ g', g.LooksLike g' → g'.publicView = g.publicView := by
    intro hup g' h
    rw [h.publicView, h.table.zones_eq hup]
    rfl
  refine ⟨fun g' h ↦ h.publicView, ⟨fun hall ↦ ?_, hkept⟩, fun hplayed hrules ↦
    hkept (hplayed.boardUp hrules)⟩
  have hview := hall _ (looksLike_disguise Card.other g)
  exact Table.boardUp_of_disguise Card.other_ne (congrArg PublicView.zones hview)

/-! ### A card on the board -/

/-- A table for `Variant.oneOnBoard` with an ante of one. -/
def oneOnBoard (facing : Facing) : Game where
  variant := .oneOnBoard facing
  settings := { seats := 2, stakes := { ante := 1 } }
  seed := 0
  table := Table.ofDeck 2 (Variant.oneOnBoard facing).deck 0 [defaultZone]
  betting := { limits := .noLimit, stakes := { ante := 1 } }
  history := History.start "One on Board" 0 0 none

/-- The game once its board is dealt. -/
def oneOnBoardDealt (facing : Facing) : Game :=
  (oneOnBoard facing).handleAll
    [.sitDown 1 "Ann" 100 0, .sitDown 2 "Bob" 100 1, .beginHand, .advance, .advance]

theorem oneOnBoardDealt_played (facing : Facing) : (oneOnBoardDealt facing).Played :=
  have hopen : openTable (.oneOnBoard facing) { seats := 2, stakes := { ante := 1 } } 0 =
      .ok (oneOnBoard facing) := rfl
  Played.handleAll (.opened (Variant.oneOnBoard_isLoaded facing) hopen) _

theorem oneOnBoard_dealsBoardUp : (Variant.oneOnBoard .up).DealsBoardUp := by
  intro step hstep deal hdeal htarget batch hbatch
  simp only [Variant.oneOnBoard, List.mem_cons, List.not_mem_nil, or_false] at hstep
  obtain rfl | rfl | rfl | rfl := hstep
  · cases hdeal
  · cases hdeal
    exact Destination.noConfusion htarget
  · cases hdeal
    rw [List.mem_singleton.1 hbatch]
  · cases hdeal

/-- A king in the first player's hand is exchanged for one in the deck. -/
def kingSwapped : Game :=
  (oneOnBoardDealt .up).disguise (Equiv.swap ⟨.clubs, .king⟩ ⟨.hearts, .king⟩)

theorem kingSwapped_looks : (oneOnBoardDealt .up).Played ∧
    (oneOnBoardDealt .up).variant.DealsBoardUp ∧ (oneOnBoardDealt .up).LooksLike kingSwapped ∧
    kingSwapped ≠ oneOnBoardDealt .up ∧
    kingSwapped.publicView = (oneOnBoardDealt .up).publicView := by
  have hlike : (oneOnBoardDealt .up).LooksLike kingSwapped := looksLike_disguise _ _
  have hplayed := oneOnBoardDealt_played .up
  have hrules : (oneOnBoardDealt .up).variant.DealsBoardUp := by
    rw [oneOnBoardDealt, variant_handleAll]
    exact oneOnBoard_dealsBoardUp
  exact ⟨hplayed, hrules, hlike, by decide +kernel,
    (publicView_of_looksLike (oneOnBoardDealt .up)).2.2 hplayed hrules kingSwapped hlike⟩

/-- The king that lies face down on the board is exchanged for one in the deck. -/
def boardSwapped : Game :=
  (oneOnBoardDealt .down).disguise (Equiv.swap ⟨.diamonds, .king⟩ ⟨.hearts, .king⟩)

/-- **A card that lies face down on the board is shown to everyone.** -/
theorem board_discloses : (oneOnBoardDealt .down).Played ∧
    (oneOnBoardDealt .down).LooksLike boardSwapped ∧
    (oneOnBoardDealt .down).publicView.zones =
      [⟨defaultZone, [{ card := ⟨.diamonds, .king⟩, facing := .down }]⟩] ∧
    boardSwapped.publicView.zones =
      [⟨defaultZone, [{ card := ⟨.hearts, .king⟩, facing := .down }]⟩] ∧
    boardSwapped.table.inPlay.Perm (oneOnBoardDealt .down).table.inPlay ∧
    boardSwapped.publicView ≠ (oneOnBoardDealt .down).publicView := by
  refine ⟨oneOnBoardDealt_played .down, looksLike_disguise _ _, ?_, ?_, ?_, ?_⟩ <;> decide +kernel

end Game

end DealersChoice
