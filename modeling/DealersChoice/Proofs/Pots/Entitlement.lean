import DealersChoice.Proofs.Pots

/-!
# What each player can win

The pots that contributions form split the chips exactly (`Pot.partition_ofContributions`): each
holds chips and is contested by fewer players than the pot below it, and a player who is all in can
win, from everybody, as much as they put in themselves.

## How the levels decide it

A player who is all in contests the levels up to their own amount, which is a level too, and none
above it. Up to there every level goes to pots that they can win (`Pot.stack_of_mem`). What happens
above depends on whether somebody outlasts them. If so, the next level is contested without them and
opens a new pot, and no later level comes back to one of theirs (`Pot.stack_of_notMem`). If not,
nobody contests the levels above, and all of them join the pot below
(`Pot.stack_nil_of_contestsLast`): those are chips of players who have folded.
-/

namespace DealersChoice

namespace Contribution

variable {cs : List Contribution} {c : Contribution}

/-- Another live player can match more than a contribution: they are not all in, or have put in
more. -/
def Outlasted (cs : List Contribution) (c : Contribution) : Prop :=
  ∃ d ∈ cs, d.player ≠ c.player ∧ d.folded = false ∧ (d.allIn = false ∨ c.amount < d.amount)

/-- Two levels next to each other gather what lies between the lower end and the upper one. -/
theorem between_add_between (cs : List Contribution) {low mid high : Nat} (hlow : low ≤ mid)
    (hhigh : mid ≤ high) :
    between cs low mid + between cs mid high = between cs low high := by
  rw [between, between, between, ← total_map_add]
  congr 1
  refine List.map_congr_left fun c _ ↦ ?_
  omega

/-- Fewer players contest a higher level, in the same order. -/
theorem eligible_sublist {low high : Nat} (h : low ≤ high) :
    (eligible cs high).Sublist (eligible cs low) := by
  refine (List.monotone_filter_right cs fun c hc ↦ ?_).map _
  simp only [Bool.and_eq_true, Bool.or_eq_true, decide_eq_true_eq] at hc ⊢
  exact ⟨hc.1, hc.2.imp_left h.trans⟩

theorem eligible_sublist_players (level : Nat) :
    (eligible cs level).Sublist (cs.map (·.player)) :=
  List.filter_sublist.map _

/-- Among different players, who contests a level is read off their own contribution. -/
theorem mem_eligible_iff (hdistinct : (cs.map (·.player)).Nodup) (hc : c ∈ cs) {level : Nat} :
    c.player ∈ eligible cs level ↔ c.folded = false ∧ (level ≤ c.amount ∨ c.allIn = false) := by
  constructor
  · intro hmem
    obtain ⟨d, hd, hsame⟩ := List.mem_map.1 hmem
    obtain ⟨hd, hcontests⟩ := List.mem_filter.1 hd
    obtain rfl : d = c := List.inj_on_of_nodup_map hdistinct hd hc hsame
    simpa using hcontests
  · rintro ⟨hlive, h⟩
    exact mem_eligible hc hlive h

end Contribution

namespace Pot

open Contribution

variable {cs : List Contribution} {c : Contribution} {pots : List Pot} {id : PlayerId}

/-- All the chips a player can win. -/
def winnable (pots : List Pot) (id : PlayerId) : Nat :=
  total ((pots.filter (·.eligible.contains id)).map (·.amount))

/-- Pots that split contributions exactly. -/
structure Partition (cs : List Contribution) (pots : List Pot) : Prop where
  /-- Every pot holds chips, … -/
  pos : ∀ pot ∈ pots, 0 < pot.amount
  /-- … and together they hold what was put in. -/
  full : total (pots.map (·.amount)) = total (cs.map (·.amount))
  /-- Every pot can be won by somebody, … -/
  contested : ∀ pot ∈ pots, pot.eligible ≠ []
  /-- … by players of the hand only, … -/
  players : ∀ pot ∈ pots, ∀ id ∈ pot.eligible, ∃ c ∈ cs, c.player = id
  /-- … and by nobody who has folded. -/
  live : ∀ pot ∈ pots, ∀ c ∈ cs, c.folded = true → c.player ∉ pot.eligible
  /-- Strictly fewer players contest a later pot. -/
  nested : pots.Pairwise fun lower upper ↦
    upper.eligible ⊆ lower.eligible ∧ ∃ id ∈ lower.eligible, id ∉ upper.eligible
  /-- Live players who are not all in contest every pot. -/
  matched : ∀ c ∈ cs, c.folded = false → c.allIn = false → ∀ pot ∈ pots, c.player ∈ pot.eligible
  /-- A live player who is all in can win from everybody as much as they put in, where another live
  player outlasts them, … -/
  entitled : ∀ c ∈ cs, c.folded = false → c.allIn = true → 0 < c.amount → Outlasted cs c →
    winnable pots c.player = total (cs.map fun d ↦ min d.amount c.amount)
  /-- … and all chips otherwise. -/
  unrivalled : ∀ c ∈ cs, c.folded = false → c.allIn = true → 0 < c.amount → ¬Outlasted cs c →
    winnable pots c.player = total (cs.map (·.amount))

/-! ### Later pots have fewer claimants -/

/-- Pots stacked up to a level, last one first. -/
structure Stacked (cs : List Contribution) (low : Nat) (pots : List Pot) : Prop where
  pos : ∀ pot ∈ pots, 0 < pot.amount
  level : ∀ pot ∈ pots, ∃ level ≤ low, pot.eligible = Contribution.eligible cs level
  nested : pots.Pairwise fun upper lower ↦
    upper.eligible.Sublist lower.eligible ∧ upper.eligible ≠ lower.eligible

theorem Stacked.stack {low level : Nat} (h : Stacked cs low pots) (hlow : low ≤ level) :
    Stacked cs level
      (stack pots (between cs low level) (Contribution.eligible cs level)) := by
  have hraise : ∀ pot ∈ pots, ∃ l ≤ level, pot.eligible = Contribution.eligible cs l := by
    intro pot hpot
    obtain ⟨l, hl, heq⟩ := h.level pot hpot
    exact ⟨l, hl.trans hlow, heq⟩
  rcases stack_cases pots (between cs low level) (Contribution.eligible cs level) with
    ⟨-, hs⟩ | ⟨last, rest, rfl, -, hs⟩ | ⟨hnew, hpos, hs⟩
  · rw [hs]
    exact ⟨h.pos, hraise, h.nested⟩
  · rw [hs]
    refine ⟨?_, ?_, ?_⟩
    · rw [List.forall_mem_cons]
      exact ⟨Nat.add_pos_left (h.pos last List.mem_cons_self) _,
        fun pot hpot ↦ h.pos pot (List.mem_cons_of_mem _ hpot)⟩
    · rw [List.forall_mem_cons]
      exact ⟨hraise last List.mem_cons_self,
        fun pot hpot ↦ hraise pot (List.mem_cons_of_mem _ hpot)⟩
    · exact List.pairwise_cons.2 (List.pairwise_cons.1 h.nested)
  · rw [hs]
    refine ⟨?_, ?_, List.pairwise_cons.2 ⟨?_, h.nested⟩⟩
    · exact List.forall_mem_cons.2 ⟨hpos, h.pos⟩
    · exact List.forall_mem_cons.2 ⟨⟨level, Nat.le_refl _, rfl⟩, hraise⟩
    · intro lower hlower
      obtain ⟨l, hl, heq⟩ := h.level lower hlower
      have hsub : (Contribution.eligible cs level).Sublist lower.eligible :=
        heq ▸ eligible_sublist (hl.trans hlow)
      refine ⟨hsub, fun hsame ↦ ?_⟩
      rcases pots with - | ⟨last, rest⟩
      · simp at hlower
      -- the last pot lies between the level and the pot below, so it would be contested alike
      · have hlast : Contribution.eligible cs level ≠ last.eligible := (hnew last rfl).2
        obtain ⟨m, hm, hmeq⟩ := h.level last List.mem_cons_self
        have hup : (Contribution.eligible cs level).Sublist last.eligible :=
          hmeq ▸ eligible_sublist (hm.trans hlow)
        rcases List.mem_cons.1 hlower with rfl | hrest
        · exact hlast hsame
        · have hdown := ((List.pairwise_cons.1 h.nested).1 lower hrest).1
          have hback : last.eligible.Sublist (Contribution.eligible cs level) := by
            rwa [← hsame] at hdown
          exact hlast (hup.antisymm hback)

theorem Stacked.stackLevels {low : Nat} {ls : List Nat} (h : Stacked cs low pots)
    (hls : (low :: ls).Pairwise (· ≤ ·)) :
    ∃ high, Stacked cs high (stackLevels cs low ls pots) := by
  induction ls generalizing low pots with
  | nil => exact ⟨low, h⟩
  | cons level ls ih =>
    rw [List.pairwise_cons] at hls
    exact ih (h.stack (hls.1 level List.mem_cons_self)) hls.2

theorem exists_stacked_ofContributions (cs : List Contribution) :
    ∃ high, Stacked cs high (ofContributions cs).reverse := by
  have hnil : Stacked cs 0 [] := ⟨by simp, by simp, List.Pairwise.nil⟩
  rw [ofContributions, List.reverse_reverse]
  exact hnil.stackLevels (pairwise_zero_levels cs)

/-! ### The chips of one player's pots -/

theorem winnable_cons (pot : Pot) (pots : List Pot) (id : PlayerId) :
    winnable (pot :: pots) id =
      (if id ∈ pot.eligible then pot.amount else 0) + winnable pots id := by
  rw [winnable, List.filter_cons]
  by_cases h : id ∈ pot.eligible
  · rw [if_pos (by simpa using h), if_pos h]
    rfl
  · rw [if_neg (by simpa using h), if_neg h, Nat.zero_add]
    rfl

theorem winnable_reverse (pots : List Pot) (id : PlayerId) :
    winnable pots.reverse id = winnable pots id := by
  rw [winnable, List.filter_reverse, List.map_reverse, total_reverse]
  rfl

theorem winnable_join (last : Pot) (rest : List Pot) (amount : Nat) :
    winnable ({ last with amount := last.amount + amount } :: rest) id =
      winnable (last :: rest) id + (if id ∈ last.eligible then amount else 0) := by
  rw [winnable_cons, winnable_cons]
  show (if id ∈ last.eligible then last.amount + amount else 0) + _ = _
  split <;> omega

/-- A player contests the last pot, which is held first. -/
def ContestsLast (pots : List Pot) (id : PlayerId) : Prop :=
  ∃ last ∈ pots.head?, id ∈ last.eligible

@[simp] theorem contestsLast_cons {pot : Pot} :
    ContestsLast (pot :: pots) id ↔ id ∈ pot.eligible := by
  simp [ContestsLast]

variable {claimants : List PlayerId}

/-- **A level that a player contests goes to them**, whether it opens a pot or joins one. -/
theorem stack_of_mem (pots : List Pot) {amount : Nat} (h : id ∈ claimants) (hpos : 0 < amount) :
    winnable (stack pots amount claimants) id = winnable pots id + amount ∧
      ContestsLast (stack pots amount claimants) id := by
  have hne : claimants ≠ [] := List.ne_nil_of_mem h
  rcases stack_cases pots amount claimants with
    ⟨hzero, -⟩ | ⟨last, rest, rfl, hjoin, hs⟩ | ⟨-, -, hs⟩
  · omega
  · have hlast : id ∈ last.eligible := by rwa [hjoin.resolve_left hne]
    rw [hs, winnable_join, if_pos hlast, contestsLast_cons]
    exact ⟨rfl, hlast⟩
  · rw [hs, winnable_cons, if_pos h, contestsLast_cons]
    exact ⟨Nat.add_comm _ _, h⟩

/-- **A level that nobody contests goes to those who contest the last pot.** -/
theorem stack_nil_of_contestsLast (amount : Nat) (h : ContestsLast pots id) :
    winnable (stack pots amount []) id = winnable pots id + amount ∧
      ContestsLast (stack pots amount []) id := by
  rcases stack_cases pots amount [] with ⟨rfl, hs⟩ | ⟨last, rest, rfl, -, hs⟩ | ⟨hnew, -, -⟩
  · rw [hs]
    exact ⟨rfl, h⟩
  · rw [contestsLast_cons] at h
    rw [hs, winnable_join, if_pos h, contestsLast_cons]
    exact ⟨rfl, h⟩
  · obtain ⟨last, hlast, -⟩ := h
    exact absurd rfl (hnew last hlast).1

/-- **A level that others contest leaves a player behind**, and once they contest the last pot no
more, so does one that nobody contests. -/
theorem stack_of_notMem {pots : List Pot} {amount : Nat} (h : id ∉ claimants)
    (hout : ¬ContestsLast pots id ∨ claimants ≠ [] ∧ 0 < amount) :
    winnable (stack pots amount claimants) id = winnable pots id ∧
      ¬ContestsLast (stack pots amount claimants) id := by
  rcases stack_cases pots amount claimants with
    ⟨hzero, hs⟩ | ⟨last, rest, rfl, hjoin, hs⟩ | ⟨-, -, hs⟩
  · rw [hs]
    exact ⟨rfl, hout.resolve_right fun hopens ↦ Nat.ne_of_gt hopens.2 hzero⟩
  · have hlast : id ∉ last.eligible := by
      rcases hout with hout | ⟨hne, -⟩
      · rwa [contestsLast_cons] at hout
      · rwa [hjoin.resolve_left hne]
    rw [hs, winnable_join, if_neg hlast, contestsLast_cons]
    exact ⟨rfl, hlast⟩
  · rw [hs, winnable_cons, if_neg h, contestsLast_cons]
    exact ⟨Nat.zero_add _, h⟩

/-- The levels that lie above one. -/
structure LevelsAbove (cs : List Contribution) (low : Nat) (ls : List Nat) : Prop where
  ascend : (low :: ls).Pairwise (· < ·)
  mem_iff : ∀ level, level ∈ ls ↔ level ∈ levels cs ∧ low < level

theorem levelsAbove_zero (hpos : ∀ level ∈ levels cs, 0 < level) :
    LevelsAbove cs 0 (levels cs) where
  ascend := List.pairwise_cons.2 ⟨hpos, pairwise_levels cs⟩
  mem_iff level := ⟨fun h ↦ ⟨h, hpos level h⟩, And.left⟩

section Levels

variable {low level : Nat} {ls : List Nat}

theorem LevelsAbove.lt (h : LevelsAbove cs low (level :: ls)) : low < level :=
  (List.pairwise_cons.1 h.ascend).1 level List.mem_cons_self

theorem LevelsAbove.tail (h : LevelsAbove cs low (level :: ls)) : LevelsAbove cs level ls where
  ascend := (List.pairwise_cons.1 h.ascend).2
  mem_iff l := by
    have habove := (List.pairwise_cons.1 (List.pairwise_cons.1 h.ascend).2).1
    constructor
    · intro hl
      exact ⟨((h.mem_iff l).1 (List.mem_cons_of_mem _ hl)).1, habove l hl⟩
    · rintro ⟨hl, hlt⟩
      have hmem := (h.mem_iff l).2 ⟨hl, Nat.lt_trans h.lt hlt⟩
      exact (List.mem_cons.1 hmem).resolve_left (Nat.ne_of_gt hlt)

theorem LevelsAbove.between_pos (h : LevelsAbove cs low (level :: ls)) :
    0 < between cs low level :=
  Contribution.between_pos h.lt ((h.mem_iff level).1 List.mem_cons_self).1

/-- With no level left, nobody has put in more. -/
theorem LevelsAbove.total_above (h : LevelsAbove cs low []) :
    total (cs.map fun c ↦ c.amount - min c.amount low) = 0 := by
  refine total_eq_zero_iff.2 fun n hn ↦ ?_
  obtain ⟨c, hc, rfl⟩ := List.mem_map.1 hn
  have hle := amount_le_top hc
  have htop : ¬low < top cs := fun hlt ↦ by
    simpa using (h.mem_iff _).2 ⟨top_mem_levels (List.ne_nil_of_mem hc), hlt⟩
  omega

/-- A player who contests neither the last pot nor a level to come wins nothing more. -/
theorem winnable_stackLevels_of_notMem (hlast : ¬ContestsLast pots id)
    (hls : ∀ level ∈ ls, id ∉ Contribution.eligible cs level) :
    winnable (stackLevels cs low ls pots) id = winnable pots id := by
  induction ls generalizing low pots with
  | nil => rfl
  | cons level ls ih =>
    rw [List.forall_mem_cons] at hls
    obtain ⟨hsame, hlast⟩ := stack_of_notMem hls.1 (Or.inl hlast)
    rw [stackLevels, ih hlast hls.2, hsame]

/-- What nobody contests goes to those who contest the last pot. -/
theorem winnable_stackLevels_of_uncontested (h : LevelsAbove cs low ls)
    (hlast : ContestsLast pots id) (hls : ∀ level ∈ ls, Contribution.eligible cs level = []) :
    winnable (stackLevels cs low ls pots) id =
      winnable pots id + total (cs.map fun c ↦ c.amount - min c.amount low) := by
  induction ls generalizing low pots with
  | nil =>
    rw [h.total_above]
    rfl
  | cons level ls ih =>
    rw [List.forall_mem_cons] at hls
    obtain ⟨hmore, hlast⟩ := stack_nil_of_contestsLast (between cs low level) hlast
    rw [stackLevels, hls.1, ih h.tail hlast hls.2, hmore, total_above_eq (Nat.le_of_lt h.lt),
      Nat.add_assoc]

/-- **Up to their own amount every level goes to a live player who is all in**; what they win above
is decided there. -/
theorem winnable_stackLevels {extra : Nat} (hc : c ∈ cs) (hlive : c.folded = false)
    (hown : c.amount ∈ ls) (h : LevelsAbove cs low ls)
    (hextra : ∀ pots ls, LevelsAbove cs c.amount ls → ContestsLast pots c.player →
      winnable (stackLevels cs c.amount ls pots) c.player = winnable pots c.player + extra) :
    winnable (stackLevels cs low ls pots) c.player =
      winnable pots c.player + between cs low c.amount + extra := by
  induction ls generalizing low pots with
  | nil => simp at hown
  | cons level ls ih =>
    have hreach : level ≤ c.amount := by
      rcases List.mem_cons.1 hown with heq | hmem
      · exact Nat.le_of_eq heq.symm
      · exact Nat.le_of_lt ((h.tail.mem_iff _).1 hmem).2
    have hmem : c.player ∈ Contribution.eligible cs level :=
      mem_eligible hc hlive (Or.inl hreach)
    obtain ⟨hmore, hlast⟩ := stack_of_mem pots hmem h.between_pos
    rw [stackLevels]
    rcases Nat.eq_or_lt_of_le hreach with rfl | hlt
    · rw [hextra _ _ h.tail hlast, hmore]
    · have hrest : c.amount ∈ ls := (List.mem_cons.1 hown).resolve_left (Nat.ne_of_gt hlt)
      have hsum := between_add_between cs (Nat.le_of_lt h.lt) hreach
      rw [ih hrest h.tail, hmore]
      omega

end Levels

/-! ### What a player who is all in can win -/

section AllIn

variable (hdistinct : (cs.map (·.player)).Nodup) (hc : c ∈ cs) (hlive : c.folded = false)
  (hall : c.allIn = true)

include hdistinct hc hall in
/-- A player who is all in contests no level above their own amount. -/
theorem notMem_eligible_of_lt {level : Nat} (h : c.amount < level) :
    c.player ∉ Contribution.eligible cs level := by
  rw [mem_eligible_iff hdistinct hc, hall]
  rintro ⟨-, hreach | hmatch⟩
  · omega
  · cases hmatch

include hdistinct hc hall in
/-- Where somebody outlasts them, a player who is all in wins nothing of the levels above. -/
theorem winnable_stackLevels_of_outlasted (hout : Outlasted cs c) {ls : List Nat}
    (h : LevelsAbove cs c.amount ls) :
    winnable (stackLevels cs c.amount ls pots) c.player = winnable pots c.player := by
  rcases ls with - | ⟨level, ls⟩
  · rfl
  · have hnot : ∀ l ∈ level :: ls, c.player ∉ Contribution.eligible cs l := fun l hl ↦
      notMem_eligible_of_lt hdistinct hc hall ((h.mem_iff l).1 hl).2
    -- whoever outlasts the player contests the next level, which is one of theirs or below it
    have hne : Contribution.eligible cs level ≠ [] := by
      obtain ⟨d, hd, -, hdlive, hmore⟩ := hout
      have hreach : level ≤ d.amount ∨ d.allIn = false := by
        cases hdall : d.allIn with
        | false => exact Or.inr rfl
        | true =>
          have hlt : c.amount < d.amount := hmore.resolve_left (by simp [hdall])
          have hdlevel : d.amount ∈ levels cs :=
            mem_levels.2 (Or.inl ⟨d, hd, hdall, hdlive, Nat.zero_lt_of_lt hlt, rfl⟩)
          rcases List.mem_cons.1 ((h.mem_iff _).2 ⟨hdlevel, hlt⟩) with heq | hmem
          · exact Or.inl (Nat.le_of_eq heq.symm)
          · exact Or.inl (Nat.le_of_lt ((h.tail.mem_iff _).1 hmem).2)
      exact List.ne_nil_of_mem (mem_eligible hd hdlive hreach)
    rw [List.forall_mem_cons] at hnot
    obtain ⟨hsame, hlast⟩ := stack_of_notMem hnot.1 (Or.inr ⟨hne, h.between_pos⟩)
    rw [stackLevels, winnable_stackLevels_of_notMem hlast hnot.2, hsame]

include hdistinct hc hall in
/-- Where nobody outlasts a player who is all in, nobody contests a level above. -/
theorem eligible_eq_nil_of_not_outlasted (hout : ¬Outlasted cs c) {level : Nat}
    (h : c.amount < level) : Contribution.eligible cs level = [] := by
  refine List.eq_nil_iff_forall_not_mem.2 fun id hid ↦ ?_
  obtain ⟨d, hd, rfl⟩ := List.mem_map.1 ((eligible_sublist_players level).subset hid)
  have hsame : d.player ≠ c.player := fun heq ↦
    notMem_eligible_of_lt hdistinct hc hall h (heq ▸ hid)
  obtain ⟨hdlive, hreach⟩ := (mem_eligible_iff hdistinct hd).1 hid
  exact hout ⟨d, hd, hsame, hdlive, hreach.symm.imp_right h.trans_le⟩

include hc hlive hall in
/-- What a player who is all in can win is what they put in, from everybody, and what they win of
the levels above. -/
theorem winnable_ofContributions (hpos : 0 < c.amount) (extra : Nat)
    (hextra : ∀ pots ls, LevelsAbove cs c.amount ls → ContestsLast pots c.player →
      winnable (stackLevels cs c.amount ls pots) c.player = winnable pots c.player + extra) :
    winnable (ofContributions cs) c.player = between cs 0 c.amount + extra := by
  have hown : c.amount ∈ levels cs := mem_levels.2 (Or.inl ⟨c, hc, hall, hlive, hpos, rfl⟩)
  have habove := levelsAbove_zero fun level hlevel ↦ pos_of_mem_levels hc hpos hlevel
  rw [ofContributions, winnable_reverse, winnable_stackLevels hc hlive hown habove hextra]
  show 0 + between cs 0 c.amount + extra = _
  rw [Nat.zero_add]

end AllIn

/-- **The pots split the contributions exactly**, whenever some live player is not all in or has put
in chips. -/
theorem partition_ofContributions (hdistinct : (cs.map (·.player)).Nodup)
    (hlive : ∃ c ∈ cs, c.folded = false ∧ (c.allIn = false ∨ 0 < c.amount)) :
    Partition cs (ofContributions cs) := by
  obtain ⟨high, hstacked⟩ := exists_stacked_ofContributions cs
  have hlevel : ∀ pot ∈ ofContributions cs,
      ∃ level ≤ high, pot.eligible = Contribution.eligible cs level :=
    fun pot hpot ↦ hstacked.level pot (List.mem_reverse.2 hpot)
  refine ⟨fun pot hpot ↦ hstacked.pos pot (List.mem_reverse.2 hpot), total_ofContributions cs,
    eligible_ne_nil hlive, ?_, ?_, ?_, ?_, ?_, ?_⟩
  · intro pot hpot id hid
    obtain ⟨c, hc, hsame, -⟩ := exists_live_of_mem_eligible hpot hid
    exact ⟨c, hc, hsame⟩
  · intro pot hpot c hc hfold hmem
    obtain ⟨level, -, heq⟩ := hlevel pot hpot
    rw [heq, mem_eligible_iff hdistinct hc, hfold] at hmem
    exact Bool.noConfusion hmem.1
  · have hnested := List.pairwise_reverse.1 hstacked.nested
    refine hnested.imp_of_mem fun {lower upper} hlower _ ⟨hsub, hne⟩ ↦ ⟨hsub.subset, ?_⟩
    obtain ⟨level, -, heq⟩ := hlevel lower hlower
    have hnodup : lower.eligible.Nodup :=
      heq ▸ hdistinct.sublist (eligible_sublist_players level)
    exact exists_mem_notMem_of_sublist hsub hne hnodup
  · intro c hc hfold hall pot hpot
    obtain ⟨level, -, heq⟩ := hlevel pot hpot
    exact heq ▸ mem_eligible hc hfold (Or.inr hall)
  · intro c hc hfold hall hpos hout
    rw [winnable_ofContributions hc hfold hall hpos 0 fun pots ls habove _ ↦
      winnable_stackLevels_of_outlasted hdistinct hc hall hout habove]
    simp [between]
  · intro c hc hfold hall hpos hout
    rw [winnable_ofContributions hc hfold hall hpos _ fun pots ls habove hlast ↦
      winnable_stackLevels_of_uncontested habove hlast fun level hlevel ↦
        eligible_eq_nil_of_not_outlasted hdistinct hc hall hout ((habove.mem_iff level).1 hlevel).2,
      ← total_above_eq (Nat.zero_le _)]
    simp

/-- Two players all in for different amounts, one who matched the largest, and two who folded. -/
def twoAllIn : List Contribution :=
  [{ player := 1, amount := 70, folded := true, allIn := false },
    { player := 2, amount := 20, folded := false, allIn := true },
    { player := 3, amount := 50, folded := false, allIn := true },
    { player := 4, amount := 70, folded := false, allIn := false },
    { player := 5, amount := 10, folded := true, allIn := false }]

theorem twoAllIn_partition : (twoAllIn.map (·.player)).Nodup ∧
    Partition twoAllIn [{ amount := 90, eligible := [2, 3, 4] },
      { amount := 90, eligible := [3, 4] }, { amount := 40, eligible := [4] }] := by
  have hdistinct : (twoAllIn.map (·.player)).Nodup := by decide
  have hpots : ofContributions twoAllIn = [{ amount := 90, eligible := [2, 3, 4] },
      { amount := 90, eligible := [3, 4] }, { amount := 40, eligible := [4] }] := by decide
  exact ⟨hdistinct, hpots ▸ partition_ofContributions hdistinct (by decide)⟩

end Pot

end DealersChoice
