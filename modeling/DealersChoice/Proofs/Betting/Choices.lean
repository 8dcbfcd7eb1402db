import DealersChoice.Proofs.Betting.Contributions

/-!
# What a player may do

What is offered to the player whose turn it is depends on what they owe to the level
(`Betting.Offer`), and there is one choice of each kind at most. An action is taken exactly if one
of the choices describes it (`Betting.exists_act_iff`): the choices are worked out for the player
and again for the action, and both come to the same.
-/

namespace DealersChoice

/-- The choice of cards meets the counts, and the cards are in a hand of the given size. -/
def Choice.Counts (c : Choice) (held : Nat) (cards : List Nat) : Prop :=
  c.min ≤ cards.length ∧ cards.length ≤ c.max ∧ cards.Nodup ∧ ∀ i ∈ cards, i < held

/-- A choice describes an action of a player with such a stack and so many cards. Going all in is a
call, bet or raise of the whole stack. -/
def Choice.Describes (c : Choice) (stack held : Nat) : Action → Prop
  | .fold => c.kind = .fold
  | .check => c.kind = .check
  | .call => c.kind = .call
  | .bet chips => c.kind = .bet ∧ c.min ≤ chips ∧ chips ≤ c.max
  | .raise chips => c.kind = .raise ∧ c.min ≤ chips ∧ chips ≤ c.max
  | .allIn => c.kind = .call ∧ c.min = stack ∨
      (c.kind = .bet ∨ c.kind = .raise) ∧ c.min ≤ stack ∧ stack ≤ c.max
  | .draw cards => c.kind = .draw ∧ c.Counts held cards
  | .discard cards => c.kind = .discard ∧ c.Counts held cards
  | .expose cards => c.kind = .expose ∧ c.Counts held cards
  | .pass cards => c.kind = .pass ∧ c.Counts held cards
  | .declare _ => c.kind = .declare

namespace Betting

variable {b b' : Betting} {who : PlayerId} {a : Account} {stack paid held : Nat}
  {choice other : Choice} {action : Action}

/-! ### Choices -/

/-- What is offered to a player with a given stack whose turn it is. -/
inductive Offer (b : Betting) (a : Account) (stack : Nat) : Choice → Prop where
  | fold (howed : 0 < b.owed a) : Offer b a stack ⟨.fold, 0, 0⟩
  | call (howed : 0 < b.owed a) :
      Offer b a stack ⟨.call, min (b.owed a) stack, min (b.owed a) stack⟩
  | check (howed : b.owed a = 0) : Offer b a stack ⟨.check, 0, 0⟩
  | raise (hmay : b.mayRaise a stack = true) :
      Offer b a stack ⟨if b.level = 0 then .bet else .raise,
        min (b.raiseBounds a stack).1 stack, min (b.raiseBounds a stack).2 stack⟩

theorem mem_choices : choice ∈ b.choices who stack ↔
    b.toAct = some who ∧ ∃ a, b.account? who = some a ∧ b.Offer a stack choice := by
  have hanswer : ∀ a, (choice ∈ (if 0 < b.owed a then
      [⟨.fold, 0, 0⟩, ⟨.call, min (b.owed a) stack, min (b.owed a) stack⟩]
      else [⟨.check, 0, 0⟩] : List Choice)) → b.Offer a stack choice := by
    intro a h
    split at h
    · rename_i howed
      rcases List.mem_pair.1 h with rfl | rfl
      · exact .fold howed
      · exact .call howed
    · rename_i howed
      rw [List.mem_singleton.1 h]
      exact .check (Nat.eq_zero_of_not_pos howed)
  rw [choices]
  split
  · rename_i hturn
    exact iff_of_false List.not_mem_nil fun h ↦ hturn h.1
  · rename_i hturn
    cases haccount : b.account? who with
    | none => simp
    | some a =>
      simp only [Option.some.injEq, exists_eq_left']
      refine Iff.trans ?_ (and_iff_right (not_not.1 hturn)).symm
      constructor
      · intro h
        split at h
        · rename_i hmay
          rcases List.mem_append.1 h with h | h
          · exact hanswer a h
          · rw [List.mem_singleton.1 h]
            exact .raise hmay
        · exact hanswer a h
      · intro h
        cases h with
        | fold howed =>
          rw [if_pos howed]
          split <;> simp
        | call howed =>
          rw [if_pos howed]
          split <;> simp
        | check howed =>
          have hnothing : ¬0 < b.owed a := by omega
          rw [if_neg hnothing]
          split <;> simp
        | raise hmay => simp [hmay]

/-- There is one choice of each kind at most. -/
theorem Offer.eq_of_kind_eq (h : b.Offer a stack choice) (h' : b.Offer a stack other)
    (hkind : choice.kind = other.kind) : choice = other := by
  have hraise : ∀ kind, kind ≠ ActionKind.bet → kind ≠ ActionKind.raise →
      (if b.level = 0 then ActionKind.bet else .raise) ≠ kind := by
    intro kind hbet hraise
    split
    · exact hbet.symm
    · exact hraise.symm
  cases h <;> cases h' <;> first
    | rfl
    | cases hkind
    | exact absurd hkind (hraise _ ActionKind.noConfusion ActionKind.noConfusion)
    | exact absurd hkind.symm (hraise _ ActionKind.noConfusion ActionKind.noConfusion)

theorem find?_choices {kind : ActionKind} :
    (b.choices who stack).find? (·.kind == kind) = some choice ↔
      choice ∈ b.choices who stack ∧ choice.kind = kind := by
  constructor
  · intro h
    exact ⟨List.mem_of_find?_eq_some h, by simpa using List.find?_some h⟩
  · rintro ⟨hmem, rfl⟩
    obtain ⟨-, a, ha, hoffer⟩ := mem_choices.1 hmem
    cases hfind : (b.choices who stack).find? (·.kind == choice.kind) with
    | none => exact absurd (List.find?_eq_none.1 hfind choice hmem) (by simp)
    | some found =>
      obtain ⟨-, a', ha', hfound⟩ := mem_choices.1 (List.mem_of_find?_eq_some hfind)
      obtain rfl := Option.some.inj (ha.symm.trans ha')
      have hkind : found.kind = choice.kind := by simpa using List.find?_some hfind
      exact congrArg some (hfound.eq_of_kind_eq hoffer hkind)

/-- Betting offers no choices of cards, and no declarations. -/
theorem Offer.kind_mem (h : b.Offer a stack choice) :
    choice.kind ∈ [ActionKind.fold, .call, .check, .bet, .raise] := by
  cases h with
  | raise _ =>
    simp only
    split <;> simp
  | _ => simp

/-- Nobody is offered more than their stack. -/
theorem Offer.le_stack (h : b.Offer a stack choice) : choice.min ≤ stack ∧ choice.max ≤ stack := by
  cases h with
  | fold _ => exact ⟨Nat.zero_le _, Nat.zero_le _⟩
  | call _ => exact ⟨Nat.min_le_right .., Nat.min_le_right ..⟩
  | check _ => exact ⟨Nat.zero_le _, Nat.zero_le _⟩
  | raise _ => exact ⟨Nat.min_le_right .., Nat.min_le_right ..⟩

/-- Folding and checking cost nothing. -/
theorem Offer.free (h : b.Offer a stack choice)
    (hkind : choice.kind = .fold ∨ choice.kind = .check) : choice.min = 0 := by
  cases h with
  | fold _ => rfl
  | call _ => simp at hkind
  | check _ => rfl
  | raise _ =>
    simp only at hkind
    split at hkind <;> simp at hkind

/-! ### Prices -/

/-- **What an action takes lies within the choice that describes it.** -/
theorem price_spec (h : price (b.choices who stack) who action = .ok paid) :
    ∃ choice ∈ b.choices who stack, choice.kind = action.kind ∧
      (∀ held, choice.Describes stack held action) ∧ choice.min ≤ paid ∧ paid ≤ choice.max := by
  unfold price at h
  simp only at h
  split at h
  · contradiction
  · rename_i choice hfind
    obtain ⟨hmem, hkind⟩ := find?_choices.1 hfind
    obtain ⟨-, a, -, hoffer⟩ := mem_choices.1 hmem
    refine ⟨choice, hmem, hkind, ?_⟩
    cases action with
    | fold =>
      obtain rfl := Except.ok.inj h
      exact ⟨fun _ ↦ hkind, Nat.le_of_eq (hoffer.free (Or.inl hkind)), Nat.zero_le _⟩
    | check =>
      obtain rfl := Except.ok.inj h
      exact ⟨fun _ ↦ hkind, Nat.le_of_eq (hoffer.free (Or.inr hkind)), Nat.zero_le _⟩
    | call =>
      obtain rfl := Except.ok.inj h
      refine ⟨fun _ ↦ hkind, Nat.le_refl _, ?_⟩
      cases hoffer with
      | raise _ =>
        simp only [Action.kind] at hkind
        split at hkind <;> contradiction
      | _ => exact Nat.le_refl _
    | bet chips | raise chips =>
      simp only at h
      split at h
      · contradiction
      · rename_i hrange
        obtain rfl := Except.ok.inj h
        rw [not_or, Nat.not_lt, Nat.not_lt] at hrange
        exact ⟨fun _ ↦ ⟨hkind, hrange⟩, hrange⟩
    | _ => contradiction

/-- The price of a bet or a raise is what the player names. -/
theorem price_raise {choices : List Choice} {chips : Nat}
    (haction : action = .bet chips ∨ action = .raise chips) (h : price choices who action = .ok paid) :
    paid = chips := by
  rw [price] at h
  split at h
  · contradiction
  · rcases haction with rfl | rfl
    all_goals
      dsimp only at h
      split at h
      · contradiction
      · exact (Except.ok.inj h).symm

/-- An action that a choice describes has a price. -/
theorem exists_price (hmem : choice ∈ b.choices who stack)
    (hdescribes : choice.Describes stack held action) (hshort : action ≠ .allIn) :
    ∃ paid, price (b.choices who stack) who action = .ok paid := by
  obtain ⟨-, a, -, hoffer⟩ := mem_choices.1 hmem
  have hfind : choice.kind = action.kind →
      (b.choices who stack).find? (·.kind == action.kind) = some choice :=
    fun hkind ↦ find?_choices.2 ⟨hmem, hkind⟩
  have hcards : ∀ kind, choice.kind = kind →
      kind ∈ [ActionKind.fold, .call, .check, .bet, .raise] := fun _ hkind ↦ hkind ▸ hoffer.kind_mem
  rw [price]
  cases action with
  | fold => exact ⟨0, by simp only [hfind hdescribes]⟩
  | check => exact ⟨0, by simp only [hfind hdescribes]⟩
  | call => exact ⟨choice.min, by simp only [hfind hdescribes]⟩
  | bet chips | raise chips =>
    obtain ⟨hkind, hmin, hmax⟩ := hdescribes
    refine ⟨chips, ?_⟩
    simp only [hfind hkind]
    rw [if_neg (by omega)]
  | allIn => contradiction
  | draw cards | discard cards | expose cards | pass cards => simpa using hcards _ hdescribes.1
  | declare d => simpa using hcards _ hdescribes

/-- Going all in is described like the call, bet or raise that it amounts to. -/
theorem describes_readAllIn (hmem : choice ∈ b.choices who stack) :
    choice.Describes stack held (b.readAllIn who stack) ↔ choice.Describes stack held .allIn := by
  obtain ⟨-, a, ha, hoffer⟩ := mem_choices.1 hmem
  rw [readAllIn, ha, Option.map_some, Option.getD_some]
  split
  · rename_i hshort
    cases hoffer with
    | raise hmay =>
      -- whoever cannot pay more than the call is offered no raise
      simp only [mayRaise, Bool.and_eq_true, decide_eq_true_eq] at hmay
      omega
    | _ => simp [Choice.Describes, hshort]
  · rename_i hdeep
    split
    · rename_i hlevel
      cases hoffer with
      | call _ =>
        simp only [Choice.Describes]
        omega
      | _ => simp [Choice.Describes, hlevel]
    · rename_i hlevel
      cases hoffer with
      | call _ =>
        simp only [Choice.Describes]
        omega
      | _ => simp [Choice.Describes, hlevel]

/-! ### Actions -/

/-- **An action is taken exactly if one of the choices describes it.** -/
theorem exists_act_iff (held : Nat) : (∃ r, b.act who action stack = .ok r) ↔
    ∃ choice ∈ b.choices who stack, choice.Describes stack held action := by
  let read := if action = .allIn then b.readAllIn who stack else action
  have hread : ∀ choice ∈ b.choices who stack,
      choice.Describes stack held read ↔ choice.Describes stack held action := by
    intro choice hmem
    by_cases hall : action = .allIn
    · simp only [read, if_pos hall]
      rw [describes_readAllIn hmem, hall]
    · simp only [read, if_neg hall]
  have hshort : read ≠ .allIn := by
    simp only [read]
    split
    · unfold readAllIn
      simp only
      repeat' split
      all_goals exact Action.noConfusion
    · assumption
  rw [act]
  simp only [bind, Except.bind, throw, throwThe, MonadExceptOf.throw, pure, Except.pure]
  constructor
  · rintro ⟨r, h⟩
    split at h
    · contradiction
    · split at h
      · contradiction
      · rename_i paid hprice
        obtain ⟨choice, hmem, -, hdescribes, -⟩ := price_spec hprice
        exact ⟨choice, hmem, (hread choice hmem).1 (hdescribes held)⟩
  · rintro ⟨choice, hmem, hdescribes⟩
    obtain ⟨hturn, a, ha, -⟩ := mem_choices.1 hmem
    obtain ⟨paid, hprice⟩ := exists_price hmem ((hread choice hmem).2 hdescribes) hshort
    obtain ⟨before, -, hi, -⟩ := exists_modify_eq ha
    have hplace : b.place? who = some before.length := hi
    rw [if_neg (not_not.2 hturn)]
    simp only [read] at hprice
    simp only [hprice, hplace]
    exact ⟨_, rfl⟩

end Betting

end DealersChoice
