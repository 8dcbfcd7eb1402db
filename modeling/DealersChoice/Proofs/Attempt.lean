import DealersChoice.Attempt
import DealersChoice.Total

/-!
# What attempts leave behind

The postcondition of an operation that may stop half-way has two parts: what holds once it has gone
through, and what holds where it has stopped. `Attempt.Meets` states both, and its rules follow the
combinators, so that the specification of a composite operation is put together from those of its
parts and never opens them.

`Attempt.Alike` compares two operations in the same way: they leave states behind that are related,
and they stop alike.
-/

namespace DealersChoice

namespace Attempt

variable {σ ε α : Type} {a : Attempt σ ε} {P Q : σ → Prop} {S S' : σ → ε → Prop} {s : σ}

/-- The state satisfies `Q` if `a` has gone through, and `S` holds of it and the error if not. -/
structure Meets (a : Attempt σ ε) (Q : σ → Prop) (S : σ → ε → Prop) : Prop where
  of_none : a.error? = none → Q a.state
  of_some : ∀ {e}, a.error? = some e → S a.state e

theorem Meets.of_done (h : Q s) : (done s : Attempt σ ε).Meets Q S :=
  ⟨fun _ ↦ h, fun he ↦ absurd he (Option.some_ne_none _).symm⟩

theorem Meets.of_stop {e : ε} (h : S s e) : (stop s e).Meets Q S :=
  ⟨fun hn ↦ absurd hn (Option.some_ne_none e), fun he ↦ Option.some.inj he ▸ h⟩

theorem Meets.mono (h : a.Meets P S) (hQ : ∀ s, P s → Q s) (hS : ∀ s e, S s e → S' s e) :
    a.Meets Q S' :=
  ⟨fun ha ↦ hQ _ (h.of_none ha), fun ha ↦ hS _ _ (h.of_some ha)⟩

/-- Nothing need be said of errors that cannot happen. -/
theorem Meets.sure (h : a.Meets Q fun _ _ ↦ False) : a.Meets Q S :=
  h.mono (fun _ h ↦ h) fun _ _ h ↦ h.elim

/-- What one specification leaves open, another one may settle. -/
theorem Meets.and (h : a.Meets P S) (h' : a.Meets Q S') :
    a.Meets (fun s ↦ P s ∧ Q s) fun s e ↦ S s e ∧ S' s e :=
  ⟨fun ha ↦ ⟨h.of_none ha, h'.of_none ha⟩, fun ha ↦ ⟨h.of_some ha, h'.of_some ha⟩⟩

/-- What holds either way holds of the state that is left behind. -/
theorem Meets.state (h : a.Meets Q fun s _ ↦ Q s) : Q a.state := by
  cases ha : a.error? with
  | none => exact h.of_none ha
  | some e => exact h.of_some ha

theorem Meets.of_state (h : Q a.state) : a.Meets Q fun s _ ↦ Q s :=
  ⟨fun _ ↦ h, fun _ ↦ h⟩

/-- An operation that cannot stop goes through. -/
theorem Meets.error?_eq_none (h : a.Meets Q fun _ _ ↦ False) : a.error? = none := by
  cases ha : a.error? with
  | none => rfl
  | some e => exact (h.of_some ha).elim

/-- An operation that goes through cannot stop. -/
theorem Meets.of_error?_eq_none (h : a.Meets Q S) (ha : a.error? = none) :
    a.Meets Q fun _ _ ↦ False :=
  ⟨h.of_none, fun he ↦ absurd (ha.symm.trans he) (Option.some_ne_none _).symm⟩

/-! ### One operation after another -/

theorem Meets.andThen {f : σ → Attempt σ ε} (h : a.Meets P S) (hf : ∀ s, P s → (f s).Meets Q S) :
    (a.andThen f).Meets Q S := by
  obtain ⟨s, - | e⟩ := a
  · exact hf s (h.of_none rfl)
  · exact of_stop (h.of_some rfl)

theorem Meets.thenDo {f : σ → σ} (h : a.Meets P S) (hf : ∀ s, P s → Q (f s)) :
    (a.thenDo f).Meets Q S :=
  h.andThen fun s hs ↦ Meets.of_done (hf s hs)

/-- What each operation of a list preserves, all of them preserve. -/
theorem Meets.forEach {l : List α} {f : α → σ → Attempt σ ε} (hs : P s)
    (hf : ∀ a ∈ l, ∀ s, P s → (f a s).Meets P S) : (Attempt.forEach l f s).Meets P S := by
  induction l generalizing s with
  | nil => exact of_done hs
  | cons a l ih =>
    exact (hf a (List.mem_cons_self ..) s hs).andThen fun t ht ↦
      ih ht fun b hb ↦ hf b (List.mem_cons_of_mem a hb)

/-- What an operation preserves, any number of runs of it preserves. -/
theorem Meets.times {f : σ → Attempt σ ε} (n : Nat) (hs : P s) (hf : ∀ s, P s → (f s).Meets P S) :
    (Attempt.times n f s).Meets P S := by
  induction n generalizing s with
  | zero => exact of_done hs
  | succ n ih => exact (hf s hs).andThen fun t ht ↦ ih ht

/-- What an operation adds to a size, `n` runs of it add `n` times. -/
theorem Meets.times_adds {f : σ → Attempt σ ε} {size : σ → Nat} {k : Nat}
    (hf : ∀ s, (f s).Meets (size · = size s + k) fun _ _ ↦ True) (n : Nat) (s : σ) :
    (Attempt.times n f s).Meets (size · = size s + n * k) fun _ _ ↦ True := by
  induction n generalizing s with
  | zero => exact of_done (by rw [Nat.zero_mul, Nat.add_zero])
  | succ n ih =>
    refine (hf s).andThen fun t ht ↦ (ih t).mono (fun u hu ↦ ?_) fun _ _ h ↦ h
    rw [hu, ht, Nat.succ_mul, Nat.add_assoc, Nat.add_comm k]

/-- What the operations of a list add to a size adds up. -/
theorem Meets.forEach_adds {f : α → σ → Attempt σ ε} {size : σ → Nat} {k : α → Nat}
    (hf : ∀ a s, (f a s).Meets (size · = size s + k a) fun _ _ ↦ True) (l : List α) (s : σ) :
    (Attempt.forEach l f s).Meets (size · = size s + total (l.map k)) fun _ _ ↦ True := by
  induction l generalizing s with
  | nil => exact of_done rfl
  | cons a l ih =>
    refine (hf a s).andThen fun t ht ↦ (ih t).mono (fun u hu ↦ ?_) fun _ _ h ↦ h
    rw [hu, ht, List.map_cons, total_cons, Nat.add_assoc]

/-! ### Two operations alike -/

section Alike

variable {τ : Type} {R : σ → τ → Prop} {seen : ε → ε} {b : Attempt τ ε} {t : τ}

/-- Two operations leave related states behind. They go through alike, or the second one stops with
the error of the first as it is `seen`. -/
structure Alike (R : σ → τ → Prop) (seen : ε → ε) (a : Attempt σ ε) (b : Attempt τ ε) : Prop where
  state : R a.state b.state
  error : b.error? = a.error?.map seen

theorem Alike.of_done (h : R s t) : Alike R seen (done s) (done t) :=
  ⟨h, rfl⟩

theorem Alike.of_stop {e e' : ε} (h : R s t) (he : e' = seen e) :
    Alike R seen (stop s e) (stop t e') :=
  ⟨h, congrArg some he⟩

theorem Alike.andThen {f : σ → Attempt σ ε} {k : τ → Attempt τ ε} (h : Alike R seen a b)
    (hf : ∀ s t, R s t → Alike R seen (f s) (k t)) : Alike R seen (a.andThen f) (b.andThen k) := by
  obtain ⟨s, - | e⟩ := a
  · obtain ⟨t, e?⟩ := b
    obtain rfl : e? = none := h.error
    exact hf s t h.state
  · obtain ⟨t, e?⟩ := b
    obtain rfl : e? = some (seen e) := h.error
    exact ⟨h.state, rfl⟩

theorem Alike.thenDo {f : σ → σ} {k : τ → τ} (h : Alike R seen a b)
    (hf : ∀ s t, R s t → R (f s) (k t)) : Alike R seen (a.thenDo f) (b.thenDo k) :=
  h.andThen fun s t hst ↦ .of_done (hf s t hst)

theorem Alike.forEach {l : List α} {f : α → σ → Attempt σ ε} {k : α → τ → Attempt τ ε}
    (h : R s t) (hf : ∀ a ∈ l, ∀ s t, R s t → Alike R seen (f a s) (k a t)) :
    Alike R seen (Attempt.forEach l f s) (Attempt.forEach l k t) := by
  induction l generalizing s t with
  | nil => exact of_done h
  | cons a l ih =>
    exact (hf a (List.mem_cons_self ..) s t h).andThen fun s' t' h' ↦
      ih h' fun b hb ↦ hf b (List.mem_cons_of_mem a hb)

theorem Alike.times {f : σ → Attempt σ ε} {k : τ → Attempt τ ε} (n : Nat) (h : R s t)
    (hf : ∀ s t, R s t → Alike R seen (f s) (k t)) :
    Alike R seen (Attempt.times n f s) (Attempt.times n k t) := by
  induction n generalizing s t with
  | zero => exact of_done h
  | succ n ih => exact (hf s t h).andThen fun s' t' h' ↦ ih h'

end Alike

end Attempt

end DealersChoice
