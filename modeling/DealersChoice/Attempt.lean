/-!
# Attempts

The outcome of an operation that may stop half-way: the state it leaves behind, and why it
stopped, if it did. Unlike a result that is either a state or an error, an attempt says what a
failed operation has changed.
-/

namespace DealersChoice

/-- What an operation leaves behind, and why it stopped. -/
structure Attempt (σ ε : Type) where
  state : σ
  error? : Option ε
  deriving DecidableEq

namespace Attempt

variable {σ ε : Type}

/-- An operation that has gone through. -/
def done (state : σ) : Attempt σ ε :=
  { state, error? := none }

/-- An operation that has stopped. -/
def stop (state : σ) (error : ε) : Attempt σ ε :=
  { state, error? := some error }

/-- Goes on with another operation, unless this one has stopped. -/
def andThen (a : Attempt σ ε) (f : σ → Attempt σ ε) : Attempt σ ε :=
  match a.error? with
  | none => f a.state
  | some _ => a

/-- Goes on with a change that cannot fail. -/
def thenDo (a : Attempt σ ε) (f : σ → σ) : Attempt σ ε :=
  a.andThen fun s ↦ done (f s)

/-- An operation for each element of a list, in turn. -/
def forEach {α : Type} (l : List α) (f : α → σ → Attempt σ ε) (s : σ) : Attempt σ ε :=
  match l with
  | [] => done s
  | a :: rest => (f a s).andThen (forEach rest f)

/-- An operation `n` times. -/
def times (n : Nat) (f : σ → Attempt σ ε) (s : σ) : Attempt σ ε :=
  match n with
  | 0 => done s
  | n + 1 => (f s).andThen (times n f)

theorem andThen_done (s : σ) (f : σ → Attempt σ ε) : (done s).andThen f = f s := rfl

theorem andThen_stop (s : σ) (e : ε) (f : σ → Attempt σ ε) :
    (stop s e).andThen f = stop s e := rfl

end Attempt

end DealersChoice
