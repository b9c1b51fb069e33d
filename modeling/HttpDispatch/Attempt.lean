import HttpDispatch.Error

/-!
# Attempts

An operation on a state may fail, and may have changed the state all the same: a write that breaks
off has delivered what came before. An attempt is therefore the result together with the state that
is left behind, and `andThen` goes on from that state if the result is good.
-/

namespace HttpDispatch

/-- What an operation on an `S` comes to: a result, and the state it leaves behind. -/
abbrev Attempt (S ε α : Type) := Except ε α × S

namespace Attempt

variable {S T ε δ α β : Type}

def andThen (r : Attempt S ε α) (f : α → S → Attempt S ε β) : Attempt S ε β :=
  match r with
  | (.ok a, s) => f a s
  | (.error e, s) => (.error e, s)

def mapError (f : ε → δ) (r : Attempt S ε α) : Attempt S δ α :=
  match r with
  | (.ok a, s) => (.ok a, s)
  | (.error e, s) => (.error (f e), s)

/-- The same attempt seen as one on a larger state. -/
def inside (put : S → T) (r : Attempt S ε α) : Attempt T ε α := (r.1, put r.2)

@[simp]
theorem andThen_ok (a : α) (s : S) (f : α → S → Attempt S ε β) : andThen (.ok a, s) f = f a s := rfl

@[simp]
theorem andThen_error (e : ε) (s : S) (f : α → S → Attempt S ε β) :
    andThen (.error e, s) f = (.error e, s) := rfl

@[simp]
theorem snd_mapError (f : ε → δ) (r : Attempt S ε α) : (r.mapError f).2 = r.2 := by
  rcases r with ⟨_ | _, s⟩ <;> rfl

theorem andThen_preserves {P : S → Prop} {r : Attempt S ε α} {f : α → S → Attempt S ε β}
    (hr : P r.2) (hf : ∀ a s, r = (.ok a, s) → P s → P (f a s).2) : P (r.andThen f).2 := by
  rcases r with ⟨e | a, s⟩
  · exact hr
  · exact hf a s rfl hr

end Attempt

end HttpDispatch
