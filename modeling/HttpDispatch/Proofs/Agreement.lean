import HttpDispatch.Attempt

/-!
# What does not depend on a part of the state

A view of a state leaves a part of it out. Two outcomes agree if they have the same result and leave
states that look the same. An operation whose outcomes from states that look the same always agree
does not read the part that is left out; operations that are put together from such ones do not read
it either.
-/

namespace HttpDispatch

variable {S T V W ε δ α β : Type} {u : S → V}

namespace Attempt

def map (f : α → β) (r : Attempt S ε α) : Attempt S ε β := r.andThen fun a s => (.ok (f a), s)

theorem map_andThen {γ : Type} (r : Attempt S ε α) (f : α → S → Attempt S ε β) (g : β → γ) :
    (r.andThen f).map g = r.andThen fun a s => (f a s).map g := by
  rcases r with ⟨e | a, s⟩
  · rfl
  · rfl

end Attempt

/-- The same result, and states that look the same. -/
structure Agrees (u : S → V) (p q : α × S) : Prop where
  result : p.1 = q.1
  state : u p.2 = u q.2

namespace Agrees

variable {p q : Attempt S ε α} {s t : S}

theorem of_eq {a : α} (h : u s = u t) : Agrees u (a, s) (a, t) := ⟨rfl, h⟩

@[elab_as_elim]
theorem elim {p q : α × S} {C : α × S → α × S → Prop} (h : Agrees u p q)
    (hc : ∀ a s t, u s = u t → C (a, s) (a, t)) : C p q := by
  obtain ⟨a, s⟩ := p
  obtain ⟨b, t⟩ := q
  obtain ⟨rfl, hst⟩ := h
  exact hc _ s t hst

theorem mapError (h : Agrees u p q) (f : ε → δ) : Agrees u (p.mapError f) (q.mapError f) := by
  refine h.elim fun a s t hst => ?_
  cases a with
  | error e => exact of_eq hst
  | ok a => exact of_eq hst

theorem andThen {f g : α → S → Attempt S ε β} (h : Agrees u p q)
    (hf : ∀ a s t, u s = u t → Agrees u (f a s) (g a t)) :
    Agrees u (p.andThen f) (q.andThen g) := by
  refine h.elim fun a s t hst => ?_
  cases a with
  | error e => exact of_eq hst
  | ok a => exact hf a s t hst

theorem inside {v : T → W} {put put' : S → T} (h : Agrees u p q)
    (hput : ∀ s t, u s = u t → v (put s) = v (put' t)) :
    Agrees v (p.inside put) (q.inside put') :=
  ⟨h.result, hput _ _ h.state⟩

theorem ite {c : Prop} [Decidable c] {p q p' q' : α × S} (h : c → Agrees u p q)
    (h' : ¬ c → Agrees u p' q') : Agrees u (if c then p else p') (if c then q else q') := by
  by_cases hc : c
  · rw [if_pos hc, if_pos hc]
    exact h hc
  · rw [if_neg hc, if_neg hc]
    exact h' hc

end Agrees

end HttpDispatch
