import HttpDispatch.Attempt
import Mathlib.Order.Defs.Unbundled

/-!
# What attempts achieve

An attempt leaves a state behind even if it fails. What is known about it has two parts, therefore:
how that state goes on from the one that the attempt was made on, whatever the result, and what
holds beyond that if there is a good one. `Attempt.Meets` states both, and attempts that follow each
other are taken together by `Attempt.Meets.andThen`.
-/

namespace HttpDispatch.Attempt

variable {S T ε δ α β : Type} {M : S → S → Prop} {s : S}

/-- The attempt, made on `s`, leaves a state that `M` allows after `s`; if it succeeds, its result
and the state meet `Q`. -/
structure Meets (M : S → S → Prop) (s : S) (r : Attempt S ε α) (Q : α → S → Prop) : Prop where
  moves : M s r.2
  post : ∀ a, r.1 = .ok a → Q a r.2

variable {r : Attempt S ε α} {Q : α → S → Prop}

theorem meets_ok {a : α} {t : S} (hm : M s t) (hq : Q a t) :
    Meets M s ((.ok a, t) : Attempt S ε α) Q := by
  refine ⟨hm, ?_⟩
  rintro a' ⟨⟩
  exact hq

theorem meets_error {e : ε} {t : S} (hm : M s t) :
    Meets M s ((.error e, t) : Attempt S ε α) Q := by
  refine ⟨hm, ?_⟩
  rintro a ⟨⟩

theorem meets_of_moves (h : M s r.2) : Meets M s r fun _ _ => True :=
  ⟨h, fun _ _ => trivial⟩

theorem Meets.mono {Q' : α → S → Prop} (h : Meets M s r Q) (hq : ∀ a t, M s t → Q a t → Q' a t) :
    Meets M s r Q' :=
  ⟨h.moves, fun a ha => hq a _ h.moves (h.post a ha)⟩

theorem Meets.mapError (h : Meets M s r Q) (f : ε → δ) : Meets M s (r.mapError f) Q := by
  obtain ⟨e | a, t⟩ := r
  · exact meets_error h.moves
  · exact meets_ok h.moves (h.post a rfl)

/-- An attempt that goes on with `f` meets what `f` meets after it. -/
theorem Meets.andThen [IsTrans S M] {f : α → S → Attempt S ε β} {Q' : β → S → Prop}
    (h : Meets M s r Q) (hf : ∀ a t, M s t → Q a t → Meets M t (f a t) Q') :
    Meets M s (r.andThen f) Q' := by
  obtain ⟨e | a, t⟩ := r
  · exact meets_error h.moves
  · have h' := hf a t h.moves (h.post a rfl)
    exact ⟨IsTrans.trans _ _ _ h.moves h'.moves, h'.post⟩

/-- What an attempt meets after a first step that never fails. -/
theorem Meets.after [IsTrans S M] {t : S} (h : Meets M t r Q) (hm : M s t) : Meets M s r Q :=
  ⟨IsTrans.trans _ _ _ hm h.moves, h.post⟩

theorem Meets.inside {N : T → T → Prop} {t : T} {put : S → T} {Q' : α → T → Prop}
    (h : Meets M s r Q) (hm : ∀ u, M s u → N t (put u)) (hq : ∀ a u, Q a u → Q' a (put u)) :
    Meets N t (r.inside put) Q' :=
  ⟨hm _ h.moves, fun a ha => hq a _ (h.post a ha)⟩

theorem exists_of_andThen_eq_ok {f : α → S → Attempt S ε β} {b : β} {t : S}
    (h : r.andThen f = (.ok b, t)) : ∃ a u, r = (.ok a, u) ∧ f a u = (.ok b, t) := by
  obtain ⟨e | a, u⟩ := r
  · cases h
  · exact ⟨a, u, rfl, h⟩

end HttpDispatch.Attempt
