import HttpDispatch.EventStream.Session
import HttpDispatch.Proofs.Exchange.Moves

/-!
# Event streams and their writer

An emitter that sends calls its writer, one that does not leaves the writer alone, and none ever
starts sending again (`Emitter.Advances`). Acts on an event stream reach the writer through its
emitter only, so every task does to the writer what the emitter allows. What an emitter does to the
writer of an exchange that it belongs to (`Emitter.Fits`) is a move of that exchange.
-/

namespace HttpDispatch

structure Emitter.Advances (e e' : Emitter) : Prop where
  out : e.state = .sending → e.out.Moves e'.out
  silent : e.state ≠ .sending → e'.out = e.out
  state : e'.state = .sending → e.state = .sending

namespace Emitter

variable {e e' e'' : Emitter}

theorem Advances.refl (e : Emitter) : e.Advances e := ⟨fun _ => .refl, fun _ => rfl, id⟩

theorem Advances.trans (h : e.Advances e') (h' : e'.Advances e'') : e.Advances e'' := by
  refine ⟨?_, ?_, fun hs => h.state (h'.state hs)⟩
  · intro hs
    by_cases hs' : e'.state = .sending
    · exact (h.out hs).trans (h'.out hs')
    · rw [h'.silent hs']
      exact h.out hs
  · intro hs
    rw [h'.silent (fun hs' => hs (h.state hs')), h.silent hs]

theorem Advances.of_moves (hs : e.state = .sending) (h : e.out.Moves e'.out) : e.Advances e' :=
  ⟨fun _ => h, fun hne => absurd hs hne, fun _ => hs⟩

theorem advances_emit (e : Emitter) (b : Block) : e.Advances (e.emit b).2 := by
  unfold emit
  cases hs : e.state with
  | shut => exact .refl e
  | muted => exact .refl e
  | sending =>
      have hw := Writer.Move.writeAll e.out b.bytes
      simp only
      rcases hr : e.out.writeAll b.bytes with ⟨cause | ⟨⟩, out⟩ <;> rw [hr] at hw
      · exact .of_moves hs (.single hw)
      · have hf := Writer.Move.flush out
        simp only
        rcases hr' : out.flush with ⟨cause | ⟨⟩, out'⟩ <;> rw [hr'] at hf
        · exact .of_moves hs (.tail (.single hw) hf)
        · exact .of_moves hs (.tail (.single hw) hf)

theorem advances_close (e : Emitter) : e.Advances e.close.2 := by
  unfold close
  cases hs : e.state with
  | shut => exact .refl e
  | muted =>
      refine ⟨fun _ => .refl, fun _ => rfl, ?_⟩
      intro h
      cases h
  | sending =>
      have hf := Writer.Move.flush e.out
      simp only
      rcases hr : e.out.flush with ⟨cause | ⟨⟩, out⟩ <;> rw [hr] at hf
      · exact .of_moves hs (.single hf)
      · exact .of_moves hs (.single hf)

/-- An emitter belongs to an exchange whose head has been sent, and sends only if there is to be a
body. -/
def Fits (e : Emitter) (x : Exchange) : Prop :=
  x.headersSent = true ∧ (e.state = .sending → x.isHead = false)

theorem Fits.of_advances {x y : Exchange} (h : e.Fits x)
    (ha : e.Advances e') (hm : x.Moves y) : e'.Fits y := by
  refine ⟨hm.headersSent_mono h.1, ?_⟩
  intro hs
  rw [hm.isHead_eq]
  exact h.2 (ha.state hs)

/-- What an emitter has done to its writer and reported is a move of its exchange. -/
theorem Fits.moves {x : Exchange} (h : e.Fits x) (hout : e.out = x.out) (ha : e.Advances e') :
    x.Moves { x with out := e'.out, log := e'.log } := by
  have hlog : ∀ y : Exchange, y.Moves { y with log := e'.log } := fun y =>
    .single (.inside y y.body y.attributes y.detached e'.log)
  by_cases hs : e.state = .sending
  · have hw := ha.out hs
    rw [hout] at hw
    exact .head (.body x e'.out h.1 (h.2 hs) hw) (hlog _)
  · have hw := ha.silent hs
    rw [hout] at hw
    rw [hw]
    exact hlog x

end Emitter

namespace EventStream

variable {κ α : Type}

theorem advances_reported (s : EventStream κ) (e : LogEvent) :
    s.emitter.Advances (s.reported e).emitter :=
  ⟨fun _ => .refl, fun _ => rfl, fun h => h⟩

theorem advances_perform (s : EventStream κ) (a : Act κ) :
    s.emitter.Advances (s.perform a).2.emitter := by
  cases a with
  | emit b => exact Emitter.advances_emit s.emitter b
  | shut => exact Emitter.advances_close s.emitter
  | report e => exact advances_reported s e
  | register c =>
      simp only [perform]
      split
      · exact .refl _
      · exact .refl _
  | release =>
      simp only [perform]
      split
      · exact .refl _
      · split
        · exact .refl _
        · exact advances_reported { s with armed := false, signals := s.signals + 1 } _
  | look => exact .refl _
  | mark => exact .refl _
  | take => exact .refl _
  | run c => exact .refl _
  | leave => exact .refl _

/-- Whatever a task is made of, it does no more to the writer than the emitter allows. -/
theorem advances_run (t : Task κ α) (s : EventStream κ) :
    s.emitter.Advances (t.run s).2.emitter := by
  induction t generalizing s with
  | done a => exact .refl _
  | act a next ih => exact (advances_perform s a).trans (ih _ _)

theorem advances_call (s : EventStream κ) (c : Call κ) : s.emitter.Advances (s.call c).2.emitter :=
  advances_run _ s

theorem advances_drop (s : EventStream κ) : s.emitter.Advances s.drop.emitter :=
  advances_run _ s

end EventStream

end HttpDispatch
