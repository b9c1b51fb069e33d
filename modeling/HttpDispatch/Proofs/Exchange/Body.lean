import HttpDispatch.Exchange.Basic
import HttpDispatch.Proofs.Connection.Source

/-!
# Bodies that are read as they were sent

`RequestBody.Holds`: the bytes of a body that are still to come. However a body is read, each read
takes the next of them (`RequestBody.Holds.read`), and reading everything gives all of them
(`RequestBody.Holds.readAll`). Nothing that follows the body in the reader is touched.
-/

namespace HttpDispatch

namespace RequestBody

/-- The bytes of the body that are still to come are `b`, and none of the reads before the last of
them fails. A body that is cut short is held if the reader ends without a failure. -/
def Holds (body : RequestBody) (b : Bytes) : Prop :=
  match body with
  | held rest => rest = b
  | bounded left reader => ∃ all failure, reader.Holds all failure ∧ b = all.take left ∧
      (left ≤ all.length ∨ failure = none)

variable {body : RequestBody} {b : Bytes}

/-- A read takes the next bytes of the body, some at least if there are any. -/
theorem Holds.read (h : body.Holds b) {n : Nat} (hn : 0 < n) :
    ∃ c b' body', body.read n = (.ok c, body') ∧ b = c ++ b' ∧ (b ≠ [] → c ≠ []) ∧ c.length ≤ n ∧
      body'.Holds b' := by
  cases body with
  | held rest =>
      refine ⟨rest.take n, rest.drop n, _, rfl, ?_, ?_, List.length_take_le _ _, rfl⟩
      · rw [List.take_append_drop]
        exact h.symm
      · intro hb
        rw [Ne, List.take_eq_nil_iff, show rest = b from h]
        exact not_or.2 ⟨Nat.ne_of_gt hn, hb⟩
  | bounded left reader =>
      obtain ⟨all, failure, hreader, rfl, hend⟩ := h
      unfold RequestBody.read
      dsimp only
      split
      · next hleft =>
        rw [hleft, List.take_zero]
        refine ⟨[], [], _, rfl, rfl, id, Nat.zero_le n,
          all, failure, hreader, rfl, .inl (Nat.zero_le _)⟩
      · next hleft =>
        by_cases hall : all = []
        · subst hall
          have hnone : failure = none := hend.resolve_left (by simpa using hleft)
          subst hnone
          rw [hreader.read_nil, List.take_nil]
          exact ⟨[], [], _, rfl, rfl, id, Nat.zero_le n,
            [], none, hreader, List.take_nil.symm, .inr rfl⟩
        · obtain ⟨c, all', reader', hread, rfl, hc, hlen, hreader'⟩ :=
            hreader.read hall (Nat.lt_min.2 ⟨hn, Nat.pos_of_ne_zero hleft⟩)
          obtain ⟨hlen, hlen'⟩ := Nat.le_min.1 hlen
          rw [hread, List.take_append, List.take_of_length_le hlen']
          refine ⟨c, _, _, rfl, rfl, fun _ => hc, hlen, all', failure, hreader', rfl, ?_⟩
          refine hend.imp_left fun hend => ?_
          rw [List.length_append] at hend
          omega

theorem readBounded_of_holds {left : Nat} {reader : Reader} {all : Bytes} {failure : Option IoError}
    (h : reader.Holds all failure) (hend : left ≤ all.length ∨ failure = none) :
    (readBounded left reader).1 = .ok (all.take left) := by
  induction left using Nat.strongRecOn generalizing reader all with
  | ind left ih =>
      unfold readBounded
      split
      · next hleft => rw [hleft, List.take_zero]
      · next hleft =>
        have hpos : 0 < left := Nat.pos_of_ne_zero hleft
        by_cases hall : all = []
        · subst hall
          have hnone : failure = none := hend.resolve_left (by simpa using hleft)
          subst hnone
          rw [h.read_nil, List.take_nil]
        · obtain ⟨c, all', reader', hread, rfl, hc, hlen, h'⟩ :=
            h.read hall (Nat.lt_min.2 ⟨(by decide : 0 < pieceSize), hpos⟩)
          obtain ⟨x, c, rfl⟩ := List.exists_cons_of_ne_nil hc
          have hlen' := (Nat.le_min.1 hlen).2
          have hrest := ih (left - (x :: c).length) (by simp only [List.length_cons]; omega) h'
            (hend.imp_left fun hend => by rw [List.length_append] at hend; omega)
          rw [hread, List.take_append, List.take_of_length_le hlen']
          dsimp only
          generalize readBounded _ reader' = result at hrest ⊢
          obtain ⟨result, left', reader''⟩ := result
          dsimp only at hrest
          rw [hrest]

/-- Reading everything gives the whole body. -/
theorem Holds.readAll (h : body.Holds b) : body.readAll.1 = .ok b := by
  cases body with
  | held rest => exact congrArg _ h
  | bounded left reader =>
      obtain ⟨all, failure, hreader, rfl, hend⟩ := h
      exact readBounded_of_holds hreader hend

end RequestBody

end HttpDispatch
