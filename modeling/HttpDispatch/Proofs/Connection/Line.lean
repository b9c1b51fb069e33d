import HttpDispatch.Proofs.Agreement
import HttpDispatch.Proofs.Connection.Cut
import HttpDispatch.Proofs.Text.Utf8

/-!
# Lines that are read as they were written

`Reader.Holds.readLine`: a line that has been written with its end is read as the text that it is,
and exactly what follows its end is left in the reader. This does not depend on how much of the line
is at hand, on the pieces in which the source delivers the others, or on how the source ends.
Nothing else is read as a line of text (`Reader.eq_append_of_readLine`), and readers with the same
outlook read the same (`Reader.agrees_readLine`).
-/

namespace HttpDispatch

inductive LineEnd where
  | bare
  | withReturn
deriving DecidableEq, Repr

def LineEnd.bytes : LineEnd → Bytes
  | .bare => [lineFeed]
  | .withReturn => [carriageReturn, lineFeed]

namespace Reader

variable {r : Reader} {rest : Bytes} {failure : Option IoError}

theorem Holds.takeLine {line : Bytes} {most : Nat} (h : r.Holds (line ++ lineFeed :: rest) failure)
    (hline : lineFeed ∉ line) (hmost : line.length < most) :
    ∃ r', r.takeLine most = (.ok (line ++ [lineFeed]), r') ∧ r'.Holds rest failure := by
  obtain ⟨hresult, hrest⟩ := h.takeLine_eq most
  rw [takenLine_of_lineFeed hline hmost] at hresult hrest
  exact ⟨_, Prod.ext hresult rfl, hrest⟩

theorem dropReturn_concat (b : Bytes) : dropReturn (b ++ [carriageReturn]) = b := by
  rw [dropReturn, if_pos List.getLast?_concat, List.dropLast_concat]

/-- A line of text is read as that text, and what follows its end is left. A line that ends at a
line feed alone must not end in a carriage return, which would be taken for a part of its end. -/
theorem Holds.readLine {s : String} {e : LineEnd} {max : Nat}
    (h : r.Holds (Text.encode s ++ e.bytes ++ rest) failure) (hline : '\n' ∉ s.toList)
    (hlast : s.toList.getLast? ≠ some '\r') (hmax : (Text.encode s).length ≤ max) :
    ∃ r', r.readLine max = (.ok (.text s), r') ∧ r'.Holds rest failure := by
  have hfeed : lineFeed ∉ Text.encode s :=
    fun hmem => hline (Text.mem_of_mem_encode hmem (by decide))
  -- the line as it is taken, with a carriage return at its end or without
  obtain ⟨line, hbytes, hnot, hlen, hdrop⟩ : ∃ line : Bytes,
      Text.encode s ++ e.bytes = line ++ [lineFeed] ∧ lineFeed ∉ line ∧ line.length < max + 2 ∧
        dropReturn line = Text.encode s := by
    cases e with
    | bare =>
        refine ⟨Text.encode s, rfl, hfeed, by omega, ?_⟩
        exact if_neg fun hreturn => hlast (Text.getLast?_of_getLast?_encode hreturn (by decide))
    | withReturn =>
        refine ⟨Text.encode s ++ [carriageReturn], ?_, ?_, ?_, dropReturn_concat _⟩
        · rw [List.append_assoc]
          rfl
        · simpa [hfeed] using (by decide : lineFeed ≠ carriageReturn)
        · rw [List.length_append, List.length_singleton]
          omega
  rw [hbytes, List.append_assoc] at h
  obtain ⟨r', htaken, h'⟩ := h.takeLine hnot hlen
  refine ⟨r', ?_, h'⟩
  rw [Reader.readLine, htaken]
  dsimp only
  rw [if_neg (by simp), if_neg (by simp), List.dropLast_concat, hdrop, if_neg (Nat.not_lt.2 hmax),
    Text.decode?_encode]

/-- A line without the carriage return of its end has been written with one of the two ends. -/
theorem eq_append_of_dropReturn {line s : Bytes} (h : dropReturn line = s) :
    ∃ e : LineEnd, line ++ [lineFeed] = s ++ e.bytes ∧ s <+: line ∧
      (e = .bare → s.getLast? ≠ some carriageReturn) := by
  unfold dropReturn at h
  split at h
  · next hlast =>
    obtain ⟨before, rfl⟩ := List.getLast?_eq_some_iff.1 hlast
    rw [List.dropLast_concat] at h
    subst h
    exact ⟨.withReturn, by rw [LineEnd.bytes, List.append_assoc, List.singleton_append],
      List.prefix_append _ _, nofun⟩
  · next hlast =>
    subst h
    exact ⟨.bare, rfl, List.prefix_refl _, fun _ => hlast⟩

/-- What is read as a line of text has been written as that line, and is no longer than allowed. -/
theorem eq_append_of_readLine {r' : Reader} {s : String} {max : Nat}
    (h : r.readLine max = (.ok (.text s), r')) :
    ∃ e : LineEnd, r.rest = Text.encode s ++ e.bytes ++ r'.rest ∧ '\n' ∉ s.toList ∧
      (e = .bare → s.toList.getLast? ≠ some '\r') ∧ (Text.encode s).length ≤ max := by
  obtain ⟨hresult, hrest⟩ := (⟨rfl, rfl⟩ : r.Holds r.rest r.source.failure).takeLine_eq (max + 2)
  unfold Reader.readLine at h
  split at h
  · cases h
  · next taken r₁ htaken =>
    rw [htaken] at hresult hrest
    have hcut : takenLine r.rest r.source.failure (max + 2) = (.ok taken, r₁.rest) :=
      Prod.ext hresult.symm hrest.rest_eq.symm
    rw [Prod.mk.injEq, Except.ok.injEq] at h
    obtain ⟨h, rfl⟩ := h
    split at h
    · cases h
    split at h
    · split at h <;> cases h
    · next hlast =>
      obtain ⟨line, rfl, hline, hall⟩ := eq_append_of_takenLine hcut (Decidable.not_not.1 hlast)
      rw [List.dropLast_concat] at h
      dsimp only at h
      split at h
      · cases h
      · next hmax =>
        split at h
        · next s' hdecode =>
          cases h
          have hencode := Text.encode_of_decode? hdecode
          obtain ⟨e, hwritten, hbegins, hbare⟩ := eq_append_of_dropReturn hencode.symm
          refine ⟨e, ?_, ?_, ?_, ?_⟩
          · rw [hall, ← hwritten, List.append_assoc, List.singleton_append]
          · exact fun hmem => hline (hbegins.subset (Text.ofNat_mem_encode hmem (by decide)))
          · exact fun he hreturn => hbare he (Text.getLast?_encode hreturn (by decide))
          · rw [hencode]
            exact Nat.le_of_not_lt hmax
        · cases h

def outlook (r : Reader) : Bytes × Option IoError := (r.rest, r.source.failure)

/-- Readers with the same outlook read the same line, and have the same outlook after it. -/
theorem agrees_readLine {r' : Reader} (h : r.outlook = r'.outlook) (max : Nat) :
    Agrees outlook (r.readLine max) (r'.readLine max) := by
  obtain ⟨hrest, hfailure⟩ := Prod.mk.inj h
  obtain ⟨hresult, hleft⟩ := (⟨rfl, rfl⟩ : r.Holds r.rest r.source.failure).takeLine_eq (max + 2)
  obtain ⟨hresult', hleft'⟩ :=
    (⟨hrest.symm, hfailure.symm⟩ : r'.Holds r.rest r.source.failure).takeLine_eq (max + 2)
  have htaken : Agrees outlook (r.takeLine (max + 2)) (r'.takeLine (max + 2)) :=
    ⟨hresult.trans hresult'.symm, Prod.ext (hleft.rest_eq.trans hleft'.rest_eq.symm)
      (hleft.failure_eq.trans hleft'.failure_eq.symm)⟩
  unfold Reader.readLine
  refine htaken.elim fun taken s t hst => ?_
  cases taken with
  | error e => exact .of_eq hst
  | ok taken => exact .of_eq hst

end Reader

end HttpDispatch
