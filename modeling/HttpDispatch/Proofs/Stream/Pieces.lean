import HttpDispatch.Proofs.Connection.Source
import HttpDispatch.Proofs.Connection.Writer
import HttpDispatch.Stream.Range

/-!
# Copying piece by piece

A copy reads one piece after the other and writes each as a whole (`Copy.Passes`), until nothing is
left to copy or a call on the source or the writer ends it (`Copy.Ends`). Together the two say all
that a copy does, and which pieces it counts.

What arrives of a copy is what the writer takes of the bytes that were asked for, as if it had been
given them at once. So it depends neither on the size of the pieces nor on what the single reads
deliver, whether or not something fails. The rest of the account of a copy (`Copy.Accounts`) is read
off how it ended, and every copy has one (`Copy.accounts_copyRange`). The memory that pieces are
read into is taken for granted.
-/

namespace HttpDispatch.Copy

/-- From `c`, with `remaining` bytes to go, to `d`, with `left` bytes to go: the pieces, none of
them longer than `most`, are read one after the other, and each is written as a whole. -/
inductive Passes (most : Nat) : Copy → Nat → List Bytes → Copy → Nat → Prop
  | refl (c : Copy) (remaining : Nat) : Passes most c remaining [] c remaining
  | step {c d : Copy} {remaining left : Nat} {b : Bytes} {pieces : List Bytes} {source : Source}
    {out : Writer}
    (hread : c.source.read (min remaining most) = (.ok b, source)) (hb : b ≠ [])
    (hwrite : c.out.writeAll b = (.ok (), out))
    (h : Passes most { c with source, out } (remaining - b.length) pieces d left) :
    Passes most c remaining (b :: pieces) d left

/-- What a copy of `total` bytes comes to that has got as far as `c`: `written` bytes have been
written in whole pieces, and no further piece follows them. -/
inductive Ends (total most : Nat) (c : Copy) (written : Nat) :
    Nat → Attempt Copy IoError CopyResult → Prop
  | delivered {out : Writer} (h : c.out.flush = (.ok (), out)) :
    Ends total most c written 0 (.ok ⟨written, true⟩, { c with out })
  | undelivered {e : IoError} {out : Writer} (h : c.out.flush = (.error e, out)) :
    Ends total most c written 0 ({ c with out }.stop written (.rangeFlushFailed e written))
  | unread {left : Nat} {e : IoError} {source : Source} (hleft : left ≠ 0)
    (h : c.source.read (min left most) = (.error e, source)) :
    Ends total most c written left (.error e, { c with source })
  | ended {left : Nat} {source : Source} (hleft : left ≠ 0)
    (h : c.source.read (min left most) = (.ok [], source)) :
    Ends total most c written left ({ c with source }.stop written (.sourceEnded total written))
  | refused {left : Nat} {b : Bytes} {e : IoError} {source : Source} {out : Writer}
    (hread : c.source.read (min left most) = (.ok b, source)) (hb : b ≠ [])
    (hwrite : c.out.writeAll b = (.error e, out)) :
    Ends total most c written left
      ({ c with source, out }.stop written (.rangeWriteFailed e written total))

variable {c d : Copy} {total most piece remaining left written : Nat} {pieces : List Bytes}
  {r : Attempt Copy IoError CopyResult}

/-- A copy passes on pieces, and then it ends. -/
theorem exists_passes_run (c : Copy) (total piece remaining written : Nat) :
    ∃ pieces d left, Passes (piece + 1) c remaining pieces d left ∧
      d.Ends total (piece + 1) (written + pieces.flatten.length) left
        (c.run total piece remaining written) := by
  induction c, remaining, written using Copy.run.induct piece with
  | case1 c written out hflush =>
      rw [run, if_pos rfl, hflush]
      exact ⟨[], c, 0, .refl c 0, .delivered hflush⟩
  | case2 c written e out hflush =>
      rw [run, if_pos rfl, hflush]
      exact ⟨[], c, 0, .refl c 0, .undelivered hflush⟩
  | case3 c remaining written hne e source hread =>
      rw [run, if_neg hne, hread]
      exact ⟨[], c, remaining, .refl c remaining, .unread hne hread⟩
  | case4 c remaining written hne source hread =>
      rw [run, if_neg hne, hread]
      exact ⟨[], c, remaining, .refl c remaining, .ended hne hread⟩
  | case5 c remaining written hne b bs source hread e out hwrite =>
      rw [run, if_neg hne, hread]
      dsimp only
      rw [hwrite]
      exact ⟨[], c, remaining, .refl c remaining, .refused hread (List.cons_ne_nil b bs) hwrite⟩
  | case6 c remaining written hne b bs source hread out hwrite ih =>
      obtain ⟨pieces, d, left, hpasses, hends⟩ := ih
      rw [run, if_neg hne, hread]
      dsimp only
      rw [hwrite]
      refine ⟨(b :: bs) :: pieces, d, left, .step hread (List.cons_ne_nil b bs) hwrite hpasses, ?_⟩
      rwa [List.flatten_cons, List.length_append, ← Nat.add_assoc]

theorem piece_bounds {s s' : Source} {b : Bytes} (hread : s.read (min left most) = (.ok b, s'))
    (hb : b ≠ []) : 0 < b.length ∧ b.length ≤ left :=
  ⟨List.length_pos_iff.2 hb, (Nat.le_min.1 (Source.length_le_of_read_ok hread)).1⟩

/-!
## Pieces that are passed on
-/

namespace Passes

theorem rest_eq (h : Passes most c remaining pieces d left) :
    c.source.rest = pieces.flatten ++ d.source.rest := by
  induction h with
  | refl => rfl
  | step hread _ _ _ ih =>
      rw [List.flatten_cons, List.append_assoc, ← ih]
      exact Source.rest_eq_of_read_ok hread

theorem length_add_left (h : Passes most c remaining pieces d left) :
    pieces.flatten.length + left = remaining := by
  induction h with
  | refl => exact Nat.zero_add _
  | step hread hb _ _ ih =>
      have hbounds := piece_bounds hread hb
      rw [List.flatten_cons, List.length_append]
      omega

theorem take_rest_eq (h : Passes most c remaining pieces d left) :
    c.source.rest.take remaining = pieces.flatten ++ d.source.rest.take left := by
  rw [h.rest_eq, ← h.length_add_left, List.take_length_add_append]

theorem out_eq (h : Passes most c remaining pieces d left) :
    d.out = c.out.receive pieces.flatten := by
  induction h with
  | refl => exact (Writer.receive_nil _).symm
  | step _ _ hwrite _ ih =>
      rw [ih, Writer.eq_receive_of_writeAll_ok hwrite, Writer.receive_receive, List.flatten_cons]

theorem taken_append (h : Passes most c remaining pieces d left) (more : Bytes) :
    c.out.taken (pieces.flatten ++ more) = pieces.flatten ++ d.out.taken more := by
  induction h with
  | refl => rfl
  | @step c _ _ _ b _ _ _ _ _ hwrite _ ih =>
      have hall : c.out.taken b = b := Writer.taken_of_writeAll_ok (by rw [hwrite])
      rw [Writer.eq_receive_of_writeAll_ok hwrite] at ih
      rw [List.flatten_cons, List.append_assoc, Writer.taken_append, hall, ih, List.append_assoc]

theorem failure_eq (h : Passes most c remaining pieces d left) :
    d.source.failure = c.source.failure := by
  induction h with
  | refl => rfl
  | @step c _ remaining _ _ _ _ _ hread _ _ _ ih =>
      have hkept := c.source.failure_read (min remaining most)
      rw [hread] at hkept
      exact ih.trans hkept

theorem reads_le (h : Passes most c remaining pieces d left) :
    d.source.reads ≤ c.source.reads + pieces.flatten.length := by
  induction h with
  | refl => exact Nat.le_refl _
  | step hread hb _ _ ih =>
      have hfirst := Source.reads_le_of_read hread
      have hpos := List.length_pos_iff.2 hb
      dsimp only at ih
      rw [List.flatten_cons, List.length_append]
      omega

end Passes

/-!
## The end of a copy
-/

namespace Ends

/-- What arrives in the end is what the writer takes of the bytes that are left. It does not take
all of them if there are any. -/
theorem arrives (h : c.Ends total most written left r) (hmost : 0 < most) :
    r.2.out.written = c.out.written ++ c.out.taken (c.source.rest.take left) ∧
      (c.out.taken (c.source.rest.take left) = c.source.rest.take left →
        c.source.rest.take left = []) := by
  have hnone : c.source.rest = [] → c.source.rest.take left = [] := by
    intro hrest
    rw [hrest, List.take_nil]
  cases h with
  | delivered hflush | undelivered hflush =>
      have hout := c.out.written_flush
      rw [hflush] at hout
      rw [List.take_zero, Writer.taken_nil, List.append_nil]
      exact ⟨hout, fun _ => rfl⟩
  | unread hleft hread =>
      rw [hnone (Source.eq_of_read_error hread).2.1, Writer.taken_nil, List.append_nil]
      exact ⟨rfl, fun _ => rfl⟩
  | ended hleft hread =>
      rw [hnone (Source.eq_of_read_nil (by omega) hread).2.1, Writer.taken_nil, List.append_nil]
      exact ⟨rfl, fun _ => rfl⟩
  | @refused left b e source out hread hb hwrite =>
      obtain ⟨-, hle⟩ := piece_bounds hread hb
      have hlt := Writer.accepts_lt_of_writeAll_error (w := c.out) (b := b) (by rw [hwrite])
      have htaken : (c.out.taken b).length ≤ c.out.accepts b.length := List.length_take_le _ _
      have hout := c.out.written_writeAll b
      rw [hwrite] at hout
      rw [Source.rest_eq_of_read_ok hread, List.take_append, List.take_of_length_le hle,
        Writer.taken_append_of_accepts_lt hlt]
      refine ⟨hout, fun hall => ?_⟩
      rw [hall, List.length_append] at htaken
      omega

/-- A copy is completed if nothing is left and the writer can be flushed; then it has been, once. -/
theorem of_ok (h : c.Ends total most written left r) {result : CopyResult} (hr : r.1 = .ok result) :
    result.written = written ∧ (result.completed = true ↔ left = 0 ∧ c.out.flushFailure = none) ∧
      (result.completed = true ↔ r.2.out.flushes = c.out.flushes + 1) := by
  cases h with
  | delivered hflush =>
      obtain ⟨hnone, rfl⟩ := Writer.eq_of_flush_ok hflush
      cases hr
      exact ⟨rfl, iff_of_true rfl ⟨rfl, hnone⟩, iff_of_true rfl rfl⟩
  | undelivered hflush =>
      obtain ⟨hsome, rfl⟩ := Writer.eq_of_flush_error hflush
      cases hr
      exact ⟨rfl, by simp [hsome], by simp [stop]⟩
  | unread => cases hr
  | ended hleft =>
      cases hr
      exact ⟨rfl, by simp [hleft], by simp [stop]⟩
  | @refused left b e source out hread hb hwrite =>
      cases hr
      have hflushes : (c.out.writeAll b).2.flushes = c.out.flushes := rfl
      rw [hwrite] at hflushes
      dsimp only at hflushes
      have hbounds := piece_bounds hread hb
      exact ⟨rfl, iff_of_false Bool.false_ne_true (by omega), by simp [stop, hflushes]⟩

theorem error_iff (h : c.Ends total most written left r) (hmost : 0 < most) (e : IoError) :
    r.1 = .error e ↔ left ≠ 0 ∧ c.source.rest = [] ∧ c.source.failure = some e := by
  cases h with
  | delivered => simp
  | undelivered => simp [stop]
  | unread hleft hread =>
      obtain ⟨-, hrest, hfailure⟩ := Source.eq_of_read_error hread
      simp [hleft, hrest, hfailure]
  | ended hleft hread =>
      obtain ⟨-, -, hfailure⟩ := Source.eq_of_read_nil (by omega) hread
      simp [stop, hfailure]
  | refused hread hb =>
      simp [stop, Source.rest_eq_of_read_ok hread, hb]

theorem reads_le (h : c.Ends total most written left r) :
    r.2.source.reads ≤ c.source.reads + left := by
  cases h with
  | delivered | undelivered => exact Nat.le_refl _
  | unread hleft hread | ended hleft hread =>
      have hread := Source.reads_le_of_read hread
      dsimp only [stop]
      omega
  | refused hread hb =>
      have hbounds := piece_bounds hread hb
      have hread := Source.reads_le_of_read hread
      dsimp only [stop]
      omega

theorem out_eq (h : c.Ends total most written 0 r) (hf : c.out.flushFailure = none) :
    r.1 = .ok ⟨written, true⟩ ∧ r.2.out = { c.out with flushes := c.out.flushes + 1 } := by
  cases h with
  | delivered hflush => exact ⟨rfl, (Writer.eq_of_flush_ok hflush).2⟩
  | undelivered hflush =>
      rw [(Writer.eq_of_flush_error hflush).1] at hf
      cases hf
  | unread hleft | ended hleft => exact absurd rfl hleft
  | refused hread hb =>
      have hbounds := piece_bounds hread hb
      omega

end Ends

/-!
## The account of a copy
-/

namespace Passes

/-- From the pieces that were passed on, and what came after them, what has arrived of a copy. -/
theorem arrives (h : Passes most c remaining pieces d left)
    (hends : d.Ends total most written left r) (hmost : 0 < most) :
    r.2.out.written = c.out.written ++ c.out.taken (c.source.rest.take remaining) ∧
      ((c.out.taken (c.source.rest.take remaining)).length = remaining ↔ left = 0) ∧
      (c.out.taken (c.source.rest.take remaining) = c.source.rest.take remaining →
        c.source.rest.take remaining = pieces.flatten) := by
  obtain ⟨hwritten, hmissing⟩ := hends.arrives hmost
  rw [h.take_rest_eq, h.taken_append]
  refine ⟨?_, ?_, fun hall => ?_⟩
  · rw [hwritten, h.out_eq, Writer.written_receive, List.append_assoc]
  · rw [List.length_append, ← h.length_add_left, Nat.add_left_cancel_iff]
    have htake : (d.source.rest.take left).length ≤ left := List.length_take_le _ _
    have htaken := d.out.taken_prefix (d.source.rest.take left)
    constructor
    · intro hlength
      have hall := htaken.eq_of_length_le (by omega)
      rw [hall, hmissing hall] at hlength
      exact hlength.symm
    · rintro rfl
      exact Nat.le_zero.1 (Nat.le_trans htaken.length_le htake)
  · rw [hmissing (List.append_cancel_left hall), List.append_nil]

/-- A copy that has more to copy than there is comes to the end of the source, unless the writer
refuses something before that. -/
theorem exhausted_iff (h : Passes most c remaining pieces d left)
    (hends : d.Ends total most written left r) (hmost : 0 < most) :
    left ≠ 0 ∧ d.source.rest = [] ↔
      c.source.rest.length < remaining ∧ c.out.taken (c.source.rest.take remaining) =
        c.source.rest := by
  have hrest := h.rest_eq
  have hlengths := h.length_add_left
  constructor
  · rintro ⟨hleft, hnil⟩
    rw [hnil, List.append_nil] at hrest
    rw [h.take_rest_eq, h.taken_append, hnil, List.take_nil, Writer.taken_nil, List.append_nil,
      hrest]
    exact ⟨by omega, rfl⟩
  · rintro ⟨hshort, htaken⟩
    have hwhole : c.source.rest.take remaining = c.source.rest :=
      List.take_of_length_le (Nat.le_of_lt hshort)
    have hpieces : c.source.rest = pieces.flatten := by
      rw [← hwhole]
      exact (h.arrives hends hmost).2.2 (htaken.trans hwhole.symm)
    rw [hpieces] at hshort
    exact ⟨by omega, List.self_eq_append_right.1 (hpieces.symm.trans hrest)⟩

end Passes

/-- Where nothing fails and the source holds enough, everything arrives and is delivered, once. -/
theorem run_of_accepts (c : Copy) (total piece written : Nat)
    (hlong : remaining ≤ c.source.rest.length) (haccepts : c.out.accepts remaining = remaining)
    (hflush : c.out.flushFailure = none) :
    (c.run total piece remaining written).1 = .ok ⟨written + remaining, true⟩ ∧
      (c.run total piece remaining written).2.out =
        { c.out with
          written := c.out.written ++ c.source.rest.take remaining,
          flushes := c.out.flushes + 1 } := by
  obtain ⟨pieces, d, left, hpasses, hends⟩ := exists_passes_run c total piece remaining written
  obtain ⟨-, hall, hlast⟩ := hpasses.arrives hends (Nat.succ_pos piece)
  have hlengths := hpasses.length_add_left
  have hasks : (c.source.rest.take remaining).length = remaining := List.length_take_of_le hlong
  have htakes : c.out.taken (c.source.rest.take remaining) = c.source.rest.take remaining := by
    rw [Writer.taken, hasks, haccepts, List.take_take, Nat.min_self]
  have hleft : left = 0 := hall.1 (by rw [htakes, hasks])
  subst hleft
  obtain ⟨hresult, hout⟩ := hends.out_eq (by rw [hpasses.out_eq]; exact hflush)
  rw [Nat.add_zero] at hlengths
  rw [hlengths] at hresult
  rw [hpasses.out_eq, ← hlast htakes] at hout
  exact ⟨hresult, hout⟩

/-- The account of copying `length` bytes from `c`: of these, `accepted` have arrived, and `pieces`
as whole pieces. -/
structure Accounts (c : Copy) (length : Nat) (pieces : List Bytes) (accepted : Bytes)
    (r : Attempt Copy IoError CopyResult) : Prop where
  isPrefix : accepted <+: c.source.rest.take length
  arrived : r.2.out.written = c.out.written ++ accepted
  /-- What arrives is what the writer would take if it was given all the bytes at once. -/
  taken : accepted = c.out.taken (c.source.rest.take length)
  counted : ∀ result, r.1 = .ok result → result.written = pieces.flatten.length
  counted_le : pieces.flatten.length ≤ accepted.length ∧ accepted.length ≤ length
  completed : ∀ result, r.1 = .ok result →
    (result.completed = true ↔ accepted.length = length ∧ c.out.flushFailure = none)
  flushed : ∀ result, r.1 = .ok result →
    (result.completed = true ↔ r.2.out.flushes = c.out.flushes + 1)
  whole : ∀ result, r.1 = .ok result → result.completed = true → result.written = length
  /-- It is an error just if the source fails before it has delivered as much as was asked for, and
  the writer has taken everything until then. -/
  failed : ∀ e, r.1 = .error e ↔
    c.source.failure = some e ∧ c.source.rest.length < length ∧ accepted = c.source.rest
  reads_le : r.2.source.reads ≤ c.source.reads + length
  /-- Where nothing fails, everything arrives and is delivered, once. -/
  reliable : length ≤ c.source.rest.length → c.out.accepts length = length →
    c.out.flushFailure = none →
    r.1 = .ok ⟨length, true⟩ ∧
      r.2.out =
        { c.out with
          written := c.out.written ++ c.source.rest.take length, flushes := c.out.flushes + 1 }

/-- A copy has its account, whatever the source and the writer do and however large its pieces may
be. As in `copyRange`, memory is idealised: a buffer can be had for pieces of every size. -/
theorem accounts_copyRange (c : Copy) (length chunk : Nat) :
    ∃ pieces d left accepted, Passes (max chunk 1) c length pieces d left ∧
      d.Ends length (max chunk 1) pieces.flatten.length left (c.copyRange length chunk) ∧
      c.Accounts length pieces accepted (c.copyRange length chunk) := by
  obtain ⟨pieces, d, left, hpasses, hends⟩ := exists_passes_run c length (chunk - 1) length 0
  have hchunk : chunk - 1 + 1 = max chunk 1 := by omega
  rw [hchunk] at hpasses hends
  rw [Nat.zero_add] at hends
  change d.Ends _ _ _ _ (c.copyRange length chunk) at hends
  have hmost : 0 < max chunk 1 := by omega
  obtain ⟨harrived, hall, hlast⟩ := hpasses.arrives hends hmost
  have hlengths := hpasses.length_add_left
  have htaken := c.out.taken_prefix (c.source.rest.take length)
  have hasked : (c.source.rest.take length).length ≤ length := List.length_take_le _ _
  refine ⟨pieces, d, left, _, hpasses, hends, htaken, harrived,
    rfl, ?counted, ?counted_le, ?completed, ?flushed, ?whole, ?failed, ?reads_le, ?reliable⟩
  case counted => exact fun result hr => (hends.of_ok hr).1
  case counted_le =>
    refine ⟨?_, Nat.le_trans htaken.length_le hasked⟩
    rw [hpasses.take_rest_eq, hpasses.taken_append, List.length_append]
    exact Nat.le_add_right _ _
  case completed =>
    intro result hr
    rw [(hends.of_ok hr).2.1, hall, hpasses.out_eq]
    rfl
  case flushed =>
    intro result hr
    rw [(hends.of_ok hr).2.2, hpasses.out_eq]
    rfl
  case whole =>
    intro result hr hcompleted
    obtain ⟨hwritten, hiff, -⟩ := hends.of_ok hr
    have hleft := (hiff.1 hcompleted).1
    omega
  case failed =>
    intro e
    rw [hends.error_iff hmost, hpasses.failure_eq, ← and_assoc, hpasses.exhausted_iff hends hmost,
      and_comm]
  case reads_le =>
    have hpassed := hpasses.reads_le
    have hended := hends.reads_le
    omega
  case reliable =>
    intro hlong haccepts hflush
    have hrun := c.run_of_accepts length (chunk - 1) 0 hlong haccepts hflush
    rwa [Nat.zero_add] at hrun

def trickling : Copy where
  source := { data := Text.encode "0123456789", portion := fun _ => some 2 }
  out := { limit := some 5 }

/-- The first piece is counted. Of the second one two bytes arrive, and they are not. -/
theorem accounts_copyRange_trickling :
    (trickling.copyRange 8 4).1.toOption = some ⟨3, false⟩ ∧
      (trickling.copyRange 8 4).2.out.written = Text.encode "01234" ∧
      ∃ pieces d left accepted, Passes (max 4 1) trickling 8 pieces d left ∧
        d.Ends 8 (max 4 1) pieces.flatten.length left (trickling.copyRange 8 4) ∧
        trickling.Accounts 8 pieces accepted (trickling.copyRange 8 4) :=
  ⟨by decide +kernel, by decide +kernel, accounts_copyRange trickling 8 4⟩

end HttpDispatch.Copy
