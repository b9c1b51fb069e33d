import HttpDispatch.Proofs.Connection.Line

/-!
# What reading a line comes to

The bytes that a reader has still to deliver either begin with a line (`FirstLine`) or have no line
feed in them. This, the longest line that is allowed and the end of the reader decide what reading a
line comes to, and no more bytes are taken than the longest line and the longest end have together
(`Reader.readLine_iff`). Reading a line with the bound in a word of 64 bits comes to the same, as
long as no more bytes come than a word can count.
-/

namespace HttpDispatch

/-- The bytes `b` begin with the line `content` and its end, and go on with `left`. The line holds
no line feed, and a carriage return directly before the line feed belongs to the end. -/
def FirstLine (b content left : Bytes) : Prop :=
  ∃ e : LineEnd, b = content ++ e.bytes ++ left ∧ lineFeed ∉ content ∧
    (e = .bare → content.getLast? ≠ some carriageReturn)

/-- The sum of two words, or the largest word in place of what lies beyond it. -/
def Word.addOrLargest (a b : UInt64) : UInt64 :=
  if a.toNat + b.toNat < UInt64.size then a + b else UInt64.ofNat (UInt64.size - 1)

theorem Word.toNat_addOrLargest (a b : UInt64) :
    (addOrLargest a b).toNat = min (a.toNat + b.toNat) (UInt64.size - 1) := by
  unfold addOrLargest
  split
  · next h =>
    rw [UInt64.toNat_add, Nat.mod_eq_of_lt h]
    omega
  · next h =>
    have hlargest : (UInt64.ofNat (UInt64.size - 1)).toNat = UInt64.size - 1 := by decide
    rw [hlargest]
    omega

namespace Reader

theorem exists_line_of_firstLine {b content left : Bytes} (h : FirstLine b content left) :
    ∃ line, b = line ++ lineFeed :: left ∧ lineFeed ∉ line ∧ dropReturn line = content ∧
      line.length ≤ content.length + 1 := by
  obtain ⟨e, rfl, hfeed, hbare⟩ := h
  cases e with
  | bare => exact ⟨content, by simp [LineEnd.bytes], hfeed, if_neg (hbare rfl), Nat.le_succ _⟩
  | withReturn =>
      refine ⟨content ++ [carriageReturn],
        by simp [LineEnd.bytes], ?_, dropReturn_concat content, by simp⟩
      simpa [hfeed] using (by decide : lineFeed ≠ carriageReturn)

theorem exists_firstLine {b : Bytes} (h : lineFeed ∈ b) :
    ∃ content left, FirstLine b content left := by
  obtain ⟨line, left, rfl, hline⟩ := List.eq_append_cons_of_mem h
  obtain ⟨e, hwritten, hbegins, hbare⟩ := eq_append_of_dropReturn (Eq.refl (dropReturn line))
  refine ⟨dropReturn line, left, e, ?_, fun hmem => hline (hbegins.subset hmem), hbare⟩
  rw [← hwritten, List.append_assoc, List.singleton_append]

def lineOf (limit max : Nat) (taken : Bytes) : Line :=
  if taken = [] then .none
  else
    if taken.getLast? ≠ some lineFeed then if limit ≤ taken.length then .tooLong else .unterminated
  else if max < (dropReturn taken.dropLast).length then .tooLong
  else match Text.decode? (dropReturn taken.dropLast) with
    | some s => .text s
    | none => .notText

theorem readLine_eq_map (r : Reader) (max : Nat) :
    r.readLine max = Attempt.map (lineOf (max + 2) max) (r.takeLine (max + 2)) := by
  unfold readLine
  rcases r.takeLine (max + 2) with ⟨_ | _, _⟩ <;> rfl

def readLineInWords (r : Reader) (max : UInt64) : Attempt Reader IoError Line :=
  let limit := (Word.addOrLargest max 2).toNat
  Attempt.map (lineOf limit max.toNat) (r.takeLine limit)

/-- What is read as a line, and what is left, is decided by the bytes that are left and by the end
after them. -/
theorem map_takeLine (r : Reader) (limit max : Nat) :
    (Attempt.map (lineOf limit max) (r.takeLine limit)).1 =
        (takenLine r.rest r.source.failure limit).1.map (lineOf limit max) ∧
      (Attempt.map (lineOf limit max) (r.takeLine limit)).2.outlook =
        ((takenLine r.rest r.source.failure limit).2, r.source.failure) := by
  obtain ⟨hresult, hleft⟩ := (⟨rfl, rfl⟩ : r.Holds r.rest r.source.failure).takeLine_eq limit
  generalize r.takeLine limit = taken at hresult hleft ⊢
  rw [← hresult]
  have houtlook :
      taken.2.outlook = ((takenLine r.rest r.source.failure limit).2, r.source.failure) := by
    rw [outlook, hleft.rest_eq, hleft.failure_eq]
  obtain ⟨_ | _, _⟩ := taken
  · exact ⟨rfl, houtlook⟩
  · exact ⟨rfl, houtlook⟩

variable {r : Reader} {max : Nat}

theorem readLine_fst (r : Reader) (max : Nat) :
    (r.readLine max).1 = (takenLine r.rest r.source.failure (max + 2)).1.map
      (lineOf (max + 2) max) := by
  rw [readLine_eq_map, (map_takeLine r _ _).1]

theorem rest_readLine (r : Reader) (max : Nat) :
    (r.readLine max).2.rest = (takenLine r.rest r.source.failure (max + 2)).2 := by
  rw [readLine_eq_map]
  exact congrArg Prod.fst (map_takeLine r _ _).2

theorem lineOf_append_lineFeed (limit max : Nat) (line : Bytes) :
    lineOf limit max (line ++ [lineFeed]) =
      if max < (dropReturn line).length then .tooLong
      else match Text.decode? (dropReturn line) with
        | some s => .text s
        | none => .notText := by
  rw [lineOf, if_neg (by simp), if_neg (by simp), List.dropLast_concat]

theorem lineOf_of_notMem {limit max : Nat} {taken : Bytes} (hnot : lineFeed ∉ taken)
    (hne : taken ≠ []) :
    lineOf limit max taken = if limit ≤ taken.length then .tooLong else .unterminated := by
  rw [lineOf, if_neg hne, if_pos fun hlast => hnot (List.mem_of_getLast? hlast)]

theorem readLine_of_length_le {content left : Bytes} (h : FirstLine r.rest content left)
    (hle : content.length ≤ max) :
    (r.readLine max).1 = .ok
      (match Text.decode? content with | some s => .text s | none => .notText) ∧
      (r.readLine max).2.rest = left := by
  obtain ⟨line, hrest, hline, hcontent, hlen⟩ := exists_line_of_firstLine h
  rw [readLine_fst, rest_readLine, hrest, takenLine_of_lineFeed hline (by omega)]
  refine ⟨congrArg Except.ok ?_, rfl⟩
  rw [lineOf_append_lineFeed, hcontent, if_neg (Nat.not_lt.2 hle)]

theorem readLine_of_lt_length {content left : Bytes} (h : FirstLine r.rest content left)
    (hlt : max < content.length) : (r.readLine max).1 = .ok .tooLong := by
  obtain ⟨line, hrest, hline, hcontent, hlen⟩ := exists_line_of_firstLine h
  rw [readLine_fst, hrest]
  by_cases hshort : line.length < max + 2
  · rw [takenLine_of_lineFeed hline hshort]
    refine congrArg Except.ok ?_
    rw [lineOf_append_lineFeed, hcontent, if_pos hlt]
  · -- the bytes that are taken do not reach the line feed
    have hlong : max + 2 ≤ line.length := Nat.le_of_not_lt hshort
    have htake : (line ++ lineFeed :: left).take (max + 2) = line.take (max + 2) :=
      List.take_append_of_le_length hlong
    have hnot : lineFeed ∉ line.take (max + 2) := fun hmem => hline (List.mem_of_mem_take hmem)
    have hlength : (line.take (max + 2)).length = max + 2 := List.length_take_of_le hlong
    rw [takenLine, htake, if_neg hnot, if_pos (by rw [List.length_append]; omega)]
    refine congrArg Except.ok ?_
    rw [lineOf_of_notMem hnot (List.ne_nil_of_length_pos (by omega)),
      if_pos (Nat.le_of_eq hlength.symm)]

/-- Where there is no line feed, all the bytes that may be taken come before the end of the reader,
or are too many for a line. -/
theorem readLine_of_notMem (h : lineFeed ∉ r.rest) :
    (r.readLine max).1 =
      if max + 2 ≤ r.rest.length then .ok .tooLong
      else r.source.failure.elim (.ok (if r.rest = [] then .none else .unterminated)) .error := by
  have hnot : lineFeed ∉ r.rest.take (max + 2) := fun hmem => h (List.mem_of_mem_take hmem)
  rw [readLine_fst, takenLine, if_neg hnot]
  split
  · next hlong =>
    have hlength : (r.rest.take (max + 2)).length = max + 2 := List.length_take_of_le hlong
    refine congrArg Except.ok ?_
    rw [lineOf_of_notMem hnot (List.ne_nil_of_length_pos (by omega)),
      if_pos (Nat.le_of_eq hlength.symm)]
  · next hshort =>
    cases r.source.failure with
    | some e => rfl
    | none =>
        refine congrArg Except.ok ?_
        by_cases hnil : r.rest = []
        · rw [lineOf, if_pos hnil, if_pos hnil]
        · rw [lineOf_of_notMem h hnil, if_neg hshort, if_neg hnil]

/-- Either there is a first line, and it is read unless it is too long, or there is no line feed. -/
theorem readLine_cases (r : Reader) (max : Nat) :
    (∃ content left, FirstLine r.rest content left ∧ content.length ≤ max ∧
      (r.readLine max).1 = .ok
        (match Text.decode? content with | some s => .text s | none => .notText) ∧
        (r.readLine max).2.rest = left) ∨
    (∃ content left, FirstLine r.rest content left ∧ max < content.length ∧
      (r.readLine max).1 = .ok .tooLong) ∨
    lineFeed ∉ r.rest ∧ max + 2 ≤ r.rest.length ∧ (r.readLine max).1 = .ok .tooLong ∨
    lineFeed ∉ r.rest ∧ r.rest.length < max + 2 ∧
      (r.readLine max).1 = r.source.failure.elim
        (.ok (if r.rest = [] then .none else .unterminated)) .error := by
  by_cases hfeed : lineFeed ∈ r.rest
  · obtain ⟨content, left, hfirst⟩ := exists_firstLine hfeed
    rcases Nat.lt_or_ge max content.length with hlt | hle
    · exact .inr (.inl ⟨content, left, hfirst, hlt, readLine_of_lt_length hfirst hlt⟩)
    · exact .inl ⟨content, left, hfirst, hle, readLine_of_length_le hfirst hle⟩
  · have hread : (r.readLine max).1 = _ := readLine_of_notMem hfeed
    rcases Nat.lt_or_ge r.rest.length (max + 2) with hlt | hle
    · rw [if_neg (Nat.not_le.2 hlt)] at hread
      exact .inr (.inr (.inr ⟨hfeed, hlt, hread⟩))
    · rw [if_pos hle] at hread
      exact .inr (.inr (.inl ⟨hfeed, hle, hread⟩))

theorem readLine_eq_none_iff :
    (r.readLine max).1 = .ok .none ↔ r.rest = [] ∧ r.source.failure = none := by
  constructor
  · intro hnone
    obtain ⟨content, left, -, -, hread, -⟩ | ⟨_, _, -, -, hread⟩ | ⟨-, -, hread⟩ | ⟨-, -, hread⟩ :=
      readLine_cases r max
    all_goals rw [hnone] at hread
    · split at hread <;> cases hread
    · cases hread
    · cases hread
    · cases hfailure : r.source.failure with
      | some e =>
          rw [hfailure] at hread
          cases hread
      | none =>
          rw [hfailure] at hread
          by_cases hnil : r.rest = []
          · exact ⟨hnil, rfl⟩
          · rw [if_neg hnil] at hread
            cases hread
  · rintro ⟨hnil, hfailure⟩
    rw [readLine_of_notMem (by rw [hnil]; exact List.not_mem_nil), hnil, hfailure]
    exact if_neg (by simp)

theorem readLine_eq_text_iff {s : String} {left : Bytes} :
    (r.readLine max).1 = .ok (.text s) ∧ (r.readLine max).2.rest = left ↔
      FirstLine r.rest (Text.encode s) left ∧ (Text.encode s).length ≤ max := by
  constructor
  · rintro ⟨htext, hleft⟩
    obtain ⟨content, left', hfirst, hle, hread, hleft'⟩ | ⟨_,
        _, -, -, hread⟩ | ⟨-, -, hread⟩ | ⟨-, -, hread⟩ :=
      readLine_cases r max
    all_goals rw [htext] at hread
    · split at hread
      · next s' hdecode =>
        cases hread
        rw [Text.encode_of_decode? hdecode, ← hleft, hleft']
        exact ⟨hfirst, hle⟩
      · cases hread
    · cases hread
    · cases hread
    · cases hfailure : r.source.failure with
      | some e =>
          rw [hfailure] at hread
          cases hread
      | none =>
          rw [hfailure] at hread
          split at hread <;> cases hread
  · rintro ⟨hfirst, hle⟩
    obtain ⟨hread, hleft⟩ := readLine_of_length_le hfirst hle
    rw [Text.decode?_encode] at hread
    exact ⟨hread, hleft⟩

theorem readLine_eq_tooLong_iff :
    (r.readLine max).1 = .ok .tooLong ↔
      (∃ content left, FirstLine r.rest content left ∧ max < content.length) ∨
        lineFeed ∉ r.rest ∧ max + 2 ≤ r.rest.length := by
  constructor
  · intro hlong
    obtain ⟨content, left, -, -, hread, -⟩ | ⟨content, left,
        hfirst, hlt, -⟩ | ⟨hfeed, hle, -⟩ | ⟨-, -, hread⟩ :=
      readLine_cases r max
    · rw [hlong] at hread
      split at hread <;> cases hread
    · exact .inl ⟨content, left, hfirst, hlt⟩
    · exact .inr ⟨hfeed, hle⟩
    · rw [hlong] at hread
      cases hfailure : r.source.failure with
      | some e =>
          rw [hfailure] at hread
          cases hread
      | none =>
          rw [hfailure] at hread
          split at hread <;> cases hread
  · rintro (⟨content, left, hfirst, hlt⟩ | ⟨hfeed, hle⟩)
    · exact readLine_of_lt_length hfirst hlt
    · rw [readLine_of_notMem hfeed, if_pos hle]

theorem readLine_eq_error_iff {e : IoError} :
    (r.readLine max).1 = .error e ↔
      r.source.failure = some e ∧ lineFeed ∉ r.rest ∧ r.rest.length < max + 2 := by
  constructor
  · intro herror
    obtain ⟨_, _, -, -, hread, -⟩ | ⟨_, _, -, -, hread⟩ | ⟨-, -, hread⟩ | ⟨hfeed, hlt, hread⟩ :=
      readLine_cases r max
    all_goals rw [herror] at hread
    · cases hread
    · cases hread
    · cases hread
    · cases hfailure : r.source.failure with
      | none =>
          rw [hfailure] at hread
          cases hread
      | some e' =>
          rw [hfailure] at hread
          cases hread
          exact ⟨rfl, hfeed, hlt⟩
  · rintro ⟨hfailure, hfeed, hlt⟩
    rw [readLine_of_notMem hfeed, if_neg (Nat.not_le.2 hlt), hfailure]
    rfl

theorem exists_taken (b : Bytes) (failure : Option IoError) (most : Nat) :
    ∃ taken, b = taken ++ (takenLine b failure most).2 ∧ taken.length ≤ most := by
  unfold takenLine
  split
  · next hmem =>
    refine ⟨_, (List.take_append_drop _ b).symm, ?_⟩
    have hidx : b.idxOf lineFeed = (b.take most).idxOf lineFeed := by
      conv => lhs; rw [← List.take_append_drop most b]
      exact List.idxOf_append_of_mem hmem
    have hlt := List.idxOf_lt_length_of_mem hmem
    have htaken := List.length_take_le most b
    have hk := List.length_take_le (b.idxOf lineFeed + 1) b
    omega
  · split
    · exact ⟨_, (List.take_append_drop most b).symm, List.length_take_le most b⟩
    · next hshort => exact ⟨b, (List.append_nil b).symm, Nat.le_of_not_le hshort⟩

theorem map_takenLine_of_length_lt {b : Bytes} {failure : Option IoError} {limit limit' max : Nat}
    (h : b.length < limit) (h' : b.length < limit') :
    (takenLine b failure limit).1.map (lineOf limit max) =
        (takenLine b failure limit').1.map (lineOf limit' max) ∧
      (takenLine b failure limit).2 = (takenLine b failure limit').2 := by
  have hline : ∀ taken : Bytes, taken.length ≤ b.length →
      lineOf limit max taken = lineOf limit' max taken := by
    intro taken htaken
    have hlt : ¬ limit ≤ taken.length := by omega
    have hlt' : ¬ limit' ≤ taken.length := by omega
    rw [lineOf, lineOf, if_neg hlt, if_neg hlt']
  unfold takenLine
  rw [List.take_of_length_le (Nat.le_of_lt h), List.take_of_length_le (Nat.le_of_lt h'),
    if_neg (Nat.not_le.2 h), if_neg (Nat.not_le.2 h')]
  split
  · exact ⟨congrArg Except.ok (hline _ (List.length_take_le' _ _)), rfl⟩
  · cases failure with
    | some e => exact ⟨rfl, rfl⟩
    | none => exact ⟨congrArg Except.ok (hline b (Nat.le_refl _)), rfl⟩

/-- As long as the bound is not close to the largest word, or fewer bytes come than that, it is as
good in a word as it is as a number. -/
theorem agrees_readLineInWords {max : UInt64}
    (h : max.toNat + 2 < UInt64.size ∨ r.rest.length < UInt64.size - 1) :
    Agrees outlook (r.readLineInWords max) (r.readLine max.toNat) := by
  have hlimit : (Word.addOrLargest max 2).toNat = min (max.toNat + 2) (UInt64.size - 1) :=
    Word.toNat_addOrLargest max 2
  by_cases hmax : max.toNat + 2 < UInt64.size
  · rw [readLineInWords, readLine_eq_map, hlimit, Nat.min_eq_left (Nat.le_sub_one_of_lt hmax)]
    exact ⟨rfl, rfl⟩
  · have hfew := h.resolve_left hmax
    obtain ⟨hresult, houtlook⟩ := map_takeLine r (Word.addOrLargest max 2).toNat max.toNat
    obtain ⟨hresult', houtlook'⟩ := map_takeLine r (max.toNat + 2) max.toNat
    have hbelow : r.rest.length < (Word.addOrLargest max 2).toNat := by omega
    have hbelow' : r.rest.length < max.toNat + 2 := by omega
    obtain ⟨hsame, hleft⟩ :=
      @map_takenLine_of_length_lt r.rest r.source.failure _ _ max.toNat hbelow hbelow'
    rw [readLine_eq_map]
    refine ⟨hresult.trans (hsame.trans hresult'.symm), houtlook.trans (Eq.trans ?_ houtlook'.symm)⟩
    rw [hleft]

/-- Reading a line finds nothing just where no byte is left and the reader does not fail. It finds a
line of text just where the bytes begin with that line and its end, the line is no longer than
allowed, and what follows its end is left. A line is too long just where the bytes begin with a
longer one, or where they have no line feed and are at least as many as the longest line and the
longest end together. Only a reader that fails before that, and before the first line feed, makes
reading fail, and never are more bytes taken than those. With the bound in a word nothing else comes
out, not even for the largest words, unless more bytes are left than words can count. -/
theorem readLine_iff (r : Reader) (max : Nat) :
    ((r.readLine max).1 = .ok .none ↔ r.rest = [] ∧ r.source.failure = none) ∧
      (∀ s left, (r.readLine max).1 = .ok (.text s) ∧ (r.readLine max).2.rest = left ↔
        FirstLine r.rest (Text.encode s) left ∧ (Text.encode s).length ≤ max) ∧
      ((r.readLine max).1 = .ok .tooLong ↔
        (∃ content left, FirstLine r.rest content left ∧ max < content.length) ∨
          lineFeed ∉ r.rest ∧ max + 2 ≤ r.rest.length) ∧
      (∀ e, (r.readLine max).1 = .error e ↔
        r.source.failure = some e ∧ lineFeed ∉ r.rest ∧ r.rest.length < max + 2) ∧
      (∃ taken, r.rest = taken ++ (r.readLine max).2.rest ∧ taken.length ≤ max + 2) ∧
      ∀ word : UInt64, word.toNat = max →
      (max + 2 < UInt64.size ∨ r.rest.length < UInt64.size - 1) →
        Agrees outlook (r.readLineInWords word) (r.readLine max) := by
  refine ⟨readLine_eq_none_iff, fun _ _ => readLine_eq_text_iff, readLine_eq_tooLong_iff,
    fun _ => readLine_eq_error_iff, ?_, ?_⟩
  · rw [rest_readLine]
    exact exists_taken r.rest r.source.failure (max + 2)
  · rintro word rfl hword
    exact agrees_readLineInWords hword

/-- A line of two bytes that ends in a carriage return and a line feed, where two bytes are allowed,
or one, or as many as the largest word says. -/
theorem readLine_iff_atBounds :
    let r : Reader := { source := { data := Text.encode "ab\r\nc" } }
    let largest : UInt64 := 18446744073709551615
    FirstLine r.rest (Text.encode "ab") (Text.encode "c") ∧
      (r.readLine 2).1 = .ok (.text "ab") ∧ (r.readLine 2).2.rest = Text.encode "c" ∧
      (r.readLine 1).1 = .ok .tooLong ∧
      r.rest.length < UInt64.size - 1 ∧ (r.readLineInWords largest).1 = .ok (.text "ab") := by
  intro r largest
  have hfirst : FirstLine r.rest (Text.encode "ab") (Text.encode "c") :=
    ⟨.withReturn, by decide +kernel, by decide +kernel, nofun⟩
  have hfew : r.rest.length < UInt64.size - 1 := by decide +kernel
  have htwo : (Text.encode "ab").length = 2 := by decide +kernel
  obtain ⟨-, htext, -⟩ := readLine_iff r 2
  obtain ⟨-, -, hlong, -⟩ := readLine_iff r 1
  obtain ⟨-, hlargest, -, -, -, hwords⟩ := readLine_iff r 18446744073709551615
  obtain ⟨hread, hleft⟩ := (htext "ab" _).2 ⟨hfirst, by omega⟩
  refine ⟨hfirst, hread, hleft, hlong.2 (.inl ⟨_, _, hfirst, by omega⟩), hfew, ?_⟩
  exact (hwords largest rfl (.inr hfew)).result.trans ((hlargest "ab" _).2 ⟨hfirst, by omega⟩).1

end Reader

end HttpDispatch
