import HttpDispatch.Exchange.Received
import HttpDispatch.Proofs.Http.Token
import HttpDispatch.Proofs.Text.Basic
import HttpDispatch.Proofs.Text.Numeral
import HttpDispatch.Proofs.Text.Utf8

/-!
# Heads as they are received

A head is written as lines, and the client finds these lines again: no line contains a carriage
return, and none is empty but the last. From a response whose head has arrived, the client reads the
status and the fields that were sent, and takes for the body what was written behind the head
(`ResponseHead.read_bytes`).
-/

namespace HttpDispatch

namespace Received

/-!
## Bytes that are cut where they were put together
-/

theorem cutAt_append_of_not_mem {c : UInt8} {sep l : Bytes} (h : c ∉ l) (b : Bytes) :
    cutAt (c :: sep) (l ++ b) = (cutAt (c :: sep) b).map fun (p, q) => (l ++ p, q) := by
  induction l with
  | nil => simp
  | cons d l ih =>
      rw [List.mem_cons, not_or] at h
      have hprefix : (c :: sep).isPrefixOf (d :: (l ++ b)) = false := by
        simp [List.isPrefixOf, h.1]
      rw [List.cons_append, cutAt, hprefix, if_neg Bool.false_ne_true, ih h.2, Option.map_map]
      rfl

theorem cutAt_self (c : UInt8) (sep b : Bytes) :
    cutAt (c :: sep) (c :: sep ++ b) = some ([], b) := by
  have hprefix : (c :: sep).isPrefixOf (c :: sep ++ b) = true :=
    List.isPrefixOf_iff_prefix.2 (List.prefix_append _ _)
  rw [List.cons_append, cutAt, ← List.cons_append, hprefix, if_pos rfl, List.drop_left]

/-- A line that can stand in a head: there is something in it, and no carriage return. -/
structure IsLine (l : Bytes) : Prop where
  ne_nil : l ≠ []
  not_mem : 0x0D ∉ l

def joined (first : Bytes) (rest : List Bytes) : Bytes :=
  first ++ rest.flatMap (ResponseHead.lineEnd ++ ·)

/-- The end of a line is not the end of the head if something follows on the next line. -/
theorem cutAt_lineEnd {b : Bytes} (h : b.head? ≠ some 0x0D) :
    cutAt headEnd (ResponseHead.lineEnd ++ b) =
      (cutAt headEnd b).map fun (p, q) => (ResponseHead.lineEnd ++ p, q) := by
  have hcr : headEnd.isPrefixOf (0x0D :: 0x0A :: b) = false := by
    cases b with
    | nil => rfl
    | cons c cs =>
        have hc : (0x0D : UInt8) ≠ c := fun hc => h (hc ▸ rfl)
        simp [headEnd, ResponseHead.lineEnd, List.isPrefixOf, hc]
  have hlf : headEnd.isPrefixOf (0x0A :: b) = false := rfl
  change cutAt headEnd (0x0D :: 0x0A :: b) = _
  rw [cutAt, hcr, if_neg Bool.false_ne_true, cutAt, hlf, if_neg Bool.false_ne_true, Option.map_map]
  rfl

theorem joined_cons (first l : Bytes) (rest : List Bytes) :
    joined first (l :: rest) = first ++ (ResponseHead.lineEnd ++ joined l rest) := by
  simp [joined]

theorem IsLine.head?_joined {l : Bytes} (h : IsLine l) (rest : List Bytes) (b : Bytes) :
    (joined l rest ++ b).head? ≠ some 0x0D := by
  obtain ⟨c, cs, rfl⟩ := List.exists_cons_of_ne_nil h.ne_nil
  intro hc
  cases hc
  exact h.not_mem List.mem_cons_self

theorem cutAt_joined {first : Bytes} {rest : List Bytes} (hfirst : IsLine first)
    (hrest : ∀ l ∈ rest, IsLine l) (body : Bytes) :
    cutAt headEnd (joined first rest ++ (headEnd ++ body)) = some (joined first rest, body) := by
  have hmark : headEnd = 0x0D :: [0x0A, 0x0D, 0x0A] := rfl
  induction rest generalizing first with
  | nil =>
      rw [joined, List.flatMap_nil, List.append_nil, hmark, cutAt_append_of_not_mem hfirst.not_mem,
        cutAt_self]
      simp
  | cons l rest ih =>
      obtain ⟨hl, hrest⟩ := List.forall_mem_cons.1 hrest
      have hnext := cutAt_lineEnd (hl.head?_joined rest (headEnd ++ body))
      rw [ih hl hrest, Option.map_some] at hnext
      rw [joined_cons, List.append_assoc, List.append_assoc]
      rw [hmark] at hnext ⊢
      rw [cutAt_append_of_not_mem hfirst.not_mem, hnext, Option.map_some]

theorem lines_append {l : Bytes} (h : 0x0D ∉ l) {b first : Bytes} {more : List Bytes}
    (hb : lines b = first :: more) : lines (l ++ b) = (l ++ first) :: more := by
  induction l with
  | nil => exact hb
  | cons c l ih =>
      rw [List.mem_cons, not_or] at h
      have hlines := ih h.2
      rw [List.cons_append, lines, hlines]
      · rfl
      · intro _ hc
        exact absurd hc.symm h.1

theorem lines_joined {first : Bytes} {rest : List Bytes} (hfirst : 0x0D ∉ first)
    (hrest : ∀ l ∈ rest, 0x0D ∉ l) : lines (joined first rest) = first :: rest := by
  induction rest generalizing first with
  | nil =>
      have h := lines_append hfirst (b := []) rfl
      rw [List.append_nil] at h
      rwa [joined, List.flatMap_nil, List.append_nil]
  | cons l rest ih =>
      obtain ⟨hl, hrest⟩ := List.forall_mem_cons.1 hrest
      have h : lines (ResponseHead.lineEnd ++ joined l rest) = [] :: l :: rest := by
        rw [← ih hl hrest]
        rfl
      rw [joined_cons, lines_append hfirst h, List.append_nil]

theorem splitField_append {name : Bytes} (h : 0x3A ∉ name) (value : Bytes) :
    splitField (name ++ (fieldMark ++ value)) = (name, value) := by
  rw [splitField, show fieldMark = 0x3A :: [0x20] from rfl, cutAt_append_of_not_mem h, cutAt_self]
  simp

/-- The number in the status line: what stands between the first two blanks. -/
def code? (r : Received) : Option Nat :=
  (Text.decode? r.statusLine).bind fun line =>
    (Text.cutChars ' ' line.toList).bind fun (_, rest) =>
      (Text.cutChars ' ' rest).bind fun (number, _) => Numeral.read? 10 number

end Received

/-!
## The lines of a head
-/

theorem FieldName.not_mem_encode (n : FieldName) {b : UInt8} (hb : b.toNat < 128)
    (h : isTokenChar (Char.ofNat b.toNat) = false) : b ∉ Text.encode n.text := by
  have hname := n.isName
  simp only [isFieldName, Bool.and_eq_true] at hname
  exact fun hmem => not_mem_of_isToken hname.1.1 h (Text.mem_of_mem_encode hmem hb)

theorem FieldValue.not_mem_bytes (v : FieldValue) {b : UInt8} (h : isValueByte b = false) :
    b ∉ v.bytes := by
  intro hmem
  rw [List.all_eq_true.1 v.isLegal b hmem] at h
  cases h

namespace Status

theorem not_mem_reason (s : Status) : '\r' ∉ s.reason.toList := by
  have hreasons : ∀ p ∈ reasons, '\r' ∉ p.2.toList := by decide +kernel
  unfold reason reason?
  cases h : reasons.lookup s.code with
  | none => exact List.not_mem_nil
  | some phrase =>
      obtain ⟨before, after, heq, -⟩ := List.lookup_eq_some_iff.1 h
      exact hreasons (s.code, phrase) (heq ▸ by simp)

def line (s : Status) : String := "HTTP/1.1 " ++ toString s.code ++ " " ++ s.reason

theorem toList_line (s : Status) :
    s.line.toList = "HTTP/1.1".toList ++ ' ' ::
      (Nat.toDigits 10 s.code ++ ' ' :: s.reason.toList) := by
  have hcode : (toString s.code).toList = Nat.toDigits 10 s.code := String.toList_ofList
  rw [line, String.toList_append, String.toList_append, String.toList_append, hcode,
    List.append_assoc, List.append_assoc]
  rfl

theorem not_mem_digits (s : Status) {c : Char} (hc : c.isDigit = false) :
    c ∉ Nat.toDigits 10 s.code := by
  intro h
  rw [Nat.isDigit_of_mem_toDigits (by decide) (by decide) h] at hc
  cases hc

theorem isLine_line (s : Status) : Received.IsLine (Text.encode s.line) := by
  constructor
  · intro h
    have hne : s.line.toList = [] := by
      rw [Text.encode_injective (h.trans Text.encode_nil.symm)]
      rfl
    rw [toList_line] at hne
    cases hne
  · intro h
    have hmem : '\r' ∈ s.line.toList := Text.mem_of_mem_encode h (by decide)
    rw [toList_line] at hmem
    simp only [List.mem_append, List.mem_cons] at hmem
    obtain h | h | h | h | h := hmem
    · exact absurd h (by decide)
    · cases h
    · exact s.not_mem_digits rfl h
    · cases h
    · exact s.not_mem_reason h

end Status

namespace ResponseHead

def fieldText (field : FieldName × FieldValue) : Bytes :=
  Text.encode field.1.text ++ (Received.fieldMark ++ field.2.bytes)

theorem isLine_fieldText (field : FieldName × FieldValue) : Received.IsLine (fieldText field) := by
  obtain ⟨n, v⟩ := field
  constructor
  · simp [fieldText, Received.fieldMark]
  · simp only [fieldText, List.mem_append, not_or]
    exact ⟨n.not_mem_encode (by decide) (by decide), by decide, v.not_mem_bytes (by decide)⟩

theorem splitField_fieldText (field : FieldName × FieldValue) :
    Received.splitField (fieldText field) = (Text.encode field.1.text, field.2.bytes) :=
  Received.splitField_append (field.1.not_mem_encode (by decide) (by decide)) _

theorem fieldLine_eq (field : FieldName × FieldValue) :
    fieldLine field = fieldText field ++ lineEnd := by
  have hmark : Text.encode ": " = Received.fieldMark := by decide
  simp only [fieldLine, fieldText, Text.encode_append, hmark, List.append_assoc]

/-- Ends of lines stand behind the lines, or else in front of the lines that follow. -/
theorem lineEnd_append_flatMap (fields : List (FieldName × FieldValue)) :
    lineEnd ++ fields.flatMap fieldLine = (fields.map fieldText).flatMap
      (lineEnd ++ ·) ++ lineEnd := by
  induction fields with
  | nil => rfl
  | cons field fields ih =>
      rw [List.flatMap_cons, List.map_cons, List.flatMap_cons, fieldLine_eq, List.append_assoc, ih]
      simp only [List.append_assoc]

/-- A head is written as the status line, the lines of the fields, and a blank line. -/
theorem bytes_eq (h : ResponseHead) :
    h.bytes =
      Received.joined (Text.encode h.status.line) (h.headers.entries.map fieldText) ++
        Received.headEnd := by
  have hfields := lineEnd_append_flatMap h.headers.entries
  calc h.bytes
    _ = Text.encode h.status.line ++ (lineEnd ++ h.headers.entries.flatMap fieldLine) ++
      lineEnd := by
      simp only [bytes, statusLine, Status.line, List.append_assoc]
    _ = _ := by rw [hfields, Received.joined, Received.headEnd]; simp only [List.append_assoc]

/-- What the client reads of a response whose head has arrived: the lines that were written, and the
body. -/
theorem read_bytes (h : ResponseHead) (body : Bytes) :
    Received.read (h.bytes ++ body) =
      some ⟨Text.encode h.status.line,
        h.headers.entries.map fun field => (Text.encode field.1.text, field.2.bytes), body⟩ := by
  have hrest : ∀ l ∈ h.headers.entries.map fieldText, Received.IsLine l := by
    intro l hl
    obtain ⟨field, -, rfl⟩ := List.mem_map.1 hl
    exact isLine_fieldText field
  have hstatus := h.status.isLine_line
  rw [bytes_eq, List.append_assoc, Received.read, Received.cutAt_joined hstatus hrest]
  simp only
  rw [Received.lines_joined hstatus.not_mem fun l hl => (hrest l hl).not_mem]
  simp only [List.map_map]
  congr 3
  exact funext splitField_fieldText

end ResponseHead

namespace Received

theorem code?_line (s : Status) (fields : List (Bytes × Bytes)) (body : Bytes) :
    code? ⟨Text.encode s.line, fields, body⟩ = some s.code := by
  rw [code?, Text.decode?_encode, Option.bind_some, Status.toList_line,
    Text.cutChars_append (by decide), Option.bind_some]
  simp only
  rw [Text.cutChars_append (s.not_mem_digits rfl), Option.bind_some, Numeral.read?_toDigits]

theorem getAll_entries (statusLine : Bytes) (h : Headers) (body : Bytes) (n : FieldName) :
    getAll ⟨statusLine, h.entries.map fun field => (Text.encode field.1.text, field.2.bytes), body⟩
        (Text.encode n.text) =
      (h.getAll n).map (·.bytes) := by
  have hname : ∀ m : FieldName, Text.encode m.text = Text.encode n.text ↔ m = n := by
    intro m
    refine ⟨fun h => ?_, fun h => h ▸ rfl⟩
    cases m
    cases n
    cases Text.encode_injective h
    rfl
  simp only [getAll, Headers.getAll, List.filter_map, List.map_map, Function.comp_def, hname]

end Received

end HttpDispatch
