import HttpDispatch.Proofs.Exchange.Body
import HttpDispatch.Proofs.Exchange.Fragments
import HttpDispatch.Proofs.Http.Token
import HttpDispatch.Proofs.Http.Value

/-!
# Requests that are read as they were written

A `HeadText` is the head of a request as a client may write it: with blank lines in front, with
either end for each line, and with blanks around the values of its fields. Within the limits it is
read as what it says (`HeadText.accept_bytes`), exactly what follows its blank line is left in the
reader, and the body is the declared part of that.
-/

namespace HttpDispatch

/-- A header field as a client writes it: a name, a colon, and a value between blanks. -/
structure FieldText where
  spelling : String
  name : FieldName
  name_eq : FieldName.ofString? spelling = some name
  before : List Char
  text : String
  after : List Char
  value : FieldValue
  value_eq : FieldValue.ofString? text = some value
  trim_eq : Text.trim text = text
  blank : ∀ c ∈ before ++ after, c = ' ' ∨ c = '\t'
  lineEnd : LineEnd

/-- The head of a request as a client writes it. -/
structure HeadText where
  /-- The blank lines in front of the request line. -/
  leading : List LineEnd
  method : Method
  targetText : String
  target : Target
  target_eq : Target.ofString? targetText = some target
  unbroken : ' ' ∉ targetText.toList ∧ '\n' ∉ targetText.toList
  version : Version
  version_ne : version ≠ .http2
  startEnd : LineEnd
  fields : List FieldText
  lastEnd : LineEnd

namespace FieldText

def line (f : FieldText) : String :=
  f.spelling ++ ":" ++ String.ofList (f.before ++ f.text.toList ++ f.after)

def bytes (f : FieldText) : Bytes := Text.encode f.line ++ f.lineEnd.bytes

variable (f : FieldText)

theorem line_toList :
    f.line.toList = f.spelling.toList ++ ':' :: (f.before ++ f.text.toList ++ f.after) := by
  simp [line]

theorem line_ne_empty : f.line ≠ "" := by
  intro h
  have := congrArg String.toList h
  rw [line_toList] at this
  simp at this

theorem not_mem_line {c : Char} (hc : c = '\n' ∨ c = '\r') : c ∉ f.line.toList := by
  have hname : c ∉ f.spelling.toList :=
    not_mem_of_isToken (FieldName.isToken_of_ofString? f.name_eq)
      (by rcases hc with rfl | rfl <;> decide)
  have hblank : c ∉ f.before ++ f.after := by
    intro hmem
    obtain rfl | rfl := f.blank c hmem
    all_goals exact absurd hc (by decide)
  have htext : c ∉ f.text.toList := by
    refine FieldValue.not_mem_of_ofString? f.value_eq ?_ ?_
    all_goals rcases hc with rfl | rfl <;> decide
  rw [List.mem_append, not_or] at hblank
  rw [line_toList]
  simp only [List.mem_append, List.mem_cons, not_or]
  exact ⟨hname, by rcases hc with rfl | rfl <;> decide, ⟨hblank.1, htext⟩, hblank.2⟩

theorem readField_line : RequestHead.readField f.line = .ok (f.name, f.value) := by
  have htoken := FieldName.isToken_of_ofString? f.name_eq
  have hcut : Text.cut ':' f.line =
      some (f.spelling, String.ofList (f.before ++ f.text.toList ++ f.after)) := by
    rw [Text.cut, line_toList, Text.cutChars_append (not_mem_of_isToken htoken (by decide)),
      Option.map_some]
    dsimp only
    rw [String.ofList_toList]
  have hspelling : Text.trim f.spelling = f.spelling := by
    simp only [isToken, Bool.and_eq_true, List.all_eq_true] at htoken
    exact Text.trim_of_forall fun c hc => isBlank_of_isTokenChar (htoken.2 c hc)
  have hblank : ∀ c ∈ f.before ++ f.after, Text.isBlank c = true := by
    intro c hc
    obtain rfl | rfl := f.blank c hc
    all_goals decide
  have htext : Text.trim (String.ofList (f.before ++ f.text.toList ++ f.after)) = f.text := by
    rw [Text.trim, String.toList_ofList,
      Text.trimChars_append (fun c hc => hblank c (List.mem_append_left _ hc)) _
        (fun c hc => hblank c (List.mem_append_right _ hc))]
    exact f.trim_eq
  rw [RequestHead.readField, hcut]
  dsimp only
  rw [hspelling, f.name_eq, htext]
  dsimp only
  rw [f.value_eq]

end FieldText

namespace HeadText

def startLine (h : HeadText) : String :=
  h.method.name ++ " " ++ h.targetText ++ " " ++ h.version.text

def bytes (h : HeadText) : Bytes :=
  h.leading.flatMap LineEnd.bytes ++ (Text.encode h.startLine ++ h.startEnd.bytes) ++
    h.fields.flatMap FieldText.bytes ++ h.lastEnd.bytes

def lengths (h : HeadText) : List String :=
  (h.fields.filter (·.name = .contentLength)).map (·.text)

/-- The length that the head declares for the body. Without a declaration there is no body. -/
def declaredLength (h : HeadText) : Nat :=
  match h.lengths with
  | [] => 0
  | s :: _ => Nat.ofDigitChars 10 s.toList 0

/-- Whether the head and the body that it declares are within the limits. The largest length for a
body is a number of 64 bits. -/
structure Within (h : HeadText) (limits : RequestLimits) : Prop where
  start_le : (Text.encode h.startLine).length ≤ limits.maxLine
  line_le : ∀ f ∈ h.fields, (Text.encode f.line).length ≤ limits.maxLine
  count_le : h.fields.length ≤ limits.maxHeaders
  not_transfer : ∀ f ∈ h.fields, f.name ≠ .transferEncoding
  single : h.lengths.length ≤ 1
  decimal : ∀ s ∈ h.lengths, s ≠ "" ∧ ∀ c ∈ s.toList, c.isDigit = true
  length_le : h.declaredLength ≤ limits.maxBody
  word : limits.maxBody < UInt64.size

structure Says (h : HeadText) (head : RequestHead) : Prop where
  method_eq : head.method = h.method
  target_eq : head.target = h.target
  version_eq : head.version = h.version
  /-- Under each name there are the values in the order in which they are written. -/
  getAll_eq : ∀ n, head.headers.getAll n = (h.fields.filter (·.name = n)).map (·.value)
  contentLength_eq : head.contentLength = h.declaredLength

variable {h : HeadText} {limits : RequestLimits} {r : Reader} {rest : Bytes}
    {failure : Option IoError}

/-!
## The request line
-/

theorem targetText_ne_empty (h : HeadText) : h.targetText ≠ "" := by
  intro hempty
  have htarget := h.target_eq
  have hnone : Target.ofString? "" = none := by decide
  rw [hempty, hnone] at htarget
  cases htarget

theorem readRequestLine_startLine (h : HeadText) :
    RequestHead.readRequestLine h.startLine = .ok (h.method, h.target, h.version) := by
  have hversion : ' ' ∉ h.version.text.toList ∧ h.version.text ≠ "" ∧
      RequestHead.version? h.version.text = some h.version := by
    have hne := h.version_ne
    cases hv : h.version with
    | http10 => decide
    | http11 => decide
    | http2 => exact absurd hv hne
  have hsplit : Text.split ' ' h.startLine = [h.method.name, h.targetText, h.version.text] := by
    rw [Text.split_of_append (not_mem_of_isToken h.method.isToken (by decide))
        (h.targetText ++ " " ++ h.version.text) (by simp [startLine]),
      Text.split_of_append h.unbroken.1 h.version.text (by simp), Text.split_of_not_mem hversion.1]
  have hmethod : Method.ofString? h.method.name = some h.method := dif_pos h.method.isToken
  rw [RequestHead.readRequestLine, hsplit, List.filter_eq_self.2]
  · rw [RequestHead.readWords, hmethod]
    dsimp only
    rw [hversion.2.2]
    dsimp only
    rw [if_neg (by decide), h.target_eq]
  · simpa using ⟨ne_empty_of_isToken h.method.isToken, h.targetText_ne_empty, hversion.2.1⟩

theorem startLine_ne_empty (h : HeadText) : h.startLine ≠ "" := by
  intro hempty
  have := congrArg String.toList hempty
  simp [startLine] at this

theorem lineFeed_not_mem_startLine (h : HeadText) : '\n' ∉ h.startLine.toList := by
  have hmethod := not_mem_of_isToken h.method.isToken (by decide : isTokenChar '\n' = false)
  have hversion : '\n' ∉ h.version.text.toList := by cases h.version <;> decide
  simp [startLine, hmethod, h.unbroken.2, hversion]

theorem getLast?_startLine (h : HeadText) : h.startLine.toList.getLast? ≠ some '\r' := by
  have hversion : h.version.text.toList ≠ [] ∧ h.version.text.toList.getLast? ≠ some '\r' := by
    cases h.version <;> decide
  rw [startLine, String.toList_append, List.getLast?_append_of_ne_nil _ hversion.1]
  exact hversion.2

/-!
## The lines of the head
-/

theorem readLine_of_holds {s : String} {e : LineEnd} {max : Nat}
    (h : r.Holds (Text.encode s ++ e.bytes ++ rest) failure) (hline : '\n' ∉ s.toList)
    (hlast : s.toList.getLast? ≠ some '\r') (hmax : (Text.encode s).length ≤ max) :
    ∃ r', RequestHead.readLine r max = (.ok (some s), r') ∧ r'.Holds rest failure := by
  obtain ⟨r', hread, h'⟩ := h.readLine hline hlast hmax
  exact ⟨r', by rw [RequestHead.readLine, hread], h'⟩

theorem readLine_of_blank {e : LineEnd} (h : r.Holds (e.bytes ++ rest) failure) (max : Nat) :
    ∃ r', RequestHead.readLine r max = (.ok (some ""), r') ∧ r'.Holds rest failure := by
  rw [← List.nil_append e.bytes, ← Text.encode_nil] at h
  exact readLine_of_holds h (by decide) (by decide) (by rw [Text.encode_nil]; exact Nat.zero_le max)

theorem readStart_of_holds {leading : List LineEnd} {s : String} {e : LineEnd} {max : Nat}
    (h : r.Holds (leading.flatMap LineEnd.bytes ++ (Text.encode s ++ e.bytes) ++ rest) failure)
    (hne : s ≠ "") (hline : '\n' ∉ s.toList) (hlast : s.toList.getLast? ≠ some '\r')
    (hmax : (Text.encode s).length ≤ max) :
    ∃ r', RequestHead.readStart r max = (.ok s, r') ∧ r'.Holds rest failure := by
  induction leading generalizing r with
  | nil =>
      obtain ⟨r', hread, h'⟩ := readLine_of_holds h hline hlast hmax
      refine ⟨r', ?_, h'⟩
      rw [RequestHead.readStart_eq, hread, Attempt.andThen_ok]
      exact if_neg hne
  | cons e' leading ih =>
      rw [List.flatMap_cons, List.append_assoc,
        List.append_assoc, ← List.append_assoc _ _ rest] at h
      obtain ⟨r₁, hread, h₁⟩ := readLine_of_blank h max
      obtain ⟨r', hstart, h'⟩ := ih h₁
      refine ⟨r', ?_, h'⟩
      rw [RequestHead.readStart_eq, hread, Attempt.andThen_ok]
      exact (if_pos rfl).trans hstart

/-- The fields are put one after the other behind those that have been read, up to the
blank line. -/
theorem readFields_of_holds {fields : List FieldText} {e : LineEnd} (headers : Headers)
    (h : r.Holds (fields.flatMap FieldText.bytes ++ e.bytes ++ rest) failure)
    (hline : ∀ f ∈ fields, (Text.encode f.line).length ≤ limits.maxLine)
    (hcount : headers.size + fields.length ≤ limits.maxHeaders) :
    ∃ r', RequestHead.readFields r limits headers =
        (.ok ⟨headers.entries ++ fields.map fun f => (f.name, f.value)⟩, r') ∧
          r'.Holds rest failure := by
  induction fields generalizing r headers with
  | nil =>
      obtain ⟨r', hread, h'⟩ := readLine_of_blank h limits.maxLine
      refine ⟨r', ?_, h'⟩
      rw [RequestHead.readFields_eq, hread, Attempt.andThen_ok, List.map_nil, List.append_nil]
      exact if_pos rfl
  | cons f fields ih =>
      obtain ⟨hf, hfields⟩ := List.forall_mem_cons.1 hline
      rw [List.length_cons] at hcount
      rw [List.flatMap_cons, FieldText.bytes, List.append_assoc, List.append_assoc,
        ← List.append_assoc _ _ rest] at h
      obtain ⟨r₁, hread, h₁⟩ := readLine_of_holds h (f.not_mem_line (.inl rfl))
        (fun hlast => f.not_mem_line (.inr rfl) (List.mem_of_getLast? hlast)) hf
      have hsize : (headers.append f.name f.value).size = headers.size + 1 := by
        rw [Headers.size, Headers.append, List.length_append, List.length_singleton, Headers.size]
      obtain ⟨r', hrest, h'⟩ := ih (headers.append f.name f.value) h₁ hfields (by omega)
      refine ⟨r', ?_, h'⟩
      rw [RequestHead.readFields_eq, hread, Attempt.andThen_ok]
      dsimp only
      rw [if_neg f.line_ne_empty, if_neg (by omega), f.readField_line]
      dsimp only
      rw [hrest, Headers.append, List.append_assoc, List.singleton_append, List.map_cons]

/-!
## What the fields declare
-/

def headers (h : HeadText) : Headers := ⟨h.fields.map fun f => (f.name, f.value)⟩

theorem getAll_headers (h : HeadText) (n : FieldName) :
    h.headers.getAll n = (h.fields.filter (·.name = n)).map (·.value) := by
  rw [Headers.getAll, headers, List.filter_map, List.map_map]
  rfl

theorem declaredLength_headers (hw : h.Within limits) :
    RequestHead.declaredLength h.headers = .ok h.declaredLength := by
  have hdecimal := hw.decimal
  have hlength := hw.length_le
  have hsingle := hw.single
  rw [RequestHead.declaredLength, Headers.get?, getAll_headers]
  unfold declaredLength lengths at *
  cases hfields : h.fields.filter (·.name = .contentLength) with
  | nil => rfl
  | cons f fs =>
      rw [hfields, List.map_cons] at hdecimal hlength
      obtain ⟨hne, hdigits⟩ := hdecimal f.text List.mem_cons_self
      dsimp only at hlength
      have hascii : ∀ c ∈ f.text.toList, c.toNat < 0x7F := by
        intro c hc
        have htoken : isTokenChar c = true := by simp [isTokenChar, Char.isAlphanum, hdigits c hc]
        exact (visible_of_isTokenChar htoken).2
      rw [List.map_cons, List.head?_cons]
      dsimp only
      rw [FieldValue.text?_of_ofString? f.value_eq hascii, Option.bind_some, f.trim_eq,
        Numeral.word?_of_isDigit hne hdigits (Nat.lt_of_le_of_lt hlength hw.word)]
      rfl

theorem assemble_headers (hw : h.Within limits) :
    RequestHead.assemble limits (h.method, h.target, h.version) h.headers =
      .ok { method := h.method, target := h.target, version := h.version, headers := h.headers,
            contentLength := h.declaredLength } := by
  have hencoding : h.headers.contains .transferEncoding = false := by
    rw [Headers.contains, headers, List.any_map, List.any_eq_false]
    intro f hf
    simpa using hw.not_transfer f hf
  rw [RequestHead.assemble, if_neg (by simp [hencoding]), declaredLength_headers hw]
  dsimp only
  rw [if_neg (Nat.not_lt.2 hw.length_le)]

/-- A head within the limits is read as what it says, and the reader is left with what
follows it. -/
theorem read_of_holds (hw : h.Within limits) (hr : r.Holds (h.bytes ++ rest) failure) :
    ∃ head r', RequestHead.read r limits = (.ok head, r') ∧
      h.Says head ∧ r'.Holds rest failure := by
  rw [bytes, List.append_assoc, List.append_assoc, ← List.append_assoc _ _ rest] at hr
  obtain ⟨r₁, hstart, h₁⟩ := readStart_of_holds hr h.startLine_ne_empty h.lineFeed_not_mem_startLine
    h.getLast?_startLine hw.start_le
  obtain ⟨r', hfields, h'⟩ := readFields_of_holds .empty h₁ hw.line_le
    (by simpa [Headers.empty, Headers.size] using hw.count_le)
  refine ⟨{ method := h.method, target := h.target, version := h.version, headers := h.headers,
            contentLength := h.declaredLength }, r', ?_, ⟨rfl, rfl, rfl, h.getAll_headers, rfl⟩, h'⟩
  rw [RequestHead.read, hstart, Attempt.andThen_ok, readRequestLine_startLine]
  dsimp only
  rw [hfields, Attempt.andThen_ok, Headers.empty, List.nil_append]
  exact congrArg (·, r') (assemble_headers hw)

/-- A head within the limits is read as what it says, and exactly what follows its blank line is
left. The exchange that is made of it has the declared part of this for its body: all of it if it is
less, unless the source fails. -/
theorem accept_bytes (hw : h.Within limits) (rest : Bytes) :
    (∀ r : Reader, r.rest = h.bytes ++ rest →
      ∃ head r', RequestHead.read r limits = (.ok head, r') ∧ h.Says head ∧ r'.rest = rest) ∧
    ∀ (source : Source) (out : Writer) (remote : Option SocketAddress),
      source.rest = h.bytes ++ rest →
      ∃ head x, Exchange.accept source out remote limits = .ok (head, x) ∧ h.Says head ∧
        x.request = head.request remote ∧ x.out = out ∧
        (source.failure = none ∨ h.declaredLength ≤ rest.length →
          x.body.Holds (rest.take h.declaredLength) ∧
            x.readBody.1 = .ok (rest.take h.declaredLength)) := by
  refine ⟨fun r hr => ?_, fun source out remote hsource => ?_⟩
  · obtain ⟨head, r', hread, hmeans, h'⟩ := read_of_holds hw ⟨hr, rfl⟩
    exact ⟨head, r', hread, hmeans, h'.rest_eq⟩
  · have hr : ({ source } : Reader).Holds (h.bytes ++ rest) source.failure := ⟨hsource, rfl⟩
    obtain ⟨head, r', hread, hmeans, h'⟩ := read_of_holds hw hr
    have haccept : Exchange.accept source out remote limits =
        .ok (head, { transport := .wire, request := head.request remote,
                     body := .bounded head.contentLength r', out }) := by
      rw [Exchange.accept, hread]
    refine ⟨head, _, haccept, hmeans, rfl, rfl, fun hend => ?_⟩
    have hbody :
        (RequestBody.bounded head.contentLength r').Holds (rest.take h.declaredLength) := by
      rw [hmeans.contentLength_eq]
      exact ⟨rest, source.failure, h', rfl, hend.symm⟩
    exact ⟨hbody, hbody.readAll⟩

/-- A request with a blank line in front, with both ends of lines, and with a name spelled in two
ways. -/
def posting : HeadText where
  leading := [.withReturn, .bare]
  method := .post
  targetText := "http://host/a?b=c"
  target := ⟨"/a", some "b=c"⟩
  target_eq := by decide
  unbroken := by decide
  version := .http11
  version_ne := by decide
  startEnd := .bare
  fields :=
    [{ spelling := "Tag", name := ⟨"tag", by decide⟩, name_eq := by decide, before := [' ', '\t'],
       text := "naïve", after := [' '], value := .ofString "naïve", value_eq := by decide,
       trim_eq := by decide, blank := by simp, lineEnd := .bare },
     { spelling := "Content-Length", name := .contentLength, name_eq := by decide, before := [],
       text := "005", after := [], value := .ofString "005", value_eq := by decide,
       trim_eq := by decide, blank := by simp, lineEnd := .withReturn },
     { spelling := "TAG", name := ⟨"tag", by decide⟩, name_eq := by decide, before := [' '],
       text := "", after := [], value := .ofString "", value_eq := by decide,
       trim_eq := by decide, blank := by simp, lineEnd := .withReturn }]
  lastEnd := .withReturn

/-- The body of the request, and the beginning of another request. -/
def afterPosting : Bytes := Text.encode "helloGET"

/-- A connection that delivers no more than three bytes at a time, and fails after them. -/
def slowly : Source where
  data := posting.bytes ++ afterPosting
  portion := fun _ => some 2
  failure := some { kind := .other, message := "" }

theorem accept_bytes_posting :
    posting.Within {} ∧ slowly.rest = posting.bytes ++ afterPosting ∧
      (∃ head x, Exchange.accept slowly {} none {} = .ok (head, x) ∧ posting.Says head ∧
        x.readBody.1 = .ok (Text.encode "hello")) ∧
      ∃ head r', RequestHead.read { source := slowly } {} = (.ok head, r') ∧ posting.Says head ∧
        r'.rest = afterPosting := by
  have hlengths : posting.lengths = ["005"] := by decide +kernel
  have hdecimal : ∀ s ∈ posting.lengths, s ≠ "" ∧ ∀ c ∈ s.toList, c.isDigit = true := by
    rw [hlengths, List.forall_mem_singleton]
    exact ⟨by decide, List.all_eq_true.1 (by decide)⟩
  have hwithin : posting.Within {} := by
    refine ⟨?_, ?_, ?_, ?_, ?_, hdecimal, ?_, ?_⟩
    all_goals decide +kernel
  have hrest : slowly.rest = posting.bytes ++ afterPosting := rfl
  obtain ⟨hread, haccept⟩ := accept_bytes hwithin afterPosting
  obtain ⟨head, x, hx, hmeans, _, _, hbody⟩ := haccept slowly {} none hrest
  exact ⟨hwithin, hrest, ⟨head, x, hx, hmeans, (hbody (.inr (by decide +kernel))).2⟩,
    hread { source := slowly } hrest⟩

end HeadText

end HttpDispatch
