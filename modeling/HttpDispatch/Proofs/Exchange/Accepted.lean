import HttpDispatch.Proofs.Attempt
import HttpDispatch.Proofs.Exchange.Fragments
import HttpDispatch.Proofs.Http.Headers
import HttpDispatch.Proofs.Http.Value

/-!
# What is known of a head that has been accepted

Where a head is read, the bytes that this takes off the connection are the lines of a request, and
what is kept of them is what they say (`RequestHead.exists_lines_of_readLines`). Where it is
accepted, more is known: the lines and their number are within the limits, the target has been
brought into the form of a path, and the length of the body is the number that the head declares
(`RequestHead.accepted_of_read`).
-/

namespace HttpDispatch

/-- A line on a connection that is not blank. A line feed is nothing but its end, and if that is a
line feed alone, there is no carriage return before it. -/
structure WireLine where
  text : String
  lineEnd : LineEnd
  ne_empty : text ≠ ""
  unbroken : '\n' ∉ text.toList
  whole : lineEnd = .bare → text.toList.getLast? ≠ some '\r'

namespace WireLine

def bytes (l : WireLine) : Bytes := Text.encode l.text ++ l.lineEnd.bytes

def size (l : WireLine) : Nat := (Text.encode l.text).length

def words (l : WireLine) : List String := (Text.split ' ' l.text).filter (· ≠ "")

/-- What the line says of a field: its name, in whatever spelling, and the bytes of its value. -/
def field? (l : WireLine) : Option (String × Bytes) :=
  (Text.cut ':' l.text).map fun part =>
    (Text.lower (Text.trim part.1), Text.encode (Text.trim part.2))

end WireLine

/-- The lines of a head, up to and including the blank line that ends it. -/
structure HeadLines where
  /-- The blank lines in front of the request line. -/
  leading : List LineEnd
  start : WireLine
  fields : List WireLine
  lastEnd : LineEnd

def HeadLines.bytes (h : HeadLines) : Bytes :=
  h.leading.flatMap LineEnd.bytes ++ h.start.bytes ++
    (h.fields.flatMap WireLine.bytes ++ h.lastEnd.bytes)

/-!
## The target
-/

namespace Text

variable {sep : Char} {cs : List Char}

theorem takeWhile_of_cutChars {before after : List Char}
    (h : cutChars sep cs = some (before, after)) : cs.takeWhile (· ≠ sep) = before := by
  induction cs generalizing before with
  | nil => cases h
  | cons c cs ih =>
      rw [cutChars] at h
      split at h
      · next hc =>
        cases h
        exact List.takeWhile_cons_of_neg (by simpa using hc)
      · next hc =>
        obtain ⟨⟨a, b⟩, hab, heq⟩ := Option.map_eq_some_iff.1 h
        cases heq
        rw [List.takeWhile_cons_of_pos (by simpa using hc), ih hab]

theorem takeWhile_of_cutChars_eq_none (h : cutChars sep cs = none) :
    cs.takeWhile (· ≠ sep) = cs := by
  induction cs with
  | nil => rfl
  | cons c cs ih =>
      rw [cutChars] at h
      split at h
      · cases h
      · next hc =>
        rw [List.takeWhile_cons_of_pos (by simpa using hc), ih (Option.map_eq_none_iff.1 h)]

end Text

namespace Target

/-- What a target is brought to: a path, or a star for the server as a whole. -/
structure IsPath (path : String) : Prop where
  ne_empty : path ≠ ""
  form : path = "*" ∨ path.toList.head? = some '/'
  query_not_mem : '?' ∉ path.toList
  fragment_not_mem : '#' ∉ path.toList

theorem isPath_slash : IsPath "/" := ⟨by decide, .inr (by decide), by decide, by decide⟩

theorem isPath_star : IsPath "*" := ⟨by decide, .inl rfl, by decide, by decide⟩

theorem path_ofOrigin (cs : List Char) :
    (ofOrigin cs).path = String.ofList ((cs.takeWhile (· ≠ '?')).takeWhile (· ≠ '#')) := by
  unfold ofOrigin
  split
  · next h => rw [Text.takeWhile_of_cutChars h]
  · next h => rw [Text.takeWhile_of_cutChars_eq_none h]

theorem isPath_ofOrigin (cs : List Char) : IsPath (ofOrigin ('/' :: cs)).path := by
  rw [path_ofOrigin, List.takeWhile_cons_of_pos (by decide), List.takeWhile_cons_of_pos (by decide)]
  refine ⟨by simp, .inr (by simp), ?_, ?_⟩
  all_goals rw [String.toList_ofList, List.mem_cons, not_or]
  · refine ⟨by decide, fun hmem => ?_⟩
    simpa using List.mem_takeWhile_imp ((List.takeWhile_prefix _).subset hmem)
  · exact ⟨by decide, fun hmem => by simpa using List.mem_takeWhile_imp hmem⟩

theorem isPath_ofAddressEnd {cs : List Char} (h : ∀ c ∈ cs.head?, endsAuthority c = true) :
    IsPath (ofAddressEnd cs).path := by
  unfold ofAddressEnd
  split
  · exact isPath_slash
  · exact isPath_slash
  · next hnil hquery =>
    cases cs with
    | nil => exact absurd rfl hnil
    | cons c cs =>
        have hc := h c rfl
        rw [endsAuthority, Bool.or_eq_true, decide_eq_true_eq, decide_eq_true_eq] at hc
        obtain rfl | rfl := hc
        · exact isPath_ofOrigin cs
        · exact absurd rfl (hquery cs)

/-- A target has a path, whether it is written as one, as a star or as a whole address. -/
theorem isPath_of_ofString? {s : String} {t : Target} (h : ofString? s = some t) :
    IsPath t.path := by
  unfold ofString? at h
  split at h
  · next hform =>
    cases h
    rw [Bool.or_eq_true, decide_eq_true_eq, Text.startsWith, beq_iff_eq] at hform
    obtain hslash | rfl := hform
    · obtain ⟨cs, hcs⟩ := List.head?_eq_some_iff.1 hslash
      rw [hcs]
      exact isPath_ofOrigin cs
    · exact isPath_star
  · obtain ⟨rest, -, rfl⟩ := Option.map_eq_some_iff.1 h
    refine isPath_ofAddressEnd fun c hc => ?_
    have hends := List.head?_dropWhile_not (fun c => !endsAuthority c) rest
    rw [hc] at hends
    simpa using hends

end Target

theorem Method.name_of_ofString? {s : String} {m : Method} (h : ofString? s = some m) :
    m.name = s := by
  unfold ofString? at h
  split at h
  · cases h
    rfl
  · cases h

/-!
## The lines that are read
-/

namespace RequestHead

variable {r r' : Reader} {limits : RequestLimits}

theorem exists_of_readLine {s : String} {max : Nat} (h : readLine r max = (.ok (some s), r')) :
    (s = "" ∧ ∃ e : LineEnd, r.rest = e.bytes ++ r'.rest) ∨
      ∃ l : WireLine, l.text = s ∧ r.rest = l.bytes ++ r'.rest ∧ l.size ≤ max := by
  unfold readLine at h
  split at h <;> cases h
  next hline =>
  obtain ⟨e, hrest, hunbroken, hwhole, hsize⟩ := Reader.eq_append_of_readLine hline
  by_cases hs : s = ""
  · refine .inl ⟨hs, e, ?_⟩
    rw [hrest, hs, Text.encode_nil, List.nil_append]
  · exact .inr ⟨⟨s, e, hs, hunbroken, hwhole⟩, rfl, hrest, hsize⟩

theorem exists_of_readStart {s : String} {max : Nat} (h : readStart r max = (.ok s, r')) :
    ∃ (leading : List LineEnd) (l : WireLine), l.text = s ∧
      r.rest = leading.flatMap LineEnd.bytes ++ l.bytes ++ r'.rest ∧ l.size ≤ max := by
  induction hn : r.rest.length using Nat.strongRecOn generalizing r with
  | ind n ih =>
      subst hn
      rw [readStart_eq] at h
      obtain ⟨_ | line, r₁, hline, h⟩ := Attempt.exists_of_andThen_eq_ok h
      · cases h
      · dsimp only at h
        obtain ⟨rfl, e, hrest⟩ | ⟨l, rfl, hrest, hsize⟩ := exists_of_readLine hline
        · rw [if_pos rfl] at h
          obtain ⟨leading, l, hl, hrest', hsize⟩ := ih _ (length_rest_lt_of_readLine hline) h rfl
          refine ⟨e :: leading, l, hl, ?_, hsize⟩
          rw [hrest, hrest', List.flatMap_cons, List.append_assoc, List.append_assoc,
            List.append_assoc]
        · rw [if_neg l.ne_empty] at h
          cases h
          exact ⟨[], l, rfl, hrest, hsize⟩

theorem field?_of_readField {l : WireLine} {n : FieldName} {v : FieldValue}
    (h : readField l.text = .ok (n, v)) : l.field? = some (n.text, v.bytes) := by
  unfold readField at h
  split at h
  · cases h
  next name value hcut =>
  split at h
  · cases h
  next hname =>
  split at h
  · cases h
  next hvalue =>
  cases h
  rw [WireLine.field?, hcut, Option.map_some, FieldName.text_of_ofString? hname,
    FieldValue.bytes_of_ofString? hvalue]

/-- The fields that are put behind others are those that the lines say, up to the next
blank line. -/
theorem exists_of_readFields {headers all : Headers}
    (h : readFields r limits headers = (.ok all, r')) :
    ∃ (fields : List WireLine) (e : LineEnd) (added : List (FieldName × FieldValue)),
      r.rest = fields.flatMap WireLine.bytes ++ e.bytes ++ r'.rest ∧
        (∀ l ∈ fields, l.size ≤ limits.maxLine) ∧ all.entries = headers.entries ++ added ∧
        fields.map WireLine.field? = added.map fun field => some (field.1.text, field.2.bytes) := by
  induction hn : r.rest.length using Nat.strongRecOn generalizing r headers with
  | ind n ih =>
      subst hn
      rw [readFields_eq] at h
      obtain ⟨_ | line, r₁, hline, h⟩ := Attempt.exists_of_andThen_eq_ok h
      · cases h
      · dsimp only at h
        obtain ⟨rfl, e, hrest⟩ | ⟨l, rfl, hrest, hsize⟩ := exists_of_readLine hline
        · rw [if_pos rfl] at h
          cases h
          exact ⟨[], e, [], hrest, by simp, by simp, rfl⟩
        · rw [if_neg l.ne_empty] at h
          split at h
          · cases h
          split at h
          · cases h
          next n v hfield =>
          obtain ⟨fields, e, added, hrest', hsizes, hall, hgiven⟩ :=
            ih _ (length_rest_lt_of_readLine hline) h rfl
          refine ⟨l :: fields, e, (n, v) :: added, ?_,
            List.forall_mem_cons.2 ⟨hsize, hsizes⟩, ?_, ?_⟩
          · rw [hrest, hrest', List.flatMap_cons, List.append_assoc, List.append_assoc,
              List.append_assoc]
          · rw [hall, Headers.append, List.append_assoc, List.singleton_append]
          · rw [List.map_cons, List.map_cons, field?_of_readField hfield, hgiven]

theorem size_le_of_readFields {headers all : Headers}
    (h : readFields r limits headers = (.ok all, r')) (hsize : headers.size ≤ limits.maxHeaders) :
    all.size ≤ limits.maxHeaders := by
  induction hn : r.rest.length using Nat.strongRecOn generalizing r headers with
  | ind n ih =>
      subst hn
      rw [readFields_eq] at h
      obtain ⟨_ | line, r₁, hline, h⟩ := Attempt.exists_of_andThen_eq_ok h
      · cases h
      · dsimp only at h
        split at h
        · cases h
          exact hsize
        split at h
        · cases h
        next hroom =>
        split at h
        · cases h
        next n v hfield =>
        refine ih _ (length_rest_lt_of_readLine hline) h ?_ rfl
        rw [Headers.size, Headers.append, List.length_append, List.length_singleton]
        exact Nat.lt_of_not_le hroom

theorem eq_of_version? {s : String} {version : Version} (h : version? s = some version) :
    s = "HTTP/1.0" ∧ version = .http10 ∨ s = "HTTP/1.1" ∧ version = .http11 := by
  unfold version? at h
  split at h
  · next hs =>
    cases h
    exact .inr ⟨hs, rfl⟩
  · split at h
    · next hs =>
      cases h
      exact .inl ⟨hs, rfl⟩
    · cases h

theorem exists_of_readWords {words : List String} {m : Method} {target : Target} {version : Version}
    (h : readWords words = .ok (m, target, version)) :
    ∃ t v, words = [m.name, t, v] ∧ Target.ofString? t = some target ∧
      (v = "HTTP/1.0" ∧ version = .http10 ∨ v = "HTTP/1.1" ∧ version = .http11) := by
  rcases words with _ | ⟨w, words⟩
  · cases h
  rw [readWords] at h
  split at h
  · cases h
  next method hmethod =>
  rcases words with _ | ⟨t, _ | ⟨v, more⟩⟩
  · cases h
  · cases h
  dsimp only at h
  split at h
  · cases h
  next hversion =>
  split at h
  · cases h
  next hmore =>
  split at h
  · cases h
  next htarget =>
  cases h
  obtain rfl : more = [] := by simpa using hmore
  exact ⟨t, v, by rw [Method.name_of_ofString? hmethod], htarget, eq_of_version? hversion⟩

/-- Reads the request line and the fields, without asking what they say of the body. -/
def readLines (r : Reader) (limits : RequestLimits) :
    Attempt Reader RequestError ((Method × Target × Version) × Headers) :=
  (readStart r limits.maxLine).andThen fun line r =>
    match readRequestLine line with
    | .error fault => (.error (.malformed fault), r)
    | .ok start => (readFields r limits .empty).andThen fun headers r => (.ok (start, headers), r)

theorem read_eq (r : Reader) (limits : RequestLimits) :
    read r limits =
      (readLines r limits).andThen fun read r => (assemble limits read.1 read.2, r) := by
  unfold read readLines
  rcases readStart r limits.maxLine with ⟨_ | line, r₁⟩
  · rfl
  · rw [Attempt.andThen_ok, Attempt.andThen_ok]
    cases readRequestLine line with
    | error fault => rfl
    | ok start => rcases readFields r₁ limits .empty with ⟨_ | headers, r₂⟩ <;> rfl

structure ReadFrom (limits : RequestLimits) (lines : HeadLines) (start : Method × Target × Version)
    (headers : Headers) : Prop where
  size_le : ∀ l ∈ lines.start :: lines.fields, l.size ≤ limits.maxLine
  words_eq : ∃ t v, lines.start.words = [start.1.name, t, v] ∧ Target.ofString? t = some start.2.1 ∧
    (v = "HTTP/1.0" ∧ start.2.2 = .http10 ∨ v = "HTTP/1.1" ∧ start.2.2 = .http11)
  fields_eq : lines.fields.map WireLine.field? =
    headers.entries.map fun field => some (field.1.text, field.2.bytes)
  count_le : headers.size ≤ limits.maxHeaders

/-- What is read is what the lines say that are taken off the connection. -/
theorem exists_lines_of_readLines {start : Method × Target × Version} {headers : Headers}
    (h : readLines r limits = (.ok (start, headers), r')) :
    ∃ lines : HeadLines, r.rest = lines.bytes ++ r'.rest ∧ ReadFrom limits lines start headers := by
  obtain ⟨line, r₁, hstart, h⟩ := Attempt.exists_of_andThen_eq_ok h
  split at h
  · cases h
  next hline =>
  obtain ⟨all, r₂, hfields, h⟩ := Attempt.exists_of_andThen_eq_ok h
  cases h
  obtain ⟨leading, l, rfl, hrest, hsize⟩ := exists_of_readStart hstart
  obtain ⟨fields, e, added, hrest', hsizes, hall, hgiven⟩ := exists_of_readFields hfields
  refine ⟨⟨leading, l, fields, e⟩, ?_, ?_⟩
  · rw [hrest, hrest', HeadLines.bytes, ← List.append_assoc]
  · refine ⟨List.forall_mem_cons.2 ⟨hsize, hsizes⟩, exists_of_readWords hline, ?_,
      size_le_of_readFields hfields (Nat.zero_le _)⟩
    rw [hall]
    exact hgiven

/-!
## What is accepted
-/

section

variable {lines : HeadLines} {start : Method × Target × Version} {headers : Headers}

theorem ReadFrom.exists_mem_getAll (h : ReadFrom limits lines start headers) {l : WireLine}
    (hl : l ∈ lines.fields) {n : FieldName} {value : Bytes}
    (hgiven : l.field? = some (n.text, value)) :
    ∃ v ∈ headers.getAll n, v.bytes = value := by
  have hsaid : l.field? ∈ headers.entries.map fun field => some (field.1.text, field.2.bytes) :=
    h.fields_eq ▸ List.mem_map_of_mem hl
  obtain ⟨⟨m, v⟩, hfield, heq⟩ := List.mem_map.1 hsaid
  obtain ⟨hname, hvalue⟩ := Prod.mk.inj (Option.some_inj.1 (heq.trans hgiven))
  have hmn : m = n := by
    cases m
    cases n
    cases hname
    rfl
  exact ⟨v, List.mem_map.2 ⟨(m, v), List.mem_filter.2 ⟨hfield, decide_eq_true hmn⟩, rfl⟩, hvalue⟩

theorem ReadFrom.isTrimmed (h : ReadFrom limits lines start headers) (n : FieldName) :
    ∀ v ∈ headers.getAll n, v.IsTrimmed := by
  intro v hv
  obtain ⟨field, hfield, rfl⟩ := List.mem_map.1 hv
  have hsaid : some (field.1.text, field.2.bytes) ∈ lines.fields.map WireLine.field? :=
    h.fields_eq ▸ List.mem_map_of_mem (List.mem_of_mem_filter hfield)
  obtain ⟨l, -, hl⟩ := List.mem_map.1 hsaid
  obtain ⟨part, -, hpart⟩ := Option.map_eq_some_iff.1 hl
  exact ⟨part.2, (congrArg Prod.snd hpart).symm⟩

/-- The length that is declared is the number that the first value denotes. Other values are not
looked at. -/
theorem declaredLength_eq_ok_iff {n : Nat}
    (h : ∀ v ∈ headers.getAll .contentLength, v.IsTrimmed) :
    declaredLength headers = .ok n ↔
      match headers.getAll .contentLength with
      | [] => n = 0
      | v :: _ => v.Denotes n ∧ n < UInt64.size := by
  unfold declaredLength Headers.get?
  cases hvalues : headers.getAll .contentLength with
  | nil => exact ⟨fun h => (Except.ok.inj h).symm, fun h => congrArg _ h.symm⟩
  | cons v vs =>
      dsimp only [List.head?_cons]
      rw [← FieldValue.word?_text?_eq_some_iff (h v (hvalues ▸ List.mem_cons_self))]
      split
      · next m hm => rw [hm, Except.ok.injEq, Option.some_inj]
      · next hnone => rw [hnone]; exact ⟨nofun, nofun⟩

theorem assemble_eq_ok {head : RequestHead} (h : assemble limits start headers = .ok head) :
    headers.getAll .transferEncoding = [] ∧ declaredLength headers = .ok head.contentLength ∧
      head.contentLength ≤ limits.maxBody ∧ head = ⟨start.1,
        start.2.1, start.2.2, headers, head.contentLength⟩ := by
  unfold assemble at h
  split at h
  · cases h
  next htransfer =>
  split at h
  · cases h
  next hlength =>
  split at h
  · cases h
  next hmost =>
  cases h
  exact ⟨(headers.contains_eq_false_iff _).1 (Bool.eq_false_iff.2 htransfer), hlength,
    Nat.le_of_not_lt hmost, rfl⟩

end

/-- What an accepted head has to do with the lines from which it has been read. -/
structure Accepted (limits : RequestLimits) (lines : HeadLines) (head : RequestHead) : Prop extends
    ReadFrom limits lines (head.method, head.target, head.version) head.headers where
  isToken : isToken head.method.name = true
  isPath : Target.IsPath head.target.path
  /-- No line gives a transfer encoding, however it spells that name. -/
  transfer_ne : ∀ l ∈ lines.fields, ∀ value, l.field? ≠ some ("transfer-encoding", value)
  length_le : head.contentLength ≤ limits.maxBody
  length_eq : match head.headers.getAll .contentLength with
    | [] => head.contentLength = 0
    | v :: _ => v.Denotes head.contentLength

/-- Where a head is accepted, the lines that have been taken off the connection account for all of
it. -/
theorem accepted_of_read {head : RequestHead} (h : (read r limits).1 = .ok head) :
    ∃ lines : HeadLines, r.rest = lines.bytes ++ (read r limits).2.rest ∧
      Accepted limits lines head := by
  have hread : read r limits = (.ok head, (read r limits).2) := Prod.ext h rfl
  generalize (read r limits).2 = r' at hread ⊢
  rw [read_eq] at hread
  obtain ⟨⟨start, headers⟩, r₁, hlines, hhead⟩ := Attempt.exists_of_andThen_eq_ok hread
  obtain ⟨hassembled, rfl⟩ := Prod.mk.inj hhead
  obtain ⟨htransfer, hlength, hmost, heq⟩ := assemble_eq_ok hassembled
  obtain ⟨lines, hrest, hfrom⟩ := exists_lines_of_readLines hlines
  have hdeclared := (declaredLength_eq_ok_iff (hfrom.isTrimmed .contentLength)).1 hlength
  obtain ⟨t, v, -, htarget, -⟩ := hfrom.words_eq
  refine ⟨lines, hrest, ?_⟩
  rw [heq]
  refine ⟨hfrom, start.1.isToken, Target.isPath_of_ofString? htarget, ?_, hmost, ?_⟩
  · intro l hl value hvalue
    obtain ⟨v, hv, -⟩ := hfrom.exists_mem_getAll (n := .transferEncoding) hl hvalue
    rw [htransfer] at hv
    cases hv
  · dsimp only
    split
    · next hnone =>
      rw [hnone] at hdeclared
      exact hdeclared
    · next hsome =>
      rw [hsome] at hdeclared
      exact hdeclared.1

def tight : RequestLimits where
  maxLine := 24
  maxHeaders := 2
  maxBody := 5

/-- A request with a whole address in place of a path, and with two values under one name. -/
def crowded : Reader where
  source :=
    { data := Text.encode
        "\r\nPOST http://h?q HTTP/1.1\r\nContent-Length:  +5\nCONTENT-LENGTH:7\r\n\r\nhello!!" }

theorem accepted_of_read_crowded :
    ∃ head, (read crowded tight).1 = .ok head ∧ (head.target.path, head.contentLength) = ("/", 5) ∧
      ∃ lines : HeadLines, crowded.rest = lines.bytes ++ (read crowded tight).2.rest ∧
        Accepted tight lines head := by
  have hread :
      (read crowded tight).1.toOption.map (fun head => (head.target.path, head.contentLength)) =
      some ("/", 5) := by
    decide +kernel
  obtain ⟨head, hok, heq⟩ := Option.map_eq_some_iff.1 hread
  have haccepted : (read crowded tight).1 = .ok head := by
    cases hresult : (read crowded tight).1 with
    | error e =>
        rw [hresult] at hok
        cases hok
    | ok head' =>
        rw [hresult] at hok
        exact congrArg _ (Option.some_inj.1 hok)
  exact ⟨head, haccepted, heq, accepted_of_read haccepted⟩

end RequestHead

end HttpDispatch
