import HttpDispatch.Context.Commit
import HttpDispatch.Proofs.Coding.Stored
import HttpDispatch.Proofs.Http.Headers
import HttpDispatch.Proofs.Stream.Sent

/-!
# What is sent of a response

A response whose body is sent in one piece, on an exchange that works. The head carries the status
of the response and, under each name that is not about the form of the body, the values that
`Context.prescribed` lists; the body that arrives has the length that the head announces, and stands
for the body of the response in the coding that was chosen (`Context.Answers`).

The answer to a request for the head only is compared with the answer to the same request for the
whole: `Context.heads_agree_iff` says when the two heads are the same.
-/

namespace HttpDispatch

/-- The bytes of a body that is sent in one piece, and its usual media type. -/
inductive Body.Encodes (codec : Codec) : Body → Bytes → Option FieldValue → Prop
  | empty : Encodes codec .empty [] none
  | bytes (b : Bytes) : Encodes codec (.bytes b) b (some .octets)
  | text (s : String) : Encodes codec (.text s) (Text.encode s) (some .plainText)
  | json {v : Json} {b : Bytes} (h : codec.encode v = .ok b) :
      Encodes codec (.json v) b (some .json)

theorem Body.Encodes.payload?_eq {codec : Codec} {body : Body} {b : Bytes}
    {mediaType : Option FieldValue} (h : body.Encodes codec b mediaType) :
    body.payload? codec = .ok (some (b, mediaType)) := by
  cases h with
  | empty => rfl
  | bytes => rfl
  | text => rfl
  | json hv =>
      rw [payload?, hv]
      rfl

def Status.IsBodiless (s : Status) : Prop :=
  (100 ≤ s.code ∧ s.code < 200) ∨ s.code = 204 ∨ s.code = 304

instance (s : Status) : Decidable s.IsBodiless :=
  inferInstanceAs (Decidable ((100 ≤ s.code ∧ s.code < 200) ∨ s.code = 204 ∨ s.code = 304))

theorem Status.isBodiless_iff (s : Status) : s.IsBodiless ↔ s.permitsBody = false := by
  obtain ⟨code, hcode⟩ := s
  have hfamily : isInformational ⟨code, hcode⟩ = decide (code / 100 = 1) := rfl
  simp only [IsBodiless, permitsBody, hfamily, noContent, notModified, Bool.not_eq_false',
    Bool.or_eq_true, decide_eq_true_eq, mk.injEq]
  omega

namespace Context

open Exchange

variable {c : Context} {r : Response} {body : Bytes} {mediaType : Option FieldValue}

/-- The values that a response is sent with under a name: its own, or else those that are pending,
or else the usual ones. -/
def prescribed (c : Context) (r : Response) (mediaType : Option FieldValue) (n : FieldName) :
    List FieldValue :=
  if r.headers.getAll n ≠ [] then r.headers.getAll n
  else if c.exchange.pending.getAll n ≠ [] then c.exchange.pending.getAll n
  else if n = .contentType then mediaType.toList
  else if n = .requestId then [c.id.fieldValue]
  else []

theorem getAll_responseFields (c : Context) (r : Response) (mediaType : Option FieldValue)
    (n : FieldName) :
    (c.responseFields r.headers mediaType).getAll n = c.prescribed r mediaType n := by
  have hne : FieldName.contentType ≠ .requestId := by decide
  unfold responseFields prescribed
  cases mediaType with
  | none =>
      simp only [Headers.getAll_insertNew, Headers.getAll_merge, Option.toList_none]
      grind
  | some t =>
      simp only [Headers.getAll_insertNew, Headers.getAll_merge, Option.toList_some]
      grind

def head (c : Context) (s : Status) (fields : Headers) : ResponseHead :=
  ({ c.exchange with status := s, pending := fields } : Exchange).nextHead

theorem getAll_head {n : FieldName} (hn : n ≠ .connection) (s : Status) (fields : Headers) :
    (c.head s fields).headers.getAll n = fields.getAll n :=
  getAll_nextHead hn _

def answering (c : Context) (s : Status) (fields : Headers) : Context :=
  c.onExchange fun x => { x with status := s, pending := fields }

theorem ready_answering (h : c.exchange.Ready) (s : Status) (fields : Headers) :
    (c.answering s fields).exchange.Ready :=
  ⟨h.closed, h.headersSent, h.limit⟩

theorem works_answering (h : c.exchange.Works) (s : Status) (fields : Headers) :
    (c.answering s fields).exchange.Works :=
  ⟨ready_answering h.toReady s fields, h.flushFailure⟩

theorem attempt_eq_ok {α ε : Type} {f : Exchange → Attempt Exchange ε α} {a : α} {y : Exchange}
    (h : f c.exchange = (.ok a, y)) : c.attempt f = (.ok a, { c with exchange := y }) := by
  unfold attempt
  rw [h]
  rfl

theorem setStatus_of_pending (hs : c.exchange.headersSent = false) (s : Status) :
    c.setStatus s = (.ok (), c.onExchange fun x => { x with status := s }) := by
  unfold setStatus
  rw [attempt_eq_ok (y := { c.exchange with status := s })]
  · rfl
  · rw [Exchange.setStatus, if_neg (Bool.eq_false_iff.1 hs)]

theorem commit_eq (hs : c.exchange.headersSent = false)
    (he : r.body.Encodes c.codec body mediaType) :
    c.commit r =
      if r.status.permitsBody then
        (c.answering r.status (c.responseFields r.headers mediaType)).attempt fun x =>
          x.sendBody c.coder c.settings.compression body (!x.isHead)
      else
        (c.answering r.status
          ((c.responseFields r.headers mediaType).erase .contentLength)).sendHeaders := by
  unfold commit commitBuffered
  rw [he.payload?_eq]
  simp only
  rw [setStatus_of_pending hs]
  cases hb : r.status.permitsBody with
  | true => rfl
  | false => rfl

theorem sends_commit_of_bodiless (h : c.exchange.Ready) (he : r.body.Encodes c.codec body mediaType)
    (hb : r.status.permitsBody = false) :
    ∃ c', c.commit r = (.ok (), c') ∧
      c.exchange.Sends
        (c.head r.status ((c.responseFields r.headers mediaType).erase .contentLength)) []
        c'.exchange := by
  rw [commit_eq h.headersSent he, hb]
  obtain ⟨y, hsend, hy⟩ := (ready_answering h r.status
    ((c.responseFields r.headers mediaType).erase .contentLength)).sends_sendHeaders
  refine ⟨{ c with exchange := y }, ?_, hy.sent, hy.written⟩
  simp only [Bool.false_eq_true, if_false]
  unfold sendHeaders
  rw [attempt_eq_ok hsend]
  rfl

theorem sends_commit_of_isHead (h : c.exchange.Ready) (he : r.body.Encodes c.codec body mediaType)
    (hb : r.status.permitsBody = true) (hh : c.exchange.isHead = true) :
    ∃ c', c.commit r = (.ok (), c') ∧
      c.exchange.Sends
        (c.head r.status ((c.responseFields r.headers mediaType).insert .contentLength
          (.ofNat body.length))) [] c'.exchange := by
  rw [commit_eq h.headersSent he, hb]
  have hready := ready_answering h r.status (c.responseFields r.headers mediaType)
  obtain ⟨y, hsend, hy⟩ := hready.sends_sendPayload body
  have hh' : (c.answering r.status (c.responseFields r.headers mediaType)).exchange.isHead = true :=
    hh
  refine ⟨{ c with exchange := y }, ?_, hy.sent, hy.written⟩
  rw [if_pos rfl, attempt_eq_ok (y := y)]
  · rfl
  · rw [hh', sendBody]
    exact hsend

def chosen (c : Context) (r : Response) (mediaType : Option FieldValue) (size : Nat) :
    Option Coding :=
  c.settings.compression.choose c.exchange.request.headers
    (c.responseFields r.headers mediaType) size

theorem sends_commit (h : c.exchange.Works) (he : r.body.Encodes c.codec body mediaType)
    (hb : r.status.permitsBody = true) (hh : c.exchange.isHead = false) {coding : Option Coding}
    (hc : c.chosen r mediaType body.length = coding) :
    ∃ c', c.commit r = (.ok (), c') ∧
      c.exchange.Sends
        (c.head r.status
          (((c.responseFields r.headers mediaType).withCoding c.settings.compression coding).insert
            .contentLength
            (.ofNat (c.coder.payload coding c.settings.compression.level body).length)))
        (c.coder.payload coding c.settings.compression.level body) c'.exchange := by
  rw [commit_eq h.headersSent he, hb]
  have hworks := works_answering h r.status (c.responseFields r.headers mediaType)
  obtain ⟨y, hsend, hy⟩ := hworks.sends_sendBody c.coder c.settings.compression body hc
  have hh' :
      (c.answering r.status (c.responseFields r.headers mediaType)).exchange.isHead = false :=
    hh
  refine ⟨{ c with exchange := y }, ?_, hy.sent, hy.written⟩
  rw [if_pos rfl, attempt_eq_ok (y := y)]
  · rfl
  · rw [hh']
    exact hsend

/-- What a response whose body stands for the given bytes is sent as: the status and the fields of
the head, and the payload behind it. -/
structure Answers (c : Context) (r : Response) (body : Bytes) (mediaType : Option FieldValue)
    (head : ResponseHead) (payload : Bytes) : Prop where
  status : head.status = r.status
  bodiless : r.status.IsBodiless → head.headers.getAll .contentLength = [] ∧ payload = []
  length : ¬ r.status.IsBodiless → head.headers.getAll .contentLength = [.ofNat payload.length]
  carries : ¬ r.status.IsBodiless → c.coder.Carries (c.chosen r mediaType body.length) payload body
  coding : ¬ r.status.IsBodiless → head.headers.getAll .contentEncoding =
    match c.chosen r mediaType body.length with
    | none => c.prescribed r mediaType .contentEncoding
    | some k => [k.fieldValue]
  fields : ∀ n, n ≠ .contentLength → n ≠ .contentEncoding → n ≠ .vary → n ≠ .connection →
    head.headers.getAll n = c.prescribed r mediaType n

/-- A response that is committed on an exchange that works is sent as the rule says, whatever is
pending and whichever coding is chosen. -/
theorem answers_commit {most : Nat} (hw : c.exchange.Works) (hh : c.exchange.isHead = false)
    (hl : c.coder.IsLawful most) (hle : c.settings.compression.level ≤ most)
    (he : r.body.Encodes c.codec body mediaType) :
    ∃ head payload c', c.commit r = (.ok (), c') ∧ c.exchange.Sends head payload c'.exchange ∧
      c.Answers r body mediaType head payload := by
  have hlc : FieldName.contentLength ≠ .connection := by decide
  have hec : FieldName.contentEncoding ≠ .connection := by decide
  have hle' : FieldName.contentLength ≠ .contentEncoding := by decide
  cases hb : r.status.permitsBody with
  | false =>
      have hbodiless := r.status.isBodiless_iff.2 hb
      obtain ⟨c', hcommit, hsends⟩ := sends_commit_of_bodiless hw.toReady he hb
      refine ⟨_, _, c', hcommit, hsends, ?_⟩
      refine ⟨status_nextHead _, fun _ => ⟨?_, rfl⟩, fun h => absurd hbodiless h,
        fun h => absurd hbodiless h, fun h => absurd hbodiless h, ?_⟩
      · simp [getAll_head hlc]
      · intro n hnl hne hnv hnc
        simp [getAll_head hnc, getAll_responseFields, Ne.symm hnl]
  | true =>
      have hbody : ¬ r.status.IsBodiless := by simp [r.status.isBodiless_iff, hb]
      generalize hc : c.chosen r mediaType body.length = coding
      obtain ⟨c', hcommit, hsends⟩ := sends_commit hw he hb hh hc
      refine ⟨_, _, c', hcommit, hsends, ?_⟩
      refine ⟨status_nextHead _, fun h => absurd h hbody, fun _ => ?_, fun _ => ?_, fun _ => ?_, ?_⟩
      · simp [getAll_head hlc]
      · rw [hc]
        exact hl.carries_payload hle coding body
      · have hcoding := (c.responseFields r.headers mediaType).getAll_contentEncoding_withCoding
          c.settings.compression coding
        rw [getAll_responseFields] at hcoding
        rw [getAll_head hec, Headers.getAll_insert, if_neg hle', hc]
        cases coding with
        | none => exact hcoding
        | some k => exact hcoding
      · intro n hnl hne hnv hnc
        rw [getAll_head hnc, Headers.getAll_insert, if_neg (Ne.symm hnl),
          Headers.getAll_withCoding_of_ne _ _ _ hne hnl hnv, getAll_responseFields]

/-- A request whose client offers to unpack the body, where bodies are packed without an effort. -/
def offered : Context where
  exchange :=
    { transport := .wire, body := .held [],
      request := { method := .get, path := "/",
                   headers := Headers.empty.insert .acceptEncoding Coding.gzip.fieldValue } }
  settings := { compression := { minSize := 1, level := 0 } }
  coder := .standard
  id := ⟨0⟩

/-- The body is sent in the coding that was offered, and can be read back. -/
theorem answers_commit_offered :
    offered.exchange.Works ∧ offered.exchange.isHead = false ∧ offered.coder.IsLawful 0 ∧
      offered.settings.compression.level ≤ 0 ∧
      (Response.text "hello").body.Encodes offered.codec (Text.encode "hello") (some .plainText) ∧
      offered.chosen (.text "hello") (some .plainText) (Text.encode "hello").length = some .gzip ∧
      ∃ head payload c', offered.commit (.text "hello") = (.ok (), c') ∧
        offered.exchange.Sends head payload c'.exchange ∧
        offered.Answers (.text "hello") (Text.encode "hello") (some .plainText) head payload := by
  have hw : offered.exchange.Works := ⟨⟨rfl, rfl, rfl⟩, rfl⟩
  have he : (Response.text "hello").body.Encodes offered.codec (Text.encode "hello")
      (some .plainText) := .text "hello"
  exact ⟨hw, rfl, Coder.isLawful_standard, Nat.le_refl 0, he, by decide +kernel,
    answers_commit hw rfl Coder.isLawful_standard (Nat.le_refl 0) he⟩

/-!
## Requests for the head only
-/

def forHead (c : Context) : Context :=
  c.onExchange fun x => { x with request := { x.request with method := .head } }

/-- The head of the whole answer shows that a coding was looked for: it names the coding, or it says
for the first time that the answer depends on what is offered. -/
def Declares (c : Context) (r : Response) (mediaType : Option FieldValue) (size : Nat) : Prop :=
  ¬ r.status.IsBodiless ∧
    c.settings.compression.isNegotiable (c.responseFields r.headers mediaType) = true ∧
      (c.chosen r mediaType size ≠ none ∨
        ((c.responseFields r.headers mediaType).texts .vary).any namesAcceptEncoding = false)

/-- Where nothing is declared, the fields are left as they are, and so is the body. -/
theorem chosen_eq_none_of_not_declares (hb : ¬ r.status.IsBodiless) {size : Nat}
    (h : ¬ c.Declares r mediaType size) :
    c.chosen r mediaType size = none ∧
      (c.responseFields r.headers mediaType).withCoding c.settings.compression none =
        c.responseFields r.headers mediaType := by
  cases hn : c.settings.compression.isNegotiable (c.responseFields r.headers mediaType) with
  | false =>
      refine ⟨CompressionSettings.choose_of_isNegotiable_eq_false hn _ _, ?_⟩
      exact Headers.withCoding_none_of fun h => absurd (hn.symm.trans h) Bool.noConfusion
  | true =>
      have hd : ¬ (c.chosen r mediaType size ≠ none ∨
          ((c.responseFields r.headers mediaType).texts .vary).any namesAcceptEncoding = false) :=
        fun hd => h ⟨hb, hn, hd⟩
      rw [not_or, ne_eq, Decidable.not_not, Bool.not_eq_false] at hd
      exact ⟨hd.1, Headers.withCoding_none_of fun _ => hd.2⟩

/-- The answer to a request for the head only has the status of the whole answer, no body, and the
length that the body has before it is packed. Its head is that of the whole answer exactly where the
latter declares nothing about codings. -/
theorem heads_agree_iff (hw : c.exchange.Works) (hh : c.exchange.isHead = false)
    (he : r.body.Encodes c.codec body mediaType) :
    ∃ whole payload c₁ only c₂,
      c.commit r = (.ok (), c₁) ∧ c.exchange.Sends whole payload c₁.exchange ∧
      c.forHead.commit r = (.ok (), c₂) ∧ c.forHead.exchange.Sends only [] c₂.exchange ∧
      only.status = whole.status ∧
      (¬ r.status.IsBodiless → only.headers.getAll .contentLength = [.ofNat body.length]) ∧
      ((∀ n, only.headers.getAll n = whole.headers.getAll n) ↔
        ¬ c.Declares r mediaType body.length) := by
  have hready : c.forHead.exchange.Ready := ⟨hw.closed, hw.headersSent, hw.limit⟩
  have hhead : c.forHead.exchange.isHead = true := rfl
  have hlc : FieldName.contentLength ≠ .connection := by decide
  have hec : FieldName.contentEncoding ≠ .connection := by decide
  have hvc : FieldName.vary ≠ .connection := by decide
  cases hb : r.status.permitsBody with
  | false =>
      have hbodiless := r.status.isBodiless_iff.2 hb
      obtain ⟨c₁, hcommit, hsends⟩ := sends_commit_of_bodiless hw.toReady he hb
      obtain ⟨c₂, hcommit', hsends'⟩ := sends_commit_of_bodiless hready he hb
      refine ⟨_, _, c₁, _, c₂, hcommit, hsends, hcommit',
        hsends', rfl, fun h => absurd hbodiless h, ?_⟩
      exact ⟨fun _ hd => hd.1 hbodiless, fun _ n => rfl⟩
  | true =>
      have hbody : ¬ r.status.IsBodiless := by simp [r.status.isBodiless_iff, hb]
      generalize hc : c.chosen r mediaType body.length = coding
      obtain ⟨c₁, hcommit, hsends⟩ := sends_commit hw he hb hh hc
      obtain ⟨c₂, hcommit', hsends'⟩ := sends_commit_of_isHead hready he hb hhead
      refine ⟨_, _, c₁, _, c₂, hcommit, hsends, hcommit', hsends', ?_, fun _ => ?_, ?_⟩
      · rw [head, head, status_nextHead, status_nextHead]
      · rw [getAll_head hlc]
        simp
      · refine ⟨fun hagree hd => ?_, fun hd n => ?_⟩
        · obtain ⟨-, hn, hdeclared⟩ := hd
          rw [hc] at hdeclared
          obtain ⟨n, hname, hne⟩ := Headers.exists_getAll_withCoding_ne hn hdeclared
          have hn' : n ≠ .connection ∧ .contentLength ≠ n := by
            rcases hname with rfl | rfl <;> decide
          have heq := hagree n
          rw [getAll_head hn'.1, getAll_head hn'.1, Headers.getAll_insert, Headers.getAll_insert,
            if_neg hn'.2, if_neg hn'.2] at heq
          exact hne heq.symm
        · obtain ⟨hnone, hfields⟩ := chosen_eq_none_of_not_declares hbody hd
          rw [hc] at hnone
          subst hnone
          rw [hfields]
          rfl

/-- The two heads differ where a body that may be packed is sent in one piece. -/
theorem heads_agree_iff_offered :
    offered.exchange.Works ∧ offered.exchange.isHead = false ∧
      (Response.text "hello").body.Encodes offered.codec (Text.encode "hello") (some .plainText) ∧
      offered.Declares (.text "hello") (some .plainText) (Text.encode "hello").length ∧
      ∃ whole payload c₁ only c₂, offered.commit (.text "hello") = (.ok (), c₁) ∧
        offered.exchange.Sends whole payload c₁.exchange ∧
        offered.forHead.commit (.text "hello") = (.ok (), c₂) ∧
        offered.forHead.exchange.Sends only [] c₂.exchange ∧
        ¬ ∀ n, only.headers.getAll n = whole.headers.getAll n := by
  have hw : offered.exchange.Works := ⟨⟨rfl, rfl, rfl⟩, rfl⟩
  have he : (Response.text "hello").body.Encodes offered.codec (Text.encode "hello")
      (some .plainText) := .text "hello"
  have hd : offered.Declares (.text "hello") (some .plainText) (Text.encode "hello").length :=
    ⟨by decide, by decide +kernel, .inr (by decide +kernel)⟩
  obtain ⟨whole, payload, c₁, only, c₂, hwhole, hsends, honly, hsends', -, -, hagree⟩ :=
    heads_agree_iff hw rfl he
  exact ⟨hw, rfl, he, hd, whole, payload, c₁, only, c₂, hwhole, hsends, honly, hsends',
    fun h => hagree.1 h hd⟩

end Context

end HttpDispatch
