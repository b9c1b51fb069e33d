import HttpDispatch.Proofs.Coding.Stored
import HttpDispatch.Proofs.Http.Headers
import HttpDispatch.Proofs.Stream.Sent
import HttpDispatch.Stream.ResponseStream

/-!
# Bodies sent piece by piece, on an exchange that works

A stream is written to and flushed any number of times, and then finished or dropped. The first
piece that is not empty decides on the coding and sends the head; after that the stream is under way
(`ResponseStream.UnderWay`): what has been passed on is a beginning of what an encoder makes of the
data so far, or it is the data itself. Every use of the stream adds its data to that
(`ResponseStream.UnderWay.useAll`), and the end of the stream delivers what has been held back
(`ResponseStream.UnderWay.finish`).
-/

namespace HttpDispatch

namespace ResponseStream

inductive Use where
  | writeAll (b : Bytes)
  | flush
deriving DecidableEq, Repr

def Use.data : Use → Bytes
  | writeAll b => b
  | flush => []

inductive End where
  | finish
  | drop
deriving DecidableEq, Repr

def use (s : ResponseStream) (x : Exchange) : Use → On Unit
  | .writeAll b => s.writeAll x b
  | .flush => s.flush x

def useAll (s : ResponseStream) (x : Exchange) : List Use → On Unit
  | [] => (.ok (), s, x)
  | u :: us => (s.use x u).andThen fun _ (s, x) => useAll s x us

def conclude (s : ResponseStream) (x : Exchange) : End → On Unit
  | .finish => s.finish x
  | .drop => (.ok (), s.drop x)

def given (us : List Use) : Bytes := us.flatMap Use.data

def firstSize? (us : List Use) : Option Nat :=
  us.findSome? fun u => if u.data = [] then none else some u.data.length

/-- The stream on an exchange `y`, whose head has been sent, after the given data. -/
inductive UnderWay (coder : Coder) (settings : CompressionSettings) (y : Exchange) (data : Bytes) :
    Option Coding → ResponseStream × Exchange → Prop
  | plain (w : Writer) (hw : w.Reliable) (h : w.written = y.out.written ++ data) :
    UnderWay coder settings y data none
      ({ coder, settings, sink := .plain, written := data.length }, { y with out := w })
  | coded (k : Coding) (history : List Feed) (passed : Bytes) (w : Writer) (hw : w.Reliable)
    (hopen : .finish ∉ history) (hdata : history.flatMap Feed.content = data)
    (hpassed : passed <+: coder.encode k settings.level history)
    (h : w.written = y.out.written ++ passed) :
    UnderWay coder settings y data (some k)
      ({ coder, settings, sink := .coded k history passed.length, coding := some k,
         written := data.length }, { y with out := w })

variable {coder : Coder} {settings : CompressionSettings} {x y : Exchange} {data : Bytes}
  {coding : Option Coding} {t : ResponseStream × Exchange} {most : Nat}

theorem UnderWay.coding_eq (h : UnderWay coder settings y data coding t) : t.1.coding = coding := by
  cases h <;> rfl

theorem UnderWay.written_eq (h : UnderWay coder settings y data coding t) :
    t.1.written = data.length := by
  cases h <;> rfl

theorem UnderWay.sent_eq (h : UnderWay coder settings y data coding t) :
    t.2.sent = y.sent ∧ t.2.sends = y.sends := by
  cases h <;> exact ⟨rfl, rfl⟩

theorem UnderWay.sink_ne (h : UnderWay coder settings y data coding t) : t.1.sink ≠ .pending := by
  cases h <;> exact Sink.noConfusion

/-- Passing on what has not been passed on yet completes what has been passed on. -/
theorem deliver_of_prefix (s : ResponseStream) {w : Writer} (hw : w.Reliable) {k : Coding}
    {history : List Feed} {base passed : Bytes}
    (hpassed : passed <+: s.encoded k history) (h : w.written = base ++ passed) :
    ∃ w', s.deliver k history passed.length { y with out := w } = (.ok (), { y with out := w' }) ∧
      w'.Reliable ∧ w'.written = base ++ s.encoded k history := by
  obtain ⟨rest, hrest⟩ := hpassed
  refine ⟨w.receive rest, ?_, hw.receive rest, ?_⟩
  · unfold deliver
    rw [Exchange.writeAll_of_limit_eq_none hw.limit, ← hrest, List.drop_left]
  · rw [Writer.written_receive, h, List.append_assoc, hrest]

theorem UnderWay.push (hl : coder.IsLawful most) (hle : settings.level ≤ most)
    (h : UnderWay coder settings y data coding t) (b : Bytes) :
    ∃ t', t.1.push t.2 b = (.ok b.length, t') ∧
      UnderWay coder settings y (data ++ b) coding t' := by
  cases h with
  | plain w hw h =>
      refine ⟨_, ?_,
        .plain (w.receive b) (hw.receive b) (by rw [Writer.written_receive, h, List.append_assoc])⟩
      unfold ResponseStream.push
      dsimp only
      rw [Exchange.write_of_limit_eq_none hw.limit, List.length_append]
  | coded k history passed w hw hopen hdata hpassed h =>
      obtain ⟨w', hdeliver, hw', hwritten⟩ := deliver_of_prefix (y := y)
        { coder, settings, sink := .coded k history passed.length, coding := some k,
          written := data.length } hw hpassed h
      refine ⟨_, ?_, .coded k (history ++ [.data b]) _ w' hw' ?_ ?_ ?_ hwritten⟩
      · unfold ResponseStream.push
        dsimp only
        rw [hdeliver, List.length_append]
      · simpa using hopen
      · rw [List.flatMap_append, hdata, List.flatMap_singleton]
        rfl
      · exact hl.prefix_encode k settings.level history [.data b] hle hopen

theorem UnderWay.writeAll (hl : coder.IsLawful most) (hle : settings.level ≤ most)
    (h : UnderWay coder settings y data coding t) (b : Bytes) :
    ∃ t', t.1.writeAll t.2 b = (.ok (), t') ∧ UnderWay coder settings y (data ++ b) coding t' := by
  unfold ResponseStream.writeAll
  split
  · next hb =>
    rw [hb, List.append_nil]
    exact ⟨t, rfl, h⟩
  · next hb =>
    obtain ⟨⟨s', x'⟩, hpush, h'⟩ := h.push hl hle b
    obtain ⟨n, hn⟩ := Nat.exists_eq_succ_of_ne_zero (mt List.length_eq_zero_iff.1 hb)
    have hwrite : t.1.write t.2 b = (.ok (n + 1), s', x') := by
      rw [ResponseStream.write, if_neg hb, if_neg h.sink_ne, hpush, hn]
    rw [hwrite]
    dsimp only
    have hdrop : b.drop (n + 1) = [] := List.drop_eq_nil_of_le (Nat.le_of_eq hn)
    rw [hdrop, ResponseStream.writeAll, if_pos rfl]
    exact ⟨_, rfl, h'⟩

theorem UnderWay.flush (hl : coder.IsLawful most) (hle : settings.level ≤ most)
    (h : UnderWay coder settings y data coding t) :
    ∃ t', t.1.flush t.2 = (.ok (), t') ∧ UnderWay coder settings y data coding t' := by
  cases h with
  | plain w hw h =>
      refine ⟨_, ?_, .plain { w with flushes := w.flushes + 1 } hw.flushed h⟩
      unfold ResponseStream.flush
      dsimp only
      rw [Exchange.flush_of_flushFailure_eq_none hw.flushFailure, settle]
  | coded k history passed w hw hopen hdata hpassed h =>
      have hmore := hl.prefix_encode k settings.level history [.flush] hle hopen
      obtain ⟨w', hdeliver, hw', hwritten⟩ := deliver_of_prefix (y := y)
        { coder, settings, sink := .coded k history passed.length, coding := some k,
          written := data.length } hw (hpassed.trans hmore) h
      refine ⟨_, ?_,
        .coded k (history ++ [.flush]) _ { w' with flushes := w'.flushes + 1 } hw'.flushed
        ?_ ?_ (List.prefix_refl (coder.encode k settings.level (history ++ [.flush]))) hwritten⟩
      · unfold ResponseStream.flush
        dsimp only
        rw [hdeliver]
        dsimp only
        rw [Exchange.flush_of_flushFailure_eq_none hw'.flushFailure, settle]
      · simpa using hopen
      · rw [List.flatMap_append, hdata, List.flatMap_singleton]
        exact List.append_nil data

theorem UnderWay.use (hl : coder.IsLawful most) (hle : settings.level ≤ most)
    (h : UnderWay coder settings y data coding t) (u : Use) :
    ∃ t', t.1.use t.2 u = (.ok (), t') ∧ UnderWay coder settings y (data ++ u.data) coding t' := by
  cases u with
  | writeAll b => exact h.writeAll hl hle b
  | flush =>
      rw [Use.data, List.append_nil]
      exact h.flush hl hle

/-- However a stream is used, it stays under way, and its data come one after the other. -/
theorem UnderWay.useAll (hl : coder.IsLawful most) (hle : settings.level ≤ most)
    (h : UnderWay coder settings y data coding t) (us : List Use) :
    ∃ t', t.1.useAll t.2 us = (.ok (), t') ∧
      UnderWay coder settings y (data ++ given us) coding t' := by
  induction us generalizing data t with
  | nil =>
      rw [given, List.flatMap_nil, List.append_nil]
      exact ⟨t, rfl, h⟩
  | cons u us ih =>
      obtain ⟨⟨s₁, x₁⟩, huse, h₁⟩ := h.use hl hle u
      obtain ⟨t', hrest, h'⟩ := ih h₁
      refine ⟨t', ?_, ?_⟩
      · rw [ResponseStream.useAll, huse, Attempt.andThen_ok]
        exact hrest
      · rwa [List.append_assoc] at h'

/-- The end of a stream delivers everything that has been held back. -/
theorem UnderWay.finish (hl : coder.IsLawful most) (hle : settings.level ≤ most)
    (h : UnderWay coder settings y data coding t) :
    ∃ payload w, t.1.finish t.2 = (.ok (), { t.1 with sink := .closed }, { y with out := w }) ∧
      w.written = y.out.written ++ payload ∧ coder.Carries coding payload data := by
  cases h with
  | plain w hw h =>
      refine ⟨data, { w with flushes := w.flushes + 1 }, ?_, h, rfl⟩
      unfold ResponseStream.finish endSink
      dsimp only
      rw [Exchange.flush_of_flushFailure_eq_none hw.flushFailure, settle]
  | coded k history passed w hw hopen hdata hpassed h =>
      have hmore := hl.prefix_encode k settings.level history [.finish] hle hopen
      have hdecode := hl.decode_encode k settings.level history hle hopen
      obtain ⟨w', hdeliver, hw', hwritten⟩ := deliver_of_prefix (y := y)
        { coder, settings, sink := .coded k history passed.length, coding := some k,
          written := data.length } hw (hpassed.trans hmore) h
      refine ⟨_, { w' with flushes := w'.flushes + 1 }, ?_, hwritten, ?_⟩
      · unfold ResponseStream.finish endSink
        dsimp only
        rw [hdeliver, Attempt.andThen_ok, Exchange.flush_of_flushFailure_eq_none hw'.flushFailure,
          settle]
      · rw [hdata] at hdecode
        exact hdecode

/-- Ending a stream that is under way in either manner is the same. -/
theorem UnderWay.conclude (hl : coder.IsLawful most) (hle : settings.level ≤ most)
    (h : UnderWay coder settings y data coding t) (e : End) :
    ∃ payload w, t.1.conclude t.2 e = (.ok (), { t.1 with sink := .closed }, { y with out := w }) ∧
      w.written = y.out.written ++ payload ∧ coder.Carries coding payload data := by
  obtain ⟨payload, w, hfinish, hwritten, hcarries⟩ := h.finish hl hle
  refine ⟨payload, w, ?_, hwritten, hcarries⟩
  cases e with
  | finish => exact hfinish
  | drop =>
      have hclosed : t.1.isClosed = false := by cases h <;> rfl
      rw [ResponseStream.conclude, ResponseStream.drop, if_neg (Bool.eq_false_iff.1 hclosed),
        hfinish]

/-!
## The first piece
-/

def headFor (settings : CompressionSettings) (x : Exchange) (size : Nat) : ResponseHead :=
  (x.withPending
    (·.withCoding settings (settings.choose x.request.headers x.pending size))).nextHead

theorem start_of_works (coder : Coder) (settings : CompressionSettings) (hw : x.Works)
    (hh : x.isHead = false) (size : Nat) :
    ∃ t, ({ coder, settings } : ResponseStream).start x size = (.ok (), t) ∧
      x.Sends (headFor settings x size) [] t.2 ∧ t.2.sends = x.sends + 1 ∧
      UnderWay coder settings t.2 [] (settings.choose x.request.headers x.pending size) t := by
  unfold start headFor
  dsimp only
  generalize settings.choose x.request.headers x.pending size = coding
  have hready := (hw.withPending (·.withCoding settings coding)).toReady
  have hreliable : ∀ b, (x.out.receive b).Reliable :=
    Writer.Reliable.receive ⟨hw.limit, hw.flushFailure⟩
  rw [hready.sendHeaders_eq]
  dsimp only
  refine ⟨_, rfl, ⟨rfl, (List.append_nil _).symm⟩, rfl, ?_⟩
  cases coding with
  | none =>
      rw [openSink, if_neg (by exact Bool.eq_false_iff.1 hh)]
      exact .plain _ (hreliable _) (List.append_nil _).symm
  | some k =>
      rw [openSink, if_neg (by exact Bool.eq_false_iff.1 hh)]
      exact .coded k [] [] _ (hreliable _) List.not_mem_nil rfl List.nil_prefix
        (List.append_nil _).symm

/-- The first piece that is not empty starts the stream, and is then written like any other. -/
theorem writeAll_of_start {s : ResponseStream} (hs : s.sink = .pending) {b : Bytes} (hb : b ≠ [])
    (hstart : s.start x b.length = (.ok (), t)) (ht : t.1.sink ≠ .pending) :
    s.writeAll x b = t.1.writeAll t.2 b := by
  have hwrite : s.write x b = t.1.write t.2 b := by
    rw [write, if_neg hb, if_pos hs, hstart, Attempt.andThen_ok, write, if_neg hb, if_neg ht]
  unfold ResponseStream.writeAll
  rw [if_neg hb, if_neg hb, hwrite]

/-- Uses that write nothing leave everything as it is. The first that writes something sends the
head, and what follows it has no influence on that. -/
theorem useAll_of_works (hw : x.Works) (hh : x.isHead = false) (hl : coder.IsLawful most)
    (hle : settings.level ≤ most) (us : List Use) :
    ∃ t, ({ coder, settings } : ResponseStream).useAll x us = (.ok (), t) ∧
      match firstSize? us with
      | none => t = ({ coder, settings }, x) ∧ given us = []
      | some size => ∃ y, x.Sends (headFor settings x size) [] y ∧ y.sends = x.sends + 1 ∧
          UnderWay coder settings y (given us)
            (settings.choose x.request.headers x.pending size) t := by
  induction us with
  | nil => exact ⟨_, rfl, rfl, rfl⟩
  | cons u us ih =>
      by_cases hu : u.data = []
      · obtain ⟨t, hrest, hmatch⟩ := ih
        have huse : ({ coder, settings } : ResponseStream).use x u =
            (.ok (), { coder, settings }, x) := by
          cases u with
          | writeAll b =>
              rw [ResponseStream.use, ResponseStream.writeAll]
              exact if_pos hu
          | flush => rfl
        refine ⟨t, ?_, ?_⟩
        · rw [useAll, huse, Attempt.andThen_ok]
          exact hrest
        · rw [firstSize?, List.findSome?_cons, if_pos hu, given, List.flatMap_cons, hu,
            List.nil_append]
          exact hmatch
      · obtain ⟨t₀, hstart, hsends, honce, h₀⟩ := start_of_works coder settings hw hh u.data.length
        obtain ⟨t₁, huse, h₁⟩ := h₀.use hl hle u
        obtain ⟨t, hrest, h⟩ := h₁.useAll hl hle us
        have huse' : ({ coder, settings } : ResponseStream).use x u = (.ok (), t₁) := by
          cases u with
          | writeAll b =>
              rw [← huse]
              exact writeAll_of_start rfl hu hstart h₀.sink_ne
          | flush => exact absurd rfl hu
        refine ⟨t, ?_, ?_⟩
        · rw [useAll, huse', Attempt.andThen_ok]
          exact hrest
        · rw [firstSize?, List.findSome?_cons, if_neg hu]
          exact ⟨t₀.2, hsends, honce, h⟩

theorem firstSize?_append {us : List Use} {size : Nat} (h : firstSize? us = some size)
    (vs : List Use) : firstSize? (us ++ vs) = some size := by
  unfold firstSize? at h ⊢
  rw [List.findSome?_append, h]
  rfl

/-!
## The whole body
-/

/-- What a client is sent of a stream that was used on `x` as given and then ended as `t`: the head
and the payload behind it, with `y` for the exchange in the end. -/
structure Answers (coder : Coder) (settings : CompressionSettings) (x : Exchange) (us : List Use)
    (t : ResponseStream) (y : Exchange) (head : ResponseHead) (payload : Bytes) : Prop where
  sends : x.Sends head payload y
  once : y.sends = x.sends + 1
  status : head.status = x.status
  /-- The first piece decides on the coding, and without one there is none. -/
  coding : t.coding = (firstSize? us).bind (settings.choose x.request.headers x.pending)
  fields : ∀ n, n ≠ .connection → head.headers.getAll n =
    match firstSize? us with
    | none => (x.pending.insert .contentLength (.ofNat 0)).getAll n
    | some _ => (x.pending.withCoding settings t.coding).getAll n
  noLength : t.coding ≠ none → head.headers.getAll .contentLength = []
  written : t.written = (given us).length
  carries : coder.Carries t.coding payload (given us)
  empty : firstSize? us = none → payload = [] ∧ head.headers.getAll .contentLength = [.ofNat 0]
  /-- From the first piece on, neither the coding nor the head changes. -/
  steady : ∀ vs, vs <+: us → firstSize? vs ≠ none →
    ∃ s' x', ({ coder, settings } : ResponseStream).useAll x vs = (.ok (), s', x') ∧
      s'.coding = t.coding ∧ x'.sent = some head

/-- From the first piece on, neither the coding nor the head changes. -/
theorem useAll_prefix_of_works (hw : x.Works) (hh : x.isHead = false) (hl : coder.IsLawful most)
    (hle : settings.level ≤ most) {us vs : List Use} (hvs : vs <+: us)
    (hne : firstSize? vs ≠ none) :
    ∃ size s' x', firstSize? us = some size ∧
      ({ coder, settings } : ResponseStream).useAll x vs = (.ok (), s', x') ∧
      s'.coding = settings.choose x.request.headers x.pending size ∧
      x'.sent = some (headFor settings x size) := by
  obtain ⟨ws, rfl⟩ := hvs
  obtain ⟨size, hsize⟩ := Option.ne_none_iff_exists'.1 hne
  obtain ⟨⟨s', x'⟩, huse, hmatch⟩ := useAll_of_works hw hh hl hle vs
  rw [hsize] at hmatch
  obtain ⟨y, hsends, -, h⟩ := hmatch
  exact ⟨size, s', x', firstSize?_append hsize ws, huse, h.coding_eq, h.sent_eq.1.trans hsends.sent⟩

/-- Without a piece, the end of the stream sends the head, which announces that there is nothing
behind it. -/
theorem conclude_of_works (coder : Coder) (settings : CompressionSettings) (hw : x.Works)
    (e : End) :
    ∃ y, ({ coder, settings } : ResponseStream).conclude x e =
        (.ok (), { coder, settings, sink := .closed }, y) ∧
      x.Sends (x.lengthHead 0) [] y ∧ y.sends = x.sends + 1 := by
  have hready := (hw.withPending (·.insert .contentLength (.ofNat 0))).toReady
  obtain ⟨y, hfinish, hsends⟩ : ∃ y, ({ coder, settings } : ResponseStream).finish x =
      (.ok (), { coder, settings, sink := .closed }, y) ∧
        x.Sends (x.lengthHead 0) [] y ∧ y.sends = x.sends + 1 := by
    unfold finish endSink
    dsimp only
    rw [if_neg (Bool.eq_false_iff.1 hw.headersSent), hready.sendHeaders_eq]
    exact ⟨_, rfl, ⟨rfl, (List.append_nil _).symm⟩, rfl⟩
  refine ⟨y, ?_, hsends⟩
  cases e with
  | finish => exact hfinish
  | drop =>
      have hopen : ({ coder, settings } : ResponseStream).isClosed = false := rfl
      rw [conclude, drop, if_neg (Bool.eq_false_iff.1 hopen), hfinish]

/-- However a stream is written to and flushed on an exchange that works, and in whichever manner it
ends, nothing fails, and the client is sent one head and the data that were written, in the coding
that the first piece has decided on. -/
theorem answers_useAll (hw : x.Works) (hh : x.isHead = false) (hl : coder.IsLawful most)
    (hle : settings.level ≤ most) (us : List Use) (e : End) :
    ∃ s' x' t y head payload,
      ({ coder, settings } : ResponseStream).useAll x us = (.ok (), s', x') ∧
      s'.conclude x' e = (.ok (), t, y) ∧ Answers coder settings x us t y head payload := by
  obtain ⟨⟨s', x'⟩, huse, hmatch⟩ := useAll_of_works hw hh hl hle us
  have hlc : FieldName.contentLength ≠ .connection := by decide
  cases hfirst : firstSize? us with
  | none =>
      rw [hfirst] at hmatch
      obtain ⟨heq, hgiven⟩ := hmatch
      cases heq
      obtain ⟨y, hconclude, hsends, honce⟩ := conclude_of_works coder settings hw e
      refine ⟨_, _, _, y, _, [], huse, hconclude, hsends,
        honce, Exchange.status_nextHead _, ?_, ?_, ?_, ?_, ?_, fun _ => ⟨rfl, ?_⟩, ?_⟩
      · rw [hfirst]
        rfl
      · intro n hn
        rw [hfirst]
        exact Exchange.getAll_nextHead hn _
      · exact fun hcoding => absurd rfl hcoding
      · rw [hgiven]
        rfl
      · exact hgiven.symm
      · rw [Exchange.lengthHead, Exchange.getAll_nextHead hlc]
        exact (Headers.getAll_insert _ _ _ _).trans (if_pos rfl)
      · intro vs hvs hne
        obtain ⟨size, -, -, hsize, -⟩ := useAll_prefix_of_works hw hh hl hle hvs hne
        rw [hsize] at hfirst
        cases hfirst
  | some size =>
      rw [hfirst] at hmatch
      obtain ⟨y₀, hsends, honce, h⟩ := hmatch
      obtain ⟨payload, w, hconclude, hwritten, hcarries⟩ := h.conclude hl hle e
      have hcoding := h.coding_eq
      have hsends' : x.Sends (headFor settings x size) payload { y₀ with out := w } := by
        refine ⟨hsends.sent, hwritten.trans ?_⟩
        rw [hsends.written, List.append_nil]
      refine ⟨s', x', _, _, headFor settings x size, payload, huse, hconclude, hsends', honce,
        Exchange.status_nextHead _, ?_, ?_, ?_, h.written_eq, ?_, ?_, ?_⟩
      · rw [hfirst]
        exact hcoding
      · intro n hn
        rw [hfirst]
        dsimp only at hcoding ⊢
        rw [hcoding]
        exact Exchange.getAll_nextHead hn _
      · intro hsome
        dsimp only at hcoding hsome
        rw [hcoding] at hsome
        obtain ⟨k, hk⟩ := Option.ne_none_iff_exists'.1 hsome
        rw [headFor, Exchange.getAll_nextHead hlc, hk]
        exact (Headers.getAll_erase _ _ _).trans (if_pos rfl)
      · dsimp only at hcoding ⊢
        rw [hcoding]
        exact hcarries
      · intro hnone
        rw [hfirst] at hnone
        cases hnone
      · intro vs hvs hne
        obtain ⟨size', s₁, x₁, hsize, huse₁, hcoding₁, hsent⟩ :=
          useAll_prefix_of_works hw hh hl hle hvs hne
        rw [hfirst] at hsize
        cases hsize
        exact ⟨s₁, x₁, huse₁, hcoding₁.trans hcoding.symm, hsent⟩

def unpacking : Exchange where
  transport := .wire
  body := .held []
  request :=
    { method := .get, path := "/",
      headers := Headers.empty.insert .acceptEncoding Coding.gzip.fieldValue }

/-- Bodies of three bytes or more are packed without an effort. -/
def lightly : CompressionSettings := { minSize := 3, level := 0 }

/-- Before the first piece nothing is written, and a flush has nothing to deliver. -/
def inPieces : List Use :=
  [.writeAll [], .flush, .writeAll (Text.encode "hello"), .flush, .writeAll (Text.encode ", "),
    .writeAll [], .writeAll (Text.encode "world")]

/-- A stream that is dropped has sent everything, in the coding that was offered. -/
theorem answers_useAll_inPieces :
    unpacking.Works ∧ unpacking.isHead = false ∧ Coder.standard.IsLawful 0 ∧ lightly.level ≤ 0 ∧
      (firstSize? inPieces).bind
        (lightly.choose unpacking.request.headers unpacking.pending) = some .gzip ∧
      given inPieces = Text.encode "hello, world" ∧
      ∃ s' x' t y head payload,
        ({ coder := .standard, settings := lightly } : ResponseStream).useAll unpacking inPieces =
          (.ok (), s', x') ∧
        s'.conclude x' .drop = (.ok (), t, y) ∧
        Answers .standard lightly unpacking inPieces t y head payload := by
  have hw : unpacking.Works := ⟨⟨rfl, rfl, rfl⟩, rfl⟩
  exact ⟨hw, rfl, Coder.isLawful_standard, Nat.le_refl 0, by decide +kernel, by decide +kernel,
    answers_useAll hw rfl Coder.isLawful_standard (Nat.le_refl 0) inPieces .drop⟩

end ResponseStream

end HttpDispatch
