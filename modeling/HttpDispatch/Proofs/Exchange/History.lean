import HttpDispatch.Exchange.Head
import HttpDispatch.Exchange.Operation
import HttpDispatch.Proofs.Stream.Sent

/-!
# Histories of an exchange

An exchange that nothing has been done to is unused (`Exchange.Unused`), and what happens to it is a
list of operations. Each of them has one of a few effects (`Exchange.Effect`), and two laws of all
histories are inductions over these: once the head has been sent, it stays as it is
(`Exchange.sent_performAll`), and what has arrived at any time is a beginning of the head and of the
bytes offered to the operations that write, in their order (`Exchange.Delivered.performAll`). Before
the head is sent, nothing is written: output is refused, and no one can have a handle.
-/

namespace HttpDispatch

namespace Exchange

variable {x y : Exchange}

structure Unused (x : Exchange) : Prop where
  status : x.status = .ok
  pending : x.pending = .empty
  sent : x.sent = none
  attributes : x.attributes = {}
  detached : x.detached = false
  closed : x.closed = false
  written : x.out.written = []

theorem unused_inMemory (request : Request) (body : Bytes) {out : Writer} (h : out.written = []) :
    (inMemory request body out).Unused :=
  ⟨rfl, rfl, rfl, rfl, rfl, rfl, h⟩

theorem unused_of_accept {source : Source} {out : Writer} {remote : Option SocketAddress}
    {limits : RequestLimits} {head : RequestHead} (hout : out.written = [])
    (h : accept source out remote limits = .ok (head, x)) :
    x.Unused ∧ x.transport = .wire ∧ x.out = out := by
  unfold accept at h
  split at h
  · cases h
  · cases h
    exact ⟨⟨rfl, rfl, rfl, rfl, rfl, rfl, hout⟩, rfl, rfl⟩

theorem performAll_cons (x : Exchange) (op : Operation) (ops : List Operation) :
    x.performAll (op :: ops) =
      ((x.perform op).1 :: ((x.perform op).2.performAll ops).1,
        ((x.perform op).2.performAll ops).2) :=
  rfl

theorem performAll_append (x : Exchange) (before after : List Operation) :
    x.performAll (before ++ after) =
      ((x.performAll before).1 ++ ((x.performAll before).2.performAll after).1,
        ((x.performAll before).2.performAll after).2) := by
  induction before generalizing x with
  | nil => rfl
  | cons op before ih => rw [List.cons_append, performAll_cons, performAll_cons, ih]; rfl

def toOutput (x : Exchange) (b : Bytes) : Bytes :=
  match x.output with
  | .error _ => []
  | .ok () => b

def toHandle (x : Exchange) (b : Bytes) : Bytes := if x.detached then b else []

/-- The bytes that an operation asks to be written, where it gets as far as that. -/
def offered (x : Exchange) : Operation → Bytes
  | .write b | .writeAll b => x.toOutput b
  | .handleWrite b | .handleWriteAll b => x.toHandle b
  | _ => []

def offeredAll (x : Exchange) : List Operation → Bytes
  | [] => []
  | op :: ops => x.offered op ++ offeredAll (x.perform op).2 ops

/-- What an operation does to an exchange, and the bytes that it asks to be written. -/
inductive Effect (x : Exchange) : Operation → Bytes → Exchange → Prop
  /-- Something changes that has nothing to do with the writer, or nothing at all. -/
  | inside (op : Operation) (s : Status) (p : Headers) (rest : RequestBody)
      (a : Attributes) (c : Bool) :
    Effect x op [] { x with status := s, pending := p, body := rest, attributes := a, closed := c }
  /-- A handle is taken. -/
  | detach (h : x.headersSent = true) : Effect x .detach [] { x with detached := true }
  /-- The head is sent. -/
  | head (hs : x.headersSent = false) (hc : x.closed = false) :
    Effect x .sendHeaders [] x.sendHeaders.2
  | write (op : Operation) (b : Bytes) (h : x.headersSent = true ∨ x.detached = true) :
    Effect x op b (x.write b).2
  | writeAll (op : Operation) (b : Bytes) (h : x.headersSent = true ∨ x.detached = true) :
    Effect x op b (x.writeAll b).2
  | flush (op : Operation) (c : Bool) : Effect x op [] ({ x with closed := c } : Exchange).flush.2

theorem Effect.refused (x : Exchange) (op : Operation) : x.Effect op [] x :=
  .inside op x.status x.pending x.body x.attributes x.closed

theorem snd_ofSent (r : Attempt Exchange ExchangeError Unit) : (Answer.ofSent r).2 = r.2 := by
  rcases r with ⟨_ | _, x⟩ <;> rfl

theorem snd_ofIo {α : Type} (answer : α → Answer) (r : Attempt Exchange IoError α) :
    (Answer.ofIo answer r).2 = r.2 := by
  rcases r with ⟨_ | _, x⟩ <;> rfl

theorem headersSent_of_output (h : x.output = .ok ()) : x.headersSent = true := by
  unfold output at h
  split at h
  · cases h
  · split at h
    · assumption
    · cases h

theorem Effect.throughOutput {op : Operation} {f : Exchange → Answer × Exchange} {b : Bytes}
    (hf : x.headersSent = true → x.Effect op b (f x).2) :
    x.Effect op (x.toOutput b) (x.throughOutput f).2 := by
  unfold Exchange.throughOutput toOutput
  cases h : x.output with
  | error e => exact .refused x op
  | ok => exact hf (headersSent_of_output h)

theorem Effect.throughHandle {op : Operation} {f : Exchange → Answer × Exchange} {b : Bytes}
    (hf : x.detached = true → x.Effect op b (f x).2) :
    x.Effect op (x.toHandle b) (x.throughHandle f).2 := by
  unfold Exchange.throughHandle toHandle
  cases h : x.detached with
  | false => exact .refused x op
  | true => exact hf h

theorem toOutput_nil (x : Exchange) : x.toOutput [] = [] := by
  unfold toOutput
  split <;> rfl

theorem toHandle_nil (x : Exchange) : x.toHandle [] = [] := ite_self _

/-- Every operation has one of the effects. -/
theorem effect_perform (x : Exchange) (op : Operation) :
    x.Effect op (x.offered op) (x.perform op).2 := by
  cases op with
  | setStatus s =>
      simp only [perform, snd_ofSent, setStatus]
      split
      · exact .refused x _
      · exact .inside _ s x.pending x.body x.attributes x.closed
  | insert n v => exact .inside _ x.status (x.pending.insert n v) x.body x.attributes x.closed
  | append n v => exact .inside _ x.status (x.pending.append n v) x.body x.attributes x.closed
  | remove n => exact .inside _ x.status (x.pending.erase n) x.body x.attributes x.closed
  | sendHeaders =>
      simp only [perform, snd_ofSent]
      cases hc : x.closed with
      | true =>
          rw [sendHeaders_of_closed hc]
          exact .refused x _
      | false =>
          cases hs : x.headersSent with
          | true =>
              rw [sendHeaders_of_headersSent hc hs]
              exact .refused x _
          | false => exact .head hs hc
  | write b =>
      refine .throughOutput fun h => ?_
      rw [snd_ofIo]
      exact .write _ b (.inl h)
  | writeAll b =>
      refine .throughOutput fun h => ?_
      rw [snd_ofIo]
      exact .writeAll _ b (.inl h)
  | flush =>
      have h : x.Effect .flush (x.toOutput []) (x.perform .flush).2 := by
        refine .throughOutput fun _ => ?_
        rw [snd_ofIo]
        exact .flush _ x.closed
      rw [toOutput_nil] at h
      exact h
  | detach =>
      simp only [perform, snd_ofSent, detach]
      split
      · exact .refused x _
      · next h => exact .detach (headersSent_of_output h)
  | handleWrite b =>
      refine .throughHandle fun h => ?_
      rw [snd_ofIo]
      exact .write _ b (.inr h)
  | handleWriteAll b =>
      refine .throughHandle fun h => ?_
      rw [snd_ofIo]
      exact .writeAll _ b (.inr h)
  | handleFlush =>
      have h : x.Effect .handleFlush (x.toHandle []) (x.perform .handleFlush).2 := by
        refine .throughHandle fun _ => ?_
        rw [snd_ofIo]
        exact .flush _ x.closed
      rw [toHandle_nil] at h
      exact h
  | readBody n =>
      rw [perform, snd_ofIo]
      exact .inside _ x.status x.pending _ x.attributes x.closed
  | readAll =>
      rw [perform, snd_ofIo]
      exact .inside _ x.status x.pending _ x.attributes x.closed
  | setText s => exact .inside _ x.status x.pending x.body _ x.closed
  | getText => exact .refused x _
  | close =>
      rw [perform, snd_ofIo, close]
      split
      · exact .inside _ x.status x.pending x.body x.attributes true
      · split
        · exact .refused x _
        · exact .flush _ true

/-!
## What stays
-/

variable {op : Operation} {b : Bytes}

theorem Effect.limit_eq (h : x.Effect op b y) : y.out.limit = x.out.limit := by
  cases h with
  | inside => rfl
  | detach => rfl
  | head hs hc =>
      obtain ⟨out, n, heq, -, hout⟩ := sendHeaders_cases hc hs
      rw [heq]
      exact hout.limit_eq
  | write => exact (Writer.Move.write x.out b).limit_eq
  | writeAll => rfl
  | flush => exact (Writer.Move.flush x.out).limit_eq

theorem Effect.transport_eq (h : x.Effect op b y) : y.transport = x.transport := by
  cases h with
  | inside => rfl
  | detach => rfl
  | head hs hc =>
      obtain ⟨out, n, heq, -⟩ := sendHeaders_cases hc hs
      rw [heq]
  | write => rfl
  | writeAll => rfl
  | flush => rfl

theorem Effect.sent_eq (h : x.Effect op b y) :
    y.sent = x.sent ∨
      x.sent = none ∧ x.closed = false ∧ op = .sendHeaders ∧ y.sent = some x.nextHead := by
  cases h with
  | inside => exact .inl rfl
  | detach => exact .inl rfl
  | head hs hc =>
      obtain ⟨out, n, heq, -⟩ := sendHeaders_cases hc hs
      exact .inr ⟨sent_eq_none hs, hc, rfl, by rw [heq]⟩
  | write => exact .inl rfl
  | writeAll => exact .inl rfl
  | flush => exact .inl rfl

theorem transport_performAll (x : Exchange) (ops : List Operation) :
    (x.performAll ops).2.transport = x.transport := by
  induction ops generalizing x with
  | nil => rfl
  | cons op ops ih => exact (ih _).trans (x.effect_perform op).transport_eq

/-- Once the head has been sent, no history changes it. -/
theorem sent_performAll {head : ResponseHead} (h : x.sent = some head) (ops : List Operation) :
    (x.performAll ops).2.sent = some head := by
  induction ops generalizing x with
  | nil => exact h
  | cons op ops ih =>
      obtain heq | ⟨hnone, -⟩ := (x.effect_perform op).sent_eq
      · exact ih (heq.trans h)
      · rw [h] at hnone
        cases hnone

/-- A head that has been sent in the course of a history was sent by one of its operations, the
first that found the exchange open. -/
theorem exists_sending {head : ResponseHead} (hx : x.sent = none) (ops : List Operation)
    (h : (x.performAll ops).2.sent = some head) :
    ∃ before after, ops = before ++ .sendHeaders :: after ∧ (x.performAll before).2.sent = none ∧
      (x.performAll before).2.closed = false ∧ head = (x.performAll before).2.nextHead := by
  induction ops generalizing x with
  | nil =>
      rw [show (x.performAll []).2.sent = none from hx] at h
      cases h
  | cons op ops ih =>
      obtain heq | ⟨hnone, hclosed, rfl, hsome⟩ := (x.effect_perform op).sent_eq
      · obtain ⟨before, after, rfl, hbefore⟩ := ih (heq.trans hx) h
        exact ⟨op :: before, after, rfl, hbefore⟩
      · refine ⟨[], ops, rfl, hnone, hclosed, ?_⟩
        have hsent := sent_performAll hsome ops
        rw [performAll_cons] at h
        exact Option.some.inj (h.symm.trans hsent)

/-!
## What arrives
-/

/-- What has arrived of the head and of the data behind it, on a writer that was `start`. There are
no data as long as the head has not been sent, and no handle. -/
structure Delivered (start : Writer) (data : Bytes) (x : Exchange) : Prop where
  written : x.out.written = start.written ++ start.taken (x.headBytes ++ data)
  limit : x.out.limit = start.limit
  empty : x.sent = none → data = []
  detached : x.sent = none → x.detached = false

theorem Unused.delivered (h : x.Unused) : Delivered x.out [] x where
  written := by simp [headBytes, h.sent]
  limit := rfl
  empty _ := rfl
  detached _ := h.detached

variable {start : Writer} {data : Bytes}

theorem Delivered.taken_eq (h : Delivered start data x) (b : Bytes) :
    x.out.written ++ x.out.taken b = start.written ++ start.taken (x.headBytes ++ data ++ b) := by
  have htaken : (start.receive (start.taken (x.headBytes ++ data))).taken b = x.out.taken b := by
    refine Writer.taken_congr ?_ ?_ b
    · exact h.limit.symm
    · exact h.written.symm
  rw [Writer.taken_append, ← List.append_assoc, ← h.written, htaken]

/-- Every operation delivers what there is room for of the bytes that it asks to be written. -/
theorem Delivered.effect (h : Delivered start data x) (he : x.Effect op b y) :
    Delivered start (data ++ b) y := by
  have hlimit := he.limit_eq.trans h.limit
  -- bytes are written behind a head only
  have hsent : x.headersSent = true ∨ x.detached = true → x.sent ≠ none := by
    rintro (hs | hd) hnone
    · rw [headersSent, hnone] at hs
      cases hs
    · rw [h.detached hnone] at hd
      cases hd
  cases he with
  | inside =>
      rw [List.append_nil]
      exact ⟨h.written, hlimit, h.empty, h.detached⟩
  | detach hs =>
      rw [List.append_nil]
      exact ⟨h.written, hlimit, h.empty, (absurd · (hsent (.inl hs)))⟩
  | head hs hc =>
      have hnone := sent_eq_none hs
      have hwritten := h.taken_eq (x.transport.headBytes x.nextHead)
      rw [← written_sendHeaders hc hs, headBytes, hnone, h.empty hnone] at hwritten
      obtain ⟨out, n, heq, -⟩ := sendHeaders_cases hc hs
      rw [heq] at hwritten hlimit ⊢
      refine ⟨?_, hlimit, (absurd · (Option.some_ne_none _)), (absurd · (Option.some_ne_none _))⟩
      rw [h.empty hnone, List.append_nil, List.append_nil]
      exact hwritten
  | write _ _ hs =>
      refine ⟨?_, hlimit, (absurd · (hsent hs)), (absurd · (hsent hs))⟩
      exact (x.out.written_write b).trans (List.append_assoc .. ▸ h.taken_eq b)
  | writeAll _ _ hs =>
      refine ⟨?_, hlimit, (absurd · (hsent hs)), (absurd · (hsent hs))⟩
      exact (x.out.written_writeAll b).trans (List.append_assoc .. ▸ h.taken_eq b)
  | flush =>
      rw [List.append_nil]
      exact ⟨x.out.written_flush.trans h.written, hlimit, h.empty, h.detached⟩

/-- In the course of a history, the head arrives and then the bytes that are asked to be written, as
far as there is room. -/
theorem Delivered.performAll (h : Delivered start data x) (ops : List Operation) :
    Delivered start (data ++ x.offeredAll ops) (x.performAll ops).2 := by
  induction ops generalizing x data with
  | nil =>
      rw [offeredAll, List.append_nil]
      exact h
  | cons op ops ih =>
      rw [offeredAll, ← List.append_assoc]
      exact ih (h.effect (x.effect_perform op))

/-- A history with operations that are refused, and with some that follow the end of
the exchange. -/
def fullHistory : List Operation :=
  [.write [0x61], .setStatus .notFound, .append .vary .acceptEncoding, .insert .connection .no,
    .sendHeaders, .sendHeaders, .writeAll [0x61, 0x62],
      .detach, .setStatus .ok, .remove .connection,
    .close, .write [0x63], .handleWrite [0x64], .sendHeaders, .close]

end Exchange

end HttpDispatch
