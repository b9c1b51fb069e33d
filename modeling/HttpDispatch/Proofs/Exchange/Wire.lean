import HttpDispatch.Proofs.Exchange.History
import HttpDispatch.Proofs.Exchange.Received

/-!
# The response on a connection

Whatever is done to an exchange on a connection, and wherever the peer goes away: what arrives is a
beginning of one response, which is a head and the bytes written behind it. The head is that of the
state in which it was sent, and if all of it arrives, the client reads it as such
(`Exchange.oneResponse`).
-/

namespace HttpDispatch.Exchange

variable {x y z : Exchange} {head : ResponseHead} {ops : List Operation}

/-- The head is sent by an operation of the history, which finds the exchange in the state `z`. -/
def SendsFrom (x : Exchange) (ops : List Operation) (z : Exchange) : Prop :=
  ∃ before after, ops = before ++ .sendHeaders :: after ∧ z = (x.performAll before).2 ∧
    z.sent = none ∧ z.closed = false

/-- The client reads what was sent from the state `z`: its status, and the pending fields, each name
with its values in their order. The name `connection` has one value, which tells that the connection
ends with the response. -/
structure Reads (z : Exchange) (r : Received) : Prop where
  code : r.code? = some z.status.code
  getAll : ∀ n : FieldName, n ≠ .connection →
    r.getAll (Text.encode n.text) = (z.pending.getAll n).map (·.bytes)
  connection : r.getAll (Text.encode FieldName.connection.text) = [FieldValue.close.bytes]
  /-- Nothing else is a field. -/
  names : ∀ field ∈ r.fields, ∃ n : FieldName, field.1 = Text.encode n.text

/-- What has arrived after the history `ops` is a beginning of one response, whose head was sent
from the state `z`. -/
structure OneResponse (x : Exchange) (ops : List Operation) (head : ResponseHead) (z : Exchange) :
    Prop where
  sendsFrom : x.SendsFrom ops z
  head_eq : head = ⟨z.status, z.pending.insert .connection .close⟩
  /-- The bytes that are asked to be written follow the head, as far as there is room. -/
  written : (x.performAll ops).2.out.written = x.out.taken (head.bytes ++ x.offeredAll ops)
  beginning : (x.performAll ops).2.out.written <+: head.bytes ++ x.offeredAll ops
  /-- No operation changes the head once it has been sent. -/
  kept : ∀ more, (x.performAll (ops ++ more)).2.sent = some head
  /-- If the head has arrived, the client reads it, and takes for the body what was written behind
  it. -/
  received : head.bytes <+: (x.performAll ops).2.out.written →
    ∃ r, Received.read (x.performAll ops).2.out.written = some r ∧ z.Reads r ∧
      (x.performAll ops).2.out.written = head.bytes ++ r.body

/-- A head that was sent from a state is read as the client reads that state. -/
theorem reads_nextHead (ht : z.transport = .wire) (body : Bytes) :
    ∃ r, Received.read (z.nextHead.bytes ++ body) = some r ∧ z.Reads r ∧ r.body = body := by
  have hhead : z.nextHead = ⟨z.status, z.pending.insert .connection .close⟩ := by rw [nextHead, ht]
  refine ⟨_, ResponseHead.read_bytes _ _, ⟨?_, ?_, ?_, ?_⟩, rfl⟩
  · rw [Received.code?_line, status_nextHead]
  · intro n hn
    rw [Received.getAll_entries, getAll_nextHead hn]
  · rw [Received.getAll_entries, hhead, Headers.getAll_insert, if_pos rfl]
    rfl
  · intro field hfield
    obtain ⟨⟨n, v⟩, -, rfl⟩ := List.mem_map.1 hfield
    exact ⟨n, rfl⟩

/-- Before the head is sent, nothing arrives; after that, what arrives is a beginning of one
response. -/
theorem oneResponse (hx : x.Unused) (ht : x.transport = .wire) (ops : List Operation) :
    ((x.performAll ops).2.sent = none → (x.performAll ops).2.out.written = []) ∧
      ∀ head, (x.performAll ops).2.sent = some head → ∃ z, x.OneResponse ops head z := by
  have hdelivered := hx.delivered.performAll ops
  have hwritten := hdelivered.written
  rw [hx.written, List.nil_append, List.nil_append] at hwritten
  refine ⟨?_, ?_⟩
  · intro hnone
    rw [hwritten, headBytes, hnone, ← List.nil_append (x.offeredAll ops), hdelivered.empty hnone]
    exact x.out.taken_nil
  · intro head hsome
    obtain ⟨before, after, heq, hnone, hclosed, hhead⟩ := exists_sending hx.sent ops hsome
    have hz : (x.performAll before).2.transport = .wire := (x.transport_performAll before).trans ht
    rw [headBytes, hsome, transport_performAll, ht] at hwritten
    refine ⟨_, ⟨before, after, heq, rfl, hnone, hclosed⟩, ?_, hwritten, ?_, ?_, ?_⟩
    · rw [hhead, nextHead, hz]
    · exact hwritten ▸ x.out.taken_prefix _
    · intro more
      rw [performAll_append]
      exact sent_performAll hsome more
    · rintro ⟨body, hbody⟩
      obtain ⟨r, hread, hreads, hr⟩ := reads_nextHead hz body
      refine ⟨r, ?_, hreads, ?_⟩
      · rw [← hbody, hhead]
        exact hread
      · rw [hr, hbody]

/-- A connection on which the peer goes away after the first byte of the body. -/
def cutOff : Exchange :=
  { transport := .wire, request := { method := .get, path := "/" }, body := .held [],
    out := { limit := some 69 } }

def cutOffHead : ResponseHead :=
  ⟨.notFound, ⟨[(.vary, .acceptEncoding), (.connection, .close)]⟩⟩

theorem oneResponse_cutOff :
    ∃ z, cutOff.OneResponse fullHistory cutOffHead z ∧
      (cutOff.performAll fullHistory).2.out.written = cutOffHead.bytes ++ [0x61] := by
  have hx : cutOff.Unused := ⟨rfl, rfl, rfl, rfl, rfl, rfl, rfl⟩
  obtain ⟨z, hz⟩ := (oneResponse hx rfl fullHistory).2 cutOffHead (by decide +kernel)
  exact ⟨z, hz, by decide +kernel⟩

end HttpDispatch.Exchange
