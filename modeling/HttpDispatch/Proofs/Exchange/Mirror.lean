import HttpDispatch.Proofs.Exchange.History
import HttpDispatch.Proofs.Http.Headers

/-!
# Exchanges in memory and on a connection

An exchange on a connection mirrors one in memory (`Exchange.Mirrors`): the client is told in
addition that the connection ends with the response, and what is written to the connection begins
with the head. Otherwise the two cannot be told apart. On writers that do not fail, exchanges that
nothing has been done to mirror each other after every history, and answer each operation alike
(`Exchange.performAll_mirrors`), but for what they find under the name `connection`, which a
connection sets for itself.
-/

namespace HttpDispatch

namespace Headers

variable {n m : FieldName} {g h : Headers}

/-- The maps have the same fields, but for those of the name `m`. -/
def SameBut (m : FieldName) (g h : Headers) : Prop := g.erase m = h.erase m

theorem SameBut.append (hg : SameBut m g h) (n : FieldName) (v : FieldValue) :
    SameBut m (g.append n v) (h.append n v) := by
  have herase : ∀ k : Headers, (k.append n v).erase m =
      ⟨(k.erase m).entries ++ (if n = m then [] else [(n, v)])⟩ := by
    intro k
    by_cases hn : n = m <;> simp [Headers.append, erase, hn]
  rw [SameBut, herase, herase, hg]

theorem erase_comm (h : Headers) (n m : FieldName) : (h.erase n).erase m = (h.erase m).erase n := by
  simp only [erase, List.filter_filter, Bool.and_comm]

theorem SameBut.erase (hg : SameBut m g h) (n : FieldName) : SameBut m (g.erase n) (h.erase n) := by
  rw [SameBut, erase_comm, hg, erase_comm]

theorem SameBut.insert (hg : SameBut m g h) (n : FieldName) (v : FieldValue) :
    SameBut m (g.insert n v) (h.insert n v) :=
  (hg.erase n).append n v

theorem sameBut_insert (h : Headers) (n : FieldName) (v : FieldValue) :
    SameBut n (h.insert n v) h := by
  simp [SameBut, Headers.insert, Headers.append, Headers.erase, List.filter_filter]

theorem SameBut.getAll_eq (hg : SameBut m g h) (hn : n ≠ m) : g.getAll n = h.getAll n := by
  have herase := congrArg (getAll · n) hg
  simpa only [getAll_erase, if_neg (Ne.symm hn)] using herase

theorem SameBut.contains_eq (hg : SameBut m g h) (hn : n ≠ m) : g.contains n = h.contains n := by
  rw [Bool.eq_iff_iff, contains_eq_true_iff, contains_eq_true_iff, hg.getAll_eq hn]

end Headers

/-- The head as a connection sends it: it says that the connection ends with the response. -/
def ResponseHead.closing (h : ResponseHead) : ResponseHead :=
  ⟨h.status, h.headers.insert .connection .close⟩

namespace Exchange

variable {x y : Exchange}

def Operation.editsConnection : Operation → Bool
  | .insert n _ | .append n _ | .remove n => n = .connection
  | _ => false

def Operation.readsBody : Operation → Bool
  | .readBody _ | .readAll => true
  | _ => false

/-- The exchanges are in the same state, but for the fields of the name `connection`, and `y` has
sent what `x` has, as a connection sends it. -/
structure Matches (x y : Exchange) : Prop where
  status : y.status = x.status
  closed : y.closed = x.closed
  detached : y.detached = x.detached
  attributes : y.attributes = x.attributes
  sameBut : Headers.SameBut .connection x.pending y.pending
  sent : y.sent = x.sent.map ResponseHead.closing

/-- The exchange `y` on a connection is what `x` is in memory: the same has been written to it,
behind the head. -/
structure Mirrors (x y : Exchange) : Prop extends x.Matches y where
  written : y.out.written = y.headBytes ++ x.out.written

/-- Exchanges in memory and on a connection, on writers that do not fail, that answer alike. -/
structure Twins (x y : Exchange) : Prop extends x.Matches y where
  memory : x.transport = .memory
  wire : y.transport = .wire
  reliable : x.out.Reliable
  reliable' : y.out.Reliable
  /-- The name `connection` is set when the head is sent. -/
  pending : x.sent = none → y.pending = x.pending

namespace Matches

theorem headersSent_eq (h : x.Matches y) : y.headersSent = x.headersSent := by
  rw [headersSent, h.sent, Option.isSome_map]
  rfl

theorem output_eq (h : x.Matches y) : y.output = x.output := by
  rw [output, output, h.closed, h.headersSent_eq]

theorem offered_eq (h : x.Matches y) (op : Operation) : y.offered op = x.offered op := by
  have houtput : ∀ b, y.toOutput b = x.toOutput b :=
    fun b => by rw [toOutput, toOutput, h.output_eq]
  have hhandle : ∀ b, y.toHandle b = x.toHandle b := fun b => by rw [toHandle, toHandle, h.detached]
  cases op with
  | write b => exact houtput b
  | writeAll b => exact houtput b
  | handleWrite b => exact hhandle b
  | handleWriteAll b => exact hhandle b
  | _ => rfl

end Matches

namespace Twins

theorem withPending (h : x.Twins y) (f : Headers → Headers)
    (hf : ∀ g g', Headers.SameBut .connection g g' → Headers.SameBut .connection (f g) (f g')) :
    (x.withPending f).Twins (y.withPending f) :=
  { h with
    sameBut := hf _ _ h.sameBut
    pending hx := congrArg f (h.pending hx) }

theorem withWriters (h : x.Twins y) {w w' : Writer} (hw : w.Reliable) (hw' : w'.Reliable) :
    ({ x with out := w } : Exchange).Twins { y with out := w' } :=
  { h with reliable := hw, reliable' := hw' }

end Twins

theorem Twins.headBytes_eq_nil (h : x.Twins y) : x.headBytes = [] := by
  unfold headBytes
  rw [h.memory]
  split <;> rfl

def Alike (r r' : Answer × Exchange) : Prop := r'.1 = r.1 ∧ r.2.Twins r'.2

namespace Twins

theorem write (h : x.Twins y) (b : Bytes) :
    Alike (Answer.ofIo .count (x.write b)) (Answer.ofIo .count (y.write b)) := by
  rw [write_of_limit_eq_none h.reliable.limit, write_of_limit_eq_none h.reliable'.limit]
  exact ⟨rfl, h.withWriters (h.reliable.receive b) (h.reliable'.receive b)⟩

theorem writeAll (h : x.Twins y) (b : Bytes) (answer : Unit → Answer) :
    Alike (Answer.ofIo answer (x.writeAll b)) (Answer.ofIo answer (y.writeAll b)) := by
  rw [writeAll_of_limit_eq_none h.reliable.limit, writeAll_of_limit_eq_none h.reliable'.limit]
  exact ⟨rfl, h.withWriters (h.reliable.receive b) (h.reliable'.receive b)⟩

theorem flush (h : x.Twins y) (answer : Unit → Answer) :
    Alike (Answer.ofIo answer x.flush) (Answer.ofIo answer y.flush) := by
  rw [flush_of_flushFailure_eq_none h.reliable.flushFailure,
    flush_of_flushFailure_eq_none h.reliable'.flushFailure]
  exact ⟨rfl, h.withWriters h.reliable.flushed h.reliable'.flushed⟩

theorem throughOutput (h : x.Twins y) {f : Exchange → Answer × Exchange} (hf : Alike (f x) (f y)) :
    Alike (x.throughOutput f) (y.throughOutput f) := by
  unfold Exchange.throughOutput
  rw [h.output_eq]
  cases x.output with
  | error e => exact ⟨rfl, h⟩
  | ok => exact hf

theorem throughHandle (h : x.Twins y) {f : Exchange → Answer × Exchange} (hf : Alike (f x) (f y)) :
    Alike (x.throughHandle f) (y.throughHandle f) := by
  unfold Exchange.throughHandle
  rw [h.detached]
  cases x.detached with
  | false => exact ⟨rfl, h⟩
  | true => exact hf

theorem setStatus (h : x.Twins y) (s : Status) :
    Alike (Answer.ofSent (x.setStatus s)) (Answer.ofSent (y.setStatus s)) := by
  unfold Exchange.setStatus
  rw [h.headersSent_eq]
  cases x.headersSent with
  | true => exact ⟨rfl, h⟩
  | false => exact ⟨rfl, { h with status := rfl }⟩

theorem detach (h : x.Twins y) : Alike (Answer.ofSent x.detach) (Answer.ofSent y.detach) := by
  unfold Exchange.detach
  rw [h.output_eq]
  cases x.output with
  | error e => exact ⟨rfl, h⟩
  | ok => exact ⟨rfl, { h with detached := rfl }⟩

/-- The head that a connection sends is that of its twin, and says that the connection ends. -/
theorem sendHeaders (h : x.Twins y) :
    Alike (Answer.ofSent x.sendHeaders) (Answer.ofSent y.sendHeaders) := by
  cases hc : x.closed with
  | true =>
      rw [sendHeaders_of_closed hc, sendHeaders_of_closed (h.closed.trans hc)]
      exact ⟨rfl, h⟩
  | false =>
      have hc' := h.closed.trans hc
      cases hs : x.headersSent with
      | true =>
          rw [sendHeaders_of_headersSent hc hs,
            sendHeaders_of_headersSent hc' (h.headersSent_eq.trans hs)]
          exact ⟨rfl, h⟩
      | false =>
          have hx : x.Ready := ⟨hc, hs, h.reliable.limit⟩
          have hy : y.Ready := ⟨hc', h.headersSent_eq.trans hs, h.reliable'.limit⟩
          have hpending := h.pending (sent_eq_none hs)
          have hhead : x.nextHead = ⟨x.status, x.pending⟩ := by rw [nextHead, h.memory]
          have hhead' : y.nextHead = x.nextHead.closing := by
            rw [hhead, nextHead, h.wire, h.status, hpending]
            rfl
          rw [hx.sendHeaders_eq, hy.sendHeaders_eq]
          refine ⟨rfl, { h with
            reliable := h.reliable.receive _, reliable' := h.reliable'.receive _,
            sameBut := ?_, sent := congrArg some hhead', pending := nofun }⟩
          rw [hhead', hhead]
          exact (Headers.sameBut_insert x.pending _ _).symm

theorem close_of_memory (h : x.transport = .memory) :
    x.close = (.ok (), { x with closed := true }) := by
  cases x
  cases h
  rfl

theorem close_of_wire (h : x.transport = .wire) :
    x.close = if x.closed then (.ok (), x) else ({ x with closed := true } : Exchange).flush := by
  cases x
  cases h
  rfl

theorem close (h : x.Twins y) :
    Alike (Answer.ofIo (fun _ => .done) x.close) (Answer.ofIo (fun _ => .done) y.close) := by
  rw [close_of_memory h.memory, close_of_wire h.wire]
  have hclosed : ({ x with closed := true } : Exchange).Twins { y with closed := true } :=
    { h with closed := rfl }
  cases hc : y.closed with
  | true => exact ⟨rfl, { hclosed with closed := hc }⟩
  | false =>
      simp only [Bool.false_eq_true, if_false]
      rw [flush_of_flushFailure_eq_none hclosed.reliable'.flushFailure]
      exact ⟨rfl, hclosed.withWriters h.reliable h.reliable'.flushed⟩

/-- Twins stay twins. They answer alike, except to an operation on the fields of the name that they
differ in. -/
theorem perform (h : x.Twins y) (op : Operation) (hop : op.readsBody = false) :
    (op.editsConnection = false → (y.perform op).1 = (x.perform op).1) ∧
      (x.perform op).2.Twins (y.perform op).2 := by
  have halike : Alike (x.perform op) (y.perform op) →
      (op.editsConnection = false → (y.perform op).1 = (x.perform op).1) ∧
        (x.perform op).2.Twins (y.perform op).2 := fun h => ⟨fun _ => h.1, h.2⟩
  have hfound : ∀ n : FieldName, decide (n = .connection) = false →
      Answer.found (y.pending.contains n) = .found (x.pending.contains n) := fun n hn =>
    congrArg Answer.found (h.sameBut.contains_eq (of_decide_eq_false hn)).symm
  have hattributes : Answer.text y.attributes.text = .text x.attributes.text :=
    congrArg (Answer.text ·.text) h.attributes
  cases op with
  | setStatus s => exact halike (h.setStatus s)
  | insert n v => exact ⟨hfound n, h.withPending _ fun _ _ hg => hg.insert n v⟩
  | append n v => exact ⟨hfound n, h.withPending _ fun _ _ hg => hg.append n v⟩
  | remove n => exact ⟨hfound n, h.withPending _ fun _ _ hg => hg.erase n⟩
  | sendHeaders => exact halike h.sendHeaders
  | write b => exact halike (h.throughOutput (h.write b))
  | writeAll b => exact halike (h.throughOutput (h.writeAll b _))
  | flush => exact halike (h.throughOutput (h.flush _))
  | detach => exact halike h.detach
  | handleWrite b => exact halike (h.throughHandle (h.write b))
  | handleWriteAll b => exact halike (h.throughHandle (h.writeAll b _))
  | handleFlush => exact halike (h.throughHandle (h.flush _))
  | readBody n => cases hop
  | readAll => cases hop
  | setText s =>
      exact halike ⟨hattributes,
        { h with attributes := congrArg ({ · with text := some s }) h.attributes }⟩
  | getText => exact halike ⟨hattributes, h⟩
  | close => exact halike h.close

end Twins

/-- The answers are the same, but for those to operations on the fields of the name `connection`. -/
def AnswersAgree (ops : List Operation) (as as' : List Answer) : Prop :=
  ∀ (i : Nat) (op : Operation), ops[i]? = some op → op.editsConnection = false → as'[i]? = as[i]?

/-- Twins stay twins in the course of a history, answer alike, and are given the same to write. -/
theorem Twins.performAll (h : x.Twins y) (ops : List Operation)
    (hops : ∀ op ∈ ops, op.readsBody = false) :
    AnswersAgree ops (x.performAll ops).1 (y.performAll ops).1 ∧
      (x.performAll ops).2.Twins (y.performAll ops).2 ∧ y.offeredAll ops = x.offeredAll ops := by
  induction ops generalizing x y with
  | nil => exact ⟨fun _ _ _ _ => rfl, h, rfl⟩
  | cons op ops ih =>
      obtain ⟨hop, hrest⟩ := List.forall_mem_cons.1 hops
      obtain ⟨hanswer, hnext⟩ := h.perform op hop
      obtain ⟨hanswers, htwins, hoffered⟩ := ih hnext hrest
      refine ⟨?_, htwins, ?_⟩
      · rintro (_ | i) op' hi hedits
        · cases hi
          exact congrArg some (hanswer hedits)
        · exact hanswers i op' hi hedits
      · rw [offeredAll, offeredAll, hoffered, h.offered_eq]

theorem Unused.twins (hx : x.Unused) (hy : y.Unused) (memory : x.transport = .memory)
    (wire : y.transport = .wire) (reliable : x.out.Reliable) (reliable' : y.out.Reliable) :
    x.Twins y where
  memory := memory
  wire := wire
  reliable := reliable
  reliable' := reliable'
  status := hy.status.trans hx.status.symm
  closed := hy.closed.trans hx.closed.symm
  detached := hy.detached.trans hx.detached.symm
  attributes := hy.attributes.trans hx.attributes.symm
  sameBut := by rw [hx.pending, hy.pending]; rfl
  sent := by rw [hx.sent, hy.sent]; rfl
  pending _ := hy.pending.trans hx.pending.symm

/-- On writers that do not fail, an exchange on a connection and one in memory that nothing has been
done to answer every operation of a history alike, and mirror each other after it. -/
theorem performAll_mirrors (hx : x.Unused) (hy : y.Unused) (memory : x.transport = .memory)
    (wire : y.transport = .wire) (reliable : x.out.Reliable) (reliable' : y.out.Reliable)
    (ops : List Operation) (hops : ∀ op ∈ ops, op.readsBody = false) :
    AnswersAgree ops (x.performAll ops).1 (y.performAll ops).1 ∧
      (x.performAll ops).2.Mirrors (y.performAll ops).2 := by
  obtain ⟨hanswers, htwins, hoffered⟩ :=
    (hx.twins hy memory wire reliable reliable').performAll ops hops
  have hwritten := (hx.delivered.performAll ops).written
  have hwritten' := (hy.delivered.performAll ops).written
  rw [hx.written, List.nil_append, reliable.taken_eq, List.nil_append] at hwritten
  rw [hy.written, List.nil_append, reliable'.taken_eq, List.nil_append] at hwritten'
  refine ⟨hanswers, { htwins with written := ?_ }⟩
  rw [hwritten, hwritten', hoffered, htwins.headBytes_eq_nil, List.nil_append]

theorem performAll_mirrors_fullHistory :
    let x := inMemory { method := .get, path := "/" } [] {}
    let y : Exchange := { x with transport := .wire }
    AnswersAgree fullHistory (x.performAll fullHistory).1 (y.performAll fullHistory).1 ∧
      (x.performAll fullHistory).2.Mirrors (y.performAll fullHistory).2 ∧
      (x.performAll fullHistory).2.out.written = [0x61, 0x62, 0x64] := by
  intro x y
  have hx : x.Unused := unused_inMemory _ _ rfl
  have hy : y.Unused := ⟨rfl, rfl, rfl, rfl, rfl, rfl, rfl⟩
  obtain ⟨hanswers, hmirrors⟩ :=
    performAll_mirrors hx hy rfl rfl ⟨rfl, rfl⟩ ⟨rfl, rfl⟩ fullHistory (by decide)
  exact ⟨hanswers, hmirrors, rfl⟩

end Exchange

end HttpDispatch
