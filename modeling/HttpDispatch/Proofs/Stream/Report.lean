import HttpDispatch.Proofs.Exchange.Report
import HttpDispatch.Stream.Buffered
import HttpDispatch.Stream.Range
import HttpDispatch.Stream.ResponseStream

/-!
# Bodies do not depend on the report

Whichever way a body is sent, whole or piece by piece or copied from a source, the report of its
exchange is not read.
-/

namespace HttpDispatch

namespace Exchange

variable {x y : Exchange}

theorem agrees_sendPayload (payload : Bytes) (withBody : Bool) (h : x.unreported = y.unreported) :
    Agrees unreported (x.sendPayload payload withBody) (y.sendPayload payload withBody) := by
  have hp := unreported_withPending h (·.insert .contentLength (.ofNat payload.length))
  refine ((agrees_sendHeaders hp).mapError _).andThen fun _ x y h => ?_
  refine .ite (fun _ => .of_eq h) fun _ => ?_
  rw [output_eq h]
  split
  · exact .of_eq h
  · refine ((agrees_writeAll payload h).mapError _).andThen fun _ x y h => ?_
    exact (agrees_flush h).mapError _

theorem agrees_sendBody (coder : Coder) (settings : CompressionSettings) (body : Bytes)
    (withBody : Bool) (h : x.unreported = y.unreported) :
    Agrees unreported (x.sendBody coder settings body withBody)
      (y.sendBody coder settings body withBody) := by
  have hcoding : settings.choose x.request.headers x.pending body.length =
      settings.choose y.request.headers y.pending body.length :=
    (congrArg (fun x : Exchange => settings.choose x.request.headers x.pending body.length) h :)
  unfold sendBody
  refine .ite (fun _ => agrees_sendPayload body false h) fun _ => ?_
  simp only
  rw [hcoding]
  generalize settings.choose y.request.headers y.pending body.length = coding
  have hp := unreported_withPending h (·.withCoding settings coding)
  cases coding with
  | none => exact agrees_sendPayload body true hp
  | some c => exact agrees_sendPayload _ true hp

end Exchange

namespace ResponseStream

open Exchange

variable {x y : Exchange} {α : Type}

def unreported (t : ResponseStream × Exchange) : ResponseStream × Exchange := (t.1, t.2.unreported)

theorem unreported_mk (s : ResponseStream) (h : x.unreported = y.unreported) :
    unreported (s, x) = unreported (s, y) :=
  congrArg (Prod.mk s) h

theorem agrees_deliver (s : ResponseStream) (coding : Coding) (history : List Feed) (passed : Nat)
    (h : x.unreported = y.unreported) :
    Agrees Exchange.unreported (s.deliver coding history passed x)
      (s.deliver coding history passed y) :=
  agrees_writeAll ((s.encoded coding history).drop passed) h

theorem unreported_abandon (s : ResponseStream) (h : x.unreported = y.unreported) :
    (s.abandon x).unreported = (s.abandon y).unreported := by
  unfold abandon
  split
  · exact (agrees_deliver s _ _ _ h).state
  · exact h

theorem unreported_fail (s : ResponseStream) (e : IoError) (h : x.unreported = y.unreported) :
    unreported (s.fail x e) = unreported (s.fail y e) := by
  unfold fail
  refine unreported_mk _ (unreported_abandon s ?_)
  split
  · exact h
  · exact h

theorem agrees_settle (s : ResponseStream) {p q : Attempt Exchange IoError α}
    (h : Agrees Exchange.unreported p q) : Agrees unreported (s.settle p) (s.settle q) := by
  refine h.elim fun a x y hxy => ?_
  cases a with
  | error e => exact .of_eq (unreported_fail s e hxy)
  | ok a => exact .of_eq (unreported_mk s hxy)

theorem agrees_start (s : ResponseStream) (size : Nat) (h : x.unreported = y.unreported) :
    Agrees unreported (s.start x size) (s.start y size) := by
  have hcoding : s.settings.choose x.request.headers x.pending size =
      s.settings.choose y.request.headers y.pending size :=
    (congrArg (fun x : Exchange => s.settings.choose x.request.headers x.pending size) h :)
  unfold start
  simp only
  rw [hcoding]
  generalize s.settings.choose y.request.headers y.pending size = coding
  have hp := unreported_withPending h (·.withCoding s.settings coding)
  refine (agrees_sendHeaders hp).elim fun a x y hxy => ?_
  have hhead : openSink x coding = openSink y coding := (congrArg (openSink · coding) hxy :)
  cases a with
  | error e => exact .of_eq (unreported_mk _ hxy)
  | ok a =>
      simp only
      rw [hhead]
      exact .of_eq (unreported_mk _ hxy)

theorem agrees_push (s : ResponseStream) (b : Bytes) (h : x.unreported = y.unreported) :
    Agrees unreported (s.push x b) (s.push y b) := by
  have hout : x.out = y.out := (congrArg Exchange.out h :)
  unfold push
  split
  · exact .of_eq (unreported_mk s h)
  · exact .of_eq (unreported_mk s h)
  · exact .of_eq (unreported_mk _ h)
  · refine (Exchange.agrees_write b h).elim fun a x y hxy => ?_
    cases a with
    | error e => exact .of_eq (unreported_fail s e hxy)
    | ok n => exact .of_eq (unreported_mk _ hxy)
  · refine (agrees_deliver s _ _ _ h).elim fun a x' y' hxy => ?_
    have hout' : x'.out = y'.out := (congrArg Exchange.out hxy :)
    cases a with
    | error e =>
        simp only
        rw [hout, hout']
        exact .of_eq (unreported_fail _ e hxy)
    | ok n => exact .of_eq (unreported_mk _ hxy)

theorem agrees_write (s : ResponseStream) (b : Bytes) (h : x.unreported = y.unreported) :
    Agrees unreported (s.write x b) (s.write y b) := by
  unfold write
  refine .ite (fun _ => .of_eq (unreported_mk s h)) fun _ => .ite (fun _ => ?_) fun _ => ?_
  · refine (agrees_start s b.length h).andThen ?_
    rintro _ ⟨s, x⟩ ⟨s', y⟩ ht
    obtain ⟨rfl, hxy⟩ := Prod.mk.inj ht
    exact agrees_push _ b hxy
  · exact agrees_push s b h

theorem agrees_writeAll (s : ResponseStream) (b : Bytes) (h : x.unreported = y.unreported) :
    Agrees unreported (s.writeAll x b) (s.writeAll y b) := by
  induction hn : b.length using Nat.strongRecOn generalizing s x y b with
  | _ n ih =>
      rw [writeAll.eq_def, writeAll.eq_def]
      refine .ite (fun _ => .of_eq (unreported_mk s h)) fun hb => ?_
      have hlt : b.length ≠ 0 := by simpa using hb
      refine (agrees_write s b h).elim ?_
      rintro a ⟨s', x'⟩ ⟨_, y'⟩ ht
      obtain ⟨rfl, hxy⟩ := Prod.mk.inj ht
      rcases a with e | _ | count
      · exact .of_eq ht
      · exact .of_eq ht
      · refine ih (b.drop (count + 1)).length ?_ _ _ hxy rfl
        rw [List.length_drop]
        omega

theorem agrees_flush (s : ResponseStream) (h : x.unreported = y.unreported) :
    Agrees unreported (s.flush x) (s.flush y) := by
  have hout : x.out = y.out := (congrArg Exchange.out h :)
  unfold flush
  split
  · exact .of_eq (unreported_mk s h)
  · exact .of_eq (unreported_mk s h)
  · exact .of_eq (unreported_mk s h)
  · exact agrees_settle s (Exchange.agrees_flush h)
  · next coding history passed _ =>
    simp only
    have hdeliver := agrees_deliver s coding (history ++ [.flush]) passed h
    refine hdeliver.elim fun a x' y' hxy => ?_
    have hout' : x'.out = y'.out := (congrArg Exchange.out hxy :)
    cases a with
    | error e =>
        simp only
        rw [hout, hout']
        exact .of_eq (unreported_fail _ e hxy)
    | ok n => exact agrees_settle _ (Exchange.agrees_flush hxy)

theorem agrees_endSink (s : ResponseStream) (h : x.unreported = y.unreported) :
    Agrees Exchange.unreported (s.endSink x) (s.endSink y) := by
  have hsent : x.headersSent = y.headersSent := (congrArg Exchange.headersSent h :)
  unfold endSink
  split
  · rw [hsent]
    refine .ite (fun _ => .of_eq h) fun _ => ?_
    exact (agrees_sendHeaders (unreported_withPending h _)).mapError _
  · exact .of_eq h
  · exact Exchange.agrees_flush h
  · exact (agrees_deliver s _ _ _ h).andThen fun _ x y hxy => Exchange.agrees_flush hxy
  · exact .of_eq h

theorem agrees_finish (s : ResponseStream) (h : x.unreported = y.unreported) :
    Agrees unreported (s.finish x) (s.finish y) :=
  agrees_settle _ (agrees_endSink s h)

theorem unreported_drop (s : ResponseStream) (h : x.unreported = y.unreported) :
    unreported (s.drop x) = unreported (s.drop y) := by
  unfold drop
  split
  · exact unreported_mk s h
  · refine (agrees_finish s h).elim fun a t t' ht => ?_
    cases a with
    | error e => exact ht
    | ok a => exact ht

end ResponseStream

namespace Copy

def unreported (c : Copy) : Copy := { c with log := [] }

theorem exists_log {c c' : Copy} (h : c.unreported = c'.unreported) :
    ∃ l, c' = { c with log := l } := by
  refine ⟨c'.log, ?_⟩
  have hc : c' = { c'.unreported with log := c'.log } := rfl
  rw [hc, ← h]
  rfl

theorem agrees_run (total piece remaining written : Nat) {c c' : Copy}
    (h : c.unreported = c'.unreported) :
    Agrees unreported (c.run total piece remaining written)
      (c'.run total piece remaining written) := by
  induction hn : remaining using Nat.strongRecOn generalizing c c' remaining written with
  | _ n ih =>
      obtain ⟨l, rfl⟩ := exists_log h
      rw [run.eq_def, run.eq_def]
      refine .ite (fun _ => ?_) fun hpos => ?_
      · simp only
        rcases c.out.flush with ⟨e | ⟨⟩, out⟩
        · exact .of_eq rfl
        · exact .of_eq rfl
      · simp only
        generalize c.source.read _ = r
        rcases r with ⟨e | _ | ⟨b, bs⟩, source⟩
        · exact .of_eq rfl
        · exact .of_eq rfl
        · simp only
          rcases c.out.writeAll (b :: bs) with ⟨e | ⟨⟩, out⟩
          · exact .of_eq rfl
          · refine ih _ ?_ _ _ rfl rfl
            rw [List.length_cons]
            omega

end Copy

end HttpDispatch
