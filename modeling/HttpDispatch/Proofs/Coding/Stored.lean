import HttpDispatch.Coding.Gzip
import HttpDispatch.Proofs.Coding.Bits

/-!
# Data that is written as it is

At level zero an encoder writes every block as it is, and marks where a byte begins by padding.
Blocks that are not the last (`Stored`) are read back one by one, whatever follows them; what an
encoder of level zero has written is such blocks for the data up to the beginning of its current
block (`Encoder.Plain`). So the standard coder is lawful at level zero, however the data has been
split and flushed. At every level it writes something for whatever it is given, if only to end it.
-/

namespace HttpDispatch.Deflate

theorem takeBits_append {count : Nat} (bits rest : List Bool) (h : bits.length = count) :
    takeBits count (bits ++ rest) = some (ofLowBits bits, rest) := by
  unfold takeBits
  simp only
  rw [List.take_left' h, List.drop_left' h, if_neg (by omega)]

theorem takeBytes_byteBits (b : Bytes) (rest : List Bool) (out : Array UInt8) :
    takeBytes b.length ⟨byteBits b ++ rest, out⟩ = some ⟨rest, out ++ b.toArray⟩ := by
  induction b generalizing out with
  | nil => simp [takeBytes, byteBits]
  | cons x b ih =>
      have hx : (ofLowBits (lowBits x.toNat 8)).toUInt8 = x := by
        rw [ofLowBits_lowBits, Nat.mod_eq_of_lt x.toNat_lt]
        exact UInt8.ofNat_toNat
      rw [List.length_cons, takeBytes, byteBits_cons, List.append_assoc,
        takeBits_append _ _ (length_lowBits _ _), Option.bind_some]
      simp only
      rw [hx, ih]
      simp

theorem readBlock_plainBlock (before : Nat) {b : Bytes} (rest : List Bool) (hb : b.length < 65536)
    (ha : (before + 1 + (plainBlock before b).length + rest.length) % 8 = 0) (out : Array UInt8) :
    readBlock ⟨plainBlock before b ++ rest, out⟩ = some ⟨rest, out ++ b.toArray⟩ := by
  have hmark : ofLowBits (lowBits 0 2) = 0 := rfl
  unfold plainBlock at ha ⊢
  simp only [List.append_assoc, List.length_append, length_lowBits, List.length_replicate,
    length_byteBits] at ha ⊢
  generalize hpad : List.replicate ((8 - (before + 3) % 8) % 8) false = pad
  generalize hcheck : 65535 - b.length % 65536 = check
  have hbits : ∀ tail : List Bool, tail.length = 32 + 8 * b.length + rest.length →
      (pad ++ tail).drop ((pad ++ tail).length % 8) = tail := by
    intro tail htail
    have hpad' : pad.length = (8 - (before + 3) % 8) % 8 := by rw [← hpad, List.length_replicate]
    refine List.drop_left' ?_
    rw [List.length_append]
    omega
  unfold readBlock
  rw [takeBits_append _ _ (length_lowBits _ _), hmark]
  simp only
  rw [hbits _ (by simp; omega), takeBits_append _ _ (length_lowBits _ _)]
  simp only [Option.bind_eq_bind, Option.bind_some]
  rw [takeBits_append _ _ (length_lowBits _ _)]
  simp only [Option.bind_some, ofLowBits_lowBits]
  have hsize : b.length % 2 ^ 16 = b.length := Nat.mod_eq_of_lt hb
  have hsum : b.length + check % 2 ^ 16 = 65535 := by omega
  rw [hsize, if_pos hsum, takeBytes_byteBits]

/-- Bits that hold data as it is, in blocks none of which is the last. -/
inductive Stored : List Bool → Bytes → Prop
  | nil : Stored [] []
  | block {w : List Bool} {data b : Bytes} (h : Stored w data) (hb : b.length < 65536) :
    Stored (w ++ false :: plainBlock w.length b) (data ++ b)

theorem Stored.readBlocks_eq {w : List Bool} {data : Bytes} (h : Stored w data) :
    ∃ blocks, blocks ≤ w.length ∧ ∀ (fuel : Nat) (rest : List Bool) (out : Array UInt8),
      (w.length + rest.length) % 8 = 0 →
        readBlocks (fuel + blocks) ⟨w ++ rest, out⟩ = readBlocks fuel ⟨rest,
          out ++ data.toArray⟩ := by
  induction h with
  | nil => exact ⟨0, Nat.le_refl 0, fun fuel rest out _ => by simp⟩
  | @block w data b _ hb ih =>
      obtain ⟨blocks, hle, hread⟩ := ih
      refine ⟨blocks + 1, ?_, ?_⟩
      · rw [List.length_append, List.length_cons]
        omega
      · intro fuel rest out hlen
        rw [List.length_append, List.length_cons] at hlen
        have hlen' : (w.length + (false :: (plainBlock w.length b ++ rest)).length) % 8 = 0 := by
          rw [List.length_cons, List.length_append]
          omega
        have hblock := readBlock_plainBlock w.length rest hb (by omega)
          (out ++ data.toArray)
        rw [List.append_assoc, List.cons_append, Nat.add_comm blocks 1, ← Nat.add_assoc,
          hread (fuel + 1) _ out hlen', readBlocks, hblock]
        simp

/-- What ends with a last block, and where a byte ends, stands for the data of all its blocks. -/
theorem Stored.decode?_eq {w : List Bool} {data b bytes : Bytes} (h : Stored w data)
    (hb : b.length < 65536) (hbytes : byteBits bytes = w ++ true :: plainBlock w.length b)
    (more : Bytes) :
    decode? (bytes ++ more) = some (data ++ b, more) := by
  obtain ⟨blocks, hle, hread⟩ := h.readBlocks_eq
  have hlen := congrArg List.length hbytes
  rw [length_byteBits, List.length_append, List.length_cons] at hlen
  have hblock := readBlock_plainBlock w.length (byteBits more) hb
    (by rw [length_byteBits]; omega) (#[] ++ data.toArray)
  have hfuel : 8 * (bytes ++ more).length + 1 =
      8 * (bytes ++ more).length - blocks + 1 + blocks := by
    rw [List.length_append]
    omega
  have hlen' : (w.length + (true :: (plainBlock w.length b ++ byteBits more)).length) % 8 = 0 := by
    rw [List.length_cons, List.length_append, length_byteBits]
    omega
  unfold decode?
  rw [byteBits_append, hbytes, List.append_assoc, List.cons_append, hfuel,
    hread _ _ _ hlen', readBlocks, hblock]
  simp

namespace Encoder

variable {e : Encoder} {data : Bytes}

/-- An encoder of level zero that has been given the data: what it has written stands for all before
its current block, which goes up to its position. -/
structure Plain (e : Encoder) (data : Bytes) : Prop where
  effort : e.effort.plain = true
  window : e.window.data.toList = data
  position : e.position = e.blockStart + e.blockSize
  le : e.position ≤ data.length
  bits : e.bits.length < 8
  stored : Stored e.written (data.take e.blockStart)

def blockRoom : Nat := 31 * 1024

theorem plain_start : (start 0).Plain [] :=
  ⟨rfl, rfl, rfl, Nat.le_refl 0, Nat.zero_lt_succ _, .nil⟩

theorem Plain.blockBytes_eq (h : e.Plain data) :
    e.blockBytes = (data.drop e.blockStart).take e.blockSize := by
  unfold blockBytes
  rw [Array.toList_extract, h.window, List.extract_eq_take_drop, Nat.add_sub_cancel_left]

theorem Plain.length_blockBytes (h : e.Plain data) : e.blockBytes.length = e.blockSize := by
  have hle := h.le
  rw [h.position] at hle
  rw [h.blockBytes_eq, List.length_take, List.length_drop]
  omega

theorem plainBlock_mod (before : Nat) (b : Bytes) :
    plainBlock (before % 8) b = plainBlock before b := by
  have hpad : (before % 8 + 3) % 8 = (before + 3) % 8 := by omega
  unfold plainBlock
  simp only
  rw [hpad]

theorem Plain.blockBits_eq (h : e.Plain data) (last : Bool) :
    e.blockBits last = last :: plainBlock e.written.length e.blockBytes := by
  unfold blockBits
  simp only [h.effort, Bool.true_or, if_true]
  rw [← length_written_mod e h.bits, plainBlock_mod]

theorem Plain.endBlock (h : e.Plain data) (hsize : e.blockSize < 65536) :
    (e.endBlock false).Plain data ∧ (e.endBlock false).position = e.position ∧
      (e.endBlock false).blockSize = 0 := by
  obtain ⟨hwritten, hbits⟩ := written_write e (e.blockBits false)
  refine ⟨⟨h.effort, h.window, h.position, h.le, hbits, ?_⟩, rfl, rfl⟩
  have hblock := h.stored.block (b := e.blockBytes) (by rw [h.length_blockBytes]; exact hsize)
  rw [h.blockBytes_eq, ← List.take_add, ← h.blockBytes_eq, ← h.blockBits_eq, ← hwritten] at hblock
  exact hblock

theorem Plain.step (h : e.Plain data) (hroom : e.blockSize ≤ blockRoom)
    (hleft : e.position < data.length) :
    e.step.Plain data ∧ e.step.blockSize ≤ blockRoom ∧ e.step.position = e.position + 1 := by
  have hstep : e.step = (e.choose (.literal (e.window.byte e.position))).advance 1 := by
    unfold Encoder.step
    simp only [h.effort, if_true]
  rw [hstep]
  unfold advance
  simp only
  generalize hn : ({ e.choose (.literal (e.window.byte e.position)) with
    position := (e.choose (.literal (e.window.byte e.position))).position + 1 } : Encoder) = e₁
  have hsize : e₁.blockSize = e.blockSize + 1 := hn ▸ rfl
  have hposition : e₁.position = e.position + 1 := hn ▸ rfl
  have hplain : e₁.Plain data := by
    subst hn
    refine ⟨h.effort, h.window, ?_, hleft, h.bits, h.stored⟩
    change e.position + 1 = e.blockStart + (e.blockSize + 1)
    rw [h.position, Nat.add_assoc]
  unfold blockRoom at hroom ⊢
  split
  · obtain ⟨hended, hpos, hzero⟩ := hplain.endBlock (by omega)
    exact ⟨hended, by omega, hpos.trans hposition⟩
  · next hfull =>
    refine ⟨hplain, ?_, hposition⟩
    simp only [isFull, hplain.effort, Bool.or_true, Bool.and_true, Bool.or_eq_true,
      decide_eq_true_eq, not_or] at hfull
    omega

theorem Plain.chooseAll (h : e.Plain data) (hroom : e.blockSize ≤ blockRoom) (ahead fuel : Nat) :
    (chooseAll ahead fuel e).Plain data ∧ (Encoder.chooseAll ahead fuel e).blockSize ≤ blockRoom ∧
      (data.length ≤ e.position + ahead + fuel →
        data.length ≤ (Encoder.chooseAll ahead fuel e).position + ahead) := by
  have hdata : e.window.data.size = data.length := by rw [← h.window, Array.length_toList]
  induction fuel generalizing e with
  | zero => exact ⟨h, hroom, fun hle => hle⟩
  | succ fuel ih =>
      unfold Encoder.chooseAll
      split
      · next hleft =>
        obtain ⟨hstep, hroom', hposition⟩ := h.step hroom (by omega)
        have hdata' : e.step.window.data.size = data.length := by
          rw [← hstep.window, Array.length_toList]
        obtain ⟨hplain, hsize, hend⟩ := ih hstep hroom' hdata'
        exact ⟨hplain, hsize, fun hle => hend (by omega)⟩
      · next hleft => exact ⟨h, hroom, fun _ => by omega⟩

/-- All bytes are in blocks that have been written, or in the current one. -/
theorem Plain.settle (h : e.Plain data) (hroom : e.blockSize ≤ blockRoom) :
    e.settle.Plain data ∧ e.settle.blockSize ≤ blockRoom ∧ e.settle.position = data.length := by
  have hdata : e.window.data.size = data.length := by rw [← h.window, Array.length_toList]
  obtain ⟨hplain, hsize, hend⟩ := h.chooseAll hroom 0 (e.window.data.size - e.position)
  have hle := h.le
  exact ⟨hplain, hsize, Nat.le_antisymm hplain.le (hend (by omega))⟩

theorem toList_data_append (w : Window) (b : Bytes) :
    (w.append b).data.toList = w.data.toList ++ b := by
  unfold Window.append
  induction b generalizing w with
  | nil => simp
  | cons x b ih =>
      have hpush : (w.push x).data = w.data.push x := by
        unfold Window.push
        simp only
        split <;> rfl
      rw [List.foldl_cons, ih, hpush]
      simp

theorem written_flush (e : Encoder) :
    (((e.write (lowBits 0 3)).pad).write (lowBits 0 16 ++ lowBits 0xFFFF 16)).written =
      e.written ++ false :: plainBlock e.written.length [] := by
  obtain ⟨hmark, hbits⟩ := written_write e (lowBits 0 3)
  have hmod := length_written_mod _ hbits
  rw [hmark, List.length_append, length_lowBits] at hmod
  rw [(written_write _ _).1, pad, (written_write _ _).1, hmark, ← hmod, Nat.mod_mod]
  simp [plainBlock, byteBits, List.append_assoc]
  rfl

theorem Plain.writeEmpty (h : e.Plain data) :
    (((e.write (lowBits 0 3)).pad).write (lowBits 0 16 ++ lowBits 0xFFFF 16)).Plain data := by
  have hwritten := written_flush e
  have hstored := h.stored.block (b := []) (Nat.zero_lt_succ _)
  rw [← hwritten, List.append_nil] at hstored
  exact ⟨h.effort, h.window, h.position, h.le, (written_write _ _).2, hstored⟩

theorem Plain.feed (h : e.Plain data) (hroom : e.blockSize ≤ blockRoom) {f : Feed}
    (hf : f ≠ .finish) :
    (e.feed f).Plain (data ++ f.content) ∧ (e.feed f).blockSize ≤ blockRoom := by
  cases f with
  | finish => exact absurd rfl hf
  | data b =>
      have hgiven : ({ e with window := e.window.append b } : Encoder).Plain (data ++ b) := by
        refine ⟨h.effort, ?_, h.position, ?_, h.bits, ?_⟩
        · rw [toList_data_append, h.window]
        · rw [List.length_append]
          exact Nat.le_add_right_of_le h.le
        · have hle := h.le
          rw [h.position] at hle
          rw [List.take_append_of_le_length (by change e.blockStart ≤ _; omega)]
          exact h.stored
      obtain ⟨hplain, hsize, -⟩ := hgiven.chooseAll hroom (longestCopy - 1)
        ((e.window.append b).data.size - e.position)
      exact ⟨hplain, hsize⟩
  | flush =>
      obtain ⟨hsettled, hsize, -⟩ := h.settle hroom
      unfold blockRoom at hsize
      obtain ⟨hended, -, hzero⟩ := hsettled.endBlock (by omega)
      have hfeed : e.feed .flush =
          (((e.settle.endBlock false).write (lowBits 0 3)).pad).write
            (lowBits 0 16 ++ lowBits 0xFFFF 16) := rfl
      have hcontent : data ++ Feed.flush.content = data := List.append_nil data
      rw [hfeed, hcontent]
      generalize e.settle.endBlock false = e₁ at hended hzero ⊢
      refine ⟨hended.writeEmpty, ?_⟩
      change e₁.blockSize ≤ blockRoom
      rw [hzero]
      exact Nat.zero_le _

theorem Plain.foldl_feed (h : e.Plain data) (hroom : e.blockSize ≤ blockRoom) {history : List Feed}
    (hf : Feed.finish ∉ history) :
    (history.foldl Encoder.feed e).Plain (data ++ history.flatMap Feed.content) ∧
      (history.foldl Encoder.feed e).blockSize ≤ blockRoom := by
  induction history generalizing e data with
  | nil => simpa using ⟨h, hroom⟩
  | cons f history ih =>
      rw [List.mem_cons, not_or] at hf
      obtain ⟨hfed, hroom'⟩ := h.feed hroom (Ne.symm hf.1)
      rw [List.foldl_cons, List.flatMap_cons, ← List.append_assoc]
      exact ih hfed hroom' hf.2

theorem length_plainBlock_mod (before : Nat) (b : Bytes) :
    (before + (true :: plainBlock before b).length) % 8 = 0 := by
  simp [plainBlock]
  omega

theorem output_pad_of_mod (e : Encoder) (h : e.bits.length < 8) (hmod : e.written.length % 8 = 0) :
    byteBits e.pad.output = e.written := by
  have hbits : e.bits.length = 0 := (length_written_mod e h).symm.trans hmod
  have hpad : e.pad = e.write [] := by
    rw [pad, hbits]
    rfl
  obtain ⟨hwritten, hlt⟩ := written_write e []
  rw [← hpad, List.append_nil] at hwritten
  rw [← hpad] at hlt
  have hbits' : e.pad.bits = [] := by
    rw [← List.length_eq_zero_iff, ← length_written_mod e.pad hlt, hwritten, hmod]
  rw [← hwritten, written, hbits', List.append_nil]

/-- An encoder that is finished has written a last block, and ends where a byte ends. -/
theorem Plain.byteBits_finish (h : e.Plain data) (hroom : e.blockSize ≤ blockRoom) :
    byteBits (e.feed .finish).output =
        e.settle.written ++ true :: plainBlock e.settle.written.length e.settle.blockBytes ∧
      data.take e.settle.blockStart ++ e.settle.blockBytes = data := by
  obtain ⟨hsettled, hsize, hend⟩ := h.settle hroom
  obtain ⟨hlast, hbits⟩ := written_write e.settle (e.settle.blockBits true)
  rw [hsettled.blockBits_eq] at hlast
  have hended : (e.settle.endBlock true).written =
      e.settle.written ++ true :: plainBlock e.settle.written.length e.settle.blockBytes := by
    rw [← hlast, ← hsettled.blockBits_eq]
    rfl
  refine ⟨?_, ?_⟩
  · rw [← hended]
    refine output_pad_of_mod _ hbits ?_
    rw [hended, List.length_append]
    exact length_plainBlock_mod _ _
  · rw [hsettled.blockBytes_eq, ← List.take_add, ← hsettled.position, hend, List.take_length]

end Encoder

/-- What an encoder of level zero has written in the end is decoded to all that it has been given,
and what follows is left over. -/
theorem decode?_encode (history : List Feed) (more : Bytes) (h : Feed.finish ∉ history) :
    decode? (encode 0 (history ++ [.finish]) ++ more) =
      some (history.flatMap Feed.content, more) := by
  obtain ⟨hplain, hroom⟩ := Encoder.plain_start.foldl_feed (Nat.zero_le _) h
  rw [List.nil_append] at hplain
  unfold encode
  rw [List.foldl_append]
  generalize history.foldl Encoder.feed (Encoder.start 0) = e at hplain hroom ⊢
  obtain ⟨hbits, hdata⟩ := hplain.byteBits_finish hroom
  obtain ⟨hsettled, hsize, -⟩ := hplain.settle hroom
  unfold Encoder.blockRoom at hsize
  have hdecode := hsettled.stored.decode?_eq (by rw [hsettled.length_blockBytes]; omega) hbits more
  rw [hdata] at hdecode
  exact hdecode

end HttpDispatch.Deflate

namespace HttpDispatch

namespace Gzip

theorem length_head (level : Nat) : (head level).length = 10 := rfl

theorem length_tail (data : Bytes) : (tail data).length = 8 := rfl

theorem decode?_encode (history : List Feed) (h : Feed.finish ∉ history) :
    decode? (encode 0 (history ++ [.finish])) = some (history.flatMap Feed.content) := by
  have hencode : encode 0 (history ++ [.finish]) =
      head 0 ++ (Deflate.encode 0 (history ++ [.finish]) ++
        tail (history.flatMap Feed.content)) := by
    simp [encode, Feed.content]
  have htail :=
    (tail (history.flatMap Feed.content)).take_of_length_le (i := 8) (Nat.le_of_eq (length_tail _))
  unfold decode?
  rw [hencode, List.drop_left' (length_head 0), Deflate.decode?_encode history _ h, if_neg ?_]
  · simp only [htail, if_true]
  · rw [List.take_append_of_le_length (by rw [length_head]; omega), List.length_append, length_head]
    simp [head]

end Gzip

theorem Coder.isLawful_standard : Coder.standard.IsLawful 0 := by
  refine ⟨?_, ?_⟩
  · intro coding level history more _ hfinish
    have hgrows := Deflate.prefix_encode level history more
    cases coding with
    | gzip =>
      change Gzip.encode level history <+: Gzip.encode level (history ++ more)
      unfold Gzip.encode
      rw [if_neg hfinish, List.append_nil, List.append_assoc]
      exact List.prefix_append_right_inj _ |>.2 (hgrows.trans (List.prefix_append _ _))
    | deflate => exact hgrows
  · intro coding level history hle hfinish
    obtain rfl : level = 0 := Nat.le_zero.1 hle
    cases coding with
    | gzip => exact Gzip.decode?_encode history hfinish
    | deflate =>
      change (Deflate.decode? (Deflate.encode 0 (history ++ [.finish]))).map (·.1) = _
      have hdecode := Deflate.decode?_encode history [] hfinish
      rw [List.append_nil] at hdecode
      rw [hdecode]
      rfl

/-- An encoder that is finished has written something, whatever it was given. -/
def Coder.IsProductive (c : Coder) : Prop :=
  ∀ coding level history, c.encode coding level (history ++ [.finish]) ≠ []

theorem Deflate.Encoder.output_finish_ne_nil (e : Encoder) : (e.feed .finish).output ≠ [] := by
  have hfinish : e.feed .finish = (e.settle.endBlock true).pad := rfl
  have hblock : (e.settle.endBlock true).written = e.settle.written ++ e.settle.blockBits true :=
    (written_write e.settle (e.settle.blockBits true)).1
  have hlt : (e.settle.endBlock true).bits.length < 8 :=
    (written_write e.settle (e.settle.blockBits true)).2
  have hbits : 0 < (e.settle.blockBits true).length := by
    unfold blockBits
    dsimp only
    split <;> exact Nat.succ_pos _
  have hpos : 0 < (e.settle.endBlock true).written.length := by
    rw [hblock, List.length_append]
    exact Nat.add_pos_right _ hbits
  rw [hfinish]
  generalize e.settle.endBlock true = ended at hlt hpos ⊢
  intro hnil
  obtain ⟨hwritten, hlt'⟩ :=
    written_write ended (List.replicate ((8 - ended.bits.length % 8) % 8) false)
  have hmod := length_written_mod ended hlt
  have hlength := congrArg List.length hwritten
  have hpadded :
      (ended.write (List.replicate ((8 - ended.bits.length % 8) % 8) false)).written.length =
      (ended.write (List.replicate ((8 - ended.bits.length % 8) % 8) false)).bits.length := by
    rw [written, show (ended.write _).output = [] from hnil]
    rfl
  rw [hpadded, List.length_append, List.length_replicate] at hlength
  omega

theorem Coder.isProductive_standard : Coder.standard.IsProductive := by
  intro coding level history
  cases coding with
  | gzip => exact List.cons_ne_nil _ _
  | deflate =>
      change Deflate.encode level (history ++ [.finish]) ≠ []
      rw [Deflate.encode, List.foldl_append]
      exact Deflate.Encoder.output_finish_ne_nil _

end HttpDispatch
