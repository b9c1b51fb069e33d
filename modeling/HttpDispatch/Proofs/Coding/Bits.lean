import HttpDispatch.Coding.Deflate.Decoder
import HttpDispatch.Coding.Deflate.Encoder
import Mathlib.Algebra.Ring.Nat

/-!
# Bits and bytes of compressed data

Numbers are written with their lowest bit first, and bytes are packed from such bits. What an
encoder has written is a sequence of bits (`Encoder.written`), the last few of which do not make up
a byte yet: everything that is written is appended to it, whatever the effort.
-/

namespace HttpDispatch.Deflate

@[simp]
theorem length_lowBits (n count : Nat) : (lowBits n count).length = count := by
  simp [lowBits]

theorem lowBits_succ (n count : Nat) :
    lowBits n (count + 1) = n.testBit 0 :: lowBits (n / 2) count := by
  simp only [lowBits, List.range_succ_eq_map, List.map_cons, List.map_map]
  congr 1
  apply List.map_congr_left
  intro i _
  simp [Nat.testBit_succ]

@[simp]
theorem ofLowBits_cons (b : Bool) (bits : List Bool) :
    ofLowBits (b :: bits) = ofLowBits bits * 2 + b.toNat := rfl

theorem ofLowBits_lowBits (n count : Nat) : ofLowBits (lowBits n count) = n % 2 ^ count := by
  induction count generalizing n with
  | zero => simp [lowBits, ofLowBits, Nat.mod_one]
  | succ count ih =>
      rw [lowBits_succ, ofLowBits_cons, ih, Nat.pow_succ', Nat.mod_mul, Nat.testBit_zero]
      rcases Nat.mod_two_eq_zero_or_one n with h | h <;> simp [h] <;> omega

theorem lowBits_ofLowBits (bits : List Bool) : lowBits (ofLowBits bits) bits.length = bits := by
  induction bits with
  | nil => rfl
  | cons b bits ih =>
      have hhalf : (ofLowBits bits * 2 + b.toNat) / 2 = ofLowBits bits := by
        cases b <;> simp only [Bool.toNat_false, Bool.toNat_true] <;> omega
      have hlow : (ofLowBits bits * 2 + b.toNat).testBit 0 = b := by
        cases b <;> simp [Nat.testBit_zero]
      rw [List.length_cons, lowBits_succ, ofLowBits_cons, hhalf, hlow, ih]

theorem ofLowBits_lt (bits : List Bool) : ofLowBits bits < 2 ^ bits.length := by
  induction bits with
  | nil => simp [ofLowBits]
  | cons b bits ih =>
      rw [ofLowBits_cons, List.length_cons, Nat.pow_succ]
      have hb : b.toNat ≤ 1 := Bool.toNat_le b
      omega

theorem byteBits_append (a b : Bytes) : byteBits (a ++ b) = byteBits a ++ byteBits b :=
  List.flatMap_append

theorem byteBits_cons (x : UInt8) (b : Bytes) :
    byteBits (x :: b) = lowBits x.toNat 8 ++ byteBits b :=
  List.flatMap_cons

@[simp]
theorem length_byteBits (b : Bytes) : (byteBits b).length = 8 * b.length := by
  induction b with
  | nil => rfl
  | cons x b ih =>
      rw [byteBits_cons, List.length_append, ih, length_lowBits, List.length_cons]
      omega

namespace Encoder

theorem packBits_eq (bytes : Bytes) (bits : List Bool) :
    byteBits (packBits bytes bits).1.reverse ++ (packBits bytes bits).2 =
        byteBits bytes.reverse ++ bits ∧
      (packBits bytes bits).2.length < 8 := by
  induction bytes, bits using packBits.induct with
  | case1 bytes b₀ b₁ b₂ b₃ b₄ b₅ b₆ b₇ rest ih =>
      have hbyte : lowBits (ofLowBits [b₀, b₁, b₂, b₃, b₄, b₅, b₆, b₇]).toUInt8.toNat 8 =
          [b₀, b₁, b₂, b₃, b₄, b₅, b₆, b₇] := by
        have hlt := ofLowBits_lt [b₀, b₁, b₂, b₃, b₄, b₅, b₆, b₇]
        have hbits := lowBits_ofLowBits [b₀, b₁, b₂, b₃, b₄, b₅, b₆, b₇]
        generalize ofLowBits [b₀, b₁, b₂, b₃, b₄, b₅, b₆, b₇] = n at hlt hbits ⊢
        have hn : n.toUInt8.toNat = n := by
          simpa using Nat.mod_eq_of_lt hlt
        rw [hn]
        exact hbits
      obtain ⟨heq, hlt⟩ := ih
      rw [packBits]
      refine ⟨?_, hlt⟩
      rw [heq, List.reverse_cons, byteBits_append, byteBits_cons, hbyte]
      simp [byteBits]
  | case2 bytes rest h =>
      rw [packBits.eq_2 bytes rest h]
      refine ⟨rfl, ?_⟩
      rcases rest with
        _ | ⟨b₀, _ | ⟨b₁, _ | ⟨b₂, _ | ⟨b₃, _ | ⟨b₄, _ | ⟨b₅, _ | ⟨b₆, _ | ⟨b₇, rest⟩⟩⟩⟩⟩⟩⟩⟩
      case cons.cons.cons.cons.cons.cons.cons.cons =>
        exact absurd rfl (h b₀ b₁ b₂ b₃ b₄ b₅ b₆ b₇ rest)
      all_goals simp

theorem suffix_packBits (bytes : Bytes) (bits : List Bool) : bytes <:+ (packBits bytes bits).1 := by
  induction bytes, bits using packBits.induct with
  | case1 bytes b₀ b₁ b₂ b₃ b₄ b₅ b₆ b₇ rest ih =>
      rw [packBits]
      exact (List.suffix_cons _ bytes).trans ih
  | case2 bytes rest h => simp [packBits.eq_2 bytes rest h]

def written (e : Encoder) : List Bool := byteBits e.output ++ e.bits

theorem written_write (e : Encoder) (more : List Bool) :
    (e.write more).written = e.written ++ more ∧ (e.write more).bits.length < 8 := by
  obtain ⟨heq, hlt⟩ := packBits_eq e.bytes (e.bits ++ more)
  refine ⟨?_, hlt⟩
  have hwritten : e.written ++ more = byteBits e.bytes.reverse ++ (e.bits ++ more) :=
    List.append_assoc _ _ _
  rw [hwritten, ← heq]
  rfl

/-- The bits that do not make up a byte are those by which the whole exceeds full bytes. -/
theorem length_written_mod (e : Encoder) (h : e.bits.length < 8) :
    e.written.length % 8 = e.bits.length := by
  rw [written, List.length_append, length_byteBits]
  omega

variable {e e' e'' : Encoder}

/-- Nothing that has been put out is taken back. -/
def Extends (e e' : Encoder) : Prop := e.output <+: e'.output

theorem Extends.refl (e : Encoder) : e.Extends e := List.prefix_rfl

theorem Extends.trans (h : e.Extends e') (h' : e'.Extends e'') : e.Extends e'' :=
  List.IsPrefix.trans h h'

theorem extends_of_bytes_eq (h : e'.bytes = e.bytes) : e.Extends e' :=
  ⟨[], (List.append_nil e.output).trans (congrArg List.reverse h.symm)⟩

theorem extends_write (e : Encoder) (more : List Bool) : e.Extends (e.write more) :=
  List.reverse_prefix.2 (suffix_packBits e.bytes (e.bits ++ more))

theorem extends_endBlock (e : Encoder) (last : Bool) : e.Extends (e.endBlock last) :=
  extends_write e (e.blockBits last)

theorem extends_advance (e : Encoder) (count : Nat) : e.Extends (e.advance count) := by
  unfold advance
  simp only
  split
  · exact (extends_of_bytes_eq rfl).trans (extends_endBlock _ false)
  · exact extends_of_bytes_eq rfl

theorem extends_step (e : Encoder) : e.Extends e.step := by
  have hadvance :
      ∀ (e' : Encoder) (count : Nat), e'.bytes = e.bytes → e.Extends (e'.advance count) :=
    fun e' count h => (extends_of_bytes_eq h).trans (extends_advance e' count)
  unfold step
  simp only
  repeat' split
  all_goals exact hadvance _ _ rfl

theorem extends_chooseAll (ahead fuel : Nat) (e : Encoder) :
    e.Extends (chooseAll ahead fuel e) := by
  induction fuel generalizing e with
  | zero => exact .refl e
  | succ fuel ih =>
      unfold chooseAll
      split
      · exact (extends_step e).trans (ih _)
      · exact .refl e

theorem extends_feed (e : Encoder) (f : Feed) : e.Extends (e.feed f) := by
  cases f with
  | data b =>
      have hwindow : e.Extends { e with window := e.window.append b } := extends_of_bytes_eq rfl
      exact hwindow.trans (extends_chooseAll _ _ _)
  | flush =>
      have hblock := (extends_chooseAll 0 _ e).trans (extends_endBlock e.settle false)
      exact ((hblock.trans (extends_write _ _)).trans (extends_write _ _)).trans (extends_write _ _)
  | finish =>
      have hblock := (extends_chooseAll 0 _ e).trans (extends_endBlock e.settle true)
      exact hblock.trans (extends_write _ _)

theorem extends_foldl_feed (history : List Feed) (e : Encoder) :
    e.Extends (history.foldl feed e) := by
  induction history generalizing e with
  | nil => exact .refl e
  | cons f history ih => exact (extends_feed e f).trans (ih _)

end Encoder

theorem prefix_encode (level : Nat) (history more : List Feed) :
    encode level history <+: encode level (history ++ more) := by
  unfold encode
  rw [List.foldl_append]
  exact Encoder.extends_foldl_feed more _

end HttpDispatch.Deflate
