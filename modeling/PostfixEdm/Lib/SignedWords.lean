import PostfixEdm.Lib.BigEndian
import Mathlib.Data.BitVec

/-!
# Big-endian signed words, through the integer promotion

* `promote`, `toByte` : a byte as an `int`, and `static_cast<uchar_t>` of an `int`;
* `ofBeInt16`, `ofBeInt32` : the signed word of its promoted bytes is the unsigned one, read as signed;
* `toByte_int16`, `toByte_int32` : the bytes of a signed word are the bytes of the unsigned one, because the
  sign that an arithmetic shift brings in stays above the low byte.
-/

namespace BigEndian

/-- The integer promotion of a byte. -/
def promote (b : UInt8) : Int32 := b.toUInt32.toInt32

/-- `static_cast<uchar_t>` of an `int` -/
def toByte (x : Int32) : UInt8 := x.toUInt32.toUInt8

def ofBeInt16 (a b : UInt8) : Int16 := (promote a <<< 8 ||| promote b).toInt16

def ofBeInt32 (a b c d : UInt8) : Int32 :=
  promote a <<< 24 ||| promote b <<< 16 ||| promote c <<< 8 ||| promote d

theorem ofBeInt32_eq (a b c d : UInt8) : ofBeInt32 a b c d = (ofBe32 a b c d).toInt32 := rfl

/-- The conversion to 16 bits drops what the promotion added. -/
theorem ofBeInt16_eq (a b : UInt8) : ofBeInt16 a b = (ofBe16 a b).toInt16 := by
  apply Int16.toBitVec_inj.mp
  change (a.toBitVec.setWidth 32 <<< 8 ||| b.toBitVec.setWidth 32).signExtend 16 =
    a.toBitVec.setWidth 16 <<< 8 ||| b.toBitVec.setWidth 16
  rw [BitVec.signExtend_eq_setWidth_of_le _ (by decide)]
  apply BitVec.eq_of_getLsbD_eq
  intro i hi
  have : i - 8 < 16 := by omega
  have : i < 32 := by omega
  simp [*]

/-! ## The bytes of a signed word -/

/-- The low bits of an arithmetic shift do not see the sign. -/
theorem setWidth_sshiftRight {w : Nat} (x : BitVec w) {k n : Nat} (h : k + n ≤ w) :
    (x.sshiftRight k).setWidth n = (x >>> k).setWidth n := by
  apply BitVec.eq_of_getLsbD_eq
  intro i hi
  simp only [BitVec.getLsbD_setWidth, BitVec.getLsbD_sshiftRight, BitVec.getLsbD_ushiftRight,
    show ¬ w ≤ i by omega, show k + i < w by omega]
  simp

/-- Nor do the low bits of a sign extension. -/
theorem setWidth_signExtend {w v : Nat} (x : BitVec w) {k n : Nat} (h : k + n ≤ w) (hv : w ≤ v) :
    (x.signExtend v >>> k).setWidth n = (x >>> k).setWidth n := by
  apply BitVec.eq_of_getLsbD_eq
  intro i hi
  simp only [BitVec.getLsbD_setWidth, BitVec.getLsbD_ushiftRight, BitVec.getLsbD_signExtend,
    show k + i < v by omega, show k + i < w by omega]
  simp

theorem toByte_and_ff (x : Int32) : toByte (x &&& 0xFF) = toByte x := toUInt8_and_ff32 x.toUInt32

theorem toByte_int32 (x : Int32) :
    [toByte (x >>> 24), toByte ((x >>> 16) &&& 0xFF), toByte ((x >>> 8) &&& 0xFF), toByte (x &&& 0xFF)] =
      be32 x.toUInt32 := by
  simp only [be32, toByte_and_ff, List.cons.injEq, ← UInt8.toBitVec_inj, and_true]
  exact ⟨setWidth_sshiftRight x.toBitVec (by decide), setWidth_sshiftRight x.toBitVec (by decide),
    setWidth_sshiftRight x.toBitVec (by decide), rfl⟩

theorem toByte_int16 (x : Int16) :
    [toByte (x.toInt32 >>> 8), toByte (x.toInt32 &&& 0xFF)] = be16 x.toUInt16 := by
  have hlow : (x.toBitVec.signExtend 32 >>> 0).setWidth 8 = (x.toBitVec >>> 0).setWidth 8 :=
    setWidth_signExtend x.toBitVec (by decide) (by decide)
  simp only [BitVec.ushiftRight_zero] at hlow
  simp only [be16, toByte_and_ff, List.cons.injEq, ← UInt8.toBitVec_inj, and_true]
  exact ⟨(setWidth_sshiftRight (x.toBitVec.signExtend 32) (by decide)).trans
    (setWidth_signExtend x.toBitVec (by decide) (by decide)), hlow⟩

end BigEndian
