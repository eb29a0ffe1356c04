import Mathlib.Data.Nat.Bitwise
import Mathlib.Tactic.Ring

/-!
# Big-endian 16- and 32-bit words

`be16`, `be32` : the bytes of a word, most significant first; `ofBe16`, `ofBe32` : the word of its
bytes. Both directions are inverse (`ofBe32_be32`, `be32_ofBe32`), through the arithmetic value of the
bytes (`toNat_ofBe32`).
-/

namespace BigEndian

def be16 (x : UInt16) : List UInt8 := [(x >>> 8).toUInt8, x.toUInt8]

def be32 (x : UInt32) : List UInt8 :=
  [(x >>> 24).toUInt8, (x >>> 16).toUInt8, (x >>> 8).toUInt8, x.toUInt8]

def ofBe16 (a b : UInt8) : UInt16 := a.toUInt16 <<< 8 ||| b.toUInt16

def ofBe32 (a b c d : UInt8) : UInt32 :=
  a.toUInt32 <<< 24 ||| b.toUInt32 <<< 16 ||| c.toUInt32 <<< 8 ||| d.toUInt32

theorem toUInt8_and_ff16 (x : UInt16) : (x &&& 0xFF).toUInt8 = x.toUInt8 := by
  rw [← UInt8.toNat_inj, UInt16.toNat_toUInt8, UInt16.toNat_toUInt8, UInt16.toNat_and,
    show (0xFF : UInt16).toNat = 2 ^ 8 - 1 from rfl, Nat.and_two_pow_sub_one_eq_mod, Nat.mod_mod]

theorem toUInt8_and_ff32 (x : UInt32) : (x &&& 0xFF).toUInt8 = x.toUInt8 := by
  rw [← UInt8.toNat_inj, UInt32.toNat_toUInt8, UInt32.toNat_toUInt8, UInt32.toNat_and,
    show (0xFF : UInt32).toNat = 2 ^ 8 - 1 from rfl, Nat.and_two_pow_sub_one_eq_mod, Nat.mod_mod]

@[simp] theorem length_be16 (x : UInt16) : (be16 x).length = 2 := rfl

@[simp] theorem length_be32 (x : UInt32) : (be32 x).length = 4 := rfl

/-- OR of a byte into the low end of a value whose low byte is clear. -/
theorem shl8_or (hi lo : Nat) (h : lo < 2 ^ 8) : hi * 2 ^ 8 ||| lo = hi * 2 ^ 8 + lo := by
  have := Nat.shiftLeft_add_eq_or_of_lt h hi
  rw [Nat.shiftLeft_eq] at this
  exact this.symm

theorem or_mul_pow (x y k : Nat) : x * 2 ^ k ||| y * 2 ^ k = (x ||| y) * 2 ^ k := by
  simp only [← Nat.shiftLeft_eq, Nat.shiftLeft_or_distrib]

theorem toNat_ofBe16 (a b : UInt8) : (ofBe16 a b).toNat = a.toNat * 2 ^ 8 + b.toNat := by
  have ha := a.toNat_lt
  have hb := b.toNat_lt
  simp only [ofBe16, UInt16.toNat_or, UInt16.toNat_shiftLeft, UInt8.toNat_toUInt16]
  rw [show (8 : UInt16).toNat % 16 = 8 from rfl, Nat.shiftLeft_eq, Nat.mod_eq_of_lt (by omega)]
  exact shl8_or _ _ hb

theorem toNat_ofBe32 (a b c d : UInt8) :
    (ofBe32 a b c d).toNat = ((a.toNat * 2 ^ 8 + b.toNat) * 2 ^ 8 + c.toNat) * 2 ^ 8 + d.toNat := by
  have ha := a.toNat_lt
  have hb := b.toNat_lt
  have hc := c.toNat_lt
  have hd := d.toNat_lt
  simp only [ofBe32, UInt32.toNat_or, UInt32.toNat_shiftLeft, UInt8.toNat_toUInt32]
  rw [show (24 : UInt32).toNat % 32 = 24 from rfl, show (16 : UInt32).toNat % 32 = 16 from rfl,
    show (8 : UInt32).toNat % 32 = 8 from rfl]
  simp only [Nat.shiftLeft_eq]
  rw [Nat.mod_eq_of_lt (by omega), Nat.mod_eq_of_lt (by omega), Nat.mod_eq_of_lt (by omega),
    show a.toNat * 2 ^ 24 = a.toNat * 2 ^ 8 * 2 ^ 16 by ring, or_mul_pow, shl8_or _ _ hb,
    show (a.toNat * 2 ^ 8 + b.toNat) * 2 ^ 16 = (a.toNat * 2 ^ 8 + b.toNat) * 2 ^ 8 * 2 ^ 8 by ring,
    or_mul_pow, shl8_or _ _ hc]
  exact shl8_or _ _ hd

theorem be16_ofBe16 (a b : UInt8) : be16 (ofBe16 a b) = [a, b] := by
  have ha := a.toNat_lt
  have hb := b.toNat_lt
  simp only [be16, List.cons.injEq, and_true, ← UInt8.toNat_inj, UInt16.toNat_toUInt8,
    UInt16.toNat_shiftRight, toNat_ofBe16]
  rw [show (8 : UInt16).toNat % 16 = 8 from rfl, Nat.shiftRight_eq_div_pow]
  omega

theorem be32_ofBe32 (a b c d : UInt8) : be32 (ofBe32 a b c d) = [a, b, c, d] := by
  have ha := a.toNat_lt
  have hb := b.toNat_lt
  have hc := c.toNat_lt
  have hd := d.toNat_lt
  simp only [be32, List.cons.injEq, and_true, ← UInt8.toNat_inj, UInt32.toNat_toUInt8,
    UInt32.toNat_shiftRight, toNat_ofBe32]
  rw [show (24 : UInt32).toNat % 32 = 24 from rfl, show (16 : UInt32).toNat % 32 = 16 from rfl,
    show (8 : UInt32).toNat % 32 = 8 from rfl]
  simp only [Nat.shiftRight_eq_div_pow]
  omega

theorem ofBe16_be16 (x : UInt16) : ofBe16 (x >>> 8).toUInt8 x.toUInt8 = x := by
  have hx := x.toNat_lt
  rw [← UInt16.toNat_inj, toNat_ofBe16, UInt16.toNat_toUInt8, UInt16.toNat_toUInt8,
    UInt16.toNat_shiftRight, show (8 : UInt16).toNat % 16 = 8 from rfl, Nat.shiftRight_eq_div_pow]
  omega

theorem ofBe32_be32 (x : UInt32) :
    ofBe32 (x >>> 24).toUInt8 (x >>> 16).toUInt8 (x >>> 8).toUInt8 x.toUInt8 = x := by
  have hx := x.toNat_lt
  rw [← UInt32.toNat_inj, toNat_ofBe32]
  simp only [UInt32.toNat_toUInt8, UInt32.toNat_shiftRight]
  rw [show (24 : UInt32).toNat % 32 = 24 from rfl, show (16 : UInt32).toNat % 32 = 16 from rfl,
    show (8 : UInt32).toNat % 32 = 8 from rfl]
  simp only [Nat.shiftRight_eq_div_pow]
  omega

/-- Four bytes are the encoding of `x` exactly when they decode to it. -/
theorem ofBe32_eq_iff (a b c d : UInt8) (x : UInt32) : ofBe32 a b c d = x ↔ [a, b, c, d] = be32 x := by
  constructor
  · rintro rfl
    exact (be32_ofBe32 a b c d).symm
  · intro h
    simp only [be32, List.cons.injEq, and_true] at h
    obtain ⟨rfl, rfl, rfl, rfl⟩ := h
    exact ofBe32_be32 x

theorem ofBe16_eq_iff (a b : UInt8) (x : UInt16) : ofBe16 a b = x ↔ [a, b] = be16 x := by
  constructor
  · rintro rfl
    exact (be16_ofBe16 a b).symm
  · intro h
    simp only [be16, List.cons.injEq, and_true] at h
    obtain ⟨rfl, rfl⟩ := h
    exact ofBe16_be16 x

end BigEndian
