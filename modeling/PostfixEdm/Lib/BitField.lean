import Mathlib.Data.UInt
import Mathlib.Data.Nat.Bitwise

/-!
# The bit fields of a byte

* `toNat_field` : what a mask of `len` bits from bit `lo` on cuts out, when it is shifted down;
* `toNat_low` : the same at bit 0; `toNat_shiftLeft_of_lt` : a field that is shifted up and stays in the byte.
-/

namespace UInt8

theorem toNat_low (x : UInt8) {mask : UInt8} (len : Nat) (hmask : mask.toNat = 2 ^ len - 1) :
    (x &&& mask).toNat = x.toNat % 2 ^ len := by
  rw [UInt8.toNat_and, hmask, Nat.and_two_pow_sub_one_eq_mod]

theorem toNat_field (x : UInt8) {mask shift : UInt8} (lo len : Nat) (hlo : lo < 8) (hshift : shift.toNat = lo)
    (hmask : mask.toNat >>> lo = 2 ^ len - 1) : ((x &&& mask) >>> shift).toNat = x.toNat / 2 ^ lo % 2 ^ len := by
  rw [UInt8.toNat_shiftRight, hshift, Nat.mod_eq_of_lt hlo, UInt8.toNat_and, Nat.shiftRight_and_distrib, hmask,
    Nat.and_two_pow_sub_one_eq_mod, Nat.shiftRight_eq_div_pow]

theorem toNat_shiftLeft_of_lt {x shift : UInt8} (lo : Nat) (hlo : lo < 8) (hshift : shift.toNat = lo)
    (hx : x.toNat * 2 ^ lo < 256) : (x <<< shift).toNat = x.toNat * 2 ^ lo := by
  rw [UInt8.toNat_shiftLeft, hshift, Nat.mod_eq_of_lt hlo, Nat.shiftLeft_eq, Nat.mod_eq_of_lt hx]

end UInt8
