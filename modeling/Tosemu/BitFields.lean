import Mathlib.Data.Nat.Bitwise
import Mathlib.Data.BitVec

namespace Tosemu.BitFields

variable {w : ℕ}

def field (v : BitVec w) (lo n : ℕ) : ℕ := (v.extractLsb' lo n).toNat

theorem field_eq (v : BitVec w) (lo n : ℕ) : field v lo n = v.toNat / 2 ^ lo % 2 ^ n := by
  rw [field, BitVec.extractLsb'_toNat, Nat.shiftRight_eq_div_pow]

theorem ofNat_or_shiftLeft {a b k : ℕ} (ha : a < 2 ^ k) (hb : a + b * 2 ^ k < 2 ^ w) :
    BitVec.ofNat w a ||| BitVec.ofNat w b <<< k = BitVec.ofNat w (a + b * 2 ^ k) := by
  have hpos := Nat.two_pow_pos k
  have hlow : a < 2 ^ w := by omega
  have hshift : b * 2 ^ k < 2 ^ w := by omega
  have hhigh : b < 2 ^ w := (Nat.le_mul_of_pos_right b hpos).trans_lt hshift
  apply BitVec.eq_of_toNat_eq
  rw [BitVec.toNat_or, BitVec.toNat_shiftLeft, BitVec.toNat_ofNat, BitVec.toNat_ofNat,
    BitVec.toNat_ofNat, Nat.mod_eq_of_lt hlow, Nat.mod_eq_of_lt hhigh, Nat.mod_eq_of_lt hb,
    Nat.shiftLeft_eq, Nat.mod_eq_of_lt hshift, Nat.or_comm, ← Nat.shiftLeft_eq,
    ← Nat.shiftLeft_add_eq_or_of_lt ha, Nat.shiftLeft_eq, Nat.add_comm]

end Tosemu.BitFields
