import Mathlib.Tactic.Ring
import Mathlib.Data.Nat.Bitwise
import Mathlib.Data.BitVec

namespace Tosemu.BigEndian

variable {w : ℕ}

def pack (bytes : List (BitVec 8)) (res : BitVec w) : BitVec w :=
  bytes.foldl (fun res b => (res <<< 8) ||| b.setWidth w) res

/-- The last `n` bytes of a word, the most significant first. -/
def unpack (value : BitVec w) : ℕ → List (BitVec 8)
  | 0 => []
  | n + 1 => unpack (value >>> 8) n ++ [value.setWidth 8]

@[simp] theorem unpack_length (value : BitVec w) (n : ℕ) : (unpack value n).length = n := by
  induction n generalizing value with
  | zero => rfl
  | succ n ih => simp [unpack, ih]

theorem unpack_getElem (value : BitVec w) (n k : ℕ) (h : k < (unpack value n).length) :
    (unpack value n)[k] = (value >>> (8 * (n - 1 - k))).setWidth 8 := by
  induction n generalizing value with
  | zero => simp at h
  | succ n ih =>
    rw [unpack_length] at h
    simp only [unpack]
    by_cases hk : k < n
    · rw [List.getElem_append_left (by simpa using hk), ih _ (by simpa using hk),
        ← BitVec.shiftRight_add]
      congr 2
      omega
    · obtain rfl : k = n := by omega
      rw [List.getElem_append_right (by simp)]
      simp

theorem unpack_setWidth {w' : ℕ} (h : w ≤ w') (value : BitVec w) (n : ℕ) :
    unpack (value.setWidth w') n = unpack value n := by
  induction n generalizing value with
  | zero => rfl
  | succ n ih =>
    have hshift : value.setWidth w' >>> 8 = (value >>> 8).setWidth w' := by
      have hpow := Nat.pow_le_pow_right (by decide : 0 < 2) h
      have hlt := value.isLt.trans_le hpow
      apply BitVec.eq_of_toNat_eq
      rw [BitVec.toNat_ushiftRight, BitVec.toNat_setWidth, BitVec.toNat_setWidth,
        BitVec.toNat_ushiftRight, Nat.mod_eq_of_lt hlt]
      exact (Nat.mod_eq_of_lt ((Nat.shiftRight_le _ _).trans_lt hlt)).symm
    have hbyte : (value.setWidth w').setWidth 8 = value.setWidth 8 := by
      apply BitVec.eq_of_toNat_eq
      have hpow := Nat.pow_le_pow_right (by decide : 0 < 2) h
      rw [BitVec.toNat_setWidth, BitVec.toNat_setWidth, BitVec.toNat_setWidth,
        Nat.mod_eq_of_lt (value.isLt.trans_le hpow)]
    rw [unpack, unpack, hshift, hbyte, ih]

theorem pack_append_singleton (bytes : List (BitVec 8)) (b : BitVec 8) (res : BitVec w) :
    pack (bytes ++ [b]) res = (pack bytes res <<< 8) ||| b.setWidth w := by
  simp [pack]

theorem or_byte (x b : ℕ) (hb : b < 2 ^ 8) : x <<< 8 ||| b = x * 2 ^ 8 + b := by
  rw [← Nat.shiftLeft_add_eq_or_of_lt hb, Nat.shiftLeft_eq]

theorem low_byte_eq_and (hw : 8 ≤ w) (value : BitVec w) :
    (value.setWidth 8).setWidth w = 0xff &&& value := by
  have hp : 2 ^ 8 ≤ 2 ^ w := Nat.pow_le_pow_right (by decide) hw
  have hlow : value.toNat % 2 ^ 8 < 2 ^ 8 := Nat.mod_lt _ (by decide)
  have hmask : (0xff : BitVec w).toNat = 2 ^ 8 - 1 :=
    Nat.mod_eq_of_lt ((by decide : 255 < 2 ^ 8).trans_le hp)
  apply BitVec.eq_of_toNat_eq
  rw [BitVec.and_comm, BitVec.toNat_and, hmask, Nat.and_two_pow_sub_one_eq_mod, BitVec.toNat_setWidth,
    BitVec.toNat_setWidth]
  exact Nat.mod_eq_of_lt (hlow.trans_le hp)

theorem pack_unpack (value : BitVec w) (n : ℕ) :
    (pack (unpack value n) (0 : BitVec w)).toNat = value.toNat % 2 ^ (8 * n) := by
  induction n generalizing value with
  | zero => simp [pack, unpack, Nat.mod_one]
  | succ n ih =>
    have hv := value.isLt
    have hx : (value.toNat / 2 ^ 8) % 2 ^ (8 * n) * 2 ^ 8 < 2 ^ w :=
      (Nat.mul_le_mul_right _ (Nat.mod_le _ _)).trans_lt
        ((Nat.div_mul_le_self _ _).trans_lt hv)
    have hb : value.toNat % 2 ^ 8 < 2 ^ w := (Nat.mod_le _ _).trans_lt hv
    rw [unpack, pack_append_singleton, BitVec.toNat_or, BitVec.toNat_shiftLeft, ih,
      BitVec.toNat_ushiftRight, BitVec.toNat_setWidth, BitVec.toNat_setWidth,
      Nat.shiftRight_eq_div_pow, Nat.shiftLeft_eq, Nat.mod_eq_of_lt hx, Nat.mod_eq_of_lt hb,
      ← Nat.shiftLeft_eq, or_byte _ _ (Nat.mod_lt _ (by decide))]
    rw [show 8 * (n + 1) = 8 + 8 * n by ring, pow_add, Nat.mod_mul]
    ring

theorem pack_unpack_eq {n : ℕ} (h : w ≤ 8 * n) (value : BitVec w) : pack (unpack value n) 0 = value := by
  apply BitVec.eq_of_toNat_eq
  rw [pack_unpack]
  exact Nat.mod_eq_of_lt (value.isLt.trans_le (Nat.pow_le_pow_right (by decide) h))

theorem pack_eq_or (bytes : List (BitVec 8)) (res : BitVec w) :
    pack bytes res = res <<< (8 * bytes.length) ||| pack bytes 0 := by
  induction bytes using List.reverseRecOn with
  | nil => simp [pack]
  | append_singleton bytes b ih =>
    have hlen : 8 * (bytes ++ [b]).length = 8 * bytes.length + 8 := by simp [Nat.mul_add]
    rw [pack_append_singleton, pack_append_singleton, ih, BitVec.shiftLeft_or_distrib, hlen,
      ← BitVec.shiftLeft_add, BitVec.or_assoc]

theorem pack_lt (bytes : List (BitVec 8)) :
    (pack bytes (0 : BitVec w)).toNat < 2 ^ (8 * bytes.length) := by
  induction bytes using List.reverseRecOn with
  | nil => simp [pack]
  | append_singleton bytes b ih =>
    have hlen : 8 * (bytes ++ [b]).length = 8 * bytes.length + 8 := by simp [Nat.mul_add]
    have hb := b.isLt
    have hp : 2 ^ 8 ≤ 2 ^ (8 * bytes.length + 8) := Nat.pow_le_pow_right (by omega) (by omega)
    rw [pack_append_singleton, BitVec.toNat_or, hlen]
    apply Nat.or_lt_two_pow
    · rw [BitVec.toNat_shiftLeft, Nat.shiftLeft_eq, pow_add]
      exact (Nat.mod_le _ _).trans_lt (Nat.mul_lt_mul_of_pos_right ih (by decide))
    · rw [BitVec.toNat_setWidth]
      exact (Nat.mod_le _ _).trans_lt (hb.trans_le hp)

theorem shift_or_toNat {x : BitVec w} {n : ℕ} (hx : x.toNat < 2 ^ n) (hn : n + 8 ≤ w) (b : BitVec 8) :
    (x <<< 8 ||| b.setWidth w).toNat = x.toNat * 2 ^ 8 + b.toNat := by
  have hb : b.toNat < 2 ^ 8 := b.isLt
  have hw : 2 ^ (n + 8) ≤ 2 ^ w := Nat.pow_le_pow_right (by omega) hn
  have h8 : 2 ^ 8 ≤ 2 ^ w := Nat.pow_le_pow_right (by omega) (by omega)
  have hxw : x.toNat * 2 ^ 8 < 2 ^ w := by
    rw [pow_add] at hw
    exact (Nat.mul_lt_mul_of_pos_right hx (by decide)).trans_le hw
  rw [BitVec.toNat_or, BitVec.toNat_shiftLeft, BitVec.toNat_setWidth, Nat.shiftLeft_eq,
    Nat.mod_eq_of_lt hxw, Nat.mod_eq_of_lt (hb.trans_le h8), ← Nat.shiftLeft_eq, or_byte _ _ hb,
    Nat.shiftLeft_eq]

theorem unpack_pack (bytes : List (BitVec 8)) (h : 8 * bytes.length ≤ w) :
    unpack (pack bytes (0 : BitVec w)) bytes.length = bytes := by
  induction bytes using List.reverseRecOn with
  | nil => rfl
  | append_singleton bytes b ih =>
    have hlen : 8 * (bytes ++ [b]).length = 8 * bytes.length + 8 := by simp [Nat.mul_add]
    rw [hlen] at h
    have hv := shift_or_toNat (pack_lt (w := w) bytes) h b
    have hb : b.toNat < 2 ^ 8 := b.isLt
    have hshift : (pack bytes (0 : BitVec w) <<< 8 ||| b.setWidth w) >>> 8 = pack bytes 0 := by
      apply BitVec.eq_of_toNat_eq
      rw [BitVec.toNat_ushiftRight, hv, Nat.shiftRight_eq_div_pow]
      omega
    have hlast : (pack bytes (0 : BitVec w) <<< 8 ||| b.setWidth w).setWidth 8 = b := by
      apply BitVec.eq_of_toNat_eq
      rw [BitVec.toNat_setWidth, hv]
      omega
    rw [pack_append_singleton, List.length_append, List.length_singleton, unpack, hshift, hlast,
      ih (by omega)]

theorem unpack_pack_reverse {n : ℕ} (h : 8 * n ≤ w) (value : BitVec w) :
    unpack (pack (unpack value n).reverse (0 : BitVec w)) n = (unpack value n).reverse := by
  have hb := unpack_pack (w := w) (unpack value n).reverse (by simpa using h)
  rwa [List.length_reverse, unpack_length] at hb

end Tosemu.BigEndian
