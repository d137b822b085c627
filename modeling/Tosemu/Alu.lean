import Mathlib.Tactic.SplitIfs
import Mathlib.Tactic.Ring
import Tosemu.Cpu
import Tosemu.Memory

/-!
The flag macros of `m68kcpu.h`. The core computes in unsigned words of 32 bits whatever the size of
an operand, and keeps a flag in one bit of such a word: C and X in bit 8, N and V in bit 7, and Z as
a word that is zero.
-/

namespace Tosemu

def Width.bits : Width → ℕ
  | .byte => 8
  | .word => 16
  | .long => 32

def Width.value (w : Width) (a : Long) : ℕ := a.toNat % 2 ^ w.bits

def Width.signed (w : Width) (a : Long) : ℤ := (a.setWidth w.bits).toInt

def Width.sign (w : Width) (a : Long) : Bool := a.getLsbD (w.bits - 1)

namespace Cpu

section Macros

variable (w : Width) (a src dst res : Long)

def maskOutAbove : Long :=
  match w with
  | .byte => a &&& 0xff
  | .word => a &&& 0xffff
  | .long => a

def maskOutBelow : Long :=
  match w with
  | .byte => a &&& ~~~0xff
  | .word => a &&& ~~~0xffff
  | .long => 0

def nflag : Long :=
  match w with
  | .byte => a
  | .word => a >>> 8
  | .long => a >>> 24

def cflagAdd : Long :=
  match w with
  | .byte => res
  | .word => res >>> 8
  | .long => ((src &&& dst) ||| (~~~res &&& (src ||| dst))) >>> 23

def cflagSub : Long :=
  match w with
  | .byte => res
  | .word => res >>> 8
  | .long => ((src &&& res) ||| (~~~dst &&& (src ||| res))) >>> 23

def vflagAdd : Long :=
  match w with
  | .byte => (src ^^^ res) &&& (dst ^^^ res)
  | .word => ((src ^^^ res) &&& (dst ^^^ res)) >>> 8
  | .long => ((src ^^^ res) &&& (dst ^^^ res)) >>> 24

def vflagSub : Long :=
  match w with
  | .byte => (src ^^^ dst) &&& (res ^^^ dst)
  | .word => ((src ^^^ dst) &&& (res ^^^ dst)) >>> 8
  | .long => ((src ^^^ dst) &&& (res ^^^ dst)) >>> 24

end Macros

def xflagAs1 (c : Core) : Long := (c.xFlag >>> 8) &&& 1

section Values

variable (w : Width) (a : Long)

theorem maskOutAbove_toNat : (maskOutAbove w a).toNat = w.value a := by
  cases w with
  | byte => exact Nat.and_two_pow_sub_one_eq_mod a.toNat 8
  | word => exact Nat.and_two_pow_sub_one_eq_mod a.toNat 16
  | long => exact (Nat.mod_eq_of_lt a.isLt).symm

theorem value_lt : w.value a < 2 ^ w.bits := Nat.mod_lt _ (Nat.two_pow_pos _)

theorem maskOutAbove_bit (i : ℕ) :
    (maskOutAbove w a).getLsbD i = (decide (i < w.bits) && a.getLsbD i) := by
  rw [← BitVec.testBit_toNat, maskOutAbove_toNat, Width.value, Nat.testBit_mod_two_pow, BitVec.testBit_toNat]

theorem masked_twice : maskOutAbove w (maskOutAbove w a) = maskOutAbove w a := by
  apply BitVec.eq_of_toNat_eq
  rw [maskOutAbove_toNat, Width.value, maskOutAbove_toNat]
  exact Nat.mod_mod _ _

theorem shl_bit {m i : ℕ} (hi : i < 32) :
    (a <<< m).getLsbD i = (decide (m ≤ i) && a.getLsbD (i - m)) := by
  rw [BitVec.getLsbD_shiftLeft, decide_eq_true hi, Bool.true_and, ← decide_not, decide_eq_decide.mpr not_lt]

theorem shr_bit (m i : ℕ) : (a >>> m).getLsbD i = a.getLsbD (m + i) :=
  BitVec.getLsbD_ushiftRight ..

theorem mask80 : decide (a &&& 0x80 ≠ 0) = a.getLsbD 7 := by
  have hmask : (0x80 : Long) = BitVec.twoPow 32 7 := rfl
  rw [hmask, BitVec.and_twoPow]
  cases a.getLsbD 7 <;> rfl

theorem mask100 : decide (a &&& 0x100 ≠ 0) = a.getLsbD 8 := by
  have hmask : (0x100 : Long) = BitVec.twoPow 32 8 := rfl
  rw [hmask, BitVec.and_twoPow]
  cases a.getLsbD 8 <;> rfl

theorem testBit_top {n k : ℕ} : n.testBit k = decide (2 ^ k ≤ n % 2 ^ (k + 1)) := by
  have hlt : n % 2 ^ (k + 1) < 2 ^ (k + 1) := Nat.mod_lt _ (Nat.two_pow_pos _)
  have hbit : n.testBit k = (n % 2 ^ (k + 1)).testBit k := by simp [Nat.testBit_mod_two_pow]
  rw [hbit, Nat.testBit_eq_decide_div_mod_eq, decide_eq_decide]
  have hdiv : n % 2 ^ (k + 1) / 2 ^ k < 2 := by
    rw [Nat.div_lt_iff_lt_mul (Nat.two_pow_pos _)]
    omega
  rw [Nat.mod_eq_of_lt hdiv]
  constructor
  · intro h
    exact (Nat.one_le_div_iff (Nat.two_pow_pos _)).mp h.ge
  · intro h
    have := (Nat.one_le_div_iff (Nat.two_pow_pos _)).mpr h
    omega

theorem sign_eq : w.sign a = decide (2 ^ (w.bits - 1) ≤ w.value a) := by
  have hb : w.bits - 1 + 1 = w.bits := by cases w <;> rfl
  rw [Width.sign, Width.value, ← BitVec.testBit_toNat, testBit_top, hb]

theorem signed_eq : w.signed a =
    if w.sign a then (w.value a : ℤ) - 2 ^ w.bits else w.value a := by
  have hlt := value_lt w a
  have hsplit : 2 ^ w.bits = 2 * 2 ^ (w.bits - 1) := by cases w <;> rfl
  have hvalue : (a.setWidth w.bits).toNat = w.value a := BitVec.toNat_setWidth ..
  rw [sign_eq, Width.signed, BitVec.toInt_eq_toNat_cond, hvalue]
  by_cases h : 2 ^ (w.bits - 1) ≤ w.value a
  · rw [if_neg (by omega), if_pos (decide_eq_true h)]
    norm_cast
  · rw [if_pos (by omega), if_neg (by simpa using h)]

theorem nflag_bit : (nflag w a).getLsbD 7 = w.sign a := by
  cases w <;> simp [nflag, Width.sign, Width.bits]

theorem zflag_eq_zero : maskOutAbove w a = 0 ↔ w.value a = 0 := by
  rw [← maskOutAbove_toNat]
  exact ⟨fun h => by rw [h]; rfl, fun h => BitVec.eq_of_toNat_eq h⟩

end Values

theorem xflagAs1_eq (c : Core) : (xflagAs1 c).toNat = (c.xFlag.getLsbD 8).toNat := by
  rw [xflagAs1, BitVec.toNat_and, BitVec.toNat_ushiftRight, ← BitVec.testBit_toNat,
    Nat.testBit_eq_decide_div_mod_eq, Nat.shiftRight_eq_div_pow]
  have hone : (1 : Long).toNat = 2 ^ 1 - 1 := rfl
  rw [hone, Nat.and_two_pow_sub_one_eq_mod]
  rcases Nat.mod_two_eq_zero_or_one (c.xFlag.toNat / 2 ^ 8) with h | h <;> rw [h] <;> rfl

section Carry

variable {w : Width} {src dst : Long} {x : Long}

theorem cflagAdd_bit (hs : src.toNat < 2 ^ w.bits) (hd : dst.toNat < 2 ^ w.bits) (hx : x.toNat ≤ 1) :
    (cflagAdd w src dst (src + dst + x)).getLsbD 8 =
      decide (2 ^ w.bits ≤ src.toNat + dst.toNat + x.toNat) := by
  have hsum : (src + dst + x).toNat = (src.toNat + dst.toNat + x.toNat) % 2 ^ 32 := by
    simp [BitVec.toNat_add]
  cases w with
  | byte =>
    rw [cflagAdd, ← BitVec.testBit_toNat, testBit_top, hsum]
    simp only [Width.bits] at hs hd ⊢
    apply decide_eq_decide.mpr
    omega
  | word =>
    have hbit : (cflagAdd .word src dst (src + dst + x)).getLsbD 8 = (src + dst + x).getLsbD 16 := by
      simp [cflagAdd]
    rw [hbit, ← BitVec.testBit_toNat, testBit_top, hsum]
    simp only [Width.bits] at hs hd ⊢
    apply decide_eq_decide.mpr
    omega
  | long =>
    have hbit : (cflagAdd .long src dst (src + dst + x)).getLsbD 8 =
        (src.getLsbD 31 && dst.getLsbD 31 ||
          !(src + dst + x).getLsbD 31 && (src.getLsbD 31 || dst.getLsbD 31)) := by
      simp [cflagAdd]
    rw [hbit, Bool.eq_iff_iff, decide_eq_true_iff]
    simp only [← BitVec.testBit_toNat, testBit_top, hsum]
    simp only [Width.bits] at hs hd ⊢
    simp only [Bool.or_eq_true, Bool.and_eq_true, Bool.not_eq_true', decide_eq_true_eq,
      decide_eq_false_iff_not]
    omega

theorem cflagSub_bit (hs : src.toNat < 2 ^ w.bits) (hd : dst.toNat < 2 ^ w.bits) (hx : x.toNat ≤ 1) :
    (cflagSub w src dst (dst - src - x)).getLsbD 8 = decide (dst.toNat < src.toNat + x.toNat) := by
  have hdiff : (dst - src - x).toNat = (2 ^ 33 + dst.toNat - src.toNat - x.toNat) % 2 ^ 32 := by
    have hslt := src.isLt
    rw [BitVec.toNat_sub, BitVec.toNat_sub]
    omega
  cases w with
  | byte =>
    rw [cflagSub, ← BitVec.testBit_toNat, testBit_top, hdiff]
    simp only [Width.bits] at hs hd ⊢
    apply decide_eq_decide.mpr
    omega
  | word =>
    have hbit : (cflagSub .word src dst (dst - src - x)).getLsbD 8 = (dst - src - x).getLsbD 16 := by
      simp [cflagSub]
    rw [hbit, ← BitVec.testBit_toNat, testBit_top, hdiff]
    simp only [Width.bits] at hs hd ⊢
    apply decide_eq_decide.mpr
    omega
  | long =>
    have hbit : (cflagSub .long src dst (dst - src - x)).getLsbD 8 =
        (src.getLsbD 31 && (dst - src - x).getLsbD 31 ||
          !dst.getLsbD 31 && (src.getLsbD 31 || (dst - src - x).getLsbD 31)) := by
      simp [cflagSub]
    rw [hbit, Bool.eq_iff_iff, decide_eq_true_iff]
    simp only [← BitVec.testBit_toNat, testBit_top, hdiff]
    simp only [Width.bits] at hs hd ⊢
    simp only [Bool.or_eq_true, Bool.and_eq_true, Bool.not_eq_true', decide_eq_true_eq,
      decide_eq_false_iff_not]
    omega

theorem vflagSub_bit (res : Long) : (vflagSub w src dst res).getLsbD 7 =
    ((w.sign src ^^ w.sign dst) && (w.sign res ^^ w.sign dst)) := by
  cases w <;> simp [vflagSub, Width.sign, Width.bits]

theorem value_add (hs : src.toNat < 2 ^ w.bits) (hd : dst.toNat < 2 ^ w.bits) (hx : x.toNat ≤ 1) :
    w.value (src + dst + x) + (if 2 ^ w.bits ≤ src.toNat + dst.toNat + x.toNat then 2 ^ w.bits else 0) =
      src.toNat + dst.toNat + x.toNat := by
  have hsum : (src + dst + x).toNat = (src.toNat + dst.toNat + x.toNat) % 2 ^ 32 := by
    simp [BitVec.toNat_add]
  rw [Width.value, hsum]
  split_ifs with h <;> cases w <;> simp only [Width.bits] at hs hd h ⊢ <;> omega

theorem value_sub (hs : src.toNat < 2 ^ w.bits) (hd : dst.toNat < 2 ^ w.bits) (hx : x.toNat ≤ 1) :
    w.value (dst - src - x) + src.toNat + x.toNat =
      dst.toNat + (if dst.toNat < src.toNat + x.toNat then 2 ^ w.bits else 0) := by
  have hdiff : (dst - src - x).toNat = (2 ^ 33 + dst.toNat - src.toNat - x.toNat) % 2 ^ 32 := by
    have hslt := src.isLt
    rw [BitVec.toNat_sub, BitVec.toNat_sub]
    omega
  rw [Width.value, hdiff]
  split_ifs with h <;> cases w <;> simp only [Width.bits] at hs hd h ⊢ <;> omega

end Carry

end Cpu

end Tosemu
