import Tosemu.ExtendedArithmetic

namespace Tosemu.M68k

open Cpu CarryChain

def decimal (v : ℕ) : ℕ := 10 * (v / 16) + v % 16

def IsDecimal (v : ℕ) : Prop := v / 16 < 10 ∧ v % 16 < 10

instance (v : ℕ) : Decidable (IsDecimal v) := inferInstanceAs (Decidable (_ ∧ _))

section Nibbles

variable {a : Long}

theorem lowNibble_toNat (a : Long) : (lowNibble a).toNat = a.toNat % 16 := by
  rw [lowNibble, BitVec.toNat_and]
  exact Nat.and_two_pow_sub_one_eq_mod a.toNat 4

theorem highNibble_toNat (ha : a.toNat < 256) : (highNibble a).toNat = 16 * (a.toNat / 16) := by
  have hand : ∀ q < 16, ∀ r < 16, (16 * q + r) &&& 0xf0 = 16 * q := by decide
  have h := hand (a.toNat / 16) (by omega) (a.toNat % 16) (by omega)
  rwa [Nat.div_add_mod] at h

end Nibbles

section Sum

variable {src dst x : Long}

def rawSum (src dst x : Long) : Long :=
  let res := lowNibble src + lowNibble dst + x
  (if 9 < res then res + 6 else res) + (highNibble src + highNibble dst)

theorem abcd_raw (src dst : Long) (m : Machine) :
    (abcd src dst m).1 = maskOutAbove .byte
        (if 0x99 < rawSum src dst (xflagAs1 m.cpu) then rawSum src dst (xflagAs1 m.cpu) - 0xa0
          else rawSum src dst (xflagAs1 m.cpu)) ∧
      xBit (abcd src dst m).2.cpu = if 0x99 < rawSum src dst (xflagAs1 m.cpu) then 1 else 0 := by
  have hres : (abcd src dst m).1 = maskOutAbove .byte
      (if (if 0x99 < rawSum src dst (xflagAs1 m.cpu) then 0x100 else 0 : Long) ≠ 0
        then rawSum src dst (xflagAs1 m.cpu) - 0xa0 else rawSum src dst (xflagAs1 m.cpu)) := rfl
  have hcarry : xBit (abcd src dst m).2.cpu =
      ((if 0x99 < rawSum src dst (xflagAs1 m.cpu) then 0x100 else 0 : Long).getLsbD 8).toNat := rfl
  rw [hres, hcarry]
  by_cases h : 0x99 < rawSum src dst (xflagAs1 m.cpu)
  · rw [if_pos h, if_pos h, if_pos h]
    exact ⟨rfl, rfl⟩
  · rw [if_neg h, if_neg h, if_neg h]
    exact ⟨rfl, rfl⟩

theorem rawSum_toNat (hs : src.toNat < 256) (hd : dst.toNat < 256) (hx : x.toNat ≤ 1) :
    (rawSum src dst x).toNat =
      src.toNat % 16 + dst.toNat % 16 + x.toNat +
        (if 9 < src.toNat % 16 + dst.toNat % 16 + x.toNat then 6 else 0) +
        16 * (src.toNat / 16 + dst.toNat / 16) := by
  have hlow : (lowNibble src + lowNibble dst + x).toNat = src.toNat % 16 + dst.toNat % 16 + x.toNat := by
    rw [BitVec.toNat_add, BitVec.toNat_add, lowNibble_toNat, lowNibble_toNat]
    omega
  have hhigh : (highNibble src + highNibble dst).toNat = 16 * (src.toNat / 16 + dst.toNat / 16) := by
    rw [BitVec.toNat_add, highNibble_toNat hs, highNibble_toNat hd]
    omega
  have h9 : (9 : Long).toNat = 9 := rfl
  rw [rawSum]
  simp only [BitVec.lt_def, h9, hlow]
  split_ifs with h
  · have h6 : (lowNibble src + lowNibble dst + x + 6).toNat =
        src.toNat % 16 + dst.toNat % 16 + x.toNat + 6 := by
      have hsix : (6 : Long).toNat = 6 := rfl
      rw [BitVec.toNat_add, hlow, hsix]
      omega
    rw [BitVec.toNat_add, h6, hhigh]
    omega
  · rw [BitVec.toNat_add, hlow, hhigh]
    omega

end Sum

theorem abcd_digitOp : DigitOp .byte abcd sum 100 decimal IsDecimal where
  memory _ _ _ := rfl
  flags _ _ _ := ⟨rfl, rfl, rfl, rfl, rfl, rfl, rfl, rfl, rfl⟩
  lt _ _ _ := maskOutAbove_lt .byte _
  zero _ _ _ := or_eq_zero _ _
  digit src dst m hs hd hsv hdv := by
    have hx : (xflagAs1 m.cpu).toNat = xBit m.cpu := xflagAs1_eq m.cpu
    have hx' := xBit_le m.cpu
    obtain ⟨hres, hcarry⟩ := abcd_raw src dst m
    have hraw := rawSum_toNat (x := xflagAs1 m.cpu) hs hd (by omega)
    obtain ⟨hs1, hs0⟩ := hsv
    obtain ⟨hd1, hd0⟩ := hdv
    have h99 : (0x99 : Long).toNat = 0x99 := rfl
    have ha0 : (0xa0 : Long).toNat = 0xa0 := rfl
    rw [hx] at hraw
    change IsDecimal (abcd src dst m).1.toNat ∧
      decimal (abcd src dst m).1.toNat + 100 * xBit (abcd src dst m).2.cpu =
        decimal src.toNat + decimal dst.toNat + xBit m.cpu
    rw [hcarry, hres, maskOutAbove_toNat, Width.value, IsDecimal, decimal, decimal, decimal]
    simp only [BitVec.lt_def, h99, Width.bits]
    split_ifs at hraw ⊢ with h1 h2 h2 <;> (try rw [BitVec.toNat_sub, ha0]) <;> omega

section Difference

variable {src dst x : Long}

/-- What the difference is before a borrow is put into it, as the core has it: below zero it is a
large number. -/
def rawDifference (src dst x : Long) : Long :=
  let res := lowNibble dst - lowNibble src - x
  (if 9 < res then res - 6 else res) + (highNibble dst - highNibble src)

theorem sbcd_raw (src dst : Long) (m : Machine) :
    (sbcd src dst m).1 = maskOutAbove .byte
        (if 0x99 < rawDifference src dst (xflagAs1 m.cpu)
          then rawDifference src dst (xflagAs1 m.cpu) + 0xa0
          else rawDifference src dst (xflagAs1 m.cpu)) ∧
      xBit (sbcd src dst m).2.cpu =
        if 0x99 < rawDifference src dst (xflagAs1 m.cpu) then 1 else 0 := by
  have hres : (sbcd src dst m).1 = maskOutAbove .byte
      (if (if 0x99 < rawDifference src dst (xflagAs1 m.cpu) then 0x100 else 0 : Long) ≠ 0
        then rawDifference src dst (xflagAs1 m.cpu) + 0xa0
        else rawDifference src dst (xflagAs1 m.cpu)) := rfl
  have hcarry : xBit (sbcd src dst m).2.cpu =
      ((if 0x99 < rawDifference src dst (xflagAs1 m.cpu) then 0x100 else 0 : Long).getLsbD 8).toNat :=
    rfl
  rw [hres, hcarry]
  by_cases h : 0x99 < rawDifference src dst (xflagAs1 m.cpu)
  · rw [if_pos h, if_pos h, if_pos h]
    exact ⟨rfl, rfl⟩
  · rw [if_neg h, if_neg h, if_neg h]
    exact ⟨rfl, rfl⟩

theorem rawDifference_toNat (hs : src.toNat < 256) (hd : dst.toNat < 256) (hx : x.toNat ≤ 1)
    (hdec : dst.toNat % 16 < 10) :
    (rawDifference src dst x).toNat =
      (2 ^ 32 + dst.toNat % 16 + 16 * (dst.toNat / 16) - src.toNat % 16 - x.toNat -
        (if dst.toNat % 16 < src.toNat % 16 + x.toNat then 6 else 0) - 16 * (src.toNat / 16)) % 2 ^ 32 := by
  have hlow : (lowNibble dst - lowNibble src - x).toNat =
      (2 ^ 32 + dst.toNat % 16 - src.toNat % 16 - x.toNat) % 2 ^ 32 := by
    rw [BitVec.toNat_sub, BitVec.toNat_sub, lowNibble_toNat, lowNibble_toNat]
    omega
  have hhigh : (highNibble dst - highNibble src).toNat =
      (2 ^ 32 + 16 * (dst.toNat / 16) - 16 * (src.toNat / 16)) % 2 ^ 32 := by
    rw [BitVec.toNat_sub, highNibble_toNat hs, highNibble_toNat hd]
    omega
  have h9 : (9 : Long).toNat = 9 := rfl
  have hsix : (6 : Long).toNat = 6 := rfl
  rw [rawDifference]
  simp only [BitVec.lt_def, h9, hlow]
  by_cases h : 9 < (2 ^ 32 + dst.toNat % 16 - src.toNat % 16 - x.toNat) % 2 ^ 32
  · rw [if_pos h, if_pos (by omega), BitVec.toNat_add, BitVec.toNat_sub, hlow, hhigh, hsix]
    omega
  · rw [if_neg h, if_neg (by omega), BitVec.toNat_add, hlow, hhigh]
    omega

end Difference

theorem sbcd_digitOp : DigitOp .byte sbcd difference 100 decimal IsDecimal where
  memory _ _ _ := rfl
  flags _ _ _ := ⟨rfl, rfl, rfl, rfl, rfl, rfl, rfl, rfl, rfl⟩
  lt _ _ _ := maskOutAbove_lt .byte _
  zero _ _ _ := or_eq_zero _ _
  digit src dst m hs hd hsv hdv := by
    have hx : (xflagAs1 m.cpu).toNat = xBit m.cpu := xflagAs1_eq m.cpu
    have hx' := xBit_le m.cpu
    obtain ⟨hres, hborrow⟩ := sbcd_raw src dst m
    obtain ⟨hs1, hs0⟩ := hsv
    obtain ⟨hd1, hd0⟩ := hdv
    have hraw := rawDifference_toNat (x := xflagAs1 m.cpu) hs hd (by omega) hd0
    have h99 : (0x99 : Long).toNat = 0x99 := rfl
    have ha0 : (0xa0 : Long).toNat = 0xa0 := rfl
    rw [hx] at hraw
    change IsDecimal (sbcd src dst m).1.toNat ∧
      decimal (sbcd src dst m).1.toNat + decimal src.toNat + xBit m.cpu =
        decimal dst.toNat + 100 * xBit (sbcd src dst m).2.cpu
    rw [hborrow, hres, maskOutAbove_toNat, Width.value, IsDecimal, decimal, decimal, decimal]
    simp only [BitVec.lt_def, h99, Width.bits]
    split_ifs at hraw ⊢ with h1 h2 h2 <;> (try rw [BitVec.toNat_add, ha0]) <;> omega

section Numbers

variable {o : Insn} {n : ℕ} {m : Machine}

def decimalNumber (m : Machine) (p : Long) (n : ℕ) : ℕ :=
  value 100 (fun k => decimal (limb .byte m p k)) n

def Decimals (m : Machine) (p : Long) (n : ℕ) : Prop := ∀ k < n, IsDecimal (limb .byte m p k)

theorem decimalNumber_lt {p : Long} (h : Decimals m p n) : decimalNumber m p n < 100 ^ n := by
  apply value_lt_pow
  intro k hk
  obtain ⟨hhigh, hlow⟩ := h k hk
  rw [decimal]
  omega

def abcdRun (o : Insn) (n : ℕ) (m : Machine) : Machine :=
  (fun m => (opAbcdMm o (pdMode .byte o.y) (pdMode .byte o.x) m).2)^[n] m

def sbcdRun (o : Insn) (n : ℕ) (m : Machine) : Machine :=
  (fun m => (opSbcdMm o (pdMode .byte o.y) (pdMode .byte o.x) m).2)^[n] m

theorem decimal_numbers (hxy : o.x ≠ o.y) (h7 : OffStack .byte o)
    (hn : Numbers .byte n m (address68k (m.cpu.a o.x)) (address68k (m.cpu.a o.y)))
    (hs : Decimals m (address68k (m.cpu.a o.y)) n) (hd : Decimals m (address68k (m.cpu.a o.x)) n) :
    let px := address68k (m.cpu.a o.x)
    let py := address68k (m.cpu.a o.y)
    (decimalNumber (abcdRun o n m) px n + 100 ^ n * xBit (abcdRun o n m).cpu =
        decimalNumber m py n + decimalNumber m px n + xBit m.cpu ∧
      Decimals (abcdRun o n m) px n ∧ After o .byte m n (abcdRun o n m)) ∧
    (decimalNumber (sbcdRun o n m) px n + decimalNumber m py n + xBit m.cpu =
        decimalNumber m px n + 100 ^ n * xBit (sbcdRun o n m).cpu ∧
      Decimals (sbcdRun o n m) px n ∧ After o .byte m n (sbcdRun o n m)) := by
  obtain ⟨hx, hy⟩ := pdMode_plain h7
  have hadd := mmRun_chain abcd_digitOp hn hxy hs hd
  have hsub := mmRun_chain sbcd_digitOp hn hxy hs hd
  rw [abcdRun, sbcdRun, hx, hy]
  exact ⟨⟨hadd.1, hadd.2, mmRun_after abcd_digitOp hn hxy le_rfl⟩,
    ⟨hsub.1, hsub.2, mmRun_after sbcd_digitOp hn hxy le_rfl⟩⟩

def sixDigits : Machine := twoNumbers [0x12, 0x99, 0x99] [0x99, 0x00, 0x01]

theorem decimal_numbers_six :
    (decimalNumber sixDigits 0x40 3 = 129999 ∧ decimalNumber sixDigits 0x80 3 = 990001 ∧
      xBit sixDigits.cpu = 1) ∧
    (decimalNumber (abcdRun ⟨0xc308, 0⟩ 3 sixDigits) 0x80 3 = 120001 ∧
      xBit (abcdRun ⟨0xc308, 0⟩ 3 sixDigits).cpu = 1) ∧
    decimalNumber (sbcdRun ⟨0x8308, 0⟩ 3 sixDigits) 0x80 3 = 860001 ∧
      xBit (sbcdRun ⟨0x8308, 0⟩ 3 sixDigits).cpu = 0 := by
  have hnumbers : Numbers .byte 3 sixDigits 0x80 0x40 := ram_numbers _ _ (by decide) (by decide) (by decide)
  have hdecimal : Decimals sixDigits 0x40 3 ∧ Decimals sixDigits 0x80 3 := by
    unfold Decimals
    decide
  have hy : decimalNumber sixDigits 0x40 3 = 129999 := by decide
  have hx : decimalNumber sixDigits 0x80 3 = 990001 := by decide
  have hX : xBit sixDigits.cpu = 1 := by decide
  have hadd : decimalNumber (abcdRun ⟨0xc308, 0⟩ 3 sixDigits) 0x80 3 +
      100 ^ 3 * xBit (abcdRun ⟨0xc308, 0⟩ 3 sixDigits).cpu =
        decimalNumber sixDigits 0x40 3 + decimalNumber sixDigits 0x80 3 + xBit sixDigits.cpu ∧
      Decimals (abcdRun ⟨0xc308, 0⟩ 3 sixDigits) 0x80 3 ∧ _ :=
    (decimal_numbers (o := ⟨0xc308, 0⟩) (by decide) (fun _ => by decide) hnumbers hdecimal.1 hdecimal.2).1
  have hsub : decimalNumber (sbcdRun ⟨0x8308, 0⟩ 3 sixDigits) 0x80 3 + decimalNumber sixDigits 0x40 3 +
      xBit sixDigits.cpu =
        decimalNumber sixDigits 0x80 3 + 100 ^ 3 * xBit (sbcdRun ⟨0x8308, 0⟩ 3 sixDigits).cpu ∧
      Decimals (sbcdRun ⟨0x8308, 0⟩ 3 sixDigits) 0x80 3 ∧ _ :=
    (decimal_numbers (o := ⟨0x8308, 0⟩) (by decide) (fun _ => by decide) hnumbers hdecimal.1 hdecimal.2).2
  have hsum := decimalNumber_lt hadd.2.1
  have hdiff := decimalNumber_lt hsub.2.1
  have hcarry := xBit_le (abcdRun ⟨0xc308, 0⟩ 3 sixDigits).cpu
  have hborrow := xBit_le (sbcdRun ⟨0x8308, 0⟩ 3 sixDigits).cpu
  refine ⟨⟨hy, hx, hX⟩, ?_⟩
  obtain ⟨hadd, -⟩ := hadd
  obtain ⟨hsub, -⟩ := hsub
  rw [hy, hx, hX] at hadd hsub
  omega

end Numbers

end Tosemu.M68k
