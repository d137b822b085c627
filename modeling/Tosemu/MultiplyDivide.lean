import Mathlib.Tactic.Linarith
import Tosemu.ProgramControl

namespace Tosemu.M68k

open Cpu

inductive Kind
  | unsigned
  | signed
deriving DecidableEq, Repr

namespace Kind

variable (k : Kind)

def value (w : Width) (a : Long) : ℤ :=
  match k with
  | .unsigned => w.value a
  | .signed => w.signed a

def Fits (q : ℤ) : Prop :=
  match k with
  | .unsigned => 0 ≤ q ∧ q < 2 ^ 16
  | .signed => -2 ^ 15 ≤ q ∧ q < 2 ^ 15

def multiply : Insn → Src → Emu Unit :=
  match k with
  | .unsigned => opMulu
  | .signed => opMuls

def divide : Insn → Src → Emu Unit :=
  match k with
  | .unsigned => opDivu
  | .signed => opDivs

end Kind

structure Shown (w : Width) (i : Fin 8) (m m' : Machine) : Prop where
  negative : condMi m'.cpu = w.sign (m'.cpu.d i)
  zero : condEq m'.cpu = decide (w.value (m'.cpu.d i) = 0)
  overflow : condVs m'.cpu = false
  carry : condCs m'.cpu = false
  frame : m' = { m with cpu := { m.cpu with
    d := Function.update m.cpu.d i (m'.cpu.d i)
    nFlag := m'.cpu.nFlag
    notZFlag := m'.cpu.notZFlag
    vFlag := m'.cpu.vFlag
    cFlag := m'.cpu.cFlag } }

section Words

theorem signed_word (a : Long) : Width.word.signed a = (a.setWidth 16).toInt := rfl

theorem value_word (a : Long) : Width.word.value a = (a.setWidth 16).toNat :=
  (BitVec.toNat_setWidth ..).symm

theorem signed_long (a : Long) : Width.long.signed a = a.toInt := by
  have h : a.setWidth 32 = a := BitVec.setWidth_eq a
  rw [Width.signed, Width.bits, h]

theorem value_long (a : Long) : Width.long.value a = a.toNat := Nat.mod_eq_of_lt a.isLt

theorem makeInt_toInt (w : Width) (a : Long) : (makeInt w a).toInt = w.signed a := by
  rw [makeInt, BitVec.toInt_signExtend_of_le (by cases w <;> decide), Width.signed]

theorem signed_word_bounds (a : Long) :
    -2 ^ 15 ≤ Width.word.signed a ∧ Width.word.signed a < 2 ^ 15 := by
  have hlow := BitVec.le_toInt (a.setWidth 16)
  have hhigh := BitVec.toInt_lt (x := a.setWidth 16)
  exact ⟨hlow, hhigh⟩

theorem setWidth_word_toInt {q : Long} (hlow : -2 ^ 15 ≤ q.toInt) (hhigh : q.toInt < 2 ^ 15) :
    (q.setWidth 16).toInt = q.toInt := by
  have h : (q.setWidth 16).toInt = q.toInt.bmod (2 ^ 16) := by
    rw [← BitVec.signExtend_eq_setWidth_of_le q (by decide : 16 ≤ 32),
      BitVec.toInt_signExtend_eq_toInt_bmod_of_le q (by decide : 16 ≤ 32)]
  rw [h]
  apply Int.bmod_eq_of_le <;> omega

theorem fits_iff (q : Long) : q = makeInt .word q ↔ Kind.signed.Fits q.toInt := by
  constructor
  · intro h
    have hb := signed_word_bounds q
    rw [← makeInt_toInt .word q, ← h] at hb
    exact hb
  · rintro ⟨hlow, hhigh⟩
    apply BitVec.eq_of_toInt_eq
    rw [makeInt_toInt, signed_word, setWidth_word_toInt hlow hhigh]

variable (q r : Long)

theorem packed_low : (maskOutAbove .word q ||| r <<< 16).setWidth 16 = q.setWidth 16 := by
  apply BitVec.eq_of_getLsbD_eq
  intro i hi
  have hr : (r <<< 16).getLsbD i = false := by
    rw [shl_bit _ (by omega), decide_eq_false (by omega : ¬ 16 ≤ i), Bool.false_and]
  rw [BitVec.getLsbD_setWidth, BitVec.getLsbD_or, maskOutAbove_bit, hr, Bool.or_false,
    BitVec.getLsbD_setWidth, Width.bits, decide_eq_true hi, Bool.true_and]

theorem packed_high : ((maskOutAbove .word q ||| r <<< 16) >>> 16).setWidth 16 = r.setWidth 16 := by
  apply BitVec.eq_of_getLsbD_eq
  intro i hi
  have hq : (maskOutAbove .word q).getLsbD (16 + i) = false := by
    rw [maskOutAbove_bit, Width.bits, decide_eq_false (by omega : ¬ 16 + i < 16), Bool.false_and]
  have hr : (r <<< 16).getLsbD (16 + i) = r.getLsbD i := by
    rw [shl_bit _ (by omega), decide_eq_true (by omega : 16 ≤ 16 + i), Bool.true_and,
      Nat.add_sub_cancel_left]
  rw [BitVec.getLsbD_setWidth, shr_bit, BitVec.getLsbD_or, hq, hr, Bool.false_or,
    BitVec.getLsbD_setWidth]

theorem packed_value {v : Long} (k : Kind) (h : v.setWidth 16 = q.setWidth 16) :
    k.value .word v = k.value .word q := by
  cases k with
  | unsigned => rw [Kind.value, Kind.value, value_word, h, ← value_word]
  | signed => rw [Kind.value, Kind.value, signed_word, h, ← signed_word]

end Words

section Results

variable {i : Fin 8} {m : Machine}

theorem shown_of_flags (w : Width) {v z n : Long} (hn : n.getLsbD 7 = w.sign v)
    (hz : z = 0 ↔ w.value v = 0) :
    Shown w i m { m with cpu := { m.cpu with
      d := Function.update m.cpu.d i v, nFlag := n, notZFlag := z, vFlag := 0, cFlag := 0 } } where
  negative := by
    rw [condMi, mask80, hn]
    simp
  zero := by
    have h : ∀ c : Core, condEq c = decide (c.notZFlag = 0) := by simp [condEq, condNe]
    rw [h, decide_eq_decide]
    simpa only [Function.update_self] using hz
  overflow := by simp [condVs]
  carry := by simp [condCs]
  frame := by simp

theorem shown_product (v : Long) : Shown .long i m { m with cpu := { m.cpu with
    d := Function.update m.cpu.d i v, nFlag := nflag .long v, notZFlag := v, vFlag := 0, cFlag := 0 } } := by
  apply shown_of_flags .long (nflag_bit .long v)
  rw [← zflag_eq_zero]
  rfl

theorem shown_quotient {q r n z : Long} (hn : n.getLsbD 7 = q.getLsbD 15) (hz : z = 0 ↔ q.setWidth 16 = 0#16) :
    Shown .word i m { m with cpu := { m.cpu with
      d := Function.update m.cpu.d i (maskOutAbove .word q ||| r <<< 16)
      nFlag := n, notZFlag := z, vFlag := 0, cFlag := 0 } } := by
  have hlow := packed_low q r
  apply shown_of_flags .word
  · have hbit := congrArg (fun a => a.getLsbD 15) hlow
    simp only [BitVec.getLsbD_setWidth] at hbit
    rw [hn, Width.sign, Width.bits]
    simpa using hbit.symm
  · rw [hz, value_word, hlow]
    exact ⟨fun h => by rw [h]; rfl, fun h => BitVec.eq_of_toNat_eq h⟩

end Results

section Products

variable (src dst : Long)

theorem unsigned_product (hs : src.toNat < 2 ^ 16) :
    Kind.unsigned.value .long (src * maskOutAbove .word dst) =
      Kind.unsigned.value .word src * Kind.unsigned.value .word dst := by
  have hd := value_lt .word dst
  have hlt : src.toNat * Width.word.value dst < 2 ^ 16 * 2 ^ 16 := Nat.mul_lt_mul'' hs hd
  have hsrc : Width.word.value src = src.toNat := Nat.mod_eq_of_lt hs
  rw [Kind.value, Kind.value, Kind.value, value_long, BitVec.toNat_mul, maskOutAbove_toNat,
    hsrc, Nat.mod_eq_of_lt (by omega), Nat.cast_mul]

theorem signed_product : Kind.signed.value .long (makeInt .word src * makeInt .word dst) =
    Kind.signed.value .word src * Kind.signed.value .word dst := by
  obtain ⟨hs, hs'⟩ := signed_word_bounds src
  obtain ⟨hd, hd'⟩ := signed_word_bounds dst
  rw [Kind.value, Kind.value, Kind.value, signed_long, BitVec.toInt_mul, makeInt_toInt, makeInt_toInt]
  apply Int.bmod_eq_of_le <;> norm_num <;> nlinarith

end Products

section Handlers

variable (o : Insn) (s : Src) (m : Machine)

def withProduct (i : Fin 8) (v : Long) (m : Machine) : Machine :=
  { m with cpu := { m.cpu with
    d := Function.update m.cpu.d i v
    nFlag := nflag .long v, notZFlag := v, vFlag := 0, cFlag := 0 } }

theorem multiply_apply (k : Kind) : ∃ v, (k.multiply o s m).2 = withProduct o.x v (operand .word o s m).2 ∧
    k.value .long v = k.value .word (operand .word o s m).1 *
      k.value .word ((operand .word o s m).2.cpu.d o.x) := by
  cases k with
  | unsigned => exact ⟨_, rfl, unsigned_product _ _ (operand_lt .word o s m)⟩
  | signed => exact ⟨_, rfl, signed_product _ _⟩

end Handlers

section Quotients

variable {src dst : Long}

def withQuotient (i : Fin 8) (q r n z : Long) (m : Machine) : Machine :=
  { m with cpu := { m.cpu with
    d := Function.update m.cpu.d i (maskOutAbove .word q ||| r <<< 16)
    nFlag := n, notZFlag := z, vFlag := 0, cFlag := 0 } }

theorem divu_apply (i : Fin 8) (src dst : Long) (m : Machine) : (divu i src dst m).2 =
    if src ≠ 0 then
      if dst / src < 0x10000 then
        withQuotient i (dst / src) (dst % src) (nflag .word (dst / src)) (dst / src) m
      else { m with cpu := { m.cpu with vFlag := 0x80 } }
    else (exceptionTrap EXCEPTION_ZERO_DIVIDE m).2 := by
  simp only [divu, ite_run]
  split_ifs <;> rfl

theorem divs_apply (i : Fin 8) (src dst : Long) (m : Machine) : (divs i src dst m).2 =
    if src ≠ 0 then
      if dst = 0x80000000 ∧ src = -1 then withQuotient i 0 0 0 0 m
      else if dst.sdiv src = makeInt .word (dst.sdiv src) then
        withQuotient i (dst.sdiv src) (dst.srem src) ((dst.sdiv src).sshiftRight 8) (dst.sdiv src) m
      else { m with cpu := { m.cpu with vFlag := 0x80 } }
    else (exceptionTrap EXCEPTION_ZERO_DIVIDE m).2 := by
  simp only [divs, ite_run]
  split_ifs <;> rfl

theorem unsigned_divide (hs : src.toNat < 2 ^ 16) (hne : src ≠ 0) (hq : dst / src < 0x10000) :
    Kind.unsigned.value .word (dst / src) =
        (Kind.unsigned.value .long dst).tdiv (Kind.unsigned.value .word src) ∧
      Kind.unsigned.value .word (dst % src) =
        (Kind.unsigned.value .long dst).tmod (Kind.unsigned.value .word src) := by
  have hpos : 0 < src.toNat := by
    rw [Nat.pos_iff_ne_zero]
    exact fun h => hne (BitVec.eq_of_toNat_eq h)
  have hsrc : Width.word.value src = src.toNat := Nat.mod_eq_of_lt hs
  have hlt : dst.toNat / src.toNat < 2 ^ 16 := by
    rw [← BitVec.toNat_udiv]
    exact hq
  have hmod : dst.toNat % src.toNat < 2 ^ 16 := (Nat.mod_lt _ hpos).trans hs
  simp only [Kind.value, value_long, hsrc]
  constructor
  · rw [Int.tdiv_eq_ediv_of_nonneg (Int.natCast_nonneg _), ← Int.natCast_ediv, Nat.cast_inj, Width.value,
      BitVec.toNat_udiv]
    exact Nat.mod_eq_of_lt hlt
  · rw [Int.tmod_eq_emod_of_nonneg (Int.natCast_nonneg _), ← Int.natCast_emod, Nat.cast_inj, Width.value,
      BitVec.toNat_umod]
    exact Nat.mod_eq_of_lt hmod

theorem unsigned_fits (hs : src.toNat < 2 ^ 16) : dst / src < 0x10000 ↔ Kind.unsigned.Fits
    ((Kind.unsigned.value .long dst).tdiv (Kind.unsigned.value .word src)) := by
  have hsrc : Width.word.value src = src.toNat := Nat.mod_eq_of_lt hs
  simp only [Kind.Fits, Kind.value, value_long, hsrc]
  rw [Int.tdiv_eq_ediv_of_nonneg (Int.natCast_nonneg _), ← Int.natCast_ediv, BitVec.lt_def,
    BitVec.toNat_udiv]
  norm_cast
  simp

theorem signed_divide (hne : ¬ (dst = 0x80000000 ∧ makeInt .word src = -1)) :
    (dst.sdiv (makeInt .word src)).toInt =
        (Kind.signed.value .long dst).tdiv (Kind.signed.value .word src) ∧
      (dst.srem (makeInt .word src)).toInt =
        (Kind.signed.value .long dst).tmod (Kind.signed.value .word src) := by
  have h : dst ≠ BitVec.intMin 32 ∨ makeInt .word src ≠ -1#32 := by
    rw [← not_and_or]
    exact hne
  rw [BitVec.toInt_sdiv_of_ne_or_ne _ _ h, BitVec.toInt_srem, makeInt_toInt, Kind.value, Kind.value,
    signed_long]
  exact ⟨rfl, rfl⟩

theorem signed_remainder (hs : makeInt .word src ≠ 0) :
    Kind.signed.value .word (dst.srem (makeInt .word src)) = (dst.srem (makeInt .word src)).toInt := by
  have hne : Width.word.signed src ≠ 0 := by
    rw [← makeInt_toInt]
    exact fun h => hs (BitVec.eq_of_toInt_eq h)
  obtain ⟨hlow, hhigh⟩ := signed_word_bounds src
  have hlt : (dst.toInt.tmod (Width.word.signed src)).natAbs < (Width.word.signed src).natAbs := by
    rw [Int.natAbs_tmod]
    exact Nat.mod_lt _ (Int.natAbs_pos.mpr hne)
  rw [Kind.value, signed_word]
  apply setWidth_word_toInt <;> rw [BitVec.toInt_srem, makeInt_toInt] <;> omega

theorem signed_quotient (hq : dst.sdiv (makeInt .word src) = makeInt .word (dst.sdiv (makeInt .word src))) :
    Kind.signed.value .word (dst.sdiv (makeInt .word src)) = (dst.sdiv (makeInt .word src)).toInt := by
  obtain ⟨hlow, hhigh⟩ := (fits_iff _).mp hq
  rw [Kind.value, signed_word]
  exact setWidth_word_toInt hlow hhigh

structure Divides (k : Kind) (i : Fin 8) (src : ℤ) (dst : Long) (m m' : Machine) : Prop where
  zero : src = 0 → m' = (exceptionTrap EXCEPTION_ZERO_DIVIDE m).2
  fits : src ≠ 0 → k.Fits ((k.value .long dst).tdiv src) → Shown .word i m m' ∧
    k.value .word (m'.cpu.d i) = (k.value .long dst).tdiv src ∧
    k.value .word (m'.cpu.d i >>> 16) = (k.value .long dst).tmod src
  overflow : src ≠ 0 → ¬ k.Fits ((k.value .long dst).tdiv src) → m' =
    if k = .signed ∧ dst = 0x80000000 ∧ src = -1 then withQuotient i 0 0 0 0 m
    else { m with cpu := { m.cpu with vFlag := 0x80 } }

variable (i : Fin 8) (m : Machine)

theorem divu_divides (hs : src.toNat < 2 ^ 16) :
    Divides .unsigned i (Kind.unsigned.value .word src) dst m (divu i src dst m).2 := by
  have hsrc : Width.word.value src = src.toNat := Nat.mod_eq_of_lt hs
  have hz : Kind.unsigned.value .word src = 0 ↔ src = 0 := by
    rw [Kind.value, hsrc, Nat.cast_eq_zero]
    exact ⟨fun h => BitVec.eq_of_toNat_eq h, fun h => by rw [h]; rfl⟩
  rw [divu_apply]
  refine ⟨fun h => ?_, fun h hf => ?_, fun h hf => ?_⟩
  · rw [if_neg (not_not.mpr (hz.mp h))]
  · have hne : src ≠ 0 := fun h0 => h (hz.mpr h0)
    have hq := (unsigned_fits hs).mpr hf
    obtain ⟨hquot, hrem⟩ := unsigned_divide hs hne hq
    rw [if_pos hne, if_pos hq]
    refine ⟨shown_quotient ?_ ?_, ?_, ?_⟩
    · rw [nflag_bit]
      rfl
    · constructor
      · intro h0
        rw [h0]
        rfl
      · intro h0
        have hlt : (dst / src).toNat < 2 ^ 16 := hq
        have hlow := congrArg BitVec.toNat h0
        rw [BitVec.toNat_setWidth, Nat.mod_eq_of_lt hlt] at hlow
        exact BitVec.eq_of_toNat_eq hlow
    · simp only [withQuotient, Function.update_self]
      rw [packed_value _ .unsigned (packed_low _ _), hquot]
    · simp only [withQuotient, Function.update_self]
      rw [packed_value _ .unsigned (packed_high _ _), hrem]
  · have hne : src ≠ 0 := fun h0 => h (hz.mpr h0)
    rw [if_pos hne, if_neg (fun hq => hf ((unsigned_fits hs).mp hq)), if_neg (fun hk => by cases hk.1)]

theorem divs_divides :
    Divides .signed i (Kind.signed.value .word src) dst m (divs i (makeInt .word src) dst m).2 := by
  have hz : Kind.signed.value .word src = 0 ↔ makeInt .word src = 0 := by
    rw [Kind.value, ← makeInt_toInt]
    exact ⟨fun h => BitVec.eq_of_toInt_eq h, fun h => by rw [h]; rfl⟩
  have hone : Kind.signed.value .word src = -1 ↔ makeInt .word src = -1 := by
    rw [Kind.value, ← makeInt_toInt]
    exact ⟨fun h => BitVec.eq_of_toInt_eq h, fun h => by rw [h]; rfl⟩
  rw [divs_apply]
  refine ⟨fun h => ?_, fun h hf => ?_, fun h hf => ?_⟩
  · rw [if_neg (not_not.mpr (hz.mp h))]
  · have hne : makeInt .word src ≠ 0 := fun h0 => h (hz.mpr h0)
    have hmin : ¬ (dst = 0x80000000 ∧ makeInt .word src = -1) := by
      rintro ⟨rfl, h1⟩
      rw [hone.mpr h1] at hf
      revert hf
      simp [Kind.Fits, Kind.value, signed_long]
    obtain ⟨hquot, hrem⟩ := signed_divide hmin
    have hq := (fits_iff (dst.sdiv (makeInt .word src))).mpr (hquot ▸ hf)
    rw [if_pos hne, if_neg hmin, if_pos hq]
    refine ⟨shown_quotient ?_ ?_, ?_, ?_⟩
    · rw [BitVec.getLsbD_sshiftRight]
      simp
    · constructor
      · intro h0
        rw [h0]
        rfl
      · intro h0
        rw [hq, makeInt]
        exact (congrArg (BitVec.signExtend 32) h0).trans rfl
    · simp only [withQuotient, Function.update_self]
      rw [packed_value _ .signed (packed_low _ _), signed_quotient hq, hquot]
    · simp only [withQuotient, Function.update_self]
      rw [packed_value _ .signed (packed_high _ _), signed_remainder hne, hrem]
  · have hne : makeInt .word src ≠ 0 := fun h0 => h (hz.mpr h0)
    rw [if_pos hne]
    by_cases hmin : dst = 0x80000000 ∧ makeInt .word src = -1
    · rw [if_pos hmin, if_pos ⟨rfl, hmin.1, hone.mpr hmin.2⟩]
    · obtain ⟨hquot, -⟩ := signed_divide hmin
      have hq : ¬ dst.sdiv (makeInt .word src) = makeInt .word (dst.sdiv (makeInt .word src)) := by
        rw [fits_iff, hquot]
        exact hf
      rw [if_neg hmin, if_neg hq, if_neg (fun hk => hmin ⟨hk.2.1, hone.mp hk.2.2⟩)]

end Quotients

theorem products_and_quotients (k : Kind) (o : Insn) (s : Src) (m : Machine) :
    let r := operand .word o s m
    let dst := r.2.cpu.d o.x
    let p := (k.multiply o s m).2
    (Shown .long o.x r.2 p ∧ k.value .long (p.cpu.d o.x) = k.value .word r.1 * k.value .word dst) ∧
      Divides k o.x (k.value .word r.1) dst r.2 (k.divide o s m).2 := by
  intro r dst p
  obtain ⟨v, hp, hv⟩ := multiply_apply o s m k
  refine ⟨?_, ?_⟩
  · have hreg : p.cpu.d o.x = v := by
      simp only [p, hp, withProduct, Function.update_self]
    rw [hreg]
    simp only [p, hp]
    exact ⟨shown_product v, hv⟩
  · cases k with
    | unsigned => exact divu_divides _ _ (operand_lt .word o s m)
    | signed => exact divs_divides _ _

end Tosemu.M68k
