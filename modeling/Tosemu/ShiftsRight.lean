import Tosemu.BitSerial
import Tosemu.Shifts

namespace Tosemu.M68k

open Cpu BitSerial

namespace ShiftOp

variable (k : ShiftOp) {n : ℕ}

def serial (s : Reg n) : Reg n :=
  match k with
  | asr => right (fun s => s.a.getMsbD 0) true s
  | lsr => right (fun _ => false) true s
  | ror => right (fun s => s.a.getLsbD 0) false s
  | roxr => right Reg.x true s
  | asl => left (fun _ => false) true s
  | lsl => left (fun _ => false) true s
  | rol => left (fun s => s.a.getMsbD 0) false s
  | roxl => left Reg.x true s

def isLeft : Bool :=
  match k with
  | asl | lsl | rol | roxl => true
  | asr | lsr | ror | roxr => false

def start (w : Width) (src : Long) (c : Core) : Reg w.bits where
  a := src.setWidth w.bits
  x := c.xFlag.getLsbD 8
  c := match k with
    | roxr | roxl => c.xFlag.getLsbD 8
    | _ => false
  v := false

variable (w : Width) (src : Long) (x : Bool)

def tape (i : ℕ) : Bool :=
  match k with
  | asr => src.getLsbD (min i (w.bits - 1))
  | lsr => src.getLsbD i
  | ror => src.getLsbD (i % w.bits)
  | roxr => if i % (w.bits + 1) < w.bits then src.getLsbD (i % (w.bits + 1)) else x
  | asl | lsl => decide (i < w.bits) && src.getLsbD (w.bits - 1 - i)
  | rol => src.getLsbD (w.bits - 1 - i % w.bits)
  | roxl => if i % (w.bits + 1) < w.bits then src.getLsbD (w.bits - 1 - i % (w.bits + 1)) else x

def linked (i : ℕ) : Bool :=
  match k with
  | ror | rol => x
  | roxr | roxl => k.tape w src x (w.bits + i)
  | _ => if i = 0 then x else k.tape w src x (i - 1)

end ShiftOp

structure Shows (k : ShiftOp) (w : Width) (src : Long) (c : Core) (n : ℕ) (r : Shifted) : Prop where
  res : ∀ i < 32, r.res.getLsbD i = (decide (i < w.bits) &&
    k.tape w src (c.xFlag.getLsbD 8) ((if k.isLeft then w.bits - 1 - i else i) + n))
  carry : r.c.getLsbD 8 =
    if n = 0 then (k.start w src c).c else k.tape w src (c.xFlag.getLsbD 8) (n - 1)
  extend : (r.x.getD c.xFlag).getLsbD 8 = k.linked w src (c.xFlag.getLsbD 8) n
  negative : r.n.getLsbD 7 = w.sign r.res
  zero : r.z = 0 ↔ r.res = 0

section Bits

variable {w : Width} {src : Long}

theorem bit_above (hs : src.toNat < 2 ^ w.bits) {i : ℕ} (hi : w.bits ≤ i) : src.getLsbD i = false := by
  rw [← BitVec.testBit_toNat]
  exact Nat.testBit_lt_two_pow (hs.trans_le (Nat.pow_le_pow_right (by decide) hi))

theorem xflagAs1_bit (c : Core) (i : ℕ) :
    (xflagAs1 c).getLsbD i = (decide (i = 0) && c.xFlag.getLsbD 8) := by
  rw [xflagAs1, BitVec.getLsbD_and, shr_bit]
  cases i with
  | zero => simp
  | succ i => simp

theorem one_shl_bit {m i : ℕ} (hm : m < 32) : ((1 : Long) <<< m).getLsbD i = decide (i = m) := by
  have h : (1 : Long) <<< m = BitVec.twoPow 32 m := (BitVec.twoPow_eq 32 m).symm
  rw [h, BitVec.getLsbD_twoPow, decide_eq_true hm, Bool.true_and]
  exact decide_eq_decide.mpr eq_comm

theorem test_bit (a : Long) {m : ℕ} (hm : m < 32) :
    (if a &&& (1 : Long) <<< m ≠ 0 then 0x100 else 0 : Long).getLsbD 8 = a.getLsbD m := by
  have h : (1 : Long) <<< m = BitVec.twoPow 32 m := (BitVec.twoPow_eq 32 m).symm
  have hpow : BitVec.twoPow 32 m ≠ 0 := by
    intro h0
    have := congrArg (fun b : Long => b.getLsbD m) h0
    simp [hm] at this
  rw [h, BitVec.and_twoPow]
  cases a.getLsbD m
  · rw [if_neg Bool.false_ne_true]
    simp
  · rw [if_pos rfl, if_pos hpow]
    rfl

theorem shiftTable_eq : ∀ n ≤ w.bits + 1,
    shiftTable w n = maskOutAbove w (~~~(allOnes w >>> n)) := by
  cases w <;> decide

theorem bits_le : w.bits ≤ 32 := by cases w <;> decide

theorem bits_pos : 8 ≤ w.bits := by cases w <;> decide

theorem allOnes_bit (j : ℕ) : (allOnes w).getLsbD j = decide (j < w.bits) := by
  have hbits : w.bits ≤ 32 := bits_le
  have hall : (0xffffffff : Long) = BitVec.allOnes 32 := rfl
  rw [allOnes, maskOutAbove_bit, hall, BitVec.getLsbD_allOnes]
  by_cases hj : j < w.bits
  · simp [hj, hj.trans_le hbits]
  · simp [hj]

theorem shiftTable_bit {m i : ℕ} (hm : m ≤ w.bits + 1) :
    (shiftTable w m).getLsbD i = (decide (i < w.bits) && decide (w.bits ≤ m + i)) := by
  have hbits : w.bits ≤ 32 := by cases w <;> decide
  rw [shiftTable_eq m hm, maskOutAbove_bit, BitVec.getLsbD_not, shr_bit, allOnes_bit]
  by_cases hi : i < w.bits
  · have hi32 : i < 32 := by omega
    rw [decide_eq_true hi, decide_eq_true hi32, Bool.true_and, Bool.true_and, Bool.true_and, ← decide_not,
      decide_eq_decide.mpr not_lt]
  · simp [hi]

end Bits

theorem add_mod_cases {a n m : ℕ} (ha : a < m) :
    (a + n) % m = if a + n % m < m then a + n % m else a + n % m - m := by
  have hn := Nat.mod_lt n (by omega : 0 < m)
  rw [Nat.add_mod, Nat.mod_eq_of_lt ha]
  split_ifs with h
  · exact Nat.mod_eq_of_lt h
  · rw [Nat.mod_eq_sub_mod (by omega), Nat.mod_eq_of_lt (by omega)]

theorem pred_mod {n m : ℕ} (hm : 0 < m) (hn : 0 < n) :
    (n - 1) % m = if n % m = 0 then m - 1 else n % m - 1 := by
  have hlt := Nat.mod_lt n hm
  have h := add_mod_cases (n := n) (by omega : m - 1 < m)
  rw [show m - 1 + n = n - 1 + m by omega, Nat.add_mod_right] at h
  rw [h]
  split_ifs <;> omega

section Carries

variable {src : Long} {n : ℕ}

theorem carry_shl (hn : 0 < n) (hn9 : n ≤ 9) : (src <<< (9 - n)).getLsbD 8 = src.getLsbD (n - 1) := by
  rw [shl_bit _ (by decide), decide_eq_true (by omega), Bool.true_and]
  congr 1
  omega

theorem carry_shr : ((src >>> (n - 1)) <<< 8).getLsbD 8 = src.getLsbD (n - 1) := by
  rw [shl_bit _ (by decide), shr_bit]
  simp

end Carries

section Shows

variable {k : ShiftOp} {w : Width} {src : Long} {c : Core} {n : ℕ} {res carry neg z v : Long}

theorem linked_eq (hk : k ≠ .ror ∧ k ≠ .rol) (hn : 0 < n) (x : Bool) :
    k.linked w src x n = k.tape w src x (n - 1) := by
  have hmod : (w.bits + n) % (w.bits + 1) = (n - 1) % (w.bits + 1) := by
    rw [show w.bits + n = n - 1 + (w.bits + 1) by omega, Nat.add_mod_right]
  cases k <;> simp_all [ShiftOp.linked, ShiftOp.tape] <;> omega

theorem Shows.masked {r : Shifted} (h : Shows k w src c n r) : maskOutAbove w r.res = r.res := by
  apply BitVec.eq_of_getLsbD_eq
  intro i hi
  rw [maskOutAbove_bit, h.res i hi]
  cases decide (i < w.bits) <;> rfl

theorem shows_linked (hk : k ≠ .ror ∧ k ≠ .rol) (hn : 0 < n)
    (hlow : ∀ i < w.bits, res.getLsbD i =
      k.tape w src (c.xFlag.getLsbD 8) ((if k.isLeft then w.bits - 1 - i else i) + n))
    (hhigh : ∀ i, w.bits ≤ i → res.getLsbD i = false)
    (hcarry : carry.getLsbD 8 = k.tape w src (c.xFlag.getLsbD 8) (n - 1))
    (hneg : neg.getLsbD 7 = w.sign res) (hz : z = 0 ↔ res = 0) :
    Shows k w src c n ⟨res, carry, some carry, neg, z, v⟩ := by
  refine ⟨fun i _ => ?_, ?_, ?_, hneg, hz⟩
  · by_cases hi : i < w.bits
    · rw [decide_eq_true hi, Bool.true_and]
      exact hlow i hi
    · rw [decide_eq_false hi, Bool.false_and]
      exact hhigh i (by omega)
  · rw [if_neg hn.ne']
    exact hcarry
  · rw [linked_eq hk hn]
    exact hcarry

theorem shows_rotated (hk : k = .ror ∨ k = .rol) (hn : 0 < n)
    (hlow : ∀ i < w.bits, res.getLsbD i =
      k.tape w src (c.xFlag.getLsbD 8) ((if k.isLeft then w.bits - 1 - i else i) + n))
    (hhigh : ∀ i, w.bits ≤ i → res.getLsbD i = false)
    (hcarry : carry.getLsbD 8 = k.tape w src (c.xFlag.getLsbD 8) (n - 1)) :
    Shows k w src c n (rotated w res carry) := by
  refine ⟨fun i _ => ?_, ?_, ?_, nflag_bit w res, Iff.rfl⟩
  · by_cases hi : i < w.bits
    · rw [decide_eq_true hi, Bool.true_and]
      exact hlow i hi
    · rw [decide_eq_false hi, Bool.false_and]
      exact hhigh i (by omega)
  · rw [if_neg hn.ne']
    exact hcarry
  · rcases hk with rfl | rfl <;> rfl

variable (hs : src.toNat < 2 ^ w.bits)

include hs

theorem unshifted_shows (hk : k ≠ .roxr ∧ k ≠ .roxl) : Shows k w src c 0 (unshifted w src) := by
  have hab := fun i hi => bit_above hs (i := i) hi
  have hmod : ∀ i < w.bits, (w.bits - 1 - i) % w.bits = w.bits - 1 - i := fun i hi =>
    Nat.mod_eq_of_lt (by omega)
  refine ⟨fun i _ => ?_, ?_, ?_, nflag_bit w src, Iff.rfl⟩
  · by_cases hi : i < w.bits
    · have hpos : 0 < w.bits := by omega
      have hsub : w.bits - 1 - (w.bits - 1 - i) = i := by omega
      have hlt : w.bits - 1 - i < w.bits := by omega
      have hmin : min i (w.bits - 1) = i := by omega
      cases k <;> simp_all [unshifted, ShiftOp.tape, ShiftOp.isLeft, Nat.mod_eq_of_lt]
    · rw [decide_eq_false hi, Bool.false_and]
      exact hab i (by omega)
  · cases k <;> simp_all [unshifted, ShiftOp.start]
  · cases k <;> simp_all [unshifted, ShiftOp.linked]

theorem unextended_shows (hk : k = .roxr ∨ k = .roxl) (hn : n % (w.bits + 1) = 0) :
    Shows k w src c n (unextended w src c.xFlag) := by
  have hab := fun i hi => bit_above hs (i := i) hi
  have hround : ∀ i < w.bits + 1, (i + n) % (w.bits + 1) = i := by
    intro i hi
    rw [add_mod_cases hi, hn, Nat.add_zero, if_pos hi]
  refine ⟨fun i _ => ?_, ?_, ?_, nflag_bit w src, Iff.rfl⟩
  · by_cases hi : i < w.bits
    · have hleft : w.bits - 1 - i < w.bits := by omega
      have hsub : w.bits - 1 - (w.bits - 1 - i) = i := by omega
      rcases hk with rfl | rfl
      · simp [unextended, ShiftOp.tape, ShiftOp.isLeft, hround i (by omega), hi]
      · simp [unextended, ShiftOp.tape, ShiftOp.isLeft, hround _ (Nat.lt_succ_of_lt hleft), hi, hsub, hleft]
    · rw [decide_eq_false hi, Bool.false_and]
      exact hab i (by omega)
  · split_ifs with h0
    · rcases hk with rfl | rfl <;> rfl
    · have hlast : (n - 1) % (w.bits + 1) = w.bits := by
        rw [pred_mod (Nat.succ_pos _) (by omega), if_pos hn]
        rfl
      rcases hk with rfl | rfl <;> simp [unextended, ShiftOp.tape, hlast]
  · have hx := hround w.bits (Nat.lt_succ_self _)
    rcases hk with rfl | rfl <;> simp [unextended, ShiftOp.linked, ShiftOp.tape, hx]

end Shows

section Right

variable {w : Width} {src : Long} {c : Core} {n : ℕ} {carry : Long} (hs : src.toNat < 2 ^ w.bits)

include hs

theorem lsr_shows (hn : 0 < n) (hc : carry.getLsbD 8 = src.getLsbD (n - 1)) :
    Shows .lsr w src c n ⟨src >>> n, carry, some carry, 0, src >>> n, 0⟩ := by
  have hab := fun i hi => bit_above hs (i := i) hi
  apply shows_linked (by decide) hn ?_ ?_ hc ?_ Iff.rfl
  · intro i _
    rw [shr_bit, Nat.add_comm]
    rfl
  · intro i hi
    rw [shr_bit, hab _ (by omega)]
  · rw [Width.sign, shr_bit, hab _ (by omega)]
    rfl

theorem lsr_shows_zero (hn : w.bits ≤ n) (hc : carry.getLsbD 8 = src.getLsbD (n - 1)) :
    Shows .lsr w src c n ⟨0, carry, some carry, 0, 0, 0⟩ := by
  have hpos : 0 < w.bits := by cases w <;> decide
  have hz : src >>> n = 0 := by
    apply BitVec.eq_of_toNat_eq
    rw [BitVec.toNat_ushiftRight, Nat.shiftRight_eq_div_pow]
    exact Nat.div_eq_of_lt (hs.trans_le (Nat.pow_le_pow_right (by decide) hn))
  have h := lsr_shows (c := c) hs (by omega : 0 < n) hc
  rwa [hz] at h

theorem lsrS_shows (hn : 0 < n) (hn8 : n ≤ 8) : Shows .lsr w src c n (lsrS n src) :=
  lsr_shows hs hn (carry_shl hn (by omega))

theorem lsrR_shows : Shows .lsr w src c n (lsrR w n src) := by
  have hab := fun i hi => bit_above hs (i := i) hi
  by_cases hn : n = 0
  · subst hn
    exact unshifted_shows hs (by decide)
  · have hpos : 0 < n := by omega
    have hnone : ∀ carry : Long, w.bits < n → carry.getLsbD 8 = false →
        Shows .lsr w src c n ⟨0, carry, some carry, 0, 0, 0⟩ := fun carry hlt hc =>
      lsr_shows_zero hs hlt.le (hc.trans (hab _ (by omega)).symm)
    cases w with
    | byte =>
      simp only [lsrR, if_pos hn]
      split_ifs with h8
      · exact lsr_shows hs hpos (carry_shl hpos (by omega))
      · exact hnone 0 (Nat.lt_of_not_le h8) rfl
    | word =>
      simp only [lsrR, if_pos hn]
      split_ifs with h16
      · exact lsr_shows hs hpos carry_shr
      · exact hnone 0 (Nat.lt_of_not_le h16) rfl
    | long =>
      simp only [lsrR, if_pos hn]
      split_ifs with h32 heq
      · exact lsr_shows hs hpos carry_shr
      · subst heq
        apply lsr_shows_zero hs le_rfl
        simp [Width.bits]
      · exact hnone 0 (by simp [Width.bits]; omega) rfl

theorem asr_shows (hn : 0 < n) (hnw : n ≤ w.bits) (hc : carry.getLsbD 8 = src.getLsbD (n - 1)) :
    Shows .asr w src c n
      ⟨asrRes w n src, carry, some carry, nflag w (asrRes w n src), asrRes w n src, 0⟩ := by
  have hab := fun i hi => bit_above hs (i := i) hi
  have hbit : ∀ i, (asrRes w n src).getLsbD i =
      (src.getLsbD (n + i) || (w.sign src && decide (i < w.bits) && decide (w.bits ≤ n + i))) := by
    intro i
    rw [asrRes]
    split_ifs with hsign
    · rw [BitVec.getLsbD_or, shr_bit, shiftTable_bit (by omega), hsign, Bool.true_and]
    · rw [shr_bit, Bool.eq_false_of_not_eq_true hsign]
      simp
  apply shows_linked (by decide) hn ?_ ?_ ?_ (nflag_bit w _) Iff.rfl
  · intro i hi
    rw [hbit, ShiftOp.tape, ShiftOp.isLeft, if_neg (by decide), decide_eq_true hi, Bool.and_true]
    by_cases hin : w.bits ≤ n + i
    · rw [hab _ hin, decide_eq_true hin, Bool.false_or, Bool.and_true, Width.sign,
        Nat.min_eq_right (by omega)]
    · rw [decide_eq_false hin, Bool.and_false, Bool.or_false, Nat.min_eq_left (by omega), Nat.add_comm]
  · intro i hi
    rw [hbit, hab _ (by omega), decide_eq_false (by omega : ¬ i < w.bits)]
    simp
  · rw [hc, ShiftOp.tape, Nat.min_eq_left (by omega)]

theorem asrS_shows (hn : 0 < n) (hn8 : n ≤ 8) : Shows .asr w src c n (asrS w n src) := by
  have hnw : n ≤ w.bits := hn8.trans (by cases w <;> decide)
  exact asr_shows hs hn hnw (carry_shl hn (by omega))

omit hs in
theorem asr_shows_sign {res neg z : Long} (hnw : w.bits ≤ n)
    (hres : ∀ i, res.getLsbD i = (decide (i < w.bits) && w.sign src)) (hc : carry.getLsbD 8 = w.sign src)
    (hneg : neg.getLsbD 7 = w.sign src) (hz : z = 0 ↔ res = 0) :
    Shows .asr w src c n ⟨res, carry, some carry, neg, z, 0⟩ := by
  have hpos : 8 ≤ w.bits := bits_pos
  apply shows_linked (by decide) (by omega) ?_ ?_ ?_ ?_ hz
  · intro i hi
    rw [hres, decide_eq_true hi, Bool.true_and, ShiftOp.tape, ShiftOp.isLeft, if_neg (by decide),
      Nat.min_eq_right (by omega), Width.sign]
  · intro i hi
    rw [hres, decide_eq_false (by omega), Bool.false_and]
  · rw [hc, ShiftOp.tape, Nat.min_eq_right (by omega), Width.sign]
  · rw [hneg, Width.sign, Width.sign, hres, decide_eq_true (by omega), Bool.true_and, Width.sign]

theorem asrR_shows : Shows .asr w src c n (asrR w n src) := by
  unfold asrR
  split_ifs with hn hnw hsign
  · have hpos : 0 < n := by omega
    cases w with
    | byte => exact asr_shows hs hpos hnw.le (carry_shl hpos (by simp only [Width.bits] at hnw; omega))
    | word => exact asr_shows hs hpos hnw.le carry_shr
    | long => exact asr_shows hs hpos hnw.le carry_shr
  · have hle : w.bits ≤ n := by omega
    apply asr_shows_sign hle
    · intro i
      rw [allOnes_bit, hsign, Bool.and_true]
    · rw [hsign]
      decide
    · rw [hsign]
      decide
    · cases w <;> decide
  · have hle : w.bits ≤ n := by omega
    have hclear : w.sign src = false := Bool.eq_false_of_not_eq_true hsign
    apply asr_shows_sign hle
    · intro i
      rw [hclear, Bool.and_false]
      exact BitVec.getLsbD_zero
    · rw [hclear]
      decide
    · rw [hclear]
      decide
    · exact Iff.rfl
  · obtain rfl : n = 0 := by omega
    exact unshifted_shows hs (by decide)

theorem rorMacro_bit {i j : ℕ} (hj : j < w.bits) (hi : i < w.bits) :
    (rorMacro w j src).getLsbD i = src.getLsbD ((i + j) % w.bits) := by
  have hab := fun i hi => bit_above hs (i := i) hi
  have hbits : w.bits ≤ 32 := bits_le
  rw [rorMacro, maskOutAbove_bit, BitVec.getLsbD_or, shr_bit, shl_bit _ (by omega), decide_eq_true hi,
    Bool.true_and, add_mod_cases hi, Nat.mod_eq_of_lt hj]
  split_ifs with h
  · rw [decide_eq_false (by omega), Bool.false_and, Bool.or_false, Nat.add_comm]
  · rw [hab _ (by omega), Bool.false_or, decide_eq_true (by omega), Bool.true_and]
    congr 1
    omega

theorem ror_shows {j : ℕ} (hn : 0 < n) (hj : j = n % w.bits)
    (hc : carry.getLsbD 8 = src.getLsbD ((n - 1) % w.bits)) :
    Shows .ror w src c n (rotated w (rorMacro w j src) carry) := by
  have hpos : 8 ≤ w.bits := bits_pos
  apply shows_rotated (Or.inl rfl) hn ?_ ?_ hc
  · intro i hi
    rw [rorMacro_bit hs (hj ▸ Nat.mod_lt n (by omega)) hi, hj, Nat.add_mod_mod]
    rfl
  · intro i hi
    rw [rorMacro, maskOutAbove_bit, decide_eq_false (by omega), Bool.false_and]

theorem rorS_shows (hn : 0 < n) (hn8 : n ≤ 8) : Shows .ror w src c n (rorS w n src) := by
  have hpos : 8 ≤ w.bits := bits_pos
  have hc : (src <<< (9 - n)).getLsbD 8 = src.getLsbD ((n - 1) % w.bits) := by
    rw [carry_shl hn (by omega), Nat.mod_eq_of_lt (by omega)]
  cases w with
  | byte => exact ror_shows hs hn rfl hc
  | word => exact ror_shows hs hn (Nat.mod_eq_of_lt (by simp only [Width.bits]; omega)).symm hc
  | long => exact ror_shows hs hn (Nat.mod_eq_of_lt (by simp only [Width.bits]; omega)).symm hc

theorem rorR_shows : Shows .ror w src c n (rorR w n src) := by
  by_cases hn : n = 0
  · subst hn
    exact unshifted_shows hs (by decide)
  · have hpos : 0 < n := by omega
    cases w with
    | byte =>
      simp only [rorR, if_pos hn]
      apply ror_shows hs hpos rfl
      rw [shl_bit _ (by decide), decide_eq_true (by omega), Bool.true_and]
      congr 1
      simp only [Width.bits]
      omega
    | word =>
      simp only [rorR, if_pos hn]
      apply ror_shows hs hpos rfl
      rw [shl_bit _ (by decide), shr_bit]
      simp only [le_refl, decide_true, Bool.true_and]
      congr 1
      simp only [Width.bits]
      omega
    | long =>
      simp only [rorR, if_pos hn]
      apply ror_shows hs hpos rfl
      rw [shl_bit _ (by decide), shr_bit]
      simp only [le_refl, decide_true, Bool.true_and]
      congr 1
      simp only [Width.bits]
      omega

theorem withX_bit (hw : w.bits < 32) (i : ℕ) :
    (src ||| xflagAs1 c <<< w.bits).getLsbD i =
      if i = w.bits then c.xFlag.getLsbD 8 else src.getLsbD i := by
  have hab := fun i hi => bit_above hs (i := i) hi
  by_cases hi : i < 32
  · rw [BitVec.getLsbD_or, shl_bit _ hi, xflagAs1_bit]
    split_ifs with h
    · rw [hab i h.ge, decide_eq_true h.ge, decide_eq_true (by omega), Bool.false_or, Bool.true_and,
        Bool.true_and]
    · have hno : (decide (w.bits ≤ i) && (decide (i - w.bits = 0) && c.xFlag.getLsbD 8)) = false := by
        simp
        omega
      rw [hno, Bool.or_false]
  · rw [if_neg (by omega), BitVec.getLsbD_of_ge _ _ (by omega), BitVec.getLsbD_of_ge _ _ (by omega)]

theorem roxrMacro_bit (hw : w.bits < 32) {i j : ℕ} (hj : j ≤ w.bits) (hi : i ≤ w.bits) :
    (roxrMacro j (src ||| xflagAs1 c <<< w.bits) w.bits).getLsbD i =
      ShiftOp.tape .roxr w src (c.xFlag.getLsbD 8) (i + j) := by
  have hx := withX_bit (c := c) hs hw
  have hab := fun i hi => bit_above hs (i := i) hi
  rw [roxrMacro, BitVec.getLsbD_or, shr_bit, shl_bit _ (by omega), ShiftOp.tape,
    add_mod_cases (by omega : i < w.bits + 1), Nat.mod_eq_of_lt (by omega : j < w.bits + 1), hx]
  by_cases hsum : i + j < w.bits + 1
  · rw [if_pos hsum, decide_eq_false (by omega), Bool.false_and, Bool.or_false, Nat.add_comm]
    split_ifs <;> first | rfl | omega
  · rw [if_neg hsum, if_neg (by omega), hab (j + i) (by omega), Bool.false_or,
      decide_eq_true (by omega), Bool.true_and, if_pos (by omega), hx, if_neg (by omega)]
    congr 1
    omega

theorem roxr_shows_narrow (hw : w.bits < 32) {j : ℕ} (hn : 0 < n) (hj : j = n % (w.bits + 1)) :
    Shows .roxr w src c n (extended w (roxrMacro j (src ||| xflagAs1 c <<< w.bits) w.bits)) := by
  have hmod : ∀ i, ShiftOp.tape .roxr w src (c.xFlag.getLsbD 8) (i + j) =
      ShiftOp.tape .roxr w src (c.xFlag.getLsbD 8) (i + n) := by
    intro i
    simp only [ShiftOp.tape, hj, Nat.add_mod_mod]
  have hle : j ≤ w.bits := by
    have := Nat.mod_lt n (by omega : 0 < w.bits + 1)
    omega
  have hbit := fun i hi => roxrMacro_bit (c := c) hs hw hle (i := i) hi
  have hlast : (roxrMacro j (src ||| xflagAs1 c <<< w.bits) w.bits).getLsbD w.bits =
      ShiftOp.tape .roxr w src (c.xFlag.getLsbD 8) (n - 1) := by
    rw [hbit _ le_rfl, hmod]
    exact linked_eq (k := .roxr) (by decide) hn _
  apply shows_linked (by decide) hn ?_ ?_ ?_ (nflag_bit w _) Iff.rfl
  · intro i hi
    rw [maskOutAbove_bit, decide_eq_true hi, Bool.true_and, hbit i hi.le, hmod]
    rfl
  · intro i hi
    rw [maskOutAbove_bit, decide_eq_false (by omega), Bool.false_and]
  · cases w with
    | byte => exact hlast
    | word =>
      simp only [shr_bit]
      exact hlast
    | long => exact absurd hw (by decide)

omit hs in
theorem roxr_shows_long {j : ℕ} (hj : j = n % 33) (hj0 : j ≠ 0) :
    Shows .roxr .long src c n (roxr32 j src (xflagAs1 c)) := by
  have hj33 : j < 33 := hj ▸ Nat.mod_lt n (by decide)
  have hn : 0 < n := by omega
  have hshift : 32 - j < 32 := by omega
  have htape : ∀ i < 33, (i + n) % 33 = if i + j < 33 then i + j else i + j - 33 := by
    intro i hi
    rw [add_mod_cases hi, hj]
  apply shows_linked (by decide) hn ?_ ?_ ?_ (nflag_bit .long _) Iff.rfl
  · intro i hi
    have hi32 : i < 32 := hi
    have hab : ∀ i, 32 ≤ i → src.getLsbD i = false := fun i hi => BitVec.getLsbD_of_ge _ _ hi
    change _ = (if (i + n) % 33 < 32 then src.getLsbD ((i + n) % 33) else c.xFlag.getLsbD 8)
    rw [BitVec.getLsbD_or, BitVec.getLsbD_and, BitVec.getLsbD_or, BitVec.getLsbD_not,
      one_shl_bit hshift, shr_bit, shl_bit _ hi32, shl_bit _ hi32, xflagAs1_bit, decide_eq_true hi32,
      Bool.true_and]
    have hm := htape i (by omega)
    rcases lt_trichotomy (i + j) 32 with h | h | h
    · rw [if_pos (by omega)] at hm
      rw [hm, if_pos h, decide_eq_false (by omega : ¬ 33 - j ≤ i),
        decide_eq_false (by omega : ¬ i = 32 - j), decide_eq_false (by omega : ¬ 32 - j ≤ i), Nat.add_comm]
      simp
    · rw [if_pos (by omega)] at hm
      rw [hm, if_neg (by omega), decide_eq_true (by omega : i = 32 - j),
        decide_eq_true (by omega : 32 - j ≤ i), decide_eq_true (by omega : i - (32 - j) = 0)]
      simp
    · rw [if_neg (by omega)] at hm
      rw [hm, if_pos (by omega), decide_eq_true (by omega : 33 - j ≤ i),
        decide_eq_false (by omega : ¬ i = 32 - j), decide_eq_false (by omega : ¬ i - (32 - j) = 0),
        hab (j + i) (by omega), show i - (33 - j) = i + j - 33 by omega]
      simp
  · intro i hi
    exact BitVec.getLsbD_of_ge _ _ hi
  · have hlast : (n - 1) % 33 = j - 1 := by rw [pred_mod (by decide) hn, if_neg (hj ▸ hj0), hj]
    rw [test_bit src (by omega), ShiftOp.tape, Width.bits, hlast, if_pos (by omega)]

theorem roxrS_shows (hn : 0 < n) (hn8 : n ≤ 8) : Shows .roxr w src c n (roxrS w n src (xflagAs1 c)) := by
  cases w with
  | byte => exact roxr_shows_narrow hs (by decide) hn (Nat.mod_eq_of_lt (by simp only [Width.bits]; omega)).symm
  | word => exact roxr_shows_narrow hs (by decide) hn (Nat.mod_eq_of_lt (by simp only [Width.bits]; omega)).symm
  | long => exact roxr_shows_long (Nat.mod_eq_of_lt (by omega)).symm hn.ne'

theorem roxrR_shows : Shows .roxr w src c n (roxrR w n src c.xFlag (xflagAs1 c)) := by
  cases w with
  | byte =>
    simp only [roxrR]
    split_ifs with hn
    · exact roxr_shows_narrow hs (by decide) (by omega) rfl
    · exact unextended_shows hs (Or.inl rfl) (by simp at hn; simp [hn])
  | word =>
    simp only [roxrR]
    split_ifs with hn
    · exact roxr_shows_narrow hs (by decide) (by omega) rfl
    · exact unextended_shows hs (Or.inl rfl) (by simp at hn; simp [hn])
  | long =>
    simp only [roxrR]
    split_ifs with hn
    · exact roxr_shows_long rfl hn
    · exact unextended_shows hs (Or.inl rfl) (not_not.mp hn)

end Right

end Tosemu.M68k
