import Tosemu.ShiftsLeft

namespace Tosemu.M68k

open Cpu BitSerial

section Serial

variable {k : ShiftOp} {w : Width} {src : Long} {c : Core}

theorem linked_succ (k : ShiftOp) (w : Width) (src : Long) (x : Bool) (i : ℕ) :
    k.linked w src x (i + 1) =
      if k ≠ .ror ∧ k ≠ .rol then k.tape w src x i else k.linked w src x i := by
  split_ifs with h
  · rw [linked_eq h (Nat.succ_pos i)]
    rfl
  · cases k <;> first | rfl | exact absurd (by decide) h

theorem start_low {i : ℕ} (hi : i < w.bits) :
    (k.start w src c).a.getLsbD i = src.getLsbD i := by
  change (src.setWidth w.bits).getLsbD i = _
  rw [BitVec.getLsbD_setWidth, decide_eq_true hi, Bool.true_and]

theorem start_high {i : ℕ} (hi : i < w.bits) :
    (k.start w src c).a.getMsbD i = src.getLsbD (w.bits - 1 - i) := by
  change (src.setWidth w.bits).getMsbD i = _
  rw [BitVec.getMsbD_eq_getLsbD, BitVec.getLsbD_setWidth, decide_eq_true hi,
    decide_eq_true (by omega), Bool.true_and, Bool.true_and]

variable (hs : src.toNat < 2 ^ w.bits)

include hs

theorem serial_right (hk : k.isLeft = false) (n : ℕ) :
    At BitVec.getLsbD (k.tape w src (c.xFlag.getLsbD 8)) (k.linked w src (c.xFlag.getLsbD 8)) n
        (k.serial^[n] (k.start w src c)) ∧
      (0 < n → (k.serial^[n] (k.start w src c)).c = k.tape w src (c.xFlag.getLsbD 8) (n - 1)) := by
  have hpos : 8 ≤ w.bits := bits_pos
  have hab := fun i hi => bit_above hs (i := i) hi
  have h0 : At BitVec.getLsbD (k.tape w src (c.xFlag.getLsbD 8)) (k.linked w src (c.xFlag.getLsbD 8)) 0
      (k.start w src c) := by
    refine ⟨fun i hi => ?_, ?_⟩
    · rw [start_low hi, Nat.add_zero]
      have hmin : min i (w.bits - 1) = i := by omega
      have hring : i % w.bits = i := Nat.mod_eq_of_lt hi
      have hring' : i % (w.bits + 1) = i := Nat.mod_eq_of_lt (by omega)
      cases k <;> cases hk <;> simp [ShiftOp.tape, hring, hring', hmin, hi]
    · cases k <;> simp_all [ShiftOp.start, ShiftOp.linked, ShiftOp.tape, ShiftOp.isLeft]
  have hx := linked_succ k w src (c.xFlag.getLsbD 8)
  have hw : 0 < w.bits := by omega
  have hlow : ∀ {tape link : ℕ → Bool} {j : ℕ} {s : Reg w.bits}, At BitVec.getLsbD tape link j s →
      s.a.getLsbD 0 = tape j := fun h => by rw [h.a 0 hw, Nat.zero_add]
  cases k with
  | asr =>
    apply right_run hx hw _ h0 n
    intro j s hat
    rw [BitVec.getMsbD_eq_getLsbD, decide_eq_true hw, Bool.true_and, hat.a _ (by omega), ShiftOp.tape,
      ShiftOp.tape, Nat.min_eq_right (by omega), Nat.min_eq_right (by omega)]
  | lsr => exact right_run hx hw (fun j s _ => (hab _ (by omega)).symm) h0 n
  | ror =>
    apply right_run hx hw _ h0 n
    intro j s hat
    rw [hlow hat, ShiftOp.tape, ShiftOp.tape, Nat.add_mod_left]
  | roxr => exact right_run hx hw (fun j s hat => hat.x) h0 n
  | asl => cases hk
  | lsl => cases hk
  | rol => cases hk
  | roxl => cases hk

omit hs in
variable (src c) in
theorem serial_left (hk : k.isLeft = true) (n : ℕ) :
    At BitVec.getMsbD (k.tape w src (c.xFlag.getLsbD 8)) (k.linked w src (c.xFlag.getLsbD 8)) n
        (k.serial^[n] (k.start w src c)) ∧
      (0 < n → (k.serial^[n] (k.start w src c)).c = k.tape w src (c.xFlag.getLsbD 8) (n - 1)) ∧
      ((k.serial^[n] (k.start w src c)).v = true ↔ ∃ j < n,
        k.tape w src (c.xFlag.getLsbD 8) j ≠ k.tape w src (c.xFlag.getLsbD 8) (j + 1)) := by
  have hpos : 8 ≤ w.bits := bits_pos
  have h0 : At BitVec.getMsbD (k.tape w src (c.xFlag.getLsbD 8)) (k.linked w src (c.xFlag.getLsbD 8)) 0
      (k.start w src c) := by
    refine ⟨fun i hi => ?_, ?_⟩
    · rw [start_high hi, Nat.add_zero]
      have hring : i % w.bits = i := Nat.mod_eq_of_lt hi
      have hring' : i % (w.bits + 1) = i := Nat.mod_eq_of_lt (by omega)
      cases k <;> cases hk <;> simp [ShiftOp.tape, hring, hring', hi]
    · cases k <;> simp_all [ShiftOp.start, ShiftOp.linked, ShiftOp.tape, ShiftOp.isLeft]
  have hx := linked_succ k w src (c.xFlag.getLsbD 8)
  have hw : 0 < w.bits := by omega
  have hw1 : 1 < w.bits := by omega
  have hstart : ((k.start w src c).v = true ∨ ∃ j < n, k.tape w src (c.xFlag.getLsbD 8) j ≠
      k.tape w src (c.xFlag.getLsbD 8) (j + 1)) ↔ ∃ j < n, k.tape w src (c.xFlag.getLsbD 8) j ≠
      k.tape w src (c.xFlag.getLsbD 8) (j + 1) := or_iff_right Bool.false_ne_true
  have hnone : ∀ j, false = (decide (w.bits + j < w.bits) && src.getLsbD (w.bits - 1 - (w.bits + j))) :=
    fun j => by rw [decide_eq_false (by omega), Bool.false_and]
  have hend : ∀ {s : Reg w.bits} {p q r : Prop}, p ∧ q ∧ (1 < w.bits → (s.v = true ↔ r)) →
      p ∧ q ∧ (s.v = true ↔ r) := fun h => ⟨h.1, h.2.1, h.2.2 hw1⟩
  rw [← hstart]
  cases k with
  | asl => exact hend (left_run hx hw (fun j s _ => hnone j) h0 n)
  | lsl => exact hend (left_run hx hw (fun j s _ => hnone j) h0 n)
  | rol =>
    apply hend
    apply left_run hx hw _ h0 n
    intro j s hat
    rw [hat.a 0 hw, Nat.zero_add, ShiftOp.tape, ShiftOp.tape, Nat.add_mod_left]
  | roxl => exact hend (left_run hx hw (fun j s hat => hat.x) h0 n)
  | asr => cases hk
  | lsr => cases hk
  | ror => cases hk
  | roxr => cases hk

end Serial

section Overflow

variable {w : Width} {src : Long} {c : Core} {n : ℕ} {x : Bool}

theorem notBit_bit (p : Prop) [Decidable p] : (notBit p).getLsbD 7 = true ↔ ¬ p := by
  rw [notBit]
  split_ifs with h
  · simp [h]
  · simp [h]

theorem steady_iff {f : ℕ → Bool} {n : ℕ} :
    (∃ j < n, f j ≠ f (j + 1)) ↔ ¬ ((∀ j ≤ n, f j = false) ∨ ∀ j ≤ n, f j = true) := by
  rw [← not_iff_not, not_not]
  simp only [ne_eq, not_exists, not_and, not_not]
  constructor
  · intro h
    have hsame : ∀ j ≤ n, f j = f 0 := by
      intro j hj
      induction j with
      | zero => rfl
      | succ j ih => rw [← h j hj, ih (by omega)]
    cases h0 : f 0
    · exact Or.inl fun j hj => (hsame j hj).trans h0
    · exact Or.inr fun j hj => (hsame j hj).trans h0
  · rintro (h | h) j hj
    · rw [h j hj.le, h (j + 1) hj]
    · rw [h j hj.le, h (j + 1) hj]

variable (src x) in
theorem top_bit (hn : n ≤ w.bits) {j : ℕ} (hj : j ≤ n) (hjw : j < w.bits) :
    ShiftOp.tape .asl w src x j = src.getLsbD (w.bits - 1 - j) ∧
      (shiftTable w (n + 1)).getLsbD (w.bits - 1 - j) = true := by
  refine ⟨?_, ?_⟩
  · rw [ShiftOp.tape, decide_eq_true hjw, Bool.true_and]
  · rw [shiftTable_bit (by omega), decide_eq_true (by omega), decide_eq_true (by omega)]
    rfl

theorem top_cases (hn : n ≤ w.bits) (i : ℕ) :
    (shiftTable w (n + 1)).getLsbD i = false ∨ ∃ j ≤ n, j < w.bits ∧ i = w.bits - 1 - j := by
  by_cases h : i < w.bits ∧ w.bits ≤ n + 1 + i
  · exact Or.inr ⟨w.bits - 1 - i, by omega, by omega, by omega⟩
  · left
    rw [shiftTable_bit (by omega), ← Bool.decide_and, decide_eq_false h]

theorem top_zero_iff (hn : n ≤ w.bits) :
    src &&& shiftTable w (n + 1) = 0 ↔ ∀ j ≤ n, ShiftOp.tape .asl w src x j = false := by
  constructor
  · intro h j hj
    by_cases hjw : j < w.bits
    · obtain ⟨htape, htable⟩ := top_bit src x hn hj hjw
      have hbit := congrArg (fun a : Long => a.getLsbD (w.bits - 1 - j)) h
      simp only [BitVec.getLsbD_and, htable, Bool.and_true] at hbit
      rw [htape, hbit]
      exact BitVec.getLsbD_zero
    · rw [ShiftOp.tape, decide_eq_false hjw, Bool.false_and]
  · intro h
    apply BitVec.eq_of_getLsbD_eq
    intro i _
    have hzero : (0 : Long).getLsbD i = false := BitVec.getLsbD_zero
    rw [BitVec.getLsbD_and, hzero]
    rcases top_cases (w := w) hn i with hi | ⟨j, hj, hjw, rfl⟩
    · rw [hi, Bool.and_false]
    · rw [← (top_bit src x hn hj hjw).1, h j hj, Bool.false_and]

theorem top_full_iff (hn : n < w.bits) :
    src &&& shiftTable w (n + 1) = shiftTable w (n + 1) ↔ ∀ j ≤ n, ShiftOp.tape .asl w src x j = true := by
  constructor
  · intro h j hj
    obtain ⟨htape, htable⟩ := top_bit src x hn.le hj (by omega)
    have hbit := congrArg (fun a : Long => a.getLsbD (w.bits - 1 - j)) h
    simp only [BitVec.getLsbD_and, htable, Bool.and_true] at hbit
    rw [htape, hbit]
  · intro h
    apply BitVec.eq_of_getLsbD_eq
    intro i _
    rw [BitVec.getLsbD_and]
    rcases top_cases (w := w) hn.le i with hi | ⟨j, hj, hjw, rfl⟩
    · rw [hi, Bool.and_false]
    · rw [← (top_bit src x hn.le hj hjw).1, h j hj, Bool.true_and]

theorem overflow_within (hn : n < w.bits) :
    (notBit (src &&& shiftTable w (n + 1) = 0 ∨
      src &&& shiftTable w (n + 1) = shiftTable w (n + 1))).getLsbD 7 = true ↔
      ∃ j < n, ShiftOp.tape .asl w src x j ≠ ShiftOp.tape .asl w src x (j + 1) := by
  rw [notBit_bit, steady_iff, top_zero_iff (x := x) hn.le, top_full_iff (x := x) hn]

theorem overflow_beyond (hn : w.bits ≤ n) :
    (∃ j < n, ShiftOp.tape .asl w src x j ≠ ShiftOp.tape .asl w src x (j + 1)) ↔
      ¬ ∀ j < w.bits, src.getLsbD (w.bits - 1 - j) = false := by
  have hpos : 8 ≤ w.bits := bits_pos
  rw [steady_iff, not_iff_not]
  constructor
  · rintro (h | h) j hj
    · have := h j (by omega)
      rwa [ShiftOp.tape, decide_eq_true hj, Bool.true_and] at this
    · have := h w.bits hn
      rw [ShiftOp.tape, decide_eq_false (lt_irrefl _), Bool.false_and] at this
      cases this
  · intro h
    left
    intro j _
    by_cases hj : j < w.bits
    · rw [ShiftOp.tape, h j hj, Bool.and_false]
    · rw [ShiftOp.tape, decide_eq_false hj, Bool.false_and]

variable (hs : src.toNat < 2 ^ w.bits)

include hs

theorem zero_iff_bits : src = 0 ↔ ∀ j < w.bits, src.getLsbD (w.bits - 1 - j) = false := by
  constructor
  · rintro rfl j _
    exact BitVec.getLsbD_zero
  · intro h
    apply BitVec.eq_of_getLsbD_eq
    intro i _
    have hzero : (0 : Long).getLsbD i = false := BitVec.getLsbD_zero
    rw [hzero]
    by_cases hi : i < w.bits
    · have := h (w.bits - 1 - i) (by omega)
      rwa [show w.bits - 1 - (w.bits - 1 - i) = i by omega] at this
    · exact bit_above hs (by omega)

omit hs in
theorem aslS_overflow (hn8 : n ≤ 8) : (aslS w n src).v.getLsbD 7 = true ↔
    ∃ j < n, ShiftOp.tape .asl w src x j ≠ ShiftOp.tape .asl w src x (j + 1) := by
  cases w with
  | byte =>
    by_cases h8 : n < 8
    · rw [← overflow_within (w := .byte) h8, aslS]
      simp only [h8, and_true]
    · obtain rfl : n = 8 := by omega
      have hall : (∀ j ≤ 8, ShiftOp.tape .asl .byte src x j = false) ↔
          ∀ j < Width.byte.bits, src.getLsbD (Width.byte.bits - 1 - j) = false := by
        constructor
        · intro h j hj
          have hj8 : j < 8 := hj
          have := h j hj8.le
          rwa [ShiftOp.tape, decide_eq_true hj, Bool.true_and] at this
        · intro h j _
          by_cases hj : j < Width.byte.bits
          · rw [ShiftOp.tape, h j hj, Bool.and_false]
          · rw [ShiftOp.tape, decide_eq_false hj, Bool.false_and]
      rw [overflow_beyond (w := .byte) (n := 8) (by decide), ← hall,
        ← top_zero_iff (w := .byte) (n := 8) le_rfl, aslS]
      simp only [lt_irrefl, and_false, or_false]
      exact notBit_bit _
  | word => exact overflow_within (w := .word) (hn8.trans_lt (by decide))
  | long => exact overflow_within (w := .long) (hn8.trans_lt (by decide))

theorem aslR_overflow : (aslR w n src).v.getLsbD 7 = true ↔
    ∃ j < n, ShiftOp.tape .asl w src x j ≠ ShiftOp.tape .asl w src x (j + 1) := by
  by_cases hn : n = 0
  · subst hn
    simp [aslR, unshifted]
  · rw [aslR.eq_def, if_pos hn]
    by_cases hlt : n < w.bits
    · rw [if_pos hlt]
      exact overflow_within hlt
    · rw [if_neg hlt, overflow_beyond (Nat.le_of_not_lt hlt), ← zero_iff_bits hs]
      exact notBit_bit _

omit hs in
theorem asl_memory_overflow : (ShiftOp.memory .word .asl src c).v.getLsbD 7 = true ↔
    ∃ j < 1, ShiftOp.tape .asl .word src x j ≠ ShiftOp.tape .asl .word src x (j + 1) := by
  have htable : shiftTable .word (1 + 1) = 0xc000 := by decide
  rw [← overflow_within (w := .word) (by decide), htable, ShiftOp.memory]

end Overflow

section Results

structure Flags (k : ShiftOp) {n : ℕ} (s : Reg n) (c : Core) : Prop where
  carry : c.cFlag.getLsbD 8 = s.c
  extend : c.xFlag.getLsbD 8 = s.x
  negative : c.nFlag.getLsbD 7 = s.a.msb
  zero : c.notZFlag = 0 ↔ s.a = 0
  overflow : c.vFlag.getLsbD 7 = (decide (k = .asl) && s.v)

variable {k : ShiftOp} {w : Width} {src : Long} {c : Core} {n : ℕ} {r : Shifted}
  (hs : src.toNat < 2 ^ w.bits)

include hs

theorem serial_bits (k : ShiftOp) (c : Core) (n : ℕ) {i : ℕ} (hi : i < w.bits) :
    (k.serial^[n] (k.start w src c)).a.getLsbD i =
      k.tape w src (c.xFlag.getLsbD 8) ((if k.isLeft then w.bits - 1 - i else i) + n) := by
  cases hk : k.isLeft
  · exact (serial_right hs hk n).1.a i hi
  · have h := (serial_left (w := w) src c hk n).1.a (w.bits - 1 - i) (by omega)
    rw [BitVec.getMsbD_eq_getLsbD, decide_eq_true (by omega), Bool.true_and,
      show w.bits - 1 - (w.bits - 1 - i) = i by omega] at h
    exact h

theorem shows_res (h : Shows k w src c n r) : r.res = (k.serial^[n] (k.start w src c)).a.setWidth 32 := by
  apply BitVec.eq_of_getLsbD_eq
  intro i hi
  rw [h.res i hi, BitVec.getLsbD_setWidth, decide_eq_true hi, Bool.true_and]
  by_cases hib : i < w.bits
  · rw [serial_bits hs k c n hib, decide_eq_true hib, Bool.true_and]
  · rw [decide_eq_false hib, Bool.false_and, BitVec.getLsbD_of_ge _ _ (Nat.le_of_not_lt hib)]

theorem serial_carry (k : ShiftOp) (c : Core) (n : ℕ) : (k.serial^[n] (k.start w src c)).c =
    if n = 0 then (k.start w src c).c else k.tape w src (c.xFlag.getLsbD 8) (n - 1) := by
  split_ifs with h
  · subst h
    rfl
  · cases hk : k.isLeft
    · exact (serial_right hs hk n).2 (by omega)
    · exact (serial_left src c hk n).2.1 (by omega)

theorem serial_extend (k : ShiftOp) (c : Core) (n : ℕ) :
    (k.serial^[n] (k.start w src c)).x = k.linked w src (c.xFlag.getLsbD 8) n := by
  cases hk : k.isLeft
  · exact (serial_right hs hk n).1.x
  · exact (serial_left src c hk n).1.x

omit hs in
theorem sign_setWidth (a : BitVec w.bits) : w.sign (a.setWidth 32) = a.msb := by
  have hpos : 8 ≤ w.bits := bits_pos
  have hbits : w.bits ≤ 32 := bits_le
  rw [Width.sign, BitVec.getLsbD_setWidth, decide_eq_true (by omega), Bool.true_and,
    BitVec.msb_eq_getLsbD_last]

omit hs in
theorem setWidth_eq_zero (a : BitVec w.bits) : a.setWidth 32 = 0 ↔ a = 0 := by
  have hbits : w.bits ≤ 32 := bits_le
  constructor
  · intro h
    apply BitVec.eq_of_toNat_eq
    have := congrArg BitVec.toNat h
    rwa [BitVec.toNat_setWidth, Nat.mod_eq_of_lt (a.isLt.trans_le (Nat.pow_le_pow_right (by decide) hbits))]
      at this
  · rintro rfl
    exact BitVec.setWidth_zero ..

end Results

section Handlers

variable (k : ShiftOp) (w : Width) (o : Insn) (m : Machine)

def shiftedCore (r : Shifted) (c : Core) : Core :=
  { c with
    cFlag := r.c
    xFlag := r.x.getD c.xFlag
    nFlag := r.n
    notZFlag := r.z
    vFlag := r.v }

variable {k w} {src : Long} {c : Core} {n : ℕ} {r : Shifted}

theorem shows_flags (hs : src.toNat < 2 ^ w.bits) (h : Shows k w src c n r)
    (hv : k ≠ .asl → r.v = 0)
    (hasl : k = .asl → (r.v.getLsbD 7 = true ↔ ∃ j < n, ShiftOp.tape .asl w src (c.xFlag.getLsbD 8) j ≠
      ShiftOp.tape .asl w src (c.xFlag.getLsbD 8) (j + 1))) {c' : Core} (hc : c'.xFlag = c.xFlag) :
    Flags k (k.serial^[n] (k.start w src c)) (shiftedCore r c') := by
  have hres := shows_res hs h
  refine ⟨?_, ?_, ?_, ?_, ?_⟩
  · exact h.carry.trans (serial_carry hs k c n).symm
  · rw [shiftedCore, hc]
    exact h.extend.trans (serial_extend hs k c n).symm
  · rw [← sign_setWidth, ← hres]
    exact h.negative
  · rw [← setWidth_eq_zero, ← hres]
    exact h.zero
  · by_cases hk : k = .asl
    · subst hk
      have hleft := (serial_left (k := .asl) (w := w) src c rfl n).2.2
      rw [Bool.eq_iff_iff, decide_eq_true rfl, Bool.true_and, hleft]
      exact hasl rfl
    · rw [decide_eq_false hk, Bool.false_and]
      change r.v.getLsbD 7 = false
      rw [hv hk]
      rfl

theorem static_shows (hs : src.toNat < 2 ^ w.bits) (k : ShiftOp) (c : Core) (hn : 0 < n) (hn8 : n ≤ 8) :
    Shows k w src c n (k.static w n src c) := by
  cases k with
  | asr => exact asrS_shows hs hn hn8
  | asl => exact aslS_shows hn hn8
  | lsr => exact lsrS_shows hs hn hn8
  | lsl => exact lslS_shows hn hn8
  | ror => exact rorS_shows hs hn hn8
  | rol => exact rolS_shows hs hn hn8
  | roxr => exact roxrS_shows hs hn hn8
  | roxl => exact roxlS_shows hs hn hn8

theorem counted_shows (hs : src.toNat < 2 ^ w.bits) (k : ShiftOp) (c : Core)
    (hrol : k = .rol → w = .long → n % 32 = 0 → n = 0) : Shows k w src c n (k.counted w n src c) := by
  cases k with
  | asr => exact asrR_shows hs
  | asl => exact aslR_shows hs
  | lsr => exact lsrR_shows hs
  | lsl => exact lslR_shows hs
  | ror => exact rorR_shows hs
  | rol => exact rolR_shows hs (hrol rfl)
  | roxr => exact roxrR_shows hs
  | roxl => exact roxlR_shows hs

theorem static_v (hk : k ≠ .asl) : (k.static w n src c).v = 0 := by
  cases k <;> first | exact absurd rfl hk | cases w <;> rfl

theorem counted_v (hk : k ≠ .asl) : (k.counted w n src c).v = 0 := by
  cases k with
  | asl => exact absurd rfl hk
  | asr =>
    simp only [ShiftOp.counted, asrR.eq_def]
    split_ifs <;> rfl
  | lsr =>
    cases w <;> simp only [ShiftOp.counted, lsrR] <;> split_ifs <;> rfl
  | lsl =>
    cases w <;> simp only [ShiftOp.counted, lslR] <;> split_ifs <;> rfl
  | ror =>
    cases w <;> simp only [ShiftOp.counted, rorR] <;> split_ifs <;> rfl
  | rol =>
    cases w <;> simp only [ShiftOp.counted, rolR] <;> split_ifs <;> rfl
  | roxr =>
    cases w <;> simp only [ShiftOp.counted, roxrR] <;> split_ifs <;> rfl
  | roxl =>
    cases w <;> simp only [ShiftOp.counted, roxlR] <;> split_ifs <;> rfl

theorem memory_v (hk : k ≠ .asl) : (k.memory .word src c).v = 0 := by
  cases k <;> first | exact absurd rfl hk | rfl

theorem quick_range (o : Insn) : 0 < o.quick.toNat ∧ o.quick.toNat ≤ 8 := by
  have hseven : ∀ a : Long, (a &&& 7).toNat < 8 := by
    intro a
    rw [BitVec.toNat_and]
    exact Nat.and_lt_two_pow (n := 3) _ (by decide)
  have hone : (1 : Long).toNat = 1 := rfl
  have h := hseven ((o.ir.setWidth 32 >>> 9) - 1)
  rw [Insn.quick, BitVec.toNat_add, hone]
  omega

structure Moved (k : ShiftOp) (w : Width) (i : Fin 8) (s : Reg w.bits) (m m' : Machine) : Prop where
  flags : Flags k s m'.cpu
  d : m'.cpu.d = Function.update m.cpu.d i (maskOutBelow w (m.cpu.d i) ||| s.a.setWidth 32)
  rest : m' = { m with cpu := { m.cpu with
    d := m'.cpu.d
    cFlag := m'.cpu.cFlag
    xFlag := m'.cpu.xFlag
    nFlag := m'.cpu.nFlag
    notZFlag := m'.cpu.notZFlag
    vFlag := m'.cpu.vFlag } }

theorem moved_of_shows (i : Fin 8) (hs : src.toNat < 2 ^ w.bits) (h : Shows k w src m.cpu n r)
    (hv : k ≠ .asl → r.v = 0)
    (hasl : k = .asl → (r.v.getLsbD 7 = true ↔ ∃ j < n,
      ShiftOp.tape .asl w src (m.cpu.xFlag.getLsbD 8) j ≠
        ShiftOp.tape .asl w src (m.cpu.xFlag.getLsbD 8) (j + 1))) :
    Moved k w i (k.serial^[n] (k.start w src m.cpu)) m
      { m with cpu := shiftedCore r { m.cpu with
        d := Function.update m.cpu.d i (maskOutBelow w (m.cpu.d i) ||| r.res) } } := by
  refine ⟨shows_flags hs h hv hasl rfl, ?_, rfl⟩
  rw [← shows_res hs h]
  rfl

variable (k w)

theorem opShiftS_moved : Moved k w o.y
    (k.serial^[o.quick.toNat] (k.start w (maskOutAbove w (m.cpu.d o.y)) m.cpu)) m (opShiftS w o k m).2 := by
  obtain ⟨hn, hn8⟩ := quick_range o
  have hs := maskOutAbove_lt w (m.cpu.d o.y)
  apply moved_of_shows m o.y hs (static_shows hs k m.cpu hn hn8) static_v
  rintro rfl
  exact aslS_overflow hn8

theorem opShiftR_moved (hrol : k = .rol → w = .long → m.cpu.d o.x &&& 0x3f ≠ 32) : Moved k w o.y
    (k.serial^[(m.cpu.d o.x &&& 0x3f).toNat] (k.start w (maskOutAbove w (m.cpu.d o.y)) m.cpu)) m
    (opShiftR w o k m).2 := by
  have hs := maskOutAbove_lt w (m.cpu.d o.y)
  apply moved_of_shows m o.y hs (counted_shows hs k m.cpu _) counted_v
  · rintro rfl
    exact aslR_overflow hs
  · intro hk hw hmod
    have hne := hrol hk hw
    have hlt : (m.cpu.d o.x &&& 0x3f).toNat < 2 ^ 6 := by
      rw [BitVec.toNat_and]
      exact Nat.and_lt_two_pow _ (by decide)
    have hne' : (m.cpu.d o.x &&& 0x3f).toNat ≠ 32 := fun h => hne (BitVec.eq_of_toNat_eq h)
    omega

theorem opShiftMem_apply (ea : Ea) :
    let e := getEa .word o.y ea m
    let src := m68kiRead .word e.1 e.2
    let r := k.memory .word src.1 src.2.cpu
    (opShiftMem o k ea m).2 =
      { (m68kiWrite .word e.1 r.res src.2).2 with cpu := shiftedCore r src.2.cpu } := by
  intro e src r
  have hcpu : (m68kiWrite .word e.1 r.res src.2).2.cpu = src.2.cpu := write_cpu .word _ _ _
  have happly : (opShiftMem o k ea m).2 =
      { (m68kiWrite .word e.1 r.res src.2).2 with
        cpu := shiftedCore r (m68kiWrite .word e.1 r.res src.2).2.cpu } := rfl
  rw [happly, hcpu]

theorem opShiftMem_moved (ea : Ea) :
    let e := getEa .word o.y ea m
    let src := m68kiRead .word e.1 e.2
    let s := k.serial^[1] (k.start .word src.1 src.2.cpu)
    let m' := (opShiftMem o k ea m).2
    Flags k s m'.cpu ∧ m' = { (m68kiWrite .word e.1 (s.a.setWidth 32) src.2).2 with cpu := { src.2.cpu with
      cFlag := m'.cpu.cFlag
      xFlag := m'.cpu.xFlag
      nFlag := m'.cpu.nFlag
      notZFlag := m'.cpu.notZFlag
      vFlag := m'.cpu.vFlag } } := by
  intro e src s m'
  have hs : src.1.toNat < 2 ^ Width.word.bits := m68kiRead_lt .word e.1 e.2
  have hshows := memory_shows (c := src.2.cpu) hs k
  have hres := shows_res hs hshows
  have hm' : m' = { (m68kiWrite .word e.1 (k.memory .word src.1 src.2.cpu).res src.2).2 with
      cpu := shiftedCore (k.memory .word src.1 src.2.cpu) src.2.cpu } := opShiftMem_apply k o m ea
  rw [hres] at hm'
  rw [hm']
  refine ⟨?_, rfl⟩
  apply shows_flags hs hshows memory_v _ rfl
  rintro rfl
  exact asl_memory_overflow

theorem shifts_are_serial :
    Moved k w o.y
        (k.serial^[o.quick.toNat] (k.start w (maskOutAbove w (m.cpu.d o.y)) m.cpu)) m
        (opShiftS w o k m).2 ∧
      ((k = .rol → w = .long → m.cpu.d o.x &&& 0x3f ≠ 32) → Moved k w o.y
        (k.serial^[(m.cpu.d o.x &&& 0x3f).toNat] (k.start w (maskOutAbove w (m.cpu.d o.y)) m.cpu)) m
        (opShiftR w o k m).2) ∧
      ∀ ea, let e := getEa .word o.y ea m
        let src := m68kiRead .word e.1 e.2
        let s := k.serial^[1] (k.start .word src.1 src.2.cpu)
        let m' := (opShiftMem o k ea m).2
        Flags k s m'.cpu ∧ m' = { (m68kiWrite .word e.1 (s.a.setWidth 32) src.2).2 with cpu := { src.2.cpu with
          cFlag := m'.cpu.cFlag
          xFlag := m'.cpu.xFlag
          nFlag := m'.cpu.nFlag
          notZFlag := m'.cpu.notZFlag
          vFlag := m'.cpu.vFlag } } :=
  ⟨opShiftS_moved k w o m, opShiftR_moved k w o m, opShiftMem_moved k o m⟩

theorem shifts_are_serial_roxl :
    let m := ramMachine { coldCore with d := fun i => if i = 0 then 0x8001 else 34 } (fun _ => 0)
    Moved .roxl .word 0 ((ShiftOp.serial .roxl)^[34] (ShiftOp.start .roxl .word 0x8001 m.cpu)) m
      (opShiftR .word ⟨0xe370, 0⟩ .roxl m).2 := by
  intro m
  have hd : maskOutAbove .word (m.cpu.d (Insn.y ⟨0xe370, 0⟩)) = 0x8001 := by decide
  have hx : (m.cpu.d (Insn.x ⟨0xe370, 0⟩) &&& 0x3f).toNat = 34 := by decide
  have h := (shifts_are_serial .roxl .word ⟨0xe370, 0⟩ m).2.1 (fun hk => by cases hk)
  rw [hd, hx] at h
  exact h

end Handlers

end Tosemu.M68k
