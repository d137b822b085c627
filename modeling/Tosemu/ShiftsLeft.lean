import Tosemu.ShiftsRight

namespace Tosemu.M68k

open Cpu BitSerial

section Left

variable {k : ShiftOp} {w : Width} {src : Long} {c : Core} {n : ℕ} {carry neg v : Long}
  (hs : src.toNat < 2 ^ w.bits)

theorem carry_byte (hn : n ≤ 8) : (src <<< n).getLsbD 8 = src.getLsbD (8 - n) := by
  rw [shl_bit _ (by decide), decide_eq_true hn, Bool.true_and]

theorem carry_word (hn : n ≤ 16) : ((src <<< n) >>> 8).getLsbD 8 = src.getLsbD (16 - n) := by
  rw [shr_bit, shl_bit _ (by decide), decide_eq_true hn, Bool.true_and]

theorem carry_long : ((src >>> (32 - n)) <<< 8).getLsbD 8 = src.getLsbD (32 - n) := by
  rw [shl_bit _ (by decide), shr_bit]
  simp

variable (src) in
theorem carry_low {p : Prop} [Decidable p] :
    ((if p then src &&& 1 else 0) <<< 8 : Long).getLsbD 8 = (decide p && src.getLsbD 0) := by
  rw [shl_bit _ (by decide)]
  by_cases h : p <;> simp [h]

theorem lsl_shows (hk : k = .asl ∨ k = .lsl) (hn : 0 < n)
    (hc : carry.getLsbD 8 = (decide (n ≤ w.bits) && src.getLsbD (w.bits - n))) :
    Shows k w src c n ⟨maskOutAbove w (src <<< n), carry, some carry,
      nflag w (maskOutAbove w (src <<< n)), maskOutAbove w (src <<< n), v⟩ := by
  have hbits : w.bits ≤ 32 := bits_le
  have hkind : k ≠ .ror ∧ k ≠ .rol := by rcases hk with rfl | rfl <;> decide
  apply shows_linked hkind hn ?_ ?_ ?_ (nflag_bit w _) Iff.rfl
  · intro i hi
    have htape : k.tape w src (c.xFlag.getLsbD 8) ((if k.isLeft then w.bits - 1 - i else i) + n) =
        (decide (w.bits - 1 - i + n < w.bits) && src.getLsbD (w.bits - 1 - (w.bits - 1 - i + n))) := by
      rcases hk with rfl | rfl <;> rfl
    rw [htape, maskOutAbove_bit, decide_eq_true hi, Bool.true_and, shl_bit _ (by omega)]
    by_cases hle : n ≤ i
    · rw [decide_eq_true hle, decide_eq_true (by omega)]
      congr 2
      omega
    · rw [decide_eq_false hle, decide_eq_false (by omega), Bool.false_and, Bool.false_and]
  · intro i hi
    rw [maskOutAbove_bit, decide_eq_false (by omega), Bool.false_and]
  · have htape : k.tape w src (c.xFlag.getLsbD 8) (n - 1) =
        (decide (n - 1 < w.bits) && src.getLsbD (w.bits - 1 - (n - 1))) := by
      rcases hk with rfl | rfl <;> rfl
    rw [htape, hc, decide_eq_decide.mpr (by omega : n ≤ w.bits ↔ n - 1 < w.bits),
      show w.bits - 1 - (n - 1) = w.bits - n by omega]

theorem lslS_shows (hn : 0 < n) (hn8 : n ≤ 8) : Shows .lsl w src c n (lslS w n src) := by
  have hle : n ≤ w.bits := hn8.trans bits_pos
  apply lsl_shows (Or.inr rfl) hn
  rw [decide_eq_true hle, Bool.true_and]
  cases w with
  | byte => exact carry_byte hn8
  | word =>
    rw [shr_bit, show 8 - n + 8 = 16 - n by omega]
    rfl
  | long =>
    rw [shr_bit, show 24 - n + 8 = 32 - n by omega]
    rfl

theorem aslS_shows (hn : 0 < n) (hn8 : n ≤ 8) : Shows .asl w src c n (aslS w n src) := by
  have h : Shows .lsl w src c n (lslS w n src) := lslS_shows hn hn8
  exact lsl_shows (Or.inl rfl) hn (h.carry.trans (by
    rw [if_neg hn.ne', ShiftOp.tape, decide_eq_decide.mpr (by omega : n - 1 < w.bits ↔ n ≤ w.bits),
      show w.bits - 1 - (n - 1) = w.bits - n by omega]))

theorem lsl_shows_zero (hk : k = .asl ∨ k = .lsl) (hn : w.bits ≤ n)
    (hc : carry.getLsbD 8 = (decide (n = w.bits) && src.getLsbD 0)) :
    Shows k w src c n ⟨0, carry, some carry, 0, 0, v⟩ := by
  have hpos : 8 ≤ w.bits := bits_pos
  have hz : maskOutAbove w (src <<< n) = 0 := by
    apply BitVec.eq_of_getLsbD_eq
    intro i hi
    have hzero : (0 : Long).getLsbD i = false := BitVec.getLsbD_zero
    rw [maskOutAbove_bit, shl_bit _ hi, hzero]
    by_cases hib : i < w.bits
    · rw [decide_eq_false (by omega : ¬ n ≤ i), Bool.false_and, Bool.and_false]
    · rw [decide_eq_false hib, Bool.false_and]
  have h : Shows k w src c n ⟨maskOutAbove w (src <<< n), carry, some carry,
      nflag w (maskOutAbove w (src <<< n)), maskOutAbove w (src <<< n), v⟩ :=
    lsl_shows hk (by omega : 0 < n) (hc.trans (by
      by_cases heq : n = w.bits
      · subst heq
        simp
      · rw [decide_eq_false heq, decide_eq_false (by omega : ¬ n ≤ w.bits), Bool.false_and, Bool.false_and]))
  rw [hz] at h
  have hneg : nflag w 0 = 0 := by cases w <;> rfl
  rwa [hneg] at h

theorem lslR_shows (hs : src.toNat < 2 ^ w.bits) : Shows .lsl w src c n (lslR w n src) := by
  by_cases hn : n = 0
  · subst hn
    exact unshifted_shows hs (by decide)
  · have hpos : 0 < n := by omega
    have hin : ∀ carry : Long, n ≤ w.bits → carry.getLsbD 8 = src.getLsbD (w.bits - n) →
        Shows .lsl w src c n ⟨maskOutAbove w (src <<< n), carry, some carry,
          nflag w (maskOutAbove w (src <<< n)), maskOutAbove w (src <<< n), 0⟩ := fun carry hle hc =>
      lsl_shows (Or.inr rfl) hpos (by rw [hc, decide_eq_true hle, Bool.true_and])
    have hout : w.bits < n → Shows .lsl w src c n ⟨0, 0, some 0, 0, 0, 0⟩ := fun hlt =>
      lsl_shows_zero (Or.inr rfl) hlt.le (by rw [decide_eq_false hlt.ne', Bool.false_and]; rfl)
    cases w with
    | byte =>
      simp only [lslR, if_pos hn]
      split_ifs with h8
      · exact hin _ h8 (carry_byte h8)
      · exact hout (Nat.lt_of_not_le h8)
    | word =>
      simp only [lslR, if_pos hn]
      split_ifs with h16
      · exact hin _ h16 (carry_word h16)
      · exact hout (Nat.lt_of_not_le h16)
    | long =>
      simp only [lslR, if_pos hn]
      by_cases h32 : n < 32
      · rw [if_pos h32]
        exact hin _ h32.le carry_long
      · rw [if_neg h32]
        exact lsl_shows_zero (Or.inr rfl) (Nat.le_of_not_lt h32) (carry_low src)

theorem aslR_shows (hs : src.toNat < 2 ^ w.bits) : Shows .asl w src c n (aslR w n src) := by
  by_cases hn : n = 0
  · subst hn
    exact unshifted_shows hs (by decide)
  · have hpos : 0 < n := by omega
    rw [aslR.eq_def, if_pos hn]
    by_cases hlt : n < w.bits
    · have hin : ∀ carry v : Long, carry.getLsbD 8 = src.getLsbD (w.bits - n) →
          Shows .asl w src c n ⟨maskOutAbove w (src <<< n), carry, some carry,
            nflag w (maskOutAbove w (src <<< n)), maskOutAbove w (src <<< n), v⟩ := fun carry v hc =>
        lsl_shows (Or.inl rfl) hpos (by rw [hc, decide_eq_true hlt.le, Bool.true_and])
      rw [if_pos hlt]
      cases w with
      | byte => exact hin _ _ (carry_byte hlt.le)
      | word => exact hin _ _ (carry_word hlt.le)
      | long => exact hin _ _ carry_long
    · rw [if_neg hlt]
      exact lsl_shows_zero (Or.inl rfl) (Nat.le_of_not_lt hlt) (carry_low src)

section Rotates

variable (hs : src.toNat < 2 ^ w.bits)

include hs

theorem rol_shows {j : ℕ} (hn : 0 < n) (hj : j = n % w.bits)
    (hc : carry.getLsbD 8 = src.getLsbD (w.bits - 1 - (n - 1) % w.bits)) :
    Shows .rol w src c n (rotated w (rolMacro w j src) carry) := by
  have hab := fun i hi => bit_above hs (i := i) hi
  have hpos : 8 ≤ w.bits := bits_pos
  have hbits : w.bits ≤ 32 := bits_le
  have hjw : j < w.bits := hj ▸ Nat.mod_lt n (by omega)
  apply shows_rotated (Or.inr rfl) hn ?_ ?_ hc
  · intro i hi
    change _ = src.getLsbD (w.bits - 1 - (w.bits - 1 - i + n) % w.bits)
    rw [rolMacro, maskOutAbove_bit, BitVec.getLsbD_or, shr_bit, shl_bit _ (by omega), decide_eq_true hi,
      Bool.true_and, add_mod_cases (by omega : w.bits - 1 - i < w.bits), ← hj]
    split_ifs with h
    · rw [decide_eq_true (by omega), hab (w.bits - j + i) (by omega), Bool.true_and, Bool.or_false]
      congr 1
      omega
    · rw [decide_eq_false (by omega), Bool.false_and, Bool.false_or]
      congr 1
      omega
  · intro i hi
    rw [rolMacro, maskOutAbove_bit, decide_eq_false (by omega), Bool.false_and]

theorem rolS_shows (hn : 0 < n) (hn8 : n ≤ 8) : Shows .rol w src c n (rolS w n src) := by
  have hpos : 8 ≤ w.bits := bits_pos
  have hlast : w.bits - 1 - (n - 1) % w.bits = w.bits - n := by
    rw [Nat.mod_eq_of_lt (by omega)]
    omega
  cases w with
  | byte => exact rol_shows hs hn rfl (hlast ▸ carry_byte hn8)
  | word =>
    apply rol_shows hs hn (Nat.mod_eq_of_lt (by simp only [Width.bits]; omega)).symm
    rw [hlast, shr_bit, show 8 - n + 8 = 16 - n by omega]
    rfl
  | long =>
    apply rol_shows hs hn (Nat.mod_eq_of_lt (by simp only [Width.bits]; omega)).symm
    rw [hlast, shr_bit, show 24 - n + 8 = 32 - n by omega]
    rfl

theorem rol_shows_whole (hn : 0 < n) (hmod : n % w.bits = 0) :
    Shows .rol w src c n (rotated w src ((src &&& 1) <<< 8)) := by
  have hab := fun i hi => bit_above hs (i := i) hi
  have hpos : 8 ≤ w.bits := bits_pos
  apply shows_rotated (Or.inr rfl) hn
  · intro i hi
    change _ = src.getLsbD (w.bits - 1 - (w.bits - 1 - i + n) % w.bits)
    rw [add_mod_cases (by omega : w.bits - 1 - i < w.bits), hmod, Nat.add_zero, if_pos (by omega)]
    congr 1
    omega
  · exact hab
  · have hlow := carry_low src (p := True)
    rw [if_pos trivial] at hlow
    rw [hlow, ShiftOp.tape, pred_mod (by omega) hn, if_pos hmod, Nat.sub_self]
    rfl

theorem rolR_shows (hlong : w = .long → n % 32 = 0 → n = 0) : Shows .rol w src c n (rolR w n src) := by
  by_cases hn : n = 0
  · subst hn
    exact unshifted_shows hs (by decide)
  · have hpos : 0 < n := by omega
    have hlast : n % w.bits ≠ 0 → w.bits - 1 - (n - 1) % w.bits = w.bits - n % w.bits := by
      intro h
      have hw : 8 ≤ w.bits := bits_pos
      rw [pred_mod (by omega) hpos, if_neg h]
      omega
    cases w with
    | byte =>
      simp only [rolR, if_pos hn]
      split_ifs with hmod
      · apply rol_shows hs hpos rfl
        rw [hlast hmod]
        exact carry_byte (Nat.mod_lt n (by decide)).le
      · exact rol_shows_whole hs hpos (not_not.mp hmod)
    | word =>
      simp only [rolR, if_pos hn]
      split_ifs with hmod
      · apply rol_shows hs hpos rfl
        rw [hlast hmod]
        exact carry_word (Nat.mod_lt n (by decide)).le
      · exact rol_shows_whole hs hpos (not_not.mp hmod)
    | long =>
      simp only [rolR, if_pos hn]
      apply rol_shows hs hpos rfl
      rw [hlast (fun h => hn (hlong rfl h))]
      exact carry_long

theorem roxlMacro_bit (hw : w.bits < 32) {i j : ℕ} (hj : j ≤ w.bits) (hi : i ≤ w.bits) :
    (roxlMacro j (src ||| xflagAs1 c <<< w.bits) w.bits).getLsbD i =
      ShiftOp.tape .roxl w src (c.xFlag.getLsbD 8) (2 * w.bits - i + j) := by
  have hx := withX_bit (c := c) hs hw
  have hab := fun i hi => bit_above hs (i := i) hi
  rw [roxlMacro, BitVec.getLsbD_or, shr_bit, shl_bit _ (by omega), ShiftOp.tape, hx (w.bits + 1 - j + i)]
  rcases lt_trichotomy j (i + 1) with h | h | h
  · rw [decide_eq_true (by omega), if_neg (by omega), hab (w.bits + 1 - j + i) (by omega), Bool.true_and,
      Bool.or_false, hx]
    by_cases hx : i - j = w.bits
    · rw [if_pos hx, show 2 * w.bits - i + j = w.bits by omega, Nat.mod_eq_of_lt (by omega), if_neg (by omega)]
    · rw [if_neg hx, show 2 * w.bits - i + j = w.bits - 1 - (i - j) + (w.bits + 1) by omega,
        Nat.add_mod_right, Nat.mod_eq_of_lt (by omega), if_pos (by omega)]
      congr 1
      omega
  · rw [decide_eq_false (by omega), if_pos (by omega), Bool.false_and, Bool.false_or,
      show 2 * w.bits - i + j = w.bits + (w.bits + 1) by omega, Nat.add_mod_right,
      Nat.mod_eq_of_lt (by omega), if_neg (by omega)]
  · rw [decide_eq_false (by omega), if_neg (by omega), Bool.false_and, Bool.false_or,
      show 2 * w.bits - i + j = j - i - 2 + (w.bits + 1) + (w.bits + 1) by omega, Nat.add_mod_right,
      Nat.add_mod_right, Nat.mod_eq_of_lt (by omega), if_pos (by omega)]
    congr 1
    omega

theorem roxl_shows_narrow (hw : w.bits < 32) {j : ℕ} (hn : 0 < n) (hj : j = n % (w.bits + 1)) :
    Shows .roxl w src c n (extended w (roxlMacro j (src ||| xflagAs1 c <<< w.bits) w.bits)) := by
  have hmod : ∀ i, ShiftOp.tape .roxl w src (c.xFlag.getLsbD 8) (i + j) =
      ShiftOp.tape .roxl w src (c.xFlag.getLsbD 8) (i + n) := by
    intro i
    simp only [ShiftOp.tape, hj, Nat.add_mod_mod]
  have hturn : ∀ i, ShiftOp.tape .roxl w src (c.xFlag.getLsbD 8) (i + (w.bits + 1)) =
      ShiftOp.tape .roxl w src (c.xFlag.getLsbD 8) i := by
    intro i
    simp only [ShiftOp.tape, Nat.add_mod_right]
  have hle : j ≤ w.bits := by
    have := Nat.mod_lt n (by omega : 0 < w.bits + 1)
    omega
  have hbit := fun i hi => roxlMacro_bit (c := c) hs hw hle (i := i) hi
  have hlast : (roxlMacro j (src ||| xflagAs1 c <<< w.bits) w.bits).getLsbD w.bits =
      ShiftOp.tape .roxl w src (c.xFlag.getLsbD 8) (n - 1) := by
    rw [hbit _ le_rfl, hmod, show 2 * w.bits - w.bits + n = w.bits + n by omega]
    exact linked_eq (k := .roxl) (by decide) hn _
  apply shows_linked (by decide) hn ?_ ?_ ?_ (nflag_bit w _) Iff.rfl
  · intro i hi
    change _ = ShiftOp.tape .roxl w src (c.xFlag.getLsbD 8) (w.bits - 1 - i + n)
    rw [maskOutAbove_bit, decide_eq_true hi, Bool.true_and, hbit i hi.le, hmod,
      show 2 * w.bits - i + n = w.bits - 1 - i + n + (w.bits + 1) by omega, hturn]
  · intro i hi
    rw [maskOutAbove_bit, decide_eq_false (by omega), Bool.false_and]
  · cases w with
    | byte => exact hlast
    | word =>
      simp only [shr_bit]
      exact hlast
    | long => exact absurd hw (by decide)

omit hs in
theorem roxl_shows_long {j : ℕ} (hj : j = n % 33) (hj0 : j ≠ 0) :
    Shows .roxl .long src c n (roxl32 j src (xflagAs1 c)) := by
  have hj33 : j < 33 := hj ▸ Nat.mod_lt n (by decide)
  have hn : 0 < n := by omega
  have hshift : j - 1 < 32 := by omega
  apply shows_linked (by decide) hn ?_ ?_ ?_ (nflag_bit .long _) Iff.rfl
  · intro i hi
    have hi32 : i < 32 := hi
    have hab : ∀ i, 32 ≤ i → src.getLsbD i = false := fun i hi => BitVec.getLsbD_of_ge _ _ hi
    change _ = (if (31 - i + n) % 33 < 32 then src.getLsbD (31 - (31 - i + n) % 33) else c.xFlag.getLsbD 8)
    rw [BitVec.getLsbD_or, BitVec.getLsbD_and, BitVec.getLsbD_or, BitVec.getLsbD_not,
      one_shl_bit hshift, shr_bit, shl_bit _ hi32, shl_bit _ hi32, xflagAs1_bit, decide_eq_true hi32,
      Bool.true_and]
    have hm := add_mod_cases (n := n) (by omega : 31 - i < 33)
    rw [← hj] at hm
    rcases lt_trichotomy j (i + 1) with h | h | h
    · rw [if_pos (by omega)] at hm
      rw [hm, if_pos (by omega), decide_eq_true (by omega : j ≤ i),
        decide_eq_false (by omega : ¬ i = j - 1), decide_eq_false (by omega : ¬ i - (j - 1) = 0),
        hab (33 - j + i) (by omega), show 31 - (31 - i + j) = i - j by omega]
      simp
    · rw [if_pos (by omega)] at hm
      rw [hm, if_neg (by omega), decide_eq_true (by omega : i = j - 1),
        decide_eq_true (by omega : j - 1 ≤ i), decide_eq_true (by omega : i - (j - 1) = 0)]
      simp
    · rw [if_neg (by omega)] at hm
      rw [hm, if_pos (by omega), decide_eq_false (by omega : ¬ j ≤ i),
        decide_eq_false (by omega : ¬ i = j - 1), decide_eq_false (by omega : ¬ j - 1 ≤ i),
        show 31 - (31 - i + j - 33) = 33 - j + i by omega]
      simp
  · intro i hi
    exact BitVec.getLsbD_of_ge _ _ hi
  · have hlast : (n - 1) % 33 = j - 1 := by rw [pred_mod (by decide) hn, if_neg (hj ▸ hj0), hj]
    rw [test_bit src (by omega), ShiftOp.tape, Width.bits, hlast, if_pos (by omega)]
    congr 1
    omega

theorem roxlS_shows (hn : 0 < n) (hn8 : n ≤ 8) : Shows .roxl w src c n (roxlS w n src (xflagAs1 c)) := by
  cases w with
  | byte => exact roxl_shows_narrow hs (by decide) hn (Nat.mod_eq_of_lt (by simp only [Width.bits]; omega)).symm
  | word => exact roxl_shows_narrow hs (by decide) hn (Nat.mod_eq_of_lt (by simp only [Width.bits]; omega)).symm
  | long => exact roxl_shows_long (Nat.mod_eq_of_lt (by omega)).symm hn.ne'

theorem roxlR_shows : Shows .roxl w src c n (roxlR w n src c.xFlag (xflagAs1 c)) := by
  cases w with
  | byte =>
    simp only [roxlR]
    split_ifs with hn
    · exact roxl_shows_narrow hs (by decide) (by omega) rfl
    · exact unextended_shows hs (Or.inr rfl) (by simp at hn; simp [hn])
  | word =>
    simp only [roxlR]
    split_ifs with hn
    · exact roxl_shows_narrow hs (by decide) (by omega) rfl
    · exact unextended_shows hs (Or.inr rfl) (by simp at hn; simp [hn])
  | long =>
    simp only [roxlR]
    split_ifs with hn
    · exact roxl_shows_long rfl hn
    · exact unextended_shows hs (Or.inr rfl) (not_not.mp hn)

end Rotates

end Left

section Memory

variable {src : Long} {c : Core} (hs : src.toNat < 2 ^ Width.word.bits)

include hs

theorem asr_memory : Shows .asr .word src c 1 (ShiftOp.memory .word .asr src c) := by
  have h := asr_shows (c := c) hs Nat.one_pos (by decide) (carry_shl Nat.one_pos (by decide))
  have hm := h.masked
  have htable : shiftTable .word 1 = 0x8000 := by decide
  have hres : (if Width.word.sign src then src >>> 1 ||| 0x8000 else src >>> 1) = asrRes .word 1 src := by
    rw [asrRes, htable]
  rw [ShiftOp.memory]
  simp only [hres, hm]
  exact h

theorem lsr_memory : Shows .lsr .word src c 1 (ShiftOp.memory .word .lsr src c) := by
  have h := lsr_shows (c := c) hs Nat.one_pos (carry_shl Nat.one_pos (by decide))
  have hm := h.masked
  rw [ShiftOp.memory]
  simp only [hm]
  exact h

theorem ror_memory : Shows .ror .word src c 1 (ShiftOp.memory .word .ror src c) := by
  have h := ror_shows (c := c) (j := 1) hs Nat.one_pos rfl (carry_shl Nat.one_pos (by decide))
  have hm : maskOutAbove .word (rorMacro .word 1 src) = rorMacro .word 1 src := h.masked
  rw [ShiftOp.memory]
  simp only [hm]
  exact h

theorem rol_memory : Shows .rol .word src c 1 (ShiftOp.memory .word .rol src c) := by
  have h := rol_shows (c := c) (j := 1) hs Nat.one_pos rfl (shr_bit src 7 8)
  have hm : maskOutAbove .word (rolMacro .word 1 src) = rolMacro .word 1 src := h.masked
  rw [ShiftOp.memory]
  simp only [hm]
  exact h

theorem memory_shows (k : ShiftOp) : Shows k .word src c 1 (k.memory .word src c) := by
  have hleft : (src >>> 7).getLsbD 8 = (decide (1 ≤ Width.word.bits) && src.getLsbD (Width.word.bits - 1)) := by
    rw [shr_bit]
    rfl
  cases k with
  | asr => exact asr_memory hs
  | asl =>
    rw [ShiftOp.memory]
    simp only [masked_twice]
    exact lsl_shows (Or.inl rfl) Nat.one_pos hleft
  | lsr => exact lsr_memory hs
  | lsl =>
    rw [ShiftOp.memory]
    simp only [masked_twice]
    exact lsl_shows (Or.inr rfl) Nat.one_pos hleft
  | ror => exact ror_memory hs
  | rol => exact rol_memory hs
  | roxr => exact roxr_shows_narrow hs (by decide) Nat.one_pos rfl
  | roxl => exact roxl_shows_narrow hs (by decide) Nat.one_pos rfl

end Memory

end Tosemu.M68k
