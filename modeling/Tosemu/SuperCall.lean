import Mathlib.Tactic.IntervalCases
import Tosemu.GemdosTrap

namespace Tosemu.Cpu

section StatusBits

variable (value : Long) (c : Core)

theorem and_four_iff : value &&& 4 = 0 ↔ value.getLsbD 2 = false := by
  have hb : (4 : Long) = BitVec.twoPow 32 2 := by decide
  rw [hb, BitVec.and_twoPow]
  cases value.getLsbD 2 <;> decide

theorem onBit_eq_zero (p : Bool) : onBit p 1 = 0 ↔ p = false := by
  cases p <;> decide

theorem setCcr_notZFlag : (setCcr value c).notZFlag = 0 ↔ value.getLsbD 2 = true := by
  rw [setCcr, onBit_eq_zero, decide_eq_false_iff_not, and_four_iff, Bool.not_eq_false]

theorem getSr_setReg (i : Fin 8) : getSr (m68kSetReg (.d i) value c) = getSr c := rfl

theorem getSr_setSr : getSr (setSr value c) = value &&& srMask := by
  have hz : (setSr value c).notZFlag = 0 ↔ (value &&& srMask).getLsbD 2 = true :=
    setCcr_notZFlag (value &&& srMask) c
  apply BitVec.eq_of_getLsbD_eq
  intro i hi
  simp only [getSr, hz]
  interval_cases i <;> simp [setSr, setCcr, setSmFlag, srMask]

theorem getSr_masked (ht0 : c.t0Flag = false) (hm : c.mFlag = false) :
    getSr c &&& srMask = getSr c := by
  apply BitVec.eq_of_getLsbD_eq
  intro i hi
  simp only [getSr, ht0, hm]
  interval_cases i <;> simp [srMask]

end StatusBits

def superCore (lv0 : Long) (c : Core) : Core :=
  if lv0 = 0 then m68kSetReg (.d 0) (c.a 7) (enableSupervisorMode c)
  else if lv0 = 1 then m68kSetReg (.d 0) (onBit c.sFlag 1) c
  else m68kSetReg (.d 0) 0 (disableSupervisorMode (m68kSetReg .usp lv0 c))

structure SameRegisters (c c' : Core) : Prop where
  d : ∀ i, i ≠ 0 → c'.d i = c.d i
  a : ∀ i, i ≠ 7 → c'.a i = c.a i
  pc : c'.pc = c.pc
  msp : c'.sp .msp = c.sp .msp

structure Raised (c c' : Core) : Prop where
  result : c'.d 0 = c.a 7
  sr : getSr c' = getSr c ||| 0x2000
  ssp : c'.a 7 = c.sp .isp
  usp : c'.sp .usp = c.a 7
  others : SameRegisters c c'

structure Lowered (usp : Long) (c c' : Core) : Prop where
  result : c'.d 0 = 0
  user : c'.sFlag = false
  codes : getSr c' &&& 0x71f = getSr c &&& 0x71f
  usp : c'.a 7 = usp
  isp : c'.sp .isp = c.a 7
  others : SameRegisters c c'

section Modes

variable {c : Core}

theorem superCore_raises (hu : c.sFlag = false) (ht0 : c.t0Flag = false) (hm : c.mFlag = false) :
    Raised c (superCore 0 c) := by
  have hbank : bank c.sFlag c.mFlag = .usp := by rw [hu]; rfl
  have hisp : bank true false = .isp := rfl
  have hmask : (0x2000 : Long) &&& srMask = 0x2000 := by decide
  have heq : superCore 0 c = m68kSetReg (.d 0) (c.a 7) (setSr (getSr c ||| 0x2000) c) := rfl
  have hsr : getSr (superCore 0 c) = getSr c ||| 0x2000 := by
    refine (getSr_setSr (getSr c ||| 0x2000) c).trans ?_
    rw [BitVec.and_or_distrib_right, getSr_masked c ht0 hm, hmask]
  rw [heq] at hsr ⊢
  refine ⟨?_, hsr, ?_, ?_, ⟨?_, ?_, ?_, ?_⟩⟩
  · simp [m68kSetReg]
  · simp [m68kSetReg, hbank, hisp]
  · simp [m68kSetReg, hbank]
  · intro i hi
    simp [m68kSetReg, hi]
  · intro i hi
    simp [m68kSetReg, hi]
  · rfl
  · simp [m68kSetReg, hbank]

theorem superCore_lowers (hs : c.sFlag = true) (hm : c.mFlag = false) {usp : Long} (h0 : usp ≠ 0)
    (h1 : usp ≠ 1) : Lowered usp c (superCore usp c) := by
  have hbank : bank c.sFlag c.mFlag = .isp := by rw [hs, hm]; rfl
  have husp : bank false false = .usp := rfl
  have heq : superCore usp c = m68kSetReg (.d 0) 0
      (setSr (getSr c &&& ~~~0x2000) { c with sp := Function.update c.sp .usp usp }) := by
    have husp : m68kSetReg .usp usp c = { c with sp := Function.update c.sp .usp usp } := if_pos hs
    rw [superCore, if_neg h0, if_neg h1, disableSupervisorMode, husp]
    rfl
  have hmask : (~~~0x2000 : Long) &&& srMask &&& 0x71f = 0x71f := by decide
  have hsr : getSr (superCore usp c) &&& 0x71f = getSr c &&& 0x71f := by
    rw [heq, getSr_setReg, getSr_setSr, BitVec.and_assoc, BitVec.and_assoc, ← BitVec.and_assoc (~~~0x2000), hmask]
  refine ⟨?_, ?_, hsr, ?_, ?_, ⟨?_, ?_, ?_, ?_⟩⟩
  · simp [heq, m68kSetReg]
  · simp [heq, m68kSetReg]
  · simp [heq, m68kSetReg, hbank, husp]
  · simp [heq, m68kSetReg, hbank]
  · intro i hi
    simp [heq, m68kSetReg, hi]
  · intro i hi
    simp [heq, m68kSetReg, hi]
  · rw [heq]
    rfl
  · simp [heq, m68kSetReg, hbank]

end Modes

end Tosemu.Cpu

namespace Tosemu

open Cpu

def CallsSuper (m : Machine) (lv0 : Long) : Prop :=
  (peekU16 0 m).1 = 0x20 ∧ (peekU32 2 (peekU16 0 m).2).1 = lv0

def afterArgs (m : Machine) : Machine := (peekU32 2 (peekU16 0 m).2).2

section Arguments

variable {m : Machine}

theorem gemdosSuper_core {lv0 : Long} (h : (peekU32 2 m).1 = lv0) :
    ((gemdosSuper m).2.setReg (.d 0) (gemdosSuper m).1).cpu = superCore lv0 (peekU32 2 m).2.cpu ∧
      (gemdosSuper m).2.memory = (peekU32 2 m).2.memory := by
  unfold gemdosSuper superCore
  simp only [h]
  by_cases h0 : lv0 = 0
  · simp only [if_pos h0]
    exact ⟨rfl, rfl⟩
  · by_cases h1 : lv0 = 1
    · simp only [if_neg h0, if_pos h1, isSupervisorModeEnabled_eq]
      exact ⟨rfl, trivial⟩
    · simp only [if_neg h0, if_neg h1]
      exact ⟨rfl, rfl⟩

theorem gemdosTrap_superCore (other : String → Machine → Long × Machine) (beyond : GemdosFunction)
    {lv0 : Long} (hcall : CallsSuper m lv0) (hsame : SameState m (afterArgs m)) :
    (gemdosTrap other beyond m).cpu = superCore lv0 m.cpu ∧
      (gemdosTrap other beyond m).memory = m.memory := by
  obtain ⟨hcpu, hmem⟩ := gemdosSuper_core hcall.2
  rw [gemdosTrap_super other beyond hcall.1, ← hsame.cpu, ← hsame.memory]
  exact ⟨hcpu, hmem⟩

theorem afterArgs_user (h : UserMap m) : SameState m (afterArgs m) := by
  have hword : ∃ ok, (peekU16 0 m).2 = haltUnless ok m := by
    rw [peekU16, m68kReadDisassembler16, readLoop_plain _ _ _ _ (fun i _ => h.plain _)]
    exact ⟨_, rfl⟩
  obtain ⟨ok, hok⟩ := hword
  obtain ⟨ok', hok'⟩ := peekU32_user (m := haltUnless ok m) ⟨h.user, h.sound⟩ 2
  rw [afterArgs, hok, hok', haltUnless_haltUnless]
  exact ⟨rfl, rfl, rfl, rfl⟩

theorem afterArgs_readable (h : ∀ k < 6, Readable m (m.cpu.a 7 + BitVec.ofNat 32 k)) :
    SameState m (afterArgs m) := by
  have hword : (peekU16 0 m).2 = m := by
    rw [peekU16, m68kReadDisassembler16, readLoop_readable]
    intro k hk
    have hzero : m.getReg (.a 7) + 0 = m.cpu.a 7 := BitVec.add_zero _
    rw [hzero]
    exact h k (by omega)
  have hlong : (peekU32 2 m).2 = m := by
    rw [peekU32, m68kReadDisassembler32, readLoop_readable]
    intro k hk
    have hadd := h (2 + k) (by omega)
    rwa [BitVec.ofNat_add, ← BitVec.add_assoc] at hadd
  rw [afterArgs, hword, hlong]
  exact SameState.refl m

end Arguments

section Magic

variable {b : TosBuffers} {m : Machine}

theorem low_byte (res : Long) (v : Byte) : ((res <<< 8) ||| v.setWidth 32).setWidth 8 = v := by
  apply BitVec.eq_of_getLsbD_eq
  intro i hi
  simp [hi]

theorem readLoop_last (n : ℕ) (a res : Long) :
    ((readLoop tosRead (n + 1) a res m).1).setWidth 8 =
      (tosRead (a + BitVec.ofNat 32 n) (readLoop tosRead n a res m).2).1 := by
  induction n generalizing a res m with
  | zero =>
    simp only [readLoop, BitVec.add_zero]
    exact low_byte _ _
  | succ n ih =>
    rw [readLoop, ih, succ_add_ofNat]
    rfl

theorem tosRead_around (hm : m.memory = registerAreas b) {k : ℕ} (hk : k < 4) :
    (tosRead (0x201 + BitVec.ofNat 32 k) m).1 = 0 ∨ (tosRead (0x201 + BitVec.ofNat 32 k) m).1 = 0x71 := by
  have hnat : (0x201 + BitVec.ofNat 32 k : Long).toNat = 0x201 + k := by
    rw [BitVec.toNat_add, BitVec.toNat_ofNat]
    have h201 : (0x201 : Long).toNat = 0x201 := rfl
    omega
  by_cases h0 : k = 0
  · subst h0
    rw [BitVec.add_zero]
    cases hs : m.cpu.sFlag with
    | false =>
      have hnone : memByte m.memory 0x201 = none := by
        rw [memByte, hm, findMemarea_registerAreas]
        rfl
      left
      rw [tosRead_plain ((registerAreas_userMap b hm hs).plain _)]
      refine if_neg (fun hr => ?_)
      rw [Readable, hnone] at hr
      exact Bool.false_ne_true hr.1
    | true =>
      rw [tosRead_second hm hs]
      exact Or.inr rfl
  · have hfind : findMemarea m.memory (0x201 + BitVec.ofNat 32 k) = none := by
      rw [hm, findMemarea_registerAreas, hnat, tosLookup, if_neg (by omega), if_neg (by omega),
        if_neg (by omega), if_neg (by omega), if_neg (by omega), if_neg (by omega)]
    left
    simp only [tosRead, tosReadWith, hfind]

theorem readLoop_around (hm : m.memory = registerAreas b) {n : ℕ} (hn : n < 4) {a : Long} {k : ℕ}
    (hk : k ≤ n) (ha : a + BitVec.ofNat 32 k = 0x201) :
    ((readLoop tosRead (n + 1) a 0 m).1).setWidth 8 = (0 : Byte) ∨
      ((readLoop tosRead (n + 1) a 0 m).1).setWidth 8 = (0x71 : Byte) := by
  have hlast : a + BitVec.ofNat 32 n = 0x201 + BitVec.ofNat 32 (n - k) := by
    rw [← ha, BitVec.add_assoc, ← BitVec.ofNat_add, Nat.add_sub_cancel' hk]
  rw [readLoop_last, hlast]
  exact tosRead_around ((readLoop_sFlag hm n a 0).1.trans hm) (by omega)

theorem readLoop_quiet {n : ℕ} {a : Long} (h : ∀ k < n, a + BitVec.ofNat 32 k ≠ 0x201) :
    SameState m (readLoop tosRead n a 0 m).2 := by
  rw [readLoop_congr (fun k hk m => tosRead_off (h k hk) m)]
  exact readLoop_sameState reentry_quiet n a 0 m

theorem afterArgs_one (hm : m.memory = registerAreas b) (hcall : CallsSuper m 1) :
    SameState m (afterArgs m) := by
  obtain ⟨hid, harg⟩ := hcall
  have hword : SameState m (peekU16 0 m).2 := by
    apply readLoop_quiet
    intro k hk ha
    have hlow : (readLoop tosRead 2 (m.getReg (.a 7) + 0) 0 m).1.setWidth 8 = (0x20 : Byte) :=
      (BitVec.setWidth_setWidth_of_le _ (by decide)).symm.trans (congrArg (BitVec.setWidth 8) hid)
    rcases readLoop_around hm (n := 1) (by decide) (by omega) ha with h | h
    · exact absurd (hlow.symm.trans h) (by decide)
    · exact absurd (hlow.symm.trans h) (by decide)
  have hlong : SameState (peekU16 0 m).2 (afterArgs m) := by
    apply readLoop_quiet
    intro k hk ha
    have hlow := congrArg (BitVec.setWidth 8) harg
    rcases readLoop_around (hword.memory.trans hm) (n := 3) (by decide) (by omega) ha with h | h
    · exact absurd (hlow.symm.trans h) (by decide)
    · exact absurd (hlow.symm.trans h) (by decide)
  exact hword.trans hlong

end Magic

/-- A trap `Super(r)` in supervisor mode, whatever the program has done there. The 68000 never sets the
master bit. -/
structure ReturnsSuper (r : Long) (m : Machine) : Prop where
  supervisor : m.cpu.sFlag = true
  master : m.cpu.mFlag = false
  readable : ∀ k < 6, Readable m (m.cpu.a 7 + BitVec.ofNat 32 k)
  call : CallsSuper m r

theorem super_protocol (other : String → Machine → Long × Machine) (beyond : GemdosFunction)
    (b : TosBuffers) (m : Machine) (hm : m.memory = registerAreas b) (hu : m.cpu.sFlag = false)
    (ht0 : m.cpu.t0Flag = false) (hmaster : m.cpu.mFlag = false) (h0 : m.cpu.a 7 ≠ 0)
    (h1 : m.cpu.a 7 ≠ 1) (hcall : CallsSuper m 0) :
    let m₁ := gemdosTrap other beyond m
    (Raised m.cpu m₁.cpu ∧ m₁.memory = m.memory) ∧
      (∀ m', ReturnsSuper (m₁.cpu.d 0) m' →
        Lowered (m.cpu.a 7) m'.cpu (gemdosTrap other beyond m').cpu ∧
          (gemdosTrap other beyond m').memory = m'.memory) ∧
      ∀ b' m', m'.memory = registerAreas b' → CallsSuper m' 1 →
        (gemdosTrap other beyond m').cpu =
            { m'.cpu with d := Function.update m'.cpu.d 0 (if m'.cpu.sFlag then 1 else 0) } ∧
          (gemdosTrap other beyond m').memory = m'.memory := by
  intro m₁
  have hraised : Raised m.cpu m₁.cpu ∧ m₁.memory = m.memory := by
    obtain ⟨hcpu, hmem⟩ := gemdosTrap_superCore other beyond hcall
      (afterArgs_user (registerAreas_userMap b hm hu))
    exact ⟨hcpu ▸ superCore_raises hu ht0 hmaster, hmem⟩
  refine ⟨hraised, ?_, ?_⟩
  · intro m' h
    obtain ⟨hcpu, hmem⟩ := gemdosTrap_superCore other beyond h.call (afterArgs_readable h.readable)
    rw [hraised.1.result] at hcpu
    exact ⟨hcpu ▸ superCore_lowers h.supervisor h.master h0 h1, hmem⟩
  · intro b' m' hm' hcall'
    exact gemdosTrap_superCore other beyond hcall' (afterArgs_one hm' hcall')

def superBuffers : TosBuffers where
  staticmem0 := ⟨0x200, fun _ => 0xff⟩
  staticmem1 := ⟨0x600 - 0x380, fun _ => 0xff⟩
  bp := ⟨256, fun _ => 0xff⟩
  -- `Super(0)` at 0x1000 and `Super(0x1000)` at 0x700
  appmem := ⟨tosSize.toNat, fun i => if i = 0x701 then 0x20 else 0⟩
  supermem := ⟨512, fun i => if i = 0x101 then 0x20 else if i = 0x104 then 0x10 else 0⟩
  staticmem0_size := rfl
  staticmem1_size := rfl
  bp_size := rfl
  appmem_size := rfl
  supermem_size := rfl

def superMachine : Machine :=
  { coldMachine superBuffers with
    cpu := { coldCore with a := fun _ => 0x1000, sp := fun _ => 0x700, nFlag := 0x80, notZFlag := 3 } }

theorem super_protocol_twice :
    let trap := gemdosTrap (fun _ m => (0, m)) ⟨"", none, 0⟩
    (trap (trap superMachine)).cpu.a 7 = 0x1000 ∧ (trap (trap superMachine)).cpu.sFlag = false := by
  intro trap
  have h := super_protocol (fun _ m => (0, m)) ⟨"", none, 0⟩ superBuffers superMachine rfl rfl rfl rfl
    (by decide) (by decide) ⟨by decide +kernel, by decide +kernel⟩
  have hreturns : ReturnsSuper ((trap superMachine).cpu.d 0) (trap superMachine) :=
    ⟨by decide +kernel, by decide +kernel, by decide +kernel, by decide +kernel, by decide +kernel⟩
  obtain ⟨hlowered, -⟩ := h.2.1 _ hreturns
  exact ⟨hlowered.usp, hlowered.user⟩

end Tosemu
