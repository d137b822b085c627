import Tosemu.SupexecRuns

/-!
The 68000 has 24 address lines: its core masks an address before the area list sees it. The helpers
of the OS calls hand the same list all 32 bits.
-/

namespace Tosemu

def m68kiRead8 (address : Long) (m : Machine) : Long × Machine :=
  m68kReadMemory8 (address68k address) m

def m68kiWrite8 (address value : Long) (m : Machine) : Machine :=
  m68kWriteMemory8 (address68k address) value m

def Machine.running (m : Machine) : Machine := { m with keepongoing := true }

/-- Whether an access halts the emulator is asked of a machine that still runs. -/
structure SameRead (m : Machine) (a : Long) : Prop where
  byte : (m68kReadDisassembler8 a m).1 = (m68kiRead8 a m).1
  halting : (m68kReadDisassembler8 a m.running).2.keepongoing =
    (m68kiRead8 a m.running).2.keepongoing

structure SameWrite (m : Machine) (a v : Long) : Prop where
  memory : (m68kWriteMemory8 a v m).memory = (m68kiWrite8 a v m).memory
  halting : (m68kWriteMemory8 a v m.running).keepongoing = (m68kiWrite8 a v m.running).keepongoing

section Refused

variable {m : Machine} {x : Long}

theorem m68kReadDisassembler8_refused (h : memFlags m.memory x &&& m.readMask = 0) :
    m68kReadDisassembler8 x m = (0, m.haltExecution) := by
  rw [m68kReadDisassembler8, tosRead, tosReadWith_refused _ h]
  rfl

theorem m68kWriteMemory8_refused (h : memFlags m.memory x &&& m.writeMask = 0) (v : Long) :
    m68kWriteMemory8 x v m = m.haltExecution := by
  have hw : ¬ Writable m x := fun hw => hw.2 h
  rw [m68kWriteMemory8, tosWrite_eq, if_neg hw]

end Refused

section TosMap

variable {b : TosBuffers} {m : Machine}

theorem memFlags_above (hm : m.memory = registerAreas b) {a : Long} (ha : 2 ^ 24 ≤ a.toNat) :
    memFlags m.memory a = 0 := by
  have hsize : 0x900 + tosSize.toNat = 0xF9FFFF := by decide
  rw [hm, memFlags, findMemarea_registerAreas, tosLookup, hsize]
  rw [if_neg (by omega), if_neg (by omega), if_neg (by omega), if_neg (by omega), if_neg (by omega),
    if_neg (by omega)]
  rfl

theorem memFlags_unbacked (hm : m.memory = registerAreas b) {x : Long}
    (hx : memByte m.memory x = none) :
    memFlags m.memory x = 0 ∨ (x = 0x200 ∨ x = 0x201) ∧ memFlags m.memory x = MEMORY_SUPERREAD := by
  rw [hm, memByte, findMemarea_registerAreas, tosLookup] at hx
  rw [hm, memFlags, findMemarea_registerAreas, tosLookup]
  split_ifs at hx ⊢ with h0 h1
  · simp [Memarea.byteAt] at hx
  · right
    refine ⟨?_, rfl⟩
    obtain h | h : x.toNat = 0x200 ∨ x.toNat = 0x201 := by omega
    · exact Or.inl (BitVec.eq_of_toNat_eq h)
    · exact Or.inr (BitVec.eq_of_toNat_eq h)
  · simp [Memarea.byteAt] at hx
  · simp [Memarea.byteAt] at hx
  · simp [Memarea.byteAt] at hx
  · simp [userram, Memarea.byteAt] at hx
  · left
    rfl

theorem tosRead_admitted (hm : m.memory = registerAreas b) {x : Long}
    (h : memFlags m.memory x &&& m.readMask ≠ 0) :
    (tosRead x m).1 ≠ 0 ∨ (tosRead x m.running).2.keepongoing = true := by
  cases hx : memByte m.memory x with
  | some v =>
    right
    have hr : Readable m.running x := ⟨by rw [Machine.running, hx]; rfl, h⟩
    rw [tosRead, tosReadWith_readable _ hr]
    rfl
  | none =>
    left
    obtain h0 | ⟨hmagic, hflags⟩ := memFlags_unbacked hm hx
    · exact absurd (by simp [h0]) h
    · have hs : m.cpu.sFlag = true := by
        by_contra hs
        rw [hflags, Machine.readMask, Cpu.isSupervisorModeEnabled_eq, if_neg hs] at h
        exact h (by decide)
      rcases hmagic with rfl | rfl
      · rw [tosRead_first hm hs]
        exact (by decide : (0x4e : Byte) ≠ 0)
      · rw [tosRead_second hm hs]
        exact (by decide : (0x71 : Byte) ≠ 0)

theorem writable_iff (hm : m.memory = registerAreas b) (x : Long) :
    Writable m x ↔ memFlags m.memory x &&& m.writeMask ≠ 0 := by
  refine ⟨fun h => h.2, fun h => ⟨?_, h⟩⟩
  by_contra hx
  obtain h0 | ⟨-, hflags⟩ := memFlags_unbacked hm (by simpa using hx)
  · exact h (by simp [h0])
  · apply h
    rw [hflags, Machine.writeMask]
    split_ifs <;> decide

theorem m68kReadDisassembler8_above (hm : m.memory = registerAreas b) {a : Long}
    (ha : 2 ^ 24 ≤ a.toNat) : m68kReadDisassembler8 a m = (0, m.haltExecution) := by
  apply m68kReadDisassembler8_refused
  rw [memFlags_above hm ha]
  exact BitVec.zero_and

theorem m68kWriteMemory8_above (hm : m.memory = registerAreas b) {a : Long}
    (ha : 2 ^ 24 ≤ a.toNat) (v : Long) : m68kWriteMemory8 a v m = m.haltExecution := by
  apply m68kWriteMemory8_refused
  rw [memFlags_above hm ha]
  exact BitVec.zero_and

theorem sameRead_above (hm : m.memory = registerAreas b) {a : Long} (ha : 2 ^ 24 ≤ a.toNat) :
    SameRead m a ↔ memFlags m.memory (address68k a) &&& m.readMask = 0 := by
  have hos := m68kReadDisassembler8_above hm ha
  have hosRun := m68kReadDisassembler8_above (m := m.running) hm ha
  constructor
  · intro h
    have hbyte := h.byte
    have hhalt := h.halting
    rw [hos, m68kiRead8, m68kReadMemory8, m68kReadDisassembler8] at hbyte
    rw [hosRun, m68kiRead8, m68kReadMemory8, m68kReadDisassembler8] at hhalt
    by_contra hadmit
    rcases tosRead_admitted hm hadmit with hne | hgo
    · have hlow := congrArg (BitVec.setWidth 8) hbyte
      rw [BitVec.setWidth_setWidth_of_le _ (by decide), BitVec.setWidth_eq] at hlow
      exact hne hlow.symm
    · rw [hgo] at hhalt
      exact Bool.false_ne_true hhalt
  · intro h
    constructor
    · rw [hos, m68kiRead8, m68kReadMemory8, m68kReadDisassembler8_refused h]
    · rw [hosRun, m68kiRead8, m68kReadMemory8, m68kReadDisassembler8_refused (m := m.running) h]

theorem sameWrite_above (hm : m.memory = registerAreas b) {a : Long} (ha : 2 ^ 24 ≤ a.toNat)
    (v : Long) : SameWrite m a v ↔ memFlags m.memory (address68k a) &&& m.writeMask = 0 := by
  have hos := m68kWriteMemory8_above hm ha v
  have hosRun := m68kWriteMemory8_above (m := m.running) hm ha v
  constructor
  · intro h
    have hhalt := h.halting
    by_contra hadmit
    have hw : Writable m.running (address68k a) := (writable_iff (m := m.running) hm _).mpr hadmit
    rw [hosRun, m68kiWrite8, m68kWriteMemory8, tosWrite_eq, if_pos hw] at hhalt
    exact Bool.false_ne_true hhalt
  · intro h
    constructor
    · rw [hos, m68kiWrite8, m68kWriteMemory8_refused h]
    · rw [hosRun, m68kiWrite8, m68kWriteMemory8_refused (m := m.running) h]

end TosMap

theorem same_memory_iff (b : TosBuffers) (m : Machine) (hm : m.memory = registerAreas b) (a : Long) :
    (SameRead m a ↔ a.toNat < 2 ^ 24 ∨ memFlags m.memory (address68k a) &&& m.readMask = 0) ∧
      ∀ v, SameWrite m a v ↔
        a.toNat < 2 ^ 24 ∨ memFlags m.memory (address68k a) &&& m.writeMask = 0 := by
  by_cases ha : a.toNat < 2 ^ 24
  · simp only [ha, true_or, iff_true]
    constructor
    · constructor <;> rw [m68kiRead8, address68k_eq ha] <;> rfl
    · intro v
      constructor <;> rw [m68kiWrite8, address68k_eq ha]
  · have ha' : 2 ^ 24 ≤ a.toNat := by omega
    simp only [ha, false_or]
    exact ⟨sameRead_above hm ha', sameWrite_above hm ha'⟩

theorem same_memory_low :
    (SameRead (coldMachine (supervisorFilled 0)) 0x900 ∧
        ∀ v, SameWrite (coldMachine (supervisorFilled 0)) 0x900 v) ∧
      SameRead (coldMachine (supervisorFilled 0)) 0x01000600 ∧
        ∀ v, SameWrite (coldMachine (supervisorFilled 0)) 0x01000600 v := by
  have hlow := same_memory_iff (supervisorFilled 0) (coldMachine (supervisorFilled 0)) rfl 0x900
  have hhigh := same_memory_iff (supervisorFilled 0) (coldMachine (supervisorFilled 0)) rfl 0x01000600
  have hrefused : memFlags (coldMachine (supervisorFilled 0)).memory (address68k 0x01000600) &&&
        (coldMachine (supervisorFilled 0)).readMask = 0 ∧
      memFlags (coldMachine (supervisorFilled 0)).memory (address68k 0x01000600) &&&
        (coldMachine (supervisorFilled 0)).writeMask = 0 := by
    decide
  exact ⟨⟨hlow.1.mpr (Or.inl (by decide)), fun v => (hlow.2 v).mpr (Or.inl (by decide))⟩,
    hhigh.1.mpr (Or.inr hrefused.1), fun v => (hhigh.2 v).mpr (Or.inr hrefused.2)⟩

theorem top_byte_unseen : ¬ ∀ (b : TosBuffers) (m : Machine), m.memory = registerAreas b →
    ∀ a : Long, a ≠ 0x200 → a ≠ 0x201 → SameRead m a ∧ ∀ v, SameWrite m a v := by
  intro hall
  have hread := (hall (supervisorFilled 0) (coldMachine (supervisorFilled 0)) rfl 0x01000900
    (by decide) (by decide)).1
  have hiff := sameRead_above (b := supervisorFilled 0) (m := coldMachine (supervisorFilled 0))
    (a := 0x01000900) rfl (by decide)
  exact absurd (hiff.mp hread) (by decide)

end Tosemu
