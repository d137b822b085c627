import Mathlib.Tactic.FinCases
import Tosemu.UserIsolation

namespace Tosemu

open Cpu

structure SameState (m m' : Machine) : Prop where
  cpu : m'.cpu = m.cpu
  memory : m'.memory = m.memory
  dreg : m'.dreg = m.dreg
  areg : m'.areg = m.areg

theorem SameState.refl (m : Machine) : SameState m m := ⟨rfl, rfl, rfl, rfl⟩

theorem SameState.trans {m m' m'' : Machine} (h : SameState m m') (h' : SameState m' m'') :
    SameState m m'' :=
  ⟨h'.cpu.trans h.cpu, h'.memory.trans h.memory, h'.dreg.trans h.dreg, h'.areg.trans h.areg⟩

def Quiet (read : ByteRead) : Prop := ∀ x m, SameState m (read x m).2

theorem readLoop_sameState {read : ByteRead} (h : Quiet read) (n : ℕ) (a res : Long) (m : Machine) :
    SameState m (readLoop read n a res m).2 := by
  induction n generalizing a res m with
  | zero => exact SameState.refl m
  | succ n ih => exact (h a m).trans (ih _ _ _)

theorem magicReentry_quiet : Quiet magicReentry := by
  intro x m
  unfold magicReentry
  split_ifs <;> exact ⟨rfl, rfl, rfl, rfl⟩

theorem tosReadWith_elim {P : Byte × Machine → Prop} {magic : ByteRead} {x : Long} {m : Machine}
    (hhalt : P (0, m.haltExecution)) (hbyte : ∀ v, P (v, m)) (hmagic : P (magic x m)) :
    P (tosReadWith magic x m) := by
  unfold tosReadWith
  cases findMemarea m.memory x with
  | none => exact hhalt
  | some area =>
    by_cases ha : area.flags &&& m.readMask ≠ 0
    · simp only
      rw [if_pos ha]
      cases area.handler with
      | ptr buf => exact hbyte _
      | supexec => exact hmagic
    · simp only
      rw [if_neg ha]
      exact hhalt

theorem tosReadWith_quiet {magic : ByteRead} (h : Quiet magic) : Quiet (tosReadWith magic) :=
  fun x m => tosReadWith_elim (P := fun r => SameState m r.2) ⟨rfl, rfl, rfl, rfl⟩
    (fun _ => SameState.refl m) (h x m)

theorem reentry_quiet : Quiet (tosReadWith magicReentry) := tosReadWith_quiet magicReentry_quiet

section Magic

variable {b : TosBuffers} {m : Machine}

theorem supervisor_readMask (hs : m.cpu.sFlag = true) : m.readMask = MEMORY_READ ||| MEMORY_SUPERREAD := by
  simp [Machine.readMask, isSupervisorModeEnabled_eq, hs]

theorem tosReadWith_magic (magic : ByteRead) (hm : m.memory = registerAreas b)
    (hs : m.cpu.sFlag = true) {x : Long} (hx : x = 0x200 ∨ x = 0x201) :
    tosReadWith magic x m = magic x m := by
  have hfind : findMemarea m.memory x = some ⟨0x200, 0x2, .supexec, MEMORY_SUPERREAD⟩ := by
    rw [hm, findMemarea_registerAreas]
    rcases hx with rfl | rfl <;> rfl
  have hmask : MEMORY_SUPERREAD &&& (MEMORY_READ ||| MEMORY_SUPERREAD) ≠ 0 := by decide
  simp only [tosReadWith, hfind, supervisor_readMask hs]
  rw [if_pos hmask]

def supexecReturn (value : Long) (m : Machine) : Machine :=
  restoreRegs (m.disableSupervisorMode.setReg .pc value)

theorem setReg_memory (r : Reg) (value : Long) (m : Machine) :
    (m.setReg r value).memory = m.memory := rfl

theorem setReg_keepongoing (r : Reg) (value : Long) (m : Machine) :
    (m.setReg r value).keepongoing = m.keepongoing := rfl

theorem magicXbiosSupexecReadWith_second (read : ByteRead) (m : Machine) :
    magicXbiosSupexecReadWith read 0x201 m =
      (0x71, supexecReturn (popU32With read m).1 (popU32With read m).2) := rfl

theorem tosRead_first (hm : m.memory = registerAreas b) (hs : m.cpu.sFlag = true) :
    tosRead 0x200 m = (0x4e, m) := tosReadWith_magic _ hm hs (Or.inl rfl)

theorem tosRead_second (hm : m.memory = registerAreas b) (hs : m.cpu.sFlag = true) :
    tosRead 0x201 m =
      let r := popU32With (tosReadWith magicReentry) m
      (0x71, supexecReturn r.1 r.2) := tosReadWith_magic _ hm hs (Or.inr rfl)

end Magic

section Registers

variable (value : Long) (m : Machine)

@[simp] theorem restoreRegs_sFlag : (restoreRegs m).cpu.sFlag = m.cpu.sFlag := rfl

theorem restoreRegs_mFlag : (restoreRegs m).cpu.mFlag = m.cpu.mFlag := rfl

@[simp] theorem restoreRegs_pc : (restoreRegs m).cpu.pc = m.cpu.pc := rfl

@[simp] theorem restoreRegs_sp : (restoreRegs m).cpu.sp = m.cpu.sp := rfl

@[simp] theorem restoreRegs_memory : (restoreRegs m).memory = m.memory := rfl

theorem restoreRegs_keepongoing : (restoreRegs m).keepongoing = m.keepongoing := rfl

theorem supexecReturn_memory : (supexecReturn value m).memory = m.memory := by
  rw [supexecReturn, restoreRegs_memory, setReg_memory]
  rfl

theorem supexecReturn_keepongoing : (supexecReturn value m).keepongoing = m.keepongoing := by
  rw [supexecReturn, restoreRegs_keepongoing, setReg_keepongoing]
  rfl

@[simp] theorem restoreRegs_a7 : (restoreRegs m).cpu.a 7 = m.cpu.a 7 := rfl

@[simp] theorem restoreRegs_d (i : Fin 5) : (restoreRegs m).cpu.d (dregNumber i) = m.dreg i := by
  fin_cases i <;> rfl

@[simp] theorem restoreRegs_a (i : Fin 4) : (restoreRegs m).cpu.a (aregNumber i) = m.areg i := by
  fin_cases i <;> rfl

end Registers

/-- A longword at this address does not touch the byte that triggers the callback. -/
def OffMagic (a : Long) : Prop := ∀ k < 4, a + BitVec.ofNat 32 k ≠ 0x201

instance (a : Long) : Decidable (OffMagic a) := inferInstanceAs (Decidable (∀ k < 4, _))

theorem readLoop_congr {read read' : ByteRead} {n : ℕ} {a : Long}
    (h : ∀ k < n, ∀ m, read (a + BitVec.ofNat 32 k) m = read' (a + BitVec.ofNat 32 k) m)
    (res : Long) (m : Machine) : readLoop read n a res m = readLoop read' n a res m := by
  induction n generalizing a res m with
  | zero => rfl
  | succ n ih =>
    have h0 := h 0 (by omega) m
    rw [BitVec.add_zero] at h0
    rw [readLoop, readLoop, h0]
    apply ih
    intro k hk m
    rw [succ_add_ofNat]
    exact h (k + 1) (by omega) m

theorem tosRead_off {x : Long} (hx : x ≠ 0x201) (m : Machine) :
    tosRead x m = tosReadWith magicReentry x m := by
  have hmagic : magicXbiosSupexecRead x m = magicReentry x m := by
    simp only [magicXbiosSupexecRead, magicXbiosSupexecReadWith, magicReentry, if_neg hx]
  unfold tosRead tosReadWith
  simp only [hmagic]

theorem readLoop_off {a : Long} (h : OffMagic a) (res : Long) (m : Machine) :
    readLoop tosRead 4 a res m = readLoop (tosReadWith magicReentry) 4 a res m :=
  readLoop_congr (fun k hk m => tosRead_off (h k hk) m) res m

theorem readLoop_value (n : ℕ) (a res : Long) {m m' : Machine} (hmem : m'.memory = m.memory)
    (hs : m'.cpu.sFlag = m.cpu.sFlag) :
    (readLoop (tosReadWith magicReentry) n a res m').1 =
      (readLoop (tosReadWith magicReentry) n a res m).1 := by
  induction n generalizing a res m m' with
  | zero => rfl
  | succ n ih =>
    have hv : (tosReadWith magicReentry a m').1 = (tosReadWith magicReentry a m).1 := by
      have hmask : m'.readMask = m.readMask := by
        simp only [Machine.readMask, isSupervisorModeEnabled_eq, hs]
      have hmagic : (magicReentry a m').1 = (magicReentry a m).1 := by
        unfold magicReentry
        split_ifs <;> rfl
      unfold tosReadWith
      rw [hmem, hmask]
      cases findMemarea m.memory a with
      | none => rfl
      | some area =>
        simp only
        split_ifs
        · cases area.handler with
          | ptr buf => rfl
          | supexec => exact hmagic
        · rfl
    have hq := reentry_quiet a m
    have hq' := reentry_quiet a m'
    rw [readLoop, readLoop, hv]
    apply ih
    · rw [hq.memory, hq'.memory, hmem]
    · rw [hq.cpu, hq'.cpu, hs]

section Crash

variable {b : TosBuffers} {m : Machine}

theorem tosReadWith_crashed (hm : m.memory = registerAreas b) (hs : m.cpu.sFlag = true) (x : Long) :
    (tosReadWith magicReentry x m).2.crashed = (m.crashed || decide (x = 0x201)) := by
  by_cases hx : x = 0x201
  · rw [tosReadWith_magic _ hm hs (Or.inr hx), hx]
    simp [magicReentry]
  · have hmagic : (magicReentry x m).2.crashed = m.crashed := by
      unfold magicReentry
      rw [if_neg hx]
      split_ifs <;> rfl
    rw [decide_eq_false hx, Bool.or_false]
    exact tosReadWith_elim (P := fun r => r.2.crashed = m.crashed) rfl (fun _ => rfl) hmagic

theorem readLoop_crashed (hm : m.memory = registerAreas b) (hs : m.cpu.sFlag = true) (n : ℕ)
    (a res : Long) :
    (readLoop (tosReadWith magicReentry) n a res m).2.crashed =
      (m.crashed || decide (∃ k < n, a + BitVec.ofNat 32 k = 0x201)) := by
  induction n generalizing a res m with
  | zero => simp [readLoop]
  | succ n ih =>
    have hq := reentry_quiet a m
    rw [readLoop, ih (by rw [hq.memory, hm]) (by rw [hq.cpu, hs]), tosReadWith_crashed hm hs,
      Bool.or_assoc]
    simp only [succ_add_ofNat, Nat.exists_lt_succ_left, BitVec.add_zero, Bool.decide_or]

theorem pop_memory (m : Machine) :
    (popU32With (tosReadWith magicReentry) m).2.memory = m.memory :=
  (readLoop_sameState reentry_quiet 4 (m.getReg (.a 7)) 0 m).memory

theorem tosRead_memory (x : Long) (m : Machine) : (tosRead x m).2.memory = m.memory := by
  by_cases hx : x = 0x201
  · have hmagic : (magicXbiosSupexecRead x m).2.memory = m.memory := by
      rw [hx, magicXbiosSupexecRead, magicXbiosSupexecReadWith_second, supexecReturn_memory,
        pop_memory]
    exact tosReadWith_elim (P := fun r => r.2.memory = m.memory) rfl (fun _ => rfl) hmagic
  · rw [tosRead_off hx]
    exact (reentry_quiet x m).memory

theorem tosRead_sFlag (hm : m.memory = registerAreas b) (x : Long) :
    (tosRead x m).2.cpu.sFlag = (m.cpu.sFlag && decide (x ≠ 0x201)) := by
  by_cases hx : x = 0x201
  · cases hs : m.cpu.sFlag with
    | false =>
      rw [tosRead_plain ((registerAreas_userMap b hm hs).plain x), hs.symm]
      simp [haltUnless, hs]
    | true =>
      rw [hx, tosRead_second hm hs]
      simp [supexecReturn, Machine.disableSupervisorMode, Machine.setReg, Cpu.m68kSetReg,
        Cpu.disableSupervisorMode]
  · rw [tosRead_off hx, (reentry_quiet x m).cpu, decide_eq_true hx, Bool.and_true]

theorem readLoop_sFlag (hm : m.memory = registerAreas b) (n : ℕ) (a res : Long) :
    (readLoop tosRead n a res m).2.memory = m.memory ∧
      (readLoop tosRead n a res m).2.cpu.sFlag =
        (m.cpu.sFlag && decide (∀ k < n, a + BitVec.ofNat 32 k ≠ 0x201)) := by
  induction n generalizing a res m with
  | zero => simp [readLoop]
  | succ n ih =>
    obtain ⟨hmem, hsf⟩ := ih (m := (tosRead a m).2) (by rw [tosRead_memory, hm]) (a + 1)
      ((res <<< 8) ||| (tosRead a m).1.setWidth 32)
    refine ⟨by rw [readLoop, hmem, tosRead_memory], ?_⟩
    rw [readLoop, hsf, tosRead_sFlag hm, Bool.and_assoc]
    simp only [succ_add_ofNat, Nat.forall_lt_succ_left, BitVec.add_zero, Bool.decide_and]

end Crash

end Tosemu
