import Tosemu.RelocationFrame

/-!
`main`, from the return of `init_tos_environment` to the loop around `m68k_execute`. The reset of the
vendored core leaves the stack pointer and the program counter to `main`.
-/

namespace Tosemu

open Cpu

def Cpu.pulseReset (c : Core) : Core :=
  setSmFlag true false { c with t1Flag := false, t0Flag := false, intMask := 7 }

def pulseReset (m : Machine) : Machine := { m with cpu := Cpu.pulseReset m.cpu }

def startCpu (te : TosEnvironment) (m : Machine) : Machine :=
  let m := ((pulseReset m).setReg .isp 0x600).setReg .usp ((te.size - 4).setWidth 32)
  let m := m68kWriteMemory32 (te.size.setWidth 32) 0x800 m
  (m.setReg .pc 0x900).disableSupervisorMode

structure Started (m : Machine) : Prop where
  user : m.cpu.sFlag = false
  master : m.cpu.mFlag = false
  usp : m.cpu.a 7 = tosSize.setWidth 32 - 4
  isp : m.cpu.sp .isp = 0x600
  pc : m.cpu.pc = 0x900
  map : ∃ b, m.memory = registerAreas b
  alive : m.crashed = false

section Start

variable {host : Endian} {heap : Heap} {binary : List Byte} {argv : List (List Byte)}
  {tosBasePath : Option (List Byte)} {te : TosEnvironment} {m : Machine}

theorem load_map (h : initTosEnvironment host heap binary argv tosBasePath = .ok (te, m)) :
    te.size = tosSize ∧ m.cpu = coldCore ∧ m.crashed = false ∧ ∃ b, m.memory = registerAreas b := by
  obtain ⟨rfl, m', rfl, hr, -⟩ := load_cases h
  exact ⟨rfl, hr.map.cpu, hr.map.crashed, hr.areas ⟨_, rfl⟩⟩

theorem startCpu_started (h : initTosEnvironment host heap binary argv tosBasePath = .ok (te, m)) :
    Started (startCpu te m) := by
  obtain ⟨hsize, hcpu, halive, b, hmap⟩ := load_map h
  have hwrite := writeLoop_sameMap 4 (tosSize.setWidth 32) 0x800
    (((pulseReset m).setReg .isp 0x600).setReg .usp ((tosSize - 4).setWidth 32))
  obtain ⟨b', hmap'⟩ := @writeLoop_registerAreas b
    (((pulseReset m).setReg .isp 0x600).setReg .usp ((tosSize - 4).setWidth 32)) hmap 4
    (tosSize.setWidth 32) 0x800
  have hcore : (writeLoop 4 (tosSize.setWidth 32) 0x800
      (((pulseReset m).setReg .isp 0x600).setReg .usp ((tosSize - 4).setWidth 32))).cpu =
      m68kSetReg .usp ((tosSize - 4).setWidth 32) (m68kSetReg .isp 0x600 (Cpu.pulseReset coldCore)) := by
    rw [hwrite.cpu, ← hcpu]
    rfl
  have hfinal : (startCpu te m).cpu = disableSupervisorMode (m68kSetReg .pc 0x900
      (m68kSetReg .usp ((tosSize - 4).setWidth 32) (m68kSetReg .isp 0x600 (Cpu.pulseReset coldCore)))) := by
    rw [← hcore, ← hsize]
    rfl
  have hm : (startCpu te m).memory = registerAreas b' := by
    rw [← hmap', ← hsize]
    rfl
  refine ⟨?_, ?_, ?_, ?_, ?_, ⟨b', hm⟩, ?_⟩
  · rw [hfinal]
    decide
  · rw [hfinal]
    decide
  · rw [hfinal]
    decide
  · rw [hfinal]
    decide
  · rw [hfinal]
    decide
  · exact (writeLoop_sameMap 4 (te.size.setWidth 32) 0x800 _).crashed.trans halive

/-- The longword that `main` stores at the top of the stack is in the application memory, so what the load
did to `keepongoing` decides whether an instruction is executed. -/
theorem startCpu_keepongoing (h : initTosEnvironment host heap binary argv tosBasePath = .ok (te, m)) :
    (startCpu te m).keepongoing = m.keepongoing := by
  obtain ⟨hsize, -, -, b, hmap⟩ := load_map h
  have hram := registerAreas_ram b
    (m := ((pulseReset m).setReg .isp 0x600).setReg .usp ((te.size - 4).setWidth 32)) hmap
  have hadr : te.size.setWidth 32 = ramAddress 0xf9edff := by
    rw [hsize]
    decide
  have hwrite : (startCpu te m).keepongoing = (writeLoop 4 (te.size.setWidth 32) 0x800
    (((pulseReset m).setReg .isp 0x600).setReg .usp ((te.size - 4).setWidth 32))).keepongoing := rfl
  rw [hwrite, writeLoop_keepongoing, decide_eq_true, Bool.and_true]
  · rfl
  · intro k hk
    rw [hadr, ramAddress_add]
    exact hram.writable (by rw [tosSize_toNat]; omega)

end Start

end Tosemu
