import Mathlib.Logic.Function.Basic
import Tosemu.Basic

/-!
The part of the vendored 68000 core that the OS layer reaches through `m68k_get_reg` and
`m68k_set_reg`. The S, M and trace flags only ever hold their set or clear value and are booleans
here; the interrupt mask holds three bits. The X, N, Z, V and C words are kept as the core keeps
them. No device raises an interrupt, so `m68ki_check_interrupts` has no effect.
-/

namespace Tosemu.Cpu

instance registerNumber : NeZero 8 := ⟨by decide⟩

inductive Bank
  | usp
  | isp
  | msp
deriving DecidableEq, Repr

structure Core where
  d : Fin 8 → Long
  a : Fin 8 → Long
  pc : Long
  sp : Bank → Long
  t1Flag : Bool
  t0Flag : Bool
  sFlag : Bool
  mFlag : Bool
  xFlag : Long
  nFlag : Long
  notZFlag : Long
  vFlag : Long
  cFlag : Long
  intMask : BitVec 3

inductive Reg
  | d (i : Fin 8)
  | a (i : Fin 8)
  | pc
  | sr
  | usp
  | isp
deriving DecidableEq, Repr

def bank (s m : Bool) : Bank := if s then (if m then .msp else .isp) else .usp

def onBit (b : Bool) (value : Long) : Long := if b then value else 0

def getSr (c : Core) : Long :=
  onBit c.t1Flag 0x8000 ||| onBit c.t0Flag 0x4000 ||| onBit c.sFlag (4 <<< 11) |||
    onBit c.mFlag (2 <<< 11) ||| (c.intMask.setWidth 32 <<< 8) ||| ((c.xFlag &&& 0x100) >>> 4) |||
    ((c.nFlag &&& 0x80) >>> 4) ||| (onBit (c.notZFlag = 0) 1 <<< 2) ||| ((c.vFlag &&& 0x80) >>> 6) |||
    ((c.cFlag &&& 0x100) >>> 8)

def setSmFlag (s m : Bool) (c : Core) : Core :=
  let sp := Function.update c.sp (bank c.sFlag c.mFlag) (c.a 7)
  { c with sp := sp, sFlag := s, mFlag := m, a := Function.update c.a 7 (sp (bank s m)) }

def setCcr (value : Long) (c : Core) : Core :=
  { c with
    xFlag := (value &&& 0x10) <<< 4
    nFlag := (value &&& 0x8) <<< 4
    notZFlag := onBit (value &&& 0x4 = 0) 1
    vFlag := (value &&& 0x2) <<< 6
    cFlag := (value &&& 0x1) <<< 8 }

def srMask : Long := 0xa71f

def setSr (value : Long) (c : Core) : Core :=
  let value := value &&& srMask
  setSmFlag (value.getLsbD 13) (value.getLsbD 12) (setCcr value
    { c with
      t1Flag := value.getLsbD 15
      t0Flag := value.getLsbD 14
      intMask := value.extractLsb' 8 3 })

def m68kGetReg (r : Reg) (c : Core) : Long :=
  match r with
  | .d i => c.d i
  | .a i => c.a i
  | .pc => c.pc
  | .sr => getSr c
  | .usp => if c.sFlag then c.sp .usp else c.a 7
  | .isp => if c.sFlag && !c.mFlag then c.a 7 else c.sp .isp

def m68kSetReg (r : Reg) (value : Long) (c : Core) : Core :=
  match r with
  | .d i => { c with d := Function.update c.d i value }
  | .a i => { c with a := Function.update c.a i value }
  | .pc => { c with pc := value }
  | .sr => setSr value c
  | .usp =>
    if c.sFlag then { c with sp := Function.update c.sp .usp value }
    else { c with a := Function.update c.a 7 value }
  | .isp =>
    if c.sFlag && !c.mFlag then { c with a := Function.update c.a 7 value }
    else { c with sp := Function.update c.sp .isp value }

def enableSupervisorMode (c : Core) : Core := m68kSetReg .sr (m68kGetReg .sr c ||| 0x2000) c

def disableSupervisorMode (c : Core) : Core := m68kSetReg .sr (m68kGetReg .sr c &&& ~~~0x2000) c

def isSupervisorModeEnabled (c : Core) : Bool := m68kGetReg .sr c &&& 0x2000 = 0x2000

/-- The zeroed static `m68ki_cpu`, as it is while the binary is loaded. -/
def coldCore : Core where
  d := fun _ => 0
  a := fun _ => 0
  pc := 0
  sp := fun _ => 0
  t1Flag := false
  t0Flag := false
  sFlag := false
  mFlag := false
  xFlag := 0
  nFlag := 0
  notZFlag := 0
  vFlag := 0
  cFlag := 0
  intMask := 0

@[simp] theorem onBit_getElem (b : Bool) (value : Long) (i : ℕ) (h : i < 32) :
    (onBit b value)[i] = (b && value[i]) := by
  cases b <;> simp [onBit]

theorem and_bit_iff (x : Long) : x &&& 0x2000 = 0x2000 ↔ x.getLsbD 13 = true := by
  constructor
  · intro h
    simpa using congrArg (fun y : Long => y.getLsbD 13) h
  · intro h
    have hb : (0x2000 : Long) = BitVec.twoPow 32 13 := by decide
    rw [hb, BitVec.and_twoPow, if_pos h]

theorem isSupervisorModeEnabled_eq (c : Core) : isSupervisorModeEnabled c = c.sFlag := by
  have hbit : (getSr c).getLsbD 13 = c.sFlag := by simp [getSr]
  rw [Bool.eq_iff_iff, isSupervisorModeEnabled, decide_eq_true_iff, ← hbit]
  exact and_bit_iff _

section StatusRegister

variable (value : Long) (c : Core)

@[simp] theorem setSr_sFlag : (setSr value c).sFlag = value.getLsbD 13 := by
  simp [setSr, setSmFlag, srMask]

@[simp] theorem setSr_mFlag : (setSr value c).mFlag = false := by
  simp [setSr, setSmFlag, srMask]

@[simp] theorem setSr_d : (setSr value c).d = c.d := rfl

@[simp] theorem setSr_pc : (setSr value c).pc = c.pc := rfl

@[simp] theorem setSr_sp :
    (setSr value c).sp = Function.update c.sp (bank c.sFlag c.mFlag) (c.a 7) := rfl

@[simp] theorem setSr_a :
    (setSr value c).a = Function.update c.a 7 ((setSr value c).sp (bank (value.getLsbD 13) false)) := by
  have h13 : (value &&& srMask).getLsbD 13 = value.getLsbD 13 := by simp [srMask]
  have h12 : (value &&& srMask).getLsbD 12 = false := by simp [srMask]
  simp only [setSr, setSmFlag, setCcr, h13, h12]

@[simp] theorem enable_bit : (m68kGetReg .sr c ||| 0x2000).getLsbD 13 = true := by
  simp

end StatusRegister

end Tosemu.Cpu
