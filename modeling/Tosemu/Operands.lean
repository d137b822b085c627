import Tosemu.AddressBus
import Tosemu.Alu
import Tosemu.GuestMemory

/-!
The inline functions of `m68kcpu.h` on which the instruction handlers are built: registers, operand
access, the stack, branches and exceptions. As `m68kconf.h` sets the core up there is no prefetch,
no address error, no trace and no function code; cycles are not counted, and the vector base of a
68000 is zero.
-/

namespace Tosemu.M68k

open Cpu

abbrev Emu := StateM Machine

@[simp] theorem bind_apply {α β : Type} (x : Emu α) (f : α → Emu β) (m : Machine) :
    (x >>= f) m = f (x m).1 (x m).2 := rfl

@[simp] theorem map_apply {α β : Type} (x : Emu α) (f : α → β) (m : Machine) :
    (f <$> x) m = (f (x m).1, (x m).2) := rfl

@[simp] theorem pure_apply {α : Type} (a : α) (m : Machine) : (pure a : Emu α) m = (a, m) := rfl

@[simp] theorem ite_run {α : Type} (p : Prop) [Decidable p] (x y : Emu α) (m : Machine) :
    (if p then x else y) m = if p then x m else y m := by
  split_ifs <;> rfl

/-- `REG_IR` and `REG_PPC` while a handler runs. -/
structure Insn where
  ir : BitVec 16
  ppc : Long

namespace Insn

variable (o : Insn)

def x : Fin 8 := (o.ir.extractLsb' 9 3).toFin

def y : Fin 8 := (o.ir.extractLsb' 0 3).toFin

/-- `(((REG_IR >> 9) - 1) & 7) + 1` -/
def quick : Long := (((o.ir.setWidth 32 >>> 9) - 1) &&& 7) + 1

end Insn

section Registers

def core : Emu Core := fun m => (m.cpu, m)

def onCore (f : Core → Core) : Emu Unit := fun m => ((), { m with cpu := f m.cpu })

def regD (i : Fin 8) : Emu Long := do return (← core).d i

def setRegD (i : Fin 8) (value : Long) : Emu Unit :=
  onCore fun c => { c with d := Function.update c.d i value }

def regA (i : Fin 8) : Emu Long := do return (← core).a i

def setRegA (i : Fin 8) (value : Long) : Emu Unit :=
  onCore fun c => { c with a := Function.update c.a i value }

def regPc : Emu Long := do return (← core).pc

def setPc (value : Long) : Emu Unit := onCore fun c => { c with pc := value }

@[simp] theorem core_apply (m : Machine) : core m = (m.cpu, m) := rfl

@[simp] theorem onCore_apply (f : Core → Core) (m : Machine) :
    onCore f m = ((), { m with cpu := f m.cpu }) := rfl

@[simp] theorem regD_apply (i : Fin 8) (m : Machine) : regD i m = (m.cpu.d i, m) := rfl

@[simp] theorem regA_apply (i : Fin 8) (m : Machine) : regA i m = (m.cpu.a i, m) := rfl

@[simp] theorem regPc_apply (m : Machine) : regPc m = (m.cpu.pc, m) := rfl

def withD (i : Fin 8) (value : Long) (m : Machine) : Machine :=
  { m with cpu := { m.cpu with d := Function.update m.cpu.d i value } }

def withA (i : Fin 8) (value : Long) (m : Machine) : Machine :=
  { m with cpu := { m.cpu with a := Function.update m.cpu.a i value } }

def withPc (value : Long) (m : Machine) : Machine := { m with cpu := { m.cpu with pc := value } }

@[simp] theorem setRegD_apply (i : Fin 8) (value : Long) (m : Machine) :
    setRegD i value m = ((), withD i value m) := rfl

@[simp] theorem setRegA_apply (i : Fin 8) (value : Long) (m : Machine) :
    setRegA i value m = ((), withA i value m) := rfl

@[simp] theorem setPc_apply (value : Long) (m : Machine) : setPc value m = ((), withPc value m) := rfl

def putD (w : Width) (i : Fin 8) (value : Long) : Emu Unit := do
  setRegD i (maskOutBelow w (← regD i) ||| value)

/-- `REG_DA` -/
def regDa (i : Fin 16) : Emu Long :=
  if h : i.val < 8 then regD ⟨i, h⟩ else regA ⟨i - 8, by omega⟩

def setRegDa (i : Fin 16) (value : Long) : Emu Unit :=
  if h : i.val < 8 then setRegD ⟨i, h⟩ value else setRegA ⟨i - 8, by omega⟩ value

end Registers

section Memory

def m68kiRead (w : Width) (address : Long) : Emu Long := fun m =>
  m68kReadMemory w (address68k address) m

def m68kiWrite (w : Width) (address value : Long) : Emu Unit := fun m =>
  ((), m68kWriteMemory w (address68k address) value m)

def readImm16 : Emu Long := fun m => m68kiReadImm16 m

def readImm32 : Emu Long := do
  let pc ← regPc
  setPc (pc + 4)
  m68kiRead .long pc

def operI (w : Width) : Emu Long :=
  match w with
  | .byte => do return maskOutAbove .byte (← readImm16)
  | .word => readImm16
  | .long => readImm32

/-- `MAKE_INT_8` and `MAKE_INT_16`, as they come back in an unsigned sum. -/
def makeInt (w : Width) (a : Long) : Long := (a.setWidth w.bits).signExtend 32

end Memory

section Access

structure SameAccess (m m' : Machine) : Prop where
  supervisor : m'.cpu.sFlag = m.cpu.sFlag
  flags : ∀ x, memFlags m'.memory x = memFlags m.memory x
  mapped : ∀ x, (memByte m'.memory x).isSome = (memByte m.memory x).isSome

theorem write_cpu (w : Width) (a v : Long) (m : Machine) : (m68kWriteMemory w a v m).cpu = m.cpu := by
  rw [m68kWriteMemory_eq]
  exact (writeLoop_sameMap _ _ _ _).cpu

namespace SameAccess

variable {m m' m'' : Machine}

theorem refl (m : Machine) : SameAccess m m := ⟨rfl, fun _ => rfl, fun _ => rfl⟩

theorem trans (h : SameAccess m m') (h' : SameAccess m' m'') : SameAccess m m'' :=
  ⟨h'.supervisor.trans h.supervisor, fun x => (h'.flags x).trans (h.flags x),
    fun x => (h'.mapped x).trans (h.mapped x)⟩

theorem symm (h : SameAccess m m') : SameAccess m' m :=
  ⟨h.supervisor.symm, fun x => (h.flags x).symm, fun x => (h.mapped x).symm⟩

theorem readable_iff (h : SameAccess m m') (x : Long) : Readable m' x ↔ Readable m x := by
  simp only [Readable, h.mapped, h.flags, Machine.readMask, isSupervisorModeEnabled_eq, h.supervisor]

theorem writable_iff (h : SameAccess m m') (x : Long) : Writable m' x ↔ Writable m x := by
  simp only [Writable, h.mapped, h.flags, Machine.writeMask, isSupervisorModeEnabled_eq, h.supervisor]

theorem write (w : Width) (a v : Long) (m : Machine) : SameAccess m (m68kWriteMemory w a v m) := by
  have h : SameMap m (m68kWriteMemory w a v m) := by
    rw [m68kWriteMemory_eq]
    exact writeLoop_sameMap _ _ _ _
  exact ⟨congrArg Core.sFlag h.cpu, h.flags, h.mapped⟩

end SameAccess

def ramMachine (c : Core) (bytes : ℕ → Byte) : Machine where
  cpu := c
  memory := addPtrMemoryArea MEMORY_READWRITE 0 0x1000 ⟨0x1000, bytes⟩ []
  keepongoing := true
  dreg := fun _ => 0
  areg := fun _ => 0
  crashed := false

theorem ram_access (c : Core) (bytes : ℕ → Byte) {a : Long} (ha : a.toNat < 0x1000) :
    Readable (ramMachine c bytes) a ∧ Writable (ramMachine c bytes) a := by
  have hfind : findMemarea (ramMachine c bytes).memory a =
      some ⟨0, 0x1000, .ptr ⟨0x1000, bytes⟩, MEMORY_READWRITE⟩ := by
    have hhits : Memarea.hits ⟨0, 0x1000, .ptr ⟨0x1000, bytes⟩, MEMORY_READWRITE⟩ a := by
      simp only [Memarea.hits, BitVec.le_def, BitVec.lt_def]
      simpa using ha
    exact List.find?_cons_of_pos (p := fun area => Memarea.hits area a) hhits
  have hbyte : (memByte (ramMachine c bytes).memory a).isSome := by simp [memByte, hfind, Memarea.byteAt]
  have hflags : memFlags (ramMachine c bytes).memory a = MEMORY_READWRITE := by simp [memFlags, hfind]
  exact ⟨Readable.of_readwrite hbyte hflags, Writable.of_readwrite hbyte hflags⟩

end Access

section EffectiveAddress

/-- The modes that `m68kmake` puts in for `M68KMAKE_GET_EA_AY` and `M68KMAKE_GET_OPER_AY`. -/
inductive Ea
  | ai
  | pi
  | pi7
  | pd
  | pd7
  | di
  | ix
  | aw
  | al
  | pcdi
  | pcix
  | i
deriving DecidableEq, Repr

def getEaIx (an : Long) : Emu Long := do
  let extension ← readImm16
  let xn ← regDa (extension.extractLsb' 12 4).toFin
  let xn := if extension.getLsbD 11 then xn else makeInt .word xn
  return an + xn + makeInt .byte extension

/-- An immediate operand has no address. -/
def getEa (w : Width) (r : Fin 8) : Ea → Emu Long
  | .ai => regA r
  | .pi => do
    let a ← regA r
    setRegA r (a + BitVec.ofNat 32 w.bytes)
    return a
  | .pi7 => do
    let a ← regA 7
    setRegA 7 (a + 2)
    return a
  | .pd => do
    let a ← regA r
    setRegA r (a - BitVec.ofNat 32 w.bytes)
    return a - BitVec.ofNat 32 w.bytes
  | .pd7 => do
    let a ← regA 7
    setRegA 7 (a - 2)
    return a - 2
  | .di => do
    let a ← regA r
    return a + makeInt .word (← readImm16)
  | .ix => do getEaIx (← regA r)
  | .aw => do return makeInt .word (← readImm16)
  | .al => readImm32
  | .pcdi => do
    let oldPc ← regPc
    return oldPc + makeInt .word (← readImm16)
  | .pcix => do getEaIx (← regPc)
  | .i => pure 0

def operEa (w : Width) (r : Fin 8) (ea : Ea) : Emu Long :=
  match ea with
  | .i => operI w
  | ea => do m68kiRead w (← getEa w r ea)

inductive Src
  | d
  | a
  | mode (ea : Ea)
deriving DecidableEq, Repr

def operand (w : Width) (o : Insn) : Src → Emu Long
  | .d => do return maskOutAbove w (← regD o.y)
  | .a => do return maskOutAbove w (← regA o.y)
  | .mode ea => operEa w o.y ea

end EffectiveAddress

section Bounds

variable (w : Width)

theorem readLoop_lt (read : ByteRead) {n i : ℕ} (a res : Long) (m : Machine) (hn : i + 8 * n ≤ 32)
    (hres : res.toNat < 2 ^ i) : (readLoop read n a res m).1.toNat < 2 ^ (i + 8 * n) := by
  induction n generalizing a res m i with
  | zero => exact hres
  | succ n ih =>
    have hshift := BigEndian.shift_or_toNat hres (by omega) (read a m).1
    have hstep : (res <<< 8 ||| (read a m).1.setWidth 32).toNat < 2 ^ (i + 8) := by
      have hbyte := (read a m).1.isLt
      rw [hshift, pow_add]
      omega
    have := ih (a + 1) _ (read a m).2 (by omega) hstep
    rwa [show i + 8 * (n + 1) = i + 8 + 8 * n by omega]

theorem bits_eq : w.bits = 8 * w.bytes := by cases w <;> rfl

theorem m68kiRead_lt (a : Long) (m : Machine) : (m68kiRead w a m).1.toNat < 2 ^ w.bits := by
  have hw := w.bytes_le
  have hz : (0 : Long).toNat < 2 ^ 0 := by decide
  have h := readLoop_lt tosRead (address68k a) 0 m (n := w.bytes) (i := 0) (by omega) hz
  rw [Nat.zero_add, ← bits_eq] at h
  rw [m68kiRead, m68kReadMemory_eq]
  exact h

theorem maskOutAbove_lt (a : Long) : (maskOutAbove w a).toNat < 2 ^ w.bits := by
  rw [maskOutAbove_toNat]
  exact value_lt w a

theorem readImm16_lt (m : Machine) : (readImm16 m).1.toNat < 2 ^ 16 := m68kiRead_lt .word _ _

theorem operI_lt (m : Machine) : (operI w m).1.toNat < 2 ^ w.bits := by
  cases w with
  | byte => exact maskOutAbove_lt .byte _
  | word => exact readImm16_lt m
  | long => exact m68kiRead_lt .long _ _

theorem operEa_lt (r : Fin 8) (ea : Ea) (m : Machine) : (operEa w r ea m).1.toNat < 2 ^ w.bits := by
  cases ea
  case i => exact operI_lt w m
  all_goals exact m68kiRead_lt w _ _

theorem operand_lt (o : Insn) (s : Src) (m : Machine) : (operand w o s m).1.toNat < 2 ^ w.bits := by
  cases s with
  | d => exact maskOutAbove_lt w _
  | a => exact maskOutAbove_lt w _
  | mode ea => exact operEa_lt w o.y ea m

end Bounds

section Stack

def push16 (value : Long) : Emu Unit := do
  let sp ← regA 7
  setRegA 7 (sp - 2)
  m68kiWrite .word (sp - 2) value

def push32 (value : Long) : Emu Unit := do
  let sp ← regA 7
  setRegA 7 (sp - 4)
  m68kiWrite .long (sp - 4) value

def pull16 : Emu Long := do
  let sp ← regA 7
  setRegA 7 (sp + 2)
  m68kiRead .word sp

def pull32 : Emu Long := do
  let sp ← regA 7
  setRegA 7 (sp + 4)
  m68kiRead .long sp

end Stack

section ProgramFlow

def jumpVector (vector : Long) : Emu Unit := do
  setPc (vector <<< 2)
  setPc (← m68kiRead .long (vector <<< 2))

def branch8 (offset : Long) : Emu Unit := do setPc ((← regPc) + makeInt .byte offset)

def branch16 (offset : Long) : Emu Unit := do setPc ((← regPc) + makeInt .word offset)

def setSFlag (s : Bool) (c : Core) : Core :=
  let sp := Function.update c.sp (bank c.sFlag c.mFlag) (c.a 7)
  { c with sp := sp, sFlag := s, a := Function.update c.a 7 (sp (bank s c.mFlag)) }

def initException : Emu Long := do
  let sr := getSr (← core)
  onCore fun c => setSFlag true { c with t1Flag := false, t0Flag := false }
  return sr

def stackFrame (pc sr : Long) : Emu Unit := do
  push32 pc
  push16 sr

def EXCEPTION_ILLEGAL_INSTRUCTION : Long := 4
def EXCEPTION_ZERO_DIVIDE : Long := 5
def EXCEPTION_CHK : Long := 6
def EXCEPTION_TRAPV : Long := 7
def EXCEPTION_PRIVILEGE_VIOLATION : Long := 8
def EXCEPTION_1010 : Long := 10
def EXCEPTION_1111 : Long := 11
def EXCEPTION_TRAP_BASE : Long := 32

/-- What the exceptions of the 68000 do: the faulting ones stack `REG_PPC`, the others `REG_PC`. -/
def exception (pc vector : Long) : Emu Unit := do
  let sr ← initException
  stackFrame pc sr
  jumpVector vector

def exceptionTrap (vector : Long) : Emu Unit := do exception (← regPc) vector

def exceptionPrivilegeViolation (o : Insn) : Emu Unit :=
  exception o.ppc EXCEPTION_PRIVILEGE_VIOLATION

def exception1010 (o : Insn) : Emu Unit := exception o.ppc EXCEPTION_1010

def exception1111 (o : Insn) : Emu Unit := exception o.ppc EXCEPTION_1111

def exceptionIllegal (o : Insn) : Emu Unit := exception o.ppc EXCEPTION_ILLEGAL_INSTRUCTION

/-- The OS calls go to the host; `m68kTrap` is the callback of `tossystem.c`. -/
def exceptionTrapN (m68kTrap : Long → Machine → Machine) (vector : Long) : Emu Unit :=
  if vector = 33 ∨ vector = 34 ∨ vector = 45 ∨ vector = 46 then fun m => ((), m68kTrap vector m)
  else exceptionTrap vector

end ProgramFlow

end Tosemu.M68k
