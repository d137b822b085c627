import Tosemu.Cpu

/-!
Guest memory is the linked list of `memory.c`, head first. A `ptr` area carries the host allocation
it maps by value: no two areas share one. The only function area of the program is the magic memory
of Supexec.
-/

namespace Tosemu

abbrev Byte := BitVec 8

structure Buffer where
  size : ℕ
  byte : ℕ → Byte

def Buffer.set (buf : Buffer) (i : ℕ) (value : Byte) : Buffer :=
  { buf with byte := Function.update buf.byte i value }

inductive Handler
  | ptr (buf : Buffer)
  | supexec

structure Memarea where
  base : Long
  len : Long
  handler : Handler
  flags : Byte

def MEMORY_READ : Byte := 0x01
def MEMORY_WRITE : Byte := 0x02
def MEMORY_READWRITE : Byte := 0x03
def MEMORY_SUPERREAD : Byte := 0x04
def MEMORY_SUPERWRITE : Byte := 0x08

/-- `crashed` is set where the host process itself dies: the C code recurses without bound. -/
structure Machine where
  cpu : Cpu.Core
  memory : List Memarea
  keepongoing : Bool
  dreg : Fin 5 → Long
  areg : Fin 4 → Long
  crashed : Bool

namespace Machine

def haltExecution (m : Machine) : Machine := { m with keepongoing := false }

def getReg (m : Machine) (r : Cpu.Reg) : Long := Cpu.m68kGetReg r m.cpu

def setReg (r : Cpu.Reg) (value : Long) (m : Machine) : Machine :=
  { m with cpu := Cpu.m68kSetReg r value m.cpu }

def enableSupervisorMode (m : Machine) : Machine := { m with cpu := Cpu.enableSupervisorMode m.cpu }

def disableSupervisorMode (m : Machine) : Machine :=
  { m with cpu := Cpu.disableSupervisorMode m.cpu }

def readMask (m : Machine) : Byte :=
  if Cpu.isSupervisorModeEnabled m.cpu then MEMORY_READ ||| MEMORY_SUPERREAD else MEMORY_READ

def writeMask (m : Machine) : Byte :=
  if Cpu.isSupervisorModeEnabled m.cpu then MEMORY_WRITE ||| MEMORY_SUPERWRITE else MEMORY_WRITE

end Machine

namespace Memarea

def hits (area : Memarea) (address : Long) : Bool :=
  area.base ≤ address && address < area.base + area.len

def index (area : Memarea) (address : Long) : ℕ := (address - area.base).toNat

def write (area : Memarea) (address : Long) (value : Byte) : Memarea :=
  match area.handler with
  | .ptr buf => { area with handler := .ptr (buf.set (area.index address) value) }
  | .supexec => area

end Memarea

def findMemarea (memory : List Memarea) (address : Long) : Option Memarea :=
  memory.find? (fun area => area.hits address)

def storeByte (address : Long) (value : Byte) : List Memarea → List Memarea
  | [] => []
  | area :: next =>
    if area.hits address then area.write address value :: next
    else area :: storeByte address value next

def addPtrMemoryArea (flags : Byte) (base len : Long) (buf : Buffer) (memory : List Memarea) :
    List Memarea :=
  ⟨base, len, .ptr buf, flags⟩ :: memory

def addFnctMemoryArea (flags : Byte) (base len : Long) (handler : Handler) (memory : List Memarea) :
    List Memarea :=
  ⟨base, len, handler, flags⟩ :: memory

end Tosemu
