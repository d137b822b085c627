import Tosemu.Machine

namespace Tosemu

abbrev ByteRead := Long → Machine → Byte × Machine

def tosReadWith (magic : ByteRead) : ByteRead := fun address m =>
  match findMemarea m.memory address with
  | none => (0, m.haltExecution)
  | some area =>
    if area.flags &&& m.readMask ≠ 0 then
      match area.handler with
      | .ptr buf => (buf.byte (area.index address), m)
      | .supexec => magic address m
    else (0, m.haltExecution)

def readLoop (read : ByteRead) : ℕ → Long → Long → Machine → Long × Machine
  | 0, _, res, m => (res, m)
  | n + 1, address, res, m =>
    let r := read address m
    readLoop read n (address + 1) ((res <<< 8) ||| r.1.setWidth 32) r.2

def popU32With (read : ByteRead) (m : Machine) : Long × Machine :=
  let sp := m.getReg (.a 7)
  let r := readLoop read 4 sp 0 m
  -- the local of the C function is a `uint16_t`
  let value : BitVec 16 := r.1.setWidth 16
  (value.setWidth 32, r.2.setReg (.a 7) (sp + 4))

def dregNumber (i : Fin 5) : Fin 8 := ⟨3 + i, by omega⟩
def aregNumber (i : Fin 4) : Fin 8 := ⟨3 + i, by omega⟩

def saveRegs (m : Machine) : Machine :=
  { m with
    dreg := fun i => m.getReg (.d (dregNumber i))
    areg := fun i => m.getReg (.a (aregNumber i)) }

def restoreRegs (m : Machine) : Machine :=
  let m := (List.finRange 5).foldl (fun m i => m.setReg (.d (dregNumber i)) (m.dreg i)) m
  (List.finRange 4).foldl (fun m i => m.setReg (.a (aregNumber i)) (m.areg i)) m

def magicXbiosSupexecReadWith (read : ByteRead) : ByteRead := fun address m =>
  if address = 0x200 then (0x4e, m)
  else if address = 0x201 then
    let r := popU32With read m
    (0x71, restoreRegs (r.2.disableSupervisorMode.setReg .pc r.1))
  else (0, m)

/-- The magic area as `pop_u32` meets it while it is already being read: at `0x201` the callback
calls itself with the same stack pointer, again and again. -/
def magicReentry : ByteRead := fun address m =>
  if address = 0x200 then (0x4e, m)
  else if address = 0x201 then (0, { m with crashed := true })
  else (0, m)

def magicXbiosSupexecRead : ByteRead := magicXbiosSupexecReadWith (tosReadWith magicReentry)

def tosRead : ByteRead := tosReadWith magicXbiosSupexecRead

/-- The magic area has no writer but `halt_execution`. -/
def tosWrite (address : Long) (value : Byte) (m : Machine) : Machine :=
  match findMemarea m.memory address with
  | none => m.haltExecution
  | some area =>
    if area.flags &&& m.writeMask ≠ 0 then
      match area.handler with
      | .ptr _ => { m with memory := storeByte address value m.memory }
      | .supexec => m.haltExecution
    else m.haltExecution

/-- The big-endian write loop: the last of `n` bytes first. -/
def writeLoop : ℕ → Long → Long → Machine → Machine
  | 0, _, _, m => m
  | n + 1, address, value, m =>
    writeLoop n address (value >>> 8) (tosWrite (address + BitVec.ofNat 32 n) (value.setWidth 8) m)

def m68kReadDisassembler8 (address : Long) (m : Machine) : Long × Machine :=
  let r := tosRead address m
  (r.1.setWidth 32, r.2)

def m68kReadDisassembler16 (address : Long) (m : Machine) : Long × Machine :=
  readLoop tosRead 2 address 0 m

def m68kReadDisassembler32 (address : Long) (m : Machine) : Long × Machine :=
  readLoop tosRead 4 address 0 m

def m68kReadMemory8 := m68kReadDisassembler8
def m68kReadMemory16 := m68kReadDisassembler16
def m68kReadMemory32 := m68kReadDisassembler32

def m68kWriteMemory8 (address value : Long) (m : Machine) : Machine :=
  tosWrite address (value.setWidth 8) m

def m68kWriteMemory16 (address value : Long) (m : Machine) : Machine := writeLoop 2 address value m

def m68kWriteMemory32 (address value : Long) (m : Machine) : Machine := writeLoop 4 address value m

inductive Width
  | byte
  | word
  | long
deriving DecidableEq, Repr

def Width.bytes : Width → ℕ
  | .byte => 1
  | .word => 2
  | .long => 4

def m68kReadMemory : Width → Long → Machine → Long × Machine
  | .byte => m68kReadMemory8
  | .word => m68kReadMemory16
  | .long => m68kReadMemory32

def m68kWriteMemory : Width → Long → Long → Machine → Machine
  | .byte => m68kWriteMemory8
  | .word => m68kWriteMemory16
  | .long => m68kWriteMemory32

end Tosemu
