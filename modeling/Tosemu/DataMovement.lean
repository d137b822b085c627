import Tosemu.Arithmetic

namespace Tosemu.M68k

open Cpu

section Moves

variable (w : Width) (o : Insn)

/-- The source is read before the destination address is formed. -/
def opMove (dst : Ea) (s : Src) : Emu Unit := do
  let res ← operand w o s
  let ea ← getEa w o.x dst
  m68kiWrite w ea res
  onCore (flagsLogic w res)

def opMoveD (s : Src) : Emu Unit := do
  let res ← operand w o s
  putD w o.x res
  onCore (flagsLogic w res)

def opMovea (s : Src) : Emu Unit := do setRegA o.x (← addressOperand w o s)

def opMoveq : Emu Unit := do
  let res := makeInt .byte (o.ir.setWidth 32)
  setRegD o.x res
  onCore (flagsLogic .long res)

/-- Only the 68010 and later have it. -/
def opMoveFrc : Emu Unit := exceptionIllegal o

def opMoveToc (s : Src) : Emu Unit := do
  match s with
  | .d => onCore (setCcr (← regD o.y))
  | s => onCore (setCcr (← operand .word o s))

/-- A 68000 lets a user program read the status register. -/
def opMoveFrsD : Emu Unit := do putD .word o.y (getSr (← core))

def opMoveFrs (ea : Ea) : Emu Unit := do
  let ea ← getEa .word o.y ea
  m68kiWrite .word ea (getSr (← core))

def opMoveTos (s : Src) : Emu Unit := do
  if (← core).sFlag then
    match s with
    | .d => onCore (setSr (← regD o.y))
    | s => onCore (setSr (← operand .word o s))
  else exceptionPrivilegeViolation o

def opMoveFru : Emu Unit := do
  if (← core).sFlag then setRegA o.y ((← core).sp .usp)
  else exceptionPrivilegeViolation o

def opMoveTou : Emu Unit := do
  if (← core).sFlag then
    let usp ← regA o.y
    onCore fun c => { c with sp := Function.update c.sp .usp usp }
  else exceptionPrivilegeViolation o

end Moves

section RegisterLists

variable (w : Width) (o : Insn)

def listed (registers : Long) : List (Fin 16) :=
  (List.finRange 16).filter fun i => registers.getLsbD i

def storeDown : List (Fin 16) → Long → Emu Long
  | [], ea => pure ea
  | i :: rest, ea => do
    let ea := ea - BitVec.ofNat 32 w.bytes
    m68kiWrite w ea (maskOutAbove w (← regDa i.rev))
    storeDown rest ea

def storeUp : List (Fin 16) → Long → Emu Unit
  | [], _ => pure ()
  | i :: rest, ea => do
    m68kiWrite w ea (maskOutAbove w (← regDa i))
    storeUp rest (ea + BitVec.ofNat 32 w.bytes)

def loadUp : List (Fin 16) → Long → Emu Long
  | [], ea => pure ea
  | i :: rest, ea => do
    setRegDa i (makeInt w (← m68kiRead w ea))
    loadUp rest (ea + BitVec.ofNat 32 w.bytes)

/-- The first bit of the list stands for A7 here. -/
def opMovemRePd : Emu Unit := do
  let registers ← readImm16
  let ea ← storeDown w (listed registers) (← regA o.y)
  setRegA o.y ea

def opMovemRe (ea : Ea) : Emu Unit := do
  let registers ← readImm16
  storeUp w (listed registers) (← getEa w o.y ea)

def opMovemErPi : Emu Unit := do
  let registers ← readImm16
  let ea ← loadUp w (listed registers) (← regA o.y)
  setRegA o.y ea

def opMovemEr (ea : Ea) : Emu Unit := do
  let registers ← readImm16
  let _ ← loadUp w (listed registers) (← getEa w o.y ea)

end RegisterLists

section Peripheral

variable (w : Width) (o : Insn)

def writeBytes (src : Long) : ℕ → Long → Emu Unit
  | 0, _ => pure ()
  | k + 1, ea => do
    m68kiWrite .byte ea (maskOutAbove .byte (src >>> (8 * k)))
    writeBytes src k (ea + 2)

def readBytes : ℕ → Long → Long → Emu Long
  | 0, _, acc => pure acc
  | k + 1, ea, acc => do
    let byte ← m68kiRead .byte ea
    readBytes k (ea + 2) (acc + byte <<< (8 * k))

def opMovepRe : Emu Unit := do
  let ea ← getEa w o.y .di
  let src ← regD o.x
  writeBytes src w.bytes ea

def opMovepEr : Emu Unit := do
  let ea ← getEa w o.y .di
  let res ← readBytes w.bytes ea 0
  putD w o.x res

end Peripheral

section Addresses

variable (o : Insn)

def opLea (ea : Ea) : Emu Unit := do setRegA o.x (← getEa .long o.y ea)

def opPea (ea : Ea) : Emu Unit := do push32 (← getEa .long o.y ea)

def opExgDd : Emu Unit := do
  let tmp ← regD o.x
  setRegD o.x (← regD o.y)
  setRegD o.y tmp

def opExgAa : Emu Unit := do
  let tmp ← regA o.x
  setRegA o.x (← regA o.y)
  setRegA o.y tmp

def opExgDa : Emu Unit := do
  let tmp ← regD o.x
  setRegD o.x (← regA o.y)
  setRegA o.y tmp

def opExt16 : Emu Unit := do
  let dst ← regD o.y
  let res := maskOutBelow .word dst ||| maskOutAbove .byte dst ||| (if Width.byte.sign dst then 0xff00 else 0)
  setRegD o.y res
  onCore fun c => { flagsLogic .word res c with notZFlag := maskOutAbove .word res }

def opExt32 : Emu Unit := do
  let dst ← regD o.y
  let res := maskOutAbove .word dst ||| (if Width.word.sign dst then 0xffff0000 else 0)
  setRegD o.y res
  onCore (flagsLogic .long res)

def opSwap : Emu Unit := do
  let dst ← regD o.y
  let res := dst >>> 16 ||| dst <<< 16
  setRegD o.y res
  onCore (flagsLogic .long res)

def opLink : Emu Unit := do
  push32 (← regA o.y)
  setRegA o.y (← regA 7)
  let displacement := makeInt .word (← readImm16)
  setRegA 7 ((← regA 7) + displacement)

/-- The stack pointer is stored after it has moved. -/
def opLinkA7 : Emu Unit := do
  setRegA 7 ((← regA 7) - 4)
  m68kiWrite .long (← regA 7) (← regA 7)
  let displacement := makeInt .word (← readImm16)
  setRegA 7 ((← regA 7) + displacement)

def opUnlk : Emu Unit := do
  setRegA 7 (← regA o.y)
  setRegA o.y (← pull32)

def opUnlkA7 : Emu Unit := do setRegA 7 (← m68kiRead .long (← regA 7))

end Addresses

end Tosemu.M68k
