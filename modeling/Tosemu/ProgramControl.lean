import Tosemu.DataMovement

namespace Tosemu.M68k

open Cpu

section Conditions

/-- The rows of `g_cc_table` after T and F. -/
inductive Cc
  | hi
  | ls
  | cc
  | cs
  | ne
  | eq
  | vc
  | vs
  | pl
  | mi
  | ge
  | lt
  | gt
  | le
deriving DecidableEq, Repr

def condCs (c : Core) : Bool := c.cFlag &&& 0x100 ≠ 0
def condCc (c : Core) : Bool := !condCs c
def condVs (c : Core) : Bool := c.vFlag &&& 0x80 ≠ 0
def condVc (c : Core) : Bool := !condVs c
def condNe (c : Core) : Bool := c.notZFlag ≠ 0
def condEq (c : Core) : Bool := !condNe c
def condMi (c : Core) : Bool := c.nFlag &&& 0x80 ≠ 0
def condPl (c : Core) : Bool := !condMi c
def condLt (c : Core) : Bool := (c.nFlag ^^^ c.vFlag) &&& 0x80 ≠ 0
def condGe (c : Core) : Bool := !condLt c
def condHi (c : Core) : Bool := condCc c && condNe c
def condLs (c : Core) : Bool := condCs c || condEq c
def condGt (c : Core) : Bool := condGe c && condNe c
def condLe (c : Core) : Bool := condLt c || condEq c

/-- `M68KMAKE_CC` -/
def Cc.cond : Cc → Core → Bool
  | .hi => condHi
  | .ls => condLs
  | .cc => condCc
  | .cs => condCs
  | .ne => condNe
  | .eq => condEq
  | .vc => condVc
  | .vs => condVs
  | .pl => condPl
  | .mi => condMi
  | .ge => condGe
  | .lt => condLt
  | .gt => condGt
  | .le => condLe

/-- `M68KMAKE_NOT_CC` -/
def Cc.notCond : Cc → Core → Bool
  | .hi => condLs
  | .ls => condHi
  | .cc => condCs
  | .cs => condCc
  | .ne => condEq
  | .eq => condNe
  | .vc => condVs
  | .vs => condVc
  | .pl => condMi
  | .mi => condPl
  | .ge => condLt
  | .lt => condGe
  | .gt => condLe
  | .le => condGt

theorem notCond_eq (k : Cc) (c : Core) : k.notCond c = !k.cond c := by
  cases k <;> simp [Cc.notCond, Cc.cond, condHi, condLs, condCc, condVc, condEq, condPl, condGe,
    condGt, condLe]

end Conditions

section Branches

variable (o : Insn)

/-- The displacement counts from the extension word. -/
def branchWord : Emu Unit := do
  let offset ← readImm16
  setPc ((← regPc) - 2)
  branch16 offset

def skipWord : Emu Unit := do setPc ((← regPc) + 2)

def opBra8 : Emu Unit := branch8 (o.ir.setWidth 32)

def opBra16 : Emu Unit := branchWord

def opBsr8 : Emu Unit := do
  push32 (← regPc)
  branch8 (o.ir.setWidth 32)

def opBsr16 : Emu Unit := do
  let offset ← readImm16
  push32 (← regPc)
  setPc ((← regPc) - 2)
  branch16 offset

def opBcc8 (k : Cc) : Emu Unit := do
  if k.cond (← core) then branch8 (o.ir.setWidth 32)

def opBcc16 (k : Cc) : Emu Unit := do
  if k.cond (← core) then branchWord else skipWord

/-- The counter is the low word of the register. -/
def opDbf : Emu Unit := do
  let dst ← regD o.y
  let res := maskOutAbove .word (dst - 1)
  setRegD o.y (maskOutBelow .word dst ||| res)
  if res ≠ 0xffff then branchWord else skipWord

def opDbt : Emu Unit := skipWord

def opDbcc (k : Cc) : Emu Unit := do
  if k.notCond (← core) then opDbf o else skipWord

def opSccD (taken : Core → Bool) : Emu Unit := do
  let dst ← regD o.y
  if taken (← core) then setRegD o.y (dst ||| 0xff) else setRegD o.y (dst &&& 0xffffff00)

def opScc (taken : Core → Bool) (ea : Ea) : Emu Unit := do
  let ea ← getEa .byte o.y ea
  m68kiWrite .byte ea (if taken (← core) then 0xff else 0)

end Branches

section Subroutines

variable (o : Insn)

def opJmp (ea : Ea) : Emu Unit := do setPc (← getEa .long o.y ea)

def opJsr (ea : Ea) : Emu Unit := do
  let ea ← getEa .long o.y ea
  push32 (← regPc)
  setPc ea

def opRts : Emu Unit := do setPc (← pull32)

def opRtr : Emu Unit := do
  let ccr ← pull16
  onCore (setCcr ccr)
  setPc (← pull32)

def opRte : Emu Unit := do
  if (← core).sFlag then
    let newSr ← pull16
    let newPc ← pull32
    setPc newPc
    onCore (setSr newSr)
  else exceptionPrivilegeViolation o

end Subroutines

section Traps

variable (o : Insn)

def opTrap (m68kTrap : Long → Machine → Machine) : Emu Unit :=
  exceptionTrapN m68kTrap (EXCEPTION_TRAP_BASE + (o.ir.setWidth 32 &&& 0xf))

def opTrapv : Emu Unit := do
  if condVc (← core) then pure () else exceptionTrap EXCEPTION_TRAPV

/-- The reset line goes nowhere. -/
def opReset : Emu Unit := do
  if (← core).sFlag then pure () else exceptionPrivilegeViolation o

def opStop : Emu Bool := do
  if (← core).sFlag then
    let newSr ← readImm16
    onCore (setSr newSr)
    return true
  else
    exceptionPrivilegeViolation o
    return false

end Traps

end Tosemu.M68k
