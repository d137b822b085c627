import Tosemu.Operands

/-!
The handlers of `m68k_in.c` that compute: addition, subtraction and comparison, decimal digits,
products and quotients, logic and single bits. A handler here stands for the members of its family
in the source: the size, where the source operand comes from and the addressing mode are arguments.
-/

namespace Tosemu.M68k

open Cpu

section Sums

variable (w : Width)

def add (src dst : Long) : Emu Long := do
  let res := src + dst
  onCore fun c => { c with
    nFlag := nflag w res
    vFlag := vflagAdd w src dst res
    xFlag := cflagAdd w src dst res
    cFlag := cflagAdd w src dst res
    notZFlag := maskOutAbove w res }
  return maskOutAbove w res

def sub (src dst : Long) : Emu Long := do
  let res := dst - src
  onCore fun c => { c with
    nFlag := nflag w res
    vFlag := vflagSub w src dst res
    xFlag := cflagSub w src dst res
    cFlag := cflagSub w src dst res
    notZFlag := maskOutAbove w res }
  return maskOutAbove w res

def cmp (src dst : Long) : Emu Unit := do
  let res := dst - src
  onCore fun c => { c with
    nFlag := nflag w res
    notZFlag := maskOutAbove w res
    vFlag := vflagSub w src dst res
    cFlag := cflagSub w src dst res }

/-- The Z flag is only ever cleared: `FLAG_Z |= res`. -/
def addx (src dst : Long) : Emu Long := do
  let res := src + dst + xflagAs1 (← core)
  onCore fun c => { c with
    nFlag := nflag w res
    vFlag := vflagAdd w src dst res
    xFlag := cflagAdd w src dst res
    cFlag := cflagAdd w src dst res
    notZFlag := c.notZFlag ||| maskOutAbove w res }
  return maskOutAbove w res

def subx (src dst : Long) : Emu Long := do
  let res := dst - src - xflagAs1 (← core)
  onCore fun c => { c with
    nFlag := nflag w res
    xFlag := cflagSub w src dst res
    cFlag := cflagSub w src dst res
    vFlag := vflagSub w src dst res
    notZFlag := c.notZFlag ||| maskOutAbove w res }
  return maskOutAbove w res

def vflagNeg (src res : Long) : Long :=
  match w with
  | .byte => src &&& res
  | .word => (src &&& res) >>> 8
  | .long => (src &&& res) >>> 24

/-- The overflow is taken from the whole register. -/
def neg (raw : Long) : Emu Long := do
  let src := maskOutAbove w raw
  let res := 0 - src
  onCore fun c => { c with
    nFlag := nflag w res
    cFlag := cflagSub w src 0 res
    xFlag := cflagSub w src 0 res
    vFlag := vflagNeg w raw res
    notZFlag := maskOutAbove w res }
  return maskOutAbove w res

def negx (raw : Long) : Emu Long := do
  let src := maskOutAbove w raw
  let res := 0 - src - xflagAs1 (← core)
  onCore fun c => { c with
    nFlag := nflag w res
    xFlag := cflagSub w src 0 res
    cFlag := cflagSub w src 0 res
    vFlag := vflagNeg w raw res
    notZFlag := c.notZFlag ||| maskOutAbove w res }
  return maskOutAbove w res

end Sums

section Places

variable (w : Width) (op : Long → Long → Emu Long) (o : Insn)

/-- `er`: the source operand goes into the data register. -/
def binaryEr (s : Src) : Emu Unit := do
  let src ← operand w o s
  let dst := maskOutAbove w (← regD o.x)
  putD w o.x (← op src dst)

/-- `re`: the data register goes into memory. -/
def binaryRe (ea : Ea) : Emu Unit := do
  let ea ← getEa w o.y ea
  let src := maskOutAbove w (← regD o.x)
  let dst ← m68kiRead w ea
  m68kiWrite w ea (← op src dst)

def binaryD (src : Emu Long) : Emu Unit := do
  let src ← src
  let dst := maskOutAbove w (← regD o.y)
  putD w o.y (← op src dst)

def binaryEa (src : Emu Long) (ea : Ea) : Emu Unit := do
  let src ← src
  let ea ← getEa w o.y ea
  let dst ← m68kiRead w ea
  m68kiWrite w ea (← op src dst)

/-- `rr` and `mm` of the operations with carry. -/
def binaryRr : Emu Unit := do
  let src := maskOutAbove w (← regD o.y)
  let dst := maskOutAbove w (← regD o.x)
  putD w o.x (← op src dst)

def binaryMm (eaY eaX : Ea) : Emu Unit := do
  let src ← operEa w o.y eaY
  let ea ← getEa w o.x eaX
  let dst ← m68kiRead w ea
  m68kiWrite w ea (← op src dst)

def unaryD (op : Long → Emu Long) : Emu Unit := do
  putD w o.y (← op (← regD o.y))

def unaryEa (op : Long → Emu Long) (ea : Ea) : Emu Unit := do
  let ea ← getEa w o.y ea
  let src ← m68kiRead w ea
  m68kiWrite w ea (← op src)

end Places

section AddSub

variable (w : Width) (o : Insn)

def addressOperand (s : Src) : Emu Long := do return makeInt w (← operand w o s)

def opAddEr (s : Src) : Emu Unit := binaryEr w (add w) o s
def opAddRe (ea : Ea) : Emu Unit := binaryRe w (add w) o ea
def opAddiD : Emu Unit := binaryD w (add w) o (operI w)
def opAddi (ea : Ea) : Emu Unit := binaryEa w (add w) o (operI w) ea
def opAddqD : Emu Unit := binaryD w (add w) o (pure o.quick)
def opAddq (ea : Ea) : Emu Unit := binaryEa w (add w) o (pure o.quick) ea
def opAddxRr : Emu Unit := binaryRr w (addx w) o
def opAddxMm (eaY eaX : Ea) : Emu Unit := binaryMm w (addx w) o eaY eaX

/-- Whether the operand's own step comes before the read of AX, as here, is left open by C, and shows where
both are one register. -/
def opAdda (s : Src) : Emu Unit := do
  let src ← addressOperand w o s
  setRegA o.x ((← regA o.x) + src)

def opAddqA : Emu Unit := do setRegA o.y ((← regA o.y) + o.quick)

def opSubEr (s : Src) : Emu Unit := binaryEr w (sub w) o s
def opSubRe (ea : Ea) : Emu Unit := binaryRe w (sub w) o ea
def opSubiD : Emu Unit := binaryD w (sub w) o (operI w)
def opSubi (ea : Ea) : Emu Unit := binaryEa w (sub w) o (operI w) ea
def opSubqD : Emu Unit := binaryD w (sub w) o (pure o.quick)
def opSubq (ea : Ea) : Emu Unit := binaryEa w (sub w) o (pure o.quick) ea
def opSubxRr : Emu Unit := binaryRr w (subx w) o
def opSubxMm (eaY eaX : Ea) : Emu Unit := binaryMm w (subx w) o eaY eaX

/-- The operand comes first, as in `opAdda`. -/
def opSuba (s : Src) : Emu Unit := do
  let src ← addressOperand w o s
  setRegA o.x ((← regA o.x) - src)

def opSubqA : Emu Unit := do setRegA o.y ((← regA o.y) - o.quick)

def opCmp (s : Src) : Emu Unit := do
  let src ← operand w o s
  let dst := maskOutAbove w (← regD o.x)
  cmp w src dst

def opCmpa (s : Src) : Emu Unit := do
  let src ← addressOperand w o s
  let dst ← regA o.x
  cmp .long src dst

def opCmpiD : Emu Unit := do
  let src ← operI w
  let dst := maskOutAbove w (← regD o.y)
  cmp w src dst

def opCmpi (ea : Ea) : Emu Unit := do
  let src ← operI w
  let dst ← operEa w o.y ea
  cmp w src dst

def opCmpm (eaY eaX : Ea) : Emu Unit := do
  let src ← operEa w o.y eaY
  let dst ← operEa w o.x eaX
  cmp w src dst

def opNegD : Emu Unit := unaryD w o (neg w)
def opNeg (ea : Ea) : Emu Unit := unaryEa w o (neg w) ea
def opNegxD : Emu Unit := unaryD w o (negx w)
def opNegx (ea : Ea) : Emu Unit := unaryEa w o (negx w) ea

end AddSub

section Decimal

variable (o : Insn)

def lowNibble (a : Long) : Long := a &&& 0x0f
def highNibble (a : Long) : Long := a &&& 0xf0

def abcd (src dst : Long) : Emu Long := do
  let res := lowNibble src + lowNibble dst + xflagAs1 (← core)
  let v := ~~~res
  let res := if 9 < res then res + 6 else res
  let res := res + (highNibble src + highNibble dst)
  let carry : Long := if 0x99 < res then 0x100 else 0
  let res := if carry ≠ 0 then res - 0xa0 else res
  onCore fun c => { c with
    xFlag := carry
    cFlag := carry
    vFlag := v &&& res
    nFlag := nflag .byte res
    notZFlag := c.notZFlag ||| maskOutAbove .byte res }
  return maskOutAbove .byte res

/-- The difference is unsigned: below zero it is a large number. -/
def sbcd (src dst : Long) : Emu Long := do
  let res := lowNibble dst - lowNibble src - xflagAs1 (← core)
  let v := ~~~res
  let res := if 9 < res then res - 6 else res
  let res := res + (highNibble dst - highNibble src)
  let carry : Long := if 0x99 < res then 0x100 else 0
  let res := maskOutAbove .byte (if carry ≠ 0 then res + 0xa0 else res)
  onCore fun c => { c with
    xFlag := carry
    cFlag := carry
    vFlag := v &&& res
    nFlag := nflag .byte res
    notZFlag := c.notZFlag ||| res }
  return res

/-- Nothing is stored where the result is `0x9a`. -/
def nbcd (dst : Long) : Emu (Option Long) := do
  let res := maskOutAbove .byte (0x9a - dst - xflagAs1 (← core))
  if res ≠ 0x9a then
    let v := ~~~res
    let res := if res &&& 0x0f = 0xa then (res &&& 0xf0) + 0x10 else res
    let res := maskOutAbove .byte res
    onCore fun c => { c with
      vFlag := v &&& res
      notZFlag := c.notZFlag ||| res
      cFlag := 0x100
      xFlag := 0x100
      nFlag := nflag .byte res }
    return some res
  else
    onCore fun c => { c with vFlag := 0, cFlag := 0, xFlag := 0, nFlag := nflag .byte res }
    return none

def opAbcdRr : Emu Unit := binaryRr .byte abcd o
def opAbcdMm (eaY eaX : Ea) : Emu Unit := binaryMm .byte abcd o eaY eaX
def opSbcdRr : Emu Unit := binaryRr .byte sbcd o
def opSbcdMm (eaY eaX : Ea) : Emu Unit := binaryMm .byte sbcd o eaY eaX

def opNbcdD : Emu Unit := do
  match ← nbcd (← regD o.y) with
  | some res => putD .byte o.y res
  | none => pure ()

def opNbcd (ea : Ea) : Emu Unit := do
  let ea ← getEa .byte o.y ea
  match ← nbcd (← m68kiRead .byte ea) with
  | some res => m68kiWrite .byte ea res
  | none => pure ()

end Decimal

section Products

variable (o : Insn) (s : Src)

def flagsLogic (w : Width) (res : Long) (c : Core) : Core :=
  { c with nFlag := nflag w res, notZFlag := res, vFlag := 0, cFlag := 0 }

def opMulu : Emu Unit := do
  let src ← operand .word o s
  let res := src * maskOutAbove .word (← regD o.x)
  setRegD o.x res
  onCore (flagsLogic .long res)

def opMuls : Emu Unit := do
  let src ← operand .word o s
  let res := makeInt .word src * makeInt .word (← regD o.x)
  setRegD o.x res
  onCore (flagsLogic .long res)

def divu (i : Fin 8) (src dst : Long) : Emu Unit :=
  if src ≠ 0 then
    let quotient := dst / src
    let remainder := dst % src
    if quotient < 0x10000 then do
      onCore fun c => { c with notZFlag := quotient, nFlag := nflag .word quotient, vFlag := 0, cFlag := 0 }
      setRegD i (maskOutAbove .word quotient ||| (remainder <<< 16))
    else
      onCore fun c => { c with vFlag := 0x80 }
  else
    exceptionTrap EXCEPTION_ZERO_DIVIDE

/-- C divides towards zero, and the remainder takes the sign of the dividend. -/
def divs (i : Fin 8) (src dst : Long) : Emu Unit :=
  if src ≠ 0 then
    if dst = 0x80000000 ∧ src = -1 then do
      onCore fun c => { c with notZFlag := 0, nFlag := 0, vFlag := 0, cFlag := 0 }
      setRegD i 0
    else
      let quotient := dst.sdiv src
      let remainder := dst.srem src
      if quotient = makeInt .word quotient then do
        onCore fun c => { c with
          notZFlag := quotient, nFlag := quotient.sshiftRight 8, vFlag := 0, cFlag := 0 }
        setRegD i (maskOutAbove .word quotient ||| (remainder <<< 16))
      else
        onCore fun c => { c with vFlag := 0x80 }
  else
    exceptionTrap EXCEPTION_ZERO_DIVIDE

def opDivu : Emu Unit := do
  let src ← operand .word o s
  divu o.x src (← regD o.x)

def opDivs : Emu Unit := do
  let src ← operand .word o s
  divs o.x (makeInt .word src) (← regD o.x)

def opChk : Emu Unit := do
  let src := makeInt .word (← regD o.x)
  let bound := makeInt .word (← operand .word o s)
  onCore fun c => { c with notZFlag := maskOutAbove .word src, vFlag := 0, cFlag := 0 }
  if 0 ≤ src.toInt ∧ src.toInt ≤ bound.toInt then
    pure ()
  else
    onCore fun c => { c with nFlag := if src.toInt < 0 then 0x80 else 0 }
    exceptionTrap EXCEPTION_CHK

end Products

section Logic

variable (w : Width) (o : Insn)

inductive Logic
  | and
  | or
  | eor
deriving DecidableEq, Repr

def fillAbove (a : Long) : Long :=
  match w with
  | .byte => a ||| 0xffffff00
  | .word => a ||| 0xffff0000
  | .long => a

/-- The other operand is as wide as the operation, and the rest of the register stays. -/
def Logic.onReg (l : Logic) (reg a : Long) : Long :=
  match l with
  | .and => reg &&& fillAbove w a
  | .or => reg ||| a
  | .eor => reg ^^^ a

def Logic.onMem (l : Logic) (a b : Long) : Long :=
  match l with
  | .and => a &&& b
  | .or => a ||| b
  | .eor => a ^^^ b

def logicReg (l : Logic) (i : Fin 8) (a : Long) : Emu Unit := do
  let reg := l.onReg w (← regD i) a
  setRegD i reg
  onCore (flagsLogic w (maskOutAbove w reg))

def logicMem (l : Logic) (ea a : Long) : Emu Unit := do
  let res := maskOutAbove w (l.onMem a (← m68kiRead w ea))
  onCore (flagsLogic w res)
  m68kiWrite w ea res

def opLogicEr (l : Logic) (s : Src) : Emu Unit := do logicReg w l o.x (← operand w o s)

def opLogicRe (l : Logic) (ea : Ea) : Emu Unit := do
  let ea ← getEa w o.y ea
  logicMem w l ea (← regD o.x)

/-- `EOR` writes to its effective address, which may be a data register. -/
def opEorD : Emu Unit := do logicReg w .eor o.y (maskOutAbove w (← regD o.x))

def opLogiciD (l : Logic) : Emu Unit := do logicReg w l o.y (← operI w)

def opLogici (l : Logic) (ea : Ea) : Emu Unit := do
  let src ← operI w
  let ea ← getEa w o.y ea
  logicMem w l ea src

def getCcr (c : Core) : Long :=
  ((c.xFlag &&& 0x100) >>> 4) ||| ((c.nFlag &&& 0x80) >>> 4) ||| (onBit (c.notZFlag = 0) 1 <<< 2) |||
    ((c.vFlag &&& 0x80) >>> 6) ||| ((c.cFlag &&& 0x100) >>> 8)

def opLogiciToc (l : Logic) : Emu Unit := do
  let ccr := getCcr (← core)
  let src ← readImm16
  onCore (setCcr (l.onMem ccr src))

def opLogiciTos (l : Logic) : Emu Unit := do
  if (← core).sFlag then
    let src ← readImm16
    onCore fun c => setSr (l.onMem (getSr c) src) c
  else exceptionPrivilegeViolation o

def not (raw : Long) : Emu Long := do
  let res := maskOutAbove w (~~~raw)
  onCore (flagsLogic w res)
  return res

def opNotD : Emu Unit := unaryD w o (not w)
def opNot (ea : Ea) : Emu Unit := unaryEa w o (not w) ea

def opClrD : Emu Unit := do
  putD w o.y 0
  onCore fun c => { c with nFlag := 0, vFlag := 0, cFlag := 0, notZFlag := 0 }

def opClr (ea : Ea) : Emu Unit := do
  m68kiWrite w (← getEa w o.y ea) 0
  onCore fun c => { c with nFlag := 0, vFlag := 0, cFlag := 0, notZFlag := 0 }

def opTst (s : Src) : Emu Unit := do onCore (flagsLogic w (← operand w o s))

def opTasD : Emu Unit := do
  let dst ← regD o.y
  onCore fun c => { c with
    notZFlag := maskOutAbove .byte dst, nFlag := nflag .byte dst, vFlag := 0, cFlag := 0 }
  setRegD o.y (dst ||| 0x80)

def opTas (ea : Ea) : Emu Unit := do
  let ea ← getEa .byte o.y ea
  let dst ← m68kiRead .byte ea
  onCore fun c => { c with notZFlag := dst, nFlag := nflag .byte dst, vFlag := 0, cFlag := 0 }
  m68kiWrite .byte ea (dst ||| 0x80)

end Logic

section Bits

variable (o : Insn)

inductive BitOp
  | bchg
  | bclr
  | bset
deriving DecidableEq, Repr

def BitOp.apply (b : BitOp) (a mask : Long) : Long :=
  match b with
  | .bchg => a ^^^ mask
  | .bclr => a &&& ~~~mask
  | .bset => a ||| mask

inductive BitSource
  | r
  | s
deriving DecidableEq, Repr

def bitNumber : BitSource → Emu Long
  | .r => regD o.x
  | .s => operI .byte

def bitMask (n limit : Long) : Long := 1 <<< (n &&& limit).toNat

def opBitD (b : BitOp) (k : BitSource) : Emu Unit := do
  let mask := bitMask (← bitNumber o k) 0x1f
  let reg ← regD o.y
  onCore fun c => { c with notZFlag := reg &&& mask }
  setRegD o.y (b.apply reg mask)

/-- The register form takes the address first, the immediate form the number. -/
def opBit (b : BitOp) (k : BitSource) (ea : Ea) : Emu Unit := do
  match k with
  | .r =>
    let ea ← getEa .byte o.y ea
    let src ← m68kiRead .byte ea
    let mask := bitMask (← bitNumber o k) 7
    onCore fun c => { c with notZFlag := src &&& mask }
    m68kiWrite .byte ea (b.apply src mask)
  | .s =>
    let mask := bitMask (← bitNumber o k) 7
    let ea ← getEa .byte o.y ea
    let src ← m68kiRead .byte ea
    onCore fun c => { c with notZFlag := src &&& mask }
    m68kiWrite .byte ea (b.apply src mask)

def opBtstD (k : BitSource) : Emu Unit := do
  let mask := bitMask (← bitNumber o k) 0x1f
  let reg ← regD o.y
  onCore fun c => { c with notZFlag := reg &&& mask }

def opBtst (k : BitSource) (ea : Ea) : Emu Unit := do
  match k with
  | .r =>
    let src ← operEa .byte o.y ea
    let mask := bitMask (← bitNumber o k) 7
    onCore fun c => { c with notZFlag := src &&& mask }
  | .s =>
    let mask := bitMask (← bitNumber o k) 7
    let src ← operEa .byte o.y ea
    onCore fun c => { c with notZFlag := src &&& mask }

end Bits

end Tosemu.M68k
