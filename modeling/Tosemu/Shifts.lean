import Tosemu.Arithmetic

/-!
The shifts and rotates of `m68k_in.c`. A handler moves all the bits of a count at once; `Shifted`
is what it makes of its operand. Where the source leaves the register alone, `res` is what the
register holds already, and X stays where `x` has nothing.
-/

namespace Tosemu.M68k

open Cpu

structure Shifted where
  res : Long
  c : Long
  x : Option Long
  n : Long
  z : Long
  v : Long

def allOnes (w : Width) : Long := maskOutAbove w 0xffffffff

def shift8Table : List Long :=
  [0x00, 0x80, 0xc0, 0xe0, 0xf0, 0xf8, 0xfc, 0xfe] ++ List.replicate 57 0xff

def shift16Table : List Long :=
  [0x0000, 0x8000, 0xc000, 0xe000, 0xf000, 0xf800, 0xfc00, 0xfe00, 0xff00, 0xff80, 0xffc0, 0xffe0,
    0xfff0, 0xfff8, 0xfffc, 0xfffe] ++ List.replicate 49 0xffff

def shift32Table : List Long :=
  [0x00000000, 0x80000000, 0xc0000000, 0xe0000000, 0xf0000000, 0xf8000000, 0xfc000000, 0xfe000000,
    0xff000000, 0xff800000, 0xffc00000, 0xffe00000, 0xfff00000, 0xfff80000, 0xfffc0000, 0xfffe0000,
    0xffff0000, 0xffff8000, 0xffffc000, 0xffffe000, 0xfffff000, 0xfffff800, 0xfffffc00, 0xfffffe00,
    0xffffff00, 0xffffff80, 0xffffffc0, 0xffffffe0, 0xfffffff0, 0xfffffff8, 0xfffffffc,
    0xfffffffe] ++ List.replicate 33 0xffffffff

def shiftTable (w : Width) (n : ℕ) : Long :=
  match w with
  | .byte => shift8Table.getD n 0
  | .word => shift16Table.getD n 0
  | .long => shift32Table.getD n 0

def notBit (p : Prop) [Decidable p] : Long := if p then 0 else 0x80

section Shift

variable (w : Width) (shift : ℕ) (src : Long)

def unshifted : Shifted := ⟨src, 0, none, nflag w src, src, 0⟩

def asrRes : Long :=
  if w.sign src then src >>> shift ||| shiftTable w shift else src >>> shift

def asrS : Shifted :=
  let res := asrRes w shift src
  let c := src <<< (9 - shift)
  ⟨res, c, some c, nflag w res, res, 0⟩

def asrR : Shifted :=
  if shift ≠ 0 then
    if shift < w.bits then
      let res := asrRes w shift src
      let c := match w with
        | .byte => src <<< (9 - shift)
        | .word | .long => (src >>> (shift - 1)) <<< 8
      ⟨res, c, some c, nflag w res, res, 0⟩
    else if w.sign src then ⟨allOnes w, 0x100, some 0x100, 0x80, 0xffffffff, 0⟩
    else ⟨0, 0, some 0, 0, 0, 0⟩
  else unshifted w src

def aslS : Shifted :=
  let res := maskOutAbove w (src <<< shift)
  let c := match w with
    | .byte => src <<< shift
    | .word => src >>> (8 - shift)
    | .long => src >>> (24 - shift)
  let table := shiftTable w (shift + 1)
  let top := src &&& table
  let v := match w with
    | .byte => notBit (top = 0 ∨ top = table ∧ shift < 8)
    | .word | .long => notBit (top = 0 ∨ top = table)
  ⟨res, c, some c, nflag w res, res, v⟩

def aslR : Shifted :=
  if shift ≠ 0 then
    if shift < w.bits then
      let res := maskOutAbove w (src <<< shift)
      let c := match w with
        | .byte => src <<< shift
        | .word => (src <<< shift) >>> 8
        | .long => (src >>> (32 - shift)) <<< 8
      let table := shiftTable w (shift + 1)
      let top := src &&& table
      ⟨res, c, some c, nflag w res, res, notBit (top = 0 ∨ top = table)⟩
    else
      let c := (if shift = w.bits then src &&& 1 else 0) <<< 8
      ⟨0, c, some c, 0, 0, notBit (src = 0)⟩
  else unshifted w src

def lsrS : Shifted :=
  let res := src >>> shift
  let c := src <<< (9 - shift)
  ⟨res, c, some c, 0, res, 0⟩

def lsrR : Shifted :=
  if shift ≠ 0 then
    match w with
    | .byte =>
      if shift ≤ 8 then
        let c := src <<< (9 - shift)
        ⟨src >>> shift, c, some c, 0, src >>> shift, 0⟩
      else ⟨0, 0, some 0, 0, 0, 0⟩
    | .word =>
      if shift ≤ 16 then
        let c := (src >>> (shift - 1)) <<< 8
        ⟨src >>> shift, c, some c, 0, src >>> shift, 0⟩
      else ⟨0, 0, some 0, 0, 0, 0⟩
    | .long =>
      if shift < 32 then
        let c := (src >>> (shift - 1)) <<< 8
        ⟨src >>> shift, c, some c, 0, src >>> shift, 0⟩
      else
        let c := if shift = 32 then (src &&& 0x80000000) >>> 23 else 0
        ⟨0, c, some c, 0, 0, 0⟩
  else unshifted w src

def lslS : Shifted :=
  let res := maskOutAbove w (src <<< shift)
  let c := match w with
    | .byte => src <<< shift
    | .word => src >>> (8 - shift)
    | .long => src >>> (24 - shift)
  ⟨res, c, some c, nflag w res, res, 0⟩

def lslR : Shifted :=
  if shift ≠ 0 then
    let res := maskOutAbove w (src <<< shift)
    match w with
    | .byte =>
      if shift ≤ 8 then
        let c := src <<< shift
        ⟨res, c, some c, nflag w res, res, 0⟩
      else ⟨0, 0, some 0, 0, 0, 0⟩
    | .word =>
      if shift ≤ 16 then
        let c := (src <<< shift) >>> 8
        ⟨res, c, some c, nflag w res, res, 0⟩
      else ⟨0, 0, some 0, 0, 0, 0⟩
    | .long =>
      if shift < 32 then
        let c := (src >>> (32 - shift)) <<< 8
        ⟨res, c, some c, nflag w res, res, 0⟩
      else
        let c := (if shift = 32 then src &&& 1 else 0) <<< 8
        ⟨0, c, some c, 0, 0, 0⟩
  else unshifted w src

end Shift

section Rotate

variable (w : Width) (shift : ℕ) (a src : Long)

/-- `ROL_8`, `ROL_16` and `ROL_32`; a shift by 32 bits gives zero. -/
def rolMacro : Long := maskOutAbove w (a <<< shift ||| a >>> (w.bits - shift))

def rorMacro : Long := maskOutAbove w (a >>> shift ||| a <<< (w.bits - shift))

def rotated (res c : Long) : Shifted := ⟨res, c, none, nflag w res, res, 0⟩

def rorS : Shifted :=
  match w with
  | .byte => rotated .byte (rorMacro .byte (shift % 8) src) (src <<< (9 - shift))
  | .word => rotated .word (rorMacro .word shift src) (src <<< (9 - shift))
  | .long => rotated .long (rorMacro .long shift src) (src <<< (9 - shift))

def rorR : Shifted :=
  if shift ≠ 0 then
    match w with
    | .byte => rotated .byte (rorMacro .byte (shift % 8) src) (src <<< (8 - (shift + 7) % 8))
    | .word => rotated .word (rorMacro .word (shift % 16) src) ((src >>> ((shift + 15) % 16)) <<< 8)
    | .long => rotated .long (rorMacro .long (shift % 32) src) ((src >>> ((shift + 31) % 32)) <<< 8)
  else unshifted w src

def rolS : Shifted :=
  match w with
  | .byte => rotated .byte (rolMacro .byte (shift % 8) src) (src <<< shift)
  | .word => rotated .word (rolMacro .word shift src) (src >>> (8 - shift))
  | .long => rotated .long (rolMacro .long shift src) (src >>> (24 - shift))

/-- A long word rotated by 32 takes its carry from a C shift by 32 bits, which is undefined; what is
here for it stands for nothing. -/
def rolR : Shifted :=
  if shift ≠ 0 then
    match w with
    | .byte =>
      if shift % 8 ≠ 0 then rotated .byte (rolMacro .byte (shift % 8) src) (src <<< (shift % 8))
      else rotated .byte src ((src &&& 1) <<< 8)
    | .word =>
      if shift % 16 ≠ 0 then
        rotated .word (rolMacro .word (shift % 16) src) ((src <<< (shift % 16)) >>> 8)
      else rotated .word src ((src &&& 1) <<< 8)
    | .long =>
      rotated .long (rolMacro .long (shift % 32) src) ((src >>> (32 - shift % 32)) <<< 8)
  else unshifted w src

/-- `ROL_9` and `ROL_17` on the operand with X above it. -/
def roxlMacro (bits : ℕ) : Long := a <<< shift ||| a >>> (bits + 1 - shift)

def roxrMacro (bits : ℕ) : Long := a >>> shift ||| a <<< (bits + 1 - shift)

def extended (res : Long) : Shifted :=
  let c := match w with
    | .byte => res
    | .word | .long => res >>> 8
  ⟨maskOutAbove w res, c, some c, nflag w (maskOutAbove w res), maskOutAbove w res, 0⟩

/-- `ROL_33` with the bit of X put in afterwards, where there are no words of 64 bits. -/
def roxl32 (x : Long) : Shifted :=
  let rol33 := src <<< shift ||| src >>> (33 - shift)
  let res := (rol33 &&& ~~~((1 : Long) <<< (shift - 1))) ||| x <<< (shift - 1)
  let c : Long := if src &&& (1 : Long) <<< (32 - shift) ≠ 0 then 0x100 else 0
  ⟨res, c, some c, nflag .long res, res, 0⟩

def roxr32 (x : Long) : Shifted :=
  let ror33 := src >>> shift ||| src <<< (33 - shift)
  let res := (ror33 &&& ~~~((1 : Long) <<< (32 - shift))) ||| x <<< (32 - shift)
  let c : Long := if src &&& (1 : Long) <<< (shift - 1) ≠ 0 then 0x100 else 0
  ⟨res, c, some c, nflag .long res, res, 0⟩

def roxlS (x : Long) : Shifted :=
  match w with
  | .byte => extended .byte (roxlMacro shift (src ||| x <<< 8) 8)
  | .word => extended .word (roxlMacro shift (src ||| x <<< 16) 16)
  | .long => roxl32 shift src x

def roxrS (x : Long) : Shifted :=
  match w with
  | .byte => extended .byte (roxrMacro shift (src ||| x <<< 8) 8)
  | .word => extended .word (roxrMacro shift (src ||| x <<< 16) 16)
  | .long => roxr32 shift src x

/-- A rotate through X by nothing copies X into C. -/
def unextended (xFlag : Long) : Shifted := ⟨src, xFlag, none, nflag w src, src, 0⟩

def roxlR (xFlag x : Long) : Shifted :=
  match w with
  | .byte =>
    if shift ≠ 0 then extended .byte (roxlMacro (shift % 9) (src ||| x <<< 8) 8)
    else unextended .byte src xFlag
  | .word =>
    if shift ≠ 0 then extended .word (roxlMacro (shift % 17) (src ||| x <<< 16) 16)
    else unextended .word src xFlag
  | .long =>
    if shift % 33 ≠ 0 then roxl32 (shift % 33) src x else unextended .long src xFlag

def roxrR (xFlag x : Long) : Shifted :=
  match w with
  | .byte =>
    if shift ≠ 0 then extended .byte (roxrMacro (shift % 9) (src ||| x <<< 8) 8)
    else unextended .byte src xFlag
  | .word =>
    if shift ≠ 0 then extended .word (roxrMacro (shift % 17) (src ||| x <<< 16) 16)
    else unextended .word src xFlag
  | .long =>
    if shift % 33 ≠ 0 then roxr32 (shift % 33) src x else unextended .long src xFlag

end Rotate

inductive ShiftOp
  | asr
  | asl
  | lsr
  | lsl
  | ror
  | rol
  | roxr
  | roxl
deriving DecidableEq, Repr

section Handlers

variable (w : Width) (o : Insn)

/-- The `s` handlers, whose count of 1 to 8 is in the instruction. -/
def ShiftOp.static (k : ShiftOp) (shift : ℕ) (src : Long) (c : Core) : Shifted :=
  match k with
  | .asr => asrS w shift src
  | .asl => aslS w shift src
  | .lsr => lsrS shift src
  | .lsl => lslS w shift src
  | .ror => rorS w shift src
  | .rol => rolS w shift src
  | .roxr => roxrS w shift src (xflagAs1 c)
  | .roxl => roxlS w shift src (xflagAs1 c)

/-- The `r` handlers, whose count of 0 to 63 is in a data register. -/
def ShiftOp.counted (k : ShiftOp) (shift : ℕ) (src : Long) (c : Core) : Shifted :=
  match k with
  | .asr => asrR w shift src
  | .asl => aslR w shift src
  | .lsr => lsrR w shift src
  | .lsl => lslR w shift src
  | .ror => rorR w shift src
  | .rol => rolR w shift src
  | .roxr => roxrR w shift src c.xFlag (xflagAs1 c)
  | .roxl => roxlR w shift src c.xFlag (xflagAs1 c)

/-- The handlers for a word in memory, which shift by one. -/
def ShiftOp.memory (k : ShiftOp) (src : Long) (c : Core) : Shifted :=
  let word (res carry : Long) (x : Option Long) (n v : Long) : Shifted :=
    ⟨maskOutAbove .word res, carry, x, n, maskOutAbove .word res, v⟩
  match k with
  | .asr =>
    let res := if w.sign src then src >>> 1 ||| 0x8000 else src >>> 1
    word res (src <<< 8) (some (src <<< 8)) (nflag .word res) 0
  | .asl =>
    let res := maskOutAbove .word (src <<< 1)
    let top := src &&& 0xc000
    word res (src >>> 7) (some (src >>> 7)) (nflag .word res) (notBit (top = 0 ∨ top = 0xc000))
  | .lsr => word (src >>> 1) (src <<< 8) (some (src <<< 8)) 0 0
  | .lsl =>
    let res := maskOutAbove .word (src <<< 1)
    word res (src >>> 7) (some (src >>> 7)) (nflag .word res) 0
  | .ror =>
    let res := rorMacro .word 1 src
    word res (src <<< 8) none (nflag .word res) 0
  | .rol =>
    let res := rolMacro .word 1 src
    word res (src >>> 7) none (nflag .word res) 0
  | .roxr => extended .word (roxrMacro 1 (src ||| xflagAs1 c <<< 16) 16)
  | .roxl => extended .word (roxlMacro 1 (src ||| xflagAs1 c <<< 16) 16)

def setShifted (r : Shifted) : Emu Unit :=
  onCore fun c => { c with
    cFlag := r.c, xFlag := r.x.getD c.xFlag, nFlag := r.n, notZFlag := r.z, vFlag := r.v }

def opShiftS (k : ShiftOp) : Emu Unit := do
  let src := maskOutAbove w (← regD o.y)
  let r := k.static w o.quick.toNat src (← core)
  putD w o.y r.res
  setShifted r

def opShiftR (k : ShiftOp) : Emu Unit := do
  let shift := ((← regD o.x) &&& 0x3f).toNat
  let src := maskOutAbove w (← regD o.y)
  let r := k.counted w shift src (← core)
  putD w o.y r.res
  setShifted r

def opShiftMem (k : ShiftOp) (ea : Ea) : Emu Unit := do
  let ea ← getEa .word o.y ea
  let src ← m68kiRead .word ea
  let r := k.memory .word src (← core)
  m68kiWrite .word ea r.res
  setShifted r

end Handlers

end Tosemu.M68k
