import Tosemu.Endian
import Tosemu.Memory

/-!
`main` and `init_tos_environment`, up to the point where the CPU is set up. Host allocations succeed
and hold what `Heap` says. An access outside the file or outside `te->appmem` ends the load with the
index; the bytes that a too long command line puts behind the basepage are kept there and not read.
-/

namespace Tosemu

inductive LoadStop
  | refused (code : Int)
  | binary (i : ℕ)
  | appmem (i : ℕ)
deriving DecidableEq, Repr

abbrev Load := Except LoadStop

/-- What the blocks that `malloc` returns hold. -/
structure Heap where
  staticmem0 : ℕ → Byte
  staticmem1 : ℕ → Byte
  supermem : ℕ → Byte
  appmem : ℕ → Byte

def readBinary (binary : List Byte) (i : ℕ) : Load Byte :=
  match binary[i]? with
  | some b => .ok b
  | none => .error (.binary i)

def readShort (binary : List Byte) (i : ℕ) : Load (List Byte) := do
  let b0 ← readBinary binary i
  let b1 ← readBinary binary (i + 1)
  return [b0, b1]

def readLong (host : Endian) (binary : List Byte) (i : ℕ) : Load Long := do
  let b0 ← readBinary binary i
  let b1 ← readBinary binary (i + 1)
  let b2 ← readBinary binary (i + 2)
  let b3 ← readBinary binary (i + 3)
  return host.load [b0, b1, b2, b3]

def headerSize : ℕ := 28

/-- The fields that `init_tos_environment` uses, as the host loads them; `absflag` is only compared
with zero. -/
structure ExecHeader where
  tsize : Long
  dsize : Long
  bsize : Long
  ssize : Long
  absflag : Bool

def readHeader (host : Endian) (binary : List Byte) : Load ExecHeader := do
  let tsize ← readLong host binary 2
  let dsize ← readLong host binary 6
  let bsize ← readLong host binary 10
  let ssize ← readLong host binary 14
  let absflag ← readShort binary 26
  return { tsize, dsize, bsize, ssize, absflag := absflag ≠ [0, 0] }

structure TosEnvironment where
  size : BitVec 64
  tsize : Long
  dsize : Long
  bsize : Long
  ssize : Long
  basePath : List Byte

def copySegments (size : BitVec 64) (appmem : ℕ → Byte) (binary : List Byte) (n : Long) :
    Load (ℕ → Byte) :=
  if binary.length < headerSize + n.toNat then .error (.binary binary.length)
  else if size.toNat < n.toNat then .error (.appmem size.toNat)
  else .ok (fun i => if i < n.toNat then binary.getD (headerSize + i) 0 else appmem i)

def strcpy (dest : ℕ → Byte) (n : ℕ) (arg : List Byte) : ℕ → Byte := fun i =>
  if n ≤ i then (arg ++ [0])[i - n]?.getD (dest i) else dest i

def copyArgs : List (List Byte) → ℕ → (ℕ → Byte) → ℕ × (ℕ → Byte)
  | [], n, dest => (n, dest)
  | arg :: argv, n, dest =>
    copyArgs argv (n + 1 + arg.length) (strcpy (Function.update dest n 0x20) (n + 1) arg)

def copyCmdlin (argv : List (List Byte)) (dest : ℕ → Byte) : ℕ → Byte :=
  let r := copyArgs argv 0 dest
  Function.update r.2 0 (BitVec.ofInt 8 (r.1 - 1))

structure Basepage where
  pLowtpa : Long
  pHitpa : Long
  pTbase : Long
  pTlen : Long
  pDbase : Long
  pDlen : Long
  pBbase : Long
  pBlen : Long
  pDta : Long
  pParent : Long
  pReserved : Long
  pEnv : Long
  pUndef : Fin 80 → Byte
  pCmdlin : ℕ → Byte

def Basepage.longs (bp : Basepage) : List Long :=
  [bp.pLowtpa, bp.pHitpa, bp.pTbase, bp.pTlen, bp.pDbase, bp.pDlen, bp.pBbase, bp.pBlen, bp.pDta,
    bp.pParent, bp.pReserved, bp.pEnv]

def Basepage.bytes (host : Endian) (bp : Basepage) : ℕ → Byte := fun i =>
  if i < 48 then (bp.longs.flatMap host.bytes).getD i 0
  else if h : i - 48 < 80 then bp.pUndef ⟨i - 48, h⟩
  else bp.pCmdlin (i - 128)

def prepareBasepage (te : TosEnvironment) (argv : List (List Byte)) : Basepage :=
  let pTbase := endianize32 0x000900
  let pTlen := endianize32 te.tsize
  let pDbase := endianize32 (endianize32 pTbase + endianize32 pTlen)
  let pDlen := endianize32 te.dsize
  { pLowtpa := endianize32 0x000800
    pHitpa := endianize32 ((te.size + 0x900).setWidth 32)
    pTbase := pTbase
    pTlen := pTlen
    pDbase := pDbase
    pDlen := pDlen
    pBbase := endianize32 (endianize32 pDbase + endianize32 pDlen)
    pBlen := endianize32 te.bsize
    pDta := 0x800 + 128
    pParent := 0
    pReserved := 0
    pEnv := endianize32 0x000830
    pUndef := fun _ => 0
    pCmdlin := copyCmdlin argv (fun _ => 0) }

structure TosBuffers where
  staticmem0 : Buffer
  staticmem1 : Buffer
  bp : Buffer
  appmem : Buffer
  supermem : Buffer
  staticmem0_size : staticmem0.size = 0x200
  staticmem1_size : staticmem1.size = 0x600 - 0x380
  bp_size : bp.size = 256
  appmem_size : appmem.size = tosSize.toNat
  supermem_size : supermem.size = 512

def registerAreas (b : TosBuffers) : List Memarea :=
  addPtrMemoryArea (MEMORY_SUPERREAD ||| MEMORY_SUPERWRITE) 0x600 512 b.supermem
    (addPtrMemoryArea MEMORY_READWRITE 0x900 (tosSize.setWidth 32) b.appmem
      (addPtrMemoryArea MEMORY_READWRITE 0x800 0x100 b.bp
        (addPtrMemoryArea (MEMORY_SUPERREAD ||| MEMORY_SUPERWRITE) 0x380 (0x600 - 0x380) b.staticmem1
          (addFnctMemoryArea MEMORY_SUPERREAD 0x200 0x2 .supexec
            (addPtrMemoryArea (MEMORY_READWRITE ||| MEMORY_SUPERWRITE) 0x0 0x1ff b.staticmem0 [])))))

def coldMachine (b : TosBuffers) : Machine where
  cpu := Cpu.coldCore
  memory := registerAreas b
  keepongoing := false
  dreg := fun _ => 0
  areg := fun _ => 0
  crashed := false

def fixup (adr : Long) (m : Machine) : Machine :=
  let r := m68kReadMemory32 adr m
  m68kWriteMemory32 adr (r.1 + 0x900) r.2

/-- The loop over the relocation bytes, which are the rest of the file; `none` when it runs out of
them. -/
def relocateTable : List Byte → Long → Machine → Option Machine
  | [], _, _ => none
  | b :: table, adr, m =>
    if b = 0 then some m
    else if b = 1 then relocateTable table (adr + 0xfe) m
    else relocateTable table (adr + b.setWidth 32) (fixup (adr + b.setWidth 32) m)

def relocate (host : Endian) (binary : List Byte) (te : TosEnvironment) (m : Machine) :
    Load Machine := do
  let ptr := headerSize + te.tsize.toNat + te.dsize.toNat + te.ssize.toNat
  let first ← readLong host binary ptr
  let adr := 0x900 + endianize32 first
  if adr = 0x900 then .ok m
  else match relocateTable (binary.drop (ptr + 4)) adr (fixup adr m) with
    | some m => .ok m
    | none => .error (.binary binary.length)

def basePath : Option (List Byte) → List Byte
  | none => []
  | some path => path ++ [0x2f]

def mapEnvironment (host : Endian) (heap : Heap) (te : TosEnvironment) (argv : List (List Byte))
    (appmem : ℕ → Byte) : Machine :=
  coldMachine
    { staticmem0 := ⟨0x200, heap.staticmem0⟩
      staticmem1 := ⟨0x600 - 0x380, heap.staticmem1⟩
      bp := ⟨256, (prepareBasepage te argv).bytes host⟩
      appmem := ⟨tosSize.toNat, appmem⟩
      supermem := ⟨512, heap.supermem⟩
      staticmem0_size := rfl
      staticmem1_size := rfl
      bp_size := rfl
      appmem_size := rfl
      supermem_size := rfl }

def initTosEnvironment (host : Endian) (heap : Heap) (binary : List Byte) (argv : List (List Byte))
    (tosBasePath : Option (List Byte)) : Load (TosEnvironment × Machine) := do
  if binary.length < headerSize then throw (.refused (-1))
  let header ← readHeader host binary
  let te : TosEnvironment :=
    { size := tosSize
      tsize := endianize32 header.tsize
      dsize := endianize32 header.dsize
      bsize := endianize32 header.bsize
      ssize := endianize32 header.ssize
      basePath := basePath tosBasePath }
  let appmem ← copySegments te.size heap.appmem binary (te.tsize + te.dsize + te.ssize)
  let m := mapEnvironment host heap te argv appmem
  let m ← if header.absflag then .ok m else relocate host binary te m
  return (te, { m with keepongoing := true })

/-- `main`, up to the return of `init_tos_environment`. Mapping an empty file fails with
`MAP_FAILED`, which the test for `NULL` lets through; the page that holds a one-byte file is filled
up with zeros. -/
def loadBinary (host : Endian) (heap : Heap) (binary : List Byte) (argv : List (List Byte))
    (tosBasePath : Option (List Byte)) : Load (TosEnvironment × Machine) :=
  match binary with
  | [] => .error (.binary 0)
  | b0 :: rest =>
    if b0 ≠ 0x60 ∨ rest.headD 0 ≠ 0x1a then .error (.refused (-1))
    else initTosEnvironment host heap binary argv tosBasePath

end Tosemu
