import Tosemu.Basic
import Tosemu.HostFiles
import Tosemu.Memory

namespace Tosemu.File

open Host

structure Fhandle where
  f : Option Stream
  flags : Long

def HANDLES : ℕ := 10
def HANDLE_ALLOCATED : Long := 0x001

def Fhandle.allocated (slot : Fhandle) : Bool := slot.flags &&& HANDLE_ALLOCATED ≠ 0

theorem Fhandle.allocated_of_flags {slot : Fhandle} (h : slot.flags = HANDLE_ALLOCATED) : slot.allocated = true := by
  rw [allocated, h]
  decide

theorem Fhandle.not_allocated_of_flags {slot : Fhandle} (h : slot.flags = 0) : ¬ slot.allocated = true := by
  rw [allocated, h]
  decide

structure FileState where
  machine : Machine
  kernel : Kernel
  handles : ℕ → Fhandle

def initHandles (i : ℕ) : Fhandle where
  f := if i = 0 then some (Stream.fopen 0 .read) else if i = 1 then some (Stream.fopen 1 .write) else none
  -- handles 0-5 are reserved
  flags := if i < 6 then HANDLE_ALLOCATED else 0

theorem initHandles_allocated (i : ℕ) : (initHandles i).allocated = true ↔ i < 6 := by
  by_cases hi : i < 6
  · exact iff_of_true (Fhandle.allocated_of_flags (if_pos hi)) hi
  · exact iff_of_false (Fhandle.not_allocated_of_flags (if_neg hi)) hi

def gemdosFileInit (machine : Machine) (kernel : Kernel) : FileState := ⟨machine, kernel, initHandles⟩

namespace FileState

def setSlot (i : ℕ) (slot : Fhandle) (σ : FileState) : FileState :=
  { σ with handles := Function.update σ.handles i slot }

def getHandle (f : Stream) (σ : FileState) : Option ℕ × FileState :=
  match (List.range HANDLES).find? (fun i => !(σ.handles i).allocated) with
  | none => (none, σ)
  | some i => (some i, σ.setSlot i ⟨some f, HANDLE_ALLOCATED⟩)

def invalidHandle (h : BitVec 16) (σ : FileState) : Bool :=
  HANDLES ≤ h.toNat || !(σ.handles h.toNat).allocated

end FileState

inductive Path
  | refused
  | failed
  | file (id : ℕ) (seekable : Bool)
deriving DecidableEq

def openStream (id : ℕ) (seekable : Bool) (m : Mode) (σ : FileState) : Stream × FileState :=
  let k := if m = .write then σ.kernel.truncate id else σ.kernel
  let r := k.openFd ⟨id, 0, seekable⟩
  (Stream.fopen r.1 m, { σ with kernel := r.2 })

def openMode (mode : BitVec 16) : Option Mode :=
  match (mode &&& 0x3).toNat with
  | 0 => some .read
  | 1 => some .write
  | 2 => some .update
  | _ => none

/-! A call returns nothing where it hands a null `FILE` to the C library. -/

def gemdosFcreate (path : Path) (σ : FileState) : Option Long × FileState :=
  match path with
  | .refused => (some GEMDOS_EFILNF, σ)
  | .failed => (some GEMDOS_EACCDN, σ)
  | .file id seekable =>
    let r := openStream id seekable .write σ
    match r.2.getHandle r.1 with
    | (none, σ) => (some (-1), σ)
    | (some h, σ) => (some (BitVec.ofNat 32 h), σ)

def gemdosFopen (path : Path) (mode : BitVec 16) (σ : FileState) : Option Long × FileState :=
  match path, openMode mode with
  | .refused, _ => (some GEMDOS_EFILNF, σ)
  | _, none => (some GEMDOS_EINVAL, σ)
  | .failed, _ => (some GEMDOS_EFILNF, σ)
  | .file id seekable, some m =>
    let r := openStream id seekable m σ
    match r.2.getHandle r.1 with
    | (none, σ) => (some GEMDOS_ENHNDL, σ)
    | (some h, σ) => (some (BitVec.ofNat 32 h), σ)

def gemdosFclose (h : BitVec 16) (σ : FileState) : Option Long × FileState :=
  if σ.invalidHandle h then (some GEMDOS_EIHNDL, σ)
  else
    let slot := σ.handles h.toNat
    let σ := σ.setSlot h.toNat { slot with flags := 0 }
    match slot.f with
    | none => (none, σ)
    | some s => (some GEMDOS_E_OK, { σ with kernel := s.fclose σ.kernel })

def copyOut (buf : Long) : List Byte → Machine → Machine
  | [], m => m
  | b :: bs, m => copyOut (buf + 1) bs (m68kWriteMemory8 buf (b.setWidth 32) m)

def copyIn (buf : Long) : ℕ → Machine → List Byte × Machine
  | 0, m => ([], m)
  | n + 1, m =>
    let r := m68kReadMemory8 buf m
    let rest := copyIn (buf + 1) n r.2
    (r.1.setWidth 8 :: rest.1, rest.2)

/-- What is left to the host for `Fread` and `Fwrite`: whether `malloc` succeeds, and the transfer. -/
structure Io where
  memory : Bool
  transfer : Stream.Transfer

def gemdosFread (h : BitVec 16) (len buf : Long) (io : Io) (σ : FileState) :
    Option Long × FileState :=
  if σ.invalidHandle h then (some GEMDOS_EIHNDL, σ)
  else if io.memory = false then (some GEMDOS_ENSMEM, σ)
  else
    let slot := σ.handles h.toNat
    match slot.f with
    | none => (none, σ)
    | some s =>
      let r := s.fread len.toNat io.transfer σ.kernel
      let σ := { σ.setSlot h.toNat { slot with f := some r.2.1 } with kernel := r.2.2 }
      if r.2.1.error then (some GEMDOS_EINTRN, σ)
      else (some (BitVec.ofNat 32 r.1.length), { σ with machine := copyOut buf r.1 σ.machine })

def gemdosFwrite (h : BitVec 16) (len buf : Long) (io : Io) (σ : FileState) :
    Option Long × FileState :=
  if σ.invalidHandle h then (some GEMDOS_EIHNDL, σ)
  else if io.memory = false then (some GEMDOS_ENSMEM, σ)
  else
    let slot := σ.handles h.toNat
    let tmp := copyIn buf len.toNat σ.machine
    let σ := { σ with machine := tmp.2 }
    match slot.f with
    | none => (none, σ)
    | some s =>
      let r := s.fwrite tmp.1 io.transfer σ.kernel
      let σ := { σ.setSlot h.toNat { slot with f := some r.2.1 } with kernel := r.2.2 }
      if r.2.1.error then (some GEMDOS_EINTRN, σ) else (some (BitVec.ofNat 32 r.1), σ)

def seekWhence (seekmode : BitVec 16) : Option Whence :=
  match seekmode.toNat with
  | 0 => some .set
  | 1 => some .cur
  | 2 => some .fileEnd
  | _ => none

def seekError : Errno → Long
  | .ebadf => GEMDOS_EIHNDL
  | .espipe => GEMDOS_EACCDN
  | .einval => GEMDOS_EINVAL
  | .eoverflow => GEMDOS_EINTRN

def gemdosFseek (offset : Long) (h seekmode : BitVec 16) (σ : FileState) : Option Long × FileState :=
  match seekWhence seekmode with
  | none => (some GEMDOS_EINVAL, σ)
  | some whence =>
    -- the handle goes to the host as a descriptor
    let r := σ.kernel.lseek h.toNat offset.toInt whence
    let σ := { σ with kernel := r.2 }
    match r.1 with
    | .error e => (some (seekError e), σ)
    | .ok pos => (some (BitVec.ofNat 32 pos), σ)

structure Tm where
  sec : Int
  min : Int
  hour : Int
  mday : Int
  mon : Int
  year : Int

def datime (lt : Tm) : Long :=
  BitVec.ofInt 32 (lt.sec.tdiv 2) ||| BitVec.ofInt 32 lt.min <<< 5 |||
    BitVec.ofInt 32 lt.hour <<< 11 ||| BitVec.ofInt 32 lt.mday <<< 16 |||
    BitVec.ofInt 32 (lt.mon + 1) <<< 21 ||| BitVec.ofInt 32 (lt.year - 80) <<< 25

def gemdosFdatime (ptr : Long) (h wflag : BitVec 16) (mtime : ℕ → Tm) (σ : FileState) :
    Option Long × FileState :=
  if wflag = 0 then
    -- the handle goes to the host as a descriptor
    let r := σ.kernel.fstat h.toNat
    match r.1 with
    | some file =>
      (some 0, { σ with kernel := r.2, machine := m68kWriteMemory32 ptr (datime (mtime file)) σ.machine })
    -- `fstat` has returned `-1`, which is compared with `EBADF`
    | none => (some GEMDOS_EINTRN, σ)
  else (some GEMDOS_EINVAL, σ)

inductive FileCall
  | fopen (path : Path) (mode : BitVec 16)
  | fcreate (path : Path)
  | fclose (h : BitVec 16)
  | fread (h : BitVec 16) (len buf : Long) (io : Io)
  | fwrite (h : BitVec 16) (len buf : Long) (io : Io)
  | fseek (offset : Long) (h seekmode : BitVec 16)
  | fdatime (ptr : Long) (h wflag : BitVec 16) (mtime : ℕ → Tm)

def fileStep (σ : FileState) : FileCall → Option Long × FileState
  | .fopen path mode => gemdosFopen path mode σ
  | .fcreate path => gemdosFcreate path σ
  | .fclose h => gemdosFclose h σ
  | .fread h len buf io => gemdosFread h len buf io σ
  | .fwrite h len buf io => gemdosFwrite h len buf io σ
  | .fseek offset h seekmode => gemdosFseek offset h seekmode σ
  | .fdatime ptr h wflag mtime => gemdosFdatime ptr h wflag mtime σ

end Tosemu.File
