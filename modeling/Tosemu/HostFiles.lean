import Mathlib.Data.List.Basic
import Mathlib.Logic.Function.Basic
import Tosemu.Machine

/-!
The host's files: descriptors of the process, and the streams of the C library over them. No two
descriptors share one file position.
-/

namespace Tosemu.Host

structure OpenFile where
  file : ℕ
  pos : ℕ
  seekable : Bool
deriving DecidableEq

/-- `touched` lists the descriptors through which a system call has reached a file. -/
structure Kernel where
  fds : List (Option OpenFile)
  files : ℕ → List Byte
  touched : List ℕ

inductive Errno
  | ebadf
  | espipe
  | einval
  | eoverflow
deriving DecidableEq, Repr

inductive Whence
  | set
  | cur
  | fileEnd
deriving DecidableEq, Repr

namespace Kernel

def lookup (k : Kernel) (fd : ℕ) : Option OpenFile := (k.fds[fd]?).join

def setFd (fd : ℕ) (o : Option OpenFile) (k : Kernel) : Kernel :=
  { k with fds := k.fds.set fd o, touched := fd :: k.touched }

def lowestFree (k : Kernel) : ℕ := k.fds.findIdx (fun o => o.isNone)

def openFd (o : OpenFile) (k : Kernel) : ℕ × Kernel :=
  -- a new descriptor is the lowest free one
  (k.lowestFree,
    if k.lowestFree < k.fds.length then k.setFd k.lowestFree (some o)
    else { k with fds := k.fds ++ [some o], touched := k.lowestFree :: k.touched })

def truncate (file : ℕ) (k : Kernel) : Kernel :=
  { k with files := Function.update k.files file [] }

def seekBase (o : OpenFile) (k : Kernel) : Whence → ℕ
  | .set => 0
  | .cur => o.pos
  | .fileEnd => (k.files o.file).length

def lseek (fd : ℕ) (offset : Int) (whence : Whence) (k : Kernel) : Except Errno ℕ × Kernel :=
  match k.lookup fd with
  | none => (.error .ebadf, k)
  | some o =>
    let pos := k.seekBase o whence + offset
    if o.seekable = false then (.error .espipe, k.setFd fd (some o))
    else if pos < 0 then (.error .einval, k.setFd fd (some o))
    else if 2 ^ 63 ≤ pos then (.error .eoverflow, k.setFd fd (some o))
    else (.ok pos.toNat, k.setFd fd (some { o with pos := pos.toNat }))

def fstat (fd : ℕ) (k : Kernel) : Option ℕ × Kernel :=
  match k.lookup fd with
  | none => (none, k)
  | some o => (some o.file, k.setFd fd (some o))

def read (fd n : ℕ) (k : Kernel) : List Byte × Kernel :=
  match k.lookup fd with
  | none => ([], k)
  | some o =>
    let data := ((k.files o.file).drop o.pos).take n
    (data, k.setFd fd (some { o with pos := o.pos + data.length }))

def overwrite (content : List Byte) (pos : ℕ) (data : List Byte) : List Byte :=
  content.take pos ++ List.replicate (pos - content.length) 0 ++ data ++
    content.drop (pos + data.length)

def write (fd : ℕ) (data : List Byte) (k : Kernel) : Kernel :=
  match k.lookup fd with
  | none => k
  | some o =>
    if data = [] then k
    else
      { (k.setFd fd (some { o with pos := o.pos + data.length })) with
        files := Function.update k.files o.file (overwrite (k.files o.file) o.pos data) }

def close (fd : ℕ) (k : Kernel) : Kernel :=
  match k.lookup fd with
  | none => k
  | some _ => k.setFd fd none

end Kernel

inductive Mode
  | read
  | write
  | update
deriving DecidableEq, Repr

def Mode.readable : Mode → Bool
  | .write => false
  | _ => true

def Mode.writable : Mode → Bool
  | .read => false
  | _ => true

/-- A `FILE`: what has been read from the descriptor and not been delivered, what has been accepted
and not been written, and the two indicators. -/
structure Stream where
  fd : ℕ
  mode : Mode
  readAhead : List Byte
  pending : List Byte
  error : Bool
  eof : Bool
deriving DecidableEq

namespace Stream

def fopen (fd : ℕ) (mode : Mode) : Stream := ⟨fd, mode, [], [], false, false⟩

/-- What is left to the C library and the host for one transfer: whether the device is asked and fails,
how many bytes are read in advance, and whether written bytes reach the descriptor at once. -/
structure Transfer where
  ioError : Bool
  ahead : ℕ
  flushed : Bool

def fread (len : ℕ) (io : Transfer) (s : Stream) (k : Kernel) : List Byte × Stream × Kernel :=
  -- nothing to transfer leaves the stream as it is, indicators included
  if len = 0 then ([], s, k)
  else if s.mode.readable = false ∨ io.ioError then ([], { s with error := true }, k)
  -- the end-of-file indicator is sticky: the descriptor is not asked again
  else if s.eof then ([], s, k)
  else
    let k := k.write s.fd s.pending
    if len ≤ s.readAhead.length then
      (s.readAhead.take len, { s with readAhead := s.readAhead.drop len, pending := [] }, k)
    else
      let r := k.read s.fd (len - s.readAhead.length + io.ahead)
      let data := s.readAhead ++ r.1
      (data.take len, { s with readAhead := data.drop len, pending := [], eof := data.length < len }, r.2)

def unread (s : Stream) (k : Kernel) : Kernel :=
  match k.lookup s.fd with
  | none => k
  | some o => k.setFd s.fd (some { o with pos := o.pos - s.readAhead.length })

def fwrite (data : List Byte) (io : Transfer) (s : Stream) (k : Kernel) : ℕ × Stream × Kernel :=
  if data = [] then (0, s, k)
  else if s.mode.writable = false ∨ io.ioError then (0, { s with error := true }, k)
  else
    let k := s.unread k
    let pending := s.pending ++ data
    if io.flushed then (data.length, { s with readAhead := [], pending := [] }, k.write s.fd pending)
    else (data.length, { s with readAhead := [], pending := pending }, k)

def fclose (s : Stream) (k : Kernel) : Kernel := (k.write s.fd s.pending).close s.fd

def available (s : Stream) (k : Kernel) : ℕ :=
  match k.lookup s.fd with
  | none => s.readAhead.length
  | some o => s.readAhead.length + ((k.files o.file).length - (o.pos + s.pending.length))

end Stream

end Tosemu.Host
