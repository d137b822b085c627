import Tosemu.Allocator
import Tosemu.DtaBounds
import Tosemu.LineInput
import Tosemu.RefusedCalls
import Tosemu.SupervisorStack
import Tosemu.TrapDispatch

/-!
The functions of the GEMDOS, BIOS and XBIOS tables on one state, with their arguments fetched. What the
host and its user answer comes with the call.
-/

namespace Tosemu.Calls

open Gemdos Host Search

structure Tos where
  process : HostState
  dtaAddr : Long
  sid : Long
  globhead : List Globitem
  blocks : Allocator.MemState

namespace Tos

def machine (σ : Tos) : Machine := σ.process.files.machine

def onMachine (m : Machine) (σ : Tos) : Tos := { σ with process := σ.process.onMachine m }

def search (σ : Tos) : SearchState := ⟨σ.machine, σ.dtaAddr, σ.sid, σ.globhead⟩

def onSearch (s : SearchState) (σ : Tos) : Tos :=
  { σ.onMachine s.machine with dtaAddr := s.dtaAddr, sid := s.sid, globhead := s.globhead }

end Tos

/-- Nothing is the end of the file. -/
def getchar (c : Option Byte) : Long := (c.getD 0xff).setWidth 32

/-- The loop of `Cconws`, which has seen every address when it comes round. -/
def cconwsLoop : ℕ → Long → Long → Machine → Option Long × Machine
  | 0, _, _, m => (none, m)
  | n + 1, adr, res, m =>
    let r := m68kReadDisassembler8 adr m
    let ch : Byte := r.1.setWidth 8
    if ch = 0 then (some res, r.2) else cconwsLoop n (adr + 1) (res + 1) r.2

def gemdosTgetdate (lt : File.Tm) : Long :=
  BitVec.ofInt 32 lt.mday ||| BitVec.ofInt 32 (lt.mon + 1) <<< 5 ||| BitVec.ofInt 32 (lt.year - 80) <<< 9

def gemdosTgettime (lt : File.Tm) : Long :=
  BitVec.ofInt 32 (lt.sec.tdiv 2) ||| BitVec.ofInt 32 lt.min <<< 5 ||| BitVec.ofInt 32 lt.hour <<< 11

def fattrib (base tp : List Byte) (σ : HostState) : Long :=
  let r := pathFromTos σ.tree base tp
  if r.1 = 0 then GEMDOS_EFILNF
  else
    match withPath r.2 (σ.tree.resolve (absolute σ.cwd r.2)) with
    | none => GEMDOS_EFILNF
    | some p => modeToAttrib (σ.tree.kind p)

/-- `missing` is an entry without a function, or a number that the table does not have. -/
inductive SysCall
  | pterm
  | pterm0
  | cconin (c : Option Byte)
  | cconout
  | crawio (w : BitVec 16) (available : Bool) (c : Option Byte)
  | crawcin (available : Bool) (c : Option Byte)
  | cnecin (c : Option Byte)
  | cconws (adr : Long)
  | cconrs (init : Console.LocalBuffer) (stdin : List Byte) (lineptr : Long)
  | cconis (available : Bool)
  | cconos
  | dgetdrv
  | fsetdta (addr : Long)
  | super
  | tgetdate (lt : File.Tm)
  | tgettime (lt : File.Tm)
  | fgetdta
  | sversion
  | dcreate (addr : Long)
  | dsetpath (addr : Long)
  | fcreate (addr : Long)
  | fopen (addr : Long) (mode : BitVec 16)
  | fclose (handle : BitVec 16)
  | fread (handle : BitVec 16) (len buf : Long) (io : File.Io)
  | fwrite (handle : BitVec 16) (len buf : Long) (io : File.Io)
  | fdelete (addr : Long)
  | fseek (offset : Long) (handle seekmode : BitVec 16)
  | fattrib (filename : Long)
  | dgetpath (addr : Long)
  | malloc (newsiz : Long)
  | mfree (block : Long)
  | mshrink (block newsiz : Long)
  | fsfirst (filename : Long) (glob : List Byte → Int × List (List Byte)) (stat : List Byte → Stat)
  | fsnext (stat : List Byte → Stat)
  | fdatime (ptr : Long) (handle wflag : BitVec 16) (mtime : ℕ → File.Tm)
  | unknown
  | bconstat (dev : BitVec 16) (available : Bool)
  | bconin (dev : BitVec 16) (available : Bool) (c : Option Byte)
  | bconout
  | setexc (nm : BitVec 16) (vec : Long)
  | bcostat
  | getrez
  | keytbl
  | bioskeys
  | supexec
  | missing

section Call

variable (inode : Position → ℕ) (te : TosEnvironment)

def Tos.onProcess (σ : Tos) (call : HostCall) : Option Long × Tos :=
  let r := hostStep inode te.basePath σ.process call
  (r.1, { σ with process := r.2 })

def Tos.onFiles (σ : Tos) (call : File.FileCall) : Option Long × Tos :=
  let r := File.fileStep σ.process.files call
  (r.1, { σ with process := { σ.process with files := r.2 } })

def Tos.onBlocks (σ : Tos) (call : Allocator.MemCall) : Option Long × Tos :=
  let r := Allocator.memStep σ.blocks call
  (some r.1, { σ with blocks := r.2 })

def Tos.onCpu (σ : Tos) (call : Machine → Long × Machine) : Option Long × Tos :=
  let r := call σ.machine
  (some r.1, σ.onMachine r.2)

def Tos.hostDir (σ : Tos) (glob : List Byte → Int × List (List Byte)) (stat : List Byte → Stat) : HostDir :=
  ⟨σ.process.tree, te.basePath, glob, stat⟩

def Tos.onDir (σ : Tos) (dir : HostDir) (call : SearchCall) : Option Long × Tos :=
  let r := searchCall .little dir σ.search call
  (r.1, σ.onSearch r.2)

/-- There is no result where the process ends, or the machine is only halted. -/
def sysCall (σ : Tos) : SysCall → Option Long × Tos
  | .pterm | .pterm0 => (none, σ)
  | .cconin c | .cnecin c => (some (getchar c), σ)
  | .cconout | .bconout => (some 0, σ)
  | .crawio w available c => (some (if w = 0xff ∧ available then getchar c else 0), σ)
  | .crawcin available c => (some (if available then getchar c else 0), σ)
  | .cconws adr =>
    let r := cconwsLoop (2 ^ 32) adr 0 σ.machine
    (r.1, σ.onMachine r.2)
  | .cconrs init stdin lineptr =>
    match Console.gemdosCconrs init stdin lineptr σ.machine with
    | none => (none, σ)
    | some r => (some r.1, σ.onMachine r.2.2)
  | .cconis available => (some (if available then -1 else 0), σ)
  | .cconos => (some (-1), σ)
  | .dgetdrv => (some 2, σ)
  | .fgetdta => (some σ.dtaAddr, σ)
  | .tgetdate lt => (some (gemdosTgetdate lt), σ)
  | .tgettime lt => (some (gemdosTgettime lt), σ)
  | .sversion => (some 0x1500, σ)
  | .unknown => (some GEMDOS_EINVFN, σ)
  | .super => σ.onCpu gemdosSuper
  | .dsetpath addr => σ.onProcess inode te (.named .dsetpath addr)
  | .dcreate addr => σ.onProcess inode te (.named .dcreate addr)
  | .fdelete addr => σ.onProcess inode te (.named .fdelete addr)
  | .fcreate addr => σ.onProcess inode te (.named .fcreate addr)
  | .fopen addr mode => σ.onProcess inode te (.named (.fopen mode) addr)
  | .fattrib filename =>
    let p := getPath filename σ.machine
    (some (fattrib te.basePath p.1 σ.process), σ.onMachine p.2)
  | .dgetpath addr => σ.onCpu (gemdosDgetpath σ.process.cwd addr)
  | .fclose handle => σ.onFiles (.fclose handle)
  | .fread handle len buf io => σ.onFiles (.fread handle len buf io)
  | .fwrite handle len buf io => σ.onFiles (.fwrite handle len buf io)
  | .fseek offset handle seekmode => σ.onFiles (.fseek offset handle seekmode)
  | .fdatime ptr handle wflag mtime => σ.onFiles (.fdatime ptr handle wflag mtime)
  | .malloc newsiz => σ.onBlocks (.malloc newsiz)
  | .mfree block => σ.onBlocks (.mfree block)
  | .mshrink block newsiz => σ.onBlocks (.mshrink block newsiz)
  | .fsetdta addr => (some 0, { σ with dtaAddr := addr })
  | .fsfirst filename glob stat => σ.onDir (σ.hostDir te glob stat) (.fsfirst filename)
  | .fsnext stat => σ.onDir (σ.hostDir te (fun _ => (0, [])) stat) .fsnext
  | .bconstat dev available => (some (if dev = 2 ∧ available then -1 else 0), σ)
  | .bconin dev available c => (some (if dev = 2 ∧ available then getchar c else 0), σ)
  | .setexc nm vec => σ.onCpu (fun m => biosSetexc m (nm, vec))
  | .bcostat => σ.onCpu biosBcostat
  | .getrez => σ.onCpu xbiosGetrez
  | .keytbl => σ.onCpu xbiosKeytbl
  | .bioskeys => σ.onCpu xbiosBioskeys
  | .supexec => σ.onCpu xbiosSupexec
  | .missing => (none, σ.onMachine σ.machine.haltExecution)

inductive Event
  | guest (m : Machine)
  | call (c : SysCall)

/-- The trap leaves the result in D0. What the program does in between, the fetch of the arguments
included, is a `guest` event. -/
def tosStep (σ : Tos) : Event → Option Long × Tos
  | .guest m => (none, σ.onMachine m)
  | .call c =>
    let r := sysCall inode te σ c
    (r.1, r.1.elim r.2 (fun v => r.2.onMachine (r.2.machine.setReg (.d 0) v)))

end Call

def delivered (handle : BitVec 16) (len : Long) (io : File.Io) (σ : File.FileState) : List Byte :=
  if σ.invalidHandle handle ∨ io.memory = false then []
  else (σ.handles handle.toNat).f.elim [] fun s =>
    let r := s.fread len.toNat io.transfer σ.kernel
    if r.2.1.error then [] else r.1

/-- Where a call has bytes to store in guest memory, and which. The calls of a search are not among them:
they store through a pointer to host memory. -/
def SysCall.stores (σ : Tos) : SysCall → Long × List Byte
  | .cconrs init stdin lineptr =>
    let maxlen : Byte := (m68kReadMemory8 lineptr σ.machine).1.setWidth 8
    (lineptr + 1, (Console.storedLine init stdin maxlen.toNat).getD [])
  | .dgetpath addr => (addr, reportedBytes σ.process.cwd)
  | .fread handle len buf io => (buf, delivered handle len io σ.process.files)
  | .fdatime ptr handle wflag mtime =>
    let file := if wflag = 0 then (σ.process.files.kernel.fstat handle.toNat).1 else none
    (ptr, file.elim [] (fun file => BigEndian.unpack (File.datime (mtime file)) 4))
  | .setexc nm vec => (excAddress nm, BigEndian.unpack vec 4)
  | .supexec =>
    let m := supexecStart σ.machine
    (m.cpu.a 7 - 8, BigEndian.unpack (0x200 : Long) 4 ++ BigEndian.unpack m.cpu.pc 4)
  | _ => (0, [])

def StoresOnly (a : Long) (bs : List Byte) (m m' : Machine) : Prop :=
  ∀ x, memByte m'.memory x = memByte m.memory x ∨
    ∃ k b, bs[k]? = some b ∧ x = a + BitVec.ofNat 32 k ∧ memByte m'.memory x = some b

def SysCall.Searches : SysCall → Prop
  | .fsfirst _ _ _ | .fsnext _ => True
  | _ => False

section Reads

variable (m : Machine)

theorem readLoop_memory (n : ℕ) (a res : Long) : (readLoop tosRead n a res m).2.memory = m.memory := by
  induction n generalizing a res m with
  | zero => rfl
  | succ n ih =>
    rw [readLoop, ih]
    exact tosRead_memory a m

theorem peekU16_memory (offset : Long) : (peekU16 offset m).2.memory = m.memory := by
  rw [peekU16, m68kReadDisassembler16]
  exact readLoop_memory m 2 _ 0

theorem peekU32_memory (offset : Long) : (peekU32 offset m).2.memory = m.memory := by
  rw [peekU32, m68kReadDisassembler32]
  exact readLoop_memory m 4 _ 0

theorem gemdosSuper_memory : (gemdosSuper m).2.memory = m.memory :=
  (gemdosSuper_core rfl).2.trans (peekU32_memory m 2)

theorem xbiosKeytbl_memory : (xbiosKeytbl m).2.memory = m.memory := by
  have hread : (peekU32 10 (peekU32 6 (peekU32 2 m).2).2).2.memory = m.memory := by
    rw [peekU32_memory, peekU32_memory, peekU32_memory]
  have hbranches : ∀ (asked : Prop) [Decidable asked] (t : Machine), t.memory = m.memory →
      (if asked then ((0 : Long), t) else (0, t.haltExecution)).2.memory = m.memory := by
    intro asked _ t ht
    split_ifs
    · exact ht
    · exact ht
  exact hbranches _ _ hread

theorem cconwsLoop_memory (n : ℕ) (adr res : Long) : (cconwsLoop n adr res m).2.memory = m.memory := by
  induction n generalizing adr res m with
  | zero => rfl
  | succ n ih =>
    have hread : (m68kReadDisassembler8 adr m).2.memory = m.memory := tosRead_memory adr m
    rw [cconwsLoop]
    split_ifs
    · exact hread
    · exact (ih _ _ _).trans hread

theorem copyIn_memory (n : ℕ) (buf : Long) : (File.copyIn buf n m).2.memory = m.memory := by
  induction n generalizing buf m with
  | zero => rfl
  | succ n ih =>
    have hread : (m68kReadMemory8 buf m).2.memory = m.memory := tosRead_memory buf m
    exact (ih _ _).trans hread

theorem named_memory (inode : Position → ℕ) (base : List Byte) (σ : HostState) (call : NamedCall) (addr : Long) :
    (hostStep inode base σ (.named call addr)).2.files.machine.memory = σ.files.machine.memory := by
  have hpath := getPath_memory addr σ.files.machine
  rw [hostStep, namedStep_machine]
  exact hpath

end Reads

section Writes

variable {a : Long} {bs : List Byte} {m t m' : Machine}

theorem StoresOnly.of_memory (a : Long) (bs : List Byte) (h : m'.memory = m.memory) : StoresOnly a bs m m' :=
  fun _ => Or.inl (by rw [h])

theorem StoresOnly.congr (h : StoresOnly a bs m t) {n n' : Machine} (hm : n.memory = m.memory)
    (ht : n'.memory = t.memory) : StoresOnly a bs n n' := by
  intro x
  rw [hm, ht]
  exact h x

theorem StoresOnly.trans (h : StoresOnly a bs m t) (h' : StoresOnly a bs t m') : StoresOnly a bs m m' := by
  intro x
  rcases h' x with hx | hx
  · rw [hx]
    exact h x
  · exact Or.inr hx

theorem StoresOnly.part {piece : List Byte} {i : ℕ} (h : StoresOnly (a + BitVec.ofNat 32 i) piece m m')
    (hpiece : ∀ k b, piece[k]? = some b → bs[i + k]? = some b) : StoresOnly a bs m m' := by
  intro x
  rcases h x with hx | ⟨k, b, hk, hat, hx⟩
  · exact Or.inl hx
  · refine Or.inr ⟨i + k, b, hpiece k b hk, ?_, hx⟩
    rw [hat, BitVec.ofNat_add, BitVec.add_assoc]

theorem storesOnly_tosWrite {k : ℕ} {b : Byte} (hk : bs[k]? = some b) (m : Machine) :
    StoresOnly a bs m (tosWrite (a + BitVec.ofNat 32 k) b m) := by
  intro x
  rw [memByte_tosWrite]
  split_ifs with hx
  · exact Or.inr ⟨k, b, hk, hx.1, rfl⟩
  · exact Or.inl rfl

theorem storesOnly_copyOut (a : Long) (bs : List Byte) (m : Machine) : StoresOnly a bs m (File.copyOut a bs m) := by
  induction bs generalizing a m with
  | nil => exact StoresOnly.of_memory a [] rfl
  | cons b bs ih =>
    have hone : StoresOnly a (b :: bs) m (tosWrite (a + BitVec.ofNat 32 0) b m) :=
      storesOnly_tosWrite List.getElem?_cons_zero m
    rw [BitVec.add_zero] at hone
    have hrest : StoresOnly a (b :: bs) (tosWrite a b m) (File.copyOut (a + 1) bs (tosWrite a b m)) :=
      StoresOnly.part (i := 1) (ih (a + 1) (tosWrite a b m)) (fun k b hk => by rwa [Nat.add_comm])
    rw [File.copyOut, File.m68kWriteMemory8_byte]
    exact hone.trans hrest

theorem storesOnly_writeLoop (n : ℕ) (a v : Long) (m : Machine) :
    StoresOnly a (BigEndian.unpack v n) m (writeLoop n a v m) := by
  induction n generalizing v m with
  | zero => exact StoresOnly.of_memory a [] rfl
  | succ n ih =>
    have hlast : (BigEndian.unpack v (n + 1))[n]? = some (v.setWidth 8) := by simp [BigEndian.unpack]
    have hrest : StoresOnly (a + BitVec.ofNat 32 0) (BigEndian.unpack (v >>> 8) n)
        (tosWrite (a + BitVec.ofNat 32 n) (v.setWidth 8) m) (writeLoop (n + 1) a v m) := by
      rw [BitVec.add_zero]
      exact ih (v >>> 8) _
    refine (storesOnly_tosWrite hlast m).trans (hrest.part fun k b hk => ?_)
    rw [Nat.zero_add, BigEndian.unpack, List.getElem?_append_left (List.getElem?_eq_some_iff.mp hk).1, hk]

theorem storesOnly_setexc (nm : BitVec 16) (vec : Long) (m : Machine) :
    StoresOnly (excAddress nm) (BigEndian.unpack vec 4) m (biosSetexc m (nm, vec)).2 := by
  have hread : (m68kReadMemory32 (excAddress nm) m).2.memory = m.memory := by
    rw [m68kReadMemory32, m68kReadDisassembler32]
    exact readLoop_memory m 4 _ 0
  have hwrite := storesOnly_writeLoop 4 (excAddress nm) vec (m68kReadMemory32 (excAddress nm) m).2
  rw [biosSetexc]
  exact hwrite.congr hread.symm rfl

theorem storesOnly_pushU32 (value : Long) (m : Machine) :
    StoresOnly (m.cpu.a 7 - 4) (BigEndian.unpack value 4) m (pushU32 value m) := by
  rw [pushU32]
  exact (storesOnly_writeLoop 4 (m.cpu.a 7 - 4) value m).congr rfl (setReg_memory _ _ _)

theorem storesOnly_supexec (m : Machine) :
    StoresOnly ((supexecStart m).cpu.a 7 - 8)
      (BigEndian.unpack (0x200 : Long) 4 ++ BigEndian.unpack (supexecStart m).cpu.pc 4) m (xbiosSupexec m).2 := by
  have hstart : (supexecStart m).memory = (peekU32 2 m).2.memory := rfl
  rw [peekU32_memory] at hstart
  have hmemory : (supexecTrap m).memory = (xbiosSupexec m).2.memory := by rw [supexecTrap, setReg_memory]
  rw [supexecTrap_eq, setReg_memory, setReg_memory] at hmemory
  refine StoresOnly.congr ?_ hstart.symm hmemory.symm
  generalize supexecStart m = t
  have hpc := storesOnly_pushU32 t.cpu.pc t
  have hmagic := storesOnly_pushU32 0x200 (pushU32 t.cpu.pc t)
  rw [pushU32_a7] at hmagic
  have hupper : t.cpu.a 7 - 4 = t.cpu.a 7 - 8 + BitVec.ofNat 32 4 := by bv_omega
  have hlower : t.cpu.a 7 - 4 - 4 = t.cpu.a 7 - 8 + BitVec.ofNat 32 0 := by bv_omega
  rw [hupper] at hpc
  rw [hlower] at hmagic
  refine (hpc.part fun k b hk => ?_).trans (hmagic.part fun k b hk => ?_)
  · rw [List.getElem?_append_right (by rw [BigEndian.unpack_length]; omega), BigEndian.unpack_length,
      Nat.add_sub_cancel_left, hk]
  · rw [Nat.zero_add, List.getElem?_append_left (List.getElem?_eq_some_iff.mp hk).1, hk]

end Writes

section Files

variable (σ : File.FileState) (handle : BitVec 16)

theorem storesOnly_fread (len buf : Long) (io : File.Io) :
    StoresOnly buf (delivered handle len io σ) σ.machine (File.gemdosFread handle len buf io σ).2.machine := by
  unfold delivered File.gemdosFread
  by_cases hvalid : σ.invalidHandle handle
  · rw [if_pos (Or.inl hvalid), if_pos hvalid]
    exact StoresOnly.of_memory buf [] rfl
  · by_cases hmem : io.memory = false
    · rw [if_pos (Or.inr hmem), if_neg hvalid, if_pos hmem]
      exact StoresOnly.of_memory buf [] rfl
    · rw [if_neg (not_or.mpr ⟨hvalid, hmem⟩), if_neg hvalid, if_neg hmem]
      dsimp only
      cases (σ.handles handle.toNat).f with
      | none => exact StoresOnly.of_memory buf [] rfl
      | some s =>
        dsimp only [Option.elim]
        split_ifs
        · exact StoresOnly.of_memory buf [] rfl
        · exact storesOnly_copyOut buf _ σ.machine

theorem gemdosFwrite_memory (len buf : Long) (io : File.Io) :
    (File.gemdosFwrite handle len buf io σ).2.machine.memory = σ.machine.memory := by
  have hread := copyIn_memory σ.machine len.toNat buf
  unfold File.gemdosFwrite
  split_ifs
  · rfl
  · rfl
  · dsimp only
    cases (σ.handles handle.toNat).f with
    | none => exact hread
    | some s =>
      dsimp only
      split_ifs
      · exact hread
      · exact hread

theorem gemdosFclose_sameMachine : (File.gemdosFclose handle σ).2.machine = σ.machine := by
  unfold File.gemdosFclose
  split_ifs
  · rfl
  · dsimp only
    cases (σ.handles handle.toNat).f <;> rfl

theorem gemdosFseek_sameMachine (offset : Long) (seekmode : BitVec 16) :
    (File.gemdosFseek offset handle seekmode σ).2.machine = σ.machine := by
  unfold File.gemdosFseek
  cases File.seekWhence seekmode with
  | none => rfl
  | some whence =>
    dsimp only
    cases (σ.kernel.lseek handle.toNat offset.toInt whence).1 <;> rfl

theorem storesOnly_fdatime (ptr : Long) (wflag : BitVec 16) (mtime : ℕ → File.Tm) :
    let file := if wflag = 0 then (σ.kernel.fstat handle.toNat).1 else none
    StoresOnly ptr (file.elim [] (fun file => BigEndian.unpack (File.datime (mtime file)) 4)) σ.machine
      (File.gemdosFdatime ptr handle wflag mtime σ).2.machine := by
  unfold File.gemdosFdatime
  by_cases hflag : wflag = 0
  · simp only [if_pos hflag]
    cases (σ.kernel.fstat handle.toNat).1 with
    | none => exact StoresOnly.of_memory ptr [] rfl
    | some file => exact storesOnly_writeLoop 4 ptr (File.datime (mtime file)) σ.machine
  · simp only [if_neg hflag]
    exact StoresOnly.of_memory ptr [] rfl

end Files

theorem storesOnly_cconrs (init : Console.LocalBuffer) (stdin : List Byte) (lineptr : Long) (m : Machine) :
    let maxlen : Byte := (m68kReadMemory8 lineptr m).1.setWidth 8
    StoresOnly (lineptr + 1) ((Console.storedLine init stdin maxlen.toNat).getD []) m
      ((Console.gemdosCconrs init stdin lineptr m).elim m (fun r => r.2.2)) := by
  have hread : (m68kReadMemory8 lineptr m).2.memory = m.memory := tosRead_memory lineptr m
  rw [Console.gemdosCconrs_stored]
  dsimp only
  cases Console.storedLine init stdin (BitVec.setWidth 8 (m68kReadMemory8 lineptr m).1 : Byte).toNat with
  | none => exact StoresOnly.of_memory _ [] rfl
  | some bs => exact (storesOnly_copyOut (lineptr + 1) bs (m68kReadMemory8 lineptr m).2).congr hread.symm rfl

theorem onCpu_machine (call : Machine → Long × Machine) (σ : Tos) :
    (σ.onCpu call).2.machine = (call σ.machine).2 := rfl

theorem sysCall_storesOnly (inode : Position → ℕ) (te : TosEnvironment) (σ : Tos) (c : SysCall)
    (hc : ¬ c.Searches) :
    StoresOnly (c.stores σ).1 (c.stores σ).2 σ.machine (sysCall inode te σ c).2.machine := by
  have hnamed : ∀ call addr,
      (σ.onProcess inode te (.named call addr)).2.machine.memory = σ.machine.memory :=
    fun call addr => named_memory inode te.basePath σ.process call addr
  cases c with
  | cconws adr => exact StoresOnly.of_memory _ _ (cconwsLoop_memory σ.machine (2 ^ 32) adr 0)
  | cconrs init stdin lineptr =>
    have hline := storesOnly_cconrs init stdin lineptr σ.machine
    rw [sysCall]
    cases hrun : Console.gemdosCconrs init stdin lineptr σ.machine with
    | none =>
      rw [hrun] at hline
      exact hline
    | some r =>
      rw [hrun] at hline
      exact hline
  | super =>
    rw [sysCall, onCpu_machine]
    exact StoresOnly.of_memory _ _ (gemdosSuper_memory σ.machine)
  | keytbl =>
    rw [sysCall, onCpu_machine]
    exact StoresOnly.of_memory _ _ (xbiosKeytbl_memory σ.machine)
  | bcostat =>
    rw [sysCall, onCpu_machine]
    exact StoresOnly.of_memory _ _ (peekU16_memory σ.machine 2)
  | setexc nm vec =>
    rw [sysCall, onCpu_machine]
    exact storesOnly_setexc nm vec σ.machine
  | supexec =>
    rw [sysCall, onCpu_machine]
    exact storesOnly_supexec σ.machine
  | dsetpath addr => exact StoresOnly.of_memory _ _ (hnamed .dsetpath addr)
  | dcreate addr => exact StoresOnly.of_memory _ _ (hnamed .dcreate addr)
  | fdelete addr => exact StoresOnly.of_memory _ _ (hnamed .fdelete addr)
  | fcreate addr => exact StoresOnly.of_memory _ _ (hnamed .fcreate addr)
  | fopen addr mode => exact StoresOnly.of_memory _ _ (hnamed (.fopen mode) addr)
  | fattrib filename => exact StoresOnly.of_memory _ _ (getPath_memory filename σ.machine)
  | dgetpath addr =>
    have hcopy := storesOnly_copyOut addr (reportedBytes σ.process.cwd) σ.machine
    refine hcopy.congr rfl ?_
    exact congrArg (fun r => r.2.memory) (gemdosDgetpath_eq σ.process.cwd addr σ.machine)
  | fclose handle =>
    exact StoresOnly.of_memory _ _ (congrArg Machine.memory (gemdosFclose_sameMachine σ.process.files handle))
  | fread handle len buf io => exact storesOnly_fread σ.process.files handle len buf io
  | fwrite handle len buf io =>
    exact StoresOnly.of_memory _ _ (gemdosFwrite_memory σ.process.files handle len buf io)
  | fseek offset handle seekmode =>
    exact StoresOnly.of_memory _ _
      (congrArg Machine.memory (gemdosFseek_sameMachine σ.process.files handle offset seekmode))
  | fdatime ptr handle wflag mtime => exact storesOnly_fdatime σ.process.files handle ptr wflag mtime
  | fsfirst filename glob stat => exact absurd trivial hc
  | fsnext stat => exact absurd trivial hc
  | _ => exact StoresOnly.of_memory _ _ rfl

end Tosemu.Calls
