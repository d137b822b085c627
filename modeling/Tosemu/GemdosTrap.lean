import Tosemu.Supexec

/-!
`gemdos_trap` and the functions of its table that act on the CPU. What the other functions do to the
machine is a parameter, by their names.
-/

namespace Tosemu

open Cpu

def GEMDOS_EINVFN : Long := -32

inductive GemdosFnct
  | super
  | sversion
  | unknown
  | other
deriving DecidableEq, Repr

structure GemdosFunction where
  name : String
  fnct : Option GemdosFnct
  id : BitVec 16
deriving DecidableEq, Repr

def gemdosFunctions : List GemdosFunction :=
  [⟨"Cauxin", none, 0x03⟩, ⟨"Cauxis", none, 0x12⟩, ⟨"Cauxos", none, 0x13⟩, ⟨"Cauxout", none, 0x04⟩,
    ⟨"Cconin", some .other, 0x01⟩, ⟨"Cconis", some .other, 0x0B⟩, ⟨"Cconos", some .other, 0x10⟩,
    ⟨"Cconout", some .other, 0x02⟩, ⟨"Cconrs", some .other, 0x0A⟩, ⟨"Cconws", some .other, 0x09⟩,
    ⟨"Cnecin", some .other, 0x08⟩, ⟨"Cprnos", none, 0x11⟩, ⟨"Cprnout", none, 0x05⟩,
    ⟨"Crawcin", some .other, 0x07⟩, ⟨"Crawio", some .other, 0x06⟩, ⟨"Dclosedir", none, 0x12B⟩,
    ⟨"Dcntl", none, 0x130⟩, ⟨"Dcreate", some .other, 0x39⟩, ⟨"Ddelete", none, 0x3A⟩,
    ⟨"Dfree", none, 0x36⟩, ⟨"Dgetcwd", none, 0x13B⟩, ⟨"Dgetdrv", some .other, 0x19⟩,
    ⟨"Dgetpath", some .other, 0x47⟩, ⟨"Dlock", none, 0x135⟩, ⟨"Dopendir", none, 0x128⟩,
    ⟨"Dpathconf", none, 0x124⟩, ⟨"Dreaddir", none, 0x129⟩, ⟨"Drewinddir", none, 0x12A⟩,
    ⟨"Dsetdrv", none, 0x0E⟩, ⟨"Dsetpath", some .other, 0x3B⟩, ⟨"Fattrib", some .other, 0x43⟩,
    ⟨"Fchmod", none, 0x132⟩, ⟨"Fchown", none, 0x131⟩, ⟨"Fclose", some .other, 0x3E⟩,
    ⟨"Fcntl", some .unknown, 0x104⟩, ⟨"Fcreate", some .other, 0x3C⟩,
    ⟨"Fdatime", some .other, 0x57⟩, ⟨"Fdelete", some .other, 0x41⟩, ⟨"Fdup", none, 0x45⟩,
    ⟨"Fforce", none, 0x46⟩, ⟨"Fgetchar", none, 0x107⟩, ⟨"Fgetdta", some .other, 0x2F⟩,
    ⟨"Finstat", none, 0x105⟩, ⟨"Flink", none, 0x12D⟩, ⟨"Flock", none, 0x5C⟩,
    ⟨"Fmidipipe", none, 0x126⟩, ⟨"Fopen", some .other, 0x3D⟩, ⟨"Foutstat", none, 0x106⟩,
    ⟨"Fpipe", none, 0x100⟩, ⟨"Fputchar", none, 0x108⟩, ⟨"Fread", some .other, 0x3F⟩,
    ⟨"Freadlink", none, 0x12F⟩, ⟨"Frename", none, 0x56⟩, ⟨"Fseek", some .other, 0x42⟩,
    ⟨"Fselect", none, 0x11D⟩, ⟨"Fsetdta", some .other, 0x1A⟩, ⟨"Fsfirst", some .other, 0x4E⟩,
    ⟨"Fsnext", some .other, 0x4F⟩, ⟨"Fsymlink", none, 0x12E⟩, ⟨"Fwrite", some .other, 0x40⟩,
    ⟨"Fxattr", some .unknown, 0x12C⟩, ⟨"Maddalt", none, 0x14⟩, ⟨"Malloc", some .other, 0x48⟩,
    ⟨"Mfree", some .other, 0x49⟩, ⟨"Mshrink", some .other, 0x4A⟩, ⟨"Mxalloc", none, 0x44⟩,
    ⟨"Pause", none, 0x121⟩, ⟨"Pdomain", some .unknown, 0x119⟩, ⟨"Pexec", none, 0x4B⟩,
    ⟨"Pfork", none, 0x11B⟩, ⟨"Pgetegid", some .unknown, 0x139⟩, ⟨"Pgeteuid", some .unknown, 0x138⟩,
    ⟨"Pgetgid", some .unknown, 0x114⟩, ⟨"Pgetpgrp", none, 0x10D⟩, ⟨"Pgetpid", none, 0x10B⟩,
    ⟨"Pgetppid", none, 0x10C⟩, ⟨"Pgetuid", some .unknown, 0x10F⟩, ⟨"Pkill", none, 0x111⟩,
    ⟨"Pmsg", none, 0x125⟩, ⟨"Pnice", none, 0x10A⟩, ⟨"Prenice", none, 0x127⟩,
    ⟨"Prusage", none, 0x11E⟩, ⟨"Psemaphore", none, 0x134⟩, ⟨"Psetgit", none, 0x115⟩,
    ⟨"Psetlimit", none, 0x11F⟩, ⟨"Psetpgrp", none, 0x10E⟩, ⟨"Psetuid", none, 0x110⟩,
    ⟨"Psigaction", none, 0x137⟩, ⟨"Psigblock", none, 0x116⟩, ⟨"Psignal", none, 0x112⟩,
    ⟨"Psigpause", none, 0x136⟩, ⟨"Psigpending", none, 0x123⟩, ⟨"Psigreturn", none, 0x11A⟩,
    ⟨"Psigsetmask", none, 0x117⟩, ⟨"Pterm", some .other, 0x4C⟩, ⟨"Pterm0", some .other, 0x0⟩,
    ⟨"Ptermres", none, 0x31⟩, ⟨"Pumask", some .unknown, 0x133⟩, ⟨"Pursval", none, 0x118⟩,
    ⟨"Pvfork", none, 0x113⟩, ⟨"Pwait", none, 0x109⟩, ⟨"Pwait3", none, 0x11C⟩,
    ⟨"Pwaitpid", none, 0x13A⟩, ⟨"Salert", none, 0x13C⟩, ⟨"Super", some .super, 0x20⟩,
    ⟨"Sversion", some .sversion, 0x30⟩, ⟨"Pyield", none, 0xFF⟩, ⟨"Sysconf", none, 0x122⟩,
    ⟨"Talarm", none, 0x120⟩, ⟨"Tgetdate", some .other, 0x2A⟩, ⟨"Tgettime", some .other, 0x2C⟩,
    ⟨"Tsetdate", none, 0x2B⟩, ⟨"Tsettime", none, 0x2D⟩, ⟨"Ssystem", some .unknown, 0x154⟩,
    ⟨"Ffstat64", some .unknown, 0x15D⟩, ⟨"Tgettimeofday", some .unknown, 0x155⟩,
    ⟨"Fstat64", some .unknown, 0x14B⟩, ⟨"Psysctl", some .unknown, 0x15E⟩]

def peekU16 (offset : Long) (m : Machine) : BitVec 16 × Machine :=
  let r := m68kReadDisassembler16 (m.getReg (.a 7) + offset) m
  (r.1.setWidth 16, r.2)

def gemdosSuper (m : Machine) : Long × Machine :=
  let r := peekU32 2 m
  if r.1 = 0 then (r.2.getReg (.a 7), r.2.enableSupervisorMode)
  else if r.1 = 1 then (if isSupervisorModeEnabled r.2.cpu then 1 else 0, r.2)
  else (0, (r.2.setReg .usp r.1).disableSupervisorMode)

section Trap

variable (other : String → Machine → Long × Machine)

def GemdosFunction.call (f : GemdosFunction) (m : Machine) : Option (Long × Machine) :=
  match f.fnct with
  | none => none
  | some .super => some (gemdosSuper m)
  | some .sversion => some (0x1500, m)
  | some .unknown => some (GEMDOS_EINVFN, m)
  | some .other => some (other f.name m)

/-- The loop compares one entry more than the table has, which is what lies `beyond` it. -/
def gemdosTrap (beyond : GemdosFunction) (m : Machine) : Machine :=
  let r := peekU16 0 m
  match (gemdosFunctions ++ [beyond]).find? (fun f => f.id = r.1) with
  | none => r.2.haltExecution
  | some f =>
    match f.call other r.2 with
    | none => r.2.haltExecution
    | some r => r.2.setReg (.d 0) r.1

end Trap

theorem find_id {functions : List GemdosFunction} (h : (functions.map GemdosFunction.id).Nodup)
    {f : GemdosFunction} (hf : f ∈ functions) (rest : List GemdosFunction) :
    (functions ++ rest).find? (fun g => g.id = f.id) = some f := by
  induction functions with
  | nil => exact absurd hf List.not_mem_nil
  | cons g functions ih =>
    obtain ⟨hg, hnodup⟩ := List.nodup_cons.mp h
    rcases List.mem_cons.mp hf with rfl | hf
    · exact List.find?_cons_of_pos (decide_eq_true rfl)
    · have hne : g.id ≠ f.id := fun he => hg (he ▸ List.mem_map_of_mem hf)
      rw [List.cons_append, List.find?_cons_of_neg (by simpa using hne)]
      exact ih hnodup hf

theorem gemdosFunctions_ids : (gemdosFunctions.map GemdosFunction.id).Nodup := by
  decide +kernel

theorem gemdosTrap_eq (other : String → Machine → Long × Machine) (beyond : GemdosFunction)
    {f : GemdosFunction} (hf : f ∈ gemdosFunctions) {m : Machine} (hid : (peekU16 0 m).1 = f.id) :
    gemdosTrap other beyond m =
      match f.call other (peekU16 0 m).2 with
      | none => (peekU16 0 m).2.haltExecution
      | some r => r.2.setReg (.d 0) r.1 := by
  unfold gemdosTrap
  simp only [hid, find_id gemdosFunctions_ids hf]

theorem gemdosTrap_super (other : String → Machine → Long × Machine) (beyond : GemdosFunction)
    {m : Machine} (hid : (peekU16 0 m).1 = 0x20) :
    gemdosTrap other beyond m =
      let r := gemdosSuper (peekU16 0 m).2
      r.2.setReg (.d 0) r.1 := by
  have hf : ⟨"Super", some .super, 0x20⟩ ∈ gemdosFunctions := by decide +kernel
  exact gemdosTrap_eq other beyond hf hid

end Tosemu
