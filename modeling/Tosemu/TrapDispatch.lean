import Tosemu.ExceptionVectors
import Tosemu.GemdosTrap

/-!
The lookup loop that `gemdos_trap`, `bios_trap` and `xbios_trap` share. Each entry it compares is
recorded, and what lies behind the table is an entry of its own.
-/

namespace Tosemu

open Cpu

structure TrapFunction where
  name : String
  fnct : Option (Machine → Long × Machine)
  id : BitVec 16

structure TrapRun where
  inspected : List ℕ
  ran : List TrapFunction
  machine : Machine

def TrapFunction.run (f : TrapFunction) (m : Machine) : List TrapFunction × Machine :=
  match f.fnct with
  | some fnct =>
    let r := fnct m
    ([f], r.2.setReg (.d 0) r.1)
  | none => ([], m.haltExecution)

def trapLoop (word : BitVec 16) (m : Machine) : ℕ → List TrapFunction → TrapRun
  | _, [] => ⟨[], [], m.haltExecution⟩
  | i, f :: rest =>
    if f.id = word then ⟨[i], (f.run m).1, (f.run m).2⟩
    else
      let r := trapLoop word m (i + 1) rest
      { r with inspected := i :: r.inspected }

/-- The index runs up to the number of entries inclusive: `beyond` is what the loop finds there. -/
def trap (functions : List TrapFunction) (beyond : TrapFunction) (m : Machine) : TrapRun :=
  let r := peekU16 0 m
  trapLoop r.1 r.2 0 (functions ++ [beyond])

def biosSetexcCall (m : Machine) : Long × Machine :=
  let nm := peekU16 2 m
  let vec := peekU32 4 nm.2
  biosSetexc vec.2 (nm.1, vec.1)

def biosBcostat (m : Machine) : Long × Machine :=
  let dev := peekU16 2 m
  (if dev.1 = 2 then -1 else 0, dev.2)

def xbiosGetrez (m : Machine) : Long × Machine := (8, m)

def xbiosKeytbl (m : Machine) : Long × Machine :=
  let unshift := peekU32 2 m
  let shift := peekU32 6 unshift.2
  let capslock := peekU32 10 shift.2
  if unshift.1 = 0xffffffff ∧ shift.1 = 0xffffffff ∧ capslock.1 = 0xffffffff then (0, capslock.2)
  else (0, capslock.2.haltExecution)

def xbiosBioskeys (m : Machine) : Long × Machine := (0, m)

section Tables

variable (other : String → Machine → Long × Machine)

def GemdosFunction.handler (f : GemdosFunction) : Option (Machine → Long × Machine) :=
  match f.fnct with
  | none => none
  | some .super => some gemdosSuper
  | some .sversion => some (fun m => (0x1500, m))
  | some .unknown => some (fun m => (GEMDOS_EINVFN, m))
  | some .other => some (other f.name)

def GemdosFunction.entry (f : GemdosFunction) : TrapFunction := ⟨f.name, f.handler other, f.id⟩

def gemdosTable : List TrapFunction := gemdosFunctions.map (fun f => f.entry other)

def biosTable : List TrapFunction :=
  [⟨"Bconin", some (other "Bconin"), 0x02⟩, ⟨"Bconout", some (other "Bconout"), 0x03⟩,
    ⟨"Bconstat", some (other "Bconstat"), 0x01⟩, ⟨"Bcostat", some biosBcostat, 0x08⟩,
    ⟨"Drvmap", none, 0x0A⟩, ⟨"Getbpb", none, 0x07⟩, ⟨"Getmpb", none, 0x00⟩,
    ⟨"Kbshift", none, 0x0B⟩, ⟨"Mediach", none, 0x09⟩, ⟨"Rwabs", none, 0x04⟩,
    ⟨"Setexc", some biosSetexcCall, 0x05⟩, ⟨"Tickcal", none, 0x06⟩]

def xbiosTable : List TrapFunction :=
  [⟨"Bconmap", none, 0x2C⟩, ⟨"Bioskeys", some xbiosBioskeys, 0x18⟩, ⟨"Blitmode", none, 0x40⟩,
    ⟨"Buffoper", none, 0x88⟩, ⟨"Buffptr", none, 0x8D⟩, ⟨"Cursconf", none, 0x15⟩,
    ⟨"Dbmsg", none, 0x0B⟩, ⟨"Devconnect", none, 0x8B⟩, ⟨"DMAread", none, 0x2A⟩,
    ⟨"DMAwrite", none, 0x2B⟩, ⟨"Dosound", none, 0x20⟩, ⟨"Dsp_Available", none, 0x6A⟩,
    ⟨"Dsp_BlkBytes", none, 0x7C⟩, ⟨"Dsp_BlkHandShake", none, 0x61⟩,
    ⟨"Dsp_BlkUnpacked", none, 0x62⟩, ⟨"Dsp_BlkWords", none, 0x7B⟩, ⟨"Dsp_DoGlock", none, 0x60⟩,
    ⟨"Dsp_ExecBoot", none, 0x6E⟩, ⟨"Dsp_ExecProg", none, 0x6D⟩,
    ⟨"Dsp_FlushSubroutines", none, 0x73⟩, ⟨"Dsp_GetProgAbility", none, 0x72⟩,
    ⟨"Dsp_GetWordSize", none, 0x67⟩, ⟨"Dsp_Hf0", none, 0x77⟩, ⟨"Dsp_Hf1", none, 0x78⟩,
    ⟨"Dsp_Hf2", none, 0x79⟩, ⟨"Dsp_Hf3", none, 0x7A⟩, ⟨"Dsp_HStat", none, 0x7D⟩,
    ⟨"Dsp_InqSubrAbility", none, 0x75⟩, ⟨"Dsp_InStream", none, 0x63⟩, ⟨"Dsp_IOStream", none, 0x65⟩,
    ⟨"Dsp_LoadProg", none, 0x6C⟩, ⟨"Dsp_LoadSubroutine", none, 0x74⟩, ⟨"Dsp_Lock", none, 0x68⟩,
    ⟨"Dsp_LodToBunary", none, 0x6F⟩, ⟨"Dsp_MultBlocks", none, 0x7F⟩, ⟨"Dsp_OutStream", none, 0x64⟩,
    ⟨"Dsp_RemoveInterrupts", none, 0x66⟩, ⟨"Dsp_RequestUniqueAbility", none, 0x71⟩,
    ⟨"Dsp_Reserve", none, 0x6B⟩, ⟨"Dsp_RunSubroutine", none, 0x76⟩, ⟨"Dsp_SetVectors", none, 0x7E⟩,
    ⟨"Dsp_TriggerHC", none, 0x70⟩, ⟨"Dsp_Unlock", none, 0x69⟩, ⟨"Dsptristate", none, 0x89⟩,
    ⟨"EgetPalette", none, 0x55⟩, ⟨"EgetShift", none, 0x51⟩, ⟨"EsetBank", none, 0x52⟩,
    ⟨"EsetColor", none, 0x53⟩, ⟨"EsetGray", none, 0x56⟩, ⟨"EsetPalette", none, 0x54⟩,
    ⟨"EsetShift", none, 0x50⟩, ⟨"EsetSmear", none, 0x57⟩, ⟨"Flopfmt", none, 0x0A⟩,
    ⟨"Floprate", none, 0x29⟩, ⟨"Floprd", none, 0x08⟩, ⟨"Flopver", none, 0x13⟩,
    ⟨"Flopwr", none, 0x09⟩, ⟨"Getrez", some xbiosGetrez, 0x04⟩, ⟨"Gettime", none, 0x17⟩,
    ⟨"Glaccess", none, 0x1C⟩, ⟨"Gpio", none, 0x8A⟩, ⟨"Ikbdws", none, 0x19⟩,
    ⟨"Initmous", none, 0x00⟩, ⟨"Iorec", none, 0x0E⟩, ⟨"Jdisint", none, 0x1A⟩,
    ⟨"Jenabint", none, 0x1B⟩, ⟨"Kbdvbase", none, 0x22⟩, ⟨"Kbrate", none, 0x23⟩,
    ⟨"Keytbl", some xbiosKeytbl, 0x10⟩, ⟨"Locksnd", none, 0x80⟩, ⟨"Logbase", none, 0x03⟩,
    ⟨"Metainit", none, 0x30⟩, ⟨"Mfpint", none, 0x0D⟩, ⟨"Midiws", none, 0x0C⟩,
    ⟨"NVMaccess", none, 0x2E⟩, ⟨"Offgibit", none, 0x1D⟩, ⟨"Ongibit", none, 0x1E⟩,
    ⟨"Physbse", none, 0x02⟩, ⟨"Protobt", none, 0x12⟩, ⟨"Prtblk", none, 0x24⟩,
    ⟨"Puntaes", none, 0x27⟩, ⟨"Random", none, 0x11⟩, ⟨"Rsconf", none, 0x0F⟩,
    ⟨"Scrdmp", none, 0x14⟩, ⟨"Setbuffer", none, 0x83⟩, ⟨"Setcolor", none, 0x07⟩,
    ⟨"Setinterrupt", none, 0x87⟩, ⟨"Setmode", none, 0x84⟩, ⟨"Setmontracks", none, 0x86⟩,
    ⟨"Setpalette", none, 0x06⟩, ⟨"Setprt", none, 0x21⟩, ⟨"Setscreen", none, 0x05⟩,
    ⟨"Settime", none, 0x16⟩, ⟨"Settracks", none, 0x85⟩, ⟨"Sndstatus", none, 0x8C⟩,
    ⟨"Soundcmd", none, 0x82⟩, ⟨"Ssbrk", none, 0x01⟩, ⟨"Supexec", some xbiosSupexec, 0x26⟩,
    ⟨"Unlocksnd", none, 0x81⟩, ⟨"VgetMonitor", none, 0x59⟩, ⟨"VgetRGB", none, 0x5E⟩,
    ⟨"VgetSize", none, 0x5B⟩, ⟨"VsetMask", none, 0x92⟩, ⟨"VsetMode", none, 0x58⟩,
    ⟨"VsetRGB", none, 0x5D⟩, ⟨"VsetScreen", none, 0x05⟩, ⟨"VsetSync", none, 0x5A⟩,
    ⟨"Vsync", none, 0x25⟩, ⟨"WavePlay", none, 0xA5⟩, ⟨"Xbtimer", none, 0x1F⟩]

end Tables

section Lookup

variable {word : BitVec 16} {functions : List TrapFunction}

theorem trapLoop_found {f : TrapFunction} (h : functions.find? (fun f => f.id = word) = some f)
    (m : Machine) (i : ℕ) (rest : List TrapFunction) :
    (∀ j ∈ (trapLoop word m i (functions ++ rest)).inspected, j < i + functions.length) ∧
      (trapLoop word m i (functions ++ rest)).ran = (f.run m).1 ∧
      (trapLoop word m i (functions ++ rest)).machine = (f.run m).2 := by
  induction functions generalizing i with
  | nil => exact absurd h (by simp)
  | cons g functions ih =>
    rw [List.cons_append, trapLoop, List.length_cons]
    by_cases hg : g.id = word
    · rw [List.find?_cons_of_pos (by simpa using hg)] at h
      obtain rfl := Option.some.inj h
      rw [if_pos hg]
      exact ⟨fun j hj => by rw [List.mem_singleton.mp hj]; omega, rfl, rfl⟩
    · rw [List.find?_cons_of_neg (by simpa using hg)] at h
      obtain ⟨hindex, hran, hmachine⟩ := ih h (i + 1)
      rw [if_neg hg]
      refine ⟨fun j hj => ?_, hran, hmachine⟩
      rcases List.mem_cons.mp hj with rfl | hj
      · omega
      · have hlt := hindex j hj
        omega

theorem trapLoop_missed (h : ∀ f ∈ functions, f.id ≠ word) (m : Machine) (i : ℕ)
    (rest : List TrapFunction) :
    trapLoop word m i (functions ++ rest) =
      let r := trapLoop word m (i + functions.length) rest
      { r with inspected := List.range' i functions.length ++ r.inspected } := by
  induction functions generalizing i with
  | nil => rfl
  | cons g functions ih =>
    have hnext := ih (fun f hf => h f (List.mem_cons_of_mem g hf)) (i + 1)
    have hi : i + 1 + functions.length = i + (functions.length + 1) := by omega
    rw [List.cons_append, trapLoop, if_neg (h g List.mem_cons_self), hnext, List.length_cons,
      List.range'_succ, hi]
    rfl

theorem trapLoop_inspects_beyond (m : Machine) (i : ℕ) (beyond : TrapFunction) :
    i ∈ (trapLoop word m i [beyond]).inspected := by
  rw [trapLoop]
  split_ifs <;> exact List.mem_cons_self

theorem trapLoop_machine (m : Machine) (i : ℕ) :
    (trapLoop word m i functions).machine =
      match functions.find? (fun f => f.id = word) with
      | none => m.haltExecution
      | some f => (f.run m).2 := by
  induction functions generalizing i with
  | nil => rfl
  | cons g functions ih =>
    rw [trapLoop]
    by_cases hg : g.id = word
    · rw [if_pos hg, List.find?_cons_of_pos (by simpa using hg)]
    · rw [if_neg hg, List.find?_cons_of_neg (by simpa using hg)]
      exact ih (i + 1)

end Lookup

theorem trap_gemdosTable (other : String → Machine → Long × Machine) (beyond : GemdosFunction)
    (m : Machine) :
    (trap (gemdosTable other) (beyond.entry other) m).machine = gemdosTrap other beyond m := by
  have htable : gemdosTable other ++ [beyond.entry other] =
      (gemdosFunctions ++ [beyond]).map (fun f => f.entry other) := by
    rw [gemdosTable, List.map_append, List.map_singleton]
  rw [trap, trapLoop_machine, htable, List.find?_map, gemdosTrap]
  cases hfind : (gemdosFunctions ++ [beyond]).find? (fun f => f.id = (peekU16 0 m).1) with
  | none =>
    have hnone : (gemdosFunctions ++ [beyond]).find?
        ((fun f => decide (f.id = (peekU16 0 m).1)) ∘ fun f => f.entry other) = none := hfind
    rw [hnone]
    rfl
  | some f =>
    have hsome : (gemdosFunctions ++ [beyond]).find?
        ((fun f => decide (f.id = (peekU16 0 m).1)) ∘ fun f => f.entry other) = some f := hfind
    rw [hsome]
    obtain ⟨name, fnct, id⟩ := f
    rcases fnct with _ | _ | _ | _ | _ <;> rfl

theorem trap_supexec (beyond : TrapFunction) {m : Machine} (hid : (peekU16 0 m).1 = 0x26) :
    (trap xbiosTable beyond m).machine = supexecTrap (peekU16 0 m).2 := by
  rw [trap, trapLoop_machine, hid]
  rfl

section Peek

theorem magicXbiosSupexecRead_d0 (x : Long) (m : Machine) :
    (magicXbiosSupexecRead x m).2.cpu.d 0 = m.cpu.d 0 := by
  by_cases hx : x = 0x201
  · have hcpu : (popU32With (tosReadWith magicReentry) m).2.cpu.d = m.cpu.d := by
      have hq := (readLoop_sameState reentry_quiet 4 (m.getReg (.a 7)) 0 m).cpu
      simp only [popU32With, Machine.setReg, m68kSetReg]
      rw [hq]
    rw [hx, magicXbiosSupexecRead, magicXbiosSupexecReadWith_second, ← hcpu]
    rfl
  · have hquiet : magicXbiosSupexecRead x m = magicReentry x m := by
      simp only [magicXbiosSupexecRead, magicXbiosSupexecReadWith, magicReentry, if_neg hx]
    rw [hquiet, (magicReentry_quiet x m).cpu]

theorem readLoop_d0 (n : ℕ) (a res : Long) (m : Machine) :
    (readLoop tosRead n a res m).2.cpu.d 0 = m.cpu.d 0 := by
  induction n generalizing a res m with
  | zero => rfl
  | succ n ih =>
    rw [readLoop, ih]
    exact tosReadWith_elim (P := fun r => r.2.cpu.d 0 = m.cpu.d 0) rfl (fun _ => rfl)
      (magicXbiosSupexecRead_d0 a m)

end Peek

structure Inside (functions : List TrapFunction) (beyond : TrapFunction) (m : Machine) : Prop where
  inspected : ∀ i ∈ (trap functions beyond m).inspected, i < functions.length
  unlisted : (∀ f ∈ functions, f.id ≠ (peekU16 0 m).1) →
    (trap functions beyond m).ran.length = 0 ∧ (trap functions beyond m).machine.keepongoing = false ∧
      (trap functions beyond m).machine.cpu = m.cpu ∧
      (trap functions beyond m).machine.memory = m.memory
  handled : ∀ f, functions.find? (fun f => f.id = (peekU16 0 m).1) = some f →
    ∀ fnct ∈ f.fnct, (trap functions beyond m).ran = [f] ∧ (trap functions beyond m).machine =
      (fnct (peekU16 0 m).2).2.setReg (.d 0) (fnct (peekU16 0 m).2).1
  unhandled : ∀ f, functions.find? (fun f => f.id = (peekU16 0 m).1) = some f → f.fnct = none →
    (trap functions beyond m).ran.length = 0 ∧ (trap functions beyond m).machine.keepongoing = false ∧
      (trap functions beyond m).machine.cpu.d 0 = m.cpu.d 0

theorem inside_iff (functions : List TrapFunction) (beyond : TrapFunction) (m : Machine) :
    Inside functions beyond m ↔ ∃ f ∈ functions, f.id = (peekU16 0 m).1 := by
  constructor
  · intro h
    by_contra hno
    push Not at hno
    have hmem : functions.length ∈ (trap functions beyond m).inspected := by
      rw [trap, trapLoop_missed hno, Nat.zero_add]
      exact List.mem_append_right _ (trapLoop_inspects_beyond _ _ _)
    exact absurd (h.inspected _ hmem) (lt_irrefl _)
  · rintro ⟨g, hg, hid⟩
    have hsome : (functions.find? (fun f => f.id = (peekU16 0 m).1)).isSome := by
      rw [List.find?_isSome]
      exact ⟨g, hg, by simpa using hid⟩
    obtain ⟨f, hf⟩ := Option.isSome_iff_exists.mp hsome
    obtain ⟨hindex, hran, hmachine⟩ := trapLoop_found hf (peekU16 0 m).2 0 [beyond]
    refine ⟨?_, fun hno => absurd hid (hno g hg), ?_, ?_⟩
    · intro i hi
      have hlt := hindex i hi
      omega
    · intro f' hf' fnct hfnct
      obtain rfl := Option.some.inj (hf.symm.trans hf')
      rw [trap, hran, hmachine, TrapFunction.run, hfnct]
      exact ⟨rfl, rfl⟩
    · intro f' hf' hnone
      obtain rfl := Option.some.inj (hf.symm.trans hf')
      rw [trap, hran, hmachine, TrapFunction.run, hnone]
      exact ⟨rfl, rfl, readLoop_d0 2 _ 0 m⟩

theorem traps_inside_iff (other : String → Machine → Long × Machine) (beyond : TrapFunction)
    (m : Machine) :
    (Inside (gemdosTable other) beyond m ↔ ∃ f ∈ gemdosTable other, f.id = (peekU16 0 m).1) ∧
    (Inside (biosTable other) beyond m ↔ ∃ f ∈ biosTable other, f.id = (peekU16 0 m).1) ∧
    (Inside xbiosTable beyond m ↔ ∃ f ∈ xbiosTable, f.id = (peekU16 0 m).1) :=
  ⟨inside_iff _ _ m, inside_iff _ _ m, inside_iff _ _ m⟩

def trapMachine (word : Byte) : Machine where
  cpu := { coldCore with a := fun _ => 0x1000 }
  memory := addPtrMemoryArea MEMORY_READWRITE 0x1000 2 ⟨2, fun _ => word⟩ []
  keepongoing := true
  dreg := fun _ => 0
  areg := fun _ => 0
  crashed := false

theorem traps_leave_table : ¬ (∀ other beyond m, Inside (gemdosTable other) beyond m ∧
    Inside (biosTable other) beyond m ∧ Inside xbiosTable beyond m) ∧
    (trap (biosTable (fun _ m => (0, m))) ⟨"", none, 0⟩ (trapMachine 0x77)).inspected =
      List.range 13 := by
  have hinspected : (trap (biosTable (fun _ m => (0, m))) ⟨"", none, 0⟩ (trapMachine 0x77)).inspected =
      List.range 13 := by decide
  refine ⟨fun hall => ?_, hinspected⟩
  have hlt := (hall (fun _ m => (0, m)) ⟨"", none, 0⟩ (trapMachine 0x77)).2.1.inspected 12
  rw [hinspected] at hlt
  exact absurd (hlt (by decide)) (by decide)

end Tosemu
