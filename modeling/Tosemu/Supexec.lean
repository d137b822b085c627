import Tosemu.MagicMemory

/-!
Supexec: the trap pushes the return address and `0x200` on the supervisor stack; the `RTS` of the
subroutine jumps to `0x200`, and fetching the word there runs the magic callback.
-/

namespace Tosemu

open Cpu

def peekU32 (offset : Long) (m : Machine) : Long × Machine :=
  m68kReadDisassembler32 (m.getReg (.a 7) + offset) m

def pushU32 (value : Long) (m : Machine) : Machine :=
  let sp := m.getReg (.a 7) - 4
  (m68kWriteMemory32 sp value m).setReg (.a 7) sp

def xbiosSupexec (m : Machine) : Long × Machine :=
  let r := peekU32 2 m
  let m := (saveRegs r.2).enableSupervisorMode
  let m := pushU32 0x200 (pushU32 (m.getReg .pc) m)
  (0, m.setReg .pc r.1)

def supexecTrap (m : Machine) : Machine :=
  let r := xbiosSupexec m
  r.2.setReg (.d 0) r.1

def address68k (a : Long) : Long := a &&& 0x00ffffff

def m68kiPull32 (m : Machine) : Long × Machine :=
  let sp := m.cpu.a 7
  m68kReadMemory32 (address68k sp) (m.setReg (.a 7) (sp + 4))

def rts (m : Machine) : Machine :=
  let r := m68kiPull32 m
  r.2.setReg .pc r.1

def m68kiReadImm16 (m : Machine) : Long × Machine :=
  let pc := m.cpu.pc
  m68kReadMemory16 (address68k pc) (m.setReg .pc (pc + 2))

theorem fetch_magic {b : TosBuffers} {m : Machine} (hm : m.memory = registerAreas b)
    (hs : m.cpu.sFlag = true) (hpc : m.cpu.pc = 0x200) :
    m68kiReadImm16 m =
      let r := popU32With (tosReadWith magicReentry) (m.setReg .pc 0x202)
      (0x4e71, supexecReturn r.1 r.2) := by
  have hword : ((0 : Long) <<< 8 ||| (0x4e : Byte).setWidth 32) <<< 8 ||| (0x71 : Byte).setWidth 32 =
      0x4e71 := by decide
  have hsecond : (0x200 : Long) + 1 = 0x201 := by decide
  have hpc2 : (0x200 : Long) + 2 = 0x202 := by decide
  have hadr : address68k 0x200 = 0x200 := by decide
  have hm' : (m.setReg .pc 0x202).memory = registerAreas b := hm
  simp only [m68kiReadImm16, hpc, hpc2, hadr, m68kReadMemory16, m68kReadDisassembler16, readLoop,
    hsecond, tosRead_first hm' hs, tosRead_second hm' hs, hword]

section Return

variable (value : Long) (m : Machine)

theorem supexecReturn_sFlag : (supexecReturn value m).cpu.sFlag = false := by
  simp [supexecReturn, Machine.disableSupervisorMode, Machine.setReg, m68kSetReg,
    disableSupervisorMode]

theorem supexecReturn_mFlag : (supexecReturn value m).cpu.mFlag = false := by
  simp [supexecReturn, restoreRegs_mFlag, Machine.disableSupervisorMode, Machine.setReg, m68kSetReg,
    disableSupervisorMode]

theorem supexecReturn_d (i : Fin 5) : (supexecReturn value m).cpu.d (dregNumber i) = m.dreg i :=
  restoreRegs_d _ i

theorem supexecReturn_a (i : Fin 4) : (supexecReturn value m).cpu.a (aregNumber i) = m.areg i :=
  restoreRegs_a _ i

theorem supexecReturn_stacks (hs : m.cpu.sFlag = true) (hm : m.cpu.mFlag = false) :
    (supexecReturn value m).cpu.a 7 = m.cpu.sp .usp ∧
      (supexecReturn value m).cpu.sp .isp = m.cpu.a 7 := by
  have hbank : bank m.cpu.sFlag m.cpu.mFlag = .isp := by rw [hs, hm]; rfl
  have husp : bank false false = .usp := rfl
  constructor <;>
    simp [supexecReturn, Machine.disableSupervisorMode, Machine.setReg, m68kSetReg,
      disableSupervisorMode, hbank, husp]

end Return

/-- In supervisor mode on behalf of a trap taken in the state `m`, with the stack pointer `ssp`. -/
structure Entered (m : Machine) (ssp : Long) (t : Machine) : Prop where
  supervisor : t.cpu.sFlag = true
  master : t.cpu.mFlag = false
  ssp : t.cpu.a 7 = ssp
  usp : t.cpu.sp .usp = m.cpu.a 7
  dreg : t.dreg = fun i => m.cpu.d (dregNumber i)
  areg : t.areg = fun i => m.cpu.a (aregNumber i)

def supexecStart (m : Machine) : Machine := (saveRegs (peekU32 2 m).2).enableSupervisorMode

theorem supexecTrap_eq (m : Machine) :
    supexecTrap m = ((pushU32 0x200 (pushU32 (supexecStart m).cpu.pc (supexecStart m))).setReg .pc
      (peekU32 2 m).1).setReg (.d 0) 0 := rfl

theorem peekU32_user {m : Machine} (h : UserMap m) (offset : Long) :
    ∃ ok, (peekU32 offset m).2 = haltUnless ok m := by
  rw [peekU32, m68kReadDisassembler32, readLoop_plain _ _ _ _ (fun i _ => h.plain _)]
  exact ⟨_, rfl⟩

theorem supexecStart_entered {m : Machine} (h : UserMap m) :
    Entered m (m.cpu.sp .isp) (supexecStart m) := by
  obtain ⟨ok, hok⟩ := peekU32_user h 2
  have hbank : bank m.cpu.sFlag m.cpu.mFlag = .usp := by rw [h.user]; rfl
  have hisp : bank true false = .isp := rfl
  rw [supexecStart, hok]
  constructor <;>
    simp [saveRegs, haltUnless, Machine.enableSupervisorMode, enableSupervisorMode, m68kSetReg,
      Machine.getReg, m68kGetReg, hbank, hisp]

theorem supexecStart_pc {m : Machine} (h : UserMap m) : (supexecStart m).cpu.pc = m.cpu.pc := by
  obtain ⟨ok, hok⟩ := peekU32_user h 2
  rw [supexecStart, hok]
  rfl

theorem supexecStart_memory {m : Machine} (h : UserMap m) : (supexecStart m).memory = m.memory := by
  obtain ⟨ok, hok⟩ := peekU32_user h 2
  rw [supexecStart, hok]
  rfl

theorem pushU32_entered {m t : Machine} {ssp : Long} (h : Entered m ssp t) (value : Long) :
    Entered m (ssp - 4) (pushU32 value t) := by
  have hw := writeLoop_sameMap 4 (ssp - 4) value t
  simp only [pushU32, Machine.getReg, m68kGetReg, h.ssp, Machine.setReg, m68kSetReg,
    m68kWriteMemory32]
  exact ⟨by rw [hw.cpu]; exact h.supervisor, by rw [hw.cpu]; exact h.master, by simp,
    by rw [hw.cpu]; exact h.usp, hw.dreg.trans h.dreg, hw.areg.trans h.areg⟩

theorem setReg_crashed (r : Reg) (value : Long) (m : Machine) :
    (m.setReg r value).crashed = m.crashed := rfl

theorem Entered.setReg_pc {m t : Machine} {ssp : Long} (h : Entered m ssp t) (value : Long) :
    Entered m ssp (t.setReg .pc value) :=
  ⟨h.supervisor, h.master, h.ssp, h.usp, h.dreg, h.areg⟩

theorem Entered.setReg_d {m t : Machine} {ssp : Long} (h : Entered m ssp t) (i : Fin 8) (value : Long) :
    Entered m ssp (t.setReg (.d i) value) :=
  ⟨h.supervisor, h.master, h.ssp, h.usp, h.dreg, h.areg⟩

theorem supexecTrap_entered {m : Machine} (h : UserMap m) :
    Entered m (m.cpu.sp .isp - 8) (supexecTrap m) := by
  have hp := pushU32_entered (pushU32_entered (supexecStart_entered h) (supexecStart m).cpu.pc) 0x200
  rw [BitVec.sub_sub] at hp
  exact (hp.setReg_pc _).setReg_d _ _

theorem Entered.sameState {m t t' : Machine} {ssp : Long} (h : Entered m ssp t) (hs : SameState t t') :
    Entered m ssp t' :=
  ⟨by rw [hs.cpu]; exact h.supervisor, by rw [hs.cpu]; exact h.master, by rw [hs.cpu]; exact h.ssp,
    by rw [hs.cpu]; exact h.usp, hs.dreg.trans h.dreg, hs.areg.trans h.areg⟩

theorem Entered.setReg_a7 {m t : Machine} {ssp : Long} (h : Entered m ssp t) (sp : Long) :
    Entered m sp (t.setReg (.a 7) sp) :=
  ⟨h.supervisor, h.master, Function.update_self (β := fun _ => Long) 7 sp t.cpu.a, h.usp, h.dreg, h.areg⟩

theorem Entered.pop {m t : Machine} {ssp : Long} (h : Entered m ssp t) :
    Entered m (ssp + 4) (popU32With (tosReadWith magicReentry) t).2 := by
  have hsp : t.getReg (.a 7) = ssp := h.ssp
  simp only [popU32With, hsp]
  exact (h.sameState (readLoop_sameState reentry_quiet 4 ssp 0 t)).setReg_a7 _

/-- The subroutine entered in the state `t` is about to run its `RTS` in the state `s`: both stack
pointers are as it found them, and it did not call Supexec. -/
structure SubroutineDone (t s : Machine) : Prop where
  supervisor : s.cpu.sFlag = true
  master : s.cpu.mFlag = t.cpu.mFlag
  ssp : s.cpu.a 7 = t.cpu.a 7
  usp : s.cpu.sp .usp = t.cpu.sp .usp
  dreg : s.dreg = t.dreg
  areg : s.areg = t.areg
  map : ∃ b, s.memory = registerAreas b
  alive : s.crashed = false

theorem SubroutineDone.entered {m t s : Machine} {ssp : Long} (h : SubroutineDone t s)
    (ht : Entered m ssp t) : Entered m ssp s :=
  ⟨h.supervisor, h.master.trans ht.master, h.ssp.trans ht.ssp, h.usp.trans ht.usp,
    h.dreg.trans ht.dreg, h.areg.trans ht.areg⟩

structure Returned (m : Machine) (r : Long × Machine) : Prop where
  word : r.1 = 0x4e71
  user : r.2.cpu.sFlag = false
  pc : r.2.cpu.pc = m.cpu.pc
  usp : r.2.cpu.a 7 = m.cpu.a 7
  ssp : r.2.cpu.sp .isp = m.cpu.sp .isp
  d : ∀ i, r.2.cpu.d (dregNumber i) = m.cpu.d (dregNumber i)
  a : ∀ i, r.2.cpu.a (aregNumber i) = m.cpu.a (aregNumber i)
  alive : r.2.crashed = false

/-- The frame that the trap pushed is off the magic byte, and its return address is short and still
there. -/
def ReturnsTo (pc : Long) (s : Machine) : Prop :=
  OffMagic (address68k (s.cpu.a 7)) ∧ OffMagic (s.cpu.a 7 + 4) ∧ pc.toNat < 0x10000 ∧
    (m68kReadDisassembler32 (s.cpu.a 7 + 4) s).1.setWidth 16 = pc.setWidth 16

section Rts

variable {b : TosBuffers} {m s : Machine} {ssp : Long}

theorem rts_off (h : Entered m ssp s) (hm : s.memory = registerAreas b) (halive : s.crashed = false)
    (hoff : OffMagic (address68k ssp)) :
    Entered m (ssp + 4) (rts s) ∧ (rts s).memory = registerAreas b ∧ (rts s).crashed = false := by
  have h' := h.setReg_a7 (ssp + 4)
  have hm' : (s.setReg (.a 7) (ssp + 4)).memory = registerAreas b := hm
  have hpull : m68kiPull32 s =
      readLoop (tosReadWith magicReentry) 4 (address68k ssp) 0 (s.setReg (.a 7) (ssp + 4)) := by
    rw [m68kiPull32, h.ssp, m68kReadMemory32, m68kReadDisassembler32, readLoop_off hoff]
  have hsame := readLoop_sameState reentry_quiet 4 (address68k ssp) 0 (s.setReg (.a 7) (ssp + 4))
  have hcrash := readLoop_crashed hm' h'.supervisor 4 (address68k ssp) 0
  rw [rts, hpull]
  refine ⟨(h'.sameState hsame).setReg_pc _, hsame.memory.trans hm', hcrash.trans ?_⟩
  have hno : ¬ ∃ k < 4, address68k ssp + BitVec.ofNat 32 k = 0x201 := fun ⟨k, hk, he⟩ => hoff k hk he
  rw [decide_eq_false hno, Bool.or_false]
  exact halive

theorem rts_magic (h : Entered m ssp s) (hm : s.memory = registerAreas b)
    (hoff : ¬ OffMagic (address68k ssp)) :
    (rts s).memory = registerAreas b ∧ (rts s).cpu.sFlag = false := by
  have hm' : (s.setReg (.a 7) (ssp + 4)).memory = registerAreas b := hm
  obtain ⟨hmem, hs⟩ := readLoop_sFlag hm' 4 (address68k ssp) 0
  rw [rts, m68kiPull32, h.ssp]
  exact ⟨hmem.trans hm', hs.trans (Bool.and_eq_false_imp.mpr (fun _ => decide_eq_false hoff))⟩

theorem fetch_refused (hm : m.memory = registerAreas b) (hu : m.cpu.sFlag = false)
    (hpc : m.cpu.pc = 0x200) : (m68kiReadImm16 m).1 = 0 := by
  have hu' := registerAreas_userMap b (m := m.setReg .pc (m.cpu.pc + 2)) hm hu
  have hzero : ∀ i < 2, readByte (m.setReg .pc (m.cpu.pc + 2)) (0x200 + BitVec.ofNat 32 i) = 0 := by
    intro i hi
    rw [readByte, if_neg]
    rintro ⟨hb, -⟩
    have hfind : findMemarea (m.setReg .pc (m.cpu.pc + 2)).memory (0x200 + BitVec.ofNat 32 i) =
        some ⟨0x200, 0x2, .supexec, MEMORY_SUPERREAD⟩ := by
      have hm' : (m.setReg .pc (m.cpu.pc + 2)).memory = registerAreas b := hm
      rw [hm', findMemarea_registerAreas]
      obtain rfl | rfl : i = 0 ∨ i = 1 := by omega
      · rfl
      · rfl
    rw [memByte, hfind] at hb
    exact Bool.false_ne_true hb
  have hadr : address68k 0x200 = 0x200 := by decide
  rw [m68kiReadImm16, m68kReadMemory16, m68kReadDisassembler16,
    readLoop_plain _ _ _ _ (fun i _ => hu'.plain _)]
  simp only [hpc, hadr] at hzero ⊢
  simp only [List.range_succ, List.range_zero, List.nil_append, List.cons_append, List.map_cons,
    List.map_nil, hzero 0 (by omega), hzero 1 (by omega)]
  decide

theorem zeroExtend_low {v pc : Long} :
    (v.setWidth 16).setWidth 32 = pc ↔ pc.toNat < 0x10000 ∧ v.setWidth 16 = pc.setWidth 16 := by
  constructor
  · rintro rfl
    refine ⟨?_, by simp⟩
    rw [BitVec.toNat_setWidth]
    exact (Nat.mod_le _ _).trans_lt (v.setWidth 16).isLt
  · rintro ⟨hlt, he⟩
    apply BitVec.eq_of_toNat_eq
    rw [he, BitVec.toNat_setWidth, BitVec.toNat_setWidth, Nat.mod_eq_of_lt (show _ < 2 ^ 16 from hlt),
      Nat.mod_eq_of_lt pc.isLt]

end Rts

theorem pop_value {b : TosBuffers} {m p s : Machine} {sp : Long} (h : Entered m sp p)
    (hp : p.memory = registerAreas b) (halive : p.crashed = false) (hmem : p.memory = s.memory)
    (hs : s.cpu.sFlag = true) :
    let r := popU32With (tosReadWith magicReentry) p
    (r.2.crashed = false ↔ OffMagic sp) ∧
      (OffMagic sp → r.1 = ((m68kReadDisassembler32 sp s).1.setWidth 16).setWidth 32) := by
  have hsp : p.getReg (.a 7) = sp := h.ssp
  have hcrash := readLoop_crashed hp h.supervisor 4 sp 0
  simp only [popU32With, hsp]
  constructor
  · refine Iff.trans (Eq.congr_left hcrash) ?_
    rw [halive, Bool.false_or, decide_eq_false_iff_not]
    exact ⟨fun hno k hk he => hno ⟨k, hk, he⟩, fun hoff ⟨k, hk, he⟩ => hoff k hk he⟩
  · intro hoff
    rw [m68kReadDisassembler32, readLoop_off hoff,
      readLoop_value 4 sp 0 hmem.symm (hs.trans h.supervisor.symm)]

theorem returned_iff {m q : Machine} (h : Entered m (m.cpu.sp .isp) q) (value : Long) :
    Returned m (0x4e71, supexecReturn value q) ↔ q.crashed = false ∧ value = m.cpu.pc := by
  obtain ⟨husp, hisp⟩ := supexecReturn_stacks value q h.supervisor h.master
  constructor
  · exact fun hr => ⟨hr.alive, hr.pc⟩
  · rintro ⟨hcrash, hpc⟩
    refine ⟨rfl, supexecReturn_sFlag _ _, hpc, husp.trans h.usp, hisp.trans h.ssp, fun i => ?_,
      fun i => ?_, hcrash⟩
    · rw [supexecReturn_d, h.dreg]
    · rw [supexecReturn_a, h.areg]

theorem pushU32_crashed (value : Long) (m : Machine) : (pushU32 value m).crashed = m.crashed :=
  (writeLoop_sameMap 4 (m.cpu.a 7 - 4) value m).crashed

theorem supexecTrap_crashed {m : Machine} (h : UserMap m) : (supexecTrap m).crashed = m.crashed := by
  obtain ⟨ok, hok⟩ := peekU32_user h 2
  have hstart : (supexecStart m).crashed = m.crashed := by
    rw [supexecStart, hok]
    rfl
  rw [supexecTrap_eq, setReg_crashed, setReg_crashed, pushU32_crashed, pushU32_crashed, hstart]

theorem rts_fetch {b : TosBuffers} {m s : Machine} {ssp : Long} (h : Entered m ssp s)
    (hmap : s.memory = registerAreas b) (halive : s.crashed = false)
    (hoff : OffMagic (address68k ssp)) (hfetch : (rts s).cpu.pc = 0x200) :
    ∃ value q, m68kiReadImm16 (rts s) = (0x4e71, supexecReturn value q) ∧
      Entered m (ssp + 4 + 4) q ∧ q.memory = registerAreas b ∧
      (q.crashed = false ↔ OffMagic (ssp + 4)) ∧
      (OffMagic (ssp + 4) →
        value = ((m68kReadDisassembler32 (ssp + 4) s).1.setWidth 16).setWidth 32) := by
  obtain ⟨hr, hmem, halive'⟩ := rts_off h hmap halive hoff
  have hp := hr.setReg_pc 0x202
  obtain ⟨hcrash, hvalue⟩ := pop_value hp hmem halive' (hmem.trans hmap.symm) h.supervisor
  have hq := pop_memory ((rts s).setReg .pc 0x202)
  rw [setReg_memory, hmem] at hq
  exact ⟨_, _, fetch_magic hmem hr.supervisor hfetch, hp.pop, hq, hcrash, hvalue⟩

theorem sub_eight_add (x : Long) : x - 8 + 4 + 4 = x := by
  rw [BitVec.add_assoc]
  exact BitVec.sub_add_cancel _ _

theorem supexec_returns_iff {m s : Machine} (b : TosBuffers) (hm : m.memory = registerAreas b)
    (hu : m.cpu.sFlag = false) (hs : SubroutineDone (supexecTrap m) s)
    (hfetch : (rts s).cpu.pc = 0x200) :
    Returned m (m68kiReadImm16 (rts s)) ↔ ReturnsTo m.cpu.pc s := by
  obtain ⟨b', hmap⟩ := hs.map
  have hent := hs.entered (supexecTrap_entered (registerAreas_userMap b hm hu))
  rw [ReturnsTo, hent.ssp]
  by_cases hoff : OffMagic (address68k (m.cpu.sp .isp - 8))
  · obtain ⟨value, q, hf, hq, -, hcrash, hvalue⟩ := rts_fetch hent hmap hs.alive hoff hfetch
    rw [sub_eight_add] at hq
    rw [hf, returned_iff hq, hcrash, and_iff_right hoff]
    refine and_congr_right (fun hoff' => ?_)
    rw [hvalue hoff', zeroExtend_low]
  · obtain ⟨hmem, hsf⟩ := rts_magic hent hmap hoff
    refine iff_of_false (fun h => ?_) (fun h => hoff h.1)
    have hword := h.word
    rw [fetch_refused hmem hsf hfetch] at hword
    exact absurd hword (by decide)

theorem pushU32_memory {b : TosBuffers} {m : Machine} (hm : m.memory = registerAreas b)
    (value : Long) : ∃ b', (pushU32 value m).memory = registerAreas b' :=
  writeLoop_registerAreas hm 4 (m.cpu.a 7 - 4) value

theorem supexecTrap_memory {b : TosBuffers} {m : Machine} (hm : m.memory = registerAreas b)
    (h : UserMap m) : ∃ b', (supexecTrap m).memory = registerAreas b' := by
  obtain ⟨b₁, h₁⟩ := pushU32_memory ((supexecStart_memory h).trans hm) (supexecStart m).cpu.pc
  rw [supexecTrap_eq, setReg_memory, setReg_memory]
  exact pushU32_memory h₁ 0x200

def userMachine (pc : Long) : Machine where
  cpu := { coldCore with
    pc := pc
    a := Function.update coldCore.a 7 0x1000
    sp := Function.update coldCore.sp .isp 0x600 }
  memory := registerAreas (supervisorFilled 0)
  keepongoing := true
  dreg := fun _ => 0
  areg := fun _ => 0
  crashed := false

theorem userMachine_done (pc : Long) (h : (supexecTrap (userMachine pc)).crashed = false) :
    SubroutineDone (supexecTrap (userMachine pc)) (supexecTrap (userMachine pc)) := by
  have hu := registerAreas_userMap (supervisorFilled 0) (m := userMachine pc) rfl rfl
  exact ⟨(supexecTrap_entered hu).supervisor, rfl, rfl, rfl, rfl, rfl, supexecTrap_memory rfl hu, h⟩

theorem supexec_returns_near :
    Returned (userMachine 0x910) (m68kiReadImm16 (rts (supexecTrap (userMachine 0x910)))) :=
  (supexec_returns_iff (supervisorFilled 0) rfl rfl (userMachine_done 0x910 (by decide +kernel))
    (by decide +kernel)).mpr (by unfold ReturnsTo; decide +kernel)

theorem supexec_return_truncated :
    let m := userMachine 0x10910
    SubroutineDone (supexecTrap m) (supexecTrap m) ∧ (rts (supexecTrap m)).cpu.pc = 0x200 ∧
      ¬ Returned m (m68kiReadImm16 (rts (supexecTrap m))) := by
  refine ⟨userMachine_done 0x10910 (by decide +kernel), by decide +kernel, fun h => ?_⟩
  have hpc : (m68kiReadImm16 (rts (supexecTrap (userMachine 0x10910)))).2.cpu.pc = 0x910 := by
    decide +kernel
  exact absurd (hpc.symm.trans h.pc) (by decide)

end Tosemu
