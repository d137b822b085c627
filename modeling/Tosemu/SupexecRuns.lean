import Tosemu.Supexec

namespace Tosemu

open Cpu Runs

theorem supervisor_readable {b : TosBuffers} {m : Machine} {x : Long}
    (hm : m.memory = registerAreas b) (hs : m.cpu.sFlag = true)
    (h : (memByte m.memory x).isSome) : Readable m x := by
  refine ⟨h, ?_⟩
  rw [supervisor_readMask hs]
  rw [hm] at h ⊢
  rw [memByte, findMemarea_registerAreas, tosLookup] at h
  rw [memFlags, findMemarea_registerAreas, tosLookup]
  have hread : ∀ flags ∈ [MEMORY_READWRITE, MEMORY_READWRITE ||| MEMORY_SUPERWRITE,
      MEMORY_SUPERREAD ||| MEMORY_SUPERWRITE], flags &&& (MEMORY_READ ||| MEMORY_SUPERREAD) ≠ 0 := by
    decide
  split_ifs at h ⊢
  · exact hread _ (by simp)
  · exact absurd h Bool.false_ne_true
  · exact hread _ (by simp)
  · exact hread _ (by simp)
  · exact hread _ (by simp)
  · exact hread _ List.mem_cons_self
  · exact absurd h Bool.false_ne_true

theorem offMagic_of_mapped {b : TosBuffers} {a : Long}
    (h : ∀ k < 4, (memByte (registerAreas b) (a + BitVec.ofNat 32 k)).isSome) : OffMagic a := by
  intro k hk he
  have := (mapped_bounds (h k hk)).2
  rw [he] at this
  exact this (by decide)

theorem address68k_toNat (a : Long) : (address68k a).toNat = a.toNat % 2 ^ 24 := by
  have hmask : (0x00ffffff : Long).toNat = 2 ^ 24 - 1 := rfl
  rw [address68k, BitVec.toNat_and, hmask, Nat.and_two_pow_sub_one_eq_mod]

theorem address68k_eq {a : Long} (h : a.toNat < 2 ^ 24) : address68k a = a := by
  apply BitVec.eq_of_toNat_eq
  rw [address68k_toNat]
  exact Nat.mod_eq_of_lt h

theorem address68k_of_mapped {b : TosBuffers} {a : Long} (h : (memByte (registerAreas b) a).isSome) :
    address68k a = a := by
  have hlt := (mapped_bounds h).1
  exact address68k_eq (by omega)

def LongAt (m : Machine) (a value : Long) : Prop :=
  ∀ k < 4, memByte m.memory (a + BitVec.ofNat 32 k) = (BigEndian.unpack value 4)[k]?

section LongAt

variable {b : TosBuffers} {m : Machine} {a value : Long}

theorem LongAt.mapped (h : LongAt m a value) {k : ℕ} (hk : k < 4) :
    (memByte m.memory (a + BitVec.ofNat 32 k)).isSome := by
  rw [h k hk, List.getElem?_eq_getElem (by simpa using hk)]
  rfl

theorem LongAt.read (h : LongAt m a value) (hm : m.memory = registerAreas b)
    (hs : m.cpu.sFlag = true) : m68kReadDisassembler32 a m = (value, m) := by
  have hread : ∀ k < 4, Readable m (a + BitVec.ofNat 32 k) :=
    fun k hk => supervisor_readable hm hs (h.mapped hk)
  rw [m68kReadDisassembler32, readLoop_bytes (BigEndian.unpack_length value 4) hread h,
    BigEndian.pack_unpack_eq (by decide)]

theorem LongAt.offMagic (h : LongAt m a value) (hm : m.memory = registerAreas b) : OffMagic a :=
  offMagic_of_mapped (fun _ hk => hm ▸ h.mapped hk)

theorem LongAt.address68k (h : LongAt m a value) (hm : m.memory = registerAreas b) :
    address68k a = a := by
  apply address68k_of_mapped (b := b)
  have hb := h.mapped (k := 0) (by omega)
  rwa [hm, BitVec.add_zero] at hb

end LongAt

theorem pushU32_keepongoing {value : Long} {m : Machine}
    (h : (pushU32 value m).keepongoing = true) :
    m.keepongoing = true ∧ ∀ k < 4, Writable m (m.cpu.a 7 - 4 + BitVec.ofNat 32 k) := by
  have hk : (pushU32 value m).keepongoing = (writeLoop 4 (m.cpu.a 7 - 4) value m).keepongoing := rfl
  rw [hk, writeLoop_keepongoing, Bool.and_eq_true] at h
  exact ⟨h.1, of_decide_eq_true h.2⟩

theorem pushU32_longAt {value : Long} {m : Machine} (h : (pushU32 value m).keepongoing = true) :
    LongAt (pushU32 value m) (m.cpu.a 7 - 4) value := by
  intro k hk
  have hmem : (pushU32 value m).memory = (writeLoop 4 (m.cpu.a 7 - 4) value m).memory := rfl
  rw [hmem, memByte_writeLoop _ _ _ _ hk (by omega) ((pushU32_keepongoing h).2 k hk)]

theorem pushU32_keeps (value : Long) {v : Long} {m : Machine} (h : LongAt m (m.cpu.a 7) v) :
    LongAt (pushU32 value m) (m.cpu.a 7) v := by
  intro k hk
  have hmem : (pushU32 value m).memory = (writeLoop 4 (m.cpu.a 7 - 4) value m).memory := rfl
  rw [hmem, memByte_writeLoop_of_ne, h k hk]
  -- the four bytes written lie below the stack pointer
  intro i hi he
  have h4 : (4 : Long).toNat = 4 := rfl
  have := congrArg BitVec.toNat he
  simp only [BitVec.toNat_add, BitVec.toNat_sub, BitVec.toNat_ofNat, h4] at this
  omega

theorem LongAt.setReg {m : Machine} {a value : Long} (h : LongAt m a value) (r : Reg) (v : Long) :
    LongAt (m.setReg r v) a value := h

theorem supexecTrap_frame {m : Machine} (h : UserMap m) (hk : (supexecTrap m).keepongoing = true) :
    LongAt (supexecTrap m) (m.cpu.sp .isp - 8) 0x200 ∧
      LongAt (supexecTrap m) (m.cpu.sp .isp - 8 + 4) m.cpu.pc := by
  have ht := supexecStart_entered h
  have hp := pushU32_entered ht m.cpu.pc
  rw [supexecTrap_eq, setReg_keepongoing, setReg_keepongoing, supexecStart_pc h] at hk
  have h200 := pushU32_longAt hk
  have hback := pushU32_longAt (pushU32_keepongoing hk).1
  rw [ht.ssp, ← hp.ssp] at hback
  have hkept := pushU32_keeps 0x200 hback
  rw [hp.ssp] at h200 hkept
  have h8 : m.cpu.sp .isp - 4 - 4 = m.cpu.sp .isp - 8 := BitVec.sub_sub _ _ _
  have h4 : m.cpu.sp .isp - 8 + 4 = m.cpu.sp .isp - 4 := by
    rw [← h8]
    exact BitVec.sub_add_cancel _ _
  rw [h8] at h200
  rw [h4, supexecTrap_eq, supexecStart_pc h]
  exact ⟨(h200.setReg _ _).setReg _ _, (hkept.setReg _ _).setReg _ _⟩

theorem supexec_return {b : TosBuffers} {m s : Machine} (h : Entered m (m.cpu.sp .isp - 8) s)
    (hmap : s.memory = registerAreas b) (halive : s.crashed = false)
    (h200 : LongAt s (m.cpu.sp .isp - 8) 0x200) (hback : LongAt s (m.cpu.sp .isp - 8 + 4) m.cpu.pc)
    (hpc : m.cpu.pc.toNat < 0x10000) :
    ∃ value q, m68kiReadImm16 (rts s) = (0x4e71, supexecReturn value q) ∧
      Returned m (0x4e71, supexecReturn value q) ∧ Entered m (m.cpu.sp .isp) q ∧
      q.memory = registerAreas b := by
  have hadr := h200.address68k hmap
  have hoff := h200.offMagic hmap
  have hoff' := hback.offMagic hmap
  rw [← hadr] at hoff
  have hfetch : (rts s).cpu.pc = 0x200 := by
    have hs' := h.setReg_a7 (m.cpu.sp .isp - 8 + 4)
    have hread := (h200.setReg (.a 7) (m.cpu.sp .isp - 8 + 4)).read hmap hs'.supervisor
    rw [rts, m68kiPull32, h.ssp, hadr]
    exact congrArg Prod.fst hread
  obtain ⟨value, q, hf, hq, hmem, hcrash, hvalue⟩ := rts_fetch h hmap halive hoff hfetch
  rw [sub_eight_add] at hq
  refine ⟨value, q, hf, (returned_iff hq value).mpr ⟨hcrash.mpr hoff', ?_⟩, hq, hmem⟩
  rw [hvalue hoff', hback.read hmap h.supervisor, zeroExtend_low]
  exact ⟨hpc, rfl⟩

structure Frame where
  atTrap : Machine
  entry : Machine

structure Sys where
  machine : Machine
  pending : List Frame

/-- A `guest` event is whatever the program and the other system calls do in between. -/
inductive Event
  | guest (m : Machine)
  | trap
  | ret

def sysStep (σ : Sys) : Event → Unit × Sys
  | .guest m => ((), ⟨m, σ.pending⟩)
  | .trap => ((), ⟨supexecTrap σ.machine, ⟨σ.machine, supexecTrap σ.machine⟩ :: σ.pending⟩)
  | .ret => ((), ⟨(m68kiReadImm16 (rts σ.machine)).2, σ.pending.tail⟩)

/-- The saved registers belong to Supexec, the map to the loader, and the 68000 has no M flag. -/
structure GuestStep (m m' : Machine) : Prop where
  dreg : m'.dreg = m.dreg
  areg : m'.areg = m.areg
  map : ∃ b, m'.memory = registerAreas b
  master : m'.cpu.mFlag = false
  alive : m'.crashed = false

/-- At its `RTS` the subroutine has both stacks and its frame as it found them. -/
structure Balanced (entry s : Machine) : Prop where
  supervisor : s.cpu.sFlag = entry.cpu.sFlag
  ssp : s.cpu.a 7 = entry.cpu.a 7
  usp : s.cpu.sp .usp = entry.cpu.sp .usp
  frame : ∀ k < 8, memByte s.memory (entry.cpu.a 7 + BitVec.ofNat 32 k) =
    memByte entry.memory (entry.cpu.a 7 + BitVec.ofNat 32 k)

/-- Properly nested calls; a step that halts is the last one. -/
def Nested (σ : Sys) : Event → Prop
  | .guest m => σ.machine.keepongoing = true ∧ GuestStep σ.machine m
  | .trap => (supexecTrap σ.machine).keepongoing = true ∧ σ.machine.cpu.pc.toNat < 0x10000
  | .ret => σ.machine.keepongoing = true ∧ ∃ f ∈ σ.pending.head?, Balanced f.entry σ.machine

def SameSaved (m m' : Machine) : Prop :=
  (∀ i, m.cpu.d (dregNumber i) = m'.cpu.d (dregNumber i)) ∧
    ∀ i, m.cpu.a (aregNumber i) = m'.cpu.a (aregNumber i)

def UserTrap (σ : Sys) : Event → Prop
  | .trap => σ.machine.cpu.sFlag = false ∧ ∀ f ∈ σ.pending, SameSaved f.atTrap σ.machine
  | _ => True

structure Restored (m m' : Machine) : Prop where
  mode : m'.cpu.sFlag = m.cpu.sFlag
  sp : m'.cpu.a 7 = m.cpu.a 7
  pc : m'.cpu.pc = m.cpu.pc
  saved : SameSaved m' m

def Restores (σ : Sys) : Event → Prop
  | .ret => ∀ f ∈ σ.pending.head?, Restored f.atTrap (sysStep σ .ret).2.machine
  | _ => True

structure FrameOk (dreg : Fin 5 → Long) (areg : Fin 4 → Long) (f : Frame) : Prop where
  user : f.atTrap.cpu.sFlag = false
  map : ∃ b, f.atTrap.memory = registerAreas b
  entry : f.entry = supexecTrap f.atTrap
  goes : f.entry.keepongoing = true
  short : f.atTrap.cpu.pc.toNat < 0x10000
  dreg : dreg = fun i => f.atTrap.cpu.d (dregNumber i)
  areg : areg = fun i => f.atTrap.cpu.a (aregNumber i)

structure SysInv (σ : Sys) : Prop where
  map : ∃ b, σ.machine.memory = registerAreas b
  master : σ.machine.cpu.mFlag = false
  alive : σ.machine.crashed = false
  frames : ∀ f ∈ σ.pending, FrameOk σ.machine.dreg σ.machine.areg f

theorem Balanced.longAt {entry s : Machine} (h : Balanced entry s) {a value : Long} {n : ℕ}
    (hn : n + 4 ≤ 8) (ha : a = entry.cpu.a 7 + BitVec.ofNat 32 n) (hl : LongAt entry a value) :
    LongAt s a value := by
  intro k hk
  rw [← hl k hk, ha, BitVec.add_assoc, ← BitVec.ofNat_add]
  exact h.frame (n + k) (by omega)

theorem trap_inv {σ : Sys} (hi : SysInv σ) (hn : Nested σ .trap) (hu : UserTrap σ .trap) :
    SysInv (sysStep σ .trap).2 := by
  obtain ⟨b, hmap⟩ := hi.map
  have huser := registerAreas_userMap b hmap hu.1
  have hent := supexecTrap_entered huser
  refine ⟨supexecTrap_memory hmap huser, hent.master, (supexecTrap_crashed huser).trans hi.alive, ?_⟩
  intro f hf
  rcases List.mem_cons.mp hf with rfl | hf
  · exact ⟨hu.1, ⟨b, hmap⟩, rfl, hn.1, hn.2, hent.dreg, hent.areg⟩
  · have hf' := hi.frames f hf
    obtain ⟨hd, ha⟩ := hu.2 f hf
    exact ⟨hf'.user, hf'.map, hf'.entry, hf'.goes, hf'.short,
      hent.dreg.trans (funext (fun i => (hd i).symm)), hent.areg.trans (funext (fun i => (ha i).symm))⟩

theorem ret_inv {σ : Sys} (hi : SysInv σ) (hn : Nested σ .ret) :
    SysInv (sysStep σ .ret).2 ∧ Restores σ .ret := by
  obtain ⟨machine, pending⟩ := σ
  obtain ⟨-, f, hhead, hbal⟩ := hn
  cases pending with
  | nil => simp at hhead
  | cons g rest =>
    obtain rfl : g = f := by simpa using hhead
    have hg := hi.frames g List.mem_cons_self
    obtain ⟨b, hmap⟩ := hi.map
    obtain ⟨b₀, hmap₀⟩ := hg.map
    have huser := registerAreas_userMap b₀ hmap₀ hg.user
    have htrap := supexecTrap_entered huser
    obtain ⟨h200, hback⟩ := supexecTrap_frame huser (hg.entry ▸ hg.goes)
    rw [hg.entry] at hbal
    have hent : Entered g.atTrap (g.atTrap.cpu.sp .isp - 8) machine :=
      ⟨hbal.supervisor.trans htrap.supervisor, hi.master, hbal.ssp.trans htrap.ssp,
        hbal.usp.trans htrap.usp, hg.dreg, hg.areg⟩
    obtain ⟨value, q, hf, hr, hq, hmem⟩ := supexec_return hent hmap hi.alive
      (hbal.longAt (n := 0) (by omega) (by rw [htrap.ssp, BitVec.add_zero]) h200)
      (hbal.longAt (n := 4) (by omega) (by rw [htrap.ssp]; rfl) hback) hg.short
    have hnext : (sysStep ⟨machine, g :: rest⟩ .ret).2 = ⟨supexecReturn value q, rest⟩ := by
      simp only [sysStep, hf, List.tail_cons]
    have hframes : ∀ f ∈ rest, FrameOk q.dreg q.areg f := by
      intro f hf
      rw [hq.dreg, hq.areg, ← hg.dreg, ← hg.areg]
      exact hi.frames f (List.mem_cons_of_mem _ hf)
    refine ⟨?_, ?_⟩
    · rw [hnext]
      exact ⟨⟨b, hmem⟩, supexecReturn_mFlag value q, hr.alive, hframes⟩
    · intro f hf'
      obtain rfl : g = f := by simpa using hf'
      rw [hnext]
      exact ⟨hr.user.trans hg.user.symm, hr.usp, hr.pc, hr.d, hr.a⟩

theorem sysStep_inv (σ : Sys) (e : Event) (hi : SysInv σ) (h : Nested σ e ∧ UserTrap σ e) :
    SysInv (sysStep σ e).2 ∧ Restores σ e := by
  cases e with
  | guest m =>
    obtain ⟨-, hg⟩ := h.1
    refine ⟨⟨hg.map, hg.master, hg.alive, ?_⟩, trivial⟩
    intro f hf
    have hf' := hi.frames f hf
    exact ⟨hf'.user, hf'.map, hf'.entry, hf'.goes, hf'.short, hg.dreg.trans hf'.dreg,
      hg.areg.trans hf'.areg⟩
  | trap => exact ⟨trap_inv hi h.1 h.2, trivial⟩
  | ret => exact ret_inv hi h.1

theorem nested_supexec_restores (σ : Sys) (hpending : σ.pending = []) (b : TosBuffers)
    (hmap : σ.machine.memory = registerAreas b) (hmaster : σ.machine.cpu.mFlag = false)
    (halive : σ.machine.crashed = false) (events : List Event)
    (h : Along sysStep (fun σ e => Nested σ e ∧ UserTrap σ e) σ events) :
    Along sysStep Restores σ events := by
  have hi : SysInv σ := ⟨⟨b, hmap⟩, hmaster, halive, by simp [hpending]⟩
  exact along_mono (fun σ e hi h => (sysStep_inv σ e hi h).1) (fun σ e hi h => (sysStep_inv σ e hi h).2)
    hi h

theorem balanced_refl (m : Machine) : Balanced m m := ⟨rfl, rfl, rfl, fun _ _ => rfl⟩

theorem guestStep_cpu {m : Machine} {c : Core} (hmap : ∃ b, m.memory = registerAreas b)
    (hmaster : c.mFlag = false) (halive : m.crashed = false) : GuestStep m { m with cpu := c } :=
  ⟨rfl, rfl, hmap, hmaster, halive⟩

section Nesting

theorem nested_guest {m m' : Machine} {pending : List Frame} (halive : m.keepongoing = true)
    (h : GuestStep m m') : Nested ⟨m, pending⟩ (.guest m') := ⟨halive, h⟩

theorem nested_ret {m : Machine} {f : Frame} {pending : List Frame} (halive : m.keepongoing = true)
    (h : Balanced f.entry m) : Nested ⟨m, f :: pending⟩ .ret := ⟨halive, f, rfl, h⟩

def outerFrame : Frame := ⟨userMachine 0x910, supexecTrap (userMachine 0x910)⟩

def innerCaller : Machine :=
  { outerFrame.entry with cpu := m68kSetReg .pc 0x920 (disableSupervisorMode outerFrame.entry.cpu) }

def innerFrame : Frame := ⟨innerCaller, supexecTrap innerCaller⟩

def innerReturned : Machine := (m68kiReadImm16 (rts innerFrame.entry)).2

def outerAgain : Machine := { innerReturned with cpu := enableSupervisorMode innerReturned.cpu }

theorem outerTrap_nested : Nested ⟨userMachine 0x910, []⟩ .trap ∧ UserTrap ⟨userMachine 0x910, []⟩ .trap :=
  ⟨⟨by decide +kernel, by decide +kernel⟩, rfl, by simp⟩

theorem innerCaller_nested : Nested ⟨outerFrame.entry, [outerFrame]⟩ (.guest innerCaller) ∧
    SysInv ⟨innerCaller, [outerFrame]⟩ := by
  have hi : SysInv ⟨userMachine 0x910, []⟩ := ⟨⟨supervisorFilled 0, rfl⟩, rfl, rfl, by simp⟩
  have hentry : SysInv ⟨outerFrame.entry, [outerFrame]⟩ := (sysStep_inv _ _ hi outerTrap_nested).1
  have hdown : GuestStep outerFrame.entry innerCaller :=
    guestStep_cpu hentry.map (by decide +kernel) hentry.alive
  have hguest : Nested ⟨outerFrame.entry, [outerFrame]⟩ (.guest innerCaller) :=
    nested_guest (by decide +kernel) hdown
  exact ⟨hguest, (sysStep_inv _ _ hentry ⟨hguest, trivial⟩).1⟩

theorem innerTrap_nested :
    Nested ⟨innerCaller, [outerFrame]⟩ .trap ∧ UserTrap ⟨innerCaller, [outerFrame]⟩ .trap := by
  have hsame : SameSaved outerFrame.atTrap innerCaller := ⟨by decide +kernel, by decide +kernel⟩
  refine ⟨⟨by decide +kernel, by decide +kernel⟩, by decide +kernel, ?_⟩
  intro f hf
  rw [List.mem_singleton.mp hf]
  exact hsame

theorem innerReturn_nested : Nested ⟨innerFrame.entry, [innerFrame, outerFrame]⟩ .ret ∧
    SysInv ⟨innerReturned, [outerFrame]⟩ := by
  have hentry : SysInv ⟨innerFrame.entry, [innerFrame, outerFrame]⟩ :=
    (sysStep_inv _ _ innerCaller_nested.2 innerTrap_nested).1
  have hret : Nested ⟨innerFrame.entry, [innerFrame, outerFrame]⟩ .ret :=
    nested_ret innerTrap_nested.1.1 (balanced_refl _)
  exact ⟨hret, (sysStep_inv _ _ hentry ⟨hret, trivial⟩).1⟩

theorem outerReturn_nested : Nested ⟨innerReturned, [outerFrame]⟩ (.guest outerAgain) ∧
    Nested ⟨outerAgain, [outerFrame]⟩ .ret := by
  have hi := innerReturn_nested.2
  have hup : GuestStep innerReturned outerAgain := guestStep_cpu hi.map (by decide +kernel) hi.alive
  have hbalanced : Balanced outerFrame.entry outerAgain :=
    ⟨by decide +kernel, by decide +kernel, by decide +kernel, by decide +kernel⟩
  exact ⟨nested_guest (by decide +kernel) hup, nested_ret (by decide +kernel) hbalanced⟩

theorem nested_supexec_restores_call :
    let events := [.trap, .guest innerCaller, .trap, .ret, .guest outerAgain, .ret]
    Along sysStep (fun σ e => Nested σ e ∧ UserTrap σ e) ⟨userMachine 0x910, []⟩ events ∧
      Along sysStep Restores ⟨userMachine 0x910, []⟩ events := by
  intro events
  have hrun : Along sysStep (fun σ e => Nested σ e ∧ UserTrap σ e) ⟨userMachine 0x910, []⟩ events :=
    ⟨outerTrap_nested, ⟨innerCaller_nested.1, trivial⟩, innerTrap_nested, ⟨innerReturn_nested.1, trivial⟩,
      ⟨outerReturn_nested.1, trivial⟩, ⟨outerReturn_nested.2, trivial⟩, trivial⟩
  exact ⟨hrun, nested_supexec_restores _ rfl (supervisorFilled 0) rfl rfl rfl _ hrun⟩

end Nesting

theorem supexec_after_super_loses_mode :
    let events := [.guest (userMachine 0x910).enableSupervisorMode, .trap, .ret]
    Along sysStep Nested ⟨userMachine 0x910, []⟩ events ∧
      ¬ Along sysStep Restores ⟨userMachine 0x910, []⟩ events := by
  constructor
  · refine ⟨⟨rfl, rfl, rfl, ⟨supervisorFilled 0, rfl⟩, ?_, rfl⟩, ⟨?_, ?_⟩, ⟨?_, _, rfl, balanced_refl _⟩,
      trivial⟩
    · decide +kernel
    · decide +kernel
    · decide +kernel
    · decide +kernel
  · intro h
    have hmode := (h.2.2.1 _ rfl).mode
    revert hmode
    decide +kernel

end Tosemu
