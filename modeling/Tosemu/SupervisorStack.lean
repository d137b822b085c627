import Tosemu.MainStart
import Tosemu.SuperCall
import Tosemu.SupexecRuns

namespace Tosemu

open Cpu Runs

inductive StackEvent
  | guest (m : Machine)
  | super
  | supexec
  | ret

section Step

variable (other : String → Machine → Long × Machine) (beyond : GemdosFunction)

def stackStep (σ : Sys) : StackEvent → Unit × Sys
  | .guest m => ((), ⟨m, σ.pending⟩)
  | .super => ((), ⟨gemdosTrap other beyond σ.machine, σ.pending⟩)
  | .supexec => sysStep σ .trap
  | .ret => sysStep σ .ret

end Step

def supexecPushes (m : Machine) : List Long :=
  let t := supexecStart m
  [t.cpu.a 7 - 4, (pushU32 t.cpu.pc t).cpu.a 7 - 4]

def InSuperram (x : Long) : Prop := 0x600 ≤ x.toNat ∧ x.toNat < 0x800

def InStaticmem1 (x : Long) : Prop := 0x380 ≤ x.toNat ∧ x.toNat < 0x600

instance (x : Long) : Decidable (InSuperram x) := inferInstanceAs (Decidable (_ ∧ _))

/-- What tosemu itself does in the step stays in the memory made for the supervisor stack. -/
def Contains (other : String → Machine → Long × Machine) (beyond : GemdosFunction) (σ : Sys) :
    StackEvent → Prop
  | .guest _ => True
  | .supexec => (∀ a ∈ supexecPushes σ.machine, ∀ k < 4, InSuperram (a + BitVec.ofNat 32 k)) ∧
      ∀ x, InStaticmem1 x → memByte (supexecTrap σ.machine).memory x = memByte σ.machine.memory x
  | e => ∀ x, InStaticmem1 x →
      memByte (stackStep other beyond σ e).2.machine.memory x = memByte σ.machine.memory x

def supervisorSp (m : Machine) : ℕ := (m.getReg .isp).toNat

def stackTop : List Frame → ℕ
  | [] => 0x600
  | f :: _ => (f.entry.cpu.a 7).toNat

/-- The program goes on, and its supervisor code keeps the stack pointer at or below the one it was entered
with, which it has again at its `RTS`. -/
def KeepsStack (σ : Sys) : StackEvent → Prop
  | .guest m => σ.machine.keepongoing = true ∧ (∃ b, m.memory = registerAreas b) ∧
      m.cpu.mFlag = false ∧ m.crashed = false ∧ supervisorSp m ≤ stackTop σ.pending
  | .super => σ.machine.keepongoing = true ∧ (peekU16 0 σ.machine).1 = 0x20 ∧
      (σ.machine.cpu.sFlag = true → ∀ k < 6, σ.machine.cpu.a 7 + BitVec.ofNat 32 k ≠ 0x201)
  | .supexec => σ.machine.keepongoing = true ∧
      (σ.machine.cpu.sFlag = true → OffMagic (σ.machine.cpu.a 7 + 2))
  | .ret => σ.machine.keepongoing = true ∧ σ.machine.cpu.sFlag = true ∧ (rts σ.machine).cpu.pc = 0x200 ∧
      ∃ f ∈ σ.pending.head?, σ.machine.cpu.a 7 = f.entry.cpu.a 7

section Core

variable {c : Core}

theorem enable_a7 (hm : c.mFlag = false) : (enableSupervisorMode c).a 7 = m68kGetReg .isp c := by
  cases hs : c.sFlag <;> simp [enableSupervisorMode, m68kSetReg, m68kGetReg, hs, hm, bank]

theorem superCore_isp (hm : c.mFlag = false) (lv0 : Long) :
    m68kGetReg .isp (superCore lv0 c) = m68kGetReg .isp c ∧ (superCore lv0 c).mFlag = false := by
  unfold superCore
  cases hs : c.sFlag <;> split_ifs <;>
    simp [enableSupervisorMode, disableSupervisorMode, m68kSetReg, m68kGetReg, hs, hm, bank]

end Core

section Trap

variable {b : TosBuffers} {m : Machine}

theorem readLoop_alive (hm : m.memory = registerAreas b) {n : ℕ} {a : Long}
    (hoff : m.cpu.sFlag = true → ∀ k < n, a + BitVec.ofNat 32 k ≠ 0x201) :
    SameState m (readLoop tosRead n a 0 m).2 ∧ (readLoop tosRead n a 0 m).2.crashed = m.crashed := by
  cases hs : m.cpu.sFlag with
  | false =>
    rw [readLoop_plain _ _ _ _ (fun i _ => (registerAreas_userMap b hm hs).plain _)]
    exact ⟨⟨rfl, rfl, rfl, rfl⟩, rfl⟩
  | true =>
    have hoff := hoff hs
    refine ⟨readLoop_quiet hoff, ?_⟩
    rw [readLoop_congr (fun k hk m => tosRead_off (hoff k hk) m), readLoop_crashed hm hs,
      decide_eq_false (fun ⟨k, hk, he⟩ => hoff k hk he), Bool.or_false]

theorem pushU32_cpu (value : Long) (m : Machine) :
    (pushU32 value m).cpu = m68kSetReg (.a 7) (m.cpu.a 7 - 4) m.cpu :=
  congrArg (m68kSetReg (.a 7) (m.cpu.a 7 - 4)) (writeLoop_sameMap 4 (m.cpu.a 7 - 4) value m).cpu

theorem pushU32_a7 (value : Long) (m : Machine) : (pushU32 value m).cpu.a 7 = m.cpu.a 7 - 4 := by
  rw [pushU32_cpu]
  simp [m68kSetReg]

theorem pushU32_sFlag (value : Long) (m : Machine) : (pushU32 value m).cpu.sFlag = m.cpu.sFlag := by
  rw [pushU32_cpu]
  rfl

theorem pushU32_mFlag (value : Long) (m : Machine) : (pushU32 value m).cpu.mFlag = m.cpu.mFlag := by
  rw [pushU32_cpu]
  rfl

theorem setReg_jump (pc : Long) (m : Machine) :
    ((m.setReg .pc pc).setReg (.d 0) 0).cpu.sFlag = m.cpu.sFlag ∧
      ((m.setReg .pc pc).setReg (.d 0) 0).cpu.mFlag = m.cpu.mFlag ∧
      ((m.setReg .pc pc).setReg (.d 0) 0).cpu.a = m.cpu.a := ⟨rfl, rfl, rfl⟩

theorem supexecStart_a7 (hm : m.memory = registerAreas b) (hmaster : m.cpu.mFlag = false)
    (hoff : m.cpu.sFlag = true → OffMagic (m.cpu.a 7 + 2)) :
    (supexecStart m).cpu.a 7 = m.getReg .isp := by
  obtain ⟨hs, -⟩ := readLoop_alive hm hoff
  refine (enable_a7 (hs.cpu ▸ hmaster)).trans ?_
  exact congrArg (m68kGetReg .isp) hs.cpu

theorem supexecPushes_eq (hm : m.memory = registerAreas b) (hmaster : m.cpu.mFlag = false)
    (hoff : m.cpu.sFlag = true → OffMagic (m.cpu.a 7 + 2)) :
    supexecPushes m = [m.getReg .isp - 4, m.getReg .isp - 8] := by
  have h8 : m.getReg .isp - 4 - 4 = m.getReg .isp - 8 := BitVec.sub_sub _ _ _
  rw [supexecPushes, pushU32_a7, supexecStart_a7 hm hmaster hoff, h8]

theorem pushed_outside {sp : Long} (h : sp.toNat ≤ 0x600) : ¬ InSuperram (sp - 4 + BitVec.ofNat 32 0) := by
  have h4 : (4 : Long).toNat = 4 := rfl
  have h0 : (BitVec.ofNat 32 0).toNat = 0 := rfl
  rintro ⟨hlo, hhi⟩
  rw [BitVec.toNat_add, BitVec.toNat_sub, h4, h0] at hlo hhi
  omega

structure TrapDone (m t : Machine) : Prop where
  map : ∃ b, t.memory = registerAreas b
  supervisor : t.cpu.sFlag = true
  master : t.cpu.mFlag = false
  alive : t.crashed = m.crashed
  sp : (t.cpu.a 7).toNat + 8 = supervisorSp m
  call : OffMagic (address68k (t.cpu.a 7))
  back : OffMagic (t.cpu.a 7 + 4)

theorem supexecTrap_cpu (hm : m.memory = registerAreas b) (hmaster : m.cpu.mFlag = false)
    (hoff : m.cpu.sFlag = true → OffMagic (m.cpu.a 7 + 2)) :
    (supexecTrap m).cpu.sFlag = true ∧ (supexecTrap m).cpu.mFlag = false ∧
      (supexecTrap m).cpu.a 7 = m.getReg .isp - 4 - 4 := by
  obtain ⟨hsf, hmf, ha⟩ := setReg_jump (peekU32 2 m).1
    (pushU32 0x200 (pushU32 (supexecStart m).cpu.pc (supexecStart m)))
  rw [← supexecTrap_eq] at hsf hmf ha
  rw [pushU32_sFlag, pushU32_sFlag] at hsf
  rw [pushU32_mFlag, pushU32_mFlag] at hmf
  refine ⟨hsf.trans ?_, hmf.trans ?_, ?_⟩
  · exact (setSr_sFlag _ _).trans (enable_bit _)
  · exact setSr_mFlag _ _
  · rw [ha, pushU32_a7, pushU32_a7, supexecStart_a7 hm hmaster hoff]

theorem supexecTrap_writes (hm : m.memory = registerAreas b) (hmaster : m.cpu.mFlag = false)
    (hoff : m.cpu.sFlag = true → OffMagic (m.cpu.a 7 + 2)) (hk : (supexecTrap m).keepongoing = true) :
    (∃ b', (supexecTrap m).memory = registerAreas b') ∧
      (∃ b', ∀ k < 4, (memByte (registerAreas b') (m.getReg .isp - 4 + BitVec.ofNat 32 k)).isSome) ∧
      ∃ b', ∀ k < 4, (memByte (registerAreas b') (m.getReg .isp - 4 - 4 + BitVec.ofNat 32 k)).isSome := by
  have ha7 := supexecStart_a7 hm hmaster hoff
  have hstart : (supexecStart m).memory = registerAreas b := (readLoop_alive hm hoff).1.memory.trans hm
  obtain ⟨b₁, hb₁⟩ := pushU32_memory hstart (supexecStart m).cpu.pc
  obtain ⟨b₂, hb₂⟩ := pushU32_memory hb₁ 0x200
  rw [supexecTrap_eq, setReg_keepongoing, setReg_keepongoing] at hk
  obtain ⟨hk₁, hw₂⟩ := pushU32_keepongoing hk
  obtain ⟨-, hw₁⟩ := pushU32_keepongoing hk₁
  rw [pushU32_a7, ha7] at hw₂
  rw [ha7] at hw₁
  refine ⟨⟨b₂, ?_⟩, ⟨b, fun k hk => ?_⟩, b₁, fun k hk => ?_⟩
  · rw [supexecTrap_eq, setReg_memory, setReg_memory, hb₂]
  · exact hstart ▸ (hw₁ k hk).1
  · exact hb₁ ▸ (hw₂ k hk).1

theorem supexecTrap_done (hm : m.memory = registerAreas b) (hmaster : m.cpu.mFlag = false)
    (hoff : m.cpu.sFlag = true → OffMagic (m.cpu.a 7 + 2)) (hk : (supexecTrap m).keepongoing = true) :
    TrapDone m (supexecTrap m) := by
  obtain ⟨hsf, hmf, hsp⟩ := supexecTrap_cpu hm hmaster hoff
  obtain ⟨hmap, ⟨b₁, hmap₁⟩, b₂, hmap₂⟩ := supexecTrap_writes hm hmaster hoff hk
  have h0 := hmap₂ 0 (by omega)
  rw [BitVec.add_zero] at h0
  refine ⟨hmap, hsf, hmf, ?_, ?_, ?_, ?_⟩
  · rw [supexecTrap_eq, setReg_crashed, setReg_crashed, pushU32_crashed, pushU32_crashed]
    exact (readLoop_alive hm hoff).2
  · have hlt₁ := (mapped_bounds (hmap₁ 0 (by omega))).1
    have hlt₂ := (mapped_bounds h0).1
    have h4 : (4 : Long).toNat = 4 := rfl
    rw [hsp, supervisorSp]
    rw [BitVec.add_zero] at hlt₁
    simp only [BitVec.toNat_sub, h4] at hlt₁ hlt₂ ⊢
    omega
  · rw [hsp, address68k_of_mapped h0]
    exact offMagic_of_mapped hmap₂
  · rw [hsp, BitVec.sub_add_cancel]
    exact offMagic_of_mapped hmap₁

structure StackKept (m t : Machine) (sp : Long) : Prop where
  memory : t.memory = m.memory
  master : t.cpu.mFlag = false
  alive : t.crashed = false
  sp : t.getReg .isp = sp

theorem gemdosSuper_crashed (m : Machine) :
    ((gemdosSuper m).2.setReg (.d 0) (gemdosSuper m).1).crashed = (peekU32 2 m).2.crashed := by
  unfold gemdosSuper
  simp only
  split_ifs <;> rfl

theorem superTrap_kept (other : String → Machine → Long × Machine) (beyond : GemdosFunction)
    (hm : m.memory = registerAreas b) (hmaster : m.cpu.mFlag = false) (halive : m.crashed = false)
    (hid : (peekU16 0 m).1 = 0x20)
    (hoff : m.cpu.sFlag = true → ∀ k < 6, m.cpu.a 7 + BitVec.ofNat 32 k ≠ 0x201) :
    StackKept m (gemdosTrap other beyond m) (m.getReg .isp) := by
  have hzero : m.cpu.a 7 + 0 = m.cpu.a 7 := BitVec.add_zero _
  obtain ⟨hword, hwcrash⟩ := readLoop_alive (n := 2) (a := m.cpu.a 7 + 0) hm (fun hs k hk => by
    rw [hzero]
    exact hoff hs k (by omega))
  obtain ⟨hlong, hlcrash⟩ := readLoop_alive (m := (peekU16 0 m).2) (n := 4) (a := (peekU16 0 m).2.cpu.a 7 + 2)
    (hword.memory.trans hm) (fun hs k hk => by
      have hadd := hoff (hword.cpu ▸ hs) (2 + k) (by omega)
      rw [BitVec.ofNat_add, ← BitVec.add_assoc] at hadd
      exact hword.cpu ▸ hadd)
  have hsame : SameState m (afterArgs m) := hword.trans hlong
  obtain ⟨hcpu, hmem⟩ := gemdosTrap_superCore other beyond ⟨hid, rfl⟩ hsame
  obtain ⟨hisp, hmf⟩ := superCore_isp hmaster (peekU32 2 (peekU16 0 m).2).1
  refine ⟨hmem, hcpu ▸ hmf, ?_, ?_⟩
  · rw [gemdosTrap_super other beyond hid, gemdosSuper_crashed]
    exact hlcrash.trans (hwcrash.trans halive)
  · rw [Machine.getReg, hcpu]
    exact hisp

theorem entered_self (hs : m.cpu.sFlag = true) (hmaster : m.cpu.mFlag = false) :
    Entered (supexecReturn 0 m) (m.cpu.a 7) m := by
  refine ⟨hs, hmaster, rfl, (supexecReturn_stacks 0 m hs hmaster).1.symm, ?_, ?_⟩
  · funext i
    exact (supexecReturn_d 0 m i).symm
  · funext i
    exact (supexecReturn_a 0 m i).symm

theorem ret_kept (hm : m.memory = registerAreas b) (hmaster : m.cpu.mFlag = false)
    (halive : m.crashed = false) (hs : m.cpu.sFlag = true) (hfetch : (rts m).cpu.pc = 0x200)
    (hcall : OffMagic (address68k (m.cpu.a 7))) (hback : OffMagic (m.cpu.a 7 + 4)) :
    StackKept m (m68kiReadImm16 (rts m)).2 (m.cpu.a 7 + 8) := by
  obtain ⟨value, q, hf, hq, hmem, hcrash, -⟩ := rts_fetch (entered_self hs hmaster) hm halive hcall hfetch
  have hsp : m.cpu.a 7 + 4 + 4 = m.cpu.a 7 + 8 := BitVec.add_assoc _ _ _
  rw [hf]
  refine ⟨(supexecReturn_memory value q).trans (hmem.trans hm.symm), supexecReturn_mFlag value q,
    hcrash.mpr hback, ?_⟩
  rw [← hsp, ← hq.ssp, ← (supexecReturn_stacks value q hq.supervisor hq.master).2, Machine.getReg,
    m68kGetReg, supexecReturn_sFlag]
  rfl

end Trap

structure FrameBelow (f : Frame) (top : ℕ) : Prop where
  below : (f.entry.cpu.a 7).toNat + 8 ≤ top
  call : OffMagic (address68k (f.entry.cpu.a 7))
  back : OffMagic (f.entry.cpu.a 7 + 4)

def FramesBelow : List Frame → Prop
  | [] => True
  | f :: rest => FrameBelow f (stackTop rest) ∧ FramesBelow rest

theorem stackTop_le {pending : List Frame} (h : FramesBelow pending) : stackTop pending ≤ 0x600 := by
  induction pending with
  | nil => exact le_rfl
  | cons f rest ih =>
    have hf := h.1.below
    have hrest := ih h.2
    rw [stackTop]
    omega

structure StackInv (σ : Sys) : Prop where
  map : ∃ b, σ.machine.memory = registerAreas b
  master : σ.machine.cpu.mFlag = false
  alive : σ.machine.crashed = false
  below : supervisorSp σ.machine ≤ stackTop σ.pending
  frames : FramesBelow σ.pending

section Run

variable {other : String → Machine → Long × Machine} {beyond : GemdosFunction} {σ : Sys}

theorem StackInv.kept {t : Machine} {sp : Long} {pending : List Frame} (h : StackInv σ)
    (ht : StackKept σ.machine t sp) (hsp : sp.toNat ≤ stackTop pending) (hp : FramesBelow pending) :
    StackInv ⟨t, pending⟩ := by
  obtain ⟨b, hb⟩ := h.map
  refine ⟨⟨b, ht.memory.trans hb⟩, ht.master, ht.alive, ?_, hp⟩
  rw [supervisorSp, ht.sp]
  exact hsp

theorem StackInv.ret (h : StackInv σ) (hk : KeepsStack σ .ret) :
    StackInv (sysStep σ .ret).2 ∧ (sysStep σ .ret).2.machine.memory = σ.machine.memory := by
  obtain ⟨machine, pending⟩ := σ
  obtain ⟨-, hs, hfetch, f, hhead, hsp⟩ := hk
  obtain ⟨b, hb⟩ := h.map
  cases pending with
  | nil => simp at hhead
  | cons g rest =>
    obtain rfl : g = f := by simpa using hhead
    obtain ⟨hg, hrest⟩ := h.frames
    have hcall := hg.call
    have hback := hg.back
    have hbelow := hg.below
    rw [← hsp] at hcall hback hbelow
    have hkept := ret_kept hb h.master h.alive hs hfetch hcall hback
    have h8 : (8 : Long).toNat = 8 := rfl
    refine ⟨h.kept hkept ?_ hrest, hkept.memory⟩
    rw [BitVec.toNat_add, h8]
    exact (Nat.mod_le _ _).trans hbelow

theorem StackInv.step (e : StackEvent) (h : StackInv σ) (hk : KeepsStack σ e)
    (hgoes : (stackStep other beyond σ e).2.machine.keepongoing = true) :
    StackInv (stackStep other beyond σ e).2 := by
  obtain ⟨b, hb⟩ := h.map
  cases e with
  | guest m =>
    obtain ⟨-, hmap, hmaster, halive, hbelow⟩ := hk
    exact ⟨hmap, hmaster, halive, hbelow, h.frames⟩
  | super =>
    have hkept := superTrap_kept other beyond hb h.master h.alive hk.2.1 hk.2.2
    exact h.kept hkept h.below h.frames
  | supexec =>
    have ht := supexecTrap_done hb h.master hk.2 hgoes
    have hisp : supervisorSp (supexecTrap σ.machine) = ((supexecTrap σ.machine).cpu.a 7).toNat := by
      simp [supervisorSp, Machine.getReg, m68kGetReg, ht.supervisor, ht.master]
    refine ⟨ht.map, ht.master, ht.alive.trans h.alive, hisp.le, ⟨?_, ht.call, ht.back⟩, h.frames⟩
    exact ht.sp.le.trans h.below
  | ret => exact (h.ret hk).1

theorem StackInv.contains_iff (e : StackEvent) (h : StackInv σ) (hk : KeepsStack σ e) :
    Contains other beyond σ e ↔ e ≠ .supexec := by
  obtain ⟨b, hb⟩ := h.map
  cases e with
  | guest m => exact iff_of_true trivial (by simp)
  | super =>
    have hkept := superTrap_kept other beyond hb h.master h.alive hk.2.1 hk.2.2
    refine iff_of_true (fun x _ => ?_) (by simp)
    exact congrArg (fun memory => memByte memory x) hkept.memory
  | supexec =>
    refine iff_of_false (fun hc => ?_) (by simp)
    have hin := hc.1 _ (by rw [supexecPushes_eq hb h.master hk.2]; exact List.mem_cons_self) 0 (by omega)
    exact pushed_outside (h.below.trans (stackTop_le h.frames)) hin
  | ret =>
    refine iff_of_true (fun x _ => ?_) (by simp)
    exact congrArg (fun memory => memByte memory x) (h.ret hk).2

theorem Started.stackInv {m : Machine} (h : Started m) : StackInv ⟨m, []⟩ := by
  refine ⟨h.map, h.master, h.alive, ?_, trivial⟩
  simp [supervisorSp, Machine.getReg, m68kGetReg, h.user, h.isp, stackTop]

theorem supervisor_frames_contained_iff (other : String → Machine → Long × Machine)
    (beyond : GemdosFunction) (host : Endian) (heap : Heap) (binary : List Byte) (argv : List (List Byte))
    (tosBasePath : Option (List Byte)) (te : TosEnvironment) (m : Machine)
    (hload : initTosEnvironment host heap binary argv tosBasePath = .ok (te, m))
    (events : List StackEvent)
    (h : Along (stackStep other beyond) KeepsStack ⟨startCpu te m, []⟩ events) :
    Along (stackStep other beyond) (fun σ e => Contains other beyond σ e ↔ e ≠ .supexec)
      ⟨startCpu te m, []⟩ events := by
  have hgoes : ∀ σ e, KeepsStack σ e → σ.machine.keepongoing = true := by
    intro σ e hk
    cases e <;> exact hk.1
  have hinv : ∀ σ e, (σ.machine.keepongoing = true → StackInv σ) → KeepsStack σ e →
      ((stackStep other beyond σ e).2.machine.keepongoing = true → StackInv (stackStep other beyond σ e).2) :=
    fun σ e hi hk hgo => (hi (hgoes σ e hk)).step e hk hgo
  exact along_mono hinv (fun σ e hi hk => (hi (hgoes σ e hk)).contains_iff e hk)
    (fun _ => (startCpu_started hload).stackInv) h

def startedMachine : Machine :=
  startCpu (fileEnvironment .little absoluteBinary none)
    { mappedFile .little emptyHeap absoluteBinary [] none with keepongoing := true }

theorem supervisor_frames_contained_call :
    ¬ Contains (fun _ m => (0, m)) ⟨"", none, 0⟩ ⟨startedMachine, []⟩ .supexec := by
  have hruns : Along (stackStep (fun _ m => (0, m)) ⟨"", none, 0⟩) KeepsStack ⟨startedMachine, []⟩
      [.supexec] := ⟨⟨by decide +kernel, fun hs => absurd hs (by decide +kernel)⟩, trivial⟩
  exact fun hc => ((supervisor_frames_contained_iff (fun _ m => (0, m)) ⟨"", none, 0⟩ .little emptyHeap
    absoluteBinary [] none _ _ rfl [.supexec] hruns).1.mp hc) rfl

theorem supervisor_frame_in_staticmem1 :
    Along (stackStep (fun _ m => (0, m)) ⟨"", none, 0⟩) KeepsStack ⟨startedMachine, []⟩ [.supexec] ∧
      supexecPushes startedMachine = [0x5fc, 0x5f8] ∧
      memByte (supexecTrap startedMachine).memory 0x5fe ≠ memByte startedMachine.memory 0x5fe := by
  refine ⟨⟨⟨by decide +kernel, fun hs => absurd hs (by decide +kernel)⟩, trivial⟩, ?_, ?_⟩
  · decide +kernel
  · decide +kernel

end Run

end Tosemu
