import Tosemu.Interpreter
import Tosemu.UserIsolation

namespace Tosemu.M68k

open Cpu Programs

section Departures

inductive Departure
  | exception (pc vector : Long)
  | host (vector : Long)

def Departure.Allowed : Departure → Prop
  | exception _ vector => GuestVector vector
  | host vector => HostVector vector

def Departure.run (m68kTrap : Long → Machine → Machine) : Departure → Machine → Machine
  | exception pc vector => fun m => (M68k.exception pc vector m).2
  | host vector => m68kTrap vector

variable {m68kTrap : Long → Machine → Machine} {m : Machine} {α : Type}

theorem privileged_user {x y : Emu α} (hu : m.cpu.sFlag = false) :
    (do if (← core).sFlag then x else y : Emu α) m = y m := by
  rw [bind_apply, core_apply]
  dsimp only
  rw [hu, if_neg Bool.false_ne_true]

theorem leave_user {y : Emu α} (hy : Leave m68kTrap α y) :
    ∃ d : Departure, d.Allowed ∧ ∀ m, m.cpu.sFlag = false → (y m).2 = d.run m68kTrap m := by
  cases hy with
  | exception pc vector h => exact ⟨.exception pc vector, h, fun _ _ => rfl⟩
  | privileged pc x =>
    refine ⟨.exception pc EXCEPTION_PRIVILEGE_VIOLATION, Or.inl (by decide), fun m hu => ?_⟩
    rw [privileged_user hu]
    rfl
  | host vector h => exact ⟨.host vector, h, fun _ _ => rfl⟩

end Departures

section Confinement

structure Confined (m m' : Machine) : Prop where
  system : systemPart m'.cpu = systemPart m.cpu
  dreg : m'.dreg = m.dreg
  areg : m'.areg = m.areg
  crashed : m'.crashed = m.crashed
  flags : ∀ x, memFlags m'.memory x = memFlags m.memory x
  mapped : ∀ x, (memByte m'.memory x).isSome = (memByte m.memory x).isSome
  bytes : ∀ x, memFlags m.memory x &&& MEMORY_WRITE = 0 → memByte m'.memory x = memByte m.memory x

namespace Confined

variable {m m' m'' : Machine}

theorem refl (m : Machine) : Confined m m :=
  ⟨rfl, rfl, rfl, rfl, fun _ => rfl, fun _ => rfl, fun _ _ => rfl⟩

theorem trans (h : Confined m m') (h' : Confined m' m'') : Confined m m'' where
  system := h'.system.trans h.system
  dreg := h'.dreg.trans h.dreg
  areg := h'.areg.trans h.areg
  crashed := h'.crashed.trans h.crashed
  flags x := (h'.flags x).trans (h.flags x)
  mapped x := (h'.mapped x).trans (h.mapped x)
  bytes x hx := by
    rw [h'.bytes x (by rw [h.flags]; exact hx), h.bytes x hx]

theorem of_kept (h : Kept m m') : Confined m m' where
  system := by rw [h.sameMap.cpu]
  dreg := h.sameMap.dreg
  areg := h.sameMap.areg
  crashed := h.sameMap.crashed
  flags := h.sameMap.flags
  mapped := h.sameMap.mapped
  bytes := h.bytes

theorem sFlag (h : Confined m m') : m'.cpu.sFlag = m.cpu.sFlag :=
  congrArg (fun s => s.2.2.2.1) h.system

end Confined

variable {α : Type} {m : Machine}

theorem act_confined (x : Emu α) (hx : Act α x) (m : Machine) (hm : UserMap m) :
    UserMap (x m).2 ∧ Confined m (x m).2 := by
  cases hx with
  | view => exact ⟨hm, .refl m⟩
  | update g h =>
    have hc : Confined m (onCore g m).2 :=
      ⟨h.keeps m.cpu, rfl, rfl, rfl, fun _ => rfl, fun _ => rfl, fun _ _ => rfl⟩
    exact ⟨⟨hc.sFlag.trans hm.user, hm.sound⟩, hc⟩
  | read w address =>
    exact ⟨hm.accessStep (.read w (address68k address)),
      .of_kept (accessStep_kept hm (.read w (address68k address)))⟩
  | write w address value =>
    exact ⟨hm.accessStep (.write w (address68k address) value),
      .of_kept (accessStep_kept hm (.write w (address68k address) value))⟩

theorem program_confined {E : Family Machine} {x : Emu α} (hx : Program Act E x) (hm : UserMap m) :
    UserMap (x m).2 ∧ Confined m (x m).2 ∨
      ∃ y, E α y ∧ ∃ m₁, UserMap m₁ ∧ Confined m m₁ ∧ x m = y m₁ :=
  hx.run Confined.refl (fun _ _ _ h h' => h.trans h') act_confined hm

theorem acts_confined (x : Emu α) [hx : Acts x] (hm : UserMap m) : UserMap (x m).2 ∧ Confined m (x m).2 := by
  rcases program_confined hx.program hm with h | ⟨_, h, -⟩
  · exact h
  · exact h.elim

end Confinement

section Instruction

variable (m68kTrap : Long → Machine → Machine)

theorem perform_leaves (o : Insn) (h : OpcodeHandler) [hh : KnownHandler m68kTrap h] :
    ∃ x : Emu Unit, Leaves m68kTrap x ∧
      ∀ m, m.cpu.sFlag = false → h.perform m68kTrap o m = (false, (x m).2) := by
  have hk := hh.known
  cases h with
  | run f => exact ⟨f o, hk o, fun _ _ => rfl⟩
  | trap f => exact ⟨f o m68kTrap, hk o, fun _ _ => rfl⟩
  | stop f =>
    obtain ⟨pc, y, hy⟩ := hk o
    refine ⟨_, leaves_privileged pc (pure ()), fun m hu => ?_⟩
    rw [OpcodeHandler.perform, hy, privileged_user hu, privileged_user hu]
    rfl

theorem instruction_leaves (ppc : Long) : ∃ x : Emu Unit, Leaves m68kTrap x ∧
    ∀ m, UserMap m → m.cpu.pc = ppc → instruction m68kTrap m = (false, (x m).2) := by
  have hone : ∀ ir : Word, ∃ x : Emu Unit, Leaves m68kTrap x ∧ ∀ m, m.cpu.sFlag = false →
      (instructionJumpTable ir).perform m68kTrap ⟨ir, ppc⟩ m = (false, (x m).2) := fun ir =>
    have := jumpTable_known m68kTrap ir
    perform_leaves m68kTrap ⟨ir, ppc⟩ (instructionJumpTable ir)
  choose x hx hrun using hone
  refine ⟨do x ((← readImm16).setWidth 16), leaves_bind inferInstance fun ir => hx _, fun m hm hpc => ?_⟩
  have hfetch := (acts_confined readImm16 hm).1
  rw [instruction, hpc]
  exact hrun _ _ hfetch.user

end Instruction

section Runs

variable (m68kTrap : Long → Machine → Machine)

structure Inside (m : Machine) (p : Processor) : Prop where
  userMap : UserMap p.machine
  confined : Confined m p.machine
  running : p.stopped = false

def LeavesUserMode (m : Machine) (p : Processor) : Prop :=
  ∃ d : Departure, d.Allowed ∧ ∃ m₁, UserMap m₁ ∧ Confined m m₁ ∧
    m68kExecute m68kTrap p = ⟨d.run m68kTrap m₁, false⟩

theorem execute_inside {m : Machine} {p : Processor} (h : Inside m p) :
    Inside m (m68kExecute m68kTrap p) ∨ LeavesUserMode m68kTrap m p := by
  obtain ⟨x, hx, hrun⟩ := instruction_leaves m68kTrap p.machine.cpu.pc
  have hexec : m68kExecute m68kTrap p = ⟨(x p.machine).2, false⟩ := by
    rw [m68kExecute, h.running, if_neg Bool.false_ne_true, hrun _ h.userMap rfl]
  rw [LeavesUserMode, hexec]
  rcases program_confined hx.program h.userMap with ⟨hu, hc⟩ | ⟨y, hy, m₁, hu, hc, heq⟩
  · exact Or.inl ⟨hu, h.confined.trans hc, rfl⟩
  · obtain ⟨d, hd, hdrun⟩ := leave_user hy
    refine Or.inr ⟨d, hd, m₁, hu, h.confined.trans hc, ?_⟩
    rw [heq, hdrun m₁ hu.user]

section Program

/-- `MOVEQ #5,D0`, `MOVE.W D0,$2000.W`, `MOVE #$2700,SR`: the last is for the supervisor. -/
def storeThenSr : List Byte := [0x70, 0x05, 0x31, 0xc0, 0x20, 0x00, 0x46, 0xfc, 0x27, 0x00]

def programBuffers (fill : Byte) : TosBuffers :=
  { supervisorFilled fill with
    appmem := ⟨tosSize.toNat, fun i => storeThenSr.getD i 0⟩
    appmem_size := rfl }

def programStart (fill : Byte) : Machine :=
  { coldMachine (programBuffers fill) with cpu := { Cpu.coldCore with pc := 0x900, sp := fun _ => 0x700 } }

def afterMoveq (fill : Byte) : Machine := (opMoveq ⟨0x7005, 0x900⟩ (readImm16 (programStart fill)).2).2
def afterMove (fill : Byte) : Machine := (opMove .word ⟨0x31c0, 0x902⟩ .aw .d (readImm16 (afterMoveq fill)).2).2
def afterSr (fill : Byte) : Machine := (opMoveTos ⟨0x46fc, 0x906⟩ (.mode .i) (readImm16 (afterMove fill)).2).2

set_option maxRecDepth 100000 in
theorem program_handlers : instructionJumpTable 0x7005 = .run opMoveq ∧
    instructionJumpTable 0x31c0 = .run (opMove .word · .aw .d) ∧
    instructionJumpTable 0x46fc = .run (opMoveTos · (.mode .i)) :=
  ⟨jumpTable_single (i := 1242) (by decide +kernel) rfl, jumpTable_single (i := 1024) (by decide +kernel) rfl,
    jumpTable_single (i := 1205) (by decide +kernel) rfl⟩

theorem program_fetches : ∀ fill ∈ [(0 : Byte), 0xff],
    ((readImm16 (programStart fill)).1.setWidth 16 : Word) = 0x7005 ∧
    ((readImm16 (afterMoveq fill)).1.setWidth 16 : Word) = 0x31c0 ∧
    ((readImm16 (afterMove fill)).1.setWidth 16 : Word) = 0x46fc ∧
    (afterMoveq fill).cpu.pc = 0x902 ∧ (afterMove fill).cpu.pc = 0x906 := by
  decide +kernel

theorem program_runs {fill : Byte} (h : fill ∈ [(0 : Byte), 0xff]) :
    (m68kExecute m68kTrap)^[3] ⟨programStart fill, false⟩ = ⟨afterSr fill, false⟩ := by
  obtain ⟨hfirst, hsecond, hthird, hpc₂, hpc₃⟩ := program_fetches fill h
  obtain ⟨hmoveq, hmove, hsr⟩ := program_handlers
  have hstep₁ := execute_run m68kTrap hfirst hmoveq
  have hstep₂ := execute_run m68kTrap hsecond hmove
  have hstep₃ := execute_run m68kTrap hthird hsr
  rw [hpc₂] at hstep₂
  rw [hpc₃] at hstep₃
  exact (congrArg (m68kExecute m68kTrap)^[2] hstep₁).trans
    ((congrArg (m68kExecute m68kTrap) hstep₂).trans hstep₃)

theorem program_userMap (fill : Byte) : UserMap (programStart fill) :=
  registerAreas_userMap (programBuffers fill) rfl rfl

theorem program_leaves : ∀ fill ∈ [(0 : Byte), 0xff],
    memByte (afterMove fill).memory 0x2001 = some 5 ∧ (afterSr fill).cpu.sFlag = true := by
  decide +kernel

def silentTrap : Long → Machine → Machine := fun _ m => m

end Program

end Runs

section TwoRuns

structure Alike (m₁ m₂ : Machine) : Prop where
  left : UserMap m₁
  right : UserMap m₂
  cpu : withoutBanks m₂.cpu = withoutBanks m₁.cpu
  agree : Agree m₁ m₂
  running : m₂.keepongoing = m₁.keepongoing

theorem UserUpdate.withoutBanks {g : Core → Core} (h : UserUpdate g) (c : Core) :
    M68k.withoutBanks (g c) = M68k.withoutBanks (g (M68k.withoutBanks c)) := by
  have hb := h.blind (M68k.withoutBanks c) c.sp
  rw [show { M68k.withoutBanks c with sp := c.sp } = c from rfl] at hb
  rw [hb]
  rfl

variable {α : Type} {m₁ m₂ : Machine}

theorem Alike.accessStep (h : Alike m₁ m₂) (c : Access) :
    (accessStep m₁ c).1 = (accessStep m₂ c).1 ∧ Alike (accessStep m₁ c).2 (accessStep m₂ c).2 := by
  obtain ⟨hr, ha, ok, hk₁, hk₂⟩ := h.agree.accessStep h.left h.right c
  have hc₁ := (accessStep_kept h.left c).sameMap.cpu
  have hc₂ := (accessStep_kept h.right c).sameMap.cpu
  refine ⟨hr, h.left.accessStep c, h.right.accessStep c, ?_, ha, ?_⟩
  · rw [hc₁, hc₂, h.cpu]
  · rw [hk₁, hk₂, h.running]

theorem act_alike (x : Emu α) (hx : Act α x) (m₁ m₂ : Machine) (h : Alike m₁ m₂) :
    (x m₁).1 = (x m₂).1 ∧ Alike (x m₁).2 (x m₂).2 := by
  cases hx with
  | view => exact ⟨h.cpu.symm, h⟩
  | update g hg =>
    refine ⟨rfl, ?_, ?_, ?_, ⟨h.agree.flags, h.agree.mapped, h.agree.byte⟩, h.running⟩
    · exact (act_confined _ (.update g hg) m₁ h.left).1
    · exact (act_confined _ (.update g hg) m₂ h.right).1
    · change withoutBanks (g m₂.cpu) = withoutBanks (g m₁.cpu)
      rw [hg.withoutBanks, h.cpu, ← hg.withoutBanks]
  | read w address => exact h.accessStep (.read w (address68k address))
  | write w address value =>
    exact ⟨rfl, (h.accessStep (.write w (address68k address) value)).2⟩

variable (m68kTrap : Long → Machine → Machine)

structure InStep (p : Processor × Processor) : Prop where
  alike : Alike p.1.machine p.2.machine
  left : p.1.stopped = false
  right : p.2.stopped = false

def LeaveInStep (p : Processor × Processor) : Prop :=
  ∃ d : Departure, d.Allowed ∧ ∃ m₁ m₂, Alike m₁ m₂ ∧
    m68kExecute m68kTrap p.1 = ⟨d.run m68kTrap m₁, false⟩ ∧
    m68kExecute m68kTrap p.2 = ⟨d.run m68kTrap m₂, false⟩

theorem execute_inStep {p : Processor × Processor} (h : InStep p) :
    InStep (Prod.map (m68kExecute m68kTrap) (m68kExecute m68kTrap) p) ∨ LeaveInStep m68kTrap p := by
  obtain ⟨x, hx, hrun⟩ := instruction_leaves m68kTrap p.1.machine.cpu.pc
  have hpc : (withoutBanks p.2.machine.cpu).pc = (withoutBanks p.1.machine.cpu).pc :=
    congrArg Core.pc h.alike.cpu
  have hleft : m68kExecute m68kTrap p.1 = ⟨(x p.1.machine).2, false⟩ := by
    rw [m68kExecute, h.left, if_neg Bool.false_ne_true, hrun _ h.alike.left rfl]
  have hright : m68kExecute m68kTrap p.2 = ⟨(x p.2.machine).2, false⟩ := by
    rw [m68kExecute, h.right, if_neg Bool.false_ne_true, hrun _ h.alike.right hpc]
  rw [LeaveInStep, hleft, hright]
  rcases hx.program.related act_alike h.alike with ⟨-, ha⟩ | ⟨y, hy, m₁, m₂, ha, heq₁, heq₂⟩
  · refine Or.inl ⟨?_, ?_, ?_⟩
    · rw [Prod.map_fst, Prod.map_snd, hleft, hright]
      exact ha
    · rw [Prod.map_fst, hleft]
    · rw [Prod.map_snd, hright]
  · obtain ⟨d, hd, hdrun⟩ := leave_user hy
    refine Or.inr ⟨d, hd, m₁, m₂, ha, ?_, ?_⟩
    · rw [heq₁, hdrun m₁ ha.left.user]
    · rw [heq₂, hdrun m₂ ha.right.user]

end TwoRuns

end Tosemu.M68k
