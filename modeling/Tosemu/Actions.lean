import Tosemu.ProgramControl
import Tosemu.Programs
import Tosemu.Shifts

namespace Tosemu.M68k

open Cpu Programs

/-- What only the supervisor changes: the stack pointers that are put aside, and the system byte of
the status register. -/
def systemPart (c : Core) : (Bank → Long) × Bool × Bool × Bool × Bool × BitVec 3 :=
  (c.sp, c.t1Flag, c.t0Flag, c.sFlag, c.mFlag, c.intMask)

/-- The stack pointers that are put aside are not even looked at. -/
structure UserUpdate (g : Core → Core) : Prop where
  keeps : ∀ c, systemPart (g c) = systemPart c
  blind : ∀ c sp, g { c with sp := sp } = { g c with sp := sp }

def withoutBanks (c : Core) : Core := { c with sp := fun _ => 0 }

def view : Emu Core := fun m => (withoutBanks m.cpu, m)

inductive Act : Family Machine
  | view : Act Core view
  | update (g : Core → Core) (h : UserUpdate g) : Act Unit (onCore g)
  | read (w : Width) (address : Long) : Act Long (m68kiRead w address)
  | write (w : Width) (address value : Long) : Act Unit (m68kiWrite w address value)

def HostVector (vector : Long) : Prop := vector = 33 ∨ vector = 34 ∨ vector = 45 ∨ vector = 46

def GuestVector (vector : Long) : Prop :=
  vector.toNat ∈ [4, 5, 6, 7, 8, 10, 11] ∨ 32 ≤ vector.toNat ∧ vector.toNat < 48

inductive Leave (m68kTrap : Long → Machine → Machine) : Family Machine
  | exception (pc vector : Long) (h : GuestVector vector) : Leave m68kTrap Unit (exception pc vector)
  | privileged (pc : Long) (x : Emu Unit) : Leave m68kTrap Unit (do
    if (← core).sFlag then x else exception pc EXCEPTION_PRIVILEGE_VIOLATION)
  | host (vector : Long) (h : HostVector vector) : Leave m68kTrap Unit fun m => ((), m68kTrap vector m)

class Acts {α : Type} (x : Emu α) : Prop where
  program : Program Act (noExit Machine) x

class Leaves (m68kTrap : Long → Machine → Machine) {α : Type} (x : Emu α) : Prop where
  program : Program Act (Leave m68kTrap) x

section Rules

variable {α β : Type} {m68kTrap : Long → Machine → Machine}

instance (a : α) : Acts (pure a) := ⟨.pure a⟩

instance (x : Emu β) (f : β → Emu α) [hx : Acts x] [hf : ∀ b, Acts (f b)] : Acts (x >>= f) :=
  ⟨hx.program.bind fun b => (hf b).program⟩

instance (p : Prop) [Decidable p] (x y : Emu α) [hx : Acts x] [hy : Acts y] : Acts (if p then x else y) := by
  split
  · exact hx
  · exact hy

instance (p : Prop) [Decidable p] (x : p → Emu α) (y : ¬ p → Emu α) [hx : ∀ h, Acts (x h)]
    [hy : ∀ h, Acts (y h)] : Acts (if h : p then x h else y h) := by
  split
  · exact hx _
  · exact hy _

instance (priority := low) (x : Emu α) [hx : Acts x] : Leaves m68kTrap x := ⟨hx.program.lift⟩

instance (x : Emu β) (f : β → Emu α) [hx : Acts x] [hf : ∀ b, Leaves m68kTrap (f b)] :
    Leaves m68kTrap (x >>= f) := ⟨hx.program.bind fun b => (hf b).program⟩

instance (p : Prop) [Decidable p] (x y : Emu α) [hx : Leaves m68kTrap x] [hy : Leaves m68kTrap y] :
    Leaves m68kTrap (if p then x else y) := by
  split
  · exact hx
  · exact hy

theorem acts_bind {x : Emu β} {f : β → Emu α} (hx : Acts x) (hf : ∀ b, Acts (f b)) : Acts (x >>= f) :=
  inferInstance

theorem leaves_bind {x : Emu β} {f : β → Emu α} (hx : Acts x) (hf : ∀ b, Leaves m68kTrap (f b)) :
    Leaves m68kTrap (x >>= f) := inferInstance

theorem acts_update {g : Core → Core} (hk : ∀ c, systemPart (g c) = systemPart c)
    (hb : ∀ c sp, g { c with sp := sp } = { g c with sp := sp }) : Acts (onCore g) :=
  ⟨.prim (.update g ⟨hk, hb⟩)⟩

theorem acts_update_then {g : Core → Core} {f : Unit → Emu α} (hk : ∀ c, systemPart (g c) = systemPart c)
    (hb : ∀ c sp, g { c with sp := sp } = { g c with sp := sp }) [hf : ∀ b, Acts (f b)] :
    Acts (onCore g >>= f) :=
  ⟨.step (.update g ⟨hk, hb⟩) fun b => (hf b).program⟩

theorem core_bind_eq {f : Core → Emu α} (hb : ∀ c, f (withoutBanks c) = f c) : core >>= f = view >>= f := by
  funext m
  exact congrFun (hb m.cpu).symm m

theorem acts_core {f : Core → Emu α} (hb : ∀ c, f (withoutBanks c) = f c) (hf : ∀ c, Acts (f c)) :
    Acts (core >>= f) := by
  rw [core_bind_eq hb]
  exact ⟨.step .view fun c => (hf c).program⟩

theorem leaves_core {f : Core → Emu α} (hb : ∀ c, f (withoutBanks c) = f c) (hf : ∀ c, Leaves m68kTrap (f c)) :
    Leaves m68kTrap (core >>= f) := by
  rw [core_bind_eq hb]
  exact ⟨.step .view fun c => (hf c).program⟩

end Rules

section Primitives

instance (i : Fin 8) : Acts (regD i) := acts_core (fun _ => rfl) fun _ => inferInstance

instance (i : Fin 8) : Acts (regA i) := acts_core (fun _ => rfl) fun _ => inferInstance

instance : Acts regPc := acts_core (fun _ => rfl) fun _ => inferInstance

instance (i : Fin 8) (v : Long) : Acts (setRegD i v) := acts_update (fun _ => rfl) fun _ _ => rfl

instance (i : Fin 8) (v : Long) : Acts (setRegA i v) := acts_update (fun _ => rfl) fun _ _ => rfl

instance (v : Long) : Acts (setPc v) := acts_update (fun _ => rfl) fun _ _ => rfl

instance (w : Width) (a : Long) : Acts (m68kiRead w a) := ⟨.prim (.read w a)⟩

instance (w : Width) (a v : Long) : Acts (m68kiWrite w a v) := ⟨.prim (.write w a v)⟩

instance (w : Width) (i : Fin 8) (v : Long) : Acts (putD w i v) := by
  unfold putD
  infer_instance

instance (i : Fin 16) : Acts (regDa i) := by
  unfold regDa
  infer_instance

instance (i : Fin 16) (v : Long) : Acts (setRegDa i v) := by
  unfold setRegDa
  infer_instance

instance : Acts readImm16 :=
  inferInstanceAs (Acts (do
    let pc ← regPc
    setPc (pc + 2)
    m68kiRead .word pc))

instance : Acts readImm32 := by
  unfold readImm32
  infer_instance

instance (w : Width) : Acts (operI w) := by
  cases w <;> (unfold operI; infer_instance)

instance (an : Long) : Acts (getEaIx an) := by
  unfold getEaIx
  infer_instance

instance (w : Width) (r : Fin 8) (ea : Ea) : Acts (getEa w r ea) := by
  cases ea <;> (unfold getEa; infer_instance)

instance (w : Width) (r : Fin 8) (ea : Ea) : Acts (operEa w r ea) := by
  cases ea <;> (unfold operEa; infer_instance)

instance (w : Width) (o : Insn) (s : Src) : Acts (operand w o s) := by
  cases s <;> (unfold operand; infer_instance)

instance (v : Long) : Acts (push32 v) := by
  unfold push32
  infer_instance

instance : Acts pull16 := by
  unfold pull16
  infer_instance

instance : Acts pull32 := by
  unfold pull32
  infer_instance

instance (v : Long) : Acts (branch8 v) := by
  unfold branch8
  infer_instance

instance (v : Long) : Acts (branch16 v) := by
  unfold branch16
  infer_instance

end Primitives

end Tosemu.M68k
