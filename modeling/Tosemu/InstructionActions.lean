import Tosemu.Actions
import Tosemu.JumpTable

namespace Tosemu.M68k

open Cpu Programs

section Sums

variable (w : Width) (src dst raw : Long)

instance : Acts (add w src dst) := acts_update_then (fun _ => rfl) fun _ _ => rfl

instance : Acts (sub w src dst) := acts_update_then (fun _ => rfl) fun _ _ => rfl

instance : Acts (cmp w src dst) := by
  unfold cmp
  exact acts_update (fun _ => rfl) fun _ _ => rfl

instance : Acts (addx w src dst) :=
  acts_core (fun _ => rfl) fun _ => acts_update_then (fun _ => rfl) fun _ _ => rfl

instance : Acts (subx w src dst) :=
  acts_core (fun _ => rfl) fun _ => acts_update_then (fun _ => rfl) fun _ _ => rfl

instance : Acts (neg w raw) := acts_update_then (fun _ => rfl) fun _ _ => rfl

instance : Acts (negx w raw) :=
  acts_core (fun _ => rfl) fun _ => acts_update_then (fun _ => rfl) fun _ _ => rfl

instance : Acts (abcd src dst) :=
  acts_core (fun _ => rfl) fun _ => acts_update_then (fun _ => rfl) fun _ _ => rfl

instance : Acts (sbcd src dst) :=
  acts_core (fun _ => rfl) fun _ => acts_update_then (fun _ => rfl) fun _ _ => rfl

instance (res : Long) : Acts (onCore (flagsLogic w res)) := acts_update (fun _ => rfl) fun _ _ => rfl

instance : Acts (not w raw) := by
  unfold not
  infer_instance

end Sums

section Places

variable (w : Width) (op : Long → Long → Emu Long) (o : Insn)

instance (s : Src) [∀ a b, Acts (op a b)] : Acts (binaryEr w op o s) := by
  unfold binaryEr
  infer_instance

instance (ea : Ea) [∀ a b, Acts (op a b)] : Acts (binaryRe w op o ea) := by
  unfold binaryRe
  infer_instance

instance (src : Emu Long) [Acts src] [∀ a b, Acts (op a b)] : Acts (binaryD w op o src) := by
  unfold binaryD
  infer_instance

instance (src : Emu Long) (ea : Ea) [Acts src] [∀ a b, Acts (op a b)] : Acts (binaryEa w op o src ea) := by
  unfold binaryEa
  infer_instance

instance [∀ a b, Acts (op a b)] : Acts (binaryRr w op o) := by
  unfold binaryRr
  infer_instance

instance (eaY eaX : Ea) [∀ a b, Acts (op a b)] : Acts (binaryMm w op o eaY eaX) := by
  unfold binaryMm
  infer_instance

instance (op : Long → Emu Long) [∀ a, Acts (op a)] : Acts (unaryD w o op) := by
  unfold unaryD
  infer_instance

instance (op : Long → Emu Long) (ea : Ea) [∀ a, Acts (op a)] : Acts (unaryEa w o op ea) := by
  unfold unaryEa
  infer_instance

end Places

section Arithmetic

variable (w : Width) (o : Insn) (s : Src) (ea : Ea)

instance : Acts (opAddEr w o s) := by unfold opAddEr; infer_instance
instance : Acts (opAddRe w o ea) := by unfold opAddRe; infer_instance
instance : Acts (opAddiD w o) := by unfold opAddiD; infer_instance
instance : Acts (opAddi w o ea) := by unfold opAddi; infer_instance
instance : Acts (opAddqD w o) := by unfold opAddqD; infer_instance
instance : Acts (opAddq w o ea) := by unfold opAddq; infer_instance
instance : Acts (opAddxRr w o) := by unfold opAddxRr; infer_instance
instance (eaX : Ea) : Acts (opAddxMm w o ea eaX) := by unfold opAddxMm; infer_instance
instance : Acts (addressOperand w o s) := by unfold addressOperand; infer_instance
instance : Acts (opAdda w o s) := by unfold opAdda; infer_instance
instance : Acts (opAddqA o) := by unfold opAddqA; infer_instance
instance : Acts (opSubEr w o s) := by unfold opSubEr; infer_instance
instance : Acts (opSubRe w o ea) := by unfold opSubRe; infer_instance
instance : Acts (opSubiD w o) := by unfold opSubiD; infer_instance
instance : Acts (opSubi w o ea) := by unfold opSubi; infer_instance
instance : Acts (opSubqD w o) := by unfold opSubqD; infer_instance
instance : Acts (opSubq w o ea) := by unfold opSubq; infer_instance
instance : Acts (opSubxRr w o) := by unfold opSubxRr; infer_instance
instance (eaX : Ea) : Acts (opSubxMm w o ea eaX) := by unfold opSubxMm; infer_instance
instance : Acts (opSuba w o s) := by unfold opSuba; infer_instance
instance : Acts (opSubqA o) := by unfold opSubqA; infer_instance
instance : Acts (opCmp w o s) := by unfold opCmp; infer_instance
instance : Acts (opCmpa w o s) := by unfold opCmpa; infer_instance
instance : Acts (opCmpiD w o) := by unfold opCmpiD; infer_instance
instance : Acts (opCmpi w o ea) := by unfold opCmpi; infer_instance
instance (eaX : Ea) : Acts (opCmpm w o ea eaX) := by unfold opCmpm; infer_instance
instance : Acts (opNegD w o) := by unfold opNegD; infer_instance
instance : Acts (opNeg w o ea) := by unfold opNeg; infer_instance
instance : Acts (opNegxD w o) := by unfold opNegxD; infer_instance
instance : Acts (opNegx w o ea) := by unfold opNegx; infer_instance
instance : Acts (opAbcdRr o) := by unfold opAbcdRr; infer_instance
instance (eaX : Ea) : Acts (opAbcdMm o ea eaX) := by unfold opAbcdMm; infer_instance
instance : Acts (opSbcdRr o) := by unfold opSbcdRr; infer_instance
instance (eaX : Ea) : Acts (opSbcdMm o ea eaX) := by unfold opSbcdMm; infer_instance

instance (dst : Long) : Acts (nbcd dst) := by
  refine acts_core (fun _ => rfl) fun c => ?_
  dsimp only
  split
  · exact acts_update_then (fun _ => rfl) fun _ _ => rfl
  · exact acts_update_then (fun _ => rfl) fun _ _ => rfl

instance : Acts (opNbcdD o) := by
  unfold opNbcdD
  refine acts_bind inferInstance fun dst => acts_bind inferInstance fun r => ?_
  cases r <;> infer_instance

instance : Acts (opNbcd o ea) := by
  unfold opNbcd
  refine acts_bind inferInstance fun ea => acts_bind inferInstance fun dst => acts_bind inferInstance fun r => ?_
  cases r <;> infer_instance

instance : Acts (opMulu o s) := by unfold opMulu; infer_instance
instance : Acts (opMuls o s) := by unfold opMuls; infer_instance

end Arithmetic

section Logic

variable (w : Width) (l : Logic) (o : Insn) (s : Src) (ea : Ea) (b : BitOp) (k : BitSource)

instance (i : Fin 8) (a : Long) : Acts (logicReg w l i a) := by unfold logicReg; infer_instance
instance (ea a : Long) : Acts (logicMem w l ea a) := by unfold logicMem; infer_instance
instance : Acts (opLogicEr w o l s) := by unfold opLogicEr; infer_instance
instance : Acts (opLogicRe w o l ea) := by unfold opLogicRe; infer_instance
instance : Acts (opEorD w o) := by unfold opEorD; infer_instance
instance : Acts (opLogiciD w o l) := by unfold opLogiciD; infer_instance
instance : Acts (opLogici w o l ea) := by unfold opLogici; infer_instance
instance : Acts (opNotD w o) := by unfold opNotD; infer_instance
instance : Acts (opNot w o ea) := by unfold opNot; infer_instance
instance : Acts (opTst w o s) := by unfold opTst; infer_instance

instance (value : Long) : Acts (onCore (setCcr value)) := acts_update (fun _ => rfl) fun _ _ => rfl

instance : Acts (opLogiciToc l) := acts_core (fun _ => rfl) fun _ => inferInstance

instance : Acts (opClrD w o) := acts_bind inferInstance fun _ => acts_update (fun _ => rfl) fun _ _ => rfl

instance : Acts (opClr w o ea) :=
  acts_bind inferInstance fun _ => acts_bind inferInstance fun _ => acts_update (fun _ => rfl) fun _ _ => rfl

instance : Acts (opTasD o) := acts_bind inferInstance fun _ => acts_update_then (fun _ => rfl) fun _ _ => rfl

instance : Acts (opTas o ea) :=
  acts_bind inferInstance fun _ => acts_bind inferInstance fun _ =>
    acts_update_then (fun _ => rfl) fun _ _ => rfl

instance : Acts (bitNumber o k) := by cases k <;> (unfold bitNumber; infer_instance)

instance (z : Long) : Acts (onCore fun c => { c with notZFlag := z }) :=
  acts_update (fun _ => rfl) fun _ _ => rfl

instance : Acts (opBitD o b k) := by unfold opBitD; infer_instance
instance : Acts (opBit o b k ea) := by cases k <;> (unfold opBit; infer_instance)
instance : Acts (opBtstD o k) := by unfold opBtstD; infer_instance
instance : Acts (opBtst o k ea) := by cases k <;> (unfold opBtst; infer_instance)

end Logic

section Shifts

variable (w : Width) (o : Insn) (k : ShiftOp)

instance (r : Shifted) : Acts (setShifted r) := acts_update (fun _ => rfl) fun _ _ => rfl

theorem static_blind (shift : ℕ) (src : Long) (c : Core) :
    k.static w shift src (withoutBanks c) = k.static w shift src c := by cases k <;> rfl

theorem counted_blind (shift : ℕ) (src : Long) (c : Core) :
    k.counted w shift src (withoutBanks c) = k.counted w shift src c := by cases k <;> rfl

theorem memory_blind (src : Long) (c : Core) : k.memory w src (withoutBanks c) = k.memory w src c := by
  cases k <;> rfl

instance : Acts (opShiftS w o k) := by
  unfold opShiftS
  refine acts_bind inferInstance fun raw => acts_core (fun c => ?_) fun _ => inferInstance
  rw [static_blind]

instance : Acts (opShiftR w o k) := by
  unfold opShiftR
  refine acts_bind inferInstance fun count => acts_bind inferInstance fun raw =>
    acts_core (fun c => ?_) fun _ => inferInstance
  rw [counted_blind]

instance (ea : Ea) : Acts (opShiftMem o k ea) := by
  unfold opShiftMem
  refine acts_bind inferInstance fun a => acts_bind inferInstance fun src =>
    acts_core (fun c => ?_) fun _ => inferInstance
  rw [memory_blind]

end Shifts

section DataMovement

variable (w : Width) (o : Insn) (s : Src) (ea : Ea)

instance : Acts (opMove w o ea s) := by unfold opMove; infer_instance
instance : Acts (opMoveD w o s) := by unfold opMoveD; infer_instance
instance : Acts (opMovea w o s) := by unfold opMovea; infer_instance
instance : Acts (opMoveq o) := by unfold opMoveq; infer_instance
instance : Acts (opMoveToc o s) := by cases s <;> (unfold opMoveToc; infer_instance)
instance : Acts (opMoveFrsD o) := acts_core (fun _ => rfl) fun _ => inferInstance

instance : Acts (opMoveFrs o ea) :=
  acts_bind inferInstance fun _ => acts_core (fun _ => rfl) fun _ => inferInstance

instance (l : List (Fin 16)) (a : Long) : Acts (storeDown w l a) := by
  induction l generalizing a <;> (unfold storeDown; infer_instance)

instance (l : List (Fin 16)) (a : Long) : Acts (storeUp w l a) := by
  induction l generalizing a <;> (unfold storeUp; infer_instance)

instance (l : List (Fin 16)) (a : Long) : Acts (loadUp w l a) := by
  induction l generalizing a <;> (unfold loadUp; infer_instance)

instance : Acts (opMovemRePd w o) := by unfold opMovemRePd; infer_instance
instance : Acts (opMovemRe w o ea) := by unfold opMovemRe; infer_instance
instance : Acts (opMovemErPi w o) := by unfold opMovemErPi; infer_instance
instance : Acts (opMovemEr w o ea) := by unfold opMovemEr; infer_instance

instance (src : Long) (n : ℕ) (a : Long) : Acts (writeBytes src n a) := by
  induction n generalizing a <;> (unfold writeBytes; infer_instance)

instance (n : ℕ) (a acc : Long) : Acts (readBytes n a acc) := by
  induction n generalizing a acc <;> (unfold readBytes; infer_instance)

instance : Acts (opMovepRe w o) := by unfold opMovepRe; infer_instance
instance : Acts (opMovepEr w o) := by unfold opMovepEr; infer_instance
instance : Acts (opLea o ea) := by unfold opLea; infer_instance
instance : Acts (opPea o ea) := by unfold opPea; infer_instance
instance : Acts (opExgDd o) := by unfold opExgDd; infer_instance
instance : Acts (opExgAa o) := by unfold opExgAa; infer_instance
instance : Acts (opExgDa o) := by unfold opExgDa; infer_instance

instance : Acts (opExt16 o) :=
  acts_bind inferInstance fun _ => acts_bind inferInstance fun _ => acts_update (fun _ => rfl) fun _ _ => rfl

instance : Acts (opExt32 o) := by unfold opExt32; infer_instance
instance : Acts (opSwap o) := by unfold opSwap; infer_instance
instance : Acts (opLink o) := by unfold opLink; infer_instance
instance : Acts opLinkA7 := by unfold opLinkA7; infer_instance
instance : Acts (opUnlk o) := by unfold opUnlk; infer_instance
instance : Acts opUnlkA7 := by unfold opUnlkA7; infer_instance

end DataMovement

section Branches

variable (w : Width) (o : Insn) (ea : Ea) (k : Cc)

instance : Acts branchWord := by unfold branchWord; infer_instance
instance : Acts skipWord := by unfold skipWord; infer_instance
instance : Acts (opBra8 o) := by unfold opBra8; infer_instance
instance : Acts opBra16 := by unfold opBra16; infer_instance
instance : Acts (opBsr8 o) := by unfold opBsr8; infer_instance
instance : Acts opBsr16 := by unfold opBsr16; infer_instance

theorem cond_blind (c : Core) : k.cond (withoutBanks c) = k.cond c := by cases k <;> rfl

theorem notCond_blind (c : Core) : k.notCond (withoutBanks c) = k.notCond c := by cases k <;> rfl

instance : Acts (opBcc8 o k) :=
  acts_core (fun c => by rw [cond_blind]) fun _ => inferInstance

instance : Acts (opBcc16 k) :=
  acts_core (fun c => by rw [cond_blind]) fun _ => inferInstance

instance : Acts (opDbf o) := by unfold opDbf; infer_instance
instance : Acts opDbt := by unfold opDbt; infer_instance

instance : Acts (opDbcc o k) :=
  acts_core (fun c => by rw [notCond_blind]) fun _ => inferInstance

instance : Acts (opSccD o k.cond) :=
  acts_bind inferInstance fun _ => acts_core (fun c => by rw [cond_blind]) fun _ => inferInstance

instance (b : Bool) : Acts (opSccD o fun _ => b) :=
  acts_bind inferInstance fun _ => acts_core (fun _ => rfl) fun _ => inferInstance

instance : Acts (opScc o k.cond ea) :=
  acts_bind inferInstance fun _ => acts_core (fun c => by rw [cond_blind]) fun _ => inferInstance

instance (b : Bool) : Acts (opScc o (fun _ => b) ea) :=
  acts_bind inferInstance fun _ => acts_core (fun _ => rfl) fun _ => inferInstance

instance : Acts (opJmp o ea) := by unfold opJmp; infer_instance
instance : Acts (opJsr o ea) := by unfold opJsr; infer_instance
instance : Acts opRts := by unfold opRts; infer_instance
instance : Acts opRtr := by unfold opRtr; infer_instance

end Branches

section Exits

variable {m68kTrap : Long → Machine → Machine} (o : Insn) (s : Src) (l : Logic)

theorem leaves_exception (pc : Long) {vector : Long} (h : GuestVector vector) :
    Leaves m68kTrap (exception pc vector) := ⟨.last (.exception pc vector h)⟩

theorem leaves_exceptionTrap {vector : Long} (h : GuestVector vector) :
    Leaves m68kTrap (exceptionTrap vector) :=
  leaves_bind inferInstance fun pc => leaves_exception pc h

theorem leaves_privileged (pc : Long) (x : Emu Unit) : Leaves m68kTrap (do
    if (← core).sFlag then x else exception pc EXCEPTION_PRIVILEGE_VIOLATION) :=
  ⟨.last (.privileged pc x)⟩

instance : Leaves m68kTrap (exception1010 o) := leaves_exception _ (Or.inl (by decide))
instance : Leaves m68kTrap (exception1111 o) := leaves_exception _ (Or.inl (by decide))
instance : Leaves m68kTrap (exceptionIllegal o) := leaves_exception _ (Or.inl (by decide))
instance : Leaves m68kTrap (opMoveFrc o) := by unfold opMoveFrc; infer_instance
instance : Leaves m68kTrap (exceptionTrap EXCEPTION_ZERO_DIVIDE) := leaves_exceptionTrap (Or.inl (by decide))
instance : Leaves m68kTrap (exceptionTrap EXCEPTION_CHK) := leaves_exceptionTrap (Or.inl (by decide))
instance : Leaves m68kTrap (exceptionTrap EXCEPTION_TRAPV) := leaves_exceptionTrap (Or.inl (by decide))

theorem trapVector_range (a : Long) : GuestVector (EXCEPTION_TRAP_BASE + (a &&& 0xf)) := by
  have hmask : (0xf : Long).toNat = 2 ^ 4 - 1 := by decide
  have hbase : EXCEPTION_TRAP_BASE.toNat = 32 := by decide
  refine Or.inr ?_
  rw [BitVec.toNat_add, BitVec.toNat_and, hmask, Nat.and_two_pow_sub_one_eq_mod, hbase]
  omega

instance : Leaves m68kTrap (opTrap o m68kTrap) := by
  unfold opTrap exceptionTrapN
  split
  · next h => exact ⟨.last (.host _ h)⟩
  · exact leaves_exceptionTrap (trapVector_range _)

instance : Leaves m68kTrap opTrapv := leaves_core (fun _ => rfl) fun _ => inferInstance

instance (i : Fin 8) (src dst : Long) : Leaves m68kTrap (divu i src dst) := by
  unfold divu
  dsimp only
  split
  · split
    · exact leaves_bind (acts_update (fun _ => rfl) fun _ _ => rfl) fun _ => inferInstance
    · have h := acts_update (g := fun c => { c with vFlag := 0x80 }) (fun _ => rfl) fun _ _ => rfl
      infer_instance
  · infer_instance

instance (i : Fin 8) (src dst : Long) : Leaves m68kTrap (divs i src dst) := by
  unfold divs
  dsimp only
  split
  · split
    · exact leaves_bind (acts_update (fun _ => rfl) fun _ _ => rfl) fun _ => inferInstance
    · split
      · exact leaves_bind (acts_update (fun _ => rfl) fun _ _ => rfl) fun _ => inferInstance
      · have h := acts_update (g := fun c => { c with vFlag := 0x80 }) (fun _ => rfl) fun _ _ => rfl
        infer_instance
  · infer_instance

instance : Leaves m68kTrap (opDivu o s) := by unfold opDivu; infer_instance
instance : Leaves m68kTrap (opDivs o s) := by unfold opDivs; infer_instance

instance : Leaves m68kTrap (opChk o s) := by
  unfold opChk
  refine leaves_bind inferInstance fun raw => leaves_bind inferInstance fun bound =>
    leaves_bind (acts_update (fun _ => rfl) fun _ _ => rfl) fun _ => ?_
  split
  · infer_instance
  · exact leaves_bind (acts_update (fun _ => rfl) fun _ _ => rfl) fun _ => inferInstance

instance : Leaves m68kTrap (opLogiciTos o l) := leaves_privileged o.ppc _
instance : Leaves m68kTrap (opMoveFru o) := leaves_privileged o.ppc _
instance : Leaves m68kTrap (opMoveTou o) := leaves_privileged o.ppc _
instance : Leaves m68kTrap (opRte o) := leaves_privileged o.ppc _
instance : Leaves m68kTrap (opReset o) := leaves_privileged o.ppc _

instance : Leaves m68kTrap (opMoveTos o s) := by
  unfold opMoveTos
  exact leaves_privileged o.ppc _

end Exits

section Table

variable {m68kTrap : Long → Machine → Machine}

def StopsPrivileged (x : Emu Bool) : Prop :=
  ∃ (pc : Long) (y : Emu Bool), x = do
    if (← core).sFlag then y
    else
      exception pc EXCEPTION_PRIVILEGE_VIOLATION
      return false

def OpcodeHandler.Known (m68kTrap : Long → Machine → Machine) : OpcodeHandler → Prop
  | run f => ∀ o, Leaves m68kTrap (f o)
  | trap f => ∀ o, Leaves m68kTrap (f o m68kTrap)
  | stop f => ∀ o, StopsPrivileged (f o)

class KnownHandler (m68kTrap : Long → Machine → Machine) (h : OpcodeHandler) : Prop where
  known : h.Known m68kTrap

instance (f : Insn → Emu Unit) [hf : ∀ o, Leaves m68kTrap (f o)] : KnownHandler m68kTrap (.run f) := ⟨hf⟩

instance (f : Insn → (Long → Machine → Machine) → Emu Unit) [hf : ∀ o, Leaves m68kTrap (f o m68kTrap)] :
    KnownHandler m68kTrap (.trap f) := ⟨hf⟩

instance : KnownHandler m68kTrap (.stop opStop) := ⟨fun o => ⟨o.ppc, _, rfl⟩⟩

theorem opcodesAc_known : ∀ op ∈ opcodesAc, ∀ k ea, KnownHandler m68kTrap (op.handler k ea) := by
  repeat' first
    | exact List.forall_mem_nil _
    | refine List.forall_mem_cons.mpr ⟨fun _ _ => inferInstance, ?_⟩

theorem opcodesDm_known : ∀ op ∈ opcodesDm, ∀ k ea, KnownHandler m68kTrap (op.handler k ea) := by
  repeat' first
    | exact List.forall_mem_nil _
    | refine List.forall_mem_cons.mpr ⟨fun _ _ => inferInstance, ?_⟩

theorem opcodesNz_known : ∀ op ∈ opcodesNz, ∀ k ea, KnownHandler m68kTrap (op.handler k ea) := by
  repeat' first
    | exact List.forall_mem_nil _
    | refine List.forall_mem_cons.mpr ⟨fun _ _ => inferInstance, ?_⟩

theorem entry_known {e : OpcodeEntry} (he : e ∈ opcodeOutputTable) : KnownHandler m68kTrap e.handler := by
  have hrow : ∀ op ∈ opcodeInputTable, ∀ k ea, KnownHandler m68kTrap (op.handler k ea) := by
    intro op hop
    rcases List.mem_append.mp hop with hop | hop
    · rcases List.mem_append.mp hop with hop | hop
      · exact opcodesAc_known op hop
      · exact opcodesDm_known op hop
    · exact opcodesNz_known op hop
  have hea : ∀ op ∈ opcodeInputTable, ∀ mask opMatch k,
      e ∈ generateOpcodeEaVariants op mask opMatch k → KnownHandler m68kTrap e.handler := by
    intro op hop mask opMatch k hmem
    rw [generateOpcodeEaVariants] at hmem
    split at hmem
    · rw [List.mem_singleton.mp hmem]
      exact hrow op hop _ _
    · obtain ⟨ea, -, rfl⟩ := List.mem_map.mp hmem
      exact hrow op hop _ _
  obtain ⟨op, hop, hmem⟩ := List.mem_flatMap.mp he
  rw [processOpcodeHandler] at hmem
  split at hmem
  · obtain ⟨k, -, hmem⟩ := List.mem_flatMap.mp hmem
    exact hea op hop _ _ _ hmem
  · exact hea op hop _ _ _ hmem

end Table

end Tosemu.M68k
