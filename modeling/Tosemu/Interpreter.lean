import Tosemu.InstructionActions

/-!
The loop of `m68k_execute`, one instruction after the other. How many of them a call runs depends on
the cycles, which are not counted; the loop of `main` looks at `keepongoing` between the calls.
-/

namespace Tosemu.M68k

open Overlay

/-- `m68ki_instruction_jump_table` -/
def instructionJumpTable : InstructionJumpTable :=
  (buildOpcodeTable opcodeHandlerTable).getD fun _ => .run exceptionIllegal

def OpcodeHandler.perform (m68kTrap : Long → Machine → Machine) (o : Insn) (m : Machine) :
    OpcodeHandler → Bool × Machine
  | run f => (false, (f o m).2)
  | trap f => (false, (f o m68kTrap m).2)
  | stop f => f o m

structure Processor where
  machine : Machine
  stopped : Bool

/-- `REG_PPC` is where the instruction is, `REG_IR` its first word. -/
def instruction (m68kTrap : Long → Machine → Machine) (m : Machine) : Bool × Machine :=
  let ppc := m.cpu.pc
  let r := readImm16 m
  let ir : Word := r.1.setWidth 16
  (instructionJumpTable ir).perform m68kTrap ⟨ir, ppc⟩ r.2

def m68kExecute (m68kTrap : Long → Machine → Machine) (p : Processor) : Processor :=
  if p.stopped then p
  else
    let r := instruction m68kTrap p.machine
    ⟨r.2, r.1⟩

theorem jumpTable_known (m68kTrap : Long → Machine → Machine) (ir : Word) :
    KnownHandler m68kTrap (instructionJumpTable ir) := by
  have hp : opcodeHandlerTable.Perm opcodeOutputTable := List.mergeSort_perm _ _
  rw [instructionJumpTable, buildOpcodeTable_sorted hp handlerTable_sorted, Option.getD_some]
  rcases overlay_greatest Matches OpcodeEntry.handler _ handlerTable_sorted ir with
    ⟨-, heq⟩ | ⟨e, he, -, heq, -⟩
  · rw [heq]
    infer_instance
  · rw [heq]
    exact entry_known (hp.mem_iff.mp he)

theorem jumpTable_single {ir : Word} {i : ℕ} {h : OpcodeHandler}
    (hone : (opcodeOutputTable.zipIdx.filter fun row => Matches row.1 ir).map Prod.snd = [i])
    (hentry : opcodeOutputTable[i]?.map OpcodeEntry.handler = some h) : instructionJumpTable ir = h := by
  have honly : ∀ e ∈ opcodeOutputTable, Matches e ir → e.handler = h := by
    intro e he hmatch
    obtain ⟨j, hj⟩ := List.mem_iff_getElem?.mp he
    have hrow : (e, j) ∈ opcodeOutputTable.zipIdx.filter fun row => Matches row.1 ir := by
      rw [List.mem_filter, List.mem_zipIdx_iff_getElem?]
      exact ⟨hj, decide_eq_true hmatch⟩
    have hindex : j ∈ [i] := hone ▸ List.mem_map_of_mem hrow
    rw [← List.mem_singleton.mp hindex, hj] at hentry
    exact Option.some.inj hentry
  have hsome : ∃ e ∈ opcodeOutputTable, Matches e ir := by
    obtain ⟨row, hrow, -⟩ := List.mem_map.mp (hone ▸ List.mem_singleton_self i)
    obtain ⟨hmem, hmatch⟩ := List.mem_filter.mp hrow
    exact ⟨row.1, List.fst_mem_of_mem_zipIdx hmem, of_decide_eq_true hmatch⟩
  have hp : opcodeHandlerTable.Perm opcodeOutputTable := List.mergeSort_perm _ _
  rw [instructionJumpTable, buildOpcodeTable_sorted hp handlerTable_sorted, Option.getD_some]
  rcases overlay_greatest Matches OpcodeEntry.handler _ handlerTable_sorted ir with
    ⟨hnone, -⟩ | ⟨e, he, hmatch, heq, -⟩
  · obtain ⟨e, he, hmatch⟩ := hsome
    exact absurd hmatch (hnone e (hp.mem_iff.mpr he))
  · rw [heq]
    exact honly e (hp.mem_iff.mp he) hmatch

theorem execute_run (m68kTrap : Long → Machine → Machine) {m : Machine} {ir : Word} {f : Insn → Emu Unit}
    (hfetch : (readImm16 m).1.setWidth 16 = ir) (hhandler : instructionJumpTable ir = .run f) :
    m68kExecute m68kTrap ⟨m, false⟩ = ⟨(f ⟨ir, m.cpu.pc⟩ (readImm16 m).2).2, false⟩ := by
  have hperform : instruction m68kTrap m = (false, (f ⟨ir, m.cpu.pc⟩ (readImm16 m).2).2) := by
    rw [instruction, hfetch, hhandler]
    rfl
  rw [m68kExecute, hperform]
  rfl

end Tosemu.M68k
