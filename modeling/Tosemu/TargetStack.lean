import Tosemu.Supexec

namespace Tosemu

open Cpu Runs

def pushU16 (value : BitVec 16) (m : Machine) : Machine :=
  let sp := m.getReg (.a 7) - 2
  (m68kWriteMemory16 sp (value.setWidth 32) m).setReg (.a 7) sp

def popU16 (m : Machine) : BitVec 16 × Machine :=
  let sp := m.getReg (.a 7)
  let r := m68kReadDisassembler16 sp m
  (r.1.setWidth 16, r.2.setReg (.a 7) (sp + 2))

def popU32 (m : Machine) : Long × Machine := popU32With tosRead m

inductive StackOp
  | push16 (value : BitVec 16)
  | push32 (value : Long)
  | pop16
  | pop32

inductive Item
  | word (value : BitVec 16)
  | long (value : Long)

namespace Item

def size : Item → ℕ
  | word _ => 2
  | long _ => 4

def value : Item → Long
  | word v => v.setWidth 32
  | long v => v

def bytes (item : Item) : List Byte := BigEndian.unpack item.value item.size

end Item

structure Target where
  machine : Machine
  pending : List Item

def targetStep (σ : Target) : StackOp → Long × Target
  | .push16 v => (0, ⟨pushU16 v σ.machine, .word v :: σ.pending⟩)
  | .push32 v => (0, ⟨pushU32 v σ.machine, .long v :: σ.pending⟩)
  | .pop16 =>
    let r := popU16 σ.machine
    (r.1.setWidth 32, ⟨r.2, σ.pending.tail⟩)
  | .pop32 =>
    let r := popU32 σ.machine
    (r.1, ⟨r.2, σ.pending.tail⟩)

def Below (m : Machine) (n : ℕ) (x : Long) : Prop :=
  ∃ k < n, x = m.cpu.a 7 - BitVec.ofNat 32 n + BitVec.ofNat 32 k

def Writes (σ : Target) (op : StackOp) (x : Long) : Prop :=
  match op with
  | .push16 _ => Below σ.machine 2 x
  | .push32 _ => Below σ.machine 4 x
  | _ => False

def Bracketed (σ : Target) (op : StackOp) : Prop :=
  (∀ x, Writes σ op x → Readable σ.machine x ∧ Writable σ.machine x) ∧
    match op with
    | .pop16 => ∃ v, σ.pending.head? = some (.word v)
    | .pop32 => ∃ v, σ.pending.head? = some (.long v)
    | _ => True

def PopsPushed (σ : Target) (op : StackOp) : Prop :=
  match op with
  | .pop16 | .pop32 => σ.pending.head?.map Item.value = some (targetStep σ op).1
  | _ => True

section Bytes

variable {m : Machine} {bytes : List Byte} {n : ℕ} {value : Long}

structure StackHolds (m : Machine) (bytes : List Byte) : Prop where
  byte : ∀ i < bytes.length, memByte m.memory (m.cpu.a 7 + BitVec.ofNat 32 i) = bytes[i]?
  readable : ∀ i < bytes.length, Readable m (m.cpu.a 7 + BitVec.ofNat 32 i)

theorem ne_last_of_mapped {memory : List Memarea} {x : Long} (h : (memByte memory x).isSome) :
    x ≠ 0xffffffff := by
  rintro rfl
  -- the end of an area is exclusive
  cases hf : findMemarea memory 0xffffffff with
  | none =>
    rw [memByte, hf] at h
    exact Bool.noConfusion h
  | some area =>
    have hlt := Memarea.index_lt (hits_of_findMemarea hf)
    have hhit := hits_of_findMemarea hf
    simp only [Memarea.hits, Bool.and_eq_true, decide_eq_true_eq, BitVec.lt_def] at hhit
    have hmax : (0xffffffff : Long).toNat = 2 ^ 32 - 1 := rfl
    have := (area.base + area.len).isLt
    omega

theorem StackHolds.length_lt (h : StackHolds m bytes) (hr : ∀ x, Below m n x → Readable m x) :
    n + bytes.length < 2 ^ 32 := by
  by_contra hlong
  have hi := (0xffffffff - (m.cpu.a 7 - BitVec.ofNat 32 n)).isLt
  have hlast : m.cpu.a 7 - BitVec.ofNat 32 n +
      BitVec.ofNat 32 (0xffffffff - (m.cpu.a 7 - BitVec.ofNat 32 n)).toNat = 0xffffffff := by
    rw [BitVec.ofNat_toNat, BitVec.setWidth_eq, BitVec.add_comm, BitVec.sub_add_cancel]
  generalize (0xffffffff - (m.cpu.a 7 - BitVec.ofNat 32 n)).toNat = i at hi hlast
  by_cases hin : i < n
  · exact ne_last_of_mapped (hr _ ⟨i, hin, rfl⟩).1 hlast
  · obtain ⟨j, rfl⟩ := Nat.exists_eq_add_of_le (Nat.le_of_not_lt hin)
    rw [BitVec.ofNat_add, ← BitVec.add_assoc, BitVec.sub_add_cancel] at hlast
    exact ne_last_of_mapped (h.readable j (by omega)).1 hlast

theorem readable_a7 (sp x : Long) : Readable (m.setReg (.a 7) sp) x ↔ Readable m x := by
  simp only [Readable, Machine.readMask, isSupervisorModeEnabled_eq]
  rfl

theorem setReg_a7 (sp : Long) : (m.setReg (.a 7) sp).cpu.a 7 = sp := by
  simp [Machine.setReg, m68kSetReg]

def pushBytes (n : ℕ) (value : Long) (m : Machine) : Machine :=
  (writeLoop n (m.cpu.a 7 - BitVec.ofNat 32 n) value m).setReg (.a 7) (m.cpu.a 7 - BitVec.ofNat 32 n)

theorem StackHolds.push (h : StackHolds m bytes) (value : Long)
    (hopen : ∀ x, Below m n x → Readable m x ∧ Writable m x) :
    StackHolds (pushBytes n value m) (BigEndian.unpack value n ++ bytes) := by
  have hlen := h.length_lt (fun x hx => (hopen x hx).1)
  have hs := writeLoop_sameMap n (m.cpu.a 7 - BitVec.ofNat 32 n) value m
  have hadd : ∀ j, m.cpu.a 7 - BitVec.ofNat 32 n + BitVec.ofNat 32 (n + j) = m.cpu.a 7 + BitVec.ofNat 32 j := by
    intro j
    rw [BitVec.ofNat_add, ← BitVec.add_assoc, BitVec.sub_add_cancel]
  have hcase : ∀ i < n + bytes.length, i < n ∨ ∃ j < bytes.length, i = n + j := by
    intro i hi
    by_cases hin : i < n
    · exact Or.inl hin
    · exact Or.inr ⟨i - n, by omega, by omega⟩
  constructor
  · intro i hi
    rw [List.length_append, BigEndian.unpack_length] at hi
    rw [pushBytes, setReg_a7, setReg_memory]
    rcases hcase i hi with hin | ⟨j, hj, rfl⟩
    · rw [memByte_writeLoop _ _ _ _ hin (by omega) (hopen _ ⟨i, hin, rfl⟩).2,
        List.getElem?_append_left (by rwa [BigEndian.unpack_length])]
    · rw [List.getElem?_append_right (by rw [BigEndian.unpack_length]; omega), BigEndian.unpack_length,
        Nat.add_sub_cancel_left, memByte_writeLoop_of_ne, hadd, h.byte j hj]
      -- the offsets of the written bytes are smaller
      intro k hk he
      have he : BitVec.ofNat 32 (n + j) = BitVec.ofNat 32 k := by simpa using he
      have := congrArg BitVec.toNat he
      simp only [BitVec.toNat_ofNat] at this
      omega
  · intro i hi
    rw [List.length_append, BigEndian.unpack_length] at hi
    rw [pushBytes, setReg_a7, readable_a7, hs.readable_iff]
    rcases hcase i hi with hin | ⟨j, hj, rfl⟩
    · exact (hopen _ ⟨i, hin, rfl⟩).1
    · rw [hadd]
      exact h.readable j hj

theorem StackHolds.pop (h : StackHolds m (BigEndian.unpack value n ++ bytes)) :
    readLoop tosRead n (m.cpu.a 7) 0 m = (BigEndian.pack (BigEndian.unpack value n) 0, m) ∧
      StackHolds (m.setReg (.a 7) (m.cpu.a 7 + BitVec.ofNat 32 n)) bytes := by
  have hlen : ∀ i, (i < n → i < (BigEndian.unpack value n ++ bytes).length) ∧
      (i < bytes.length → n + i < (BigEndian.unpack value n ++ bytes).length) := by
    intro i
    rw [List.length_append, BigEndian.unpack_length]
    omega
  refine ⟨?_, ?_, ?_⟩
  · apply readLoop_bytes (BigEndian.unpack_length value n)
    · exact fun i hi => h.readable i ((hlen i).1 hi)
    · intro i hi
      rw [h.byte i ((hlen i).1 hi), List.getElem?_append_left (by rwa [BigEndian.unpack_length])]
  · intro i hi
    have hb := h.byte (n + i) ((hlen i).2 hi)
    rw [List.getElem?_append_right (by rw [BigEndian.unpack_length]; omega), BigEndian.unpack_length,
      Nat.add_sub_cancel_left, BitVec.ofNat_add, ← BitVec.add_assoc] at hb
    rw [setReg_a7, setReg_memory]
    exact hb
  · intro i hi
    have hr := h.readable (n + i) ((hlen i).2 hi)
    rw [BitVec.ofNat_add, ← BitVec.add_assoc] at hr
    rw [setReg_a7, readable_a7]
    exact hr

end Bytes

structure TargetInv (sp : Long) (σ : Target) : Prop where
  holds : StackHolds σ.machine (σ.pending.flatMap Item.bytes)
  base : σ.machine.cpu.a 7 + BitVec.ofNat 32 (σ.pending.flatMap Item.bytes).length = sp

def Short : Item → Prop
  | .word _ => True
  | .long v => v.toNat < 2 ^ 16

@[simp] theorem short_word (v : BitVec 16) : Short (.word v) := trivial

@[simp] theorem short_long (v : Long) : Short (.long v) ↔ v.toNat < 2 ^ 16 := Iff.rfl

section Steps

variable {sp : Long} {m : Machine} {item : Item} {pending : List Item}

theorem TargetInv.push (h : TargetInv sp ⟨m, pending⟩) (item : Item)
    (hopen : ∀ x, Below m item.size x → Readable m x ∧ Writable m x) :
    TargetInv sp ⟨pushBytes item.size item.value m, item :: pending⟩ := by
  refine ⟨h.holds.push item.value hopen, ?_⟩
  rw [List.flatMap_cons, List.length_append, Item.bytes, BigEndian.unpack_length, pushBytes, setReg_a7,
    BitVec.ofNat_add, ← BitVec.add_assoc, BitVec.sub_add_cancel]
  exact h.base

theorem pushBytes_frame {n : ℕ} {value x : Long} (h : ¬ Below m n x) :
    memByte (pushBytes n value m).memory x = memByte m.memory x := by
  rw [pushBytes, setReg_memory]
  apply memByte_writeLoop_of_ne
  exact fun k hk he => absurd ⟨k, hk, he⟩ h

theorem TargetInv.pop (h : TargetInv sp ⟨m, item :: pending⟩) :
    readLoop tosRead item.size (m.cpu.a 7) 0 m = (BigEndian.pack item.bytes 0, m) ∧
      TargetInv sp ⟨m.setReg (.a 7) (m.cpu.a 7 + BitVec.ofNat 32 item.size), pending⟩ := by
  obtain ⟨hread, hrest⟩ := StackHolds.pop h.holds
  refine ⟨hread, hrest, ?_⟩
  have hbase := h.base
  rw [List.flatMap_cons, List.length_append, Item.bytes, BigEndian.unpack_length, BitVec.ofNat_add,
    ← BitVec.add_assoc] at hbase
  rw [setReg_a7]
  exact hbase

theorem pack_word (v : BitVec 16) : (BigEndian.pack (Item.word v).bytes (0 : Long)).setWidth 16 = v := by
  have hv := v.isLt
  apply BitVec.eq_of_toNat_eq
  rw [BitVec.toNat_setWidth, Item.bytes, BigEndian.pack_unpack, Item.value, Item.size, BitVec.toNat_setWidth]
  omega

theorem pack_long (v : Long) : BigEndian.pack (Item.long v).bytes (0 : Long) = v := by
  have hv := v.isLt
  apply BitVec.eq_of_toNat_eq
  rw [Item.bytes, BigEndian.pack_unpack, Item.value, Item.size]
  omega

theorem short_iff (v : Long) : (v.setWidth 16).setWidth 32 = v ↔ v.toNat < 2 ^ 16 := by
  rw [zeroExtend_low]
  exact and_iff_left rfl

theorem popU16_eq {v : BitVec 16} (h : TargetInv sp ⟨m, .word v :: pending⟩) :
    popU16 m = (v, m.setReg (.a 7) (m.cpu.a 7 + 2)) := by
  have hread : m68kReadDisassembler16 (m.getReg (.a 7)) m = (BigEndian.pack (Item.word v).bytes 0, m) := h.pop.1
  simp only [popU16, hread, pack_word]
  rfl

theorem popU32_eq {v : Long} (h : TargetInv sp ⟨m, .long v :: pending⟩) :
    popU32 m = ((v.setWidth 16).setWidth 32, m.setReg (.a 7) (m.cpu.a 7 + 4)) := by
  have hread : readLoop tosRead 4 (m.getReg (.a 7)) 0 m = (BigEndian.pack (Item.long v).bytes 0, m) := h.pop.1
  simp only [popU32, popU32With, hread, pack_long]
  rfl

end Steps

theorem targetStep_inv {sp : Long} {σ : Target} (h : TargetInv sp σ) (op : StackOp)
    (hb : Bracketed σ op) : TargetInv sp (targetStep σ op).2 ∧
      ∀ x, ¬ Writes σ op x → memByte (targetStep σ op).2.machine.memory x = memByte σ.machine.memory x := by
  obtain ⟨m, pending⟩ := σ
  obtain ⟨hopen, hhead⟩ := hb
  cases op with
  | push16 v => exact ⟨h.push (.word v) hopen, fun x hx => pushBytes_frame hx⟩
  | push32 v => exact ⟨h.push (.long v) hopen, fun x hx => pushBytes_frame hx⟩
  | pop16 =>
    obtain ⟨v, hv⟩ := hhead
    obtain ⟨rest, rfl⟩ := List.head?_eq_some_iff.mp hv
    simp only [targetStep, popU16_eq h]
    exact ⟨h.pop.2, fun _ _ => rfl⟩
  | pop32 =>
    obtain ⟨v, hv⟩ := hhead
    obtain ⟨rest, rfl⟩ := List.head?_eq_some_iff.mp hv
    simp only [targetStep, popU32_eq h]
    exact ⟨h.pop.2, fun _ _ => rfl⟩

theorem popsPushed_iff {sp : Long} {ops : List StackOp} {σ : Target} (h : TargetInv sp σ)
    (hb : Along targetStep Bracketed σ ops) (hend : (run targetStep σ ops).pending = []) :
    Along targetStep PopsPushed σ ops ↔
      (∀ item ∈ σ.pending, Short item) ∧ ∀ v, .push32 v ∈ ops → v.toNat < 2 ^ 16 := by
  induction ops generalizing σ with
  | nil =>
    have hnil : σ.pending = [] := hend
    simp [Along, hnil]
  | cons op ops ih =>
    have hnext := ih (targetStep_inv h op hb.1).1 hb.2 hend
    rw [Along, hnext]
    obtain ⟨m, pending⟩ := σ
    cases op with
    | push16 v => simp [PopsPushed, targetStep]
    | push32 v =>
      simp only [PopsPushed, targetStep, List.mem_cons, StackOp.push32.injEq, forall_eq_or_imp, short_long,
        true_and]
      tauto
    | pop16 =>
      obtain ⟨v, hv⟩ := hb.1.2
      obtain ⟨rest, rfl⟩ := List.head?_eq_some_iff.mp hv
      have hpop : PopsPushed ⟨m, .word v :: rest⟩ .pop16 := by
        simp only [PopsPushed, targetStep, popU16_eq h, List.head?_cons, Option.map_some, Item.value]
      simp [hpop, targetStep]
    | pop32 =>
      obtain ⟨v, hv⟩ := hb.1.2
      obtain ⟨rest, rfl⟩ := List.head?_eq_some_iff.mp hv
      have hpop : PopsPushed ⟨m, .long v :: rest⟩ .pop32 ↔ v.toNat < 2 ^ 16 := by
        simp only [PopsPushed, targetStep, popU32_eq h, List.head?_cons, Option.map_some, Item.value,
          Option.some.injEq, eq_comm (a := v), short_iff]
      simp only [hpop, targetStep, List.tail_cons, List.mem_cons, forall_eq_or_imp, short_long, reduceCtorEq,
        false_or, and_assoc]

theorem run_frame {sp x : Long} {ops : List StackOp} {σ : Target} (h : TargetInv sp σ)
    (hb : Along targetStep Bracketed σ ops)
    (hx : Along targetStep (fun σ op => ¬ Writes σ op x) σ ops) :
    memByte (run targetStep σ ops).machine.memory x = memByte σ.machine.memory x := by
  induction ops generalizing σ with
  | nil => rfl
  | cons op ops ih =>
    obtain ⟨hnext, hframe⟩ := targetStep_inv h op hb.1
    rw [← hframe x hx.1]
    exact ih hnext hb.2 hx.2

structure Lifo (m : Machine) (ops : List StackOp) : Prop where
  pops : Along targetStep PopsPushed ⟨m, []⟩ ops
  sp : (run targetStep ⟨m, []⟩ ops).machine.cpu.a 7 = m.cpu.a 7
  frame : ∀ x, Along targetStep (fun σ op => ¬ Writes σ op x) ⟨m, []⟩ ops →
    memByte (run targetStep ⟨m, []⟩ ops).machine.memory x = memByte m.memory x

theorem target_stack_lifo_iff (m : Machine) (ops : List StackOp)
    (hb : Along targetStep Bracketed ⟨m, []⟩ ops) (hend : (run targetStep ⟨m, []⟩ ops).pending = []) :
    Lifo m ops ↔ ∀ v, .push32 v ∈ ops → v.toNat < 2 ^ 16 := by
  have hstart : TargetInv (m.cpu.a 7) ⟨m, []⟩ := by
    refine ⟨⟨fun i hi => absurd hi (by simp), fun i hi => absurd hi (by simp)⟩, ?_⟩
    exact BitVec.add_zero _
  have hpops := popsPushed_iff hstart hb hend
  constructor
  · exact fun h => (hpops.mp h.pops).2
  · intro hshort
    refine ⟨hpops.mpr ⟨by simp, hshort⟩, ?_, fun x hx => run_frame hstart hb hx⟩
    have hinv : ∀ σ op, TargetInv (m.cpu.a 7) σ → Bracketed σ op → TargetInv (m.cpu.a 7) (targetStep σ op).2 :=
      fun σ op h hb => (targetStep_inv h op hb).1
    have hbase := (run_along hinv hstart hb).base
    rw [hend] at hbase
    exact (BitVec.add_zero _).symm.trans hbase

theorem open_below {m : Machine} {n : ℕ}
    (h : ∀ k < n, Readable m (m.cpu.a 7 - BitVec.ofNat 32 n + BitVec.ofNat 32 k) ∧
      Writable m (m.cpu.a 7 - BitVec.ofNat 32 n + BitVec.ofNat 32 k)) :
    ∀ x, Below m n x → Readable m x ∧ Writable m x := by
  rintro x ⟨k, hk, rfl⟩
  exact h k hk

theorem target_stack_lifo_nested :
    Lifo (userMachine 0x910) [.push16 0x1234, .push32 0x5678, .pop32, .pop16] := by
  have hb : Along targetStep Bracketed ⟨userMachine 0x910, []⟩ [.push16 0x1234, .push32 0x5678, .pop32, .pop16] :=
    ⟨⟨open_below (by decide +kernel), trivial⟩, ⟨open_below (by decide +kernel), trivial⟩,
      ⟨fun x hx => absurd hx id, _, rfl⟩, ⟨fun x hx => absurd hx id, _, rfl⟩, trivial⟩
  refine (target_stack_lifo_iff _ _ hb rfl).mpr (fun v hv => ?_)
  obtain rfl : v = 0x5678 := by simpa using hv
  decide

theorem long_popped_short :
    Along targetStep Bracketed ⟨userMachine 0x910, []⟩ [.push32 0x10000, .pop32] ∧
      (popU32 (pushU32 0x10000 (userMachine 0x910))).1 = 0 := by
  refine ⟨⟨⟨open_below ?_, trivial⟩, ⟨fun x hx => absurd hx id, _, rfl⟩, trivial⟩, ?_⟩
  · decide +kernel
  · decide +kernel

end Tosemu
