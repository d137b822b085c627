import Tosemu.MemoryBytes

namespace Tosemu

def Memarea.PtrBacked (area : Memarea) : Prop :=
  ∃ buf, area.handler = .ptr buf ∧ area.len.toNat ≤ buf.size

theorem memFlags_of_unmapped {memory : List Memarea} (h : ∀ area ∈ memory, area.PtrBacked) {x : Long}
    (hx : memByte memory x = none) : memFlags memory x = 0 := by
  cases hf : findMemarea memory x with
  | none => simp [memFlags, hf]
  | some area =>
    obtain ⟨buf, hb, -⟩ := h area (List.mem_of_find?_eq_some hf)
    simp [memByte, hf, Memarea.byteAt, hb] at hx

theorem plain_of_ptrBacked {m : Machine} (h : ∀ area ∈ m.memory, area.PtrBacked) (x : Long) :
    Plain m x := by
  intro hx
  rw [memFlags_of_unmapped h hx]
  exact BitVec.zero_and

section Width

variable (w : Width) (a v : Long) (m : Machine)

theorem m68kWriteMemory_eq : m68kWriteMemory w a v m = writeLoop w.bytes a v m := by
  cases w
  · simp [m68kWriteMemory, m68kWriteMemory8, Width.bytes, writeLoop]
  · rfl
  · rfl

theorem m68kReadMemory_eq : m68kReadMemory w a m = readLoop tosRead w.bytes a 0 m := by
  cases w
  · simp [m68kReadMemory, m68kReadMemory8, m68kReadDisassembler8, Width.bytes, readLoop]
  · rfl
  · rfl

theorem Width.bytes_le : w.bytes ≤ 4 := by cases w <;> decide

theorem read_back (h : ∀ k < w.bytes, Readable m (a + BitVec.ofNat 32 k) ∧
      Writable m (a + BitVec.ofNat 32 k)) :
    m68kReadMemory w a (m68kWriteMemory w a v m) =
      (BigEndian.pack (BigEndian.unpack v w.bytes) 0, m68kWriteMemory w a v m) := by
  have hw := w.bytes_le
  rw [m68kWriteMemory_eq, m68kReadMemory_eq]
  apply readLoop_bytes (BigEndian.unpack_length v w.bytes)
  · intro k hk
    exact ((writeLoop_sameMap _ _ _ _).readable_iff _).mpr (h k hk).1
  · intro k hk
    exact memByte_writeLoop _ _ _ _ hk (by omega) (h k hk).2

end Width

theorem guest_memory_bigEndian (m : Machine) (hptr : ∀ area ∈ m.memory, area.PtrBacked) (w : Width)
    (a v : Long) :
    ((∀ k < w.bytes, Readable m (a + BitVec.ofNat 32 k) ∧ Writable m (a + BitVec.ofNat 32 k)) →
      (m68kReadMemory w a (m68kWriteMemory w a v m)).1.toNat = v.toNat % 2 ^ (8 * w.bytes) ∧
      (m68kReadMemory w a (m68kWriteMemory w a v m)).2 = m68kWriteMemory w a v m ∧
      (m68kWriteMemory w a v m).keepongoing = m.keepongoing ∧
      (∀ k < w.bytes, tosRead (a + BitVec.ofNat 32 k) (m68kWriteMemory w a v m) =
        ((v >>> (8 * (w.bytes - 1 - k))).setWidth 8, m68kWriteMemory w a v m)) ∧
      ∀ x, (∀ k < w.bytes, x ≠ a + BitVec.ofNat 32 k) →
        (tosRead x (m68kWriteMemory w a v m)).1 = (tosRead x m).1 ∧
        (tosRead x (m68kWriteMemory w a v m)).2.keepongoing = (tosRead x m).2.keepongoing) ∧
    ((∃ k < w.bytes, ¬ Writable m (a + BitVec.ofNat 32 k)) →
      (m68kWriteMemory w a v m).keepongoing = false ∧
      ∀ x, memByte (m68kWriteMemory w a v m).memory x ≠ memByte m.memory x →
        ∃ k < w.bytes, x = a + BitVec.ofNat 32 k ∧ Writable m x) := by
  have hw := w.bytes_le
  have hs : SameMap m (m68kWriteMemory w a v m) := by
    rw [m68kWriteMemory_eq]
    exact writeLoop_sameMap _ _ _ _
  have hplain := plain_of_ptrBacked hptr
  constructor
  · intro h
    have hk : (m68kWriteMemory w a v m).keepongoing = m.keepongoing := by
      rw [m68kWriteMemory_eq, writeLoop_keepongoing, decide_eq_true (fun k hk => (h k hk).2),
        Bool.and_true]
    rw [read_back w a v m h]
    refine ⟨BigEndian.pack_unpack v _, rfl, hk, ?_, ?_⟩
    · intro k hkb
      have hr := (hs.readable_iff _).mpr (h k hkb).1
      rw [tosRead, tosReadWith_readable _ hr, m68kWriteMemory_eq,
        memByte_writeLoop _ _ _ _ hkb (by omega) (h k hkb).2, List.getElem?_eq_getElem (by simpa),
        BigEndian.unpack_getElem, Option.getD_some]
    · intro x hx
      have hb : memByte (m68kWriteMemory w a v m).memory x = memByte m.memory x := by
        rw [m68kWriteMemory_eq]
        exact memByte_writeLoop_of_ne _ _ _ _ (fun k hkb he => absurd he (hx k hkb))
      rw [tosRead, tosReadWith_plain _ (hplain x),
        tosReadWith_plain _ ((hs.plain_iff x).mpr (hplain x)), hb]
      by_cases hr : Readable m x
      · simp [hr, (hs.readable_iff x).mpr hr, hk]
      · simp [hr, mt (hs.readable_iff x).mp hr, Machine.haltExecution]
  · rintro ⟨k, hkb, hnw⟩
    rw [m68kWriteMemory_eq, writeLoop_keepongoing]
    refine ⟨?_, ?_⟩
    · rw [decide_eq_false (fun h => hnw (h k hkb)), Bool.and_false]
    · intro x hx
      by_contra hno
      exact hx (memByte_writeLoop_of_ne _ _ _ _ (fun k hkb he hwr => hno ⟨k, hkb, he, hwr⟩))

def shadowedMachine : Machine where
  cpu := Cpu.coldCore
  memory := addPtrMemoryArea MEMORY_READWRITE 0x11 1 ⟨1, fun _ => 0⟩
    (addPtrMemoryArea MEMORY_READWRITE 0x10 2 ⟨2, fun _ => 0⟩ [])
  keepongoing := true
  dreg := fun _ => 0
  areg := fun _ => 0
  crashed := false

theorem guest_memory_bigEndian_straddling :
    (m68kReadMemory .word 0x10 (m68kWriteMemory .word 0x10 0x12345 shadowedMachine)).1.toNat =
      0x12345 % 2 ^ 16 := by
  have hptr : ∀ area ∈ shadowedMachine.memory, area.PtrBacked := by
    simp [shadowedMachine, addPtrMemoryArea, Memarea.PtrBacked]
  exact ((guest_memory_bigEndian shadowedMachine hptr .word 0x10 0x12345).1 (by decide)).1

end Tosemu
