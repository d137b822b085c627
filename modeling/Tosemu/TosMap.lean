import Tosemu.LoaderBounds
import Tosemu.MemoryBytes

namespace Tosemu

theorem Memarea.hits_eq (base len : Long) (handler : Handler) (flags : Byte) (a : Long)
    (h : base.toNat + len.toNat < 2 ^ 32) :
    (Memarea.mk base len handler flags).hits a =
      decide (base.toNat ≤ a.toNat ∧ a.toNat < base.toNat + len.toNat) := by
  simp only [hits, BitVec.le_def, BitVec.lt_def, BitVec.toNat_add, Nat.mod_eq_of_lt h,
    Bool.decide_and]

def userram (b : TosBuffers) : Memarea :=
  ⟨0x900, tosSize.setWidth 32, .ptr b.appmem, MEMORY_READWRITE⟩

def tosLookup (b : TosBuffers) (a : ℕ) : Option Memarea :=
  if a < 0x1ff then some ⟨0x0, 0x1ff, .ptr b.staticmem0, MEMORY_READWRITE ||| MEMORY_SUPERWRITE⟩
  else if 0x200 ≤ a ∧ a < 0x202 then some ⟨0x200, 0x2, .supexec, MEMORY_SUPERREAD⟩
  else if 0x380 ≤ a ∧ a < 0x600 then
    some ⟨0x380, 0x600 - 0x380, .ptr b.staticmem1, MEMORY_SUPERREAD ||| MEMORY_SUPERWRITE⟩
  else if 0x600 ≤ a ∧ a < 0x800 then
    some ⟨0x600, 512, .ptr b.supermem, MEMORY_SUPERREAD ||| MEMORY_SUPERWRITE⟩
  else if 0x800 ≤ a ∧ a < 0x900 then some ⟨0x800, 0x100, .ptr b.bp, MEMORY_READWRITE⟩
  else if 0x900 ≤ a ∧ a < 0x900 + tosSize.toNat then some (userram b)
  else none

theorem findMemarea_registerAreas (b : TosBuffers) (a : Long) :
    findMemarea (registerAreas b) a = tosLookup b a.toNat := by
  have hsize : 0x900 + tosSize.toNat = 0xF9FFFF := by decide
  have h0 : ∀ h, (Memarea.mk 0x0 0x1ff h (MEMORY_READWRITE ||| MEMORY_SUPERWRITE)).hits a =
      decide (0 ≤ a.toNat ∧ a.toNat < 0x1ff) := fun h => Memarea.hits_eq _ _ h _ a (by decide)
  have h1 : ∀ h, (Memarea.mk 0x200 0x2 h MEMORY_SUPERREAD).hits a =
      decide (0x200 ≤ a.toNat ∧ a.toNat < 0x202) := fun h => Memarea.hits_eq _ _ h _ a (by decide)
  have h2 : ∀ h, (Memarea.mk 0x380 (0x600 - 0x380) h (MEMORY_SUPERREAD ||| MEMORY_SUPERWRITE)).hits a =
      decide (0x380 ≤ a.toNat ∧ a.toNat < 0x600) := fun h => Memarea.hits_eq _ _ h _ a (by decide)
  have h3 : ∀ h, (Memarea.mk 0x600 512 h (MEMORY_SUPERREAD ||| MEMORY_SUPERWRITE)).hits a =
      decide (0x600 ≤ a.toNat ∧ a.toNat < 0x800) := fun h => Memarea.hits_eq _ _ h _ a (by decide)
  have h4 : ∀ h, (Memarea.mk 0x800 0x100 h MEMORY_READWRITE).hits a =
      decide (0x800 ≤ a.toNat ∧ a.toNat < 0x900) := fun h => Memarea.hits_eq _ _ h _ a (by decide)
  have h5 : ∀ h, (Memarea.mk 0x900 (tosSize.setWidth 32) h MEMORY_READWRITE).hits a =
      decide (0x900 ≤ a.toNat ∧ a.toNat < 0xF9FFFF) := fun h => Memarea.hits_eq _ _ h _ a (by decide)
  simp only [findMemarea, registerAreas, addPtrMemoryArea, addFnctMemoryArea, tosLookup, userram,
    List.find?_cons, List.find?_nil, h0, h1, h2, h3, h4, h5, hsize]
  generalize a.toNat = x
  split_ifs <;> grind

theorem mapped_bounds {b : TosBuffers} {x : Long} (h : (memByte (registerAreas b) x).isSome) :
    x.toNat < 0xF9FFFF ∧ ¬ (0x200 ≤ x.toNat ∧ x.toNat < 0x202) := by
  have hsize : 0x900 + tosSize.toNat = 0xF9FFFF := by decide
  rw [memByte, findMemarea_registerAreas, tosLookup] at h
  split_ifs at h <;> first | omega | exact absurd h Bool.false_ne_true

theorem storeByte_registerAreas (b : TosBuffers) (x : Long) (v : Byte) :
    ∃ b', storeByte x v (registerAreas b) = registerAreas b' := by
  simp only [registerAreas, addPtrMemoryArea, addFnctMemoryArea, storeByte]
  split_ifs
  · exact ⟨{ b with supermem := b.supermem.set _ v, supermem_size := b.supermem_size }, rfl⟩
  · exact ⟨{ b with appmem := b.appmem.set _ v, appmem_size := b.appmem_size }, rfl⟩
  · exact ⟨{ b with bp := b.bp.set _ v, bp_size := b.bp_size }, rfl⟩
  · exact ⟨{ b with staticmem1 := b.staticmem1.set _ v, staticmem1_size := b.staticmem1_size }, rfl⟩
  · exact ⟨b, rfl⟩
  · exact ⟨{ b with staticmem0 := b.staticmem0.set _ v, staticmem0_size := b.staticmem0_size }, rfl⟩
  · exact ⟨b, rfl⟩

theorem writeLoop_registerAreas {b : TosBuffers} {m : Machine} (hm : m.memory = registerAreas b)
    (n : ℕ) (a v : Long) : ∃ b', (writeLoop n a v m).memory = registerAreas b' := by
  induction n generalizing b v m with
  | zero => exact ⟨b, hm⟩
  | succ n ih =>
    obtain ⟨b', hb'⟩ := storeByte_registerAreas b (a + BitVec.ofNat 32 n) (v.setWidth 8)
    rw [← hm] at hb'
    rw [writeLoop, tosWrite_eq]
    split_ifs
    · exact ih (m := { m with memory := _ }) hb' _
    · exact ih (m := m.haltExecution) hm _

end Tosemu
