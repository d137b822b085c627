import Tosemu.RelocationTable
import Tosemu.TosMap

namespace Tosemu

open Relocation

def ramAddress (i : ℕ) : Long := BitVec.ofNat 32 (0x900 + i)

structure Ram (m : Machine) (img : Image) : Prop where
  byte : ∀ i < tosSize.toNat, memByte m.memory (ramAddress i) = some (img i)
  flags : ∀ i < tosSize.toNat, memFlags m.memory (ramAddress i) = MEMORY_READWRITE

theorem ramAddress_add (i k : ℕ) : ramAddress i + BitVec.ofNat 32 k = ramAddress (i + k) := by
  rw [ramAddress, ramAddress, ← BitVec.ofNat_add, Nat.add_assoc]

theorem tosSize_toNat : tosSize.toNat = 0xF9F6FF := by decide

theorem ramAddress_toNat {i : ℕ} (h : i < tosSize.toNat) : (ramAddress i).toNat = 0x900 + i := by
  rw [tosSize_toNat] at h
  rw [ramAddress, BitVec.toNat_ofNat, Nat.mod_eq_of_lt (by omega)]

section Ram

variable {m : Machine} {img : Image} {i o : ℕ}

theorem Ram.readable (h : Ram m img) (hi : i < tosSize.toNat) : Readable m (ramAddress i) :=
  Readable.of_readwrite (by rw [h.byte i hi]; rfl) (h.flags i hi)

theorem Ram.writable (h : Ram m img) (hi : i < tosSize.toNat) : Writable m (ramAddress i) :=
  Writable.of_readwrite (by rw [h.byte i hi]; rfl) (h.flags i hi)

theorem Ram.read_long (h : Ram m img) (ho : o + 4 ≤ tosSize.toNat) :
    m68kReadMemory32 (ramAddress o) m = (longOf img o, m) := by
  have hb : ∀ k < 4, (memByte m.memory (ramAddress o + BitVec.ofNat 32 k)).getD 0 = img (o + k) := by
    intro k hk
    rw [ramAddress_add, h.byte _ (by omega)]
    rfl
  rw [m68kReadMemory32, m68kReadDisassembler32, readLoop_readable]
  · simp only [List.range_succ, List.range_zero, List.nil_append, List.cons_append, List.map_cons,
      List.map_nil, hb 0 (by omega), hb 1 (by omega), hb 2 (by omega), hb 3 (by omega)]
    rfl
  · intro k hk
    rw [ramAddress_add]
    exact h.readable (by omega)

theorem Ram.read_byte (h : Ram m img) (hi : i < tosSize.toNat) :
    m68kReadMemory8 (ramAddress i) m = ((img i).setWidth 32, m) := by
  rw [m68kReadMemory8, m68kReadDisassembler8, tosRead, tosReadWith_readable _ (h.readable hi),
    h.byte i hi]
  rfl

theorem Ram.write_long (h : Ram m img) (ho : o + 4 ≤ tosSize.toNat) (value : Long) :
    Ram (m68kWriteMemory32 (ramAddress o) value m) (storeLong img o value) := by
  constructor
  · intro i hi
    by_cases hin : o ≤ i ∧ i < o + 4
    · obtain ⟨k, rfl⟩ := Nat.exists_eq_add_of_le hin.1
      rw [m68kWriteMemory32, ← ramAddress_add, memByte_writeLoop _ _ _ _ (by omega) (by omega),
        storeLong_getElem (by omega)]
      rw [ramAddress_add]
      exact h.writable hi
    · rw [m68kWriteMemory32, memByte_writeLoop_of_ne, h.byte i hi, storeLong_of_outside hin]
      intro k hk he
      rw [ramAddress_add] at he
      have := congrArg BitVec.toNat he
      rw [ramAddress_toNat hi, ramAddress_toNat (by omega)] at this
      omega
  · intro i hi
    rw [m68kWriteMemory32, (writeLoop_sameMap _ _ _ _).flags, h.flags i hi]

theorem Ram.fixup (h : Ram m img) (ho : o + 4 ≤ tosSize.toNat) :
    Ram (fixup (ramAddress o) m) (move 0x900 img o) := by
  rw [Tosemu.fixup, h.read_long ho]
  exact h.write_long ho _

theorem relocateTable_delta {d : ℕ} (hd : 2 ≤ d) (heven : 2 ∣ d) (table : List Byte) (o : ℕ) :
    relocateTable (encodeDelta d ++ table) (ramAddress o) m =
      relocateTable table (ramAddress (o + d)) (Tosemu.fixup (ramAddress (o + d)) m) := by
  induction d using encodeDelta.induct generalizing o with
  | case1 d hle =>
    have hv : (BitVec.ofNat 8 d).toNat = d := by
      rw [BitVec.toNat_ofNat, Nat.mod_eq_of_lt (by omega)]
    have hw : (BitVec.ofNat 8 d).setWidth 32 = BitVec.ofNat 32 d := by
      apply BitVec.eq_of_toNat_eq
      rw [BitVec.toNat_setWidth, hv, BitVec.toNat_ofNat]
    have hne : ∀ c : Byte, c.toNat < 2 → BitVec.ofNat 8 d ≠ c := by
      rintro c hc rfl
      omega
    rw [encodeDelta, if_pos hle, List.singleton_append, relocateTable, if_neg (hne 0 (by decide)),
      if_neg (hne 1 (by decide)), hw, ramAddress_add]
  | case2 d hgt ih =>
    rw [encodeDelta, if_neg hgt, List.cons_append, relocateTable, if_neg (by decide), if_pos rfl]
    have hadr : ramAddress o + 0xfe = ramAddress (o + 0xfe) := ramAddress_add o 0xfe
    rw [hadr, ih (by omega) (by omega), Nat.add_assoc, Nat.add_sub_cancel' (by omega)]

theorem relocateTable_deltas (offsets : List ℕ) (h : Spaced (o :: offsets))
    (hfit : ∀ p ∈ offsets, p + 4 ≤ tosSize.toNat) (hm : Ram m img) (rest : List Byte) :
    ∃ m', relocateTable (encodeDeltas o offsets ++ rest) (ramAddress o) m = some m' ∧
      Ram m' (offsets.foldl (move 0x900) img) := by
  induction offsets generalizing o m img with
  | nil => exact ⟨m, rfl, hm⟩
  | cons p offsets ih =>
    obtain ⟨⟨hlt, heven⟩, hs⟩ := List.isChain_cons_cons.mp h
    have hp := hfit p List.mem_cons_self
    rw [encodeDeltas, List.append_assoc, relocateTable_delta (by omega) heven,
      Nat.add_sub_cancel' (by omega)]
    exact ih hs (fun q hq => hfit q (List.mem_cons_of_mem _ hq)) (hm.fixup hp)

end Ram

theorem registerAreas_ram (b : TosBuffers) {m : Machine} (hm : m.memory = registerAreas b) :
    Ram m b.appmem.byte := by
  have hfind : ∀ i < tosSize.toNat, findMemarea m.memory (ramAddress i) = some (userram b) := by
    intro i hi
    rw [hm, findMemarea_registerAreas, ramAddress_toNat hi, tosLookup, if_neg (by omega),
      if_neg (by omega), if_neg (by omega), if_neg (by omega), if_neg (by omega), if_pos (by omega)]
  constructor
  · intro i hi
    have hindex : (ramAddress i - 0x900).toNat = i := by
      have hle : (0x900 : Long) ≤ ramAddress i := by
        rw [BitVec.le_def, ramAddress_toNat hi]
        exact Nat.le_add_right _ _
      rw [BitVec.toNat_sub_of_le hle, ramAddress_toNat hi]
      exact Nat.add_sub_cancel_left _ _
    simp only [memByte, hfind i hi, userram, Memarea.byteAt, Memarea.index, Option.bind_some, hindex]
  · intro i hi
    rw [memFlags, hfind i hi]
    rfl

theorem pack_take_four {binary : List Byte} {n o : ℕ} (h : n + o + 4 ≤ binary.length) :
    BigEndian.pack ((binary.drop (n + o)).take 4) (0 : Long) =
      longOf (fun i => binary.getD (n + i) 0) o := by
  simp only [take_four h, longOf, List.getD_eq_getElem?_getD, ← Nat.add_assoc]
  rw [List.getElem?_eq_getElem (by omega), List.getElem?_eq_getElem (by omega),
    List.getElem?_eq_getElem (by omega), List.getElem?_eq_getElem (by omega)]
  rfl

section Load

variable (heap : Heap) {binary : List Byte} (argv : List (List Byte))
  (tosBasePath : Option (List Byte)) {offsets : List ℕ} {rest : List Byte}

theorem fileLong_little {i : ℕ} (h : i + 4 ≤ binary.length) :
    fileLong .little binary i = BigEndian.pack ((binary.drop i).take 4) 0 := by
  rw [fileLong, endianize32_load]
  rw [List.length_take, List.length_drop]
  omega

theorem fileLong_of_drop {i : ℕ} {value : Long} {tail : List Byte}
    (h : binary.drop i = BigEndian.unpack value 4 ++ tail) :
    i + 4 ≤ binary.length ∧ fileLong .little binary i = value ∧ binary.drop (i + 4) = tail := by
  have hu : (BigEndian.unpack value 4).length = 4 := BigEndian.unpack_length value 4
  have hlen : i + 4 ≤ binary.length := by
    have := congrArg List.length h
    rw [List.length_drop, List.length_append, hu] at this
    omega
  refine ⟨hlen, ?_, ?_⟩
  · rw [fileLong_little hlen, h, List.take_left' hu, BigEndian.pack_unpack_eq (by decide)]
  · rw [← List.drop_drop, h, List.drop_left' hu]

theorem relocate_encodeTable {m : Machine} {img : Image} (hm : Ram m img) (hs : Spaced offsets)
    (h0 : offsets.head? ≠ some 0) (hfit : ∀ o ∈ offsets, o + 4 ≤ tosSize.toNat)
    (htable : binary.drop (segmentsEnd .little binary) = encodeTable offsets ++ rest) :
    ∃ m', relocate .little binary (fileEnvironment .little binary tosBasePath) m = .ok m' ∧
      Ram m' (offsets.foldl (move 0x900) img) := by
  cases offsets with
  | nil =>
    rw [encodeTable, List.append_assoc] at htable
    obtain ⟨hlen, hfirst, -⟩ := fileLong_of_drop htable
    rw [relocate_eq _ hlen, if_pos hfirst]
    exact ⟨m, rfl, hm⟩
  | cons o offsets =>
    have ho := hfit o List.mem_cons_self
    rw [encodeTable, List.append_assoc] at htable
    obtain ⟨hlen, hfirst, htail⟩ := fileLong_of_drop htable
    have hne : BitVec.ofNat 32 o ≠ 0 := by
      intro he
      have := congrArg BitVec.toNat he
      rw [tosSize_toNat] at ho
      rw [BitVec.toNat_ofNat, Nat.mod_eq_of_lt (by omega)] at this
      exact h0 (congrArg some this)
    have hadr : 0x900 + BitVec.ofNat 32 o = ramAddress o := (BitVec.ofNat_add 0x900 o).symm
    obtain ⟨m', hm', hram⟩ := relocateTable_deltas offsets hs
      (fun p hp => hfit p (List.mem_cons_of_mem _ hp)) (hm.fixup ho) rest
    rw [relocate_eq _ hlen, hfirst, if_neg hne, htail, hadr, hm']
    exact ⟨m', rfl, hram⟩

theorem copyLength_toNat (binary : List Byte)
    (h : segmentsEnd .little binary ≤ headerSize + tosSize.toNat) :
    headerSize + (copyLength .little binary).toNat = segmentsEnd .little binary := by
  rw [tosSize_toNat] at h
  simp only [segmentsEnd, copyLength, BitVec.toNat_add] at h ⊢
  omega

theorem relocation_decodes (heap : Heap) (binary : List Byte) (argv : List (List Byte))
    (tosBasePath : Option (List Byte)) (offsets : List ℕ) (rest : List Byte)
    (habs : (binary.drop 26).take 2 = [0, 0])
    (hfit : (fileLong .little binary 2).toNat + (fileLong .little binary 6).toNat +
      (fileLong .little binary 14).toNat ≤ tosSize.toNat)
    (hspaced : Spaced offsets) (h0 : offsets.head? ≠ some 0)
    (hlast : ∀ o ∈ offsets.getLast?,
      o + 4 ≤ (fileLong .little binary 2).toNat + (fileLong .little binary 6).toNat)
    (htable : binary.drop (segmentsEnd .little binary) = encodeTable offsets ++ rest) :
    ∃ te m, initTosEnvironment .little heap binary argv tosBasePath = .ok (te, m) ∧
      (∀ o ∈ offsets, (m68kReadMemory32 (BitVec.ofNat 32 (0x900 + o)) m).1 =
        BigEndian.pack ((binary.drop (headerSize + o)).take 4) 0 + 0x900) ∧
      ∀ i < (fileLong .little binary 2).toNat + (fileLong .little binary 6).toNat,
        (∀ o ∈ offsets, ¬ (o ≤ i ∧ i < o + 4)) →
          (m68kReadMemory8 (BitVec.ofNat 32 (0x900 + i)) m).1 =
            (binary.getD (headerSize + i) 0).setWidth 32 := by
  have hend : segmentsEnd .little binary = headerSize + (fileLong .little binary 2).toNat +
    (fileLong .little binary 6).toNat + (fileLong .little binary 14).toNat := rfl
  have hlen : segmentsEnd .little binary < binary.length := by
    have := congrArg List.length htable
    have := encodeTable_length offsets
    rw [List.length_drop, List.length_append] at *
    omega
  have hcopy := copyLength_toNat binary (by omega)
  have hbound : ∀ o ∈ offsets,
      o + 4 ≤ (fileLong .little binary 2).toNat + (fileLong .little binary 6).toNat := by
    intro o ho
    obtain ⟨l, hl, hle⟩ := hspaced.le_last ho
    exact (Nat.add_le_add_right hle 4).trans (hlast l hl)
  have hsize : (copyLength .little binary).toNat ≤ tosSize.toNat := by omega
  obtain ⟨m, hrel, hram⟩ := relocate_encodeTable tosBasePath
    (registerAreas_ram _ (m := mapEnvironment .little heap (fileEnvironment .little binary tosBasePath)
      argv (fileAppmem .little heap binary)) rfl)
    hspaced h0 (fun o ho => (hbound o ho).trans (by omega)) htable
  have himg : ∀ i < (copyLength .little binary).toNat,
      fileAppmem .little heap binary i = binary.getD (headerSize + i) 0 := fun i hi => if_pos hi
  refine ⟨fileEnvironment .little binary tosBasePath, { m with keepongoing := true }, ?_, ?_, ?_⟩
  · rw [initTosEnvironment_eq (by omega), copySegments_ok (by omega) hsize]
    simp only [bind, Except.bind]
    rw [if_neg (not_not.mpr habs), hrel]
    rfl
  · intro o ho
    have hb := hbound o ho
    have hram' : Ram { m with keepongoing := true } _ := ⟨hram.byte, hram.flags⟩
    rw [← ramAddress, hram'.read_long (by omega), longOf_foldl_move hspaced.pairwise ho,
      pack_take_four (by omega), longOf_congr (fun i => binary.getD (headerSize + i) 0)]
    exact fun i _ hi => himg i (by omega)
  · intro i hi hout
    have hram' : Ram { m with keepongoing := true } _ := ⟨hram.byte, hram.flags⟩
    rw [← ramAddress, hram'.read_byte (by omega), foldl_move_of_outside hout]
    exact congrArg (BitVec.setWidth 32) (himg i (by omega))

end Load

def relocatedBinary : List Byte :=
  [0x60, 0x1a, 0, 0, 0, 16] ++ List.replicate 22 0 ++ List.replicate 16 0x11 ++ encodeTable [4, 12]

theorem relocation_decodes_two :
    ∃ te m, initTosEnvironment .little emptyHeap relocatedBinary [] none = .ok (te, m) ∧
      ∀ o ∈ [4, 12], (m68kReadMemory32 (BitVec.ofNat 32 (0x900 + o)) m).1 =
        BigEndian.pack ((relocatedBinary.drop (headerSize + o)).take 4) 0 + 0x900 := by
  have hspaced : Spaced [4, 12] := by simp [Spaced]
  have hend : segmentsEnd .little relocatedBinary = 44 := rfl
  have htable : relocatedBinary.drop 44 = encodeTable [4, 12] ++ [] := by
    rw [List.append_nil]
    exact List.drop_left' rfl
  obtain ⟨te, m, hload, hlongs, -⟩ := relocation_decodes emptyHeap relocatedBinary [] none [4, 12] []
    rfl (by decide) hspaced (by decide) (by decide) (by rw [hend, htable])
  exact ⟨te, m, hload, hlongs⟩

end Tosemu
