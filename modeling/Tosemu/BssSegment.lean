import Tosemu.Relocation

namespace Tosemu

open Relocation

section Sizes

variable (binary : List Byte)

def imageSize : ℕ := (fileLong .little binary 2).toNat + (fileLong .little binary 6).toNat

def bssSize : ℕ := (fileLong .little binary 10).toNat

def symbolSize : ℕ := (fileLong .little binary 14).toNat

end Sizes

def relocationTargets : List Byte → Long → List Long
  | [], _ => []
  | b :: table, adr =>
    if b = 0 then []
    else if b = 1 then relocationTargets table (adr + 0xfe)
    else (adr + b.setWidth 32) :: relocationTargets table (adr + b.setWidth 32)

def fileTargets (binary : List Byte) : List Long :=
  let first := fileLong .little binary (segmentsEnd .little binary)
  if first = 0 then []
  else (0x900 + first) ::
    relocationTargets (binary.drop (segmentsEnd .little binary + 4)) (0x900 + first)

def InImage (n : ℕ) (a : Long) : Prop := ∃ o, o + 4 ≤ n ∧ a = ramAddress o

structure WellFormed (binary : List Byte) : Prop where
  segments : segmentsEnd .little binary ≤ binary.length
  bss : imageSize binary + bssSize binary ≤ tosSize.toNat
  symbols : imageSize binary + symbolSize binary ≤ tosSize.toNat
  table : (binary.drop 26).take 2 ≠ [0, 0] ∨
    TableEnds .little binary ∧ ∀ a ∈ fileTargets binary, InImage (imageSize binary) a

structure Moved (n : ℕ) (m₀ m : Machine) : Prop where
  map : SameMap m₀ m
  byte : ∀ x, (∀ i < n, x ≠ ramAddress i) → memByte m.memory x = memByte m₀.memory x

section Moved

variable {n : ℕ} {m₀ m : Machine} {img : Image}

theorem Moved.refl (n : ℕ) (m : Machine) : Moved n m m := ⟨SameMap.refl m, fun _ _ => rfl⟩

theorem Moved.running (h : Moved n m₀ m) : Moved n m₀ { m with keepongoing := true } :=
  ⟨⟨h.map.cpu, h.map.dreg, h.map.areg, h.map.crashed, h.map.flags, h.map.mapped⟩, h.byte⟩

theorem Moved.fixup (h : Moved n m₀ m) (h₀ : Ram m₀ img) (hn : n ≤ tosSize.toNat) {a : Long}
    (ha : InImage n a) : Moved n m₀ (fixup a m) := by
  obtain ⟨o, ho, rfl⟩ := ha
  have hr : ∀ k < 4, Readable m (ramAddress o + BitVec.ofNat 32 k) := by
    intro k hk
    rw [h.map.readable_iff, ramAddress_add]
    exact h₀.readable (by omega)
  have hread : (m68kReadMemory32 (ramAddress o) m).2 = m := by
    rw [m68kReadMemory32, m68kReadDisassembler32, readLoop_readable _ _ _ _ hr]
  unfold Tosemu.fixup
  simp only [hread]
  constructor
  · exact h.map.trans (writeLoop_sameMap _ _ _ _)
  · intro x hx
    rw [← h.byte x hx]
    apply memByte_writeLoop_of_ne
    intro k hk he
    rw [ramAddress_add] at he
    exact absurd he (hx _ (by omega))

theorem relocateTable_moved (h : Moved n m₀ m) (h₀ : Ram m₀ img) (hn : n ≤ tosSize.toNat)
    {table : List Byte} {adr : Long} (hend : 0 ∈ table)
    (htargets : ∀ a ∈ relocationTargets table adr, InImage n a) :
    ∃ m', relocateTable table adr m = some m' ∧ Moved n m₀ m' := by
  induction table generalizing adr m with
  | nil => exact absurd hend List.not_mem_nil
  | cons b table ih =>
    rw [relocateTable]
    rw [relocationTargets] at htargets
    by_cases h0 : b = 0
    · rw [if_pos h0]
      exact ⟨m, rfl, h⟩
    · have hend' : 0 ∈ table := (List.mem_cons.mp hend).resolve_left (fun he => h0 he.symm)
      rw [if_neg h0] at htargets ⊢
      by_cases h1 : b = 1
      · rw [if_pos h1] at htargets ⊢
        exact ih h hend' htargets
      · rw [if_neg h1] at htargets ⊢
        have hadr := htargets _ List.mem_cons_self
        exact ih (h.fixup h₀ hn hadr) hend' (fun a ha => htargets a (List.mem_cons_of_mem _ ha))

theorem Moved.read_byte (h : Moved n m₀ m) (h₀ : Ram m₀ img) {i : ℕ} (hn : n ≤ i)
    (hi : i < tosSize.toNat) : (m68kReadMemory8 (ramAddress i) m).1 = (img i).setWidth 32 := by
  have hr : Readable m (ramAddress i) := (h.map.readable_iff _).mpr (h₀.readable hi)
  rw [m68kReadMemory8, m68kReadDisassembler8, tosRead, tosReadWith_readable _ hr, h.byte,
    h₀.byte i hi]
  · rfl
  intro k hk he
  have := congrArg BitVec.toNat he
  rw [ramAddress_toNat hi, ramAddress_toNat (by omega)] at this
  omega

end Moved

section Basepage

variable {te : TosEnvironment} {argv : List (List Byte)}

theorem getD_flatMap_bytes (host : Endian) (longs : List Long) {j k : ℕ} (hj : j < longs.length)
    (hk : k < 4) :
    (longs.flatMap host.bytes).getD (4 * j + k) 0 = (host.bytes longs[j]).getD k 0 := by
  induction longs generalizing j with
  | nil => simp at hj
  | cons v longs ih =>
    have hlen := host.bytes_length v
    rw [List.flatMap_cons]
    cases j with
    | zero =>
      rw [List.getD_append _ _ _ _ (by omega), Nat.mul_zero, Nat.zero_add]
      rfl
    | succ j =>
      have hs : 4 * (j + 1) + k - (host.bytes v).length = 4 * j + k := by omega
      rw [List.getD_append_right _ _ _ _ (by omega), hs, ih (by simpa using hj)]
      rfl

theorem pack_bytes_little (v : Long) :
    BigEndian.pack ((List.range 4).map (fun k => (Endian.little.bytes v).getD k 0)) 0 =
      endianize32 v := by
  rw [endianize32, endianize32With_eq]
  rfl

theorem registerAreas_basepage (b : TosBuffers) {m : Machine} (hm : m.memory = registerAreas b)
    {i : ℕ} (hi : i < 0x100) :
    memByte m.memory (BitVec.ofNat 32 (0x800 + i)) = some (b.bp.byte i) ∧
      memFlags m.memory (BitVec.ofNat 32 (0x800 + i)) = MEMORY_READWRITE := by
  have hnat : (BitVec.ofNat 32 (0x800 + i)).toNat = 0x800 + i := by
    rw [BitVec.toNat_ofNat, Nat.mod_eq_of_lt (by omega)]
  have hfind : findMemarea m.memory (BitVec.ofNat 32 (0x800 + i)) =
      some ⟨0x800, 0x100, .ptr b.bp, MEMORY_READWRITE⟩ := by
    rw [hm, findMemarea_registerAreas, hnat, tosLookup, if_neg (by omega), if_neg (by omega),
      if_neg (by omega), if_neg (by omega), if_pos (by omega)]
  have hindex : (BitVec.ofNat 32 (0x800 + i) - 0x800).toNat = i := by
    have hle : (0x800 : Long) ≤ BitVec.ofNat 32 (0x800 + i) := by
      rw [BitVec.le_def, hnat]
      exact Nat.le_add_right _ _
    rw [BitVec.toNat_sub_of_le hle, hnat]
    exact Nat.add_sub_cancel_left _ _
  constructor
  · simp only [memByte, hfind, Memarea.byteAt, Memarea.index, Option.bind_some, hindex]
  · rw [memFlags, hfind]
    rfl

theorem read_basepage {heap : Heap} {appmem : ℕ → Byte} {m : Machine} {j : ℕ}
    (hj : j < (prepareBasepage te argv).longs.length)
    (hflags : ∀ x, memFlags m.memory x =
      memFlags (mapEnvironment .little heap te argv appmem).memory x)
    (hbyte : ∀ k < 4, memByte m.memory (BitVec.ofNat 32 (0x800 + 4 * j) + BitVec.ofNat 32 k) =
      memByte (mapEnvironment .little heap te argv appmem).memory
        (BitVec.ofNat 32 (0x800 + 4 * j) + BitVec.ofNat 32 k)) :
    (m68kReadMemory32 (BitVec.ofNat 32 (0x800 + 4 * j)) m).1 =
      endianize32 (prepareBasepage te argv).longs[j] := by
  have hj' : j < 12 := hj
  have hlong : ∀ k < 4, memByte m.memory (BitVec.ofNat 32 (0x800 + 4 * j) + BitVec.ofNat 32 k) =
        some ((Endian.little.bytes (prepareBasepage te argv).longs[j]).getD k 0) ∧
      Readable m (BitVec.ofNat 32 (0x800 + 4 * j) + BitVec.ofNat 32 k) := by
    intro k hk
    obtain ⟨hb, hf⟩ := registerAreas_basepage _
      (m := mapEnvironment .little heap te argv appmem) rfl (i := 4 * j + k) (by omega)
    have hb' := hbyte k hk
    rw [← BitVec.ofNat_add, Nat.add_assoc] at hb' ⊢
    rw [hb] at hb'
    refine ⟨hb'.trans (congrArg some ?_), Readable.of_readwrite (by rw [hb']; rfl) ((hflags _).trans hf)⟩
    exact (if_pos (by omega)).trans (getD_flatMap_bytes .little _ hj hk)
  rw [m68kReadMemory32, m68kReadDisassembler32, readLoop_readable _ _ _ _ (fun k hk => (hlong k hk).2),
    ← pack_bytes_little]
  refine congrArg (fun bytes => BigEndian.pack bytes 0) (List.map_congr_left fun k hk => ?_)
  rw [(hlong k (List.mem_range.mp hk)).1]
  rfl

theorem Moved.read_basepage {n : ℕ} {heap : Heap} {appmem : ℕ → Byte} {m : Machine}
    (h : Moved n (mapEnvironment .little heap te argv appmem) m) (hn : n ≤ tosSize.toNat) {j : ℕ}
    (hj : j < (prepareBasepage te argv).longs.length) :
    (m68kReadMemory32 (BitVec.ofNat 32 (0x800 + 4 * j)) m).1 =
      endianize32 (prepareBasepage te argv).longs[j] := by
  have hj' : j < 12 := hj
  apply Tosemu.read_basepage hj h.map.flags
  intro k hk
  apply h.byte
  intro i hi he
  have := congrArg BitVec.toNat he
  rw [ramAddress_toNat (by omega), ← BitVec.ofNat_add, BitVec.toNat_ofNat, Nat.mod_eq_of_lt (by omega)] at this
  omega

end Basepage

section Load

variable {heap : Heap} {binary : List Byte} {argv : List (List Byte)}
  {tosBasePath : Option (List Byte)}

theorem relocate_moved (tosBasePath : Option (List Byte)) {m : Machine} {img : Image} (h₀ : Ram m img)
    (hn : imageSize binary ≤ tosSize.toNat) (hend : TableEnds .little binary)
    (htargets : ∀ a ∈ fileTargets binary, InImage (imageSize binary) a) :
    ∃ m', relocate .little binary (fileEnvironment .little binary tosBasePath) m = .ok m' ∧
      Moved (imageSize binary) m m' := by
  obtain ⟨hlen, hzero⟩ := hend
  rw [relocate_eq m hlen]
  rw [fileTargets] at htargets
  by_cases hfirst : fileLong .little binary (segmentsEnd .little binary) = 0
  · rw [if_pos hfirst]
    exact ⟨m, rfl, Moved.refl _ m⟩
  · simp only [if_neg hfirst] at htargets ⊢
    have hmoved := (Moved.refl (imageSize binary) m).fixup h₀ hn (htargets _ List.mem_cons_self)
    obtain ⟨m', hm', h⟩ := relocateTable_moved hmoved h₀ hn (hzero.resolve_left hfirst)
      (fun a ha => htargets a (List.mem_cons_of_mem _ ha))
    exact ⟨m', by rw [hm'], h⟩

theorem segmentsEnd_eq (binary : List Byte) :
    segmentsEnd .little binary = headerSize + imageSize binary + symbolSize binary := by
  simp only [segmentsEnd, imageSize, symbolSize, Nat.add_assoc]

theorem WellFormed.copyLength_toNat (h : WellFormed binary) :
    (copyLength .little binary).toNat = imageSize binary + symbolSize binary := by
  have hend := segmentsEnd_eq binary
  have hsymbols := h.symbols
  have := Tosemu.copyLength_toNat binary (by omega)
  omega

theorem WellFormed.load (h : WellFormed binary) (heap : Heap) (argv : List (List Byte))
    (tosBasePath : Option (List Byte)) :
    ∃ m, initTosEnvironment .little heap binary argv tosBasePath =
        .ok (fileEnvironment .little binary tosBasePath, m) ∧
      Moved (imageSize binary) (mapEnvironment .little heap (fileEnvironment .little binary tosBasePath)
        argv (fileAppmem .little heap binary)) m := by
  have hend := segmentsEnd_eq binary
  have hcopy := h.copyLength_toNat
  have hsegments := h.segments
  have hsymbols := h.symbols
  rw [initTosEnvironment_eq (by omega), copySegments_ok (by omega) (by omega)]
  simp only [bind, Except.bind]
  by_cases habs : (binary.drop 26).take 2 ≠ [0, 0]
  · rw [if_pos habs]
    exact ⟨_, rfl, (Moved.refl _ _).running⟩
  · obtain ⟨ht, htargets⟩ := h.table.resolve_left habs
    obtain ⟨m, hm, hmoved⟩ := relocate_moved tosBasePath
      (registerAreas_ram _ (m := mapEnvironment .little heap (fileEnvironment .little binary tosBasePath)
        argv (fileAppmem .little heap binary)) rfl) (by omega) ht htargets
    rw [if_neg habs, hm]
    exact ⟨_, rfl, hmoved.running⟩

end Load

theorem setWidth_eq_zero (b : Byte) : b.setWidth 32 = (0 : Long) ↔ b = 0 := by
  constructor
  · intro h
    have := congrArg BitVec.toNat h
    rw [BitVec.toNat_setWidth, Nat.mod_eq_of_lt (b.isLt.trans (by decide))] at this
    exact BitVec.eq_of_toNat_eq this
  · rintro rfl
    rfl

/-- The part of the symbol table that is copied into the BSS is zero, and so is what `malloc` left
in the rest of it. -/
def CoversZero (heap : Heap) (binary : List Byte) : Prop :=
  (∀ i < bssSize binary, i < symbolSize binary →
    binary.getD (headerSize + imageSize binary + i) 0 = 0) ∧
  ∀ i < bssSize binary, symbolSize binary ≤ i → heap.appmem (imageSize binary + i) = 0

theorem bss_empty_iff (heap : Heap) (binary : List Byte) (argv : List (List Byte))
    (tosBasePath : Option (List Byte)) (h : WellFormed binary) :
    ∃ te m, initTosEnvironment .little heap binary argv tosBasePath = .ok (te, m) ∧
      ((∀ k < (m68kReadMemory32 0x81c m).1.toNat,
          (m68kReadMemory8 ((m68kReadMemory32 0x818 m).1 + BitVec.ofNat 32 k) m).1 = 0) ↔
        CoversZero heap binary) := by
  obtain ⟨m, hload, hmoved⟩ := h.load heap argv tosBasePath
  have hsize := tosSize_toNat
  have hbss := h.bss
  have hcopy := h.copyLength_toNat
  have hblen : (m68kReadMemory32 0x81c m).1 = fileLong .little binary 10 :=
    (hmoved.read_basepage (by omega) (j := 7) (by simp [Basepage.longs])).trans (endianize32_involutive _)
  have hbbase : (m68kReadMemory32 0x818 m).1 = ramAddress (imageSize binary) := by
    have hlong : (m68kReadMemory32 0x818 m).1 =
        endianize32 (prepareBasepage (fileEnvironment .little binary tosBasePath) argv).pBbase :=
      hmoved.read_basepage (by omega) (j := 6) (by simp [Basepage.longs])
    simp only [prepareBasepage, endianize32_involutive, fileEnvironment] at hlong
    have hbase : (0x900 : Long).toNat = 0x900 := rfl
    refine hlong.trans (BitVec.eq_of_toNat_eq ?_)
    rw [ramAddress, imageSize, BitVec.toNat_add, BitVec.toNat_add, BitVec.toNat_ofNat, hbase]
    omega
  have hread : ∀ k < bssSize binary,
      ((m68kReadMemory8 (ramAddress (imageSize binary) + BitVec.ofNat 32 k) m).1 = 0 ↔
        fileAppmem .little heap binary (imageSize binary + k) = 0) := by
    intro k hk
    rw [ramAddress_add, hmoved.read_byte (registerAreas_ram _ rfl) (Nat.le_add_right _ _) (by omega)]
    exact setWidth_eq_zero _
  refine ⟨_, m, hload, ?_⟩
  rw [hblen, hbbase]
  constructor
  · intro hzero
    constructor
    · intro i hi hs
      have := (hread i hi).mp (hzero i hi)
      rwa [fileAppmem, if_pos (by omega), ← Nat.add_assoc] at this
    · intro i hi hs
      have := (hread i hi).mp (hzero i hi)
      rwa [fileAppmem, if_neg (by omega)] at this
  · rintro ⟨hsymbols, hheap⟩ k hk
    rw [hread k hk]
    by_cases hs : k < symbolSize binary
    · rw [fileAppmem, if_pos (by omega), ← Nat.add_assoc]
      exact hsymbols k hk hs
    · rw [fileAppmem, if_neg (by omega)]
      exact hheap k hk (by omega)

/-- Two longwords to move, eight bytes of BSS and four of symbols, which are zeros. -/
def bssBinary : List Byte :=
  [0x60, 0x1a, 0, 0, 0, 16] ++ List.replicate 7 0 ++ [8, 0, 0, 0, 4] ++ List.replicate 10 0 ++
    List.replicate 16 0x11 ++ List.replicate 4 0 ++ [0, 0, 0, 4, 8, 0]

def dirtyHeap : Heap := { emptyHeap with appmem := fun i => if 20 ≤ i ∧ i < 24 then 0 else 0xff }

theorem bssBinary_wellFormed : WellFormed bssBinary where
  segments := by decide
  bss := by decide
  symbols := by decide
  table := by
    have htargets : fileTargets bssBinary = [ramAddress 4, ramAddress 12] := by decide
    refine Or.inr ⟨⟨by decide, Or.inr (by decide)⟩, fun a ha => ?_⟩
    rw [htargets] at ha
    rcases List.mem_pair.mp ha with rfl | rfl
    · exact ⟨4, by decide, rfl⟩
    · exact ⟨12, by decide, rfl⟩

theorem bss_empty_two : ∃ te m, initTosEnvironment .little dirtyHeap bssBinary [] none = .ok (te, m) ∧
    ∀ k < (m68kReadMemory32 0x81c m).1.toNat,
      (m68kReadMemory8 ((m68kReadMemory32 0x818 m).1 + BitVec.ofNat 32 k) m).1 = 0 := by
  obtain ⟨te, m, hload, hbss⟩ := bss_empty_iff dirtyHeap bssBinary [] none bssBinary_wellFormed
  have hsizes : bssSize bssBinary = 8 ∧ symbolSize bssBinary = 4 ∧ imageSize bssBinary = 16 := by decide
  refine ⟨te, m, hload, hbss.mpr ⟨?_, fun i hi hs => ?_⟩⟩
  · decide
  · exact if_pos (by omega)

def symbolBinary : List Byte :=
  [0x60, 0x1a] ++ List.replicate 11 0 ++ [8, 0, 0, 0, 4] ++ List.replicate 9 0 ++ [1] ++
    [0x73, 0x79, 0x6d, 0]

def staleHeap : Heap := { emptyHeap with appmem := fun _ => 0xff }

theorem symbols_in_bss :
    WellFormed symbolBinary ∧
      ∃ te m, initTosEnvironment .little staleHeap symbolBinary [] none = .ok (te, m) ∧
        (m68kReadMemory32 0x818 m).1 = 0x900 ∧ (m68kReadMemory32 0x81c m).1 = 8 ∧
        (m68kReadMemory8 0x900 m).1 = 0x73 ∧ (m68kReadMemory8 0x904 m).1 = 0xff := by
  refine ⟨⟨by decide, by decide, by decide, Or.inl (by decide)⟩, _, _, rfl, ?_⟩
  decide

end Tosemu
