import Mathlib.Tactic.SplitIfs
import Tosemu.Loader

namespace Tosemu

def fileLong (host : Endian) (binary : List Byte) (i : ℕ) : Long :=
  endianize32 (host.load ((binary.drop i).take 4))

def fileHeader (host : Endian) (binary : List Byte) : ExecHeader where
  tsize := host.load ((binary.drop 2).take 4)
  dsize := host.load ((binary.drop 6).take 4)
  bsize := host.load ((binary.drop 10).take 4)
  ssize := host.load ((binary.drop 14).take 4)
  absflag := (binary.drop 26).take 2 ≠ [0, 0]

theorem take_two {l : List Byte} {i : ℕ} (h : i + 2 ≤ l.length) :
    (l.drop i).take 2 = [l[i], l[i + 1]] := by
  rw [List.drop_eq_getElem_cons (by omega), List.drop_eq_getElem_cons (by omega)]
  rfl

theorem take_four {l : List Byte} {i : ℕ} (h : i + 4 ≤ l.length) :
    (l.drop i).take 4 = [l[i], l[i + 1], l[i + 2], l[i + 3]] := by
  rw [List.drop_eq_getElem_cons (by omega), List.drop_eq_getElem_cons (by omega),
    List.drop_eq_getElem_cons (by omega), List.drop_eq_getElem_cons (by omega)]
  rfl

theorem readBinary_ok {binary : List Byte} {i : ℕ} (h : i < binary.length) :
    readBinary binary i = .ok binary[i] := by
  simp [readBinary, h]

theorem readBinary_error {binary : List Byte} {i : ℕ} (h : ¬ i < binary.length) :
    readBinary binary i = .error (.binary i) := by
  rw [readBinary, List.getElem?_eq_none (by omega)]

theorem readShort_ok {binary : List Byte} {i : ℕ} (h : i + 2 ≤ binary.length) :
    readShort binary i = .ok ((binary.drop i).take 2) := by
  rw [readShort, readBinary_ok (by omega), readBinary_ok (by omega), take_two h]
  rfl

theorem readLong_ok {host : Endian} {binary : List Byte} {i : ℕ} (h : i + 4 ≤ binary.length) :
    readLong host binary i = .ok (host.load ((binary.drop i).take 4)) := by
  rw [readLong, readBinary_ok (by omega), readBinary_ok (by omega), readBinary_ok (by omega),
    readBinary_ok (by omega), take_four h]
  rfl

theorem readLong_error (host : Endian) {binary : List Byte} {i : ℕ} (h : ¬ i + 4 ≤ binary.length) :
    ∃ j, readLong host binary i = .error (.binary j) := by
  by_cases h0 : i < binary.length
  · by_cases h1 : i + 1 < binary.length
    · by_cases h2 : i + 2 < binary.length
      · refine ⟨i + 3, ?_⟩
        rw [readLong, readBinary_ok h0, readBinary_ok h1, readBinary_ok h2,
          readBinary_error (i := i + 3) (by omega)]
        rfl
      · refine ⟨i + 2, ?_⟩
        rw [readLong, readBinary_ok h0, readBinary_ok h1, readBinary_error h2]
        rfl
    · refine ⟨i + 1, ?_⟩
      rw [readLong, readBinary_ok h0, readBinary_error h1]
      rfl
  · refine ⟨i, ?_⟩
    rw [readLong, readBinary_error h0]
    rfl

theorem readHeader_ok {host : Endian} {binary : List Byte} (h : headerSize ≤ binary.length) :
    readHeader host binary = .ok (fileHeader host binary) := by
  simp only [headerSize] at h
  rw [readHeader, readLong_ok (by omega), readLong_ok (by omega), readLong_ok (by omega),
    readLong_ok (by omega), readShort_ok (by omega)]
  rfl

theorem relocateTable_isSome (table : List Byte) (adr : Long) (m : Machine) :
    (relocateTable table adr m).isSome ↔ 0 ∈ table := by
  induction table generalizing adr m with
  | nil => simp [relocateTable]
  | cons b table ih =>
    rw [relocateTable, List.mem_cons]
    by_cases h0 : b = 0
    · simp [h0]
    · rw [if_neg h0]
      have hb : (0 : Byte) ≠ b := fun h => h0 h.symm
      by_cases h1 : b = 1
      · rw [if_pos h1, ih, or_iff_right hb]
      · rw [if_neg h1, ih, or_iff_right hb]

def SizesFit (te : TosEnvironment) (argv : List (List Byte)) : Prop :=
  let bp := prepareBasepage te argv
  (endianize32 bp.pTbase).toNat + te.tsize.toNat + te.dsize.toNat + te.bsize.toNat ≤
    (endianize32 bp.pHitpa).toNat

def Bounded (argv : List (List Byte)) : Load (TosEnvironment × Machine) → Prop
  | .error (.refused code) => code ≠ 0
  | .error (.binary _) => False
  | .error (.appmem _) => False
  | .ok (te, _) => SizesFit te argv

section Condition

variable (host : Endian) (binary : List Byte)

def segmentsEnd : ℕ :=
  headerSize + (fileLong host binary 2).toNat + (fileLong host binary 6).toNat +
    (fileLong host binary 14).toNat

def copyLength : Long := fileLong host binary 2 + fileLong host binary 6 + fileLong host binary 14

/-- The relocation data is complete: its first longword and, unless that is zero, a zero byte behind
it lie in the file. -/
def TableEnds : Prop :=
  segmentsEnd host binary + 4 ≤ binary.length ∧
    (fileLong host binary (segmentsEnd host binary) = 0 ∨
      0 ∈ binary.drop (segmentsEnd host binary + 4))

def Contained : Prop :=
  headerSize + (copyLength host binary).toNat ≤ binary.length ∧
    (copyLength host binary).toNat ≤ tosSize.toNat ∧
    (fileLong host binary 2).toNat + (fileLong host binary 6).toNat +
      (fileLong host binary 10).toNat ≤ tosSize.toNat ∧
    ((binary.drop 26).take 2 ≠ [0, 0] ∨ TableEnds host binary)

def LoadsWithin : Prop :=
  binary ≠ [] ∧ (binary.headD 0 ≠ 0x60 ∨ binary.getD 1 0 ≠ 0x1a ∨ binary.length < headerSize ∨
    Contained host binary)

end Condition

theorem sizesFit_iff (te : TosEnvironment) (argv : List (List Byte)) (h : te.size = tosSize) :
    SizesFit te argv ↔ te.tsize.toNat + te.dsize.toNat + te.bsize.toNat ≤ tosSize.toNat := by
  have hlo : (0x900 : Long).toNat = 0x900 := rfl
  have hhi : ((tosSize + 0x900).setWidth 32).toNat = 0x900 + tosSize.toNat := by decide
  simp only [SizesFit, prepareBasepage, endianize32_involutive, h, hlo, hhi]
  omega

def fileEnvironment (host : Endian) (binary : List Byte) (tosBasePath : Option (List Byte)) :
    TosEnvironment where
  size := tosSize
  tsize := fileLong host binary 2
  dsize := fileLong host binary 6
  bsize := fileLong host binary 10
  ssize := fileLong host binary 14
  basePath := basePath tosBasePath

def fileAppmem (host : Endian) (heap : Heap) (binary : List Byte) : ℕ → Byte := fun i =>
  if i < (copyLength host binary).toNat then binary.getD (headerSize + i) 0 else heap.appmem i

section Load

variable {host : Endian} {heap : Heap} {binary : List Byte} {argv : List (List Byte)}
  {tosBasePath : Option (List Byte)}

theorem relocate_eq (m : Machine) (h : segmentsEnd host binary + 4 ≤ binary.length) :
    relocate host binary (fileEnvironment host binary tosBasePath) m =
      if fileLong host binary (segmentsEnd host binary) = 0 then .ok m
      else match relocateTable (binary.drop (segmentsEnd host binary + 4))
          (0x900 + fileLong host binary (segmentsEnd host binary))
          (fixup (0x900 + fileLong host binary (segmentsEnd host binary)) m) with
        | some m' => .ok m'
        | none => .error (.binary binary.length) := by
  have hadr : ∀ x : Long, 0x900 + x = 0x900 ↔ x = 0 := fun x =>
    ⟨fun hx => (BitVec.add_right_inj 0x900).mp (hx.trans (BitVec.add_zero _).symm), by rintro rfl; rfl⟩
  unfold relocate
  simp only [fileEnvironment]
  rw [← segmentsEnd, readLong_ok h]
  simp only [bind, Except.bind, hadr]
  rfl

theorem initTosEnvironment_eq (h : headerSize ≤ binary.length) :
    initTosEnvironment host heap binary argv tosBasePath = (do
      let te := fileEnvironment host binary tosBasePath
      let appmem ← copySegments tosSize heap.appmem binary (copyLength host binary)
      let m := mapEnvironment host heap te argv appmem
      let m ← if (binary.drop 26).take 2 ≠ [0, 0] then .ok m else relocate host binary te m
      return (te, { m with keepongoing := true })) := by
  rw [initTosEnvironment, if_neg (by omega), readHeader_ok h]
  simp only [bind, Except.bind, pure, Except.pure, fileHeader, decide_eq_true_eq]
  rfl

theorem relocate_cases (tosBasePath : Option (List Byte)) (m : Machine) :
    (TableEnds host binary ∧
      ∃ m', relocate host binary (fileEnvironment host binary tosBasePath) m = .ok m') ∨
    (¬ TableEnds host binary ∧
      ∃ j, relocate host binary (fileEnvironment host binary tosBasePath) m = .error (.binary j)) := by
  by_cases h : segmentsEnd host binary + 4 ≤ binary.length
  · rw [relocate_eq m h]
    by_cases h0 : fileLong host binary (segmentsEnd host binary) = 0
    · rw [if_pos h0]
      exact Or.inl ⟨⟨h, Or.inl h0⟩, m, rfl⟩
    · rw [if_neg h0]
      have hz := relocateTable_isSome (binary.drop (segmentsEnd host binary + 4))
        (0x900 + fileLong host binary (segmentsEnd host binary))
        (fixup (0x900 + fileLong host binary (segmentsEnd host binary)) m)
      cases hr : relocateTable (binary.drop (segmentsEnd host binary + 4))
          (0x900 + fileLong host binary (segmentsEnd host binary))
          (fixup (0x900 + fileLong host binary (segmentsEnd host binary)) m) with
      | some m' =>
        rw [hr] at hz
        exact Or.inl ⟨⟨h, Or.inr (hz.mp rfl)⟩, m', rfl⟩
      | none =>
        rw [hr] at hz
        exact Or.inr ⟨fun ht => ht.2.elim h0 (fun hm => absurd (hz.mpr hm) (by simp)), _, rfl⟩
  · right
    obtain ⟨j, hj⟩ := readLong_error host h
    refine ⟨fun ht => h ht.1, j, ?_⟩
    unfold relocate
    simp only [fileEnvironment]
    rw [← segmentsEnd, hj]
    rfl

theorem copySegments_ok (hfile : headerSize + (copyLength host binary).toNat ≤ binary.length)
    (hmem : (copyLength host binary).toNat ≤ tosSize.toNat) :
    copySegments tosSize heap.appmem binary (copyLength host binary) =
      .ok (fileAppmem host heap binary) := by
  rw [copySegments, if_neg (by omega), if_neg (by omega)]
  rfl

theorem initTosEnvironment_bounded_iff (h : headerSize ≤ binary.length) :
    Bounded argv (initTosEnvironment host heap binary argv tosBasePath) ↔ Contained host binary := by
  have hfit := sizesFit_iff (fileEnvironment host binary tosBasePath) argv rfl
  rw [initTosEnvironment_eq h]
  by_cases hfile : headerSize + (copyLength host binary).toNat ≤ binary.length
  · by_cases hmem : (copyLength host binary).toNat ≤ tosSize.toNat
    · rw [copySegments_ok hfile hmem, Contained, and_iff_right hfile, and_iff_right hmem]
      simp only [bind, Except.bind]
      by_cases habs : (binary.drop 26).take 2 ≠ [0, 0]
      · rw [if_pos habs, and_iff_left (Or.inl habs)]
        exact hfit
      · rw [if_neg habs, or_iff_right habs]
        obtain ⟨ht, m, hm⟩ | ⟨ht, j, hm⟩ := relocate_cases tosBasePath
          (mapEnvironment host heap (fileEnvironment host binary tosBasePath) argv
            (fileAppmem host heap binary))
        · rw [hm, and_iff_left ht]
          exact hfit
        · rw [hm]
          exact iff_of_false id (fun hc => ht hc.2)
    · rw [copySegments, if_neg (by omega), if_pos (by omega)]
      exact iff_of_false id (fun hc => hmem hc.2.1)
  · rw [copySegments, if_pos (by omega)]
    exact iff_of_false id (fun hc => hfile hc.1)

theorem load_bounded_iff (host : Endian) (heap : Heap) (binary : List Byte)
    (argv : List (List Byte)) (tosBasePath : Option (List Byte)) :
    Bounded argv (loadBinary host heap binary argv tosBasePath) ↔ LoadsWithin host binary := by
  cases binary with
  | nil => exact iff_of_false id (fun hl => hl.1 rfl)
  | cons b0 rest =>
    have hcode : Bounded argv (.error (.refused (-1))) := show (-1 : Int) ≠ 0 by decide
    have hb1 : (b0 :: rest).getD 1 0 = rest.headD 0 := by cases rest <;> rfl
    simp only [loadBinary, LoadsWithin, hb1, List.headD_cons, ne_eq, reduceCtorEq, not_false_eq_true,
      true_and]
    by_cases hmagic : ¬ b0 = 0x60 ∨ ¬ rest.headD 0 = 0x1a
    · rw [if_pos hmagic, ← or_assoc]
      exact iff_of_true hcode (Or.inl hmagic)
    · rw [if_neg hmagic, ← or_assoc, or_iff_right hmagic]
      by_cases hlen : (b0 :: rest).length < headerSize
      · rw [initTosEnvironment, if_pos hlen]
        exact iff_of_true hcode (Or.inl hlen)
      · rw [or_iff_right hlen]
        exact initTosEnvironment_bounded_iff (by omega)

end Load

def emptyHeap : Heap where
  staticmem0 := fun _ => 0
  staticmem1 := fun _ => 0
  supermem := fun _ => 0
  appmem := fun _ => 0

def bareHeader : List Byte := 0x60 :: 0x1a :: List.replicate 26 0

theorem bare_header_read_past_end :
    loadBinary .little emptyHeap bareHeader [] none = .error (.binary 28) ∧
      ¬ ∀ binary, Bounded [] (loadBinary .little emptyHeap binary [] none) := by
  have h : loadBinary .little emptyHeap bareHeader [] none = .error (.binary 28) := by rfl
  refine ⟨h, fun hall => ?_⟩
  have hb := hall bareHeader
  rw [h] at hb
  exact hb

end Tosemu
