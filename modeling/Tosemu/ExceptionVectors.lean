import Tosemu.Runs
import Tosemu.UserIsolation

namespace Tosemu

open Runs (storeStep latest run_storeStep)

abbrev ExcCall := BitVec 16 × Long

def excAddress (nm : BitVec 16) : Long := 4 * nm.setWidth 32

def biosSetexc (m : Machine) (c : ExcCall) : Long × Machine :=
  let old := m68kReadMemory32 (excAddress c.1) m
  (old.1, m68kWriteMemory32 (excAddress c.1) c.2 old.2)

def excVector (memory : List Memarea) (nm : BitVec 16) : Long :=
  BigEndian.pack ((List.range 4).map
    (fun i => (memByte memory (excAddress nm + BitVec.ofNat 32 i)).getD 0)) 0

theorem excAddress_toNat (nm : BitVec 16) {i : ℕ} (hi : i < 4) :
    (excAddress nm + BitVec.ofNat 32 i).toNat = 4 * nm.toNat + i := by
  have hnm := nm.isLt
  have h4 : (4 : Long).toNat = 4 := rfl
  simp only [excAddress, BitVec.toNat_add, BitVec.toNat_mul, BitVec.toNat_setWidth,
    BitVec.toNat_ofNat, h4]
  omega

theorem excAddress_ne {nm nm' : BitVec 16} (h : nm' ≠ nm) {i j : ℕ} (hi : i < 4) (hj : j < 4) :
    excAddress nm' + BitVec.ofNat 32 i ≠ excAddress nm + BitVec.ofNat 32 j := by
  intro he
  have ht := congrArg BitVec.toNat he
  rw [excAddress_toNat nm' hi, excAddress_toNat nm hj] at ht
  exact h (BitVec.eq_of_toNat_eq (by omega))

section Page

variable {b : TosBuffers} {m : Machine}

theorem page_lookup (hm : m.memory = registerAreas b) {x : Long} (hx : x.toNat < 0x200) :
    findMemarea m.memory x = if x.toNat < 0x1ff then
      some ⟨0x0, 0x1ff, .ptr b.staticmem0, MEMORY_READWRITE ||| MEMORY_SUPERWRITE⟩ else none := by
  rw [hm, findMemarea_registerAreas, tosLookup]
  split_ifs <;> first | rfl | omega

theorem page_readable_iff (hm : m.memory = registerAreas b) {x : Long} (hx : x.toNat < 0x200) :
    Readable m x ↔ x.toNat < 0x1ff := by
  rw [Readable, memByte, memFlags, page_lookup hm hx, Machine.readMask]
  split_ifs with h <;> simp [h, Memarea.byteAt] <;> decide

theorem page_writable_iff (hm : m.memory = registerAreas b) {x : Long} (hx : x.toNat < 0x200) :
    Writable m x ↔ x.toNat < 0x1ff := by
  rw [Writable, memByte, memFlags, page_lookup hm hx, Machine.writeMask]
  split_ifs with h <;> simp [h, Memarea.byteAt] <;> decide

theorem page_plain (hm : m.memory = registerAreas b) {x : Long} (hx : x.toNat < 0x200) :
    Plain m x := by
  intro hnone
  rw [memByte, page_lookup hm hx] at hnone
  rw [memFlags, page_lookup hm hx]
  split_ifs at hnone ⊢ with h
  · exact absurd hnone (by simp [Memarea.byteAt])
  · exact BitVec.zero_and

end Page

section Setexc

variable {b : TosBuffers} {m : Machine} {nm : BitVec 16}

theorem biosSetexc_page (hm : m.memory = registerAreas b) (hn : nm.toNat < 128) (vec : Long) :
    ∃ old ok, biosSetexc m (nm, vec) =
      (old, writeLoop 4 (excAddress nm) vec (haltUnless ok m)) := by
  have hplain : ∀ i < 4, Plain m (excAddress nm + BitVec.ofNat 32 i) := by
    intro i hi
    apply page_plain hm
    rw [excAddress_toNat nm hi]
    omega
  have hread := readLoop_plain 4 (excAddress nm) 0 m hplain
  exact ⟨_, _, by rw [biosSetexc, m68kReadMemory32, m68kReadDisassembler32, hread]; rfl⟩

theorem biosSetexc_registerAreas (hm : m.memory = registerAreas b) (hn : nm.toNat < 128) (vec : Long) :
    ∃ b', (biosSetexc m (nm, vec)).2.memory = registerAreas b' := by
  obtain ⟨old, ok, he⟩ := biosSetexc_page hm hn vec
  rw [he]
  exact writeLoop_registerAreas (m := haltUnless ok m) hm 4 _ _

theorem biosSetexc_last (hm : m.memory = registerAreas b) (hn : nm.toNat = 127) (vec : Long) :
    (biosSetexc m (nm, vec)).2.keepongoing = false := by
  obtain ⟨old, ok, he⟩ := biosSetexc_page hm (by omega : nm.toNat < 128) vec
  have hbad : ¬ Writable (haltUnless ok m) (excAddress nm + BitVec.ofNat 32 3) := by
    rw [page_writable_iff (m := haltUnless ok m) hm] <;> rw [excAddress_toNat nm (by decide)] <;> omega
  rw [he, writeLoop_keepongoing, decide_eq_false (fun h => hbad (h 3 (by decide))), Bool.and_false]

theorem biosSetexc_eq (hm : m.memory = registerAreas b) (hn : nm.toNat < 127) (vec : Long) :
    biosSetexc m (nm, vec) = (excVector m.memory nm, writeLoop 4 (excAddress nm) vec m) := by
  have hr : ∀ i < 4, Readable m (excAddress nm + BitVec.ofNat 32 i) := by
    intro i hi
    rw [page_readable_iff hm] <;> rw [excAddress_toNat nm hi] <;> omega
  rw [biosSetexc, m68kReadMemory32, m68kReadDisassembler32, readLoop_readable 4 _ 0 m hr]
  rfl

theorem excVector_writeLoop (hm : m.memory = registerAreas b) (hn : nm.toNat < 127) (vec : Long) :
    excVector (writeLoop 4 (excAddress nm) vec m).memory =
      Function.update (excVector m.memory) nm vec := by
  funext nm'
  by_cases h : nm' = nm
  · subst h
    have hbytes : ∀ i < 4, memByte (writeLoop 4 (excAddress nm') vec m).memory
        (excAddress nm' + BitVec.ofNat 32 i) = (BigEndian.unpack vec 4)[i]? := by
      intro i hi
      have hw : Writable m (excAddress nm' + BitVec.ofNat 32 i) := by
        rw [page_writable_iff hm] <;> rw [excAddress_toNat nm' hi] <;> omega
      exact memByte_writeLoop _ _ _ _ hi (by decide) hw
    rw [Function.update_self, excVector, map_memByte (BigEndian.unpack_length vec 4) hbytes,
      BigEndian.pack_unpack_eq (by decide)]
  · rw [Function.update_of_ne h, excVector, excVector]
    congr 1
    apply List.map_congr_left
    intro i hi
    have hi4 : i < 4 := List.mem_range.mp hi
    rw [memByte_writeLoop_of_ne _ _ _ _ (fun j hj he => absurd he (excAddress_ne h hi4 hj))]

theorem biosSetexc_outside (hm : m.memory = registerAreas b) (hn : nm.toNat < 128) (vec : Long)
    {x : Long} (hx : 0x200 ≤ x.toNat) :
    memByte (biosSetexc m (nm, vec)).2.memory x = memByte m.memory x := by
  obtain ⟨old, ok, he⟩ := biosSetexc_page hm hn vec
  rw [he]
  apply memByte_writeLoop_of_ne
  intro i hi hxi
  rw [hxi, excAddress_toNat nm hi] at hx
  omega

end Setexc

structure SetexcStep (m : Machine) (c : ExcCall) : Prop where
  keepongoing : (biosSetexc m c).2.keepongoing = true
  others : ∀ nm, nm.toNat < 128 → nm ≠ c.1 →
    excVector (biosSetexc m c).2.memory nm = excVector m.memory nm
  outside : ∀ x : Long, 0x200 ≤ x.toNat →
    memByte (biosSetexc m c).2.memory x = memByte m.memory x

def VectorStore (m : Machine) (calls : List ExcCall) : Prop :=
  Runs.Along biosSetexc SetexcStep m calls ∧
    ∀ earlier c later, calls = earlier ++ c :: later →
      (biosSetexc (Runs.run biosSetexc m earlier) c).1 = latest (excVector m.memory) earlier c.1

theorem setexcStep {b : TosBuffers} {m : Machine} (hm : m.memory = registerAreas b)
    (hk : m.keepongoing = true) {c : ExcCall} (hc : c.1.toNat < 127) : SetexcStep m c := by
  have he := biosSetexc_eq hm hc c.2
  have hv := excVector_writeLoop hm hc c.2
  refine ⟨?_, ?_, fun x hx => biosSetexc_outside hm (by omega) c.2 hx⟩
  · rw [he, writeLoop_keepongoing, hk, Bool.true_and, decide_eq_true_iff]
    intro i hi
    rw [page_writable_iff hm] <;> rw [excAddress_toNat c.1 hi] <;> omega
  · intro nm _ hne
    rw [he, hv, Function.update_of_ne hne]

theorem setexc_along {b : TosBuffers} {m : Machine} (hm : m.memory = registerAreas b)
    (hk : m.keepongoing = true) {calls : List ExcCall} (hc : ∀ c ∈ calls, c.1.toNat < 127) :
    Runs.Along biosSetexc SetexcStep m calls := by
  induction calls generalizing b m with
  | nil => trivial
  | cons c calls ih =>
    have hc0 := hc c List.mem_cons_self
    have hstep := setexcStep hm hk hc0
    obtain ⟨b', hb'⟩ := biosSetexc_registerAreas hm (by omega : c.1.toNat < 128) c.2
    exact ⟨hstep, ih hb' hstep.keepongoing (fun d hd => hc d (List.mem_cons_of_mem _ hd))⟩

theorem excVector_run {b : TosBuffers} {m : Machine} (hm : m.memory = registerAreas b)
    {calls : List ExcCall} (hc : ∀ c ∈ calls, c.1.toNat < 127) :
    excVector (Runs.run biosSetexc m calls).memory = latest (excVector m.memory) calls ∧
      ∃ b', (Runs.run biosSetexc m calls).memory = registerAreas b' := by
  suffices key : excVector (Runs.run biosSetexc m calls).memory =
      Runs.run storeStep (excVector m.memory) calls ∧
        ∃ b', (Runs.run biosSetexc m calls).memory = registerAreas b' by
    refine ⟨?_, key.2⟩
    rw [key.1]
    funext nm
    exact run_storeStep _ _ _
  induction calls generalizing b m with
  | nil => exact ⟨rfl, b, hm⟩
  | cons c calls ih =>
    have hc0 := hc c List.mem_cons_self
    obtain ⟨b', hb'⟩ := biosSetexc_registerAreas hm (by omega : c.1.toNat < 128) c.2
    obtain ⟨hrun, hareas⟩ := ih hb' (fun d hd => hc d (List.mem_cons_of_mem _ hd))
    refine ⟨?_, hareas⟩
    rw [Runs.run, hrun, biosSetexc_eq hm hc0, excVector_writeLoop hm hc0]
    rfl

theorem along_not_last {b : TosBuffers} {m : Machine} (hm : m.memory = registerAreas b)
    {calls : List ExcCall} (hc : ∀ c ∈ calls, c.1.toNat < 128)
    (h : Runs.Along biosSetexc SetexcStep m calls) : ∀ c ∈ calls, c.1.toNat ≠ 127 := by
  induction calls generalizing b m with
  | nil => simp
  | cons c calls ih =>
    obtain ⟨hstep, hrest⟩ := h
    obtain ⟨b', hb'⟩ := biosSetexc_registerAreas hm (hc c List.mem_cons_self) c.2
    intro d hd
    rcases List.mem_cons.mp hd with rfl | hd
    · intro hlast
      have hhalt := biosSetexc_last hm hlast d.2
      rw [hstep.keepongoing] at hhalt
      exact Bool.false_ne_true hhalt.symm
    · exact ih hb' (fun d hd => hc d (List.mem_cons_of_mem _ hd)) hrest d hd

theorem setexc_store_iff (b : TosBuffers) (m : Machine) (hm : m.memory = registerAreas b)
    (hk : m.keepongoing = true) (calls : List ExcCall) (hc : ∀ c ∈ calls, c.1.toNat < 128) :
    VectorStore m calls ↔ ∀ c ∈ calls, c.1.toNat ≠ 127 := by
  constructor
  · exact fun h => along_not_last hm hc h.1
  · intro hlast
    have hlt : ∀ c ∈ calls, c.1.toNat < 127 := by
      intro c hmem
      have h128 := hc c hmem
      have hne := hlast c hmem
      omega
    refine ⟨setexc_along hm hk hlt, ?_⟩
    rintro earlier c later rfl
    have hearlier : ∀ d ∈ earlier, d.1.toNat < 127 :=
      fun d hd => hlt d (List.mem_append_left _ hd)
    obtain ⟨hvec, b', hb'⟩ := excVector_run hm hearlier
    rw [biosSetexc_eq hb' (hlt c (by simp)), hvec]

def vectorMachine : Machine := { coldMachine (supervisorFilled 0) with keepongoing := true }

theorem setexc_store_twice :
    VectorStore vectorMachine [(34, 0x12345678), (35, 0x900), (34, 0x1000)] :=
  (setexc_store_iff (supervisorFilled 0) vectorMachine rfl rfl
    [(34, 0x12345678), (35, 0x900), (34, 0x1000)] (by simp)).mpr (by simp)

theorem setexc_last_halts : ¬ (∀ b m, m.memory = registerAreas b → m.keepongoing = true →
    ∀ calls : List ExcCall, (∀ c ∈ calls, c.1.toNat < 128) → VectorStore m calls) ∧
    (biosSetexc vectorMachine (127, 0x12345678)).2.keepongoing = false := by
  have hhalt : (biosSetexc vectorMachine (127, 0x12345678)).2.keepongoing = false :=
    biosSetexc_last (b := supervisorFilled 0) rfl (by decide) _
  refine ⟨fun hall => ?_, hhalt⟩
  obtain ⟨⟨hstep, -⟩, -⟩ :=
    hall (supervisorFilled 0) vectorMachine rfl rfl [(127, 0x12345678)] (by simp)
  have hgoes := hstep.keepongoing
  rw [hhalt] at hgoes
  exact Bool.false_ne_true hgoes

end Tosemu
