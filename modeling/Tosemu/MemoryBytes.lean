import Mathlib.Tactic.SplitIfs
import Mathlib.Tactic.Cases
import Tosemu.BigEndian
import Tosemu.Memory

namespace Tosemu

def Memarea.byteAt (area : Memarea) (address : Long) : Option Byte :=
  match area.handler with
  | .ptr buf => some (buf.byte (area.index address))
  | .supexec => none

def memByte (memory : List Memarea) (address : Long) : Option Byte :=
  (findMemarea memory address).bind (fun area => area.byteAt address)

def memFlags (memory : List Memarea) (address : Long) : Byte :=
  ((findMemarea memory address).map Memarea.flags).getD 0

def Readable (m : Machine) (address : Long) : Prop :=
  (memByte m.memory address).isSome ∧ memFlags m.memory address &&& m.readMask ≠ 0

def Writable (m : Machine) (address : Long) : Prop :=
  (memByte m.memory address).isSome ∧ memFlags m.memory address &&& m.writeMask ≠ 0

instance (m : Machine) (address : Long) : Decidable (Readable m address) :=
  inferInstanceAs (Decidable (_ ∧ _))

instance (m : Machine) (address : Long) : Decidable (Writable m address) :=
  inferInstanceAs (Decidable (_ ∧ _))

theorem Readable.of_readwrite {m : Machine} {a : Long} (hb : (memByte m.memory a).isSome)
    (hf : memFlags m.memory a = MEMORY_READWRITE) : Readable m a := by
  refine ⟨hb, ?_⟩
  rw [hf, Machine.readMask]
  split_ifs <;> decide

theorem Writable.of_readwrite {m : Machine} {a : Long} (hb : (memByte m.memory a).isSome)
    (hf : memFlags m.memory a = MEMORY_READWRITE) : Writable m a := by
  refine ⟨hb, ?_⟩
  rw [hf, Machine.writeMask]
  split_ifs <;> decide

@[simp] theorem Memarea.write_hits (area : Memarea) (a x : Long) (v : Byte) :
    (area.write a v).hits x = area.hits x := by
  unfold Memarea.write
  split <;> rfl

@[simp] theorem Memarea.write_flags (area : Memarea) (a : Long) (v : Byte) :
    (area.write a v).flags = area.flags := by
  unfold Memarea.write
  split <;> rfl

theorem Memarea.write_byteAt (area : Memarea) (a x : Long) (v : Byte) :
    (area.write a v).byteAt x =
      if x = a then (area.byteAt a).map (fun _ => v) else area.byteAt x := by
  obtain ⟨base, len, handler, flags⟩ := area
  cases handler with
  | supexec => simp [write, byteAt]
  | ptr buf =>
    simp only [write, byteAt, index, Buffer.set]
    by_cases hx : x = a
    · simp [hx]
    · have hi : (x - base).toNat ≠ (a - base).toNat := by
        intro h
        apply hx
        simpa using BitVec.eq_of_toNat_eq h
      rw [if_neg hx, Function.update_of_ne hi]

theorem memByte_storeByte (memory : List Memarea) (a x : Long) (v : Byte) :
    memByte (storeByte a v memory) x =
      if x = a then (memByte memory a).map (fun _ => v) else memByte memory x := by
  induction memory with
  | nil => simp [storeByte, memByte, findMemarea]
  | cons area next ih =>
    by_cases ha : area.hits a
    · by_cases hx : area.hits x
      · simp [storeByte, memByte, findMemarea, ha, hx, Memarea.write_byteAt]
      · have hne : x ≠ a := fun h => hx (h ▸ ha)
        simp [storeByte, memByte, findMemarea, ha, hx, hne]
    · by_cases hx : area.hits x
      · have hne : x ≠ a := fun h => ha (h ▸ hx)
        simp [storeByte, memByte, findMemarea, ha, hx, hne]
      · simpa [storeByte, memByte, findMemarea, ha, hx] using ih

theorem memFlags_storeByte (memory : List Memarea) (a x : Long) (v : Byte) :
    memFlags (storeByte a v memory) x = memFlags memory x := by
  induction memory with
  | nil => rfl
  | cons area next ih =>
    by_cases ha : area.hits a <;> by_cases hx : area.hits x <;>
      simp_all [storeByte, memFlags, findMemarea]

theorem tosReadWith_refused (magic : ByteRead) {m : Machine} {a : Long}
    (h : memFlags m.memory a &&& m.readMask = 0) : tosReadWith magic a m = (0, m.haltExecution) := by
  unfold tosReadWith
  cases hf : findMemarea m.memory a with
  | none => rfl
  | some area =>
    have ha : area.flags &&& m.readMask = 0 := by simpa [memFlags, hf] using h
    simp [ha]

theorem tosReadWith_readable (magic : ByteRead) {m : Machine} {a : Long} (h : Readable m a) :
    tosReadWith magic a m = ((memByte m.memory a).getD 0, m) := by
  obtain ⟨hb, hm⟩ := h
  unfold tosReadWith
  cases hf : findMemarea m.memory a with
  | none => simp [memByte, hf] at hb
  | some area =>
    obtain ⟨base, len, handler, flags⟩ := area
    have ha : flags &&& m.readMask ≠ 0 := by simpa [memFlags, hf] using hm
    cases handler with
    | supexec => simp [memByte, hf, Memarea.byteAt] at hb
    | ptr buf =>
      simp only [memByte, hf, Memarea.byteAt, Option.bind_some, Option.getD_some]
      rw [if_pos ha]

/-- If no host byte lies behind the address, a read is refused: it is not in the magic area. -/
def Plain (m : Machine) (x : Long) : Prop :=
  memByte m.memory x = none → memFlags m.memory x &&& m.readMask = 0

theorem Readable.plain {m : Machine} {x : Long} (h : Readable m x) : Plain m x := by
  intro hx
  have := h.1
  simp [hx] at this

theorem tosReadWith_plain (magic : ByteRead) {m : Machine} {x : Long} (h : Plain m x) :
    tosReadWith magic x m =
      if Readable m x then ((memByte m.memory x).getD 0, m) else (0, m.haltExecution) := by
  split_ifs with hr
  · exact tosReadWith_readable magic hr
  · apply tosReadWith_refused
    by_contra hne
    refine hr ⟨?_, hne⟩
    by_contra hb
    exact hne (h (by simpa using hb))

theorem tosWrite_eq (m : Machine) (a : Long) (v : Byte) :
    tosWrite a v m =
      if Writable m a then { m with memory := storeByte a v m.memory } else m.haltExecution := by
  unfold tosWrite
  cases hf : findMemarea m.memory a with
  | none => simp [Writable, memByte, hf]
  | some area =>
    obtain ⟨base, len, handler, flags⟩ := area
    cases handler <;> simp [Writable, memByte, memFlags, hf, Memarea.byteAt]

structure SameMap (m m' : Machine) : Prop where
  cpu : m'.cpu = m.cpu
  dreg : m'.dreg = m.dreg
  areg : m'.areg = m.areg
  crashed : m'.crashed = m.crashed
  flags : ∀ x, memFlags m'.memory x = memFlags m.memory x
  mapped : ∀ x, (memByte m'.memory x).isSome = (memByte m.memory x).isSome

namespace SameMap

variable {m m' m'' : Machine}

theorem refl (m : Machine) : SameMap m m := ⟨rfl, rfl, rfl, rfl, fun _ => rfl, fun _ => rfl⟩

theorem trans (h : SameMap m m') (h' : SameMap m' m'') : SameMap m m'' :=
  ⟨h'.cpu.trans h.cpu, h'.dreg.trans h.dreg, h'.areg.trans h.areg, h'.crashed.trans h.crashed,
    fun x => (h'.flags x).trans (h.flags x), fun x => (h'.mapped x).trans (h.mapped x)⟩

theorem readable_iff (h : SameMap m m') (x : Long) : Readable m' x ↔ Readable m x := by
  simp only [Readable, h.mapped, h.flags, Machine.readMask, h.cpu]

theorem writable_iff (h : SameMap m m') (x : Long) : Writable m' x ↔ Writable m x := by
  simp only [Writable, h.mapped, h.flags, Machine.writeMask, h.cpu]

theorem plain_iff (h : SameMap m m') (x : Long) : Plain m' x ↔ Plain m x := by
  have hn : memByte m'.memory x = none ↔ memByte m.memory x = none := by
    rw [← Option.not_isSome_iff_eq_none, ← Option.not_isSome_iff_eq_none, h.mapped]
  simp only [Plain, hn, h.flags, Machine.readMask, h.cpu]

end SameMap

theorem tosWrite_sameMap (m : Machine) (a : Long) (v : Byte) : SameMap m (tosWrite a v m) := by
  rw [tosWrite_eq]
  split_ifs with h
  · refine ⟨rfl, rfl, rfl, rfl, fun x => memFlags_storeByte _ _ _ _, fun x => ?_⟩
    rw [memByte_storeByte]
    by_cases hx : x = a <;> simp [hx]
  · exact ⟨rfl, rfl, rfl, rfl, fun _ => rfl, fun _ => rfl⟩

theorem memByte_tosWrite (m : Machine) (a x : Long) (v : Byte) :
    memByte (tosWrite a v m).memory x =
      if x = a ∧ Writable m a then some v else memByte m.memory x := by
  rw [tosWrite_eq]
  by_cases hw : Writable m a
  · obtain ⟨b, hb⟩ := Option.isSome_iff_exists.mp hw.1
    by_cases hx : x = a <;> simp [hw, hx, hb, memByte_storeByte]
  · simp [hw, Machine.haltExecution]

theorem tosWrite_keepongoing (m : Machine) (a : Long) (v : Byte) :
    (tosWrite a v m).keepongoing = (m.keepongoing && decide (Writable m a)) := by
  rw [tosWrite_eq]
  by_cases hw : Writable m a <;> simp [hw, Machine.haltExecution]

section Loops

variable (n : ℕ) (a v : Long) (m : Machine)

theorem writeLoop_sameMap : SameMap m (writeLoop n a v m) := by
  induction n generalizing v m with
  | zero => exact SameMap.refl m
  | succ n ih => exact (tosWrite_sameMap m _ _).trans (ih _ _)

theorem memByte_writeLoop_of_ne {x : Long}
    (hx : ∀ i < n, x = a + BitVec.ofNat 32 i → ¬ Writable m x) :
    memByte (writeLoop n a v m).memory x = memByte m.memory x := by
  induction n generalizing v m with
  | zero => rfl
  | succ n ih =>
    have hs := tosWrite_sameMap m (a + BitVec.ofNat 32 n) (v.setWidth 8)
    rw [writeLoop, ih _ _ (fun i hi he => (hs.writable_iff x).not.mpr (hx i (by omega) he)),
      memByte_tosWrite, if_neg]
    rintro ⟨he, hw⟩
    exact hx n (by omega) he (he ▸ hw)

theorem memByte_writeLoop {i : ℕ} (hi : i < n) (hn : n ≤ 2 ^ 32)
    (hw : Writable m (a + BitVec.ofNat 32 i)) :
    memByte (writeLoop n a v m).memory (a + BitVec.ofNat 32 i) = (BigEndian.unpack v n)[i]? := by
  induction n generalizing v m with
  | zero => omega
  | succ n ih =>
    have hs := tosWrite_sameMap m (a + BitVec.ofNat 32 n) (v.setWidth 8)
    by_cases hin : i < n
    · rw [writeLoop, ih _ _ hin (by omega) ((hs.writable_iff _).mpr hw), BigEndian.unpack,
        List.getElem?_append_left (by simpa using hin)]
    · obtain rfl : i = n := by omega
      rw [writeLoop, memByte_writeLoop_of_ne, memByte_tosWrite, if_pos ⟨rfl, hw⟩, BigEndian.unpack]
      · simp
      · -- the bytes written afterwards have smaller offsets
        intro j hj he
        have hij : BitVec.ofNat 32 i = BitVec.ofNat 32 j := by simpa using he
        have := congrArg BitVec.toNat hij
        simp only [BitVec.toNat_ofNat] at this
        omega

theorem writeLoop_keepongoing :
    (writeLoop n a v m).keepongoing =
      (m.keepongoing && decide (∀ i < n, Writable m (a + BitVec.ofNat 32 i))) := by
  induction n generalizing v m with
  | zero => simp [writeLoop]
  | succ n ih =>
    have hs := tosWrite_sameMap m (a + BitVec.ofNat 32 n) (v.setWidth 8)
    rw [writeLoop, ih, tosWrite_keepongoing, Bool.and_assoc]
    congr 1
    rw [Bool.eq_iff_iff]
    simp only [hs.writable_iff, Bool.and_eq_true, decide_eq_true_iff]
    constructor
    · rintro ⟨hl, hr⟩ i hi
      by_cases hin : i < n
      · exact hr i hin
      · obtain rfl : i = n := by omega
        exact hl
    · exact fun h => ⟨h n (by omega), fun i hi => h i (by omega)⟩

end Loops

def readByte (m : Machine) (x : Long) : Byte :=
  if Readable m x then (memByte m.memory x).getD 0 else 0

def haltUnless (ok : Bool) (m : Machine) : Machine := { m with keepongoing := m.keepongoing && ok }

theorem haltUnless_sameMap (ok : Bool) (m : Machine) : SameMap m (haltUnless ok m) :=
  ⟨rfl, rfl, rfl, rfl, fun _ => rfl, fun _ => rfl⟩

theorem haltUnless_haltUnless (ok ok' : Bool) (m : Machine) :
    haltUnless ok' (haltUnless ok m) = haltUnless (ok && ok') m := by
  simp only [haltUnless, Bool.and_assoc]

theorem tosRead_plain {m : Machine} {x : Long} (h : Plain m x) :
    tosRead x m = (readByte m x, haltUnless (decide (Readable m x)) m) := by
  rw [tosRead, tosReadWith_plain _ h]
  by_cases hr : Readable m x <;> simp [readByte, haltUnless, Machine.haltExecution, hr]

theorem readByte_haltUnless (ok : Bool) (m : Machine) : readByte (haltUnless ok m) = readByte m := by
  funext x
  simp only [readByte, (haltUnless_sameMap ok m).readable_iff]
  rfl

theorem succ_add_ofNat (a : Long) (i : ℕ) :
    a + 1 + BitVec.ofNat 32 i = a + BitVec.ofNat 32 (i + 1) := by
  rw [BitVec.ofNat_add, BitVec.add_assoc, BitVec.add_comm (BitVec.ofNat 32 i)]
  rfl

theorem readLoop_plain (n : ℕ) (a res : Long) (m : Machine)
    (h : ∀ i < n, Plain m (a + BitVec.ofNat 32 i)) :
    readLoop tosRead n a res m =
      (BigEndian.pack ((List.range n).map (fun i => readByte m (a + BitVec.ofNat 32 i))) res,
        haltUnless (decide (∀ i < n, Readable m (a + BitVec.ofNat 32 i))) m) := by
  induction n generalizing a res m with
  | zero => simp [readLoop, BigEndian.pack, haltUnless]
  | succ n ih =>
    have h0 : Plain m a := by simpa using h 0 (by omega)
    have hs := haltUnless_sameMap (decide (Readable m a)) m
    rw [readLoop, tosRead_plain h0, ih]
    · simp only [succ_add_ofNat, hs.readable_iff, readByte_haltUnless, List.range_succ_eq_map, List.map_cons,
        List.map_map, Function.comp_def, BigEndian.pack, List.foldl_cons, BitVec.add_zero,
        Nat.succ_eq_add_one, haltUnless_haltUnless, Nat.forall_lt_succ_left, Bool.decide_and]
    · intro i hi
      rw [succ_add_ofNat, hs.plain_iff]
      exact h (i + 1) (by omega)

theorem readLoop_readable (n : ℕ) (a res : Long) (m : Machine)
    (h : ∀ i < n, Readable m (a + BitVec.ofNat 32 i)) :
    readLoop tosRead n a res m =
      (BigEndian.pack ((List.range n).map
        (fun i => (memByte m.memory (a + BitVec.ofNat 32 i)).getD 0)) res, m) := by
  rw [readLoop_plain n a res m (fun i hi => (h i hi).plain), decide_eq_true h]
  congr 1
  · congr 1
    apply List.map_congr_left
    intro i hi
    exact if_pos (h i (List.mem_range.mp hi))
  · simp [haltUnless]

theorem map_memByte {memory : List Memarea} {a : Long} {bytes : List Byte} {n : ℕ}
    (hlen : bytes.length = n)
    (h : ∀ k < n, memByte memory (a + BitVec.ofNat 32 k) = bytes[k]?) :
    (List.range n).map (fun k => (memByte memory (a + BitVec.ofNat 32 k)).getD 0) = bytes := by
  apply List.ext_getElem (by simp [hlen])
  intro k hk hk'
  rw [List.getElem_map, List.getElem_range, h k (hlen ▸ hk'), List.getElem?_eq_getElem hk', Option.getD_some]

theorem readLoop_bytes {a : Long} {m : Machine} {bytes : List Byte} {n : ℕ} (hlen : bytes.length = n)
    (hread : ∀ k < n, Readable m (a + BitVec.ofNat 32 k))
    (hbytes : ∀ k < n, memByte m.memory (a + BitVec.ofNat 32 k) = bytes[k]?) :
    readLoop tosRead n a 0 m = (BigEndian.pack bytes 0, m) := by
  rw [readLoop_readable n a 0 m hread, map_memByte hlen hbytes]

end Tosemu
