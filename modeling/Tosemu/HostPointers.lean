import Tosemu.Endian
import Tosemu.GuestMemory

/-!
Guest memory through the host pointers of `tos_mem_to_host_mem`: what is written through one goes to
the allocation of its area, whatever the guest sees at the addresses.
-/

namespace Tosemu

structure HostPtr where
  area : ℕ
  offset : ℕ

def tosMemToHostMem (address : Long) (m : Machine) : Option HostPtr × Machine :=
  match findMemarea m.memory address with
  | none => (none, m.haltExecution)
  | some area =>
    match area.handler with
    | .ptr _ => (some ⟨m.memory.findIdx (fun area => area.hits address), area.index address⟩, m)
    | .supexec => (none, m.haltExecution)

theorem tosMemToHostMem_memory (a : Long) (m : Machine) : (tosMemToHostMem a m).2.memory = m.memory := by
  unfold tosMemToHostMem
  cases findMemarea m.memory a with
  | none => rfl
  | some area =>
    obtain ⟨base, len, handler, flags⟩ := area
    cases handler <;> rfl

theorem tosMemToHostMem_congr {m m' : Machine} (h : m'.memory = m.memory) (a : Long) :
    (tosMemToHostMem a m').1 = (tosMemToHostMem a m).1 := by
  unfold tosMemToHostMem
  rw [h]
  cases findMemarea m.memory a with
  | none => rfl
  | some area =>
    obtain ⟨base, len, handler, flags⟩ := area
    cases handler <;> rfl

def Buffer.setBytes (i : ℕ) (bytes : List Byte) (buf : Buffer) : Buffer :=
  { buf with byte := fun j => if i ≤ j ∧ j < i + bytes.length then bytes.getD (j - i) 0 else buf.byte j }

def Memarea.setBytes (i : ℕ) (bytes : List Byte) (area : Memarea) : Memarea :=
  match area.handler with
  | .ptr buf => { area with handler := .ptr (buf.setBytes i bytes) }
  | .supexec => area

def hostStore (p : HostPtr) (off : ℕ) (bytes : List Byte) (memory : List Memarea) : List Memarea :=
  memory.modify p.area (Memarea.setBytes (p.offset + off) bytes)

def Memarea.hostByte (i : ℕ) (area : Memarea) : Byte :=
  match area.handler with
  | .ptr buf => buf.byte i
  | .supexec => 0

def hostByte (p : HostPtr) (k : ℕ) (memory : List Memarea) : Byte :=
  (memory[p.area]?.map (Memarea.hostByte (p.offset + k))).getD 0

def hostLoad (host : Endian) (p : HostPtr) (off : ℕ) (memory : List Memarea) : Long :=
  host.load ((List.range 4).map (fun k => hostByte p (off + k) memory))

def storeFields (p : HostPtr) (fields : List (ℕ × List Byte)) (memory : List Memarea) : List Memarea :=
  fields.foldl (fun memory field => hostStore p field.1 field.2 memory) memory

def fieldByte (fields : List (ℕ × List Byte)) (k : ℕ) (b : Byte) : Byte :=
  fields.foldl (fun b field =>
    if field.1 ≤ k ∧ k < field.1 + field.2.length then field.2.getD (k - field.1) 0 else b) b

def areaIndex (memory : List Memarea) (x : Long) : Option ℕ := memory.findIdx? (fun area => area.hits x)

structure Points (memory : List Memarea) (a : Long) (n : ℕ) (p : HostPtr) : Prop where
  area : ∃ area, memory[p.area]? = some area ∧ area.PtrBacked ∧ p.offset = area.index a
  hits : ∀ k < n, areaIndex memory (a + BitVec.ofNat 32 k) = some p.area

def InOneArea (memory : List Memarea) (a : Long) (n : ℕ) : Prop := ∃ p, Points memory a n p

theorem findMemarea_eq (memory : List Memarea) (x : Long) :
    findMemarea memory x = (areaIndex memory x).bind (fun i => memory[i]?) :=
  List.find?_eq_bind_findIdx?_getElem?

theorem memByte_eq (memory : List Memarea) (x : Long) :
    memByte memory x =
      (areaIndex memory x).bind (fun i => memory[i]?.bind (fun area => area.byteAt x)) := by
  rw [memByte, findMemarea_eq, Option.bind_assoc]

section Area

variable {area : Memarea} {a x : Long}

theorem Memarea.index_succ (h : area.hits x = true) (h' : area.hits (x + 1) = true) :
    area.index (x + 1) = area.index x + 1 := by
  simp only [hits, Bool.and_eq_true, decide_eq_true_eq, BitVec.le_def, BitVec.lt_def] at h h'
  have hlt := (area.base + area.len).isLt
  have hnat : (x + 1).toNat = x.toNat + 1 := by
    rw [BitVec.toNat_add, show (1 : Long).toNat = 1 from rfl]
    omega
  rw [index, index, BitVec.toNat_sub_of_le (BitVec.le_def.mpr h.1),
    BitVec.toNat_sub_of_le (BitVec.le_def.mpr h'.1), hnat]
  omega

theorem Memarea.index_add {k : ℕ} (h : ∀ j ≤ k, area.hits (a + BitVec.ofNat 32 j) = true) :
    area.index (a + BitVec.ofNat 32 k) = area.index a + k := by
  induction k with
  | zero => rw [BitVec.add_zero, Nat.add_zero]
  | succ k ih =>
    have hsucc : a + BitVec.ofNat 32 (k + 1) = a + BitVec.ofNat 32 k + 1 := by
      rw [BitVec.ofNat_add, BitVec.add_assoc]
      rfl
    have hlast := h (k + 1) le_rfl
    rw [hsucc] at hlast ⊢
    rw [Memarea.index_succ (h k (Nat.le_succ k)) hlast, ih (fun j hj => h j (hj.trans (Nat.le_succ k)))]
    omega

theorem Memarea.index_inj {y : Long} (h : area.index x = area.index y) : x = y := by
  simpa using BitVec.eq_of_toNat_eq h

theorem Memarea.setBytes_hits (i : ℕ) (bytes : List Byte) (area : Memarea) :
    (area.setBytes i bytes).hits x = area.hits x := by
  unfold setBytes
  split <;> rfl

theorem Memarea.setBytes_index (i : ℕ) (bytes : List Byte) (area : Memarea) :
    (area.setBytes i bytes).index x = area.index x := by
  unfold setBytes
  split <;> rfl

theorem Memarea.PtrBacked.setBytes {i : ℕ} {bytes : List Byte} (h : area.PtrBacked) :
    (area.setBytes i bytes).PtrBacked := by
  obtain ⟨buf, hbuf, hlen⟩ := h
  rw [Memarea.setBytes, hbuf]
  exact ⟨_, rfl, hlen⟩

theorem Memarea.PtrBacked.byteAt (h : area.PtrBacked) : area.byteAt x = some (area.hostByte (area.index x)) := by
  obtain ⟨buf, hbuf, -⟩ := h
  rw [Memarea.byteAt, Memarea.hostByte, hbuf]

theorem Memarea.PtrBacked.hostByte_setBytes {i j : ℕ} {bytes : List Byte} (h : area.PtrBacked) :
    (area.setBytes i bytes).hostByte j =
      if i ≤ j ∧ j < i + bytes.length then bytes.getD (j - i) 0 else area.hostByte j := by
  obtain ⟨buf, hbuf, -⟩ := h
  rw [Memarea.setBytes, hbuf, Memarea.hostByte, Memarea.hostByte, hbuf]
  rfl

end Area

section Store

variable {memory : List Memarea} {a x : Long} {n k off : ℕ} {p q : HostPtr} {bytes : List Byte}

theorem hostStore_getElem? (q : HostPtr) (off : ℕ) (bytes : List Byte) (memory : List Memarea) (i : ℕ) :
    (hostStore q off bytes memory)[i]? =
      if q.area = i then memory[i]?.map (Memarea.setBytes (q.offset + off) bytes) else memory[i]? := by
  rw [hostStore, List.getElem?_modify]
  split_ifs <;> simp

theorem areaIndex_hostStore (q : HostPtr) (off : ℕ) (bytes : List Byte) (memory : List Memarea) (x : Long) :
    areaIndex (hostStore q off bytes memory) x = areaIndex memory x := by
  have hmap : (hostStore q off bytes memory).map (fun area => area.hits x) =
      memory.map (fun area => area.hits x) := by
    apply List.ext_getElem?
    intro i
    rw [List.getElem?_map, List.getElem?_map, hostStore_getElem?]
    split_ifs
    · rw [Option.map_map]
      exact congrArg (fun f => memory[i]?.map f) (funext fun area => area.setBytes_hits _ _)
    · rfl
  have hindex : ∀ l : List Memarea, areaIndex l x = (l.map (fun area => area.hits x)).findIdx? id := by
    intro l
    rw [List.findIdx?_map]
    rfl
  rw [hindex, hindex, hmap]

theorem Points.hostStore (h : Points memory a n p) (q : HostPtr) (off : ℕ) (bytes : List Byte) :
    Points (hostStore q off bytes memory) a n p := by
  obtain ⟨area, harea, hptr, hoff⟩ := h.area
  refine ⟨?_, fun k hk => (areaIndex_hostStore q off bytes memory _).trans (h.hits k hk)⟩
  rw [hostStore_getElem?, harea]
  split_ifs
  · exact ⟨_, rfl, hptr.setBytes, by rw [Memarea.setBytes_index, hoff]⟩
  · exact ⟨area, rfl, hptr, hoff⟩

theorem Points.index {area : Memarea} (h : Points memory a n p) (harea : memory[p.area]? = some area)
    (hk : k < n) : area.index (a + BitVec.ofNat 32 k) = p.offset + k := by
  obtain ⟨area', harea', -, hoff⟩ := h.area
  obtain rfl : area' = area := Option.some.inj (harea'.symm.trans harea)
  have hhits : ∀ j ≤ k, area'.hits (a + BitVec.ofNat 32 j) = true := by
    intro j hj
    obtain ⟨hlt, hhit, -⟩ := List.findIdx?_eq_some_iff_getElem.mp (h.hits j (hj.trans_lt hk))
    rw [List.getElem?_eq_getElem hlt] at harea'
    rwa [Option.some.inj harea'] at hhit
  rw [Memarea.index_add hhits, hoff]

theorem Points.memByte (h : Points memory a n p) (hk : k < n) :
    memByte memory (a + BitVec.ofNat 32 k) = some (hostByte p k memory) := by
  obtain ⟨area, harea, hptr, -⟩ := h.area
  rw [memByte_eq, h.hits k hk, Option.bind_some, hostByte, harea, Option.bind_some, hptr.byteAt,
    h.index harea hk]
  rfl

theorem Points.hostByte_hostStore (h : Points memory a n p) (off : ℕ) (bytes : List Byte) (k : ℕ) :
    hostByte p k (Tosemu.hostStore p off bytes memory) =
      if off ≤ k ∧ k < off + bytes.length then bytes.getD (k - off) 0 else hostByte p k memory := by
  obtain ⟨area, harea, hptr, -⟩ := h.area
  rw [hostByte, hostByte, hostStore_getElem?, if_pos rfl, harea]
  have hshift : (p.offset + off ≤ p.offset + k ∧ p.offset + k < p.offset + off + bytes.length) ↔
      (off ≤ k ∧ k < off + bytes.length) := by omega
  have hsub : p.offset + k - (p.offset + off) = k - off := by omega
  simp only [Option.map_some, Option.getD_some, hptr.hostByte_setBytes, hshift, hsub]

theorem Points.memByte_hostStore_of_ne (h : Points memory a n p) (hoff : off + bytes.length ≤ n)
    (hx : ∀ k < n, x ≠ a + BitVec.ofNat 32 k) :
    Tosemu.memByte (Tosemu.hostStore p off bytes memory) x = Tosemu.memByte memory x := by
  rw [memByte_eq, memByte_eq, areaIndex_hostStore]
  cases hi : areaIndex memory x with
  | none => rfl
  | some i =>
    rw [Option.bind_some, Option.bind_some, hostStore_getElem?]
    by_cases hpi : p.area = i
    · obtain ⟨area, harea, hptr, -⟩ := h.area
      rw [if_pos hpi, ← hpi, harea]
      simp only [Option.map_some, Option.bind_some]
      rw [hptr.setBytes.byteAt, hptr.byteAt, Memarea.setBytes_index, hptr.hostByte_setBytes, if_neg]
      rintro ⟨hle, hlt⟩
      have hindex := h.index (k := area.index x - p.offset) harea (by omega)
      rw [Nat.add_sub_cancel' (by omega)] at hindex
      exact hx _ (by omega) (Memarea.index_inj hindex).symm
    · rw [if_neg hpi]

theorem Points.tosMemToHostMem {m : Machine} (h : Points m.memory a n p) (hn : 0 < n) :
    tosMemToHostMem a m = (some p, m) := by
  obtain ⟨area, harea, ⟨buf, hbuf, -⟩, hoff⟩ := h.area
  have hhits := h.hits 0 hn
  rw [BitVec.add_zero] at hhits
  have hfind : findMemarea m.memory a = some area := by
    rw [findMemarea_eq, hhits]
    exact harea
  have hidx : m.memory.findIdx (fun area => area.hits a) = p.area :=
    (List.findIdx?_eq_some_iff_findIdx_eq.mp hhits).2
  simp only [Tosemu.tosMemToHostMem, hfind, hbuf, hidx, ← hoff]

theorem Points.storeFields (h : Points memory a n p) (q : HostPtr) (fields : List (ℕ × List Byte)) :
    Points (storeFields q fields memory) a n p := by
  induction fields generalizing memory with
  | nil => exact h
  | cons field fields ih => exact ih (h.hostStore q field.1 field.2)

theorem storeFields_append (p : HostPtr) (fields fields' : List (ℕ × List Byte)) (memory : List Memarea) :
    storeFields p (fields ++ fields') memory = storeFields p fields' (storeFields p fields memory) :=
  List.foldl_append

theorem Points.memByte_storeFields (h : Points memory a n p) (fields : List (ℕ × List Byte)) (hk : k < n) :
    Tosemu.memByte (Tosemu.storeFields p fields memory) (a + BitVec.ofNat 32 k) =
      some (fieldByte fields k (hostByte p k memory)) := by
  rw [(h.storeFields p fields).memByte hk]
  congr 1
  induction fields generalizing memory with
  | nil => rfl
  | cons field fields ih =>
    refine (ih (h.hostStore p field.1 field.2)).trans ?_
    rw [h.hostByte_hostStore]
    rfl

theorem Points.memByte_storeFields_of_ne (h : Points memory a n p) {fields : List (ℕ × List Byte)}
    (hfields : ∀ field ∈ fields, field.1 + field.2.length ≤ n)
    (hx : ∀ k < n, x ≠ a + BitVec.ofNat 32 k) :
    Tosemu.memByte (Tosemu.storeFields p fields memory) x = Tosemu.memByte memory x := by
  induction fields generalizing memory with
  | nil => rfl
  | cons field fields ih =>
    have hrest := ih (h.hostStore p field.1 field.2) (fun f hf => hfields f (List.mem_cons_of_mem _ hf))
    exact hrest.trans (h.memByte_hostStore_of_ne (hfields field List.mem_cons_self) hx)

theorem hostLoad_eq {host : Endian} {v : Long}
    (h : ∀ k < 4, hostByte p (off + k) memory = (host.bytes v).getD k 0) :
    hostLoad host p off memory = v := by
  have hlen := host.bytes_length v
  have hbytes : (List.range 4).map (fun k => hostByte p (off + k) memory) = host.bytes v := by
    apply List.ext_getElem (by simp [hlen])
    intro k hk hk'
    rw [List.getElem_map, List.getElem_range, h k (by omega), List.getD_eq_getElem _ _ hk']
  rw [hostLoad, hbytes, Endian.load_bytes]

end Store

end Tosemu
