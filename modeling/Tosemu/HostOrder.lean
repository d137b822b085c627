import Tosemu.DirectorySearchRuns

namespace Tosemu

/-- `endianize_16`, where `out` is what its uninitialised local holds. -/
def endianize16With (out inp : BitVec 16) : BitVec 16 := endianize16Loop 2 inp out

theorem endianize16With_eq (out inp : BitVec 16) :
    endianize16With out inp = BigEndian.pack (BigEndian.unpack inp 2).reverse 0 := by
  rw [endianize16With, endianize16Loop_eq, BigEndian.pack_eq_or, List.length_reverse,
    BigEndian.unpack_length, BitVec.shiftLeft_eq_zero le_rfl, BitVec.zero_or]

inductive FieldValue
  | word (v : BitVec 16)
  | long (v : Long)
deriving DecidableEq

namespace FieldValue

def size : FieldValue → ℕ
  | word _ => 2
  | long _ => 4

def toLong : FieldValue → Long
  | word v => v.setWidth 32
  | long v => v

def bytes : FieldValue → List Byte
  | word v => BigEndian.unpack v 2
  | long v => BigEndian.unpack v 4

def hostBytes (host : Endian) : FieldValue → List Byte
  | word v => host.bytes16 v
  | long v => host.bytes v

def endianize (out : Long) : FieldValue → FieldValue
  | word v => word (endianize16With (out.setWidth 16) v)
  | long v => long (endianize32With out v)

def guestRead : FieldValue → Long → Machine → Long × Machine
  | word _ => m68kReadMemory16
  | long _ => m68kReadMemory32

theorem size_le (v : FieldValue) : v.size ≤ 4 := by cases v <;> simp [size]

@[simp] theorem bytes_length (v : FieldValue) : v.bytes.length = v.size := by
  cases v <;> exact BigEndian.unpack_length _ _

theorem hostBytes_little (v : FieldValue) : v.hostBytes .little = v.bytes.reverse := by cases v <;> rfl

theorem hostBytes_big (v : FieldValue) : v.hostBytes .big = v.bytes := by cases v <;> rfl

theorem endianize_bytes (out : Long) (v : FieldValue) : (v.endianize out).bytes = v.bytes.reverse := by
  cases v with
  | word v =>
    rw [endianize, bytes, bytes, endianize16With_eq, BigEndian.unpack_pack_reverse (by decide)]
  | long v =>
    rw [endianize, bytes, bytes, endianize32With_eq, BigEndian.unpack_pack_reverse (by decide)]

theorem endianize_size (out : Long) (v : FieldValue) : (v.endianize out).size = v.size := by
  cases v <;> rfl

theorem endianize_settled (out out' : Long) (v : FieldValue) : v.endianize out' = v.endianize out := by
  cases v with
  | word v => rw [endianize, endianize, endianize16With_eq, endianize16With_eq]
  | long v => rw [endianize, endianize, endianize32With_eq, endianize32With_eq]

theorem eq_of_bytes {v v' : FieldValue} (hsize : v.size = v'.size) (h : v.bytes = v'.bytes) : v = v' := by
  cases v with
  | word v =>
    cases v' with
    | word v' =>
      have hv := congrArg (fun l => (BigEndian.pack l 0 : BitVec 16)) h
      simp only [bytes, BigEndian.pack_unpack_eq (by decide : 16 ≤ 8 * 2)] at hv
      rw [hv]
    | long v' => exact absurd hsize (by simp [size])
  | long v =>
    cases v' with
    | word v' => exact absurd hsize (by simp [size])
    | long v' =>
      have hv := congrArg (fun l => (BigEndian.pack l 0 : Long)) h
      simp only [bytes, BigEndian.pack_unpack_eq (by decide : 32 ≤ 8 * 4)] at hv
      rw [hv]

theorem endianize_endianize (out out' : Long) (v : FieldValue) : (v.endianize out).endianize out' = v := by
  apply eq_of_bytes
  · rw [endianize_size, endianize_size]
  · rw [endianize_bytes, endianize_bytes, List.reverse_reverse]

theorem hostBytes_endianize_iff (host : Endian) (out : Long) (v : FieldValue) :
    (v.endianize out).hostBytes host = v.bytes ↔ host = .little ∨ v.bytes.reverse = v.bytes := by
  cases host with
  | little => simp [hostBytes_little, endianize_bytes]
  | big => simp [hostBytes_big, endianize_bytes]

theorem hostBytes_length (host : Endian) (v : FieldValue) : (v.hostBytes host).length = v.size := by
  cases host with
  | little => rw [hostBytes_little, List.length_reverse, bytes_length]
  | big => rw [hostBytes_big, bytes_length]

theorem unpack_toLong (v : FieldValue) : BigEndian.unpack v.toLong v.size = v.bytes := by
  cases v with
  | word v => exact BigEndian.unpack_setWidth (by decide) v 2
  | long v => rfl

theorem toLong_lt (v : FieldValue) : v.toLong.toNat < 2 ^ (8 * v.size) := by
  cases v with
  | word v =>
    have hv := v.isLt
    rw [toLong, BitVec.toNat_setWidth]
    exact (Nat.mod_le _ _).trans_lt hv
  | long v => exact v.isLt

theorem pack_eq_toLong_iff {v : FieldValue} {bs : List Byte} (hlen : bs.length = v.size) :
    BigEndian.pack bs 0 = v.toLong ↔ bs = v.bytes := by
  constructor
  · intro h
    have hsize : 8 * bs.length ≤ 32 := by
      have hle := v.size_le
      omega
    have hunpack := BigEndian.unpack_pack (w := 32) bs hsize
    rw [h, hlen, unpack_toLong] at hunpack
    exact hunpack.symm
  · rintro rfl
    apply BitVec.eq_of_toNat_eq
    rw [← unpack_toLong, BigEndian.pack_unpack]
    exact Nat.mod_eq_of_lt v.toLong_lt

theorem guestRead_bytes {v : FieldValue} {bs : List Byte} (hlen : bs.length = v.size) {a : Long}
    {m : Machine} (hread : ∀ k < v.size, Readable m (a + BitVec.ofNat 32 k))
    (hbytes : ∀ k < v.size, memByte m.memory (a + BitVec.ofNat 32 k) = bs[k]?) :
    v.guestRead a m = (BigEndian.pack bs 0, m) := by
  have hloop := readLoop_bytes hlen hread hbytes
  cases v <;> exact hloop

end FieldValue

theorem guestRead_field {host : Endian} {v : FieldValue} {out a : Long} {memory : List Memarea}
    {m : Machine} {n off : ℕ} {p : HostPtr} (hp : Points memory a n p) (hoff : off + v.size ≤ n)
    (hm : m.memory = hostStore p off ((v.endianize out).hostBytes host) memory)
    (hread : ∀ k < v.size, Readable m (a + BitVec.ofNat 32 off + BitVec.ofNat 32 k)) :
    (v.guestRead (a + BitVec.ofNat 32 off) m).1 = v.toLong ↔
      (v.endianize out).hostBytes host = v.bytes := by
  have hlen : ((v.endianize out).hostBytes host).length = v.size := by
    rw [FieldValue.hostBytes_length, FieldValue.endianize_size]
  have hbytes : ∀ k < v.size, memByte m.memory (a + BitVec.ofNat 32 off + BitVec.ofNat 32 k) =
      ((v.endianize out).hostBytes host)[k]? := by
    intro k hk
    have hlt : k < ((v.endianize out).hostBytes host).length := by rwa [hlen]
    rw [BitVec.add_assoc, ← BitVec.ofNat_add, hm, (hp.hostStore p off _).memByte (by omega),
      hp.hostByte_hostStore, if_pos (by omega), Nat.add_sub_cancel_left, List.getElem?_eq_getElem hlt,
      List.getD_eq_getElem _ _ hlt]
  rw [FieldValue.guestRead_bytes hlen hread hbytes]
  exact FieldValue.pack_eq_toLong_iff hlen

/-- What the README promises of the value of a member at `a`, `out` being what the stack happens to
hold. -/
structure Portable (v : FieldValue) (out a : Long) (m : Machine) : Prop where
  settled : ∀ out', v.endianize out' = v.endianize out
  selfInverse : ∀ out', (v.endianize out).endianize out' = v
  readBack : (v.guestRead a m).1 = v.toLong

theorem field_portable_iff (host : Endian) (v : FieldValue) (out a : Long) (memory : List Memarea)
    (m : Machine) (n off : ℕ) (p : HostPtr) (hp : Points memory a n p) (hoff : off + v.size ≤ n)
    (hm : m.memory = hostStore p off ((v.endianize out).hostBytes host) memory)
    (hread : ∀ k < v.size, Readable m (a + BitVec.ofNat 32 off + BitVec.ofNat 32 k)) :
    Portable v out (a + BitVec.ofNat 32 off) m ↔ host = .little ∨ v.bytes.reverse = v.bytes := by
  rw [← FieldValue.hostBytes_endianize_iff host out, ← guestRead_field hp hoff hm hread]
  constructor
  · intro h
    exact h.readBack
  · intro h
    exact ⟨fun out' => v.endianize_settled out out', fun out' => v.endianize_endianize out out', h⟩

def assigned (host : Endian) : Machine :=
  { Search.searchMachine with
    memory := hostStore ⟨0, 0⟩ 8 (((FieldValue.long 0x900).endianize 0xdeadbeef).hostBytes host)
      Search.searchMachine.memory }

theorem assigned_readable (host : Endian) : ∀ k < (FieldValue.long 0x900).size,
    Readable (assigned host) (0x900 + BitVec.ofNat 32 8 + BitVec.ofNat 32 k) := by
  cases host <;> decide +kernel

theorem field_portable_little :
    Portable (.long 0x900) 0xdeadbeef (0x900 + BitVec.ofNat 32 8) (assigned .little) :=
  (field_portable_iff .little (.long 0x900) 0xdeadbeef 0x900 Search.searchMachine.memory
    (assigned .little) 44 8 ⟨0, 0⟩ Search.searchMachine_points (by decide) rfl
    (assigned_readable .little)).mpr (Or.inl rfl)

theorem big_host_swaps : ¬ ∀ (host : Endian) (v : FieldValue) (out a : Long) (memory : List Memarea)
    (m : Machine) (n off : ℕ) (p : HostPtr), Points memory a n p → off + v.size ≤ n →
    m.memory = hostStore p off ((v.endianize out).hostBytes host) memory →
    (∀ k < v.size, Readable m (a + BitVec.ofNat 32 off + BitVec.ofNat 32 k)) →
    Portable v out (a + BitVec.ofNat 32 off) m := by
  intro hall
  have hread := (hall .big (.long 0x900) 0xdeadbeef 0x900 Search.searchMachine.memory (assigned .big) 44
    8 ⟨0, 0⟩ Search.searchMachine_points (by decide) rfl (assigned_readable .big)).readBack
  have hbytes := (@guestRead_field .big (.long 0x900) 0xdeadbeef 0x900 Search.searchMachine.memory
    (assigned .big) 44 8 ⟨0, 0⟩ Search.searchMachine_points (by decide) rfl (assigned_readable .big)).mp hread
  exact absurd hbytes (by decide)

end Tosemu
