import Tosemu.CarryChain
import Tosemu.Arithmetic

namespace Tosemu.M68k

open Cpu

def Below (p : Long) (n : ℕ) (a : Long) : Prop := p.toNat ≤ a.toNat + n ∧ a.toNat < p.toNat

section Limbs

variable (w : Width) (m : Machine) (p : Long)

def limbAddress (k : ℕ) : Long := p - BitVec.ofNat 32 (w.bytes * (k + 1))

def limbWord (k : ℕ) : Long := (m68kReadMemory w (limbAddress w p k) m).1

def limb (k : ℕ) : ℕ := (limbWord w m p k).toNat

variable {w p} {n k i : ℕ} (hp : w.bytes * n ≤ p.toNat) (hk : k < n) (hi : i < w.bytes)

include hp hk

theorem limb_bound : w.bytes * (k + 1) ≤ p.toNat :=
  (Nat.mul_le_mul_left _ hk).trans hp

theorem limbAddress_toNat : (limbAddress w p k).toNat = p.toNat - w.bytes * (k + 1) := by
  have hle := limb_bound hp hk
  have hlt := p.isLt
  rw [limbAddress, BitVec.toNat_sub, BitVec.toNat_ofNat]
  generalize w.bytes * (k + 1) = t at *
  omega

include hi

theorem limb_byte_toNat :
    (limbAddress w p k + BitVec.ofNat 32 i).toNat = p.toNat - w.bytes * (k + 1) + i := by
  have hle := limb_bound hp hk
  have hw := w.bytes_le
  have hlt := p.isLt
  have hsucc : w.bytes * (k + 1) = w.bytes * k + w.bytes := Nat.mul_succ _ _
  rw [BitVec.toNat_add, limbAddress_toNat hp hk, BitVec.toNat_ofNat, Nat.mod_eq_of_lt (by omega : i < 2 ^ 32)]
  omega

theorem limb_byte_below : Below p (w.bytes * n) (limbAddress w p k + BitVec.ofNat 32 i) := by
  have hle := limb_bound hp hk
  have hmono : w.bytes * (k + 1) ≤ w.bytes * n := Nat.mul_le_mul_left _ hk
  have hsucc : w.bytes * (k + 1) = w.bytes * k + w.bytes := Nat.mul_succ _ _
  have hb := limb_byte_toNat hp hk hi
  constructor <;> omega

theorem below_succ_of_limb : Below p (w.bytes * (k + 1)) (limbAddress w p k + BitVec.ofNat 32 i) := by
  have hle := limb_bound hp hk
  have hb := limb_byte_toNat hp hk hi
  have hsucc : w.bytes * (k + 1) = w.bytes * k + w.bytes := Nat.mul_succ _ _
  constructor <;> omega

theorem limb_byte_not_below : ¬ Below p (w.bytes * k) (limbAddress w p k + BitVec.ofNat 32 i) := by
  have hle := limb_bound hp hk
  have hsucc : w.bytes * (k + 1) = w.bytes * k + w.bytes := Nat.mul_succ _ _
  have hb := limb_byte_toNat hp hk hi
  rintro ⟨h, -⟩
  omega

omit hi

theorem limb_byte_ne {j i' : ℕ} (hj : j < k) (hi : i < w.bytes) (hi' : i' < w.bytes) :
    limbAddress w p j + BitVec.ofNat 32 i ≠ limbAddress w p k + BitVec.ofNat 32 i' := by
  intro he
  apply limb_byte_not_below hp hk hi'
  rw [← he]
  have hbelow := below_succ_of_limb hp (hj.trans hk) hi
  have hmono : w.bytes * (j + 1) ≤ w.bytes * k := Nat.mul_le_mul_left _ hj
  exact ⟨by have := hbelow.1; omega, hbelow.2⟩

end Limbs

section Reading

variable {w : Width} {m m' : Machine} {p : Long}

theorem read_congr {a : Long} (hr : ∀ i < w.bytes, Readable m (a + BitVec.ofNat 32 i))
    (hacc : SameAccess m m')
    (hb : ∀ i < w.bytes, memByte m'.memory (a + BitVec.ofNat 32 i) =
      memByte m.memory (a + BitVec.ofNat 32 i)) :
    m68kReadMemory w a m' = ((m68kReadMemory w a m).1, m') := by
  have hr' : ∀ i < w.bytes, Readable m' (a + BitVec.ofNat 32 i) :=
    fun i hi => (hacc.readable_iff _).mpr (hr i hi)
  rw [m68kReadMemory_eq, m68kReadMemory_eq, readLoop_readable _ _ _ _ hr, readLoop_readable _ _ _ _ hr']
  apply congrArg (fun bytes => (BigEndian.pack bytes 0, m'))
  apply List.map_congr_left
  intro i hi
  rw [hb i (List.mem_range.mp hi)]

theorem limb_lt (k : ℕ) : limb w m p k < 2 ^ w.bits := by
  have hz : (0 : Long).toNat < 2 ^ 0 := by decide
  have hw := w.bytes_le
  have h := readLoop_lt tosRead (limbAddress w p k) 0 m (n := w.bytes) (i := 0) (by omega) hz
  rw [Nat.zero_add, ← bits_eq] at h
  rw [limb, limbWord, m68kReadMemory_eq]
  exact h

theorem read_written {a : Long} (v : Long) (hv : v.toNat < 2 ^ w.bits)
    (h : ∀ i < w.bytes, Readable m (a + BitVec.ofNat 32 i) ∧ Writable m (a + BitVec.ofNat 32 i)) :
    (m68kReadMemory w a (m68kWriteMemory w a v m)).1 = v := by
  have hw := w.bytes_le
  apply BitVec.eq_of_toNat_eq
  rw [read_back w a v m h, BigEndian.pack_unpack, ← bits_eq, Nat.mod_eq_of_lt hv]

theorem memByte_write_of_ne {a x : Long} (v : Long) (hx : ∀ i < w.bytes, x ≠ a + BitVec.ofNat 32 i) :
    memByte (m68kWriteMemory w a v m).memory x = memByte m.memory x := by
  rw [m68kWriteMemory_eq]
  exact memByte_writeLoop_of_ne _ _ _ _ (fun i hi he => absurd he (hx i hi))

theorem write_keepongoing {a : Long} (v : Long) (hw : ∀ i < w.bytes, Writable m (a + BitVec.ofNat 32 i)) :
    (m68kWriteMemory w a v m).keepongoing = m.keepongoing := by
  rw [m68kWriteMemory_eq, writeLoop_keepongoing, decide_eq_true hw, Bool.and_true]

end Reading

section Bytes

open CarryChain

theorem pack_range {n : ℕ} (hn : n ≤ 4) (b : ℕ → Byte) :
    (BigEndian.pack ((List.range n).map b) (0 : Long)).toNat =
      value (2 ^ 8) (fun i => (b (n - 1 - i)).toNat) n := by
  induction n with
  | zero => rfl
  | succ n ih =>
    have hlt := BigEndian.pack_lt (w := 32) ((List.range n).map b)
    rw [List.length_map, List.length_range] at hlt
    rw [List.range_succ, List.map_append, List.map_singleton, BigEndian.pack_append_singleton,
      BigEndian.shift_or_toNat hlt (by omega), ih (by omega), value_succ', Nat.mul_comm, Nat.add_comm]
    apply congrArg (fun v => (b n).toNat + 2 ^ 8 * v)
    apply value_congr
    intro i hi
    rw [show n + 1 - 1 - (i + 1) = n - 1 - i by omega]

def byteBelow (m : Machine) (p : Long) (i : ℕ) : ℕ :=
  ((memByte m.memory (p - BitVec.ofNat 32 (i + 1))).getD 0).toNat

def number (m : Machine) (p : Long) (n : ℕ) : ℕ := value (2 ^ 8) (byteBelow m p) n

variable {w : Width} {m : Machine} {p : Long} {n : ℕ}

theorem number_lt (m : Machine) (p : Long) (n : ℕ) : number m p n < 2 ^ (8 * n) := by
  rw [pow_mul]
  exact value_lt_pow fun i _ => BitVec.isLt _

theorem limb_bytes (hp : w.bytes * n ≤ p.toNat) (h : ∀ a, Below p (w.bytes * n) a → Readable m a)
    {k : ℕ} (hk : k < n) :
    limb w m p k = value (2 ^ 8) (fun i => byteBelow m p (w.bytes * k + i)) w.bytes := by
  rw [limb, limbWord, m68kReadMemory_eq, readLoop_readable _ _ _ _ (fun i hi => h _ (limb_byte_below hp hk hi)),
    pack_range w.bytes_le]
  apply value_congr
  intro i hi
  have haddr : limbAddress w p k + BitVec.ofNat 32 (w.bytes - 1 - i) =
      p - BitVec.ofNat 32 (w.bytes * k + i + 1) := by
    rw [limbAddress, show w.bytes * (k + 1) = w.bytes * k + i + 1 + (w.bytes - 1 - i) by
      rw [Nat.mul_succ]; omega, BitVec.ofNat_add]
    ring
  rw [byteBelow, haddr]

theorem value_limbs (hp : w.bytes * n ≤ p.toNat) (h : ∀ a, Below p (w.bytes * n) a → Readable m a) :
    value (2 ^ w.bits) (limb w m p) n = number m p (w.bytes * n) := by
  rw [number, ← value_group, bits_eq, pow_mul]
  apply value_congr
  intro k hk
  exact limb_bytes hp h hk

end Bytes

section Bus

variable {a : Long} {j : ℕ}

theorem address68k_sub (h : j ≤ (address68k a).toNat) :
    address68k (a - BitVec.ofNat 32 j) = address68k a - BitVec.ofNat 32 j := by
  have hlt := a.isLt
  have ha := address68k_toNat a
  have hj : j < 2 ^ 24 := by
    have : (address68k a).toNat < 2 ^ 24 := by omega
    omega
  apply BitVec.eq_of_toNat_eq
  rw [address68k_toNat, BitVec.toNat_sub, BitVec.toNat_sub, BitVec.toNat_ofNat,
    Nat.mod_eq_of_lt (by omega : j < 2 ^ 32)]
  omega

end Bus

end Tosemu.M68k
