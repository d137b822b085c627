import Tosemu.MemoryNumbers
import Tosemu.ProgramControl

/-!
What the instructions push on the stack of their mode, and find there again. The addresses that are
in use are a predicate: whatever runs between a push and its pull has to keep its stack pointer and
the bytes in use.
-/

namespace Tosemu.M68k

open Cpu

def spAddress (m : Machine) : Long := address68k (m.cpu.a 7)

def Using (inUse : Long → Prop) (p : Long) (n : ℕ) : Long → Prop := fun x => inUse x ∨ Below p n x

structure Room (inUse : Long → Prop) (m : Machine) (n : ℕ) : Prop where
  fit : n ≤ (spAddress m).toNat
  readable : ∀ x, Below (spAddress m) n x → Readable m x
  writable : ∀ x, Below (spAddress m) n x → Writable m x
  free : ∀ x, Below (spAddress m) n x → ¬ inUse x

structure Keeps (inUse : Long → Prop) (m m' : Machine) : Prop where
  a7 : m'.cpu.a 7 = m.cpu.a 7
  banks : ∀ b, b ≠ bank m.cpu.sFlag m.cpu.mFlag → m'.cpu.sp b = m.cpu.sp b
  mFlag : m'.cpu.mFlag = m.cpu.mFlag
  access : SameAccess m m'
  bytes : ∀ x, inUse x → memByte m'.memory x = memByte m.memory x

namespace Keeps

variable {inUse inUse' : Long → Prop} {m m' m'' : Machine}

theorem refl (inUse : Long → Prop) (m : Machine) : Keeps inUse m m :=
  ⟨rfl, fun _ _ => rfl, rfl, .refl m, fun _ _ => rfl⟩

theorem bank_eq (h : Keeps inUse m m') :
    bank m'.cpu.sFlag m'.cpu.mFlag = bank m.cpu.sFlag m.cpu.mFlag := by
  rw [h.access.supervisor, h.mFlag]

theorem trans (h : Keeps inUse m m') (h' : Keeps inUse m' m'') : Keeps inUse m m'' where
  a7 := h'.a7.trans h.a7
  banks b hb := (h'.banks b (by rwa [h.bank_eq])).trans (h.banks b hb)
  mFlag := h'.mFlag.trans h.mFlag
  access := h.access.trans h'.access
  bytes x hx := (h'.bytes x hx).trans (h.bytes x hx)

theorem mono (h : Keeps inUse' m m') (hsub : ∀ x, inUse x → inUse' x) : Keeps inUse m m' :=
  ⟨h.a7, h.banks, h.mFlag, h.access, fun x hx => h.bytes x (hsub x hx)⟩

theorem spAddress (h : Keeps inUse m m') : M68k.spAddress m' = M68k.spAddress m := by
  rw [M68k.spAddress, h.a7, M68k.spAddress]

end Keeps

section Access

theorem sameAccess_cpu {m : Machine} {c : Core} (h : c.sFlag = m.cpu.sFlag) : SameAccess m { m with cpu := c } :=
  ⟨h, fun _ => rfl, fun _ => rfl⟩

theorem withA_access (i : Fin 8) (v : Long) (m : Machine) : SameAccess m (withA i v m) :=
  sameAccess_cpu rfl

@[simp] theorem withA_self (i : Fin 8) (v : Long) (m : Machine) : (withA i v m).cpu.a i = v := by
  change Function.update m.cpu.a i v i = v
  rw [Function.update_self]

structure Holds (w : Width) (p value : Long) (m : Machine) : Prop where
  readable : ∀ i < w.bytes, Readable m (p + BitVec.ofNat 32 i)
  value : (m68kReadMemory w p m).1 = value

variable {w : Width} {p value : Long} {m m' : Machine}

theorem Holds.read (h : Holds w p value m) : m68kReadMemory w p m = (value, m) := by
  rw [read_congr h.readable (.refl m) (fun _ _ => rfl), h.value]

theorem Holds.congr (h : Holds w p value m) (ha : SameAccess m m')
    (hb : ∀ i < w.bytes, memByte m'.memory (p + BitVec.ofNat 32 i) = memByte m.memory (p + BitVec.ofNat 32 i)) :
    Holds w p value m' :=
  ⟨fun i hi => (ha.readable_iff _).mpr (h.readable i hi), by rw [read_congr h.readable ha hb, h.value]⟩

end Access

theorem sub_toNat {p : Long} {n : ℕ} (h : n ≤ p.toNat) : (p - BitVec.ofNat 32 n).toNat = p.toNat - n := by
  have hlt := p.isLt
  rw [BitVec.toNat_sub, BitVec.toNat_ofNat, Nat.mod_eq_of_lt (by omega : n < 2 ^ 32)]
  omega

section Below

variable {inUse : Long → Prop} {p x : Long} {n k : ℕ}

theorem Below.near (h : Below p n x) : Below p (n + k) x := by
  obtain ⟨hlow, hhigh⟩ := h
  exact ⟨by omega, hhigh⟩

theorem Below.far (hfit : n ≤ p.toNat) (h : Below (p - BitVec.ofNat 32 n) k x) : Below p (n + k) x := by
  obtain ⟨hlow, hhigh⟩ := h
  rw [sub_toNat hfit] at hlow hhigh
  exact ⟨by omega, by omega⟩

theorem Using.joined (hfit : n ≤ p.toNat) (h : Using (Using inUse p n) (p - BitVec.ofNat 32 n) k x) :
    Using inUse p (n + k) x := by
  rcases h with (hx | hx) | hx
  · exact Or.inl hx
  · exact Or.inr hx.near
  · exact Or.inr (hx.far hfit)

end Below

section Push

variable {inUse : Long → Prop} {w : Width} {m m₂ : Machine} (v : Long)

/-- `m68ki_push_16` and `m68ki_push_32`, as far as the machine goes. -/
def pushed (w : Width) (v : Long) (m : Machine) : Machine :=
  m68kWriteMemory w (address68k (m.cpu.a 7 - BitVec.ofNat 32 w.bytes)) v
    (withA 7 (m.cpu.a 7 - BitVec.ofNat 32 w.bytes) m)

def pulled (w : Width) (m : Machine) : Long × Machine :=
  m68kReadMemory w (spAddress m) (withA 7 (m.cpu.a 7 + BitVec.ofNat 32 w.bytes) m)

theorem push32_apply (m : Machine) : push32 v m = ((), pushed .long v m) := rfl

theorem pull16_apply (m : Machine) : pull16 m = pulled .word m := rfl

theorem pull32_apply (m : Machine) : pull32 m = pulled .long m := rfl

theorem pushed_cpu (m : Machine) :
    (pushed w v m).cpu = (withA 7 (m.cpu.a 7 - BitVec.ofNat 32 w.bytes) m).cpu := write_cpu ..

theorem pushed_a7 (m : Machine) : (pushed w v m).cpu.a 7 = m.cpu.a 7 - BitVec.ofNat 32 w.bytes := by
  rw [pushed_cpu, withA_self]

theorem pushed_access (m : Machine) : SameAccess m (pushed w v m) :=
  (withA_access ..).trans (.write ..)

theorem spAddress_sub {n : ℕ} (hfit : n ≤ (spAddress m).toNat) :
    address68k (m.cpu.a 7 - BitVec.ofNat 32 n) = spAddress m - BitVec.ofNat 32 n := address68k_sub hfit

theorem pushed_address (hfit : w.bytes ≤ (spAddress m).toNat) :
    spAddress (pushed w v m) = spAddress m - BitVec.ofNat 32 w.bytes := by
  rw [spAddress, pushed_a7]
  exact spAddress_sub hfit

theorem below_of_offset {p : Long} {n i : ℕ} (hfit : n ≤ p.toNat) (hi : i < n) :
    Below p n (p - BitVec.ofNat 32 n + BitVec.ofNat 32 i) := by
  have hlt := p.isLt
  have htoNat : (p - BitVec.ofNat 32 n + BitVec.ofNat 32 i).toNat = p.toNat - n + i := by
    rw [BitVec.toNat_add, BitVec.toNat_sub, BitVec.toNat_ofNat, BitVec.toNat_ofNat,
      Nat.mod_eq_of_lt (by omega : n < 2 ^ 32), Nat.mod_eq_of_lt (by omega : i < 2 ^ 32)]
    omega
  constructor <;> omega

theorem pushed_bytes (hfit : w.bytes ≤ (spAddress m).toNat) {x : Long} (hx : ¬ Below (spAddress m) w.bytes x) :
    memByte (pushed w v m).memory x = memByte m.memory x := by
  apply memByte_write_of_ne
  intro i hi heq
  apply hx
  rw [heq, spAddress_sub hfit]
  exact below_of_offset hfit hi

theorem pushed_holds (hr : Room inUse m w.bytes) (hv : v.toNat < 2 ^ w.bits) :
    Holds w (spAddress (pushed w v m)) v (pushed w v m) := by
  have haddr := spAddress_sub hr.fit
  have hopen : ∀ i < w.bytes,
      Below (spAddress m) w.bytes (spAddress m - BitVec.ofNat 32 w.bytes + BitVec.ofNat 32 i) :=
    fun i hi => below_of_offset hr.fit hi
  have ha : SameAccess m (withA 7 (m.cpu.a 7 - BitVec.ofNat 32 w.bytes) m) := withA_access ..
  rw [pushed_address v hr.fit]
  refine ⟨fun i hi => ((pushed_access v m).readable_iff _).mpr (hr.readable _ (hopen i hi)), ?_⟩
  rw [pushed, haddr]
  exact read_written v hv fun i hi =>
    ⟨(ha.readable_iff _).mpr (hr.readable _ (hopen i hi)), (ha.writable_iff _).mpr (hr.writable _ (hopen i hi))⟩

theorem Room.pushed {n : ℕ} (hr : Room inUse m (w.bytes + n)) :
    Room inUse m w.bytes ∧ Room (Using inUse (spAddress m) w.bytes) (pushed w v m) n := by
  have hfit := hr.fit
  have hsub := pushed_address (w := w) v (m := m) (by omega)
  have hnat : (spAddress (M68k.pushed w v m)).toNat = (spAddress m).toNat - w.bytes := by
    rw [hsub, sub_toNat (by omega)]
  have hfar : ∀ x, Below (spAddress (M68k.pushed w v m)) n x → Below (spAddress m) (w.bytes + n) x := by
    intro x hx
    rw [hsub] at hx
    exact hx.far (by omega)
  have ha := pushed_access (w := w) v m
  refine ⟨⟨by omega, fun x hx => hr.readable x hx.near, fun x hx => hr.writable x hx.near,
    fun x hx => hr.free x hx.near⟩, ⟨by omega, ?_, ?_, ?_⟩⟩
  · exact fun x hx => (ha.readable_iff x).mpr (hr.readable x (hfar x hx))
  · exact fun x hx => (ha.writable_iff x).mpr (hr.writable x (hfar x hx))
  · rintro x hx (huse | hnear)
    · exact hr.free x (hfar x hx) huse
    · have h₁ := hx.2
      have h₂ := hnear.1
      omega

theorem pulled_pushed (hr : Room inUse m w.bytes) (hv : v.toNat < 2 ^ w.bits)
    (hk : Keeps (Using inUse (spAddress m) w.bytes) (pushed w v m) m₂) :
    pulled w m₂ = (v, withA 7 (m.cpu.a 7) m₂) := by
  have hholds : Holds w (spAddress m₂) v m₂ := by
    rw [hk.spAddress]
    refine (pushed_holds v hr hv).congr hk.access fun i hi => hk.bytes _ (Or.inr ?_)
    rw [pushed_address v hr.fit]
    exact below_of_offset hr.fit hi
  have hsum : m₂.cpu.a 7 + BitVec.ofNat 32 w.bytes = m.cpu.a 7 := by
    rw [hk.a7, pushed_a7, BitVec.sub_add_cancel]
  have hmoved : Holds w (spAddress m₂) v (withA 7 (m.cpu.a 7) m₂) :=
    hholds.congr (withA_access ..) fun _ _ => rfl
  rw [pulled, hsum]
  exact hmoved.read

theorem Keeps.pulled (hr : Room inUse m w.bytes)
    (hk : Keeps (Using inUse (M68k.spAddress m) w.bytes) (pushed w v m) m₂) :
    Keeps inUse m (withA 7 (m.cpu.a 7) m₂) where
  a7 := withA_self ..
  banks b hb := by
    have hcpu := pushed_cpu (w := w) v m
    refine (hk.banks b ?_).trans (by rw [hcpu]; rfl)
    rw [hcpu]
    exact hb
  mFlag := hk.mFlag.trans (by rw [pushed_cpu]; rfl)
  access := (pushed_access v m).trans (hk.access.trans (withA_access ..))
  bytes x hx := (hk.bytes x (Or.inl hx)).trans (pushed_bytes v hr.fit fun hb => hr.free x hb hx)

end Push

end Tosemu.M68k
