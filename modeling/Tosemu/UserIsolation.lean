import Tosemu.GuestMemory
import Tosemu.Runs
import Tosemu.TosMap

namespace Tosemu

open Runs

inductive Access
  | read (w : Width) (a : Long)
  | write (w : Width) (a v : Long)

namespace Access

def width : Access → Width
  | read w _ => w
  | write w _ _ => w

def address : Access → Long
  | read _ a => a
  | write _ a _ => a

def mask (m : Machine) : Access → Byte
  | read _ _ => m.readMask
  | write _ _ _ => m.writeMask

end Access

def accessStep (m : Machine) : Access → Long × Machine
  | .read w a => m68kReadMemory w a m
  | .write w a v => (0, m68kWriteMemory w a v m)

def InBuffer (m : Machine) (c : Access) : Prop :=
  ∀ k < c.width.bytes, ∀ area, findMemarea m.memory (c.address + BitVec.ofNat 32 k) = some area →
    area.flags &&& c.mask m ≠ 0 →
      ∃ buf, area.handler = .ptr buf ∧ area.index (c.address + BitVec.ofNat 32 k) < buf.size

def Memarea.UserSound (area : Memarea) : Prop :=
  area.PtrBacked ∨ (area.handler = .supexec ∧ area.flags &&& MEMORY_READWRITE = 0)

/-- What user mode relies on: nothing without a buffer is open to it. -/
structure UserMap (m : Machine) : Prop where
  user : m.cpu.sFlag = false
  sound : ∀ area ∈ m.memory, area.UserSound

theorem Memarea.index_lt {area : Memarea} {x : Long} (h : area.hits x) :
    area.index x < area.len.toNat := by
  simp only [hits, Bool.and_eq_true, decide_eq_true_eq, BitVec.le_def, BitVec.lt_def,
    BitVec.toNat_add] at h
  rw [index, BitVec.toNat_sub_of_le (BitVec.le_def.mpr h.1)]
  omega

theorem hits_of_findMemarea {memory : List Memarea} {x : Long} {area : Memarea}
    (h : findMemarea memory x = some area) : area.hits x :=
  List.find?_some (p := fun area : Memarea => area.hits x) h

theorem Memarea.UserSound.write {area : Memarea} (h : area.UserSound) (x : Long) (v : Byte) :
    (area.write x v).UserSound := by
  obtain ⟨buf, hb, hlen⟩ | ⟨hh, hf⟩ := h
  · left
    rw [Memarea.write, hb]
    exact ⟨_, rfl, hlen⟩
  · right
    rw [Memarea.write, hh]
    exact ⟨hh, hf⟩

theorem forall_storeByte {P : Memarea → Prop} {x : Long} {v : Byte}
    (hP : ∀ area, P area → P (area.write x v)) {memory : List Memarea} (h : ∀ area ∈ memory, P area) :
    ∀ area ∈ storeByte x v memory, P area := by
  induction memory with
  | nil => simp [storeByte]
  | cons area next ih =>
    obtain ⟨ha, hn⟩ := List.forall_mem_cons.mp h
    rw [storeByte]
    split_ifs
    · exact List.forall_mem_cons.mpr ⟨hP area ha, hn⟩
    · exact List.forall_mem_cons.mpr ⟨ha, ih hn⟩

namespace UserMap

variable {m : Machine}

theorem readMask (h : UserMap m) : m.readMask = MEMORY_READ := by
  simp [Machine.readMask, Cpu.isSupervisorModeEnabled_eq, h.user]

theorem writeMask (h : UserMap m) : m.writeMask = MEMORY_WRITE := by
  simp [Machine.writeMask, Cpu.isSupervisorModeEnabled_eq, h.user]

theorem closed {area : Memarea} (hf : area.flags &&& MEMORY_READWRITE = 0) (hu : UserMap m) :
    area.flags &&& m.readMask = 0 ∧ area.flags &&& m.writeMask = 0 := by
  have hr : MEMORY_READ = MEMORY_READWRITE &&& MEMORY_READ := by decide
  have hw : MEMORY_WRITE = MEMORY_READWRITE &&& MEMORY_WRITE := by decide
  rw [hu.readMask, hu.writeMask, hr, hw, ← BitVec.and_assoc, ← BitVec.and_assoc, hf]
  exact ⟨BitVec.zero_and, BitVec.zero_and⟩

theorem plain (h : UserMap m) (x : Long) : Plain m x := by
  intro hx
  cases hf : findMemarea m.memory x with
  | none => simp [memFlags, hf]
  | some area =>
    obtain ⟨buf, hb, -⟩ | ⟨-, hflags⟩ := h.sound area (List.mem_of_find?_eq_some hf)
    · simp [memByte, hf, Memarea.byteAt, hb] at hx
    · simpa [memFlags, hf] using (closed hflags h).1

theorem inBuffer (h : UserMap m) (c : Access) : InBuffer m c := by
  intro k _ area hf hmask
  obtain ⟨buf, hb, hlen⟩ | ⟨-, hflags⟩ := h.sound area (List.mem_of_find?_eq_some hf)
  · exact ⟨buf, hb, (Memarea.index_lt (hits_of_findMemarea hf)).trans_le hlen⟩
  · have hc := closed hflags h
    cases c with
    | read w a => exact absurd hc.1 hmask
    | write w a v => exact absurd hc.2 hmask

theorem haltUnless (h : UserMap m) (ok : Bool) : UserMap (haltUnless ok m) := ⟨h.user, h.sound⟩

theorem tosWrite (h : UserMap m) (x : Long) (v : Byte) : UserMap (tosWrite x v m) := by
  rw [tosWrite_eq]
  split_ifs
  · exact ⟨h.user, forall_storeByte (fun area ha => ha.write x v) h.sound⟩
  · exact ⟨h.user, h.sound⟩

theorem writeLoop (h : UserMap m) (n : ℕ) (a v : Long) : UserMap (writeLoop n a v m) := by
  induction n generalizing v m with
  | zero => exact h
  | succ n ih => exact ih (h.tosWrite _ _) _

theorem read_eq (h : UserMap m) (w : Width) (a : Long) :
    m68kReadMemory w a m =
      (BigEndian.pack ((List.range w.bytes).map (fun i => readByte m (a + BitVec.ofNat 32 i))) 0,
        Tosemu.haltUnless (decide (∀ i < w.bytes, Readable m (a + BitVec.ofNat 32 i))) m) := by
  rw [m68kReadMemory_eq, readLoop_plain _ _ _ _ (fun i _ => h.plain _)]

theorem accessStep (h : UserMap m) (c : Access) : UserMap (accessStep m c).2 := by
  cases c with
  | read w a =>
    rw [Tosemu.accessStep, h.read_eq]
    exact h.haltUnless _
  | write w a v =>
    rw [Tosemu.accessStep, m68kWriteMemory_eq]
    exact h.writeLoop _ _ _

end UserMap

structure Kept (m m' : Machine) : Prop where
  sameMap : SameMap m m'
  bytes : ∀ x, memFlags m.memory x &&& MEMORY_WRITE = 0 → memByte m'.memory x = memByte m.memory x

theorem Kept.trans {m m' m'' : Machine} (h : Kept m m') (h' : Kept m' m'') : Kept m m'' := by
  refine ⟨h.sameMap.trans h'.sameMap, fun x hx => ?_⟩
  rw [h'.bytes x (by rw [h.sameMap.flags]; exact hx), h.bytes x hx]

theorem accessStep_kept {m : Machine} (h : UserMap m) (c : Access) : Kept m (accessStep m c).2 := by
  cases c with
  | read w a =>
    rw [accessStep, h.read_eq]
    exact ⟨haltUnless_sameMap _ _, fun _ _ => rfl⟩
  | write w a v =>
    rw [accessStep, m68kWriteMemory_eq]
    refine ⟨writeLoop_sameMap _ _ _ _, fun x hx => memByte_writeLoop_of_ne _ _ _ _ ?_⟩
    intro _ _ _ hw
    exact hw.2 (by rw [h.writeMask]; exact hx)

theorem run_kept {m : Machine} (h : UserMap m) (accesses : List Access) :
    UserMap (run accessStep m accesses) ∧ Kept m (run accessStep m accesses) := by
  have hstep : ∀ m' c, UserMap m' ∧ Kept m m' → UserMap (accessStep m' c).2 ∧ Kept m (accessStep m' c).2 :=
    fun _ c hm => ⟨hm.1.accessStep c, hm.2.trans (accessStep_kept hm.1 c)⟩
  exact run_invariant hstep ⟨h, SameMap.refl m, fun _ _ => rfl⟩ accesses

structure Agree (m₁ m₂ : Machine) : Prop where
  flags : ∀ x, memFlags m₂.memory x = memFlags m₁.memory x
  mapped : ∀ x, (memByte m₂.memory x).isSome = (memByte m₁.memory x).isSome
  byte : ∀ x, memFlags m₁.memory x &&& MEMORY_READ ≠ 0 → memByte m₂.memory x = memByte m₁.memory x

section TwoRuns

variable {m₁ m₂ : Machine} (h₁ : UserMap m₁) (h₂ : UserMap m₂) (h : Agree m₁ m₂)

include h₁ h₂ h

theorem Agree.readable_iff (x : Long) : Readable m₂ x ↔ Readable m₁ x := by
  simp only [Readable, h.mapped, h.flags, h₁.readMask, h₂.readMask]

theorem Agree.writable_iff (x : Long) : Writable m₂ x ↔ Writable m₁ x := by
  simp only [Writable, h.mapped, h.flags, h₁.writeMask, h₂.writeMask]

theorem Agree.readByte_eq : readByte m₂ = readByte m₁ := by
  funext x
  simp only [readByte, h.readable_iff h₁ h₂]
  split_ifs with hr
  · rw [h.byte x (by rw [← h₁.readMask]; exact hr.2)]
  · rfl

theorem Agree.writeLoop (n : ℕ) (hn : n ≤ 4) (a v : Long) :
    Agree (writeLoop n a v m₁) (writeLoop n a v m₂) := by
  have hs₁ := writeLoop_sameMap n a v m₁
  have hs₂ := writeLoop_sameMap n a v m₂
  refine ⟨fun x => ?_, fun x => ?_, fun x hx => ?_⟩
  · rw [hs₁.flags, hs₂.flags, h.flags]
  · rw [hs₁.mapped, hs₂.mapped, h.mapped]
  · by_cases hw : ∃ i < n, x = a + BitVec.ofNat 32 i ∧ Writable m₁ x
    · obtain ⟨i, hi, rfl, hw⟩ := hw
      rw [memByte_writeLoop _ _ _ _ hi (by omega) hw,
        memByte_writeLoop _ _ _ _ hi (by omega) ((h.writable_iff h₁ h₂ _).mpr hw)]
    · rw [memByte_writeLoop_of_ne, memByte_writeLoop_of_ne, h.byte x (by rwa [← hs₁.flags])]
      · exact fun i hi he hwx => hw ⟨i, hi, he, hwx⟩
      · exact fun i hi he hwx => hw ⟨i, hi, he, (h.writable_iff h₁ h₂ _).mp hwx⟩

theorem Agree.accessStep (c : Access) :
    (accessStep m₁ c).1 = (accessStep m₂ c).1 ∧ Agree (accessStep m₁ c).2 (accessStep m₂ c).2 ∧
      ∃ ok : Bool, (accessStep m₁ c).2.keepongoing = (m₁.keepongoing && ok) ∧
        (accessStep m₂ c).2.keepongoing = (m₂.keepongoing && ok) := by
  cases c with
  | read w a =>
    rw [Tosemu.accessStep, Tosemu.accessStep, h₁.read_eq, h₂.read_eq, h.readByte_eq h₁ h₂]
    simp only [h.readable_iff h₁ h₂]
    exact ⟨trivial, ⟨h.flags, h.mapped, h.byte⟩, _, rfl, rfl⟩
  | write w a v =>
    rw [Tosemu.accessStep, Tosemu.accessStep, m68kWriteMemory_eq, m68kWriteMemory_eq,
      writeLoop_keepongoing, writeLoop_keepongoing]
    simp only [h.writable_iff h₁ h₂]
    exact ⟨trivial, h.writeLoop h₁ h₂ _ w.bytes_le a v, _, rfl, rfl⟩

end TwoRuns

structure Twin (k₁ k₂ : Bool) (m₁ m₂ : Machine) : Prop where
  left : UserMap m₁
  right : UserMap m₂
  agree : Agree m₁ m₂
  halted : ∃ ok : Bool, m₁.keepongoing = (k₁ && ok) ∧ m₂.keepongoing = (k₂ && ok)

theorem Twin.accessStep {k₁ k₂ : Bool} {m₁ m₂ : Machine} (h : Twin k₁ k₂ m₁ m₂) (c : Access) :
    (accessStep m₁ c).1 = (accessStep m₂ c).1 ∧
      Twin k₁ k₂ (accessStep m₁ c).2 (accessStep m₂ c).2 := by
  obtain ⟨hr, ha, ok, hk₁, hk₂⟩ := h.agree.accessStep h.left h.right c
  obtain ⟨ok', hk₁', hk₂'⟩ := h.halted
  refine ⟨hr, h.left.accessStep c, h.right.accessStep c, ha, ok' && ok, ?_, ?_⟩
  · rw [hk₁, hk₁', Bool.and_assoc]
  · rw [hk₂, hk₂', Bool.and_assoc]

theorem run_inBuffer {m : Machine} (h : UserMap m) (accesses : List Access) :
    Along Tosemu.accessStep InBuffer m accesses := by
  induction accesses generalizing m with
  | nil => trivial
  | cons c accesses ih => exact ⟨h.inBuffer c, ih (h.accessStep c)⟩

theorem registerAreas_userMap (b : TosBuffers) {m : Machine} (hm : m.memory = registerAreas b)
    (hu : m.cpu.sFlag = false) : UserMap m := by
  refine ⟨hu, ?_⟩
  have hsize : (tosSize.setWidth 32).toNat = tosSize.toNat := by decide
  rw [hm]
  simp only [registerAreas, addPtrMemoryArea, addFnctMemoryArea, List.forall_mem_cons]
  refine ⟨Or.inl ⟨_, rfl, b.supermem_size.ge⟩, Or.inl ⟨_, rfl, ?_⟩, Or.inl ⟨_, rfl, b.bp_size.ge⟩,
    Or.inl ⟨_, rfl, b.staticmem1_size.ge⟩, Or.inr ⟨rfl, by decide⟩, Or.inl ⟨_, rfl, ?_⟩, by simp⟩
  · rw [hsize, b.appmem_size]
  · rw [b.staticmem0_size]
    exact show (0x1ff : Long).toNat ≤ 0x200 by decide

theorem supervisor_closed (b : TosBuffers) {x : Long} (hlo : 0x200 ≤ x.toNat) (hhi : x.toNat < 0x800) :
    memFlags (registerAreas b) x &&& MEMORY_WRITE = 0 := by
  have hsuper : (MEMORY_SUPERREAD ||| MEMORY_SUPERWRITE) &&& MEMORY_WRITE = 0 := by decide
  rw [memFlags, findMemarea_registerAreas, tosLookup, if_neg (by omega)]
  split_ifs
  · rfl
  · exact hsuper
  · exact hsuper
  · omega
  · omega
  · rfl

theorem registerAreas_lookup (b₁ b₂ : TosBuffers) (x : Long) :
    memFlags (registerAreas b₂) x = memFlags (registerAreas b₁) x ∧
      (memByte (registerAreas b₂) x).isSome = (memByte (registerAreas b₁) x).isSome := by
  simp only [memFlags, memByte, findMemarea_registerAreas, tosLookup]
  split_ifs <;> exact ⟨rfl, rfl⟩

theorem user_isolation (b₁ b₂ : TosBuffers) (m₁ m₂ : Machine) (h₁ : m₁.memory = registerAreas b₁)
    (h₂ : m₂.memory = registerAreas b₂) (hu₁ : m₁.cpu.sFlag = false) (hu₂ : m₂.cpu.sFlag = false)
    (hagree : ∀ x, memFlags m₁.memory x &&& MEMORY_READ ≠ 0 →
      memByte m₂.memory x = memByte m₁.memory x)
    (accesses : List Access) :
    results accessStep m₁ accesses = results accessStep m₂ accesses ∧
      (∃ ok : Bool, (run accessStep m₁ accesses).keepongoing = (m₁.keepongoing && ok) ∧
        (run accessStep m₂ accesses).keepongoing = (m₂.keepongoing && ok)) ∧
      ∀ m ∈ [m₁, m₂], (run accessStep m accesses).cpu = m.cpu ∧
        (∀ x, 0x200 ≤ x.toNat → x.toNat < 0x800 →
          memByte (run accessStep m accesses).memory x = memByte m.memory x) ∧
        Along accessStep InBuffer m accesses := by
  have hm₁ := registerAreas_userMap b₁ h₁ hu₁
  have hm₂ := registerAreas_userMap b₂ h₂ hu₂
  have hlookup := registerAreas_lookup b₁ b₂
  rw [← h₁, ← h₂] at hlookup
  have htwin : Twin m₁.keepongoing m₂.keepongoing m₁ m₂ :=
    ⟨hm₁, hm₂, ⟨fun x => (hlookup x).1, fun x => (hlookup x).2, hagree⟩, true,
      (Bool.and_true _).symm, (Bool.and_true _).symm⟩
  obtain ⟨hresults, hrun⟩ := run_related (fun _ _ c h => h.accessStep c) htwin accesses
  have hone : ∀ b m, m.memory = registerAreas b → UserMap m →
      (run accessStep m accesses).cpu = m.cpu ∧
        (∀ x, 0x200 ≤ x.toNat → x.toNat < 0x800 →
          memByte (run accessStep m accesses).memory x = memByte m.memory x) ∧
        Along accessStep InBuffer m accesses := by
    intro b m hb hm
    have hk := (run_kept hm accesses).2
    refine ⟨hk.sameMap.cpu, fun x hlo hhi => hk.bytes x ?_, run_inBuffer hm accesses⟩
    rw [hb]
    exact supervisor_closed b hlo hhi
  refine ⟨hresults, hrun.halted, ?_⟩
  simp only [List.forall_mem_cons, List.not_mem_nil, false_imp_iff, implies_true, and_true]
  exact ⟨hone b₁ m₁ h₁ hm₁, hone b₂ m₂ h₂ hm₂⟩

def supervisorFilled (fill : Byte) : TosBuffers where
  staticmem0 := ⟨0x200, fun _ => 0⟩
  staticmem1 := ⟨0x600 - 0x380, fun _ => fill⟩
  bp := ⟨256, fun _ => 0⟩
  appmem := ⟨tosSize.toNat, fun _ => 0⟩
  supermem := ⟨512, fun _ => fill⟩
  staticmem0_size := rfl
  staticmem1_size := rfl
  bp_size := rfl
  appmem_size := rfl
  supermem_size := rfl

theorem user_isolation_filled :
    results accessStep (coldMachine (supervisorFilled 0)) [.read .long 0x600, .write .byte 0x900 1] =
      results accessStep (coldMachine (supervisorFilled 0xff))
        [.read .long 0x600, .write .byte 0x900 1] := by
  refine (user_isolation (supervisorFilled 0) (supervisorFilled 0xff) _ _ rfl rfl rfl rfl ?_ _).1
  intro x hx
  simp only [coldMachine, memFlags, memByte, findMemarea_registerAreas, tosLookup] at hx ⊢
  split_ifs at hx ⊢ <;> first | rfl | exact absurd rfl hx

end Tosemu
