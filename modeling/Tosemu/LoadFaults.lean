import Tosemu.MainStart

namespace Tosemu

def UserByte (x : Long) : Prop := x.toNat < 0x1ff ∨ 0x800 ≤ x.toNat ∧ x.toNat < 0xF9FFFF

instance (x : Long) : Decidable (UserByte x) := inferInstanceAs (Decidable (_ ∨ _))

section Access

variable {b : TosBuffers} {m : Machine} {x : Long}

theorem UserByte.accessible (hx : UserByte x) (hm : m.memory = registerAreas b)
    (hu : m.cpu.sFlag = false) : Readable m x ∧ Writable m x := by
  have huser := registerAreas_userMap b hm hu
  have hsize := tosSize_toNat
  have hbyte : (memByte m.memory x).isSome := by
    rw [memByte, hm, findMemarea_registerAreas, tosLookup]
    unfold UserByte at hx
    split_ifs <;> first | rfl | omega
  have hopen : ∀ flags ∈ [MEMORY_READWRITE ||| MEMORY_SUPERWRITE, MEMORY_READWRITE],
      flags &&& MEMORY_READ ≠ 0 ∧ flags &&& MEMORY_WRITE ≠ 0 := by decide
  have hflags : memFlags m.memory x &&& MEMORY_READ ≠ 0 ∧ memFlags m.memory x &&& MEMORY_WRITE ≠ 0 := by
    rw [memFlags, hm, findMemarea_registerAreas, tosLookup]
    unfold UserByte at hx
    split_ifs <;> first | omega | exact hopen _ (by simp [userram])
  rw [Readable, Writable, huser.readMask, huser.writeMask]
  exact ⟨⟨hbyte, hflags.1⟩, hbyte, hflags.2⟩

theorem userByte_of_writable (hm : m.memory = registerAreas b) (hu : m.cpu.sFlag = false)
    (hw : Writable m x) : UserByte x := by
  by_contra hx
  simp only [UserByte, not_or, not_and, not_lt] at hx
  by_cases hhi : x.toNat < 0x800
  · obtain ⟨hb, hf⟩ := hw
    rw [(registerAreas_userMap b hm hu).writeMask, hm] at hf
    by_cases hlo : 0x200 ≤ x.toNat
    · exact hf (supervisor_closed b hlo hhi)
    · rw [memFlags, findMemarea_registerAreas, tosLookup, if_neg (by omega), if_neg (by omega), if_neg (by omega),
        if_neg (by omega), if_neg (by omega), if_neg (by omega)] at hf
      exact hf rfl
  · have hb := hw.1
    rw [hm] at hb
    exact absurd (mapped_bounds hb).1 (by have := hx.2; omega)

theorem accessible_iff (hm : m.memory = registerAreas b) (hu : m.cpu.sFlag = false) (a : Long) :
    Accessible m a ↔ ∀ k < 4, UserByte (a + BitVec.ofNat 32 k) :=
  ⟨fun h k hk => userByte_of_writable hm hu (h k hk).2, fun h k hk => (h k hk).accessible hm hu⟩

end Access

section Load

variable {host : Endian} {heap : Heap} {binary : List Byte} {argv : List (List Byte)}
  {tosBasePath : Option (List Byte)}

/-- Relocation, had it started with the flag set, clears it: some access called `halt_execution`. -/
def RelocationFaults (host : Endian) (heap : Heap) (binary : List Byte) (argv : List (List Byte))
    (tosBasePath : Option (List Byte)) : Prop :=
  (binary.drop 26).take 2 = [0, 0] ∧
    ∃ m, relocate host binary (fileEnvironment host binary tosBasePath)
      { mappedFile host heap binary argv tosBasePath with keepongoing := true } = .ok m ∧
      m.keepongoing = false

theorem relocated_keepongoing {m : Machine} (habs : (binary.drop 26).take 2 = [0, 0])
    (hm : relocate host binary (fileEnvironment host binary tosBasePath)
      { mappedFile host heap binary argv tosBasePath with keepongoing := true } = .ok m) :
    m.keepongoing = decide (∀ a ∈ loadTargets host binary, ∀ k < 4, UserByte (a + BitVec.ofNat 32 k)) := by
  have huser : UserMap { mappedFile host heap binary argv tosBasePath with keepongoing := true } :=
    registerAreas_userMap _ rfl rfl
  have hacc : ∀ a, Accessible { mappedFile host heap binary argv tosBasePath with keepongoing := true } a ↔
      ∀ k < 4, UserByte (a + BitVec.ofNat 32 k) := fun a => accessible_iff rfl rfl a
  rw [(relocate_relocated huser habs hm).running, Bool.true_and, decide_eq_decide]
  simp only [hacc]

theorem relocationFaults_iff {te : TosEnvironment} {m : Machine}
    (hload : initTosEnvironment host heap binary argv tosBasePath = .ok (te, m)) :
    RelocationFaults host heap binary argv tosBasePath ↔
      ¬ ∀ a ∈ loadTargets host binary, ∀ k < 4, UserByte (a + BitVec.ofNat 32 k) := by
  constructor
  · rintro ⟨habs, m', hm', hk⟩
    rw [relocated_keepongoing habs hm'] at hk
    exact of_decide_eq_false hk
  · intro hout
    have habs : (binary.drop 26).take 2 = [0, 0] := by
      by_contra hne
      rw [loadTargets, if_pos (Or.inl hne)] at hout
      exact hout (fun a ha => absurd ha List.not_mem_nil)
    obtain ⟨rfl, m', -, -, hrel⟩ := load_cases hload
    -- whether the table ends does not depend on the machine
    obtain ⟨-, m'', hm''⟩ | ⟨hopen, -⟩ := @relocate_cases host binary tosBasePath
      { mappedFile host heap binary argv tosBasePath with keepongoing := true }
    · refine ⟨habs, m'', hm'', ?_⟩
      rw [relocated_keepongoing habs hm'']
      exact decide_eq_false hout
    · obtain ⟨hend, -⟩ | ⟨-, j, hj⟩ := @relocate_cases host binary tosBasePath
        (mappedFile host heap binary argv tosBasePath)
      · exact absurd hend hopen
      · rw [hrel habs] at hj
        cases hj

theorem load_fault_stops_iff (host : Endian) (heap : Heap) (binary : List Byte) (argv : List (List Byte))
    (tosBasePath : Option (List Byte)) (te : TosEnvironment) (m : Machine)
    (hload : initTosEnvironment host heap binary argv tosBasePath = .ok (te, m)) :
    (RelocationFaults host heap binary argv tosBasePath →
        m.keepongoing = false ∧ (startCpu te m).keepongoing = false) ↔
      ∀ a ∈ loadTargets host binary, ∀ k < 4, UserByte (a + BitVec.ofNat 32 k) := by
  have hstart := startCpu_keepongoing hload
  obtain ⟨-, m', rfl, -⟩ := load_cases hload
  rw [relocationFaults_iff hload, hstart]
  constructor
  · intro h
    by_contra hout
    exact Bool.noConfusion (h hout).1
  · exact fun hin hout => absurd hin hout

def faultBinary : List Byte :=
  [0x60, 0x1a] ++ List.replicate 26 0 ++ [0xff, 0xff, 0xfa, 0x00, 0]

theorem load_fault_stops_moved : ∃ te m,
    initTosEnvironment .little emptyHeap bssBinary [] none = .ok (te, m) ∧
      ¬ RelocationFaults .little emptyHeap bssBinary [] none := by
  have htargets : loadTargets .little bssBinary = [0x904, 0x90c] := by decide
  have hin : ∀ a ∈ loadTargets .little bssBinary, ∀ k < 4, UserByte (a + BitVec.ofNat 32 k) := by
    rw [htargets, List.forall_mem_cons, List.forall_mem_singleton]
    decide
  refine ⟨_, _, rfl, fun hfault => ?_⟩
  exact Bool.noConfusion ((load_fault_stops_iff .little emptyHeap bssBinary [] none _ _ rfl).mpr hin hfault).1

theorem load_fault_goes_on : ∃ te m,
    initTosEnvironment .little emptyHeap faultBinary [] none = .ok (te, m) ∧
      RelocationFaults .little emptyHeap faultBinary [] none ∧ m.keepongoing = true := by
  refine ⟨_, _, rfl, ⟨rfl, _, rfl, ?_⟩, rfl⟩
  decide +kernel

end Load

end Tosemu
