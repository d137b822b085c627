import Tosemu.LinkedList
import Tosemu.Machine

/-!
The list of `memory.c` as it lies in the host's heap. Everywhere else guest memory is the list of
areas alone; here its cells have addresses and `next` pointers, as the loops over it see them.
-/

namespace Tosemu.MemoryAreas

open LinkedList

abbrev Areas := Chain ℕ Memarea

section Add

variable (malloc : Option ℕ) (flags : Byte) (base len : Long)

def addFnctMemoryArea (handler : Handler) (c : Areas) : Int × Areas :=
  match malloc with
  | none => (1, c)
  | some p => (0, c.push p ⟨base, len, handler, flags⟩)

def addPtrMemoryArea (buf : Buffer) (c : Areas) : Int × Areas :=
  addFnctMemoryArea malloc flags base len (.ptr buf) c

end Add

def removeLoop (base : Long) : ℕ → Option ℕ → Option ℕ → Areas → Option (Int × Areas)
  | 0, _, _, _ => none
  | _ + 1, _, none, c => some (1, c)
  | n + 1, prev, some p, c =>
    match c.node p with
    | none => none
    | some area =>
      if area.value.base = base then
        let c := match prev with
          | some q => c.setNext q area.next
          | none => { c with head := area.next }
        some (0, c.free p)
      else
        -- only `prev` moves: `ptr` is the same in the next round
        removeLoop base n (some p) (some p) c

def removeMemoryArea (fuel : ℕ) (base : Long) (c : Areas) : Option (Int × Areas) :=
  removeLoop base fuel none c.head c

def resetMemory : ℕ → Areas → Option Areas
  | 0, _ => none
  | n + 1, c =>
    match c.head with
    | none => some c
    | some p => do
      let area ← c.node p
      let r ← removeMemoryArea (n + 1) area.value.base c
      resetMemory n r.2

def findLoop (address : Long) : ℕ → Option ℕ → Areas → Option (Option Memarea)
  | 0, _, _ => none
  | _ + 1, none, _ => some none
  | n + 1, some p, c =>
    match c.node p with
    | none => none
    | some area =>
      if area.value.hits address then some (some area.value) else findLoop address n area.next c

/-- The lists that calls of the two functions build, beside the areas in them, last added first. -/
inductive Built : Areas → List Memarea → Prop
  | start : Built Chain.empty []
  | fnct {c : Areas} {areas : List Memarea} {malloc : Option ℕ} (flags : Byte) (base len : Long)
      (handler : Handler) (h : Built c areas) (hp : ∀ p ∈ malloc, c.node p = none) :
      Built (addFnctMemoryArea malloc flags base len handler c).2
        (if malloc.isSome then Tosemu.addFnctMemoryArea flags base len handler areas else areas)
  | ptr {c : Areas} {areas : List Memarea} {malloc : Option ℕ} (flags : Byte) (base len : Long)
      (buf : Buffer) (h : Built c areas) (hp : ∀ p ∈ malloc, c.node p = none) :
      Built (addPtrMemoryArea malloc flags base len buf c).2
        (if malloc.isSome then Tosemu.addPtrMemoryArea flags base len buf areas else areas)

theorem holds_addFnct {c : Areas} {areas : List Memarea} (h : c.Holds areas) {malloc : Option ℕ}
    (hp : ∀ p ∈ malloc, c.node p = none) (flags : Byte) (base len : Long) (handler : Handler) :
    (addFnctMemoryArea malloc flags base len handler c).2.Holds
      (if malloc.isSome then Tosemu.addFnctMemoryArea flags base len handler areas else areas) := by
  cases malloc with
  | none => exact h
  | some p => exact h.push (hp p rfl) _

theorem Built.holds {c : Areas} {areas : List Memarea} (h : Built c areas) : c.Holds areas := by
  induction h with
  | start => exact Chain.Holds.empty
  | fnct flags base len handler _ hp ih => exact holds_addFnct ih hp flags base len handler
  | ptr flags base len buf _ hp ih => exact holds_addFnct ih hp flags base len (.ptr buf)

theorem findLoop_holds {c : Areas} {areas : List Memarea} (h : c.Holds areas) (address : Long)
    {n : ℕ} (hn : areas.length < n) :
    findLoop address n c.head c = some (findMemarea areas address) := by
  suffices key : ∀ head, { c with head := head }.Holds areas →
      findLoop address n head c = some (findMemarea areas address) from key c.head h
  clear h
  induction areas generalizing n with
  | nil =>
    intro head h
    obtain ⟨n, rfl⟩ := Nat.exists_eq_succ_of_ne_zero (by omega : n ≠ 0)
    have hh : head = none := h.head_nil
    rw [hh]
    rfl
  | cons area areas ih =>
    intro head h
    rw [List.length_cons] at hn
    obtain ⟨n, rfl⟩ := Nat.exists_eq_succ_of_ne_zero (by omega : n ≠ 0)
    obtain ⟨p, next, hh, hnode, hrest⟩ := h.tail
    have hh' : head = some p := hh
    have hnode' : c.node p = some ⟨area, next⟩ := hnode
    rw [hh', findLoop, hnode', findMemarea, List.find?_cons]
    cases hhit : area.hits address with
    | true => simp [hhit]
    | false =>
      have hfind := ih (by omega : areas.length < n) next hrest
      simpa [hhit, findMemarea] using hfind

theorem removeMemoryArea_head {c : Areas} {area : Memarea} {areas : List Memarea}
    (h : c.Holds (area :: areas)) (fuel : ℕ) :
    ∃ c', removeMemoryArea (fuel + 1) area.base c = some (0, c') ∧ c'.Holds areas := by
  obtain ⟨p, next, hh, hnode, hrest⟩ := h.pop
  refine ⟨_, ?_, hrest⟩
  simp only [removeMemoryArea, hh, removeLoop, hnode, ↓reduceIte]

theorem removeLoop_stuck {c : Areas} {p : ℕ} {area : Node ℕ Memarea} (hp : c.node p = some area)
    {base : Long} (hb : area.value.base ≠ base) (prev : Option ℕ) (fuel : ℕ) :
    removeLoop base fuel prev (some p) c = none := by
  induction fuel generalizing prev with
  | zero => rfl
  | succ n ih => simp only [removeLoop, hp, if_neg hb, ih]

theorem resetMemory_holds {c : Areas} {areas : List Memarea} (h : c.Holds areas) {n : ℕ}
    (hn : areas.length < n) : ∃ c', resetMemory n c = some c' ∧ c'.Holds [] := by
  induction areas generalizing c n with
  | nil =>
    obtain ⟨n, rfl⟩ := Nat.exists_eq_succ_of_ne_zero (by omega : n ≠ 0)
    exact ⟨c, by rw [resetMemory, h.head_nil], h⟩
  | cons area areas ih =>
    rw [List.length_cons] at hn
    obtain ⟨n, rfl⟩ := Nat.exists_eq_succ_of_ne_zero (by omega : n ≠ 0)
    obtain ⟨p, next, hh, hnode, -⟩ := h.tail
    obtain ⟨c', hc', hrest⟩ := removeMemoryArea_head h n
    obtain ⟨c'', hreset, hempty⟩ := ih hrest (by omega : areas.length < n)
    refine ⟨c'', ?_, hempty⟩
    simp only [resetMemory, hh, hnode, Option.bind_eq_bind, Option.bind_some, hc', hreset]

def RemovesOne (base : Long) (c : Areas) (areas : List Memarea) : Prop :=
  ∃ fuel r c', removeMemoryArea fuel base c = some (r, c') ∧
    if ∃ area ∈ areas, area.base = base then
      r = 0 ∧ c'.Holds (areas.eraseP (fun area => area.base = base))
    else r = 1 ∧ c' = c

theorem removes_one_iff_at_head {c : Areas} {areas : List Memarea} (h : Built c areas)
    (base : Long) : RemovesOne base c areas ↔ ∀ area ∈ areas.head?, area.base = base := by
  have hc := h.holds
  cases areas with
  | nil =>
    refine ⟨fun _ => by simp, fun _ => ⟨1, 1, c, ?_, by simp⟩⟩
    rw [removeMemoryArea, hc.head_nil, removeLoop]
  | cons area areas =>
    constructor
    · rintro ⟨fuel, r, c', hrun, -⟩ _ ha
      obtain rfl := Option.some.inj ha
      obtain ⟨p, next, hh, hnode, -⟩ := hc.tail
      by_contra hb
      rw [removeMemoryArea, hh, removeLoop_stuck hnode hb] at hrun
      exact Option.some_ne_none _ hrun.symm
    · intro hbase
      obtain rfl := hbase area rfl
      obtain ⟨c', hrun, hrest⟩ := removeMemoryArea_head hc 0
      refine ⟨1, 0, c', hrun, ?_⟩
      rw [if_pos ⟨area, List.mem_cons_self, rfl⟩, List.eraseP_cons_of_pos (by simp)]
      exact ⟨rfl, hrest⟩

def oneArea : Areas :=
  (addPtrMemoryArea (some 0) MEMORY_READWRITE 0x900 0x100 ⟨0x100, fun _ => 0⟩ Chain.empty).2

def twoAreas : Areas :=
  (addFnctMemoryArea (some 1) MEMORY_SUPERREAD 0x200 0x2 .supexec oneArea).2

theorem oneArea_built : Built oneArea [⟨0x900, 0x100, .ptr ⟨0x100, fun _ => 0⟩, MEMORY_READWRITE⟩] :=
  Built.ptr MEMORY_READWRITE 0x900 0x100 ⟨0x100, fun _ => 0⟩ Built.start (fun _ _ => rfl)

theorem twoAreas_built : Built twoAreas
    [⟨0x200, 0x2, .supexec, MEMORY_SUPERREAD⟩,
      ⟨0x900, 0x100, .ptr ⟨0x100, fun _ => 0⟩, MEMORY_READWRITE⟩] :=
  Built.fnct MEMORY_SUPERREAD 0x200 0x2 .supexec oneArea_built
    (fun p hp => by obtain rfl := Option.some.inj hp; rfl)

theorem removes_one_at_head : RemovesOne 0x200 twoAreas
    [⟨0x200, 0x2, .supexec, MEMORY_SUPERREAD⟩, ⟨0x900, 0x100, .ptr ⟨0x100, fun _ => 0⟩, MEMORY_READWRITE⟩] :=
  (removes_one_iff_at_head twoAreas_built 0x200).mpr (by simp)

theorem remove_second_area_diverges : ¬ (∀ (c : Areas) (areas : List Memarea), Built c areas →
    ∀ base, RemovesOne base c areas) ∧
    ∀ fuel, removeMemoryArea fuel 0x900 twoAreas = none := by
  have hstuck : ∀ fuel, removeMemoryArea fuel 0x900 twoAreas = none := by
    intro fuel
    exact removeLoop_stuck (c := twoAreas) (p := 1) rfl (by decide) none fuel
  refine ⟨fun hall => ?_, hstuck⟩
  obtain ⟨fuel, r, c', hrun, -⟩ := hall twoAreas _ twoAreas_built 0x900
  rw [hstuck fuel] at hrun
  exact Option.some_ne_none _ hrun.symm

end Tosemu.MemoryAreas
