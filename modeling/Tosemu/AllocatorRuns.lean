import Tosemu.AllocatorInvariant

namespace Tosemu.Allocator

open Ranges Runs

def ramEnd : ℕ := 0x900 + tosSize.toNat

/-- A difference that is large enough for `Malloc` has not wrapped, and `Mshrink` leaves the basepage
in the program block. -/
def LeavesRam (s : MemState) : MemCall → Prop
  | .malloc newsiz => newsiz ≠ -1 → ∀ ma ∈ s.memList,
      newsiz < s.memAllocatableTop - ma.top → ma.top ≤ s.memAllocatableTop
  | .mshrink block newsiz => block = 0x800 → (∃ ma ∈ s.memList, ma.base = block) → 0x100 ≤ newsiz
  | .mfree _ => True

def AllocatesRam (s : MemState) : MemCall → Prop
  | .malloc newsiz => newsiz ≠ -1 → (gemdosMalloc newsiz s).1 ≠ 0 →
      ∃ before after, (gemdosMalloc newsiz s).2.memList =
          before ++ ⟨(gemdosMalloc newsiz s).1, newsiz⟩ :: after ∧
        0x900 ≤ (gemdosMalloc newsiz s).1.toNat ∧
        (gemdosMalloc newsiz s).1.toNat + newsiz.toNat ≤ ramEnd ∧
        ∀ ma ∈ before ++ after, (MemArea.mk (gemdosMalloc newsiz s).1 newsiz).range.Disjoint ma.range
  | _ => True

instance (s : MemState) : ∀ call, Decidable (LeavesRam s call)
  | .malloc newsiz => inferInstanceAs (Decidable (newsiz ≠ -1 → ∀ ma ∈ s.memList,
      newsiz < s.memAllocatableTop - ma.top → ma.top ≤ s.memAllocatableTop))
  | .mfree _ => inferInstanceAs (Decidable True)
  | .mshrink block newsiz =>
    inferInstanceAs (Decidable (block = 0x800 → (∃ ma ∈ s.memList, ma.base = block) → 0x100 ≤ newsiz))

structure InRam (s : MemState) : Prop where
  ordered : Ordered ramEnd s.memList
  above : ∀ ma ∈ s.memList, AboveBasepage ma
  start : 0x900 ≤ s.memAllocatableTop
  top : s.memAllocatableTop.toNat ≤ ramEnd

theorem inRam_init : InRam (gemdosMemInit tosSize) := by
  refine ⟨⟨List.pairwise_singleton _ _, ?_⟩, ?_, by decide, by decide⟩
  · intro ma hma
    rw [List.mem_singleton.mp hma]
    decide
  · intro ma hma
    rw [List.mem_singleton.mp hma]
    exact Or.inl ⟨rfl, by decide⟩

theorem Ordered.disjoint {limit : ℕ} {before after : List MemArea} {ma : MemArea}
    (h : Ordered limit (before ++ ma :: after)) :
    ∀ x ∈ before ++ after, ma.range.Disjoint x.range := by
  intro x hx
  rcases List.mem_append.mp hx with hx | hx
  · exact (Range.disjoint_of_le (h.parts.1 x hx)).symm
  · exact Range.disjoint_of_le (h.parts.2 x hx)

theorem mfree_inRam (block : Long) {s : MemState} (h : InRam s) : InRam (gemdosMfree block s).2 := by
  have habove := mfree_above block h.above
  rcases gemdosMfree_cases block s with he | ⟨before, ma, after, hl, -, he⟩
  · rwa [he]
  · rw [he] at habove ⊢
    exact ⟨(hl ▸ h.ordered).remove, habove, h.start, h.top⟩

theorem mshrink_inRam (block newsiz : Long) {s : MemState} (h : InRam s)
    (hc : LeavesRam s (.mshrink block newsiz)) : InRam (gemdosMshrink block newsiz s).2 := by
  have habove := mshrink_above block newsiz h.above fun h800 hin _ => hc h800 hin
  rcases gemdosMshrink_cases block newsiz s with he | he | ⟨before, ma, after, hl, -, hn, he⟩
  · rwa [he]
  · rwa [he]
  · rw [he] at habove ⊢
    exact ⟨(hl ▸ h.ordered).shrink hn, habove, h.start, h.top⟩

theorem malloc_inRam (newsiz : Long) {s : MemState} (h : InRam s)
    (hc : LeavesRam s (.malloc newsiz)) :
    InRam (gemdosMalloc newsiz s).2 ∧ AllocatesRam s (.malloc newsiz) := by
  by_cases hn : newsiz = -1
  · have he := gemdosMalloc_query hn s
    exact ⟨by rw [he]; exact h, fun hne => absurd hn hne⟩
  · rcases gemdosMalloc_cases h.ordered (by decide) h.top hn h.start (hc hn) with
      he | ⟨g, -, before, after, hl, he, hfrom, hord⟩
    · exact ⟨by rw [he]; exact h, fun _ hne => absurd (by rw [he]) hne⟩
    · have habove := h.above
      rw [hl, List.forall_mem_append] at habove
      obtain ⟨hbefore, hafter⟩ := habove
      have hstart : 0x900 ≤ g.1.toNat := by
        rcases hfrom with h900 | ⟨ma, hma, htop⟩
        · rw [h900]
          decide
        · rw [htop]
          exact (hbefore ma hma).hi
      have hall : ∀ ma ∈ before ++ ⟨g.1, newsiz⟩ :: after, AboveBasepage ma := by
        simp only [List.forall_mem_append, List.forall_mem_cons]
        exact ⟨hbefore, Or.inr hstart, hafter⟩
      refine ⟨by rw [he]; exact ⟨hord, hall, h.start, h.top⟩, fun _ _ => ⟨before, after, ?_⟩⟩
      rw [he]
      have hin := hord.bounded ⟨g.1, newsiz⟩ (by simp)
      exact ⟨rfl, hstart, hin.2, hord.disjoint⟩

theorem step_inRam (s : MemState) (call : MemCall) (h : InRam s) (hc : LeavesRam s call) :
    InRam (memStep s call).2 ∧ AllocatesRam s call := by
  cases call with
  | malloc newsiz => exact malloc_inRam newsiz h hc
  | mfree block => exact ⟨mfree_inRam block h, trivial⟩
  | mshrink block newsiz => exact ⟨mshrink_inRam block newsiz h hc, trivial⟩

theorem allocated_blocks_in_ram (calls : List MemCall)
    (h : Along memStep LeavesRam (gemdosMemInit tosSize) calls) :
    Along memStep AllocatesRam (gemdosMemInit tosSize) calls :=
  along_mono (fun s call hs hc => (step_inRam s call hs hc).1)
    (fun s call hs hc => (step_inRam s call hs hc).2) inRam_init h

theorem allocated_blocks_in_ram_run :
    let calls := [.mshrink 0x800 0x1000, .malloc 0x20, .malloc 0x10, .mfree 0x1800, .malloc 8, .malloc 0x40]
    Along memStep LeavesRam (gemdosMemInit tosSize) calls ∧
      Along memStep AllocatesRam (gemdosMemInit tosSize) calls := by
  intro calls
  have h : Along memStep LeavesRam (gemdosMemInit tosSize) calls := by decide +kernel
  exact ⟨h, allocated_blocks_in_ram _ h⟩

theorem first_malloc_outside_ram :
    (gemdosMalloc 1 (gemdosMemInit tosSize)).1.toNat = ramEnd ∧
      ¬ ∀ calls, Along memStep AllocatesRam (gemdosMemInit tosSize) calls := by
  refine ⟨by decide, fun h => ?_⟩
  obtain ⟨_, _, -, -, hend, -⟩ := (h [.malloc 1]).1 (by decide) (by decide)
  exact absurd hend (by decide)

end Tosemu.Allocator
