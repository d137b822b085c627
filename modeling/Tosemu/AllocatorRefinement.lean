import Tosemu.AllocatorRuns

namespace Tosemu.Allocator

open Ranges Runs

def MemState.ranges (s : MemState) : Multiset (Range ℕ) := (s.memList.map MemArea.range : List _)

def CallSpec (s : MemState) : MemCall → Long × MemState → Prop
  | .malloc newsiz, (b, s') =>
    if newsiz ≠ -1 ∧ b ≠ 0 then
      ∃ before after, s.memList = before ++ after ∧
        s' = { s with memList := before ++ ⟨b, newsiz⟩ :: after } ∧
        b.toNat + newsiz.toNat < 2 ^ 32 ∧
        ∀ ma ∈ s.memList, (MemArea.mk b newsiz).range.Disjoint ma.range
    else s' = s
  | .mfree block, (r, s') =>
    if r = 0 then
      ∃ before ma after, s.memList = before ++ ma :: after ∧ ma.base = block ∧
        s' = { s with memList := before ++ after }
    else s' = s
  | .mshrink block newsiz, (r, s') =>
    if r = 0 then
      ∃ before ma after, s.memList = before ++ ma :: after ∧ ma.base = block ∧ newsiz ≤ ma.len ∧
        s' = { s with memList := before ++ { ma with len := newsiz } :: after }
    else s' = s

structure Managed (s : MemState) : Prop where
  ordered : Ordered s.memAllocatableTop.toNat s.memList
  top : 0x900 ≤ s.memAllocatableTop

theorem Managed.top_le {s : MemState} (h : Managed s) {ma : MemArea} (hma : ma ∈ s.memList) :
    ma.top ≤ s.memAllocatableTop := by
  have hb := (h.ordered.bounded ma hma).2
  rw [BitVec.le_def, MemArea.top_toNat hb s.memAllocatableTop.isLt]
  exact hb

theorem mfree_managed (block : Long) {s : MemState} (h : Managed s) :
    Managed (gemdosMfree block s).2 ∧ CallSpec s (.mfree block) (gemdosMfree block s) ∧
      Ranges.Step s.ranges (gemdosMfree block s).2.ranges := by
  rcases gemdosMfree_cases block s with he | ⟨before, ma, after, hl, hb, he⟩
  · rw [he]
    exact ⟨h, by simp [CallSpec, GEMDOS_EIMBA], .stay _⟩
  · rw [he]
    refine ⟨⟨(hl ▸ h.ordered).remove, h.top⟩, ?_, ?_⟩
    · simp only [CallSpec, ↓reduceIte]
      exact ⟨before, ma, after, hl, hb, rfl⟩
    · have hr : s.ranges = ma.range ::ₘ (((before ++ after).map MemArea.range : List _) : Multiset _) := by
        simp only [MemState.ranges, hl, List.map_append, List.map_cons, Multiset.cons_coe]
        exact Multiset.coe_eq_coe.mpr List.perm_middle
      rw [hr]
      exact .release _ _

theorem mshrink_managed (block newsiz : Long) {s : MemState} (h : Managed s) :
    Managed (gemdosMshrink block newsiz s).2 ∧
      CallSpec s (.mshrink block newsiz) (gemdosMshrink block newsiz s) ∧
      Ranges.Step s.ranges (gemdosMshrink block newsiz s).2.ranges := by
  rcases gemdosMshrink_cases block newsiz s with he | he | ⟨before, ma, after, hl, hb, hn, he⟩
  · rw [he]
    exact ⟨h, by simp [CallSpec, GEMDOS_EIMBA], .stay _⟩
  · rw [he]
    exact ⟨h, by simp [CallSpec, GEMDOS_EGSBF], .stay _⟩
  · rw [he]
    refine ⟨⟨(hl ▸ h.ordered).shrink hn, h.top⟩, ?_, ?_⟩
    · simp only [CallSpec, ↓reduceIte]
      exact ⟨before, ma, after, hl, hb, hn, rfl⟩
    · let t : MemArea := { ma with len := newsiz }
      have hmid : ∀ x : MemArea, (((before ++ x :: after).map MemArea.range : List _) : Multiset _) =
          x.range ::ₘ (((before ++ after).map MemArea.range : List _) : Multiset _) := by
        intro x
        simp only [List.map_append, List.map_cons, Multiset.cons_coe]
        exact Multiset.coe_eq_coe.mpr List.perm_middle
      simp only [MemState.ranges, hl]
      rw [hmid ma, hmid t]
      exact .shrink _ _ _ rfl (Nat.add_le_add_left hn _)

theorem malloc_managed (newsiz : Long) {s : MemState} (h : Managed s) :
    Managed (gemdosMalloc newsiz s).2 ∧ CallSpec s (.malloc newsiz) (gemdosMalloc newsiz s) ∧
      Ranges.Step s.ranges (gemdosMalloc newsiz s).2.ranges := by
  by_cases hn : newsiz = -1
  · have he := gemdosMalloc_query hn s
    refine ⟨by rw [he]; exact h, ?_, by rw [he]; exact .stay _⟩
    simp only [CallSpec, hn, ne_eq, not_true_eq_false, false_and, ↓reduceIte]
    rw [← hn, he]
  · rcases gemdosMalloc_cases h.ordered s.memAllocatableTop.isLt le_rfl hn h.top (fun ma hma _ => h.top_le hma) with
      he | ⟨g, hg, before, after, hl, he, -, hord⟩
    · rw [he]
      exact ⟨h, by simp [CallSpec], .stay _⟩
    · rw [he]
      have hb := hord.bounded ⟨g.1, newsiz⟩ (by simp)
      have hne : g.1 ≠ 0 := by
        rintro h0
        rw [h0] at hb
        exact absurd hb.1 (by simp [MemArea.range])
      refine ⟨⟨hord, h.top⟩, ?_, ?_⟩
      · simp only [CallSpec, hn, hne, ne_eq, not_false_eq_true, and_self, ↓reduceIte]
        exact ⟨before, after, hl, rfl, hb.2.trans_lt s.memAllocatableTop.isLt, hl ▸ hord.disjoint⟩
      · have hr : MemState.ranges { s with memList := before ++ ⟨g.1, newsiz⟩ :: after } =
            (MemArea.mk g.1 newsiz).range ::ₘ s.ranges := by
          simp only [MemState.ranges, hl, List.map_append, List.map_cons, Multiset.cons_coe]
          exact Multiset.coe_eq_coe.mpr List.perm_middle
        rw [hr]
        apply Ranges.Step.allocate
        simp only [MemState.ranges, hl, Multiset.mem_coe, List.forall_mem_map]
        exact hord.disjoint

theorem step_managed (s : MemState) (call : MemCall) (h : Managed s) :
    Managed (memStep s call).2 ∧ CallSpec s call (memStep s call) ∧
      Ranges.Step s.ranges (memStep s call).2.ranges := by
  cases call with
  | malloc newsiz => exact malloc_managed newsiz h
  | mfree block => exact mfree_managed block h
  | mshrink block newsiz => exact mshrink_managed block newsiz h

theorem managed_start {s : Long}
    (hs : 0x800 + s.toNat ≤ (gemdosMemInit tosSize).memAllocatableTop.toNat) :
    Managed (gemdosMshrink 0x800 s (gemdosMemInit tosSize)).2 := by
  have hinit : gemdosMemInit tosSize = ⟨[⟨0x800, 0xF9F7FF⟩], 0xF9F7FF⟩ := by decide
  rw [hinit] at hs ⊢
  have htop : (0xF9F7FF : Long).toNat = 0xF9F7FF := rfl
  have hlen : ¬ (0xF9F7FF : Long) < s := by
    simp only [htop] at hs
    simp only [BitVec.lt_def, htop]
    omega
  simp only [gemdosMshrink, findMemArea, ↓reduceIte, hlen, List.nil_append]
  refine ⟨⟨List.pairwise_singleton _ _, ?_⟩, show (0x900 : Long) ≤ 0xF9F7FF by decide⟩
  intro ma hma
  rw [List.mem_singleton.mp hma]
  exact ⟨le_rfl, hs⟩

theorem allocator_refines_ranges (s : Long)
    (hs : 0x800 + s.toNat ≤ (gemdosMemInit tosSize).memAllocatableTop.toNat)
    (calls : List MemCall) :
    let m := run memStep (gemdosMshrink 0x800 s (gemdosMemInit tosSize)).2 calls
    m.memList.Pairwise (fun a b => a.base ≤ b.base) ∧
      m.memList.IsChain (fun a b => a.base.toNat + a.len.toNat ≤ b.base.toNat) ∧
      (∀ ma ∈ m.memList.getLast?, ma.base.toNat + ma.len.toNat ≤ m.memAllocatableTop.toNat) ∧
      ∀ call, CallSpec m call (memStep m call) ∧
        Ranges.Step m.ranges (memStep m call).2.ranges := by
  intro m
  have hm : Managed m := run_invariant (fun s call h => (step_managed s call h).1) (managed_start hs) calls
  have hsorted := hm.ordered.separated.sorted
  have hsep := hm.ordered.separated
  rw [List.pairwise_map] at hsorted
  rw [Separated, List.pairwise_map] at hsep
  refine ⟨hsorted, hsep.isChain, ?_, fun call => (step_managed m call hm).2⟩
  · intro ma hma
    exact (hm.ordered.bounded ma (List.mem_of_getLast? hma)).2

theorem allocator_refines_ranges_run :
    (0x800 + (0x1000 : Long).toNat ≤ (gemdosMemInit tosSize).memAllocatableTop.toNat) ∧
      ((run memStep (gemdosMshrink 0x800 0x1000 (gemdosMemInit tosSize)).2
        [.malloc 0x20, .mfree 0x800]).memList).Pairwise (fun a b => a.base ≤ b.base) := by
  have hs : 0x800 + (0x1000 : Long).toNat ≤ (gemdosMemInit tosSize).memAllocatableTop.toNat := by decide
  exact ⟨hs, (allocator_refines_ranges 0x1000 hs [.malloc 0x20, .mfree 0x800]).1⟩

end Tosemu.Allocator
