import Tosemu.AllocatorSearch

namespace Tosemu.Allocator

open Ranges Runs

def afterStart (s : Long) (calls : List MemCall) : MemState :=
  run memStep (gemdosMshrink 0x800 s (gemdosMemInit tosSize)).2 calls

section Start

variable {s : Long} (hs : 0x800 + s.toNat ≤ (gemdosMemInit tosSize).memAllocatableTop.toNat)
  (calls : List MemCall)

include hs

theorem managed_afterStart : Managed (afterStart s calls) :=
  run_invariant (fun s call h => (step_managed s call h).1) (managed_start hs) calls

theorem query_agrees_iff (n : Long) (hn : 1 ≤ n.toNat) (hlt : n.toNat < 0x80000000) :
    let m := afterStart s calls
    ((gemdosMalloc n m).1 ≠ 0 ↔ n ≤ (gemdosMalloc (-1) m).1) ↔ ¬ IsGreatest m.gapSizes n := by
  intro m
  have hq := query_isGreatest m
  have hne : n ≠ -1 := by
    rintro rfl
    exact absurd hlt (by decide)
  have hfails := malloc_fails_iff (managed_afterStart hs calls) hne
  have hsucc : (gemdosMalloc n m).1 ≠ 0 ↔ n < (gemdosMalloc (-1) m).1 := by
    rw [ne_eq, hfails, ← BitVec.not_le]
    exact not_congr ⟨fun h => h _ hq.1, fun h x hx => BitVec.le_trans (hq.2 hx) h⟩
  rw [hsucc]
  constructor
  · intro h hgreatest
    have heq := BitVec.le_antisymm (hq.2 hgreatest.1) (hgreatest.2 hq.1)
    exact BitVec.lt_irrefl _ (heq ▸ h.mpr (heq ▸ BitVec.le_refl _))
  · intro h
    have hneq : n ≠ (gemdosMalloc (-1) m).1 := fun he => h (he ▸ hq)
    exact ⟨BitVec.le_of_lt, fun hle => BitVec.lt_of_le_ne hle hneq⟩

end Start

theorem query_agrees_small :
    let m := afterStart 0x1000 [.malloc 0x20, .malloc 0x10, .mfree 0x1800, .malloc 8]
    ((gemdosMalloc 0x20 m).1 ≠ 0 ↔ 0x20 ≤ (gemdosMalloc (-1) m).1) := by
  intro m
  refine (query_agrees_iff (s := 0x1000) (by decide) _ 0x20 (by decide) (by decide)).mpr ?_
  intro hgreatest
  have hle := hgreatest.2 (query_isGreatest m).1
  exact absurd hle (by decide)

theorem exact_fit_refused :
    let m := afterStart 0x1000 []
    (gemdosMalloc (-1) m).1 = 0xF9DFFF ∧
      ¬ ((gemdosMalloc 0xF9DFFF m).1 ≠ 0 ↔ 0xF9DFFF ≤ (gemdosMalloc (-1) m).1) := by
  decide

section Undo

variable {s : MemState} {newsiz : Long} {before after : List MemArea}

theorem findMemArea_append {b : Long} (hbefore : ∀ x ∈ before, x.base ≠ b) (n : Long) :
    findMemArea b (before ++ ⟨b, n⟩ :: after) = some (before, ⟨b, n⟩, after) := by
  induction before with
  | nil => simp [findMemArea]
  | cons ptr next ih =>
    obtain ⟨hptr, hnext⟩ := List.forall_mem_cons.mp hbefore
    simp [findMemArea, hptr, ih hnext]

theorem le_stretchStart (h : Managed s) (hl : s.memList = before ++ after) :
    ∀ x ∈ before, x.range.hi ≤ (stretchStart before).toNat := by
  obtain rfl | ⟨before, ma, rfl⟩ := before.eq_nil_or_concat'
  · simp
  · have hord := hl ▸ h.ordered
    rw [List.append_assoc] at hord
    have htop := MemArea.top_toNat (hord.bounded ma (by simp)).2 s.memAllocatableTop.isLt
    intro x hx
    rw [stretchStart_concat, htop]
    rcases List.mem_append.mp hx with hx | hx
    · exact (hord.parts.1 x hx).trans ma.range.le
    · rw [List.mem_singleton.mp hx]

theorem gapLimit_le (h : Managed s) (hl : s.memList = before ++ after) :
    ∀ x ∈ after, (gapLimit s.memAllocatableTop after).toNat ≤ x.range.lo := by
  cases after with
  | nil => simp
  | cons a after =>
    have hord := hl ▸ h.ordered
    intro x hx
    rcases List.mem_cons.mp hx with rfl | hx
    · exact le_rfl
    · exact a.range.le.trans (hord.parts.2 x hx)

theorem empty_of_base (h : Managed s) (hn : newsiz ≠ -1) {g : Long × Long}
    (hg : s.taken newsiz = some g) {x : MemArea} (hx : x ∈ s.memList) (hbase : x.base = g.1) :
    x.len = 0 := by
  obtain ⟨before, after, hl, hfirst, -, rfl, hfits⟩ := malloc_fills hn hg
  have hlo : x.range.lo = (stretchStart before).toNat := congrArg BitVec.toNat hbase
  rw [hl] at hx
  rcases List.mem_append.mp hx with hx | hx
  · have hhi := le_stretchStart h hl x hx
    rw [← hlo] at hhi
    apply BitVec.eq_of_toNat_eq
    have hzero : (0 : Long).toNat = 0 := rfl
    simp only [MemArea.range] at hhi
    omega
  · have hlimit := gapLimit_le h hl x hx
    cases after with
    | nil => simp at hx
    | cons a after =>
      obtain rfl | ⟨before, ma, rfl⟩ := before.eq_nil_or_concat'
      · simp at hfirst
      · exfalso
        -- the gap would end where it starts
        have hord := hl ▸ h.ordered
        rw [List.append_assoc] at hord
        have htop := MemArea.top_toNat (hord.bounded ma (by simp)).2 s.memAllocatableTop.isLt
        have hle := hord.parts.2 a (by simp)
        rw [hlo, stretchStart_concat, htop] at hlimit
        have heq : gapLimit s.memAllocatableTop (a :: after) = ma.top :=
          BitVec.eq_of_toNat_eq ((le_antisymm hlimit hle).trans htop.symm)
        simp only [stretchStart_concat, heq, BitVec.sub_self] at hfits
        exact absurd hfits (BitVec.not_lt_zero)

end Undo

def EmptyAtGap (s : MemState) (newsiz : Long) : Prop :=
  ∃ g, s.taken newsiz = some g ∧ ∃ ma ∈ s.memList, ma.base = g.1 ∧ ma.len = 0

def Undone (s : MemState) (newsiz : Long) : Prop :=
  let r := gemdosMalloc newsiz s
  r.1 ≠ 0 → (∀ ma ∈ s.memList, ma.base ≠ r.1) ∧ (gemdosMfree r.1 r.2).1 = 0 ∧
    (gemdosMfree r.1 r.2).2.memList = s.memList

theorem undone_iff {s : MemState} (h : Managed s) {newsiz : Long} (hn : newsiz ≠ -1) :
    Undone s newsiz ↔ ¬ EmptyAtGap s newsiz := by
  cases hg : s.taken newsiz with
  | none => simp [Undone, EmptyAtGap, malloc_unfit hn hg, hg]
  | some g =>
    obtain ⟨before, after, hl, -, he, -⟩ := malloc_fills hn hg
    constructor
    · rintro hundone ⟨g', hg', ma, hma, hbase, -⟩
      obtain rfl : g = g' := Option.some.inj (hg.symm.trans hg')
      have hr : (gemdosMalloc newsiz s).1 = g.1 := by rw [he]
      exact (hundone (hr ▸ malloc_base_ne_zero h hn hg)).1 ma hma (hbase.trans hr.symm)
    · intro hempty _
      have hbase : ∀ ma ∈ s.memList, ma.base ≠ g.1 :=
        fun ma hma hb => hempty ⟨g, hg, ma, hma, hb, empty_of_base h hn hg hma hb⟩
      have hfind : findMemArea g.1 (before ++ ⟨g.1, newsiz⟩ :: after) =
          some (before, ⟨g.1, newsiz⟩, after) :=
        findMemArea_append (fun x hx => hbase x (by simp [hl, hx])) newsiz
      rw [he]
      refine ⟨hbase, ?_, ?_⟩ <;> simp [gemdosMfree, hfind, hl]

theorem mfree_undoes_malloc_iff (s : Long)
    (hs : 0x800 + s.toNat ≤ (gemdosMemInit tosSize).memAllocatableTop.toNat) (calls : List MemCall)
    (n : Long) (hn : n ≠ -1) :
    Undone (afterStart s calls) n ↔ ¬ EmptyAtGap (afterStart s calls) n :=
  undone_iff (managed_afterStart hs calls) hn

theorem mfree_undoes_malloc_small :
    Undone (afterStart 0x1000 [.malloc 0x20, .malloc 0x10, .mfree 0x1800, .malloc 8]) 0x10 := by
  refine (mfree_undoes_malloc_iff 0x1000 (by decide) _ 0x10 (by decide)).mpr ?_
  rintro ⟨g, -, ma, hma, -, hlen⟩
  have hlens : ∀ ma ∈ (afterStart 0x1000 [.malloc 0x20, .malloc 0x10, .mfree 0x1800, .malloc 8]).memList,
      ma.len ≠ 0 := by decide
  exact hlens ma hma hlen

/-- `Malloc(0)` puts an empty block where the next call allocates, and `Mfree` finds that one. -/
theorem mfree_frees_empty_block :
    let m := afterStart 0x1000 [.malloc 0]
    let r := gemdosMalloc 0x10 m
    r.1 = 0x1800 ∧ (gemdosMfree 0x1800 r.2).2.memList = [⟨0x800, 0x1000⟩, ⟨0x1800, 0x10⟩] ∧
      ¬ Undone m 0x10 := by
  unfold Undone
  decide

end Tosemu.Allocator
