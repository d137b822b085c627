import Mathlib.Order.Bounds.Basic
import Tosemu.AllocatorAgreement

namespace Tosemu.Allocator

open Ranges Runs

structure FreeRun (s : MemState) (lo hi : ℕ) : Prop where
  start : 0x900 ≤ lo
  le : lo ≤ hi
  stop : hi ≤ s.memAllocatableTop.toNat
  free : ∀ x, lo ≤ x → x < hi → ∀ ma ∈ s.memList, ¬ ma.range.Covers x

def KeepsBasepage (s : MemState) : MemCall → Prop
  | .mshrink block newsiz => block = 0x800 → (gemdosMshrink block newsiz s).1 = 0 → 0x100 ≤ newsiz
  | _ => True

/-- No stretch that the walk does not measure as one gap is longer than the largest of its gaps: the
one in front of the first block, and those with empty blocks in them. -/
def SeesStretches (s : MemState) : Prop :=
  ∀ before mid after, s.memList = before ++ mid ++ after → (∀ ma ∈ mid, ma.len = 0) →
    ∃ x ∈ s.gapSizes,
      (gapLimit s.memAllocatableTop after).toNat - (stretchStart before).toNat ≤ x.toNat

structure Based (s : MemState) : Prop where
  managed : Managed s
  above : ∀ ma ∈ s.memList, AboveBasepage ma

section Based

variable {s : MemState} {before mid after : List MemArea}

theorem Based.stretchStart_ge (h : Based s) (hl : s.memList = before ++ after) :
    0x900 ≤ (stretchStart before).toNat := by
  obtain rfl | ⟨before, ma, rfl⟩ := before.eq_nil_or_concat'
  · exact le_rfl
  · have hma := (h.above ma (by simp [hl])).hi
    exact hma.trans (le_stretchStart h.managed hl ma (by simp))

theorem mem_gapsBehind {memTop : Long} {prev : MemArea} {next : List MemArea} {g : Long × Long} :
    g ∈ gapsBehind memTop prev next ↔ ∃ before ma after, prev :: next = before ++ ma :: after ∧
      g = (ma.top, gapLimit memTop after - ma.top) := by
  induction next generalizing prev with
  | nil =>
    rw [gapsBehind, List.mem_singleton]
    constructor
    · rintro rfl
      exact ⟨[], prev, [], rfl, rfl⟩
    · rintro ⟨before, ma, after, hl, rfl⟩
      cases before with
      | nil =>
        obtain ⟨rfl, rfl⟩ := List.cons.inj hl
        rfl
      | cons b before => simp at hl
  | cons ptr next ih =>
    rw [gapsBehind, List.mem_cons, ih]
    constructor
    · rintro (rfl | ⟨before, ma, after, hl, rfl⟩)
      · exact ⟨[], prev, ptr :: next, rfl, rfl⟩
      · exact ⟨prev :: before, ma, after, by rw [hl]; rfl, rfl⟩
    · rintro ⟨before, ma, after, hl, rfl⟩
      cases before with
      | nil =>
        obtain ⟨rfl, rfl⟩ := List.cons.inj hl
        exact Or.inl rfl
      | cons b before => exact Or.inr ⟨before, ma, after, (List.cons.inj hl).2, rfl⟩

theorem gap_stretch (h : Managed s) {x : Long} (hx : x ∈ s.gapSizes) :
    ∃ before after, s.memList = before ++ after ∧
      (stretchStart before).toNat ≤ (gapLimit s.memAllocatableTop after).toNat ∧
      x.toNat = (gapLimit s.memAllocatableTop after).toNat - (stretchStart before).toNat := by
  obtain ⟨memList, memTop⟩ := s
  obtain ⟨g, hg, rfl⟩ := hx
  cases memList with
  | nil =>
    rw [List.mem_singleton.mp hg]
    exact ⟨[], [], rfl, h.top, BitVec.toNat_sub_of_le h.top⟩
  | cons prev next =>
    obtain ⟨before, ma, after, hl, rfl⟩ := mem_gapsBehind.mp hg
    have hl' : (prev :: next) = (before ++ [ma]) ++ after := by simpa using hl
    have hord := h.ordered
    rw [hl] at hord
    have htop := MemArea.top_toNat (hord.bounded ma (by simp)).2 memTop.isLt
    have hle : ma.top.toNat ≤ (gapLimit memTop after).toNat := by
      rw [htop]
      cases after with
      | nil => exact (hord.bounded ma (by simp)).2
      | cons a after => exact hord.parts.2 a List.mem_cons_self
    refine ⟨before ++ [ma], after, hl', ?_, ?_⟩
    · rw [stretchStart_concat]
      exact hle
    · rw [stretchStart_concat]
      exact BitVec.toNat_sub_of_le hle

theorem freeRun_stretch (h : Based s) (hl : s.memList = before ++ mid ++ after)
    (hmid : ∀ ma ∈ mid, ma.len = 0)
    (hle : (stretchStart before).toNat ≤ (gapLimit s.memAllocatableTop after).toNat) :
    FreeRun s (stretchStart before).toNat (gapLimit s.memAllocatableTop after).toNat where
  start := h.stretchStart_ge (hl.trans (List.append_assoc _ _ _))
  le := hle
  stop := by
    cases after with
    | nil => exact le_rfl
    | cons a after => exact a.range.le.trans (h.managed.ordered.bounded a (by simp [hl])).2
  free x hlo hhi ma hma hcov := by
    rw [hl] at hma
    rcases List.mem_append.mp hma with hma | hma
    · rcases List.mem_append.mp hma with hma | hma
      · have hb := le_stretchStart h.managed (hl.trans (List.append_assoc _ _ _)) ma hma
        exact absurd hcov.2 (not_lt.mpr (hb.trans hlo))
      · have hempty := hmid ma hma
        have hlt := hcov.1.trans_lt hcov.2
        simp [MemArea.range, hempty] at hlt
    · have ha := gapLimit_le h.managed hl ma hma
      exact absurd hcov.1 (not_le.mpr (hhi.trans_le ha))

theorem FreeRun.stretch {lo hi : ℕ} (h : FreeRun s lo hi) (hs : Based s) (hlt : lo < hi) :
    ∃ before mid after, s.memList = before ++ mid ++ after ∧ (∀ ma ∈ mid, ma.len = 0) ∧
      (stretchStart before).toNat ≤ lo ∧ hi ≤ (gapLimit s.memAllocatableTop after).toNat := by
  have hfree : ∀ x, lo ≤ x → x < hi → ∀ r ∈ s.memList.map MemArea.range, ¬ r.Covers x :=
    fun x hlo hhi => List.forall_mem_map.mpr (h.free x hlo hhi)
  obtain ⟨before', mid', after', hranges, hbefore, hmid, hafter⟩ :=
    hs.managed.ordered.separated.split hlt hfree
  obtain ⟨front, after, hl, hfront, rfl⟩ := List.map_eq_append_iff.mp hranges
  obtain ⟨before, mid, rfl, rfl, rfl⟩ := List.map_eq_append_iff.mp hfront
  rw [List.forall_mem_map] at hbefore hmid hafter
  refine ⟨before, mid, after, hl, ?_, ?_, ?_⟩
  · intro ma hma
    have hzero : (0 : Long).toNat = 0 := rfl
    have hempty := hmid ma hma
    apply BitVec.eq_of_toNat_eq
    simp only [MemArea.range] at hempty
    omega
  · obtain rfl | ⟨before, ma, rfl⟩ := before.eq_nil_or_concat'
    · exact h.start
    · have hb := hs.managed.ordered.bounded ma (by simp [hl])
      rw [stretchStart_concat, MemArea.top_toNat hb.2 s.memAllocatableTop.isLt]
      exact hbefore ma (by simp)
  · cases after with
    | nil => exact h.stop
    | cons a after => exact hafter a List.mem_cons_self

theorem mfree_based (block : Long) (h : Based s) : Based (gemdosMfree block s).2 :=
  ⟨(mfree_managed block h.managed).1, mfree_above block h.above⟩

theorem malloc_based (newsiz : Long) (h : Based s) : Based (gemdosMalloc newsiz s).2 := by
  refine ⟨(malloc_managed newsiz h.managed).1, ?_⟩
  by_cases hn : newsiz = -1
  · rw [gemdosMalloc_query hn s]
    exact h.above
  · cases hg : s.taken newsiz with
    | none =>
      rw [malloc_unfit hn hg]
      exact h.above
    | some g =>
      obtain ⟨before, after, hl, -, he, rfl, -⟩ := malloc_fills hn hg
      have habove := h.above
      rw [hl, List.forall_mem_append] at habove
      rw [he]
      simp only [List.forall_mem_append, List.forall_mem_cons]
      exact ⟨habove.1, Or.inr (h.stretchStart_ge hl), habove.2⟩

theorem step_based (s : MemState) (call : MemCall) (h : Based s) (hk : KeepsBasepage s call) :
    Based (memStep s call).2 := by
  cases call with
  | malloc newsiz => exact malloc_based newsiz h
  | mfree block => exact mfree_based block h
  | mshrink block newsiz =>
    exact ⟨(mshrink_managed block newsiz h.managed).1, mshrink_above block newsiz h.above fun h800 _ => hk h800⟩

theorem search_sees_iff (h : Based s) :
    (IsGreatest {k | ∃ lo, FreeRun s lo (lo + k)} (gemdosMalloc (-1) s).1.toNat ∧
      ∀ n : Long, 1 ≤ n.toNat → n.toNat < 0x80000000 → (gemdosMalloc n s).1 = 0 →
        ∀ lo hi, FreeRun s lo hi → hi - lo ≤ n.toNat) ↔ SeesStretches s := by
  have hq := query_isGreatest s
  constructor
  · rintro ⟨⟨-, hmax⟩, -⟩ before mid after hl hmid
    refine ⟨_, hq.1, ?_⟩
    by_cases hle : (stretchStart before).toNat ≤ (gapLimit s.memAllocatableTop after).toNat
    · apply hmax
      refine ⟨(stretchStart before).toNat, ?_⟩
      rw [Nat.add_sub_cancel' hle]
      exact freeRun_stretch h hl hmid hle
    · omega
  · intro hsees
    have hruns : ∀ lo hi, FreeRun s lo hi → ∃ x ∈ s.gapSizes, hi - lo ≤ x.toNat := by
      intro lo hi hrun
      by_cases hlt : lo < hi
      · obtain ⟨before, mid, after, hl, hmid, hlo, hhi⟩ := hrun.stretch h hlt
        obtain ⟨x, hx, hle⟩ := hsees before mid after hl hmid
        exact ⟨x, hx, by omega⟩
      · exact ⟨_, hq.1, by omega⟩
    refine ⟨⟨?_, ?_⟩, ?_⟩
    · obtain ⟨before, after, hl, hle, hx⟩ := gap_stretch h.managed hq.1
      refine ⟨(stretchStart before).toNat, ?_⟩
      rw [hx, Nat.add_sub_cancel' hle]
      have hl' : s.memList = before ++ [] ++ after := by rw [List.append_nil, hl]
      exact freeRun_stretch h hl' (by simp) hle
    · rintro k ⟨lo, hrun⟩
      obtain ⟨x, hx, hle⟩ := hruns lo (lo + k) hrun
      have hxq : x.toNat ≤ (gemdosMalloc (-1) s).1.toNat := hq.2 hx
      omega
    · intro n hn hlt hfail lo hi hrun
      have hne : n ≠ -1 := by
        rintro rfl
        exact absurd hlt (by decide)
      obtain ⟨x, hx, hle⟩ := hruns lo hi hrun
      exact hle.trans ((malloc_fails_iff h.managed hne).mp hfail x hx)

end Based

theorem based_start {s : Long}
    (hs : 0x800 + s.toNat ≤ (gemdosMemInit tosSize).memAllocatableTop.toNat)
    (hk : KeepsBasepage (gemdosMemInit tosSize) (.mshrink 0x800 s)) :
    Based (gemdosMshrink 0x800 s (gemdosMemInit tosSize)).2 := by
  refine ⟨managed_start hs, mshrink_above 0x800 s ?_ fun h800 _ => hk h800⟩
  intro ma hma
  rw [List.mem_singleton.mp hma]
  exact Or.inl ⟨rfl, by decide⟩

theorem longest_run_found_iff (s : Long)
    (hs : 0x800 + s.toNat ≤ (gemdosMemInit tosSize).memAllocatableTop.toNat) (calls : List MemCall)
    (hkeeps : Along memStep KeepsBasepage (gemdosMemInit tosSize) (.mshrink 0x800 s :: calls)) :
    let m := afterStart s calls
    (IsGreatest {k | ∃ lo, FreeRun m lo (lo + k)} (gemdosMalloc (-1) m).1.toNat ∧
      ∀ n : Long, 1 ≤ n.toNat → n.toNat < 0x80000000 → (gemdosMalloc n m).1 = 0 →
        ∀ lo hi, FreeRun m lo hi → hi - lo ≤ n.toNat) ↔ SeesStretches m :=
  search_sees_iff (run_along (fun s call h hk => step_based s call h hk) (based_start hs hkeeps.1)
    hkeeps.2)

theorem longest_run_found_small :
    let calls := [.malloc 0x20, .malloc 0x10, .mfree 0x1800, .malloc 8]
    let m := afterStart 0x1000 calls
    Along memStep KeepsBasepage (gemdosMemInit tosSize) (.mshrink 0x800 0x1000 :: calls) ∧
      IsGreatest {k | ∃ lo, FreeRun m lo (lo + k)} (gemdosMalloc (-1) m).1.toNat := by
  intro calls m
  have hkeeps : Along memStep KeepsBasepage (gemdosMemInit tosSize) (.mshrink 0x800 0x1000 :: calls) :=
    ⟨fun _ _ => by decide, trivial, trivial, trivial, trivial, trivial⟩
  refine ⟨hkeeps, ((longest_run_found_iff 0x1000 (by decide) calls hkeeps).mpr ?_).1⟩
  intro before mid after hl hmid
  have hm : m.memList = [⟨0x800, 0x1000⟩, ⟨0x1800, 8⟩, ⟨0x1820, 0x10⟩] := by decide
  have htop : m.memAllocatableTop = 0xF9F7FF := by decide
  refine ⟨0xF9DFCF, ⟨(0x1830, 0xF9DFCF), by decide, rfl⟩, ?_⟩
  -- no block is empty, so a stretch is a gap or the memory in front of a block
  obtain rfl : mid = [] := by
    apply List.eq_nil_iff_forall_not_mem.mpr
    intro ma hma
    have hlens : ∀ ma ∈ m.memList, ma.len ≠ 0 := by decide
    exact hlens ma (by rw [hl]; simp [hma]) (hmid ma hma)
  rw [hm, List.append_nil] at hl
  rw [htop]
  match before, hl with
  | [], hl =>
    obtain rfl := hl
    decide
  | [a], hl =>
    simp only [List.cons_append, List.nil_append, List.cons.injEq] at hl
    obtain ⟨rfl, rfl⟩ := hl
    decide
  | [a, b], hl =>
    simp only [List.cons_append, List.nil_append, List.cons.injEq] at hl
    obtain ⟨rfl, rfl, rfl⟩ := hl
    decide
  | [a, b, c], hl =>
    simp only [List.cons_append, List.nil_append, List.cons.injEq] at hl
    obtain ⟨rfl, rfl, rfl, rfl⟩ := hl
    decide
  | a :: b :: c :: d :: before, hl => simp at hl

theorem freed_front_lost :
    let calls := [.malloc 0x10, .mfree 0x800]
    let m := afterStart 0x800000 calls
    Along memStep KeepsBasepage (gemdosMemInit tosSize) (.mshrink 0x800 0x800000 :: calls) ∧
      (gemdosMalloc (-1) m).1 = 0x79EFEF ∧ FreeRun m 0x900 0x800800 ∧
      ¬ IsGreatest {k | ∃ lo, FreeRun m lo (lo + k)} (gemdosMalloc (-1) m).1.toNat := by
  intro calls m
  have hm : m.memList = [⟨0x800800, 0x10⟩] := by decide
  have hkeeps : (0x100 : Long) ≤ 0x800000 := by decide
  have hrun : FreeRun m 0x900 (0x900 + 0x7FFF00) := by
    refine ⟨le_rfl, by decide, by decide, ?_⟩
    intro x _ hx ma hma hcov
    rw [hm, List.mem_singleton] at hma
    rw [hma] at hcov
    exact absurd hcov.1 (not_le.mpr hx)
  refine ⟨⟨fun _ _ => hkeeps, trivial, trivial, trivial⟩, by decide, hrun, fun hgreatest => ?_⟩
  exact absurd (hgreatest.2 ⟨0x900, hrun⟩) (by decide)

end Tosemu.Allocator
