import Mathlib.Order.Bounds.Basic
import Tosemu.AllocatorRefinement

namespace Tosemu.Allocator

open Ranges Runs

def MemState.gapSizes (s : MemState) : Set Long := {x | ∃ g ∈ s.gaps, g.2 = x}

section Query

variable {memTop maxFree newsiz : Long} {s : MemState}

theorem le_widen (maxFree gap : Long) : maxFree ≤ widen maxFree gap ∧ gap ≤ widen maxFree gap := by
  unfold widen
  split_ifs with h
  · exact ⟨BitVec.le_of_lt h, BitVec.le_refl _⟩
  · exact ⟨BitVec.le_refl _, BitVec.not_lt.mp h⟩

theorem widen_eq (maxFree gap : Long) : widen maxFree gap = maxFree ∨ widen maxFree gap = gap := by
  unfold widen
  split_ifs
  · exact Or.inr rfl
  · exact Or.inl rfl

theorem largestGap_bounds (prev : MemArea) (next : List MemArea) (maxFree : Long) :
    maxFree ≤ largestGap memTop prev next maxFree ∧
      (∀ g ∈ gapsBehind memTop prev next, g.2 ≤ largestGap memTop prev next maxFree) ∧
      (largestGap memTop prev next maxFree = maxFree ∨
        ∃ g ∈ gapsBehind memTop prev next, g.2 = largestGap memTop prev next maxFree) := by
  induction next generalizing prev maxFree with
  | nil =>
    obtain ⟨hmax, hgap⟩ := le_widen maxFree (memTop - prev.top)
    refine ⟨hmax, by simpa [gapsBehind, largestGap] using hgap, ?_⟩
    rcases widen_eq maxFree (memTop - prev.top) with he | he
    · exact Or.inl he
    · exact Or.inr ⟨_, List.mem_singleton_self _, he.symm⟩
  | cons ptr next ih =>
    obtain ⟨hmax, hgap⟩ := le_widen maxFree (ptr.base - prev.top)
    obtain ⟨hstart, hall, hsome⟩ := ih ptr (widen maxFree (ptr.base - prev.top))
    refine ⟨BitVec.le_trans hmax hstart, ?_, ?_⟩
    · exact List.forall_mem_cons.mpr ⟨BitVec.le_trans hgap hstart, hall⟩
    · rcases hsome with he | ⟨g, hg, he⟩
      · rcases widen_eq maxFree (ptr.base - prev.top) with hw | hw
        · exact Or.inl (he.trans hw)
        · exact Or.inr ⟨_, List.mem_cons_self, (he.trans hw).symm⟩
      · exact Or.inr ⟨g, List.mem_cons_of_mem _ hg, he⟩

theorem gapsBehind_ne_nil (prev : MemArea) (next : List MemArea) : gapsBehind memTop prev next ≠ [] := by
  cases next <;> simp [gapsBehind]

theorem query_isGreatest (s : MemState) : IsGreatest s.gapSizes (gemdosMalloc (-1) s).1 := by
  obtain ⟨memList, memTop⟩ := s
  cases memList with
  | nil =>
    have hq : (gemdosMalloc (-1) ⟨[], memTop⟩).1 = memTop - 0x900 := by
      rcases widen_eq 0 (memTop - 0x900) with he | he
      · have hle := (le_widen 0 (memTop - 0x900)).2
        rw [he] at hle
        exact he.trans (BitVec.le_zero_iff.mp hle).symm
      · exact he
    rw [hq]
    refine ⟨⟨_, List.mem_singleton_self _, rfl⟩, ?_⟩
    rintro x ⟨g, hg, rfl⟩
    rw [List.mem_singleton.mp hg]
    exact BitVec.le_refl _
  | cons prev next =>
    obtain ⟨-, hall, hsome⟩ := @largestGap_bounds memTop prev next 0
    refine ⟨?_, ?_⟩
    · rcases hsome with he | hsome
      · obtain ⟨g, hg⟩ := List.exists_mem_of_ne_nil _ (@gapsBehind_ne_nil memTop prev next)
        have hle := hall g hg
        rw [he] at hle
        exact ⟨g, hg, (BitVec.le_zero_iff.mp hle).trans he.symm⟩
      · exact hsome
    · rintro x ⟨g, hg, rfl⟩
      exact hall g hg

end Query

section Search

variable {memTop newsiz : Long} {s : MemState}

theorem insertBehind_eq_none {prev : MemArea} {next : List MemArea} :
    insertBehind memTop newsiz prev next = none ↔ ∀ g ∈ gapsBehind memTop prev next, ¬ newsiz < g.2 := by
  induction next generalizing prev with
  | nil => simp [insertBehind, gapsBehind]
  | cons ptr next ih =>
    rw [insertBehind, gapsBehind, List.forall_mem_cons, ← ih]
    split_ifs with hn
    · simp [hn]
    · simp [hn, Option.map_eq_none_iff]

theorem insertArea_eq_none :
    insertArea s.memAllocatableTop newsiz s.memList = none ↔ ∀ g ∈ s.gaps, ¬ newsiz < g.2 := by
  obtain ⟨memList, memTop⟩ := s
  cases memList with
  | nil => simp [insertArea, MemState.gaps]
  | cons prev next => exact insertBehind_eq_none

def stretchStart (before : List MemArea) : Long := (before.getLast?.map MemArea.top).getD 0x900

theorem stretchStart_concat (before : List MemArea) (ma : MemArea) :
    stretchStart (before ++ [ma]) = ma.top := by
  simp [stretchStart]

theorem malloc_unfit (hn : newsiz ≠ -1) (hg : s.taken newsiz = none) : gemdosMalloc newsiz s = (0, s) := by
  have hnone : insertArea s.memAllocatableTop newsiz s.memList = none := by
    rw [insertArea_eq_none]
    simpa [MemState.taken] using hg
  simp only [gemdosMalloc, hn, ↓reduceIte, hnone]

theorem malloc_fills (hn : newsiz ≠ -1) {g : Long × Long} (hg : s.taken newsiz = some g) :
    ∃ before after, s.memList = before ++ after ∧ (before = [] → after = []) ∧
      gemdosMalloc newsiz s = (g.1, { s with memList := before ++ ⟨g.1, newsiz⟩ :: after }) ∧
      g = (stretchStart before, gapLimit s.memAllocatableTop after - stretchStart before) ∧
      newsiz < g.2 := by
  have hfits : newsiz < g.2 := by simpa using List.find?_some hg
  have hsome : insertArea s.memAllocatableTop newsiz s.memList ≠ none :=
    fun hnone => insertArea_eq_none.mp hnone g (List.mem_of_find?_eq_some hg) hfits
  obtain ⟨r, hr⟩ := Option.ne_none_iff_exists'.mp hsome
  obtain ⟨memList, memTop⟩ := s
  simp only [gemdosMalloc, hn, ↓reduceIte, hr]
  cases memList with
  | nil =>
    obtain rfl := List.mem_singleton.mp (List.mem_of_find?_eq_some hg)
    rw [insertArea, if_pos hfits] at hr
    obtain rfl := Option.some.inj hr
    exact ⟨[], [], rfl, id, rfl, rfl, hfits⟩
  | cons prev next =>
    obtain ⟨before, ma, after, hl, hb, hlist, -, hfind⟩ := insertBehind_some hr
    obtain rfl : (ma.top, gapLimit memTop after - ma.top) = g := Option.some.inj (hfind.symm.trans hg)
    refine ⟨before ++ [ma], after, by simpa using hl, by simp, ?_, ?_, hfits⟩
    · rw [hb, hlist]
      simp
    · rw [stretchStart_concat]

theorem malloc_base_ne_zero (h : Managed s) (hn : newsiz ≠ -1) {g : Long × Long}
    (hg : s.taken newsiz = some g) : g.1 ≠ 0 := by
  obtain ⟨before, after, hl, -, -, rfl, -⟩ := malloc_fills hn hg
  dsimp only
  obtain rfl | ⟨before, ma, rfl⟩ := before.eq_nil_or_concat'
  · exact show (0x900 : Long) ≠ 0 by decide
  · have hb := h.ordered.bounded ma (by simp [hl])
    have htop := MemArea.top_toNat hb.2 s.memAllocatableTop.isLt
    rw [stretchStart_concat]
    rintro h0
    rw [h0] at htop
    have hle := hb.1.trans ma.range.le
    rw [← htop] at hle
    exact absurd hle (by decide)

theorem malloc_fails_iff (h : Managed s) (hn : newsiz ≠ -1) :
    (gemdosMalloc newsiz s).1 = 0 ↔ ∀ x ∈ s.gapSizes, x ≤ newsiz := by
  have hall : (∀ x ∈ s.gapSizes, x ≤ newsiz) ↔ s.taken newsiz = none := by
    simp only [MemState.taken, MemState.gapSizes, List.find?_eq_none, Set.mem_ofPred_eq,
      forall_exists_index, and_imp, forall_apply_eq_imp_iff₂, decide_eq_true_eq, BitVec.not_lt]
  rw [hall]
  cases hg : s.taken newsiz with
  | none => simp [malloc_unfit hn hg]
  | some g =>
    obtain ⟨before, after, -, -, he, -⟩ := malloc_fills hn hg
    simpa [he] using malloc_base_ne_zero h hn hg

end Search

end Tosemu.Allocator
