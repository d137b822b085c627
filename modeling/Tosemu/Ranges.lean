import Mathlib.Data.Multiset.Basic
import Mathlib.Order.Lattice

namespace Tosemu.Ranges

variable {α : Type} [LinearOrder α]

structure Range (α : Type) [LinearOrder α] where
  lo : α
  hi : α
  le : lo ≤ hi

namespace Range

def Covers (r : Range α) (x : α) : Prop := r.lo ≤ x ∧ x < r.hi

def Disjoint (r s : Range α) : Prop := ∀ x, ¬ (r.Covers x ∧ s.Covers x)

theorem disjoint_of_le {r s : Range α} (h : r.hi ≤ s.lo) : r.Disjoint s :=
  fun _ hx => absurd (hx.1.2.trans_le h) (not_lt.mpr hx.2.1)

theorem Disjoint.symm {r s : Range α} (h : r.Disjoint s) : s.Disjoint r :=
  fun x hx => h x ⟨hx.2, hx.1⟩

end Range

def Separated (l : List (Range α)) : Prop := l.Pairwise (fun r s => r.hi ≤ s.lo)

theorem Separated.sorted {l : List (Range α)} (h : Separated l) :
    l.Pairwise (fun r s => r.lo ≤ s.lo) := h.imp (fun {r _} hrs => r.le.trans hrs)

theorem Separated.insert {xs ys : List (Range α)} (h : Separated (xs ++ ys)) (r : Range α)
    (hx : ∀ x ∈ xs, x.hi ≤ r.lo) (hy : ∀ y ∈ ys, r.hi ≤ y.lo) : Separated (xs ++ r :: ys) := by
  obtain ⟨hxs, hys, hxy⟩ := List.pairwise_append.mp h
  refine List.pairwise_append.mpr ⟨hxs, List.pairwise_cons.mpr ⟨hy, hys⟩, ?_⟩
  intro x hxm y hym
  rcases List.mem_cons.mp hym with rfl | hym
  · exact hx x hxm
  · exact hxy x hxm y hym

theorem Separated.remove {xs ys : List (Range α)} {r : Range α} (h : Separated (xs ++ r :: ys)) :
    Separated (xs ++ ys) := h.sublist (List.Sublist.append_left (List.sublist_cons_self r ys) xs)

theorem Separated.replace {xs ys : List (Range α)} {r s : Range α}
    (h : Separated (xs ++ r :: ys)) (hlo : s.lo = r.lo) (hhi : s.hi ≤ r.hi) :
    Separated (xs ++ s :: ys) := by
  obtain ⟨hxs, hys, hxy⟩ := List.pairwise_append.mp h
  have hr := List.pairwise_cons.mp hys
  apply Separated.insert h.remove s
  · intro x hx
    rw [hlo]
    exact hxy x hx r List.mem_cons_self
  · exact fun y hy => hhi.trans (hr.1 y hy)

theorem Separated.split {l : List (Range α)} (h : Separated l) {a b : α} (hab : a < b)
    (hfree : ∀ x, a ≤ x → x < b → ∀ r ∈ l, ¬ r.Covers x) :
    ∃ before mid after, l = before ++ mid ++ after ∧ (∀ r ∈ before, r.hi ≤ a) ∧
      (∀ r ∈ mid, r.lo = r.hi) ∧ ∀ r ∈ after, b ≤ r.lo := by
  induction l with
  | nil => exact ⟨[], [], [], rfl, by simp, by simp, by simp⟩
  | cons r l ih =>
    obtain ⟨hr, hl⟩ := List.pairwise_cons.mp h
    obtain ⟨before, mid, after, rfl, hbefore, hmid, hafter⟩ :=
      ih hl (fun x hax hxb s hs => hfree x hax hxb s (List.mem_cons_of_mem _ hs))
    by_cases hra : r.hi ≤ a
    · exact ⟨r :: before, mid, after, rfl, List.forall_mem_cons.mpr ⟨hra, hbefore⟩, hmid, hafter⟩
    have har := not_le.mp hra
    by_cases hbr : b ≤ r.lo
    · refine ⟨[], [], r :: (before ++ mid ++ after), rfl, by simp, by simp, ?_⟩
      exact List.forall_mem_cons.mpr ⟨hbr, fun s hs => (hbr.trans r.le).trans (hr s hs)⟩
    have hrb := not_le.mp hbr
    have hempty : r.lo = r.hi := by
      apply r.le.eq_of_not_lt
      intro hlt
      exact hfree (max a r.lo) (le_max_left _ _) (max_lt hab hrb) r List.mem_cons_self
        ⟨le_max_right _ _, max_lt har hlt⟩
    have hnone : before = [] := by
      apply List.eq_nil_iff_forall_not_mem.mpr
      intro s hs
      have hrs := hr s (by simp [hs])
      exact absurd ((hrs.trans s.le).trans (hbefore s hs)) (not_le.mpr har)
    subst hnone
    exact ⟨[], r :: mid, after, rfl, by simp, List.forall_mem_cons.mpr ⟨hempty, hmid⟩, hafter⟩

/-- What an allocator is for: a collection of pairwise disjoint ranges that grows by a fresh range,
gives one back, or cuts one at its end. -/
inductive Step : Multiset (Range α) → Multiset (Range α) → Prop
  | stay (s) : Step s s
  | allocate (s) (r : Range α) (h : ∀ t ∈ s, r.Disjoint t) : Step s (r ::ₘ s)
  | release (s) (r : Range α) : Step (r ::ₘ s) s
  | shrink (s) (r t : Range α) (hlo : t.lo = r.lo) (hhi : t.hi ≤ r.hi) : Step (r ::ₘ s) (t ::ₘ s)

end Tosemu.Ranges
