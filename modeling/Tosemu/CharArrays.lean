import Mathlib.Data.BitVec
import Mathlib.Data.List.GetD
import Mathlib.Tactic.Cases
import Mathlib.Tactic.SplitIfs

namespace Tosemu.CharArrays

structure Chars where
  char : ℕ → BitVec 8
  written : List ℕ

def Chars.store (i : ℕ) (v : BitVec 8) (a : Chars) : Chars :=
  { char := Function.update a.char i v
    written := i :: a.written }

@[simp] theorem Chars.store_char (i : ℕ) (v : BitVec 8) (a : Chars) :
    (a.store i v).char = Function.update a.char i v := rfl

@[simp] theorem Chars.store_written (i : ℕ) (v : BitVec 8) (a : Chars) :
    (a.store i v).written = i :: a.written := rfl

/-- Nothing where the string runs out of the array. -/
def strlen (size : ℕ) (s : ℕ → BitVec 8) : Option ℕ := (List.range size).find? (fun i => s i = 0)

def strncpy (dest : Chars) (src : List (BitVec 8)) (n : ℕ) : Chars :=
  (List.range n).foldl (fun dest i => dest.store i (src.getD i 0)) dest

/-- Whether `strncmp` finds no difference in the `n` characters from `i` on. -/
def strncmpEq (s s' : ℕ → BitVec 8) : ℕ → ℕ → Bool
  | 0, _ => true
  | n + 1, i => s i = s' i && (s i = 0 || strncmpEq s s' n (i + 1))

/-- The string at the start of the array; `getD` gives its zero. -/
structure Spells (s : ℕ → BitVec 8) (l : List (BitVec 8)) : Prop where
  chars : ∀ i ≤ l.length, s i = l.getD i 0
  nonzero : 0 ∉ l

def Padded (size : ℕ) (s : ℕ → BitVec 8) (l : List (BitVec 8)) : Prop := ∀ i < size, s i = l.getD i 0

section Strings

variable {s s' : ℕ → BitVec 8} {l l' : List (BitVec 8)}

theorem getD_ne_zero (h : 0 ∉ l) {i : ℕ} (hi : i < l.length) : l.getD i 0 ≠ 0 := by
  rw [List.getD_eq_getElem _ _ hi]
  intro hzero
  exact h (hzero ▸ List.getElem_mem hi)

theorem zero_notMem_append (h : 0 ∉ l) {c : BitVec 8} (hc : c ≠ 0) : 0 ∉ l ++ [c] := by
  rw [List.mem_append, List.mem_singleton]
  exact not_or.mpr ⟨h, hc.symm⟩

theorem Spells.nul (h : Spells s l) : s l.length = 0 := by
  rw [h.chars _ le_rfl]
  exact List.getD_eq_default _ _ le_rfl

theorem Spells.ne_zero (h : Spells s l) {i : ℕ} (hi : i < l.length) : s i ≠ 0 := by
  rw [h.chars i hi.le]
  exact getD_ne_zero h.nonzero hi

theorem Spells.strlen (h : Spells s l) {size : ℕ} (hl : l.length < size) :
    strlen size s = some l.length := by
  rw [CharArrays.strlen, List.find?_range_eq_some]
  exact ⟨by simpa using h.nul, List.mem_range.mpr hl, fun i hi => by simpa using h.ne_zero hi⟩

theorem strncmpEq_from (n i : ℕ) (h : ∀ k ≤ l.length, s (i + k) = l.getD k 0) (h0 : 0 ∉ l)
    (h' : ∀ k ≤ l'.length, s' (i + k) = l'.getD k 0) (h0' : 0 ∉ l') :
    strncmpEq s s' n i = decide (l.take n = l'.take n) := by
  induction n generalizing i l l' with
  | zero => simp [strncmpEq]
  | succ n ih =>
    have hfirst := h 0 (Nat.zero_le _)
    have hfirst' := h' 0 (Nat.zero_le _)
    rw [Nat.add_zero] at hfirst hfirst'
    have hnext (k : ℕ) : i + 1 + k = i + (k + 1) := by omega
    rw [strncmpEq, hfirst, hfirst']
    cases l with
    | nil =>
      cases l' with
      | nil => simp
      | cons d rest' =>
        have hd : 0#8 ≠ d := fun he => h0' (he ▸ List.mem_cons_self)
        simp [hd]
    | cons c rest =>
      have hc : c ≠ 0#8 := fun he => h0 (he ▸ List.mem_cons_self)
      cases l' with
      | nil => simp [hc]
      | cons d rest' =>
        have hrest := @ih rest rest' (i + 1)
          (fun k hk => by rw [hnext]; exact h (k + 1) (by simpa using hk))
          (fun hm => h0 (List.mem_cons_of_mem _ hm))
          (fun k hk => by rw [hnext]; exact h' (k + 1) (by simpa using hk))
          (fun hm => h0' (List.mem_cons_of_mem _ hm))
        simp [hrest, hc]

theorem strncmpEq_spells (h : Spells s l) (h' : Spells s' l') (n : ℕ) :
    strncmpEq s s' n 0 = decide (l.take n = l'.take n) := by
  apply strncmpEq_from n 0 _ h.nonzero _ h'.nonzero
  · intro k hk
    rw [Nat.zero_add]
    exact h.chars k hk
  · intro k hk
    rw [Nat.zero_add]
    exact h'.chars k hk

theorem Padded.spells {size : ℕ} (h : Padded size s l) (hl : l.length < size) (h0 : 0 ∉ l) :
    Spells s l := ⟨fun i hi => h i (by omega), h0⟩

theorem getD_append_zero (l : List (BitVec 8)) (i : ℕ) : (l ++ [0]).getD i 0 = l.getD i 0 := by
  rcases lt_trichotomy i l.length with hlt | heq | hgt
  · rw [List.getD_append _ _ _ _ hlt]
  · rw [List.getD_append_right _ _ _ _ heq.ge, List.getD_eq_default _ _ heq.ge, heq, Nat.sub_self]
    rfl
  · rw [List.getD_eq_default _ _ (by simp; omega), List.getD_eq_default _ _ hgt.le]

theorem Padded.dropZero {size : ℕ} (h : Padded size s (l ++ [0])) : Padded size s l :=
  fun i hi => (h i hi).trans (getD_append_zero l i)

theorem Padded.store {size : ℕ} {a : Chars} (h : Padded size a.char l) (v : BitVec 8) :
    Padded size (a.store l.length v).char (l ++ [v]) := by
  intro i hi
  rw [Chars.store_char]
  rcases lt_trichotomy i l.length with hlt | rfl | hgt
  · rw [Function.update_of_ne hlt.ne, List.getD_append _ _ _ _ hlt]
    exact h i hi
  · rw [Function.update_self, List.getD_append_right _ _ _ _ le_rfl, Nat.sub_self]
    rfl
  · rw [Function.update_of_ne hgt.ne', List.getD_eq_default _ _ (by simp; omega), h i hi]
    exact List.getD_eq_default _ _ hgt.le

end Strings

theorem strncpy_char (dest : Chars) (src : List (BitVec 8)) (n i : ℕ) :
    (strncpy dest src n).char i = if i < n then src.getD i 0 else dest.char i := by
  induction n with
  | zero => rfl
  | succ n ih =>
    rw [strncpy, List.range_succ, List.foldl_append, ← strncpy]
    simp only [List.foldl_cons, List.foldl_nil, Chars.store]
    by_cases hi : i = n
    · rw [hi, Function.update_self, if_pos (Nat.lt_succ_self n)]
    · rw [Function.update_of_ne hi, ih]
      by_cases hlt : i < n
      · rw [if_pos hlt, if_pos (by omega)]
      · rw [if_neg hlt, if_neg (by omega)]

theorem strncpy_written (dest : Chars) (src : List (BitVec 8)) (n : ℕ) :
    ∀ i ∈ (strncpy dest src n).written, i < n ∨ i ∈ dest.written := by
  induction n with
  | zero => exact fun i hi => Or.inr hi
  | succ n ih =>
    rw [strncpy, List.range_succ, List.foldl_append, ← strncpy]
    intro i hi
    rcases List.mem_cons.mp hi with rfl | hi
    · exact Or.inl (Nat.lt_succ_self _)
    · exact (ih i hi).imp_left (fun h => h.trans (Nat.lt_succ_self n))

theorem strncpy_padded {dest : Chars} {n : ℕ} (h : Padded (n + 1) dest.char [])
    (src : List (BitVec 8)) : Padded (n + 1) (strncpy dest src n).char (src.take n) := by
  intro i hi
  rw [strncpy_char]
  by_cases hin : i < n
  · rw [if_pos hin, List.getD_eq_getElem?_getD, List.getD_eq_getElem?_getD, List.getElem?_take_of_lt hin]
  · rw [if_neg hin, h i hi, List.getD_eq_default _ _ (by simp), List.getD_eq_default]
    rw [List.length_take]
    omega

end Tosemu.CharArrays
