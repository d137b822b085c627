import Mathlib.Data.List.Basic

namespace Tosemu.Fields

variable {α : Type} (sep : α → Bool)

def fields (s : List α) : List (List α) := (s.splitOnP sep).filter (fun n => !n.isEmpty)

variable {sep}

theorem fields_nil : fields sep [] = [] := rfl

theorem fields_append_cons (s r : List α) {c : α} (hc : sep c = true) :
    fields sep (s ++ c :: r) = fields sep s ++ fields sep r := by
  rw [fields, List.splitOnP_append_cons s r hc, List.filter_append, fields, fields]

theorem fields_cons (r : List α) {c : α} (hc : sep c = true) : fields sep (c :: r) = fields sep r :=
  fields_append_cons [] r hc

theorem fields_single {s : List α} (hs : s ≠ []) (h : ∀ c ∈ s, sep c = false) : fields sep s = [s] := by
  rw [fields, List.splitOnP_eq_singleton h, List.filter_cons_of_pos, List.filter_nil]
  simpa using hs

theorem fields_flatten (s : List α) : (fields sep s).flatten = s.filter (fun c => !sep c) := by
  rw [fields, List.flatten_filter_not_isEmpty]
  induction s with
  | nil => rfl
  | cons c s ih =>
    rw [List.splitOnP_cons_eq_if_modifyHead]
    cases hc : sep c with
    | true =>
      rw [if_pos rfl, List.flatten_cons, ih, List.filter_cons_of_neg (by simp [hc])]
      rfl
    | false =>
      rw [if_neg Bool.false_ne_true, List.filter_cons_of_pos (by simp [hc]), ← ih]
      obtain ⟨n, rest, hrest⟩ := List.exists_cons_of_ne_nil (List.splitOnP_ne_nil sep s)
      rw [hrest]
      rfl

theorem fields_seps {s : List α} (h : ∀ c ∈ s, sep c = true) : fields sep s = [] := by
  induction s with
  | nil => exact fields_nil
  | cons c s ih =>
    rw [fields_cons s (h c List.mem_cons_self)]
    exact ih (fun d hd => h d (List.mem_cons_of_mem c hd))

theorem fields_append_seps (s : List α) {r : List α} (h : ∀ c ∈ r, sep c = true) :
    fields sep (s ++ r) = fields sep s := by
  cases r with
  | nil => rw [List.append_nil]
  | cons c r =>
    have hrest := fields_seps (fun d hd => h d (List.mem_cons_of_mem c hd))
    rw [fields_append_cons s r (h c List.mem_cons_self), hrest, List.append_nil]

theorem filter_length_le (s r : List α) :
    (s.filter (fun c => !sep c)).length ≤ ((s ++ r).filter (fun c => !sep c)).length := by
  rw [List.filter_append, List.length_append]
  exact Nat.le_add_right _ _

theorem seps_of_length {s r : List α}
    (h : ((s ++ r).filter (fun c => !sep c)).length ≤ (s.filter (fun c => !sep c)).length) :
    ∀ c ∈ r, sep c = true := by
  rw [List.filter_append, List.length_append] at h
  have hnil : r.filter (fun c => !sep c) = [] := List.length_eq_zero_iff.mp (by omega)
  intro c hc
  simpa using List.filter_eq_nil_iff.mp hnil c hc

theorem fields_cut_iff {sep' : α → Bool} (s r s' r' : List α) :
    fields sep s ++ fields sep' s' = fields sep (s ++ r) ++ fields sep' (s' ++ r') ↔
      (∀ c ∈ r, sep c = true) ∧ ∀ c ∈ r', sep' c = true := by
  constructor
  · intro h
    have hlen := congrArg (fun l => l.flatten.length) h
    simp only [List.flatten_append, fields_flatten, List.length_append] at hlen
    have hle := @filter_length_le α sep s r
    have hle' := @filter_length_le α sep' s' r'
    exact ⟨seps_of_length (s := s) (by omega), seps_of_length (s := s') (by omega)⟩
  · rintro ⟨hr, hr'⟩
    rw [fields_append_seps s hr, fields_append_seps s' hr']

end Tosemu.Fields
