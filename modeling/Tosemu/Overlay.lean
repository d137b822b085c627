import Mathlib.Data.List.TakeDrop
import Mathlib.Logic.Function.Basic

namespace Tosemu.Overlay

variable {ι ρ β : Type}

section Rows

variable (hits : ρ → ι → Prop) [∀ r i, Decidable (hits r i)] (value : ρ → β)

def lay (r : ρ) (t : ι → β) : ι → β := fun i => if hits r i then value r else t i

def overlay (rows : List ρ) (t : ι → β) : ι → β := rows.foldl (fun t r => lay hits value r t) t

variable {hits value} {rows : List ρ} {t : ι → β}

theorem overlay_append (rows' : List ρ) :
    overlay hits value (rows ++ rows') t = overlay hits value rows' (overlay hits value rows t) :=
  List.foldl_append ..

variable (hits value t) in
theorem overlay_greatest {le : ρ → ρ → Prop} (hs : rows.Pairwise le) (i : ι) :
    (∀ r ∈ rows, ¬ hits r i) ∧ overlay hits value rows t i = t i ∨
      ∃ r ∈ rows, hits r i ∧ overlay hits value rows t i = value r ∧
        ∀ r' ∈ rows, hits r' i → r' = r ∨ le r' r := by
  induction rows generalizing t with
  | nil => exact Or.inl ⟨by simp, rfl⟩
  | cons r rows ih =>
    obtain ⟨hr, hs⟩ := List.pairwise_cons.mp hs
    have hstep : overlay hits value (r :: rows) t = overlay hits value rows (lay hits value r t) := rfl
    rw [hstep]
    rcases ih (lay hits value r t) hs with ⟨hnone, heq⟩ | ⟨r₀, hmem, hhit, heq, hle⟩
    · by_cases hi : hits r i
      · refine Or.inr ⟨r, List.mem_cons_self, hi, ?_, ?_⟩
        · rw [heq, lay, if_pos hi]
        · intro r' hr' hi'
          rcases List.mem_cons.mp hr' with rfl | hr'
          · exact Or.inl rfl
          · exact absurd hi' (hnone r' hr')
      · refine Or.inl ⟨?_, ?_⟩
        · intro r' hr'
          rcases List.mem_cons.mp hr' with rfl | hr'
          · exact hi
          · exact hnone r' hr'
        · rw [heq, lay, if_neg hi]
    · refine Or.inr ⟨r₀, List.mem_cons_of_mem _ hmem, hhit, heq, ?_⟩
      intro r' hr' hi'
      rcases List.mem_cons.mp hr' with rfl | hr'
      · exact Or.inr (hr r₀ hmem)
      · exact hle r' hr' hi'

end Rows

section Passes

variable {T : Type}

def pass (p : ρ → Bool) (write : ρ → T → T) : List ρ → T → T × List ρ
  | [], t => (t, [])
  | r :: rows, t => if p r then pass p write rows (write r t) else (t, r :: rows)

variable {p : ρ → Bool} {write : ρ → T → T} {rows : List ρ}

theorem pass_eq (t : T) : pass p write rows t =
    ((rows.takeWhile p).foldl (fun t r => write r t) t, rows.dropWhile p) := by
  induction rows generalizing t with
  | nil => rfl
  | cons r rows ih =>
    rw [pass, List.takeWhile_cons, List.dropWhile_cons]
    by_cases hp : p r = true
    · rw [if_pos hp, if_pos hp, if_pos hp, ih]
      rfl
    · rw [if_neg hp, if_neg hp, if_neg hp]
      rfl

theorem rank_dropWhile {rank : ρ → ℕ} {k : ℕ} (hs : rows.Pairwise fun r r' => rank r ≤ rank r')
    (hp : ∀ r ∈ rows, p r = true ↔ rank r = k) (hk : ∀ r ∈ rows, k ≤ rank r) :
    ∀ r ∈ rows.dropWhile p, k + 1 ≤ rank r := by
  induction rows with
  | nil => simp
  | cons r rows ih =>
    obtain ⟨hr, hs⟩ := List.pairwise_cons.mp hs
    rw [List.dropWhile_cons]
    by_cases hpr : p r = true
    · rw [if_pos hpr]
      exact ih hs (fun r' hr' => hp r' (List.mem_cons_of_mem _ hr'))
        (fun r' hr' => hk r' (List.mem_cons_of_mem _ hr'))
    · rw [if_neg hpr]
      have hne : rank r ≠ k := fun h => hpr ((hp r List.mem_cons_self).mpr h)
      have hlow := hk r List.mem_cons_self
      intro r' hr'
      rcases List.mem_cons.mp hr' with rfl | hr'
      · omega
      · have := hr r' hr'
        omega

end Passes

end Tosemu.Overlay
