import Mathlib.Logic.Function.Iterate
import Mathlib.Tactic.Cases

/-!
Computations that are put together from given primitives, and may end in one of given exits. What
holds across every primitive holds across the computation, up to the exit if it takes one: for a
property of the state, and for two runs side by side.
-/

namespace Tosemu.Programs

abbrev Family (σ : Type) := ∀ β : Type, StateM σ β → Prop

def noExit (σ : Type) : Family σ := fun _ _ => False

inductive Program {σ : Type} (P E : Family σ) : ∀ {α : Type}, StateM σ α → Prop
  | pure {α : Type} (a : α) : Program P E (pure a : StateM σ α)
  | step {α β : Type} {x : StateM σ β} {f : β → StateM σ α} (hx : P β x) (hf : ∀ b, Program P E (f b)) :
    Program P E (x >>= f)
  | last {α : Type} {x : StateM σ α} (hx : E α x) : Program P E x

namespace Program

variable {σ α β : Type} {P E : Family σ}

theorem prim {x : StateM σ α} (hx : P α x) : Program P E x := .step hx fun a => .pure a

theorem bind {x : StateM σ β} (hx : Program P (noExit σ) x) {f : β → StateM σ α}
    (hf : ∀ b, Program P E (f b)) : Program P E (x >>= f) := by
  induction hx with
  | pure b => exact hf b
  | @step γ y g hy _ ih => exact Program.step (f := fun c => g c >>= f) hy ih
  | last hy => exact hy.elim

theorem lift {x : StateM σ α} (hx : Program P (noExit σ) x) : Program P E x :=
  hx.bind fun a => .pure a

section Invariant

variable {I : σ → Prop} {K : σ → σ → Prop} (hrefl : ∀ s, K s s) (htrans : ∀ s t u, K s t → K t u → K s u)
  (hP : ∀ {β : Type} (x : StateM σ β), P β x → ∀ s, I s → I (x s).2 ∧ K s (x s).2)

include hrefl htrans hP

theorem run {x : StateM σ α} (hx : Program P E x) : ∀ {s : σ}, I s →
    I (x s).2 ∧ K s (x s).2 ∨ ∃ y, E α y ∧ ∃ s₁, I s₁ ∧ K s s₁ ∧ x s = y s₁ := by
  induction hx with
  | pure a => exact fun hs => Or.inl ⟨hs, hrefl _⟩
  | @step β x f hx hf ih =>
    intro s hs
    have hstep := hP x hx s hs
    rcases ih (x s).1 hstep.1 with ⟨hI, hK⟩ | ⟨y, hy, s₁, hI, hK, heq⟩
    · exact Or.inl ⟨hI, htrans _ _ _ hstep.2 hK⟩
    · exact Or.inr ⟨y, hy, s₁, hI, htrans _ _ _ hstep.2 hK, heq⟩
  | last hy => exact fun hs => Or.inr ⟨_, hy, _, hs, hrefl _, rfl⟩

end Invariant

section Related

variable {R : σ → σ → Prop}
  (hP : ∀ {β : Type} (x : StateM σ β), P β x → ∀ s t, R s t → (x s).1 = (x t).1 ∧ R (x s).2 (x t).2)

include hP

theorem related {x : StateM σ α} (hx : Program P E x) : ∀ {s t : σ}, R s t →
    (x s).1 = (x t).1 ∧ R (x s).2 (x t).2 ∨
      ∃ y, E α y ∧ ∃ s₁ t₁, R s₁ t₁ ∧ x s = y s₁ ∧ x t = y t₁ := by
  induction hx with
  | pure a => exact fun h => Or.inl ⟨rfl, h⟩
  | @step β x f hx hf ih =>
    intro s t h
    obtain ⟨hval, hstep⟩ := hP x hx s t h
    have ht : (x >>= f) t = f (x s).1 (x t).2 := by rw [hval]; rfl
    rcases ih (x s).1 hstep with hrun | ⟨y, hy, s₁, t₁, hR, hs₁, ht₁⟩
    · rw [ht]
      exact Or.inl hrun
    · exact Or.inr ⟨y, hy, s₁, t₁, hR, hs₁, ht.trans ht₁⟩
  | last hy => exact fun h => Or.inr ⟨_, hy, _, _, h, rfl, rfl⟩

end Related

end Program

theorem stays_or_leaves {σ : Type} {f : σ → σ} {I L : σ → Prop} (hstep : ∀ s, I s → I (f s) ∨ L s) {s : σ}
    (hs : I s) (n : ℕ) : I (f^[n] s) ∨ ∃ k < n, I (f^[k] s) ∧ L (f^[k] s) := by
  induction n with
  | zero => exact Or.inl hs
  | succ n ih =>
    rcases ih with hI | ⟨k, hk, hleave⟩
    · rw [Function.iterate_succ_apply']
      rcases hstep _ hI with hnext | hleave
      · exact Or.inl hnext
      · exact Or.inr ⟨n, by omega, hI, hleave⟩
    · exact Or.inr ⟨k, by omega, hleave⟩

end Tosemu.Programs
