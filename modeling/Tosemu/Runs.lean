import Mathlib.Data.List.Basic
import Mathlib.Logic.Function.Basic

namespace Tosemu.Runs

variable {S A R : Type}

def run (step : S → A → R × S) (s : S) : List A → S
  | [] => s
  | a :: as => run step (step s a).2 as

def results (step : S → A → R × S) (s : S) : List A → List R
  | [] => []
  | a :: as => (step s a).1 :: results step (step s a).2 as

def Along (step : S → A → R × S) (C : S → A → Prop) (s : S) : List A → Prop
  | [] => True
  | a :: as => C s a ∧ Along step C (step s a).2 as

instance decidableAlong (step : S → A → R × S) (C : S → A → Prop) [∀ s a, Decidable (C s a)] :
    ∀ (s : S) (as : List A), Decidable (Along step C s as)
  | _, [] => inferInstanceAs (Decidable True)
  | s, a :: as =>
    have := decidableAlong step C (step s a).2 as
    inferInstanceAs (Decidable (C s a ∧ Along step C (step s a).2 as))

variable {step : S → A → R × S} {C D : S → A → Prop} {Inv : S → Prop}

theorem run_invariant (h : ∀ s a, Inv s → Inv (step s a).2) {s : S} (hs : Inv s) (as : List A) :
    Inv (run step s as) := by
  induction as generalizing s with
  | nil => exact hs
  | cons a as ih => exact ih (h s a hs)

theorem along_mono (hinv : ∀ s a, Inv s → C s a → Inv (step s a).2)
    (h : ∀ s a, Inv s → C s a → D s a) {s : S} (hs : Inv s) {as : List A}
    (ha : Along step C s as) : Along step D s as := by
  induction as generalizing s with
  | nil => trivial
  | cons a as ih => exact ⟨h s a hs ha.1, ih (hinv s a hs ha.1) ha.2⟩

theorem run_along (hinv : ∀ s a, Inv s → C s a → Inv (step s a).2) {s : S} (hs : Inv s) {as : List A}
    (ha : Along step C s as) : Inv (run step s as) := by
  induction as generalizing s with
  | nil => exact hs
  | cons a as ih => exact ih (hinv s a hs ha.1) ha.2

theorem along_of_forall {P : A → Prop} (s : S) {as : List A} (h : ∀ a ∈ as, P a) :
    Along step (fun _ a => P a) s as := by
  induction as generalizing s with
  | nil => trivial
  | cons a as ih =>
    exact ⟨h a List.mem_cons_self, ih (step s a).2 (fun b hb => h b (List.mem_cons_of_mem _ hb))⟩

theorem run_related {Rel : S → S → Prop}
    (h : ∀ s t a, Rel s t → (step s a).1 = (step t a).1 ∧ Rel (step s a).2 (step t a).2) {s t : S}
    (hst : Rel s t) (as : List A) :
    results step s as = results step t as ∧ Rel (run step s as) (run step t as) := by
  induction as generalizing s t with
  | nil => exact ⟨rfl, hst⟩
  | cons a as ih =>
    obtain ⟨hr, hn⟩ := h s t a hst
    obtain ⟨hrs, hns⟩ := ih hn
    exact ⟨by rw [results, results, hr, hrs], hns⟩

section Store

variable {K V : Type} [DecidableEq K]

def storeStep (s : K → V) (c : K × V) : V × (K → V) := (s c.1, Function.update s c.1 c.2)

def latest (s : K → V) (earlier : List (K × V)) (k : K) : V :=
  ((earlier.filter (fun c => c.1 = k)).getLast?.map Prod.snd).getD (s k)

theorem run_storeStep (s : K → V) (calls : List (K × V)) (k : K) :
    run storeStep s calls k = latest s calls k := by
  induction calls generalizing s with
  | nil => rfl
  | cons c calls ih =>
    rw [run, ih, latest, latest]
    by_cases hk : c.1 = k
    · rw [List.filter_cons_of_pos (by simpa using hk), List.getLast?_cons]
      cases (calls.filter (fun d => d.1 = k)).getLast? with
      | none => simp [storeStep, hk]
      | some d => simp
    · have hs : (storeStep s c).2 k = s k := Function.update_of_ne (Ne.symm hk) _ _
      rw [List.filter_cons_of_neg (by simpa using hk), hs]

end Store

end Tosemu.Runs
