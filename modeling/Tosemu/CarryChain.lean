import Mathlib.Data.Nat.Digits.Lemmas
import Mathlib.Tactic.Ring

namespace Tosemu.CarryChain

/-- A relation between a carry, two digits, the digit made of them and the carry that is left, in
every base, which digits put one behind the other keep. -/
structure CarryRelation where
  holds : (base c x y z c' : ℕ) → Prop
  nil : ∀ c, holds 1 c 0 0 0 c
  append : ∀ {b b' c x y z c' x' y' z' c''}, holds b c x y z c' → holds b' c' x' y' z' c'' →
    holds (b * b') c (x + b * x') (y + b * y') (z + b * z') c''

def sum : CarryRelation where
  holds base c x y z c' := z + base * c' = x + y + c
  nil c := by ring
  append {b b' c x y z c' x' y' z' c''} h h' := by
    calc z + b * z' + b * b' * c'' = z + b * (z' + b' * c'') := by ring
      _ = z + b * c' + b * x' + b * y' := by rw [h']; ring
      _ = x + b * x' + (y + b * y') + c := by rw [h]; ring

/-- `z` is what is left of `y` when `x` is taken away, and the carry is a borrow. -/
def difference : CarryRelation where
  holds base c x y z c' := z + x + c = y + base * c'
  nil c := by ring
  append {b b' c x y z c' x' y' z' c''} h h' := by
    calc z + b * z' + (x + b * x') + c = z + x + c + b * z' + b * x' := by ring
      _ = y + b * (z' + x' + c') := by rw [h]; ring
      _ = y + b * y' + b * b' * c'' := by rw [h']; ring

section Digits

variable (rel : CarryRelation) {base n : ℕ} {x y z c : ℕ → ℕ}

def value (base : ℕ) (digit : ℕ → ℕ) (n : ℕ) : ℕ := Nat.ofDigits base ((List.range n).map digit)

theorem value_succ (digit : ℕ → ℕ) (n : ℕ) :
    value base digit (n + 1) = value base digit n + base ^ n * digit n := by
  simp [value, List.range_succ, Nat.ofDigits_append]

theorem value_add (digit : ℕ → ℕ) (n k : ℕ) :
    value base digit (n + k) =
      value base digit n + base ^ n * value base (fun i => digit (n + i)) k := by
  simp [value, List.range_add, Nat.ofDigits_append, Function.comp_def]

theorem value_one (digit : ℕ → ℕ) : value base digit 1 = digit 0 := by simp [value]

theorem value_succ' (digit : ℕ → ℕ) (n : ℕ) :
    value base digit (n + 1) = digit 0 + base * value base (fun i => digit (i + 1)) n := by
  rw [Nat.add_comm n 1, value_add, value_one, pow_one]
  simp only [Nat.add_comm 1]

theorem value_group (f : ℕ → ℕ) (j n : ℕ) :
    value (base ^ j) (fun k => value base (fun i => f (j * k + i)) j) n = value base f (j * n) := by
  induction n with
  | zero => simp [value]
  | succ n ih => rw [value_succ, ih, Nat.mul_succ, value_add, pow_mul]

theorem value_lt_pow {f : ℕ → ℕ} (h : ∀ i < n, f i < base) : value base f n < base ^ n := by
  induction n with
  | zero => exact Nat.one_pos
  | succ n ih =>
    have hlow := ih fun i hi => h i (hi.trans (Nat.lt_succ_self n))
    have hdigit : base ^ n * (f n + 1) ≤ base ^ n * base := Nat.mul_le_mul_left _ (h n (Nat.lt_succ_self n))
    rw [Nat.mul_succ] at hdigit
    rw [value_succ, pow_succ]
    omega

theorem value_congr {f g : ℕ → ℕ} (h : ∀ i < n, f i = g i) : value base f n = value base g n := by
  rw [value, value, List.map_congr_left]
  intro i hi
  exact h i (List.mem_range.mp hi)

theorem value_eq_zero (hbase : 0 < base) {f : ℕ → ℕ} : value base f n = 0 ↔ ∀ i < n, f i = 0 := by
  induction n with
  | zero => simp [value]
  | succ n ih =>
    have hpow : base ^ n ≠ 0 := (Nat.pow_pos hbase).ne'
    rw [value_succ, Nat.add_eq_zero_iff, ih, Nat.mul_eq_zero, or_iff_right hpow, Nat.forall_lt_succ_right]

theorem chain (h : ∀ k < n, rel.holds base (c k) (x k) (y k) (z k) (c (k + 1))) :
    rel.holds (base ^ n) (c 0) (value base x n) (value base y n) (value base z n) (c n) := by
  induction n with
  | zero => exact rel.nil (c 0)
  | succ n ih =>
    have hlow := ih (fun k hk => h k (by omega))
    have hhigh := rel.append hlow (h n (by omega))
    simpa only [value_succ, pow_succ] using hhigh

end Digits

end Tosemu.CarryChain
