import Mathlib.Logic.Function.Iterate
import Mathlib.Tactic.SplitIfs
import Mathlib.Data.Nat.Basic

/-!
A register that moves by one bit at a time. The bit that enters is the next one of an endless tape,
and after `k` steps the register shows the window of the tape that begins at `k`.
-/

namespace Tosemu.BitSerial

variable {n : ℕ}

/-- `x` is a bit that the register may be linked with, `c` the bit that left it last, and `v` tells
whether the top bit has ever changed. -/
structure Reg (n : ℕ) where
  a : BitVec n
  x : Bool
  c : Bool
  v : Bool

def right (enter : Reg n → Bool) (link : Bool) (s : Reg n) : Reg n where
  a := s.a >>> 1 ||| (if enter s then BitVec.twoPow n (n - 1) else 0)
  x := if link then s.a.getLsbD 0 else s.x
  c := s.a.getLsbD 0
  v := s.v

def left (enter : Reg n → Bool) (link : Bool) (s : Reg n) : Reg n where
  a := s.a <<< 1 ||| (if enter s then BitVec.twoPow n 0 else 0)
  x := if link then s.a.getMsbD 0 else s.x
  c := s.a.getMsbD 0
  v := s.v || (s.a.getMsbD 0 != s.a.getMsbD 1)

section Steps

variable {enter : Reg n → Bool} {link : Bool} {s : Reg n} {i : ℕ}

theorem right_bit (hi : i < n) :
    (right enter link s).a.getLsbD i = if i + 1 < n then s.a.getLsbD (i + 1) else enter s := by
  rw [right, BitVec.getLsbD_or, BitVec.getLsbD_ushiftRight, Nat.add_comm]
  by_cases hin : i + 1 < n
  · have hne : n - 1 ≠ i := by omega
    rw [if_pos hin]
    cases enter s <;> simp [hne]
  · have heq : n - 1 = i := by omega
    have hout : s.a.getLsbD (i + 1) = false := BitVec.getLsbD_of_ge _ _ (by omega)
    rw [if_neg hin, hout]
    cases enter s <;> simp [heq, hi]

theorem left_bit (hi : i < n) :
    (left enter link s).a.getMsbD i = if i + 1 < n then s.a.getMsbD (i + 1) else enter s := by
  rw [left, BitVec.getMsbD_or, BitVec.getMsbD_shiftLeft]
  by_cases hin : i + 1 < n
  · rw [if_pos hin]
    cases enter s
    · simp
    · simp [BitVec.getMsbD_twoPow]
      omega
  · have hout : s.a.getMsbD (i + 1) = false := BitVec.getMsbD_of_ge _ _ (by omega)
    rw [if_neg hin, hout]
    cases enter s
    · simp
    · simp [BitVec.getMsbD_twoPow]
      omega

end Steps

/-- The register shows the tape from `k` on, its lowest bit first (`right`) or its highest. -/
structure At (bit : BitVec n → ℕ → Bool) (tape link : ℕ → Bool) (k : ℕ) (s : Reg n) : Prop where
  a : ∀ i < n, bit s.a i = tape (i + k)
  x : s.x = link k

section Runs

variable {tape x : ℕ → Bool} {enter : Reg n → Bool} {link : Bool} {s : Reg n}
  (hx : ∀ k, x (k + 1) = if link then tape k else x k) (hn : 0 < n)

include hx hn

theorem right_run (henter : ∀ k s, At BitVec.getLsbD tape x k s → enter s = tape (n + k))
    (h : At BitVec.getLsbD tape x 0 s) (k : ℕ) :
    At BitVec.getLsbD tape x k ((right enter link)^[k] s) ∧
      (0 < k → ((right enter link)^[k] s).c = tape (k - 1)) := by
  induction k with
  | zero => exact ⟨h, fun hk => absurd hk (lt_irrefl 0)⟩
  | succ k ih =>
    rw [Function.iterate_succ_apply']
    obtain ⟨hat, -⟩ := ih
    have hlow : ((right enter link)^[k] s).a.getLsbD 0 = tape k := by rw [hat.a 0 hn, Nat.zero_add]
    refine ⟨⟨fun i hi => ?_, ?_⟩, fun _ => hlow⟩
    · rw [right_bit hi]
      split_ifs with hin
      · rw [hat.a _ hin, Nat.add_right_comm]
        rfl
      · rw [henter k _ hat, show n + k = i + (k + 1) by omega]
    · rw [hx, right, ← hlow, ← hat.x]

theorem left_run (henter : ∀ k s, At BitVec.getMsbD tape x k s → enter s = tape (n + k))
    (h : At BitVec.getMsbD tape x 0 s) (k : ℕ) :
    At BitVec.getMsbD tape x k ((left enter link)^[k] s) ∧
      (0 < k → ((left enter link)^[k] s).c = tape (k - 1)) ∧
      (1 < n → (((left enter link)^[k] s).v = true ↔ s.v = true ∨ ∃ j < k, tape j ≠ tape (j + 1))) := by
  induction k with
  | zero => exact ⟨h, fun hk => absurd hk (lt_irrefl 0), fun _ => by simp⟩
  | succ k ih =>
    rw [Function.iterate_succ_apply']
    obtain ⟨hat, -, hv⟩ := ih
    have hhigh : ((left enter link)^[k] s).a.getMsbD 0 = tape k := by rw [hat.a 0 hn, Nat.zero_add]
    refine ⟨⟨fun i hi => ?_, ?_⟩, fun _ => hhigh, fun hn1 => ?_⟩
    · rw [left_bit hi]
      split_ifs with hin
      · rw [hat.a _ hin, Nat.add_right_comm]
        rfl
      · rw [henter k _ hat, show n + k = i + (k + 1) by omega]
    · rw [hx, left, ← hhigh, ← hat.x]
    · have hnext : ((left enter link)^[k] s).a.getMsbD 1 = tape (k + 1) := by
        rw [hat.a 1 hn1, Nat.add_comm]
      rw [left, Bool.or_eq_true, hv hn1, hhigh, hnext, bne_iff_ne, Nat.exists_lt_succ_right, or_assoc]

end Runs

end Tosemu.BitSerial
