import Mathlib.Tactic.Linarith
import Tosemu.BigEndian

namespace Tosemu.Relocation

abbrev Image := ℕ → BitVec 8

def longOf (img : Image) (o : ℕ) : BitVec 32 :=
  BigEndian.pack [img o, img (o + 1), img (o + 2), img (o + 3)] 0

def storeLong (img : Image) (o : ℕ) (value : BitVec 32) : Image := fun i =>
  if o ≤ i then (BigEndian.unpack value 4)[i - o]?.getD (img i) else img i

def move (base : BitVec 32) (img : Image) (o : ℕ) : Image := storeLong img o (longOf img o + base)

/-- The bytes for a distance `d` to the next longword: ones for 254 each, then what is left. -/
def encodeDelta (d : ℕ) : List (BitVec 8) :=
  if d ≤ 254 then [BitVec.ofNat 8 d] else 1 :: encodeDelta (d - 254)

def encodeDeltas : ℕ → List ℕ → List (BitVec 8)
  | _, [] => [0]
  | prev, o :: offsets => encodeDelta (o - prev) ++ encodeDeltas o offsets

def encodeTable : List ℕ → List (BitVec 8)
  | [] => BigEndian.unpack (0 : BitVec 32) 4 ++ [0]
  | o :: offsets => BigEndian.unpack (BitVec.ofNat 32 o) 4 ++ encodeDeltas o offsets

theorem encodeTable_length (offsets : List ℕ) : 4 ≤ (encodeTable offsets).length := by
  cases offsets <;> simp [encodeTable]

def Spaced (offsets : List ℕ) : Prop := offsets.IsChain (fun a b => a + 4 ≤ b ∧ 2 ∣ b - a)

theorem storeLong_of_outside {img : Image} {o i : ℕ} {value : BitVec 32} (h : ¬ (o ≤ i ∧ i < o + 4)) :
    storeLong img o value i = img i := by
  by_cases ho : o ≤ i
  · rw [storeLong, if_pos ho, List.getElem?_eq_none (by rw [BigEndian.unpack_length]; omega)]
    rfl
  · rw [storeLong, if_neg ho]

theorem storeLong_getElem {img : Image} {o k : ℕ} {value : BitVec 32} (h : k < 4) :
    (BigEndian.unpack value 4)[k]? = some (storeLong img o value (o + k)) := by
  have hk : k < (BigEndian.unpack value 4).length := by rwa [BigEndian.unpack_length]
  rw [storeLong, if_pos (by omega), Nat.add_sub_cancel_left, List.getElem?_eq_getElem hk]
  rfl

theorem longOf_storeLong (img : Image) (o : ℕ) (value : BitVec 32) :
    longOf (storeLong img o value) o = value := by
  have hl : [storeLong img o value o, storeLong img o value (o + 1), storeLong img o value (o + 2),
      storeLong img o value (o + 3)] = BigEndian.unpack value 4 := by
    apply List.ext_getElem?
    intro k
    by_cases hk : k < 4
    · rw [storeLong_getElem hk]
      obtain rfl | rfl | rfl | rfl : k = 0 ∨ k = 1 ∨ k = 2 ∨ k = 3 := by omega
      all_goals rfl
    · rw [List.getElem?_eq_none (by simp; omega), List.getElem?_eq_none (by simp; omega)]
  rw [longOf, hl, BigEndian.pack_unpack_eq (by decide)]

theorem longOf_congr (img : Image) {img' : Image} {o : ℕ} (h : ∀ i, o ≤ i → i < o + 4 → img' i = img i) :
    longOf img' o = longOf img o := by
  rw [longOf, h o (by omega) (by omega), h (o + 1) (by omega) (by omega),
    h (o + 2) (by omega) (by omega), h (o + 3) (by omega) (by omega), longOf]

section Moves

variable {base : BitVec 32} {img : Image} {offsets : List ℕ}

theorem foldl_move_of_outside {i : ℕ} (h : ∀ o ∈ offsets, ¬ (o ≤ i ∧ i < o + 4)) :
    offsets.foldl (move base) img i = img i := by
  induction offsets generalizing img with
  | nil => rfl
  | cons o offsets ih =>
    rw [List.foldl_cons, ih (fun p hp => h p (List.mem_cons_of_mem _ hp)), move,
      storeLong_of_outside (h o List.mem_cons_self)]

theorem longOf_foldl_move (h : offsets.Pairwise (fun a b => a + 4 ≤ b)) {o : ℕ} (ho : o ∈ offsets) :
    longOf (offsets.foldl (move base) img) o = longOf img o + base := by
  induction offsets generalizing img with
  | nil => simp at ho
  | cons p offsets ih =>
    obtain ⟨hp, hs⟩ := List.pairwise_cons.mp h
    rw [List.foldl_cons]
    rcases List.mem_cons.mp ho with rfl | ho
    · rw [longOf_congr (move base img o)]
      · exact longOf_storeLong _ _ _
      intro i hi hi'
      apply foldl_move_of_outside
      intro q hq
      have := hp q hq
      omega
    · rw [ih hs ho, longOf_congr img]
      intro i hi hi'
      have := hp o ho
      exact storeLong_of_outside (by omega)

end Moves

theorem Spaced.pairwise {offsets : List ℕ} (h : Spaced offsets) :
    offsets.Pairwise (fun a b => a + 4 ≤ b) := by
  have htrans : Trans (fun a b : ℕ => a + 4 ≤ b) (fun a b => a + 4 ≤ b) (fun a b => a + 4 ≤ b) :=
    ⟨fun h h' => by omega⟩
  exact (h.imp (fun _ _ hab => hab.1)).pairwise

theorem Spaced.le_last {offsets : List ℕ} (h : Spaced offsets) {o : ℕ} (ho : o ∈ offsets) :
    ∃ l ∈ offsets.getLast?, o ≤ l := by
  obtain rfl | ⟨init, l, rfl⟩ := offsets.eq_nil_or_concat
  · simp at ho
  · have hp := h.pairwise
    rw [List.concat_eq_append] at ho hp ⊢
    refine ⟨l, by simp, ?_⟩
    rcases List.mem_append.mp ho with ho | ho
    · have := (List.pairwise_append.mp hp).2.2 o ho l (List.mem_singleton_self l)
      omega
    · rw [List.mem_singleton.mp ho]

end Tosemu.Relocation
