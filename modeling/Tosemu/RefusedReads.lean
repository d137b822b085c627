import Tosemu.FileRoundTrip
import Tosemu.MagicMemory

namespace Tosemu

def Refused (m : Machine) (x : Long) : Prop :=
  (findMemarea m.memory x).all (fun area => area.flags &&& m.readMask = 0) = true

instance (m : Machine) (x : Long) : Decidable (Refused m x) := inferInstanceAs (Decidable (_ = true))

theorem tosRead_refused {m : Machine} {x : Long} (h : Refused m x) : tosRead x m = (0, m.haltExecution) := by
  unfold tosRead tosReadWith
  cases hfind : findMemarea m.memory x with
  | none => rfl
  | some area =>
    rw [Refused, hfind] at h
    have hmask : area.flags &&& m.readMask = 0 := by simpa using h
    simp only [hmask, ne_eq, not_true_eq_false, if_false]

def StaysHalted (read : ByteRead) : Prop :=
  ∀ x m, m.keepongoing = false → (read x m).2.keepongoing = false

theorem readLoop_halted {read : ByteRead} (h : StaysHalted read) (n : ℕ) (a res : Long) {m : Machine}
    (hm : m.keepongoing = false) : (readLoop read n a res m).2.keepongoing = false := by
  induction n generalizing a res m with
  | zero => exact hm
  | succ n ih => exact ih _ _ (h a m hm)

theorem tosReadWith_halted {magic : ByteRead} (h : StaysHalted magic) :
    StaysHalted (tosReadWith magic) := fun x m hm =>
  tosReadWith_elim (P := fun r => r.2.keepongoing = false) rfl (fun _ => hm) (h x m hm)

theorem magicReentry_halted : StaysHalted magicReentry := by
  intro x m hm
  unfold magicReentry
  split_ifs <;> exact hm

theorem pop_halted {m : Machine} (hm : m.keepongoing = false) :
    (popU32With (tosReadWith magicReentry) m).2.keepongoing = false :=
  readLoop_halted (tosReadWith_halted magicReentry_halted) 4 (m.getReg (.a 7)) 0 hm

theorem tosRead_halted : StaysHalted tosRead := by
  apply tosReadWith_halted
  intro x m hm
  by_cases hx : x = 0x201
  · rw [hx, magicXbiosSupexecRead, magicXbiosSupexecReadWith_second, supexecReturn_keepongoing]
    exact pop_halted hm
  · unfold magicXbiosSupexecRead magicXbiosSupexecReadWith
    rw [if_neg hx]
    split_ifs <;> exact hm

def readState (a : Long) (m : Machine) : ℕ → Machine
  | 0 => m
  | k + 1 => (tosRead (a + BitVec.ofNat 32 k) (readState a m k)).2

def byteRead (a : Long) (m : Machine) (k : ℕ) : Byte :=
  (tosRead (a + BitVec.ofNat 32 k) (readState a m k)).1

def RefusedRead (a : Long) (m : Machine) (k : ℕ) : Prop :=
  Refused (readState a m k) (a + BitVec.ofNat 32 k)

section Sequence

variable {a : Long} {m : Machine} {k n : ℕ}

theorem byteRead_refused (h : RefusedRead a m k) : byteRead a m k = 0 := by
  rw [byteRead, tosRead_refused h]

theorem readState_halted (h : RefusedRead a m k) (hk : k < n) : (readState a m n).keepongoing = false := by
  obtain ⟨d, rfl⟩ := Nat.exists_eq_add_of_lt hk
  induction d with
  | zero =>
    rw [Nat.add_zero, readState, tosRead_refused h]
    rfl
  | succ d ih => exact tosRead_halted _ _ (ih (by omega))

theorem readState_succ (a : Long) (m : Machine) (k : ℕ) :
    readState (a + 1) (tosRead a m).2 k = readState a m (k + 1) := by
  induction k with
  | zero => rw [readState, readState, readState, BitVec.add_zero]
  | succ k ih =>
    rw [readState, ih, succ_add_ofNat]
    rfl

theorem byteRead_succ (a : Long) (m : Machine) (k : ℕ) :
    byteRead (a + 1) (tosRead a m).2 k = byteRead a m (k + 1) := by
  rw [byteRead, readState_succ, succ_add_ofNat, byteRead]

end Sequence

namespace File

theorem copyIn_eq (n : ℕ) (a : Long) (m : Machine) :
    copyIn a n m = ((List.range n).map (byteRead a m), readState a m n) := by
  induction n generalizing a m with
  | zero => rfl
  | succ n ih =>
    have hread : m68kReadMemory8 a m = ((tosRead a m).1.setWidth 32, (tosRead a m).2) := rfl
    have hfirst : (tosRead a m).1 = byteRead a m 0 := by rw [byteRead, BitVec.add_zero, readState]
    rw [copyIn, hread, low_byte_setWidth, ih, List.range_succ_eq_map, List.map_cons, List.map_map,
      hfirst, readState_succ]
    congr 2
    exact List.map_congr_left (fun k _ => byteRead_succ a m k)

end File

namespace Gemdos

open Host

def getPathLoop (address : Long) : ℕ → ℕ → Machine → List Byte × Machine
  | 0, _, m => ([], m)
  | n + 1, i, m =>
    let r := m68kReadDisassembler8 (address + BitVec.ofNat 32 i) m
    let c : Byte := r.1.setWidth 8
    if c = 0 then ([], r.2)
    else
      let rest := getPathLoop address n (i + 1) r.2
      (c :: rest.1, rest.2)

/-- The string that `get_path` leaves in its buffer, which was zeroed before. -/
def getPath (address : Long) (m : Machine) : List Byte × Machine := getPathLoop address PATH_MAX 0 m

theorem getPathLoop_step (a : Long) (m : Machine) (n i : ℕ) :
    getPathLoop a (n + 1) i (readState a m i) =
      if byteRead a m i = 0 then ([], readState a m (i + 1))
      else
        let r := getPathLoop a n (i + 1) (readState a m (i + 1))
        (byteRead a m i :: r.1, r.2) := by
  have hread : m68kReadDisassembler8 (a + BitVec.ofNat 32 i) (readState a m i) =
      ((byteRead a m i).setWidth 32, readState a m (i + 1)) := rfl
  rw [getPathLoop, hread]
  dsimp only
  rw [File.low_byte_setWidth]

theorem getPathLoop_zero {a : Long} {m : Machine} {n i k : ℕ} (hk : k < n)
    (hbefore : ∀ j < k, byteRead a m (i + j) ≠ 0) (hzero : byteRead a m (i + k) = 0) :
    getPathLoop a n i (readState a m i) =
      ((List.range k).map (fun j => byteRead a m (i + j)), readState a m (i + k + 1)) := by
  induction n generalizing i k with
  | zero => omega
  | succ n ih =>
    rw [getPathLoop_step]
    cases k with
    | zero =>
      rw [Nat.add_zero] at hzero
      rw [if_pos hzero]
      rfl
    | succ k =>
      have hshift : ∀ j, i + 1 + j = i + (j + 1) := fun j => by omega
      have hfirst := hbefore 0 (by omega)
      rw [Nat.add_zero] at hfirst
      rw [if_neg hfirst, ih (k := k) (by omega)]
      · rw [List.range_succ_eq_map, List.map_cons, List.map_map, hshift]
        simp only [hshift, Function.comp_def, Nat.add_zero]
      · intro j hj
        rw [hshift]
        exact hbefore (j + 1) (by omega)
      · rwa [hshift]

theorem getPathLoop_memory (a : Long) (n i : ℕ) (m : Machine) :
    (getPathLoop a n i m).2.memory = m.memory := by
  induction n generalizing i m with
  | zero => rfl
  | succ n ih =>
    have hread : (m68kReadDisassembler8 (a + BitVec.ofNat 32 i) m).2.memory = m.memory :=
      tosRead_memory _ m
    rw [getPathLoop]
    dsimp only
    split_ifs
    · exact hread
    · exact (ih _ _).trans hread

theorem getPath_memory (a : Long) (m : Machine) : (getPath a m).2.memory = m.memory :=
  getPathLoop_memory a PATH_MAX 0 m

theorem getPath_zero {a : Long} {m : Machine} {k : ℕ} (hk : k < PATH_MAX)
    (hbefore : ∀ j < k, byteRead a m j ≠ 0) (hzero : byteRead a m k = 0) :
    getPath a m = ((List.range k).map (byteRead a m), readState a m (k + 1)) := by
  have h := getPathLoop_zero (a := a) (m := m) (i := 0) hk
  simp only [Nat.zero_add] at h
  exact h hbefore hzero

end Gemdos

end Tosemu
