import Tosemu.StackFrames

namespace Tosemu.M68k

open Cpu

section Registers

theorem address_lt {r : Fin 16} (h : ¬ r.val < 8) : r.val - 8 < 8 := by omega

def getDa (r : Fin 16) (c : Core) : Long :=
  if h : r.val < 8 then c.d ⟨r, h⟩ else c.a ⟨r - 8, address_lt h⟩

def putDa (r : Fin 16) (v : Long) (c : Core) : Core :=
  if h : r.val < 8 then { c with d := Function.update c.d ⟨r, h⟩ v }
  else { c with a := Function.update c.a ⟨r - 8, address_lt h⟩ v }

variable {r r' : Fin 16} {v : Long} {c : Core}

theorem regDa_apply (r : Fin 16) (m : Machine) : regDa r m = (getDa r m.cpu, m) := by
  rw [regDa, getDa]
  split <;> rfl

theorem setRegDa_apply (r : Fin 16) (v : Long) (m : Machine) :
    setRegDa r v m = ((), { m with cpu := putDa r v m.cpu }) := by
  rw [setRegDa, putDa]
  split <;> rfl

theorem getDa_putDa_self : getDa r (putDa r v c) = v := by
  by_cases h : r.val < 8 <;> simp [putDa, getDa, h]

theorem getDa_putDa_of_ne (hne : r' ≠ r) : getDa r' (putDa r v c) = getDa r' c := by
  have hval : r'.val ≠ r.val := fun h => hne (Fin.ext h)
  by_cases h : r.val < 8 <;> by_cases h' : r'.val < 8
  · simp [putDa, getDa, h, h', hval]
  · simp [putDa, getDa, h, h']
  · simp [putDa, getDa, h, h']
  · have hsub : r'.val - 8 ≠ r.val - 8 := by omega
    simp [putDa, getDa, h, h', hsub]

def besideRegisters (c : Core) : Core := { c with d := fun _ => 0, a := fun _ => 0 }

theorem putDa_beside : besideRegisters (putDa r v c) = besideRegisters c := by
  rw [putDa]
  split <;> rfl

end Registers

section Store

variable {w : Width} {m : Machine}

def Open (m : Machine) (p : Long) (n : ℕ) : Prop := ∀ x, Below p n x → Readable m x ∧ Writable m x

theorem limbAddress_sub (p : Long) (k : ℕ) :
    limbAddress w (p - BitVec.ofNat 32 w.bytes) k = limbAddress w p (k + 1) := by
  rw [limbAddress, limbAddress, Nat.mul_succ w.bytes (k + 1), BitVec.ofNat_add]
  ring

theorem limbAddress_zero (p : Long) : limbAddress w p 0 = p - BitVec.ofNat 32 w.bytes := by
  rw [limbAddress, Nat.zero_add, Nat.mul_one]

structure StoredBelow (w : Width) (l : List (Fin 16)) (ea : Long) (m : Machine) (r : Long × Machine) : Prop where
  address : r.1 = ea - BitVec.ofNat 32 (w.bytes * l.length)
  cpu : r.2.cpu = m.cpu
  access : SameAccess m r.2
  keepongoing : r.2.keepongoing = m.keepongoing
  bytes : ∀ x, ¬ Below (address68k ea) (w.bytes * l.length) x → memByte r.2.memory x = memByte m.memory x
  holds : ∀ j (hj : j < l.length),
    Holds w (limbAddress w (address68k ea) j) (maskOutAbove w (getDa (l[j].rev) m.cpu)) r.2

theorem storeDown_spec (l : List (Fin 16)) (ea : Long) (m : Machine)
    (hfit : w.bytes * l.length ≤ (address68k ea).toNat)
    (hopen : Open m (address68k ea) (w.bytes * l.length)) :
    StoredBelow w l ea m (storeDown w l ea m) := by
  induction l generalizing ea m with
  | nil => exact ⟨by simp [storeDown], rfl, .refl m, rfl, fun _ _ => rfl, fun j hj => absurd hj (Nat.not_lt_zero j)⟩
  | cons i l ih =>
    have hlen : w.bytes * (i :: l).length = w.bytes + w.bytes * l.length := by
      rw [List.length_cons, Nat.mul_succ, Nat.add_comm]
    rw [hlen] at hfit hopen
    have hsub : address68k (ea - BitVec.ofNat 32 w.bytes) = address68k ea - BitVec.ofNat 32 w.bytes :=
      address68k_sub (by omega)
    have hnat := sub_toNat (p := address68k ea) (n := w.bytes) (by omega)
    let m₁ := m68kWriteMemory w (address68k ea - BitVec.ofNat 32 w.bytes) (maskOutAbove w (getDa i.rev m.cpu)) m
    have hrun : storeDown w (i :: l) ea m = storeDown w l (ea - BitVec.ofNat 32 w.bytes) m₁ := by
      rw [storeDown, bind_apply, regDa_apply, bind_apply, m68kiWrite, hsub]
    have ha : SameAccess m m₁ := .write ..
    have hfirst : ∀ k < w.bytes, Below (address68k ea) (w.bytes + w.bytes * l.length)
        (address68k ea - BitVec.ofNat 32 w.bytes + BitVec.ofNat 32 k) := fun k hk =>
      have hb := below_of_offset (p := address68k ea) (n := w.bytes) (by omega) hk
      ⟨by have := hb.1; omega, hb.2⟩
    have hrest : ∀ x, Below (address68k (ea - BitVec.ofNat 32 w.bytes)) (w.bytes * l.length) x →
        Below (address68k ea) (w.bytes + w.bytes * l.length) x := by
      rintro x ⟨h₁, h₂⟩
      rw [hsub, hnat] at h₁ h₂
      constructor <;> omega
    have htail := ih (ea - BitVec.ofNat 32 w.bytes) m₁ (by rw [hsub, hnat]; omega)
      (fun x hx => ⟨(ha.readable_iff x).mpr (hopen x (hrest x hx)).1,
        (ha.writable_iff x).mpr (hopen x (hrest x hx)).2⟩)
    rw [hrun]
    refine ⟨?_, htail.cpu.trans (write_cpu ..), ha.trans htail.access, ?_, ?_, ?_⟩
    · rw [htail.address, hlen, BitVec.ofNat_add]
      ring
    · rw [htail.keepongoing]
      exact write_keepongoing _ fun k hk => (hopen _ (hfirst k hk)).2
    · intro x hx
      rw [hlen] at hx
      rw [htail.bytes x fun h => hx (hrest x h)]
      apply memByte_write_of_ne
      rintro k hk rfl
      exact hx (hfirst k hk)
    · intro j hj
      cases j with
      | zero =>
        rw [limbAddress_zero]
        have hheld : Holds w (address68k ea - BitVec.ofNat 32 w.bytes) (maskOutAbove w (getDa i.rev m.cpu)) m₁ :=
          ⟨fun k hk => (ha.readable_iff _).mpr (hopen _ (hfirst k hk)).1,
            read_written _ (maskOutAbove_lt w _) fun k hk => hopen _ (hfirst k hk)⟩
        refine hheld.congr htail.access fun k hk => htail.bytes _ fun hb => ?_
        have h₁ := hb.2
        have h₂ := (below_of_offset (p := address68k ea) (n := w.bytes) (by omega) hk).1
        rw [hsub, hnat] at h₁
        omega
      | succ j =>
        have hj' : j < l.length := Nat.lt_of_succ_lt_succ hj
        have hheld := htail.holds j hj'
        rw [hsub, limbAddress_sub] at hheld
        have hcpu : m₁.cpu = m.cpu := write_cpu ..
        rw [hcpu] at hheld
        exact hheld

end Store

section Load

variable {w : Width}

structure LoadedFrom (w : Width) (l : List (Fin 16)) (ea : Long) (vals : ℕ → Long) (m : Machine)
    (r : Long × Machine) : Prop where
  address : r.1 = ea + BitVec.ofNat 32 (w.bytes * l.length)
  machine : r.2 = { m with cpu := r.2.cpu }
  beside : besideRegisters r.2.cpu = besideRegisters m.cpu
  others : ∀ i ∉ l, getDa i r.2.cpu = getDa i m.cpu
  loaded : ∀ j (hj : j < l.length), getDa l[j] r.2.cpu = makeInt w (vals j)

theorem loadUp_spec (l : List (Fin 16)) (hl : l.Nodup) (ea : Long) (vals : ℕ → Long) (m : Machine)
    (hholds : ∀ j < l.length, Holds w (address68k (ea + BitVec.ofNat 32 (w.bytes * j))) (vals j) m) :
    LoadedFrom w l ea vals m (loadUp w l ea m) := by
  induction l generalizing ea vals m with
  | nil => exact ⟨by simp [loadUp], rfl, rfl, fun _ _ => rfl, fun j hj => absurd hj (Nat.not_lt_zero j)⟩
  | cons i l ih =>
    obtain ⟨hi, hl⟩ := List.nodup_cons.mp hl
    let m₁ : Machine := { m with cpu := putDa i (makeInt w (vals 0)) m.cpu }
    have hstep (j : ℕ) : ea + BitVec.ofNat 32 (w.bytes * (j + 1)) =
        ea + BitVec.ofNat 32 w.bytes + BitVec.ofNat 32 (w.bytes * j) := by
      rw [Nat.mul_succ, Nat.add_comm, BitVec.ofNat_add, BitVec.add_assoc]
    have hbeside : besideRegisters m₁.cpu = besideRegisters m.cpu := putDa_beside
    have hs : (besideRegisters m₁.cpu).sFlag = (besideRegisters m.cpu).sFlag := congrArg Core.sFlag hbeside
    have ha : SameAccess m m₁ := sameAccess_cpu hs
    have hread : m68kiRead w ea m = (vals 0, m) := by
      have h := hholds 0 (Nat.zero_lt_succ _)
      rw [Nat.mul_zero, BitVec.add_zero] at h
      exact h.read
    have hrun : loadUp w (i :: l) ea m = loadUp w l (ea + BitVec.ofNat 32 w.bytes) m₁ := by
      rw [loadUp, bind_apply, hread, bind_apply, setRegDa_apply]
    have htail := ih hl (ea + BitVec.ofNat 32 w.bytes) (fun j => vals (j + 1)) m₁ fun j hj => by
      rw [← hstep]
      exact (hholds (j + 1) (Nat.succ_lt_succ hj)).congr ha fun _ _ => rfl
    rw [hrun]
    refine ⟨?_, htail.machine, htail.beside.trans hbeside, ?_, ?_⟩
    · rw [htail.address, List.length_cons, hstep]
    · intro r hr
      rw [List.mem_cons, not_or] at hr
      rw [htail.others r hr.2]
      exact getDa_putDa_of_ne hr.1
    · intro j hj
      cases j with
      | zero =>
        rw [List.getElem_cons_zero, htail.others i hi]
        exact getDa_putDa_self
      | succ j => exact htail.loaded j (Nat.lt_of_succ_lt_succ hj)

end Load

section RoundTrip

variable {w : Width} {m : Machine}

theorem listed_nodup (registers : Long) : (listed registers).Nodup := (List.nodup_finRange 16).filter _

/-- A register list as the predecrement mode has it, with the bits the other way round. -/
def Mirrored (registers registers' : Long) : Prop :=
  ∀ i : Fin 16, registers'.getLsbD i = registers.getLsbD i.rev

theorem listed_mirrored {registers registers' : Long} (h : Mirrored registers registers') :
    listed registers' = ((listed registers).map Fin.rev).reverse := by
  have hrange : ((List.finRange 16).map Fin.rev).reverse = List.finRange 16 := by decide
  have hbit : ((fun i : Fin 16 => registers'.getLsbD i) ∘ Fin.rev) = fun i : Fin 16 => registers.getLsbD i := by
    funext i
    rw [Function.comp_apply, h, Fin.rev_rev]
  calc listed registers'
      = (((List.finRange 16).map Fin.rev).reverse).filter (fun i : Fin 16 => registers'.getLsbD i) := by
        rw [hrange, listed]
    _ = (((List.finRange 16).filter fun i : Fin 16 => registers.getLsbD i).map Fin.rev).reverse := by
      rw [List.filter_reverse, List.filter_map, hbit]

theorem limb_from_below {p : Long} {len j : ℕ} (hj : j < len) :
    p - BitVec.ofNat 32 (w.bytes * len) + BitVec.ofNat 32 (w.bytes * j) = limbAddress w p (len - 1 - j) := by
  have hsum : w.bytes * len = w.bytes * (len - 1 - j + 1) + w.bytes * j := by
    rw [← Nat.mul_add]
    apply congrArg (w.bytes * ·)
    omega
  rw [limbAddress, hsum, BitVec.ofNat_add]
  ring

theorem loadUp_stored {registers registers' : Long} (hmirror : Mirrored registers registers') (ea : Long)
    (m₂ : Machine)
    (hfit : w.bytes * (listed registers).length ≤ (address68k ea).toNat)
    (hopen : Open m (address68k ea) (w.bytes * (listed registers).length))
    (ha : SameAccess (storeDown w (listed registers) ea m).2 m₂)
    (hb : ∀ x, Below (address68k ea) (w.bytes * (listed registers).length) x →
      memByte m₂.memory x = memByte (storeDown w (listed registers) ea m).2.memory x) :
    let r := loadUp w (listed registers') (storeDown w (listed registers) ea m).1 m₂
    r.1 = ea ∧ r.2 = { m₂ with cpu := r.2.cpu } ∧ besideRegisters r.2.cpu = besideRegisters m₂.cpu ∧
      (∀ i ∉ listed registers', getDa i r.2.cpu = getDa i m₂.cpu) ∧
      ∀ i ∈ listed registers', getDa i r.2.cpu = makeInt w (maskOutAbove w (getDa i m.cpu)) := by
  have hs := storeDown_spec (listed registers) ea m hfit hopen
  have hlist := listed_mirrored hmirror
  have hlen : (listed registers').length = (listed registers).length := by
    rw [hlist, List.length_reverse, List.length_map]
  have hload := loadUp_spec (w := w) (listed registers') (listed_nodup _) (storeDown w (listed registers) ea m).1
    (fun j => maskOutAbove w (getDa ((listed registers')[j]?.getD 0) m.cpu)) m₂ fun j hj => by
      rw [hlen] at hj
      have hk : (listed registers).length - 1 - j < (listed registers).length := by omega
      have haddr : address68k ((storeDown w (listed registers) ea m).1 + BitVec.ofNat 32 (w.bytes * j)) =
          limbAddress w (address68k ea) ((listed registers).length - 1 - j) := by
        rw [hs.address, limb_from_below hj, limbAddress, address68k_sub, limbAddress]
        exact (Nat.mul_le_mul_left _ (by omega)).trans hfit
      have hreg : (listed registers')[j]?.getD 0 = ((listed registers)[(listed registers).length - 1 - j]).rev := by
        simp only [hlist]
        rw [List.getElem?_reverse (by rw [List.length_map]; exact hj), List.length_map, List.getElem?_map,
          List.getElem?_eq_getElem hk, Option.map_some, Option.getD_some]
      simp only [haddr, hreg]
      exact (hs.holds _ hk).congr ha fun i hi => hb _ (limb_byte_below hfit hk hi)
  refine ⟨?_, hload.machine, hload.beside, hload.others, fun i hi => ?_⟩
  · rw [hload.address, hlen, hs.address, BitVec.sub_add_cancel]
  · obtain ⟨j, hj, rfl⟩ := List.getElem_of_mem hi
    rw [hload.loaded j hj, List.getElem?_eq_getElem hj, Option.getD_some]

end RoundTrip

end Tosemu.M68k
