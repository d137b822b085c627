import Tosemu.ProgramControl
import Tosemu.SuperCall

namespace Tosemu.M68k

open Cpu

section Subtraction

variable {w : Width} {src dst : Long}

theorem value_diff (hs : src.toNat < 2 ^ w.bits) (hd : dst.toNat < 2 ^ w.bits) :
    w.value (dst - src) + src.toNat = dst.toNat + if dst.toNat < src.toNat then 2 ^ w.bits else 0 := by
  have hzero : dst - src - 0 = dst - src := BitVec.sub_zero _
  have h := value_sub hs hd (x := 0) (by decide)
  rw [hzero] at h
  exact h

theorem signed_cases {h : ℕ} (hh : 2 ^ (w.bits - 1) = h) (a : Long) :
    w.sign a = true ∧ h ≤ w.value a ∧ w.signed a = w.value a - 2 * (h : ℤ) ∨
      w.sign a = false ∧ w.value a < h ∧ w.signed a = w.value a := by
  have hsplit : (2 : ℤ) ^ w.bits = 2 * (h : ℤ) := by
    rw [← hh]
    cases w <;> rfl
  rw [signed_eq, sign_eq, hsplit, hh]
  by_cases hle : h ≤ w.value a
  · left
    simp [hle]
  · right
    simp only [hle, decide_false, true_and, Bool.false_eq_true, if_false, and_true]
    omega

variable (hs : src.toNat < 2 ^ w.bits) (hd : dst.toNat < 2 ^ w.bits)

include hs hd

theorem diff_cases : ∃ r s d h : ℕ, w.value (dst - src) = r ∧ w.value src = s ∧ w.value dst = d ∧
    2 ^ w.bits = 2 * h ∧ 2 ^ (w.bits - 1) = h ∧ s < 2 * h ∧ d < 2 * h ∧ r < 2 * h ∧
    r + s = d + if d < s then 2 * h else 0 := by
  have hsplit : 2 ^ w.bits = 2 * 2 ^ (w.bits - 1) := by cases w <;> rfl
  refine ⟨_, _, _, 2 ^ (w.bits - 1), rfl, rfl, rfl, hsplit, rfl, ?_, ?_, ?_, ?_⟩
  · exact hsplit ▸ value_lt w src
  · exact hsplit ▸ value_lt w dst
  · exact hsplit ▸ value_lt w _
  · have h := value_diff hs hd
    rwa [hsplit, ← Nat.mod_eq_of_lt hs, ← Nat.mod_eq_of_lt hd] at h

theorem lt_of_flags :
    (w.sign (dst - src) ^^ ((w.sign src ^^ w.sign dst) && (w.sign (dst - src) ^^ w.sign dst))) =
      decide (w.signed dst < w.signed src) := by
  obtain ⟨r, s, d, h, hr, hvs, hvd, -, hh, hsl, hdl, hrl, hdiff⟩ := diff_cases hs hd
  have hcr := signed_cases hh (dst - src)
  have hcs := signed_cases hh src
  have hcd := signed_cases hh dst
  rw [hr] at hcr
  rw [hvs] at hcs
  rw [hvd] at hcd
  rcases hcr with ⟨hr1, hr2, -⟩ | ⟨hr1, hr2, -⟩ <;>
    rcases hcs with ⟨hs1, hs2, hs3⟩ | ⟨hs1, hs2, hs3⟩ <;>
    rcases hcd with ⟨hd1, hd2, hd3⟩ | ⟨hd1, hd2, hd3⟩ <;>
    rw [hr1, hs1, hd1, hs3, hd3, Bool.eq_iff_iff, decide_eq_true_iff] <;>
    split_ifs at hdiff <;> simp <;> omega

theorem overflow_of_flags :
    ((w.sign src ^^ w.sign dst) && (w.sign (dst - src) ^^ w.sign dst)) =
      !decide (-2 ^ (w.bits - 1) ≤ w.signed dst - w.signed src ∧
        w.signed dst - w.signed src < 2 ^ (w.bits - 1)) := by
  obtain ⟨r, s, d, h, hr, hvs, hvd, -, hh, hsl, hdl, hrl, hdiff⟩ := diff_cases hs hd
  have hh' : (2 : ℤ) ^ (w.bits - 1) = h := by exact_mod_cast hh
  have hcr := signed_cases hh (dst - src)
  have hcs := signed_cases hh src
  have hcd := signed_cases hh dst
  rw [hr] at hcr
  rw [hvs] at hcs
  rw [hvd] at hcd
  rw [hh']
  rcases hcr with ⟨hr1, hr2, -⟩ | ⟨hr1, hr2, -⟩ <;>
    rcases hcs with ⟨hs1, hs2, hs3⟩ | ⟨hs1, hs2, hs3⟩ <;>
    rcases hcd with ⟨hd1, hd2, hd3⟩ | ⟨hd1, hd2, hd3⟩ <;>
    rw [hr1, hs1, hd1, hs3, hd3, ← decide_not, Bool.eq_iff_iff, decide_eq_true_iff] <;>
    split_ifs at hdiff <;> simp <;> omega

end Subtraction

theorem value_eq_iff {w : Width} {src dst : Long} :
    w.value dst = w.value src ↔ w.signed dst = w.signed src := by
  have hvs : w.value src < 2 ^ w.bits := value_lt w src
  have hvd : w.value dst < 2 ^ w.bits := value_lt w dst
  have hsplit : 2 ^ w.bits = 2 * 2 ^ (w.bits - 1) := by cases w <;> rfl
  rcases signed_cases (w := w) rfl src with ⟨-, hs2, hs3⟩ | ⟨-, hs2, hs3⟩ <;>
    rcases signed_cases (w := w) rfl dst with ⟨-, hd2, hd3⟩ | ⟨-, hd2, hd3⟩ <;>
    rw [hs3, hd3] <;> omega

section Comparisons

variable (w : Width)

def Cc.Holds (k : Cc) (src dst : Long) : Prop :=
  match k with
  | .hi => w.value src < w.value dst
  | .ls => w.value dst ≤ w.value src
  | .cc => w.value src ≤ w.value dst
  | .cs => w.value dst < w.value src
  | .ne => w.value dst ≠ w.value src
  | .eq => w.value dst = w.value src
  | .vc => -2 ^ (w.bits - 1) ≤ w.signed dst - w.signed src ∧
      w.signed dst - w.signed src < 2 ^ (w.bits - 1)
  | .vs => ¬ (-2 ^ (w.bits - 1) ≤ w.signed dst - w.signed src ∧
      w.signed dst - w.signed src < 2 ^ (w.bits - 1))
  | .pl => w.sign (dst - src) = false
  | .mi => w.sign (dst - src) = true
  | .ge => w.signed src ≤ w.signed dst
  | .lt => w.signed dst < w.signed src
  | .gt => w.signed src < w.signed dst
  | .le => w.signed dst ≤ w.signed src

def compared (src dst : Long) (c : Core) : Core :=
  { c with
    nFlag := nflag w (dst - src)
    notZFlag := maskOutAbove w (dst - src)
    vFlag := vflagSub w src dst (dst - src)
    cFlag := cflagSub w src dst (dst - src) }

variable {w} {src dst : Long} (hs : src.toNat < 2 ^ w.bits) (hd : dst.toNat < 2 ^ w.bits) (c : Core)

include hs hd

theorem condCs_compared : condCs (compared w src dst c) = decide (w.value dst < w.value src) := by
  have h := cflagSub_bit hs hd (x := 0) (by decide)
  have hzero : dst - src - 0 = dst - src := BitVec.sub_zero _
  rw [hzero] at h
  rw [Width.value, Width.value, Nat.mod_eq_of_lt hs, Nat.mod_eq_of_lt hd, condCs, mask100]
  exact h

theorem condEq_compared : condEq (compared w src dst c) = decide (w.value dst = w.value src) := by
  have hdiff := value_diff hs hd
  have hvs : w.value src = src.toNat := Nat.mod_eq_of_lt hs
  have hvd : w.value dst = dst.toNat := Nat.mod_eq_of_lt hd
  have hlt := value_lt w (dst - src)
  have hz := zflag_eq_zero w (dst - src)
  rw [condEq, condNe, ← decide_not, decide_eq_decide, not_not, hvs, hvd]
  refine hz.trans ?_
  split_ifs at hdiff <;> omega

theorem condVs_compared : condVs (compared w src dst c) =
    !decide (-2 ^ (w.bits - 1) ≤ w.signed dst - w.signed src ∧
      w.signed dst - w.signed src < 2 ^ (w.bits - 1)) := by
  rw [condVs, mask80, ← overflow_of_flags hs hd]
  exact vflagSub_bit _

theorem condLt_compared : condLt (compared w src dst c) = decide (w.signed dst < w.signed src) := by
  rw [condLt, mask80, ← lt_of_flags hs hd, BitVec.getLsbD_xor]
  congr 1
  · exact nflag_bit w _
  · exact vflagSub_bit _

theorem cond_compared (k : Cc) : k.cond (compared w src dst c) ↔ k.Holds w src dst := by
  have hcs := condCs_compared hs hd c
  have heq := condEq_compared hs hd c
  have hlt := condLt_compared hs hd c
  have hvs := condVs_compared hs hd c
  have hmi : condMi (compared w src dst c) = w.sign (dst - src) := by
    rw [condMi, mask80]
    exact nflag_bit w _
  have hv : w.value dst = w.value src ↔ w.signed dst = w.signed src := value_eq_iff
  have hne : condNe (compared w src dst c) = !decide (w.value dst = w.value src) := by
    rw [← heq, condEq, Bool.not_not]
  cases k <;>
    simp only [Cc.cond, Cc.Holds, condHi, condLs, condCc, condVc, condPl, condGe, condGt, condLe, hcs,
      heq, hlt, hvs, hmi, hne, Bool.and_eq_true, Bool.or_eq_true, Bool.not_eq_true',
      decide_eq_true_eq, decide_eq_false_iff_not, Bool.not_eq_false', hv] <;> omega

end Comparisons

section Branching

inductive Compare
  | cmp (s : Src)
  | cmpa (s : Src)
  | cmpiD
  | cmpi (ea : Ea)
  | cmpm (eaY eaX : Ea)

namespace Compare

variable (f : Compare) (w : Width) (o : Insn)

def handler : Emu Unit :=
  match f with
  | cmp s => opCmp w o s
  | cmpa s => opCmpa w o s
  | cmpiD => opCmpiD w o
  | cmpi ea => opCmpi w o ea
  | cmpm eaY eaX => opCmpm w o eaY eaX

def operands : Emu (Long × Long) :=
  match f with
  | cmp s => do return (← operand w o s, maskOutAbove w (← regD o.x))
  | cmpa s => do return (← addressOperand w o s, ← regA o.x)
  | cmpiD => do return (← operI w, maskOutAbove w (← regD o.y))
  | cmpi ea => do return (← operI w, ← operEa w o.y ea)
  | cmpm eaY eaX => do return (← operEa w o.y eaY, ← operEa w o.x eaX)

/-- Addresses are compared whole. -/
def width : Width :=
  match f with
  | cmpa _ => .long
  | _ => w

theorem handler_apply (m : Machine) :
    (f.handler w o m).2 =
      let r := f.operands w o m
      { r.2 with cpu := compared (f.width w) r.1.1 r.1.2 r.2.cpu } := by
  cases f <;> rfl

theorem operands_lt (m : Machine) :
    (f.operands w o m).1.1.toNat < 2 ^ (f.width w).bits ∧
      (f.operands w o m).1.2.toNat < 2 ^ (f.width w).bits := by
  cases f with
  | cmp s => exact ⟨operand_lt w o s m, maskOutAbove_lt w _⟩
  | cmpa s => exact ⟨BitVec.isLt _, BitVec.isLt _⟩
  | cmpiD => exact ⟨operI_lt w m, maskOutAbove_lt w _⟩
  | cmpi ea => exact ⟨operI_lt w m, operEa_lt w _ ea _⟩
  | cmpm eaY eaX => exact ⟨operEa_lt w _ eaY m, operEa_lt w _ eaX _⟩

end Compare

end Branching

section Fetches

def conditionFlags (c : Core) : BitVec 4 := (getSr c).extractLsb' 0 4

theorem conditionFlags_bits (c : Core) : condCs c = (conditionFlags c).getLsbD 0 ∧
    condVs c = (conditionFlags c).getLsbD 1 ∧ condNe c = !(conditionFlags c).getLsbD 2 ∧
    condMi c = (conditionFlags c).getLsbD 3 ∧
    condLt c = ((conditionFlags c).getLsbD 3 ^^ (conditionFlags c).getLsbD 1) := by
  rw [condCs, condVs, condMi, condLt, mask100, mask80, mask80, mask80, BitVec.getLsbD_xor]
  simp [condNe, conditionFlags, getSr]

theorem cond_congr {c c' : Core} (h : conditionFlags c' = conditionFlags c) (k : Cc) : k.cond c' = k.cond c := by
  obtain ⟨hcs, hvs, hne, hmi, hlt⟩ := conditionFlags_bits c
  obtain ⟨hcs', hvs', hne', hmi', hlt'⟩ := conditionFlags_bits c'
  rw [h] at hcs' hvs' hne' hmi' hlt'
  cases k <;>
    simp only [Cc.cond, condHi, condLs, condCc, condVc, condEq, condPl, condGe, condGt, condLe, hcs, hvs, hne,
      hmi, hlt, hcs', hvs', hne', hmi', hlt']

theorem conditionFlags_disable (c : Core) : conditionFlags (disableSupervisorMode c) = conditionFlags c := by
  rw [conditionFlags, disableSupervisorMode, m68kSetReg, getSr_setSr, m68kGetReg]
  apply BitVec.eq_of_getLsbD_eq
  intro i hi
  rw [conditionFlags]
  interval_cases i <;> simp [srMask]

def KeepsConditions (read : ByteRead) : Prop :=
  ∀ a m, conditionFlags (read a m).2.cpu = conditionFlags m.cpu

variable {read : ByteRead}

theorem readLoop_conditions (h : KeepsConditions read) (n : ℕ) (a res : Long) (m : Machine) :
    conditionFlags (readLoop read n a res m).2.cpu = conditionFlags m.cpu := by
  induction n generalizing a res m with
  | zero => rfl
  | succ n ih => exact (ih _ _ _).trans (h a m)

theorem tosReadWith_conditions (h : KeepsConditions read) : KeepsConditions (tosReadWith read) := by
  intro a m
  unfold tosReadWith
  cases findMemarea m.memory a with
  | none => rfl
  | some area =>
    dsimp only
    split_ifs
    · cases area.handler with
      | ptr buf => rfl
      | supexec => exact h a m
    · rfl

theorem magicReentry_conditions : KeepsConditions magicReentry := by
  intro a m
  unfold magicReentry
  split_ifs <;> rfl

/-- The `NOP` of the magic area clears the supervisor bit through the status register. -/
theorem magicRead_conditions (h : KeepsConditions read) : KeepsConditions (magicXbiosSupexecReadWith read) := by
  intro a m
  unfold magicXbiosSupexecReadWith
  split_ifs
  · rfl
  · exact (conditionFlags_disable _).trans (readLoop_conditions h 4 (m.getReg (.a 7)) 0 m)
  · rfl

theorem tosRead_conditions : KeepsConditions tosRead :=
  tosReadWith_conditions (magicRead_conditions (tosReadWith_conditions magicReentry_conditions))

theorem readImm16_conditions (m : Machine) : conditionFlags (readImm16 m).2.cpu = conditionFlags m.cpu :=
  readLoop_conditions tosRead_conditions 2 _ 0 _

theorem getEaIx_conditions (an : Long) (m : Machine) :
    conditionFlags (getEaIx an m).2.cpu = conditionFlags m.cpu := by
  have hindex : ∀ (i : Fin 16) (m : Machine), (regDa i m).2 = m := by
    intro i m
    unfold regDa
    split_ifs <;> rfl
  rw [getEaIx, bind_apply, bind_apply, pure_apply, hindex]
  exact readImm16_conditions m

/-- Either order of the address and the condition, which C leaves open in `scc`, comes to the same byte. -/
theorem getEa_conditions (w : Width) (r : Fin 8) (ea : Ea) (m : Machine) :
    conditionFlags (getEa w r ea m).2.cpu = conditionFlags m.cpu := by
  cases ea with
  | di => exact readImm16_conditions m
  | ix => exact getEaIx_conditions (m.cpu.a r) m
  | aw => exact readImm16_conditions m
  | al => exact readLoop_conditions tosRead_conditions 4 _ 0 _
  | pcdi => exact readImm16_conditions m
  | pcix => exact getEaIx_conditions m.cpu.pc m
  | _ => rfl

end Fetches

section Branching

structure Decides (k : Cc) (p : Prop) (m : Machine) : Prop where
  bcc8 : ∀ o : Insn, (p → opBcc8 o k m = branch8 (o.ir.setWidth 32) m) ∧ (¬ p → opBcc8 o k m = ((), m))
  bcc16 : (p → opBcc16 k m = branchWord m) ∧ (¬ p → opBcc16 k m = skipWord m)
  dbcc : ∀ o : Insn, (p → opDbcc o k m = skipWord m) ∧ (¬ p → opDbcc o k m = opDbf o m)
  sccD : ∀ o : Insn, (p → opSccD o k.cond m = opSccD o (fun _ => true) m) ∧
    (¬ p → opSccD o k.cond m = opSccD o (fun _ => false) m)
  scc : ∀ (o : Insn) (ea : Ea), (p → opScc o k.cond ea m = opScc o (fun _ => true) ea m) ∧
    (¬ p → opScc o k.cond ea m = opScc o (fun _ => false) ea m)

theorem opScc_decided (o : Insn) (k : Cc) (ea : Ea) {m : Machine} {b : Bool} (h : k.cond m.cpu = b) :
    opScc o k.cond ea m = opScc o (fun _ => b) ea m := by
  have hea : k.cond (getEa .byte o.y ea m).2.cpu = b := (cond_congr (getEa_conditions .byte o.y ea m) k).trans h
  simp [opScc, hea]

theorem decides_of_cond {k : Cc} {p : Prop} {m : Machine} (h : k.cond m.cpu ↔ p) : Decides k p m := by
  have hyes : p → k.cond m.cpu = true := h.mpr
  have hno : ¬ p → k.cond m.cpu = false := fun hp => by simpa using mt h.mp hp
  refine ⟨fun o => ⟨fun hp => ?_, fun hp => ?_⟩, ⟨fun hp => ?_, fun hp => ?_⟩,
    fun o => ⟨fun hp => ?_, fun hp => ?_⟩, fun o => ⟨fun hp => ?_, fun hp => ?_⟩,
    fun o ea => ⟨fun hp => ?_, fun hp => ?_⟩⟩
  · simp [opBcc8, hyes hp]
  · simp [opBcc8, hno hp]
  · simp [opBcc16, hyes hp]
  · simp [opBcc16, hno hp]
  · simp [opDbcc, notCond_eq, hyes hp]
  · simp [opDbcc, notCond_eq, hno hp]
  · simp [opSccD, hyes hp]
  · simp [opSccD, hno hp]
  · exact opScc_decided o k ea (hyes hp)
  · exact opScc_decided o k ea (hno hp)

theorem compare_and_branch (f : Compare) (w : Width) (o : Insn) (m : Machine) :
    let r := f.operands w o m
    let m' := (f.handler w o m).2
    m' = { r.2 with cpu := { r.2.cpu with
      nFlag := m'.cpu.nFlag, notZFlag := m'.cpu.notZFlag, vFlag := m'.cpu.vFlag, cFlag := m'.cpu.cFlag } } ∧
    ∀ k : Cc, Decides k (k.Holds (f.width w) r.1.1 r.1.2) m' := by
  intro r m'
  have hm' : m' = { r.2 with cpu := compared (f.width w) r.1.1 r.1.2 r.2.cpu } :=
    f.handler_apply w o m
  obtain ⟨hs, hd⟩ := f.operands_lt w o m
  refine ⟨?_, ?_⟩
  · rw [hm']
    rfl
  · intro k
    apply decides_of_cond
    rw [hm']
    exact cond_compared hs hd _ k

end Branching

end Tosemu.M68k
