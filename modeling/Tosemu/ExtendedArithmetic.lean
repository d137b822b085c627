import Tosemu.MemoryNumbers

namespace Tosemu.M68k

open Cpu CarryChain

def xBit (c : Core) : ℕ := (c.xFlag.getLsbD 8).toNat

structure OnlyFlags (c c' : Core) : Prop where
  d : c'.d = c.d
  a : c'.a = c.a
  pc : c'.pc = c.pc
  sp : c'.sp = c.sp
  t1Flag : c'.t1Flag = c.t1Flag
  t0Flag : c'.t0Flag = c.t0Flag
  sFlag : c'.sFlag = c.sFlag
  mFlag : c'.mFlag = c.mFlag
  intMask : c'.intMask = c.intMask

theorem OnlyFlags.refl (c : Core) : OnlyFlags c c := ⟨rfl, rfl, rfl, rfl, rfl, rfl, rfl, rfl, rfl⟩

theorem xBit_le (c : Core) : xBit c ≤ 1 := by
  rw [xBit]
  cases c.xFlag.getLsbD 8 <;> decide

structure DigitOp (w : Width) (op : Long → Long → Emu Long) (rel : CarryRelation) (base : ℕ)
    (val : ℕ → ℕ) (valid : ℕ → Prop) : Prop where
  memory : ∀ src dst m, (op src dst m).2 = { m with cpu := (op src dst m).2.cpu }
  flags : ∀ src dst m, OnlyFlags m.cpu (op src dst m).2.cpu
  lt : ∀ src dst m, (op src dst m).1.toNat < 2 ^ w.bits
  zero : ∀ src dst m, (op src dst m).2.cpu.notZFlag = 0 ↔
    m.cpu.notZFlag = 0 ∧ (op src dst m).1.toNat = 0
  digit : ∀ src dst m, src.toNat < 2 ^ w.bits → dst.toNat < 2 ^ w.bits → valid src.toNat →
    valid dst.toNat → valid (op src dst m).1.toNat ∧
      rel.holds base (xBit m.cpu) (val src.toNat) (val dst.toNat) (val (op src dst m).1.toNat)
        (xBit (op src dst m).2.cpu)

section Handlers

variable (w : Width)

theorem or_eq_zero (a b : Long) : a ||| b = 0 ↔ a = 0 ∧ b.toNat = 0 := by
  constructor
  · intro h
    have h' := congrArg BitVec.toNat h
    rw [BitVec.toNat_or] at h'
    have hz : a.toNat = 0 ∧ b.toNat = 0 := Nat.or_eq_zero_iff.mp h'
    exact ⟨BitVec.eq_of_toNat_eq hz.1, hz.2⟩
  · rintro ⟨rfl, hb⟩
    have : b = 0 := BitVec.eq_of_toNat_eq hb
    rw [this]
    rfl

theorem addx_digitOp : DigitOp w (addx w) sum (2 ^ w.bits) id (fun _ => True) where
  memory _ _ _ := rfl
  flags _ _ _ := ⟨rfl, rfl, rfl, rfl, rfl, rfl, rfl, rfl, rfl⟩
  lt _ _ _ := maskOutAbove_lt w _
  zero _ _ _ := or_eq_zero _ _
  digit src dst m hs hd _ _ := by
    refine ⟨trivial, ?_⟩
    have hx : (xflagAs1 m.cpu).toNat ≤ 1 := xflagAs1_eq m.cpu ▸ xBit_le m.cpu
    have hvalue := value_add hs hd hx
    have hcarry := cflagAdd_bit hs hd hx
    have hres : (addx w src dst m).1.toNat = w.value (src + dst + xflagAs1 m.cpu) := maskOutAbove_toNat w _
    have hbit : xBit (addx w src dst m).2.cpu =
        (decide (2 ^ w.bits ≤ src.toNat + dst.toNat + (xflagAs1 m.cpu).toNat)).toNat :=
      congrArg Bool.toNat hcarry
    change (addx w src dst m).1.toNat + 2 ^ w.bits * xBit (addx w src dst m).2.cpu =
      src.toNat + dst.toNat + xBit m.cpu
    rw [hres, hbit, xBit, ← xflagAs1_eq]
    split_ifs at hvalue with h <;> simpa [h] using hvalue

theorem subx_digitOp : DigitOp w (subx w) difference (2 ^ w.bits) id (fun _ => True) where
  memory _ _ _ := rfl
  flags _ _ _ := ⟨rfl, rfl, rfl, rfl, rfl, rfl, rfl, rfl, rfl⟩
  lt _ _ _ := maskOutAbove_lt w _
  zero _ _ _ := or_eq_zero _ _
  digit src dst m hs hd _ _ := by
    refine ⟨trivial, ?_⟩
    have hx : (xflagAs1 m.cpu).toNat ≤ 1 := xflagAs1_eq m.cpu ▸ xBit_le m.cpu
    have hvalue := value_sub hs hd hx
    have hborrow := cflagSub_bit hs hd hx
    have hres : (subx w src dst m).1.toNat = w.value (dst - src - xflagAs1 m.cpu) := maskOutAbove_toNat w _
    have hbit : xBit (subx w src dst m).2.cpu =
        (decide (dst.toNat < src.toNat + (xflagAs1 m.cpu).toNat)).toNat := congrArg Bool.toNat hborrow
    change (subx w src dst m).1.toNat + src.toNat + xBit m.cpu =
      dst.toNat + 2 ^ w.bits * xBit (subx w src dst m).2.cpu
    rw [hres, hbit, xBit, ← xflagAs1_eq]
    split_ifs at hvalue with h <;> simpa [h] using hvalue

end Handlers

section Runs

variable {w : Width} {op : Long → Long → Emu Long} {o : Insn} {n : ℕ}

/-- The two numbers in memory: both readable, the one that is changed writable, and nowhere the same
byte. -/
structure Numbers (w : Width) (n : ℕ) (m : Machine) (px py : Long) : Prop where
  fitX : w.bytes * n ≤ px.toNat
  fitY : w.bytes * n ≤ py.toNat
  source : ∀ a, Below py (w.bytes * n) a → Readable m a
  target : ∀ a, Below px (w.bytes * n) a → Readable m a ∧ Writable m a
  apart : ∀ a, Below px (w.bytes * n) a → ¬ Below py (w.bytes * n) a

structure After (o : Insn) (w : Width) (m : Machine) (k : ℕ) (m' : Machine) : Prop where
  a : m'.cpu.a =
    Function.update (Function.update m.cpu.a o.y (m.cpu.a o.y - BitVec.ofNat 32 (w.bytes * k))) o.x
      (m.cpu.a o.x - BitVec.ofNat 32 (w.bytes * k))
  rest : OnlyFlags { m.cpu with a := m'.cpu.a } m'.cpu
  access : SameAccess m m'
  running : m'.keepongoing = m.keepongoing
  frame : ∀ a, ¬ Below (address68k (m.cpu.a o.x)) (w.bytes * k) a → memByte m'.memory a = memByte m.memory a

def fetched (w : Width) (o : Insn) (m' : Machine) : Machine :=
  withA o.x (m'.cpu.a o.x - BitVec.ofNat 32 w.bytes) (withA o.y (m'.cpu.a o.y - BitVec.ofNat 32 w.bytes) m')

namespace After

variable {m m' : Machine} {k : ℕ}

theorem zero (m : Machine) : After o w m 0 m := by
  refine ⟨?_, OnlyFlags.refl m.cpu, SameAccess.refl m, rfl, fun _ _ => rfl⟩
  simp

theorem regX (h : After o w m k m') : m'.cpu.a o.x = m.cpu.a o.x - BitVec.ofNat 32 (w.bytes * k) := by
  rw [h.a]
  exact Function.update_self ..

theorem regY (h : After o w m k m') (hxy : o.x ≠ o.y) :
    m'.cpu.a o.y = m.cpu.a o.y - BitVec.ofNat 32 (w.bytes * k) := by
  rw [h.a, Function.update_of_ne hxy.symm]
  exact Function.update_self ..

section Step

variable {rel : CarryRelation} {base : ℕ} {val : ℕ → ℕ} {valid : ℕ → Prop}
  (hop : DigitOp w op rel base val valid)
  (hn : Numbers w n m (address68k (m.cpu.a o.x)) (address68k (m.cpu.a o.y))) (hxy : o.x ≠ o.y)
  (hk : k < n) (h : After o w m k m')

theorem sub_sub_bytes (a : Long) (k : ℕ) :
    a - BitVec.ofNat 32 (w.bytes * k) - BitVec.ofNat 32 w.bytes = a - BitVec.ofNat 32 (w.bytes * (k + 1)) := by
  rw [Nat.mul_succ, BitVec.ofNat_add]
  ring

include h

theorem fetched_a (hxy : o.x ≠ o.y) : (fetched w o m').cpu.a =
    Function.update (Function.update m.cpu.a o.y (m.cpu.a o.y - BitVec.ofNat 32 (w.bytes * (k + 1)))) o.x
      (m.cpu.a o.x - BitVec.ofNat 32 (w.bytes * (k + 1))) := by
  have hy : m'.cpu.a o.y - BitVec.ofNat 32 w.bytes =
      m.cpu.a o.y - BitVec.ofNat 32 (w.bytes * (k + 1)) := by rw [h.regY hxy, sub_sub_bytes]
  have hx : m'.cpu.a o.x - BitVec.ofNat 32 w.bytes =
      m.cpu.a o.x - BitVec.ofNat 32 (w.bytes * (k + 1)) := by rw [h.regX, sub_sub_bytes]
  rw [fetched, hy, hx]
  funext i
  by_cases hix : i = o.x
  · subst hix
    simp [withA]
  by_cases hiy : i = o.y
  · subst hiy
    simp [withA, hix]
  · simp [withA, hix, hiy, h.a]

include hn hk

theorem operands_at (hxy : o.x ≠ o.y) :
    address68k (m'.cpu.a o.y - BitVec.ofNat 32 w.bytes) = limbAddress w (address68k (m.cpu.a o.y)) k ∧
      address68k (m'.cpu.a o.x - BitVec.ofNat 32 w.bytes) =
        limbAddress w (address68k (m.cpu.a o.x)) k := by
  refine ⟨?_, ?_⟩
  · rw [h.regY hxy, sub_sub_bytes, address68k_sub (limb_bound hn.fitY hk), limbAddress]
  · rw [h.regX, sub_sub_bytes, address68k_sub (limb_bound hn.fitX hk), limbAddress]

theorem reads (hxy : o.x ≠ o.y) :
    binaryMm w op o .pd .pd m' =
      let res := op (limbWord w m (address68k (m.cpu.a o.y)) k) (limbWord w m (address68k (m.cpu.a o.x)) k)
        (fetched w o m')
      ((), m68kWriteMemory w (limbAddress w (address68k (m.cpu.a o.x)) k) res.1 res.2) := by
  obtain ⟨hay, hax⟩ := h.operands_at hn hk hxy
  have hsrc := fun i (hi : i < w.bytes) => limb_byte_below hn.fitY hk hi
  have hdst := fun i (hi : i < w.bytes) => limb_byte_below hn.fitX hk hi
  have hacc : ∀ m₁, m₁.memory = m'.memory → m₁.cpu.sFlag = m'.cpu.sFlag → SameAccess m m₁ :=
    fun m₁ hm hs => h.access.trans ⟨hs, fun _ => by rw [hm], fun _ => by rw [hm]⟩
  have hread : ∀ m₁, m₁.memory = m'.memory → m₁.cpu.sFlag = m'.cpu.sFlag →
      m68kReadMemory w (limbAddress w (address68k (m.cpu.a o.y)) k) m₁ =
        (limbWord w m (address68k (m.cpu.a o.y)) k, m₁) := by
    intro m₁ hm hs
    apply read_congr (fun i hi => hn.source _ (hsrc i hi)) (hacc m₁ hm hs)
    intro i hi
    rw [hm]
    apply h.frame
    intro hbelow
    have hmono : w.bytes * k ≤ w.bytes * n := Nat.mul_le_mul_left _ hk.le
    exact hn.apart _ ⟨by have := hbelow.1; omega, hbelow.2⟩ (hsrc i hi)
  have hread' : ∀ m₁, m₁.memory = m'.memory → m₁.cpu.sFlag = m'.cpu.sFlag →
      m68kReadMemory w (limbAddress w (address68k (m.cpu.a o.x)) k) m₁ =
        (limbWord w m (address68k (m.cpu.a o.x)) k, m₁) := by
    intro m₁ hm hs
    apply read_congr (fun i hi => (hn.target _ (hdst i hi)).1) (hacc m₁ hm hs)
    intro i hi
    rw [hm]
    exact h.frame _ (limb_byte_not_below hn.fitX hk hi)
  have hax' : ∀ v, (withA o.y v m').cpu.a o.x = m'.cpu.a o.x := fun v => Function.update_of_ne hxy ..
  simp only [binaryMm, operEa, getEa, bind_apply, regA_apply, setRegA_apply, m68kiRead, m68kiWrite,
    pure_apply, hay]
  rw [hread (withA _ _ _) rfl rfl]
  simp only [hax', hax]
  rw [hread' (withA _ _ (withA _ _ m')) rfl rfl]
  rfl

theorem step (hop : DigitOp w op rel base val valid) (hxy : o.x ≠ o.y) :
    After o w m (k + 1) (binaryMm w op o .pd .pd m').2 := by
  rw [h.reads hn hk hxy]
  have hdst := fun i (hi : i < w.bytes) => limb_byte_below hn.fitX hk hi
  set src := limbWord w m (address68k (m.cpu.a o.y)) k
  set dst := limbWord w m (address68k (m.cpu.a o.x)) k
  have hmem := hop.memory src dst (fetched w o m')
  have hflags := hop.flags src dst (fetched w o m')
  have hacc : SameAccess m (op src dst (fetched w o m')).2 := by
    rw [hmem]
    exact h.access.trans ⟨hflags.sFlag, fun _ => rfl, fun _ => rfl⟩
  have hwritable : ∀ i < w.bytes, Writable (op src dst (fetched w o m')).2
      (limbAddress w (address68k (m.cpu.a o.x)) k + BitVec.ofNat 32 i) :=
    fun i hi => (hacc.writable_iff _).mpr (hn.target _ (hdst i hi)).2
  refine ⟨?_, ?_, hacc.trans (SameAccess.write ..), ?_, ?_⟩
  · rw [write_cpu, hflags.a, h.fetched_a hxy]
  · rw [write_cpu]
    exact ⟨hflags.d.trans h.rest.d, rfl, hflags.pc.trans h.rest.pc, hflags.sp.trans h.rest.sp,
      hflags.t1Flag.trans h.rest.t1Flag, hflags.t0Flag.trans h.rest.t0Flag,
      hflags.sFlag.trans h.rest.sFlag, hflags.mFlag.trans h.rest.mFlag,
      hflags.intMask.trans h.rest.intMask⟩
  · rw [write_keepongoing _ hwritable, hmem]
    exact h.running
  · intro a ha
    have hsucc : w.bytes * (k + 1) = w.bytes * k + w.bytes := Nat.mul_succ _ _
    rw [memByte_write_of_ne, hmem]
    · apply h.frame
      intro hbelow
      exact ha ⟨by have := hbelow.1; omega, hbelow.2⟩
    · rintro i hi rfl
      exact ha (below_succ_of_limb hn.fitX hk hi)

end Step

end After

variable {m : Machine} {rel : CarryRelation} {base : ℕ} {val : ℕ → ℕ} {valid : ℕ → Prop}

def mmRun (w : Width) (op : Long → Long → Emu Long) (o : Insn) (k : ℕ) (m : Machine) : Machine :=
  (fun m => (binaryMm w op o .pd .pd m).2)^[k] m

theorem mmRun_succ (k : ℕ) :
    mmRun w op o (k + 1) m = (binaryMm w op o .pd .pd (mmRun w op o k m)).2 :=
  Function.iterate_succ_apply' _ _ _

def mmResult (w : Width) (op : Long → Long → Emu Long) (o : Insn) (m : Machine) (k : ℕ) : Long × Machine :=
  op (limbWord w m (address68k (m.cpu.a o.y)) k) (limbWord w m (address68k (m.cpu.a o.x)) k)
    (fetched w o (mmRun w op o k m))

variable (hop : DigitOp w op rel base val valid)
  (hn : Numbers w n m (address68k (m.cpu.a o.x)) (address68k (m.cpu.a o.y))) (hxy : o.x ≠ o.y)

include hop hn hxy

theorem mmRun_after {k : ℕ} (hk : k ≤ n) : After o w m k (mmRun w op o k m) := by
  induction k with
  | zero => exact After.zero m
  | succ k ih =>
    rw [mmRun_succ]
    exact (ih (by omega)).step hn (by omega) hop hxy

theorem mmRun_write {k : ℕ} (hk : k < n) :
    mmRun w op o (k + 1) m = m68kWriteMemory w (limbAddress w (address68k (m.cpu.a o.x)) k)
      (mmResult w op o m k).1 (mmResult w op o m k).2 := by
  rw [mmRun_succ, (mmRun_after hop hn hxy hk.le).reads hn hk hxy]
  rfl

theorem mmResult_access {k : ℕ} (hk : k ≤ n) : SameAccess m (mmResult w op o m k).2 := by
  rw [mmResult, hop.memory]
  exact (mmRun_after hop hn hxy hk).access.trans ⟨(hop.flags _ _ _).sFlag, fun _ => rfl, fun _ => rfl⟩

theorem mmRun_limb {k j : ℕ} (hk : k < j) (hj : j ≤ n) :
    limbWord w (mmRun w op o j m) (address68k (m.cpu.a o.x)) k = (mmResult w op o m k).1 := by
  induction j with
  | zero => omega
  | succ j ih =>
    have hacc := mmResult_access hop hn hxy (Nat.le_of_succ_le hj)
    have htarget := fun k (hk : k < n) i (hi : i < w.bytes) => hn.target _ (limb_byte_below hn.fitX hk hi)
    obtain rfl | hkj := Nat.eq_or_lt_of_le (Nat.le_of_lt_succ hk)
    · rw [limbWord, mmRun_write hop hn hxy hj]
      apply read_written _ (hop.lt _ _ _)
      intro i hi
      exact ⟨(hacc.readable_iff _).mpr (htarget k hj i hi).1,
        (hacc.writable_iff _).mpr (htarget k hj i hi).2⟩
    · rw [← ih hkj (by omega), limbWord, limbWord]
      have hnow := (mmRun_after hop hn hxy (Nat.le_of_succ_le hj)).access
      have hnext := (mmRun_after hop hn hxy hj).access
      rw [read_congr (fun i hi => (hnow.readable_iff _).mpr (htarget k (by omega) i hi).1)
        (hnow.symm.trans hnext)]
      intro i hi
      rw [mmRun_write hop hn hxy hj, memByte_write_of_ne]
      · rw [mmResult, hop.memory]
        rfl
      · exact fun i' hi' => limb_byte_ne hn.fitX hj hkj hi hi'

theorem mmRun_chain (hs : ∀ k < n, valid (limb w m (address68k (m.cpu.a o.y)) k))
    (hd : ∀ k < n, valid (limb w m (address68k (m.cpu.a o.x)) k)) :
    rel.holds (base ^ n) (xBit m.cpu)
        (value base (fun k => val (limb w m (address68k (m.cpu.a o.y)) k)) n)
        (value base (fun k => val (limb w m (address68k (m.cpu.a o.x)) k)) n)
        (value base (fun k => val (limb w (mmRun w op o n m) (address68k (m.cpu.a o.x)) k)) n)
        (xBit (mmRun w op o n m).cpu) ∧
      ∀ k < n, valid (limb w (mmRun w op o n m) (address68k (m.cpu.a o.x)) k) := by
  have hdigit := fun k (hk : k < n) => hop.digit (limbWord w m (address68k (m.cpu.a o.y)) k)
    (limbWord w m (address68k (m.cpu.a o.x)) k) (fetched w o (mmRun w op o k m)) (limb_lt k)
    (limb_lt k) (hs k hk) (hd k hk)
  have hcarry : ∀ k < n, xBit (mmRun w op o (k + 1) m).cpu = xBit (mmResult w op o m k).2.cpu := by
    intro k hk
    rw [mmRun_write hop hn hxy hk, write_cpu]
  refine ⟨?_, ?_⟩
  · apply chain rel (c := fun k => xBit (mmRun w op o k m).cpu)
    intro k hk
    rw [hcarry k hk, limb, limb, limb, mmRun_limb hop hn hxy hk le_rfl]
    exact (hdigit k hk).2
  · intro k hk
    rw [limb, mmRun_limb hop hn hxy hk le_rfl]
    exact (hdigit k hk).1

theorem mmRun_zero {k : ℕ} (hk : k ≤ n) : (mmRun w op o k m).cpu.notZFlag = 0 ↔
    m.cpu.notZFlag = 0 ∧ ∀ i < k, limb w (mmRun w op o n m) (address68k (m.cpu.a o.x)) i = 0 := by
  induction k with
  | zero => simp [mmRun]
  | succ k ih =>
    have hlimb : limb w (mmRun w op o n m) (address68k (m.cpu.a o.x)) k = (mmResult w op o m k).1.toNat := by
      rw [limb, mmRun_limb hop hn hxy hk le_rfl]
    rw [mmRun_write hop hn hxy hk, write_cpu, mmResult, hop.zero, Nat.forall_lt_succ_right, hlimb,
      ← and_assoc]
    exact and_congr_left' (ih (by omega))

end Runs

section Numbers

variable (w : Width) (o : Insn) (n : ℕ)

/-- A byte on the stack takes a word of room, in handlers of its own. -/
def pdMode (w : Width) (r : Fin 8) : Ea := if w = .byte ∧ r = 7 then .pd7 else .pd

def addxRun (m : Machine) : Machine := (fun m => (opAddxMm w o (pdMode w o.y) (pdMode w o.x) m).2)^[n] m

def subxRun (m : Machine) : Machine := (fun m => (opSubxMm w o (pdMode w o.y) (pdMode w o.x) m).2)^[n] m

/-- No byte of the numbers is on the stack. -/
def OffStack : Prop := w = .byte → o.x ≠ 7 ∧ o.y ≠ 7

variable {w o n} {m : Machine} {op : Long → Long → Emu Long} {rel : CarryRelation}

theorem mmRun_number (hop : DigitOp w op rel (2 ^ w.bits) id (fun _ => True)) (hxy : o.x ≠ o.y)
    (hn : Numbers w n m (address68k (m.cpu.a o.x)) (address68k (m.cpu.a o.y))) :
    rel.holds (2 ^ (8 * (w.bytes * n))) (xBit m.cpu)
        (number m (address68k (m.cpu.a o.y)) (w.bytes * n))
        (number m (address68k (m.cpu.a o.x)) (w.bytes * n))
        (number (mmRun w op o n m) (address68k (m.cpu.a o.x)) (w.bytes * n))
        (xBit (mmRun w op o n m).cpu) ∧
      ((mmRun w op o n m).cpu.notZFlag = 0 ↔ m.cpu.notZFlag = 0 ∧
        number (mmRun w op o n m) (address68k (m.cpu.a o.x)) (w.bytes * n) = 0) := by
  have hchain := (mmRun_chain hop hn hxy (fun _ _ => trivial) (fun _ _ => trivial)).1
  have hzero := mmRun_zero hop hn hxy (le_refl n)
  have hacc := (mmRun_after hop hn hxy (le_refl n)).access
  have hm' := value_limbs (m := mmRun w op o n m) hn.fitX
    (fun a ha => (hacc.readable_iff a).mpr (hn.target a ha).1)
  have hpow : (2 ^ w.bits) ^ n = 2 ^ (8 * (w.bytes * n)) := by
    rw [← pow_mul, bits_eq, Nat.mul_assoc]
  refine ⟨?_, ?_⟩
  · rw [← value_limbs hn.fitY hn.source, ← value_limbs hn.fitX (fun a ha => (hn.target a ha).1), ← hm',
      ← hpow]
    exact hchain
  · rw [hzero, ← hm', value_eq_zero (Nat.two_pow_pos _)]

theorem pdMode_plain (h : OffStack w o) : pdMode w o.x = .pd ∧ pdMode w o.y = .pd :=
  ⟨if_neg fun h7 => (h h7.1).1 h7.2, if_neg fun h7 => (h h7.1).2 h7.2⟩

theorem extended_numbers (hxy : o.x ≠ o.y) (h7 : OffStack w o)
    (hn : Numbers w n m (address68k (m.cpu.a o.x)) (address68k (m.cpu.a o.y))) :
    let px := address68k (m.cpu.a o.x)
    let py := address68k (m.cpu.a o.y)
    let len := w.bytes * n
    (number (addxRun w o n m) px len + 2 ^ (8 * len) * xBit (addxRun w o n m).cpu =
        number m py len + number m px len + xBit m.cpu ∧
      ((addxRun w o n m).cpu.notZFlag = 0 ↔ m.cpu.notZFlag = 0 ∧ number (addxRun w o n m) px len = 0) ∧
      After o w m n (addxRun w o n m)) ∧
    (number (subxRun w o n m) px len + number m py len + xBit m.cpu =
        number m px len + 2 ^ (8 * len) * xBit (subxRun w o n m).cpu ∧
      ((subxRun w o n m).cpu.notZFlag = 0 ↔ m.cpu.notZFlag = 0 ∧ number (subxRun w o n m) px len = 0) ∧
      After o w m n (subxRun w o n m)) := by
  obtain ⟨hx, hy⟩ := pdMode_plain h7
  have hadd := mmRun_number (addx_digitOp w) hxy hn
  have hsub := mmRun_number (subx_digitOp w) hxy hn
  rw [addxRun, subxRun, hx, hy]
  exact ⟨⟨hadd.1, hadd.2, mmRun_after (addx_digitOp w) hn hxy le_rfl⟩,
    ⟨hsub.1, hsub.2, mmRun_after (subx_digitOp w) hn hxy le_rfl⟩⟩

theorem ram_numbers (c : Core) (bytes : ℕ → Byte) {px py : Long} (hy : w.bytes * n ≤ py.toNat)
    (hx : py.toNat + w.bytes * n ≤ px.toNat) (htop : px.toNat ≤ 0x1000) :
    Numbers w n (ramMachine c bytes) px py := by
  refine ⟨by omega, hy, ?_, ?_, ?_⟩
  · rintro a ⟨-, ha⟩
    exact (ram_access c bytes (by omega)).1
  · rintro a ⟨-, ha⟩
    exact ram_access c bytes (by omega)
  · rintro a ⟨hlow, -⟩ ⟨-, hhigh⟩
    omega

def twoNumbers (y x : List Byte) : Machine :=
  ramMachine { coldCore with a := fun i => if i = 0 then 0x40 else 0x80, xFlag := 0x100 } fun i =>
    (List.replicate (0x40 - y.length) 0 ++ y ++ List.replicate (0x40 - x.length) 0 ++ x).getD i 0

def threeWords : Machine := twoNumbers [0, 1, 0, 0, 0xff, 0xff] [0xff, 0xff, 0xff, 0xff, 0xff, 0xfe]

theorem extended_numbers_words :
    (number threeWords 0x40 6 = 0x10000ffff ∧ number threeWords 0x80 6 = 0xfffffffffffe ∧
      xBit threeWords.cpu = 1) ∧
    (number (addxRun .word ⟨0xd348, 0⟩ 3 threeWords) 0x80 6 = 0x10000fffe ∧
      xBit (addxRun .word ⟨0xd348, 0⟩ 3 threeWords).cpu = 1) ∧
    number (subxRun .word ⟨0x9348, 0⟩ 3 threeWords) 0x80 6 = 0xfffefffefffe ∧
      xBit (subxRun .word ⟨0x9348, 0⟩ 3 threeWords).cpu = 0 := by
  have hnumbers : Numbers .word 3 threeWords 0x80 0x40 := ram_numbers _ _ (by decide) (by decide) (by decide)
  have hy : number threeWords 0x40 6 = 0x10000ffff := by decide
  have hx : number threeWords 0x80 6 = 0xfffffffffffe := by decide
  have hX : xBit threeWords.cpu = 1 := by decide
  have hadd : number (addxRun .word ⟨0xd348, 0⟩ 3 threeWords) 0x80 6 +
      2 ^ (8 * 6) * xBit (addxRun .word ⟨0xd348, 0⟩ 3 threeWords).cpu =
        number threeWords 0x40 6 + number threeWords 0x80 6 + xBit threeWords.cpu :=
    (extended_numbers (w := .word) (o := ⟨0xd348, 0⟩) (by decide) (fun h => nomatch h) hnumbers).1.1
  have hsub : number (subxRun .word ⟨0x9348, 0⟩ 3 threeWords) 0x80 6 + number threeWords 0x40 6 +
      xBit threeWords.cpu = number threeWords 0x80 6 +
        2 ^ (8 * 6) * xBit (subxRun .word ⟨0x9348, 0⟩ 3 threeWords).cpu :=
    (extended_numbers (w := .word) (o := ⟨0x9348, 0⟩) (by decide) (fun h => nomatch h) hnumbers).2.1
  have hsum := number_lt (addxRun .word ⟨0xd348, 0⟩ 3 threeWords) 0x80 6
  have hdiff := number_lt (subxRun .word ⟨0x9348, 0⟩ 3 threeWords) 0x80 6
  have hcarry := xBit_le (addxRun .word ⟨0xd348, 0⟩ 3 threeWords).cpu
  have hborrow := xBit_le (subxRun .word ⟨0x9348, 0⟩ 3 threeWords).cpu
  refine ⟨⟨hy, hx, hX⟩, ?_⟩
  rw [hy, hx, hX] at hadd hsub
  omega

end Numbers

end Tosemu.M68k
