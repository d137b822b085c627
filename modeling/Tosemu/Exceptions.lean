import Tosemu.StackFrames
import Tosemu.SuperCall

namespace Tosemu.M68k

open Cpu

theorem getSr_lt (c : Core) : (getSr c).toNat < 2 ^ 16 := by
  apply Nat.lt_pow_two_of_testBit
  intro i hi
  rw [BitVec.testBit_toNat]
  by_cases h : i < 32
  · simp only [getSr]
    interval_cases i <;> simp
  · exact BitVec.getLsbD_of_ge _ _ (by omega)

section Entry

variable (m : Machine)

def entered : Machine := (initException m).2

theorem entered_sFlag : (entered m).cpu.sFlag = true := rfl

theorem entered_mFlag : (entered m).cpu.mFlag = m.cpu.mFlag := rfl

theorem entered_sp : (entered m).cpu.sp = Function.update m.cpu.sp (bank m.cpu.sFlag m.cpu.mFlag) (m.cpu.a 7) := rfl

theorem entered_a7 : (entered m).cpu.a 7 = (entered m).cpu.sp (bank true m.cpu.mFlag) := by
  change Function.update m.cpu.a 7 _ 7 = _
  rw [Function.update_self]
  rfl

theorem exception_eq (pc vector : Long) : (exception pc vector m).2 =
    (jumpVector vector (pushed .word (getSr m.cpu) (pushed .long pc (entered m)))).2 := rfl

end Entry

section Vector

variable {m : Machine} {vector target : Long}

theorem jumpVector_eq (h : Holds .long (address68k (vector <<< 2)) target m) :
    (jumpVector vector m).2 = withPc target m := by
  have hmoved : Holds .long (address68k (vector <<< 2)) target (withPc (vector <<< 2) m) :=
    h.congr ⟨rfl, fun _ => rfl, fun _ => rfl⟩ fun _ _ => rfl
  have hread : m68kiRead .long (vector <<< 2) (withPc (vector <<< 2) m) = (target, withPc (vector <<< 2) m) :=
    hmoved.read
  rw [jumpVector, bind_apply, setPc_apply, bind_apply, hread, setPc_apply]
  rfl

end Vector

section Pc

variable {inUse : Long → Prop} {m m' : Machine} {pc : Long}

theorem Keeps.of_pc (h : Keeps inUse (withPc pc m) m') : Keeps inUse m m' :=
  ⟨h.a7, h.banks, h.mFlag, ⟨h.access.supervisor, h.access.flags, h.access.mapped⟩, h.bytes⟩

end Pc

section Return

variable {inUse : Long → Prop} {m m₂ : Machine} {pc vector : Long}

structure FrameRoom (inUse : Long → Prop) (m : Machine) (vector : Long) : Prop where
  master : m.cpu.mFlag = false
  room : Room inUse (entered m) 6
  vector : ∀ i < 4, Readable (entered m) (address68k (vector <<< 2) + BitVec.ofNat 32 i)

theorem exception_pushed (hr : FrameRoom inUse m vector) (pc : Long) :
    ∃ target, (exception pc vector m).2 =
      withPc target (pushed .word (getSr m.cpu) (pushed .long pc (entered m))) := by
  have ha : SameAccess (entered m) (pushed .word (getSr m.cpu) (pushed .long pc (entered m))) :=
    (pushed_access pc (entered m)).trans (pushed_access (getSr m.cpu) _)
  refine ⟨_, (exception_eq m pc vector).trans (jumpVector_eq ⟨fun i hi => ?_, rfl⟩)⟩
  exact (ha.readable_iff _).mpr (hr.vector i hi)

theorem rte_supervisor (o : Insn) (hs : m.cpu.sFlag = true) : opRte o m = (do
    let newSr ← pull16
    let newPc ← pull32
    setPc newPc
    onCore (setSr newSr) : Emu Unit) m := by
  unfold opRte
  rw [bind_apply, core_apply]
  dsimp only
  rw [hs, if_pos rfl]

theorem rte_frame (hr : FrameRoom inUse m vector) (o : Insn)
    (hk : Keeps (Using inUse (spAddress (entered m)) 6) (exception pc vector m).2 m₂) :
    ∃ m₄, Keeps inUse (entered m) m₄ ∧ m₄.memory = m₂.memory ∧ m₄.keepongoing = m₂.keepongoing ∧
      m₄.cpu.d = m₂.cpu.d ∧ (∀ i, i ≠ 7 → m₄.cpu.a i = m₂.cpu.a i) ∧
      (opRte o m₂).2 = { m₄ with cpu := setSr (getSr m.cpu) { m₄.cpu with pc := pc } } := by
  obtain ⟨target, hentry⟩ := exception_pushed hr pc
  rw [hentry] at hk
  have hframe := hk.of_pc
  obtain ⟨hroom₄, hroom₂⟩ := Room.pushed (w := .long) (n := 2) pc hr.room
  have hinner : Keeps (Using (Using inUse (spAddress (entered m)) 4) (spAddress (pushed .long pc (entered m))) 2)
      (pushed .word (getSr m.cpu) (pushed .long pc (entered m))) m₂ := by
    refine hframe.mono fun x hx => ?_
    rw [pushed_address (w := .long) pc hroom₄.fit] at hx
    exact hx.joined hroom₄.fit
  have hpull₂ := pulled_pushed (w := .word) (getSr m.cpu) hroom₂ (getSr_lt _) hinner
  have hkeep₄ := Keeps.pulled (w := .word) (getSr m.cpu) hroom₂ hinner
  have hpull₄ := pulled_pushed (w := .long) pc hroom₄ pc.isLt hkeep₄
  have hkeep := Keeps.pulled (w := .long) pc hroom₄ hkeep₄
  have hs : m₂.cpu.sFlag = true := hframe.access.supervisor.trans
    ((pushed_access (getSr m.cpu) _).supervisor.trans ((pushed_access pc (entered m)).supervisor.trans rfl))
  refine ⟨_, hkeep, rfl, rfl, rfl, fun i hi => ?_, ?_⟩
  · change Function.update (Function.update m₂.cpu.a 7 _) 7 _ i = _
    rw [Function.update_of_ne hi, Function.update_of_ne hi]
  · rw [rte_supervisor o hs, bind_apply, pull16_apply, hpull₂, bind_apply, pull32_apply, hpull₄]
    rfl

theorem getSr_supervisor (c : Core) : (getSr c).getLsbD 13 = c.sFlag := by simp [getSr]

theorem setSr_keeps {m₄ : Machine} (hmaster : m.cpu.mFlag = false) (hk : Keeps inUse (entered m) m₄) (pc : Long) :
    Keeps inUse m { m₄ with cpu := setSr (getSr m.cpu) { m₄.cpu with pc := pc } } := by
  have hs₄ : m₄.cpu.sFlag = true := hk.access.supervisor
  have hm₄ : m₄.cpu.mFlag = false := hk.mFlag.trans hmaster
  have hsFlag : (setSr (getSr m.cpu) { m₄.cpu with pc := pc }).sFlag = m.cpu.sFlag := by
    rw [setSr_sFlag, getSr_supervisor]
  have hsp : (setSr (getSr m.cpu) { m₄.cpu with pc := pc }).sp = Function.update m₄.cpu.sp .isp (m₄.cpu.a 7) := by
    rw [setSr_sp, hs₄, hm₄]
    rfl
  have ha7 : (setSr (getSr m.cpu) { m₄.cpu with pc := pc }).a 7 =
      Function.update m₄.cpu.sp .isp (m₄.cpu.a 7) (bank m.cpu.sFlag false) := by
    rw [setSr_a, Function.update_self, hsp, getSr_supervisor]
  have hbank : bank true m.cpu.mFlag = .isp := by rw [hmaster]; rfl
  have hother : ∀ b, b ≠ .isp → m₄.cpu.sp b = Function.update m.cpu.sp (bank m.cpu.sFlag false) (m.cpu.a 7) b := by
    intro b hb
    rw [hk.banks b (by rw [entered_sFlag, entered_mFlag, hbank]; exact hb), entered_sp, hmaster]
  have hown : m₄.cpu.a 7 = Function.update m.cpu.sp (bank m.cpu.sFlag false) (m.cpu.a 7) .isp := by
    rw [hk.a7, entered_a7, entered_sp, hbank, hmaster]
  refine ⟨?_, fun b hb => ?_, ?_, ⟨hsFlag, hk.access.flags, hk.access.mapped⟩, hk.bytes⟩
  · change (setSr (getSr m.cpu) { m₄.cpu with pc := pc }).a 7 = _
    rw [ha7]
    cases hu : m.cpu.sFlag with
    | false =>
      rw [Function.update_of_ne (by decide), hother _ (by decide), hu, Function.update_self]
    | true =>
      change Function.update m₄.cpu.sp .isp (m₄.cpu.a 7) .isp = _
      rw [Function.update_self, hown, hu]
      exact Function.update_self ..
  · change (setSr (getSr m.cpu) { m₄.cpu with pc := pc }).sp b = _
    rw [hmaster] at hb
    rw [hsp]
    by_cases hi : b = .isp
    · rw [hi, Function.update_self, hown, Function.update_of_ne (hi ▸ hb)]
    · rw [Function.update_of_ne hi, hother b hi, Function.update_of_ne hb]
  · exact (setSr_mFlag _ _).trans hmaster.symm

structure Returned (pc : Long) (m m₂ m' : Machine) : Prop where
  pc : m'.cpu.pc = pc
  sr : m.cpu.t0Flag = false → getSr m'.cpu = getSr m.cpu
  d : m'.cpu.d = m₂.cpu.d
  a : ∀ i, i ≠ 7 → m'.cpu.a i = m₂.cpu.a i
  memory : m'.memory = m₂.memory
  keepongoing : m'.keepongoing = m₂.keepongoing

theorem exception_returned (hr : FrameRoom inUse m vector) (o : Insn)
    (hk : Keeps (Using inUse (spAddress (entered m)) 6) (exception pc vector m).2 m₂) :
    Keeps inUse m (opRte o m₂).2 ∧ Returned pc m m₂ (opRte o m₂).2 := by
  obtain ⟨m₄, hkeep, hmem, hrun, hd, ha, heq⟩ := rte_frame hr o hk
  rw [heq]
  refine ⟨setSr_keeps hr.master hkeep pc, rfl, fun ht => ?_, hd, fun i hi => ?_, hmem, hrun⟩
  · exact (getSr_setSr _ _).trans (getSr_masked _ ht hr.master)
  · change (setSr (getSr m.cpu) { m₄.cpu with pc := pc }).a i = _
    rw [setSr_a, Function.update_of_ne hi]
    exact ha i hi

end Return

end Tosemu.M68k
