import Tosemu.Exceptions
import Tosemu.RegisterLists

namespace Tosemu.M68k

open Cpu

def NextWord (m : Machine) (v : Long) : Prop := readImm16 m = (v, withPc (m.cpu.pc + 2) m)

section Calls

inductive Calls : Machine → Long → Machine → Prop
  | bsr8 (o : Insn) (m : Machine) : Calls m m.cpu.pc (opBsr8 o m).2
  | bsr16 (m : Machine) (offset : Long) (h : NextWord m offset) : Calls m (m.cpu.pc + 2) (opBsr16 m).2
  | jsr (o : Insn) (ea : Ea) (m : Machine) (ret target : Long)
    (h : getEa .long o.y ea m = (target, withPc ret m)) : Calls m ret (opJsr o ea m).2

variable {inUse : Long → Prop} {m m₁ m₂ : Machine} {ret : Long}

theorem Calls.eq (h : Calls m ret m₁) : ∃ p t, m₁ = withPc t (pushed .long ret (withPc p m)) := by
  cases h with
  | bsr8 o m => exact ⟨m.cpu.pc, _, rfl⟩
  | bsr16 m offset h =>
    refine ⟨m.cpu.pc + 2,
      (pushed .long (m.cpu.pc + 2) (withPc (m.cpu.pc + 2) m)).cpu.pc - 2 + makeInt .word offset, ?_⟩
    unfold opBsr16
    rw [bind_apply, h]
    rfl
  | jsr o ea m ret target h =>
    refine ⟨ret, target, ?_⟩
    unfold opJsr
    rw [bind_apply, h]
    rfl

theorem Room.withPc {n : ℕ} (h : Room inUse m n) (pc : Long) : Room inUse (M68k.withPc pc m) n :=
  ⟨h.fit, h.readable, h.writable, h.free⟩

theorem rts_returns (hcall : Calls m ret m₁) (room : Room inUse m 4)
    (hk : Keeps (Using inUse (spAddress m) 4) m₁ m₂) :
    Keeps inUse m (opRts m₂).2 ∧ (opRts m₂).2 = withPc ret (withA 7 (m.cpu.a 7) m₂) := by
  obtain ⟨p, t, rfl⟩ := hcall.eq
  have hroom : Room inUse (withPc p m) Width.long.bytes := room.withPc p
  have hbody : Keeps (Using inUse (spAddress (withPc p m)) Width.long.bytes) (pushed .long ret (withPc p m)) m₂ :=
    hk.of_pc
  have hpull : pulled .long m₂ = (ret, withA 7 (m.cpu.a 7) m₂) :=
    pulled_pushed (m := withPc p m) ret hroom ret.isLt hbody
  have hkeep := Keeps.pulled ret hroom hbody
  have hrun : (opRts m₂).2 = withPc ret (withA 7 (m.cpu.a 7) m₂) := by
    unfold opRts
    rw [bind_apply, pull32_apply, hpull]
    rfl
  rw [hrun]
  exact ⟨⟨hkeep.a7, hkeep.banks, hkeep.mFlag, ⟨hkeep.access.supervisor, hkeep.access.flags, hkeep.access.mapped⟩,
    hkeep.bytes⟩, rfl⟩

end Calls

section Links

variable {inUse : Long → Prop} {m m₂ : Machine} {o o' : Insn}

def linked (o : Insn) (m : Machine) : Machine :=
  withA o.y (m.cpu.a 7 - 4) (pushed .long (m.cpu.a o.y) m)

structure LinkFrame (inUse : Long → Prop) (m : Machine) (o o' : Insn) : Prop where
  register : o.y ≠ 7
  same : o'.y = o.y
  room : Room inUse m 4
  displacement : ∃ v, NextWord (linked o m) v

theorem link_eq (h : LinkFrame inUse m o o') : ∃ pc sp, (opLink o m).2 = withA 7 sp (withPc pc (linked o m)) := by
  obtain ⟨v, hv⟩ := h.displacement
  have ha7 : (pushed .long (m.cpu.a o.y) m).cpu.a 7 = m.cpu.a 7 - 4 := pushed_a7 (w := .long) _ m
  refine ⟨(linked o m).cpu.pc + 2, (linked o m).cpu.a 7 + makeInt .word v, ?_⟩
  unfold opLink
  rw [bind_apply, regA_apply, bind_apply, push32_apply, bind_apply, regA_apply, bind_apply, setRegA_apply, ha7]
  change (((do
    let displacement ← readImm16
    setRegA 7 ((← regA 7) + makeInt .word displacement)) : Emu Unit) (linked o m)).2 = _
  rw [bind_apply, hv]
  rfl

theorem withA_of_ne {i j : Fin 8} (h : j ≠ i) (v : Long) (m : Machine) : (withA i v m).cpu.a j = m.cpu.a j := by
  change Function.update m.cpu.a i v j = _
  rw [Function.update_of_ne h]

theorem unlk_returns (h : LinkFrame inUse m o o') (hk : Keeps (Using inUse (spAddress m) 4) (opLink o m).2 m₂)
    (hframe : m₂.cpu.a o.y = (opLink o m).2.cpu.a o.y) :
    Keeps inUse m (opUnlk o' m₂).2 ∧
      (opUnlk o' m₂).2 = withA o.y (m.cpu.a o.y) (withA 7 (m.cpu.a 7) m₂) := by
  obtain ⟨pc, sp, heq⟩ := link_eq h
  have hfp : m₂.cpu.a o.y = m.cpu.a 7 - 4 := by
    rw [hframe, heq, withA_of_ne h.register]
    exact withA_self ..
  rw [heq] at hk
  have hroom : Room inUse m Width.long.bytes := h.room
  have hbody : Keeps (Using inUse (spAddress m) Width.long.bytes) (pushed .long (m.cpu.a o.y) m)
      (withA 7 (m.cpu.a 7 - 4) m₂) :=
    ⟨(withA_self ..).trans (pushed_a7 (w := .long) _ m).symm, hk.banks, hk.mFlag,
      ⟨hk.access.supervisor, hk.access.flags, hk.access.mapped⟩, hk.bytes⟩
  have hpull := pulled_pushed _ hroom (m.cpu.a o.y).isLt hbody
  have hkeep := Keeps.pulled _ hroom hbody
  have hrun : (opUnlk o' m₂).2 = withA o.y (m.cpu.a o.y) (withA 7 (m.cpu.a 7) m₂) := by
    unfold opUnlk
    rw [bind_apply, regA_apply, bind_apply, setRegA_apply, h.same, hfp, bind_apply, pull32_apply, hpull,
      setRegA_apply]
    change withA o.y _ (withA 7 _ (withA 7 _ m₂)) = _
    have hover : withA 7 (m.cpu.a 7) (withA 7 (m.cpu.a 7 - 4) m₂) = withA 7 (m.cpu.a 7) m₂ := by
      rw [withA, withA, withA]
      simp only [Function.update_idem]
    rw [hover]
  rw [hrun]
  refine ⟨⟨?_, hkeep.banks, hkeep.mFlag, ⟨hkeep.access.supervisor, hkeep.access.flags, hkeep.access.mapped⟩,
    hkeep.bytes⟩, rfl⟩
  rw [withA_of_ne h.register.symm, withA_self]

end Links

section Saves

variable {inUse : Long → Prop} {m m₂ : Machine} {o o' : Insn} {w : Width} {registers registers' : Long}

structure SaveFrame (w : Width) (inUse : Long → Prop) (m : Machine) (o o' : Insn)
    (registers registers' : Long) : Prop where
  save : o.y = 7
  restore : o'.y = 7
  mirrored : Mirrored registers registers'
  list : NextWord m registers
  room : Room inUse m (w.bytes * (listed registers).length)

theorem save_eq (h : SaveFrame w inUse m o o' registers registers') : (opMovemRePd w o m).2 =
    withA 7 (storeDown w (listed registers) (m.cpu.a 7) (withPc (m.cpu.pc + 2) m)).1
      (storeDown w (listed registers) (m.cpu.a 7) (withPc (m.cpu.pc + 2) m)).2 := by
  unfold opMovemRePd
  rw [bind_apply, h.list, bind_apply, regA_apply, h.save]
  rfl

theorem restore_eq (h : SaveFrame w inUse m o o' registers registers') (hlist : NextWord m₂ registers') :
    (opMovemErPi w o' m₂).2 =
      withA 7 (loadUp w (listed registers') (m₂.cpu.a 7) (withPc (m₂.cpu.pc + 2) m₂)).1
        (loadUp w (listed registers') (m₂.cpu.a 7) (withPc (m₂.cpu.pc + 2) m₂)).2 := by
  unfold opMovemErPi
  rw [bind_apply, hlist, bind_apply, regA_apply, h.restore]
  rfl

theorem getDa_withA7 {i : Fin 16} (hi : i ≠ 15) (v : Long) (m : Machine) :
    getDa i (withA 7 v m).cpu = getDa i m.cpu := by
  by_cases h : i.val < 8
  · rw [getDa, dif_pos h, getDa, dif_pos h]
    rfl
  · rw [getDa, dif_neg h, getDa, dif_neg h]
    apply withA_of_ne
    intro he
    have hval := congrArg Fin.val he
    simp only at hval
    exact hi (Fin.ext (by omega))

theorem beside_fields {c c' : Core} (h : besideRegisters c' = besideRegisters c) :
    c'.sFlag = c.sFlag ∧ c'.mFlag = c.mFlag ∧ c'.sp = c.sp := by
  have hs : (besideRegisters c').sFlag = (besideRegisters c).sFlag := congrArg Core.sFlag h
  have hm : (besideRegisters c').mFlag = (besideRegisters c).mFlag := congrArg Core.mFlag h
  have hsp : (besideRegisters c').sp = (besideRegisters c).sp := congrArg Core.sp h
  exact ⟨hs, hm, hsp⟩

theorem registers_restored (h : SaveFrame w inUse m o o' registers registers')
    (hk : Keeps (Using inUse (spAddress m) (w.bytes * (listed registers).length)) (opMovemRePd w o m).2 m₂)
    (hlist : NextWord m₂ registers') :
    Keeps inUse m (opMovemErPi w o' m₂).2 ∧
      (∀ i ∈ listed registers', i ≠ 15 →
        getDa i (opMovemErPi w o' m₂).2.cpu = makeInt w (maskOutAbove w (getDa i m.cpu))) ∧
      ∀ i ∉ listed registers', i ≠ 15 → getDa i (opMovemErPi w o' m₂).2.cpu = getDa i m₂.cpu := by
  have hopen : Open (withPc (m.cpu.pc + 2) m) (spAddress m) (w.bytes * (listed registers).length) :=
    fun x hx => ⟨h.room.readable x hx, h.room.writable x hx⟩
  have hs := storeDown_spec (w := w) (listed registers) (m.cpu.a 7) (withPc (m.cpu.pc + 2) m) h.room.fit hopen
  have hload := loadUp_stored (w := w) (m := withPc (m.cpu.pc + 2) m) h.mirrored (m.cpu.a 7)
    (withPc (m₂.cpu.pc + 2) m₂) h.room.fit hopen
  rw [save_eq h] at hk
  rw [restore_eq h hlist]
  have ha7 : m₂.cpu.a 7 = (storeDown w (listed registers) (m.cpu.a 7) (withPc (m.cpu.pc + 2) m)).1 :=
    hk.a7.trans (withA_self ..)
  rw [ha7]
  generalize storeDown w (listed registers) (m.cpu.a 7) (withPc (m.cpu.pc + 2) m) = s at hs hload hk
  obtain ⟨haddr, hmachine, hbeside, hothers, hloaded⟩ :=
    hload ⟨hk.access.supervisor, hk.access.flags, hk.access.mapped⟩ fun x hx => hk.bytes x (Or.inr hx)
  generalize loadUp w (listed registers') s.1 (withPc (m₂.cpu.pc + 2) m₂) = r
    at haddr hmachine hbeside hothers hloaded
  obtain ⟨hsFlag, hmFlag, hsp⟩ := beside_fields hbeside
  have hmem : r.2.memory = m₂.memory := by rw [hmachine]; rfl
  have hcpu : s.2.cpu = (withPc (m.cpu.pc + 2) m).cpu := hs.cpu
  have hmoved : SameAccess m (withPc (m.cpu.pc + 2) m) := sameAccess_cpu rfl
  have hafter : SameAccess m₂ r.2 := by
    rw [hmachine]
    exact sameAccess_cpu hsFlag
  have haccess : SameAccess m (withA 7 r.1 r.2) :=
    hmoved.trans (hs.access.trans ((withA_access ..).trans (hk.access.trans (hafter.trans (withA_access ..)))))
  refine ⟨⟨?_, fun b hb => ?_, ?_, haccess, fun x hx => ?_⟩, fun i hi h15 => ?_, fun i hi h15 => ?_⟩
  · rw [withA_self, haddr]
  · change r.2.cpu.sp b = _
    rw [hsp]
    refine (hk.banks b ?_).trans (congrFun (congrArg Core.sp hcpu) b)
    change b ≠ bank s.2.cpu.sFlag s.2.cpu.mFlag
    rw [hcpu]
    exact hb
  · have hm : s.2.cpu.mFlag = (withPc (m.cpu.pc + 2) m).cpu.mFlag := congrArg Core.mFlag hcpu
    exact hmFlag.trans (hk.mFlag.trans hm)
  · change memByte r.2.memory x = _
    rw [hmem]
    exact (hk.bytes x (Or.inl hx)).trans (hs.bytes x fun hb => h.room.free x hb hx)
  · rw [getDa_withA7 h15, hloaded i hi]
    rfl
  · rw [getDa_withA7 h15, hothers i hi]
    rfl

end Saves

section Nesting

/-- Code that is nested well: it leaves the stack as it is, or one such piece follows another, or a
frame is built, such a piece runs above it, and the frame is taken down again. -/
inductive Nested : (Long → Prop) → Machine → Machine → Prop
  | code {inUse : Long → Prop} {m m' : Machine} (h : Keeps inUse m m') : Nested inUse m m'
  | seq {inUse : Long → Prop} {m m' m'' : Machine} (h : Nested inUse m m') (h' : Nested inUse m' m'') :
    Nested inUse m m''
  | call {inUse : Long → Prop} {m m₁ m₂ : Machine} {ret : Long} (hcall : Calls m ret m₁) (room : Room inUse m 4)
    (body : Nested (Using inUse (spAddress m) 4) m₁ m₂) : Nested inUse m (opRts m₂).2
  | link {inUse : Long → Prop} {m m₂ : Machine} {o o' : Insn} (h : LinkFrame inUse m o o')
    (body : Nested (Using inUse (spAddress m) 4) (opLink o m).2 m₂)
    (hframe : m₂.cpu.a o.y = (opLink o m).2.cpu.a o.y) : Nested inUse m (opUnlk o' m₂).2
  | save {inUse : Long → Prop} {m m₂ : Machine} {o o' : Insn} {w : Width} {registers registers' : Long}
    (h : SaveFrame w inUse m o o' registers registers')
    (body : Nested (Using inUse (spAddress m) (w.bytes * (listed registers).length)) (opMovemRePd w o m).2 m₂)
    (hlist : NextWord m₂ registers') : Nested inUse m (opMovemErPi w o' m₂).2
  | exception {inUse : Long → Prop} {m m₂ : Machine} {pc vector : Long} (h : FrameRoom inUse m vector) (o : Insn)
    (body : Nested (Using inUse (spAddress (entered m)) 6) (M68k.exception pc vector m).2 m₂) :
    Nested inUse m (opRte o m₂).2

theorem Nested.keeps {inUse : Long → Prop} {m m' : Machine} (h : Nested inUse m m') : Keeps inUse m m' := by
  induction h with
  | code h => exact h
  | seq _ _ ih ih' => exact ih.trans ih'
  | call hcall room _ ih => exact (rts_returns hcall room ih).1
  | link h _ hframe ih => exact (unlk_returns h ih hframe).1
  | save h _ hlist ih => exact (registers_restored h ih hlist).1
  | exception h o _ ih => exact (exception_returned h o ih).1

theorem nested_frames (inUse : Long → Prop) :
    (∀ m m', Nested inUse m m' → Keeps inUse m m') ∧
    (∀ m m₁ m₂ ret, Calls m ret m₁ → Room inUse m 4 → Nested (Using inUse (spAddress m) 4) m₁ m₂ →
      (opRts m₂).2 = withPc ret (withA 7 (m.cpu.a 7) m₂)) ∧
    (∀ m m₂ o o', LinkFrame inUse m o o' → Nested (Using inUse (spAddress m) 4) (opLink o m).2 m₂ →
      m₂.cpu.a o.y = (opLink o m).2.cpu.a o.y →
      (opUnlk o' m₂).2 = withA o.y (m.cpu.a o.y) (withA 7 (m.cpu.a 7) m₂)) ∧
    (∀ w m m₂ o o' registers registers', SaveFrame w inUse m o o' registers registers' →
      Nested (Using inUse (spAddress m) (w.bytes * (listed registers).length)) (opMovemRePd w o m).2 m₂ →
      NextWord m₂ registers' → ∀ i : Fin 16, i ≠ 15 → getDa i (opMovemErPi w o' m₂).2.cpu =
        if i ∈ listed registers' then makeInt w (maskOutAbove w (getDa i m.cpu)) else getDa i m₂.cpu) ∧
    ∀ m m₂ pc vector o, FrameRoom inUse m vector →
      Nested (Using inUse (spAddress (entered m)) 6) (exception pc vector m).2 m₂ →
      Returned pc m m₂ (opRte o m₂).2 := by
  refine ⟨fun m m' h => h.keeps, ?_, ?_, ?_, ?_⟩
  · exact fun m m₁ m₂ ret hcall room body => (rts_returns hcall room body.keeps).2
  · exact fun m m₂ o o' h body hframe => (unlk_returns h body.keeps hframe).2
  · intro w m m₂ o o' registers registers' h body hlist i hi
    obtain ⟨-, hin, hout⟩ := registers_restored h body.keeps hlist
    split_ifs with hmem
    · exact hin i hmem hi
    · exact hout i hmem hi
  · exact fun m m₂ pc vector o h body => (exception_returned h o body.keeps).2

section Program

variable {inUse : Long → Prop} {c : Core} {bytes : ℕ → Byte} {m m₁ : Machine} {n : ℕ}

theorem ram_room (h : SameAccess (ramMachine c bytes) m) (hfit : n ≤ (spAddress m).toNat)
    (htop : (spAddress m).toNat ≤ 0x1000) (hfree : ∀ x, Below (spAddress m) n x → ¬ inUse x) :
    Room inUse m n := by
  have hram : ∀ x, Below (spAddress m) n x → Readable m x ∧ Writable m x := by
    rintro x ⟨-, hx⟩
    obtain ⟨hr, hw⟩ := ram_access c bytes (a := x) (by omega)
    exact ⟨(h.readable_iff x).mpr hr, (h.writable_iff x).mpr hw⟩
  exact ⟨hfit, fun x hx => (hram x hx).1, fun x hx => (hram x hx).2, hfree⟩

theorem ram_word {v : Long} (h : SameAccess (ramMachine c bytes) m) (htop : (address68k m.cpu.pc).toNat < 0xfff)
    (hv : (m68kReadMemory .word (address68k m.cpu.pc) m).1 = v) : NextWord m v := by
  have hread : ∀ i < Width.word.bytes, Readable m (address68k m.cpu.pc + BitVec.ofNat 32 i) := by
    intro i hi
    have hnat : (address68k m.cpu.pc + BitVec.ofNat 32 i).toNat < 0x1000 := by
      rw [BitVec.toNat_add, BitVec.toNat_ofNat]
      simp only [Width.bytes] at hi
      omega
    exact (h.readable_iff _).mpr (ram_access c bytes hnat).1
  have hmoved : Holds .word (address68k m.cpu.pc) v (withPc (m.cpu.pc + 2) m) :=
    (Holds.mk hread hv).congr (sameAccess_cpu rfl) fun _ _ => rfl
  exact hmoved.read

theorem Calls.access {ret : Long} (h : Calls m ret m₁) : SameAccess m m₁ := by
  obtain ⟨p, t, rfl⟩ := h.eq
  have hmoved : SameAccess m (withPc p m) := sameAccess_cpu rfl
  exact hmoved.trans ((pushed_access ret (withPc p m)).trans (sameAccess_cpu rfl))

theorem LinkFrame.access {o o' : Insn} (h : LinkFrame inUse m o o') : SameAccess m (opLink o m).2 := by
  obtain ⟨pc, sp, heq⟩ := link_eq h
  rw [heq]
  exact (pushed_access (m.cpu.a o.y) m).trans (sameAccess_cpu rfl)

theorem SaveFrame.access {w : Width} {o o' : Insn} {registers registers' : Long}
    (h : SaveFrame w inUse m o o' registers registers') : SameAccess m (opMovemRePd w o m).2 := by
  have hs := storeDown_spec (w := w) (listed registers) (m.cpu.a 7) (withPc (m.cpu.pc + 2) m) h.room.fit
    fun x hx => ⟨h.room.readable x hx, h.room.writable x hx⟩
  have hmoved : SameAccess m (withPc (m.cpu.pc + 2) m) := sameAccess_cpu rfl
  rw [save_eq h]
  exact hmoved.trans (hs.access.trans (withA_access ..))

/-- `BSR.S $110`, `LINK A6,#-4`, `MOVEM.L D0-D1,-(A7)`, `TRAP #0`, and back again; the vector at `0x80` leads to
`MOVEQ #5,D0` and `RTE`. -/
def frameProgram : List (ℕ × List Byte) :=
  [(0x80, [0, 0, 0x01, 0x40]), (0x100, [0x61, 0x0e]),
    (0x110, [0x4e, 0x56, 0xff, 0xfc, 0x48, 0xe7, 0xc0, 0x00, 0x4e, 0x40,
      0x4c, 0xdf, 0x00, 0x03, 0x4e, 0x5e, 0x4e, 0x75]),
    (0x140, [0x70, 0x05, 0x4e, 0x73])]

def frameByte (i : ℕ) : Byte :=
  (frameProgram.findSome? fun piece => if piece.1 ≤ i then piece.2[i - piece.1]? else none).getD 0

def frameStart : Machine :=
  ramMachine { coldCore with
    d := fun i => if i = 0 then 0x12345678 else 0
    a := fun i => if i = 7 then 0x800 else 0x900
    sp := fun _ => 0x600
    pc := 0x102 } frameByte

-- Each state is behind the opcode of the next instruction.
def inCall : Machine := withPc 0x112 (opBsr8 ⟨0x610e, 0⟩ frameStart).2
def inLink : Machine := withPc 0x116 (opLink ⟨0x4e56, 0⟩ inCall).2
def inSave : Machine := withPc 0x11a (opMovemRePd .long ⟨0x48e7, 0⟩ inLink).2
def inTrap : Machine := withD 0 5 (exception 0x11a 32 inSave).2
def afterTrap : Machine := withPc 0x11c (opRte ⟨0x4e73, 0⟩ inTrap).2
def afterSave : Machine := withPc 0x120 (opMovemErPi .long ⟨0x4cdf, 0⟩ afterTrap).2
def afterLink : Machine := withPc 0x122 (opUnlk ⟨0x4e5e, 0⟩ afterSave).2

theorem frame_addresses : (spAddress frameStart).toNat = 0x800 ∧ (spAddress inCall).toNat = 0x7fc ∧
    (spAddress inLink).toNat = 0x7f4 ∧ (spAddress (entered inSave)).toNat = 0x600 := by
  decide +kernel

def callUses : Long → Prop := Using (fun _ => False) (spAddress frameStart) 4
def linkUses : Long → Prop := Using callUses (spAddress inCall) 4
def saveUses : Long → Prop := Using linkUses (spAddress inLink) (Width.long.bytes * (listed 0xc000).length)
def trapUses : Long → Prop := Using saveUses (spAddress (entered inSave)) 6

theorem Nested.fetched (inUse : Long → Prop) (pc : Long) (m : Machine) : Nested inUse m (withPc pc m) :=
  .code ⟨rfl, fun _ _ => rfl, rfl, sameAccess_cpu rfl, fun _ _ => rfl⟩

theorem frame_call : SameAccess frameStart inCall ∧ Room (fun _ => False) frameStart 4 := by
  obtain ⟨hstart, -⟩ := frame_addresses
  have hcall : Calls frameStart 0x102 (opBsr8 ⟨0x610e, 0⟩ frameStart).2 := .bsr8 _ _
  exact ⟨hcall.access.trans (sameAccess_cpu rfl),
    ram_room (.refl frameStart) (by omega) (by omega) fun _ _ h => h⟩

theorem frame_link : SameAccess frameStart inLink ∧ LinkFrame callUses inCall ⟨0x4e56, 0⟩ ⟨0x4e5e, 0⟩ := by
  obtain ⟨hstart, hcall, -⟩ := frame_addresses
  obtain ⟨haccess, -⟩ := frame_call
  have hframe : LinkFrame callUses inCall ⟨0x4e56, 0⟩ ⟨0x4e5e, 0⟩ := by
    refine ⟨by decide, by decide, ram_room haccess (by omega) (by omega) ?_, 0xfffc, ?_⟩
    · rintro x ⟨-, hx⟩ (h | ⟨h, -⟩)
      · exact h
      · omega
    · have hpushed := haccess.trans (pushed_access (w := .long) (inCall.cpu.a 6) inCall)
      exact ram_word (hpushed.trans (sameAccess_cpu rfl)) (by decide +kernel) (by decide +kernel)
  exact ⟨(haccess.trans hframe.access).trans (sameAccess_cpu rfl), hframe⟩

theorem frame_save : SameAccess frameStart inSave ∧
    SaveFrame .long linkUses inLink ⟨0x48e7, 0⟩ ⟨0x4cdf, 0⟩ 0xc000 3 := by
  obtain ⟨hstart, hcall, hlink, -⟩ := frame_addresses
  obtain ⟨haccess, -⟩ := frame_link
  have hlength : Width.long.bytes * (listed 0xc000).length = 8 := by decide
  have hmirror : ∀ i : Fin 16, (3 : Long).getLsbD i = (0xc000 : Long).getLsbD i.rev := by decide
  have hframe : SaveFrame .long linkUses inLink ⟨0x48e7, 0⟩ ⟨0x4cdf, 0⟩ 0xc000 3 := by
    refine ⟨by decide, by decide, hmirror, ram_word haccess (by decide +kernel) (by decide +kernel),
      ram_room haccess (by omega) (by omega) ?_⟩
    rintro x ⟨-, hx⟩ ((h | ⟨h, -⟩) | ⟨h, -⟩)
    · exact h
    · omega
    · omega
  exact ⟨(haccess.trans hframe.access).trans (sameAccess_cpu rfl), hframe⟩

theorem frame_trap : FrameRoom saveUses inSave 32 := by
  obtain ⟨hstart, hcall, hlink, htrap⟩ := frame_addresses
  obtain ⟨haccess, -⟩ := frame_save
  have hlength : Width.long.bytes * (listed 0xc000).length = 8 := by decide
  have hentered : SameAccess (ramMachine (entered frameStart).cpu frameByte) (entered inSave) :=
    ⟨rfl, haccess.flags, haccess.mapped⟩
  refine ⟨rfl, ram_room hentered (by omega) (by omega) ?_, fun i hi => (hentered.readable_iff _).mpr ?_⟩
  · rintro x ⟨-, hx⟩ (((h | ⟨h, -⟩) | ⟨h, -⟩) | ⟨h, -⟩)
    · exact h
    · omega
    · omega
    · omega
  · refine (ram_access _ _ ?_).1
    have hvector : ∀ i < 4, (address68k ((32 : Long) <<< 2) + BitVec.ofNat 32 i).toNat < 0x1000 := by decide
    exact hvector i hi

theorem frame_handler : Nested trapUses (exception 0x11a 32 inSave).2 inTrap :=
  .code ⟨rfl, fun _ _ => rfl, rfl, sameAccess_cpu rfl, fun _ _ => rfl⟩

theorem frame_interrupted : Nested saveUses inSave afterTrap :=
  .seq (.exception frame_trap ⟨0x4e73, 0⟩ frame_handler) (.fetched ..)

theorem frame_list : NextWord afterTrap 3 :=
  ram_word (frame_save.1.trans frame_interrupted.keeps.access) (by decide +kernel) (by decide +kernel)

theorem frame_registers : Nested saveUses (opMovemRePd .long ⟨0x48e7, 0⟩ inLink).2 afterTrap :=
  .seq (.fetched ..) frame_interrupted

theorem frame_body : Nested linkUses (opLink ⟨0x4e56, 0⟩ inCall).2 afterSave :=
  .seq (.fetched ..) (.seq (.save frame_save.2 frame_registers frame_list) (.fetched ..))

theorem frame_register : afterSave.cpu.a (Insn.y ⟨0x4e56, 0⟩) =
    (opLink ⟨0x4e56, 0⟩ inCall).2.cpu.a (Insn.y ⟨0x4e56, 0⟩) := by
  decide +kernel

theorem frame_subroutine : Nested callUses (opBsr8 ⟨0x610e, 0⟩ frameStart).2 afterLink := by
  have hlink : Nested callUses inCall (opUnlk ⟨0x4e5e, 0⟩ afterSave).2 :=
    .link frame_link.2 frame_body frame_register
  exact .seq (.fetched callUses 0x112 _) (hlink.seq (.fetched callUses 0x122 _))

theorem nested_frames_program :
    Keeps (fun _ => False) frameStart (opRts afterLink).2 ∧
      (opRts afterLink).2 = withPc 0x102 (withA 7 0x800 afterLink) ∧
      (opUnlk ⟨0x4e5e, 0⟩ afterSave).2 = withA 6 0x900 (withA 7 0x7fc afterSave) ∧
      (getDa 0 afterTrap.cpu = 5 ∧ getDa 0 (opMovemErPi .long ⟨0x4cdf, 0⟩ afterTrap).2.cpu = 0x12345678) ∧
      Returned 0x11a inSave inTrap (opRte ⟨0x4e73, 0⟩ inTrap).2 := by
  have hcall : Calls frameStart 0x102 (opBsr8 ⟨0x610e, 0⟩ frameStart).2 := .bsr8 _ _
  refine ⟨?_, ?_, ?_, ⟨by decide +kernel, ?_⟩, ?_⟩
  · exact (nested_frames _).1 _ _ (.call hcall frame_call.2 frame_subroutine)
  · exact (nested_frames _).2.1 _ _ _ _ hcall frame_call.2 frame_subroutine
  · have hunlk := (nested_frames callUses).2.2.1 _ _ _ ⟨0x4e5e, 0⟩ frame_link.2 frame_body frame_register
    have hy : Insn.y ⟨0x4e56, 0⟩ = 6 := by decide
    have ha : inCall.cpu.a 6 = 0x900 ∧ inCall.cpu.a 7 = 0x7fc := by decide +kernel
    rwa [hy, ha.1, ha.2] at hunlk
  · have hmovem := (nested_frames linkUses).2.2.2.1 .long _ _ _ _ _ _ frame_save.2 frame_registers frame_list 0
      (by decide)
    have hd : makeInt .long (maskOutAbove .long (getDa 0 inLink.cpu)) = 0x12345678 := by decide +kernel
    have hin : (0 : Fin 16) ∈ listed 3 := by decide
    rw [if_pos hin, hd] at hmovem
    exact hmovem
  · exact (nested_frames saveUses).2.2.2.2 _ _ _ _ _ frame_trap frame_handler

end Program

end Nesting

end Tosemu.M68k
