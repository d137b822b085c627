import Mathlib.Data.List.TakeWhile
import Mathlib.Tactic.IntervalCases
import Tosemu.OpcodeTable
import Tosemu.Overlay

/-!
From the table to the jump table: `m68kmake` turns each row into an entry for every condition and
addressing mode, and sorts the entries by the number of bits they fix; `m68ki_build_opcode_table`
fills the slots of a mask at a time.
-/

namespace Tosemu.M68k

open Overlay

abbrev Word := BitVec 16

structure OpcodeEntry where
  opMask : Word
  opMatch : Word
  handler : OpcodeHandler

section Make

/-- `g_ea_info_table` -/
def eaMask : Ea → Word
  | .ai | .pi | .pd | .di | .ix => 0x38
  | .pi7 | .pd7 | .aw | .al | .pcdi | .pcix | .i => 0x3f

def eaMatch : Ea → Word
  | .ai => 0x10
  | .pi => 0x18
  | .pi7 => 0x1f
  | .pd => 0x20
  | .pd7 => 0x27
  | .di => 0x28
  | .ix => 0x30
  | .aw => 0x38
  | .al => 0x39
  | .pcdi => 0x3a
  | .pcix => 0x3b
  | .i => 0x3c

/-- `g_cc_table` without T and F. -/
def ccTable : List (Cc × Word) :=
  [(.hi, 2), (.ls, 3), (.cc, 4), (.cs, 5), (.ne, 6), (.eq, 7), (.vc, 8), (.vs, 9), (.pl, 10), (.mi, 11),
    (.ge, 12), (.lt, 13), (.gt, 14), (.le, 15)]

def chars (s : String) : List UInt8 := s.toByteArray.data.toList

/-- One bit of a pattern after the other, the highest first. -/
def patternBits (p : UInt8 → Bool) (bitpattern : String) : Word :=
  BitVec.ofNat 16 ((chars bitpattern).foldl (fun bits c => bits <<< 1 ||| (p c).toNat) 0)

def OpcodeStruct.opMask (op : OpcodeStruct) : Word := patternBits (· ≠ '.'.toUInt8) op.bitpattern

def OpcodeStruct.opMatch (op : OpcodeStruct) : Word := patternBits (· = '1'.toUInt8) op.bitpattern

/-- `HAS_EA_AI` to `HAS_EA_I`; a byte has modes of its own for the stack pointer. -/
def eaColumns (size : ℕ) : List (Char × List Ea) :=
  [('A', [.ai]), ('+', if size = 8 then [.pi, .pi7] else [.pi]),
    ('-', if size = 8 then [.pd, .pd7] else [.pd]), ('D', [.di]), ('X', [.ix]), ('W', [.aw]), ('L', [.al]),
    ('d', [.pcdi]), ('x', [.pcix]), ('I', [.i])]

def eaModes (size : ℕ) (eaAllowed : String) : List Ea :=
  ((chars eaAllowed).zip (eaColumns size)).flatMap fun c => if c.1 = c.2.1.toUInt8 then c.2.2 else []

/-- Where no mode is allowed there is no directive for one in the handler. -/
def generateOpcodeEaVariants (op : OpcodeStruct) (mask opMatch : Word) (k : Cc) : List OpcodeEntry :=
  if op.eaAllowed = ".........." then [⟨mask, opMatch, op.handler k .i⟩]
  else (eaModes op.size op.eaAllowed).map fun ea =>
    ⟨mask ||| eaMask ea, opMatch ||| eaMatch ea, op.handler k ea⟩

def generateOpcodeCcVariants (op : OpcodeStruct) : List OpcodeEntry :=
  ccTable.flatMap fun k =>
    generateOpcodeEaVariants op (op.opMask ||| 0x0f00) (op.opMatch &&& 0xf0ff ||| k.2.shiftLeft 8) k.1

def processOpcodeHandler (op : OpcodeStruct) : List OpcodeEntry :=
  if op.name ∈ ["bcc", "scc", "dbcc", "trapcc"] then generateOpcodeCcVariants op
  else generateOpcodeEaVariants op op.opMask op.opMatch .hi

def opcodeOutputTable : List OpcodeEntry := opcodeInputTable.flatMap processOpcodeHandler

def numBits (value : ℕ) : ℕ :=
  let value := (value &&& 0xaaaa) >>> 1 + (value &&& 0x5555)
  let value := (value &&& 0xcccc) >>> 2 + (value &&& 0x3333)
  let value := (value &&& 0xf0f0) >>> 4 + (value &&& 0x0f0f)
  (value &&& 0xff00) >>> 8 + (value &&& 0x00ff)

def compareNofTrueBits (a b : OpcodeEntry) : ℤ :=
  if numBits a.opMask.toNat ≠ numBits b.opMask.toNat then
    (numBits a.opMask.toNat : ℤ) - numBits b.opMask.toNat
  else if a.opMask ≠ b.opMask then (a.opMask.toNat : ℤ) - b.opMask.toNat
  else (a.opMatch.toNat : ℤ) - b.opMatch.toNat

end Make

section Build

abbrev InstructionJumpTable := Word → OpcodeHandler

def Matches (e : OpcodeEntry) (instr : Word) : Prop := instr &&& e.opMask = e.opMatch

instance (e : OpcodeEntry) (instr : Word) : Decidable (Matches e instr) :=
  inferInstanceAs (Decidable (_ = _))

def fillMatching (e : OpcodeEntry) (t : InstructionJumpTable) : InstructionJumpTable :=
  fun instr => if instr &&& e.opMask = e.opMatch then e.handler else t instr

def fillSlots (slots : List Word) (e : OpcodeEntry) (t : InstructionJumpTable) : InstructionJumpTable :=
  slots.foldl (fun t i => Function.update t (e.opMatch ||| i) e.handler) t

def lowSlots (n : ℕ) : List Word := (List.range n).map (BitVec.ofNat 16)

def xSlots : List Word := (lowSlots 8).map fun i => i.shiftLeft 9

def xySlots : List Word := xSlots.flatMap fun i => (lowSlots 8).map (i ||| ·)

/-- The masks that have a loop of their own, in the order of these loops. -/
def slotLoops : List (Word × List Word) :=
  [(0xff00, lowSlots 0x100), (0xf1f8, xySlots), (0xfff0, lowSlots 0x10), (0xf1ff, xSlots),
    (0xfff8, lowSlots 8), (0xffff, [0])]

def slotPasses : List (Word × List Word) → List OpcodeEntry → InstructionJumpTable →
    InstructionJumpTable × List OpcodeEntry
  | [], rows, t => (t, rows)
  | (mask, slots) :: loops, rows, t =>
    let r := pass (fun e => e.opMask = mask) (fillSlots slots) rows t
    slotPasses loops r.2 r.1

/-- The first loop looks for the mask `0xff00` alone, and would go on behind the table's end. -/
def buildOpcodeTable (table : List OpcodeEntry) : Option InstructionJumpTable :=
  let r := pass (fun e => e.opMask ≠ 0xff00) fillMatching table (fun _ => .run exceptionIllegal)
  if r.2.isEmpty then none
  else some (slotPasses slotLoops r.2 r.1).1

end Build

section Slots

def Covers (mask : Word) (slots : List Word) : Prop :=
  (∀ i ∈ slots, i &&& mask = 0) ∧ ∀ instr : Word, instr &&& ~~~mask ∈ slots

theorem foldl_update_mem (slots : List Word) (f : Word → Word) (h : OpcodeHandler)
    (t : InstructionJumpTable) (instr : Word) :
    slots.foldl (fun t i => Function.update t (f i) h) t instr =
      if ∃ i ∈ slots, instr = f i then h else t instr := by
  induction slots generalizing t with
  | nil => simp
  | cons i slots ih =>
    rw [List.foldl_cons, ih]
    by_cases hrest : ∃ j ∈ slots, instr = f j
    · obtain ⟨j, hj, hij⟩ := hrest
      rw [if_pos ⟨j, hj, hij⟩, if_pos ⟨j, List.mem_cons_of_mem _ hj, hij⟩]
    · rw [if_neg hrest]
      by_cases hi : instr = f i
      · rw [if_pos ⟨i, List.mem_cons_self, hi⟩, hi, Function.update_self]
      · rw [Function.update_of_ne hi, if_neg]
        rintro ⟨j, hj, hij⟩
        rcases List.mem_cons.mp hj with rfl | hj
        · exact hi hij
        · exact hrest ⟨j, hj, hij⟩

theorem masked_parts (instr mask : Word) : (instr &&& mask) ||| (instr &&& ~~~mask) = instr := by
  apply BitVec.eq_of_getLsbD_eq
  intro i hi
  rw [BitVec.getLsbD_or, BitVec.getLsbD_and, BitVec.getLsbD_and, BitVec.getLsbD_not, decide_eq_true hi]
  cases instr.getLsbD i <;> cases mask.getLsbD i <;> rfl

theorem fillSlots_eq {e : OpcodeEntry} {slots : List Word} (hc : Covers e.opMask slots)
    (he : e.opMatch &&& ~~~e.opMask = 0) (t : InstructionJumpTable) :
    fillSlots slots e t = lay Matches OpcodeEntry.handler e t := by
  have hmatch : e.opMatch &&& e.opMask = e.opMatch := by
    have hsplit := masked_parts e.opMatch e.opMask
    rw [he] at hsplit
    simpa using hsplit
  funext instr
  have hslot : (∃ i ∈ slots, instr = e.opMatch ||| i) ↔ Matches e instr := by
    constructor
    · rintro ⟨i, hi, rfl⟩
      rw [Matches, BitVec.and_or_distrib_right, hc.1 i hi, hmatch]
      simp
    · intro h
      refine ⟨instr &&& ~~~e.opMask, hc.2 instr, ?_⟩
      rw [← h, masked_parts]
  rw [fillSlots, foldl_update_mem, lay]
  simp only [hslot]

theorem mem_lowSlots {n : ℕ} {i : Word} (h : i.toNat < n) : i ∈ lowSlots n := by
  rw [lowSlots, List.mem_map]
  exact ⟨i.toNat, List.mem_range.mpr h, by simp⟩

theorem low_covers {k : ℕ} {mask : Word} (hm : ∀ i < 16, mask.getLsbD i = decide (k ≤ i)) :
    Covers mask (lowSlots (2 ^ k)) := by
  constructor
  · intro i hi
    obtain ⟨n, hn, rfl⟩ := List.mem_map.mp hi
    have hlt : n < 2 ^ k := List.mem_range.mp hn
    apply BitVec.eq_of_getLsbD_eq
    intro j hj
    have hzero : (0 : Word).getLsbD j = false := BitVec.getLsbD_zero
    rw [BitVec.getLsbD_and, hm j hj, BitVec.getLsbD_ofNat, hzero]
    by_cases hkj : k ≤ j
    · rw [Nat.testBit_lt_two_pow (hlt.trans_le (Nat.pow_le_pow_right (by decide) hkj)), Bool.and_false,
        Bool.false_and]
    · rw [decide_eq_false hkj, Bool.and_false]
  · intro instr
    apply mem_lowSlots
    apply Nat.lt_pow_two_of_testBit
    intro j hj
    rw [BitVec.testBit_toNat, BitVec.getLsbD_and, BitVec.getLsbD_not]
    by_cases hlt : j < 16
    · rw [hm j hlt, decide_eq_true hj]
      simp
    · rw [decide_eq_false hlt, Bool.false_and, Bool.and_false]

theorem x_part (instr : Word) : instr &&& ~~~(0xf1ff : Word) = ((instr >>> 9) &&& 7).shiftLeft 9 := by
  apply BitVec.eq_of_getLsbD_eq
  intro i hi
  interval_cases i <;> simp

theorem xy_part (instr : Word) :
    instr &&& ~~~(0xf1f8 : Word) = ((instr >>> 9) &&& 7).shiftLeft 9 ||| (instr &&& 7) := by
  apply BitVec.eq_of_getLsbD_eq
  intro i hi
  interval_cases i <;> simp

theorem mem_xSlots (instr : Word) : ((instr >>> 9) &&& 7).shiftLeft 9 ∈ xSlots := by
  apply List.mem_map_of_mem
  apply mem_lowSlots
  exact Nat.and_lt_two_pow _ (by decide : (7 : Word).toNat < 2 ^ 3)

theorem slotLoops_cover : ∀ l ∈ slotLoops, Covers l.1 l.2 := by
  have hfixed {mask : Word} {slots : List Word} (h : (slots.all fun i => i &&& mask = 0) = true) :
      ∀ i ∈ slots, i &&& mask = 0 := fun i hi => of_decide_eq_true (List.all_eq_true.mp h i hi)
  have hx : Covers 0xf1ff xSlots := by
    refine ⟨hfixed (by decide), fun instr => ?_⟩
    rw [x_part]
    exact mem_xSlots instr
  have hxy : Covers 0xf1f8 xySlots := by
    refine ⟨hfixed (by decide), fun instr => ?_⟩
    rw [xy_part]
    apply List.mem_flatMap.mpr
    refine ⟨_, mem_xSlots instr, List.mem_map_of_mem (mem_lowSlots ?_)⟩
    exact Nat.and_lt_two_pow _ (by decide : (7 : Word).toNat < 2 ^ 3)
  have hone : Covers 0xffff [0] := by
    refine ⟨hfixed (by decide), fun instr => ?_⟩
    rw [List.mem_singleton]
    exact BitVec.and_zero
  simp only [slotLoops, List.forall_mem_cons]
  exact ⟨low_covers (k := 8) (by decide), hxy, low_covers (k := 4) (by decide), hx,
    low_covers (k := 3) (by decide), hone, by simp⟩

end Slots

section Order

def opcodeMasks : List Word :=
  [0xf000, 0xf100, 0xf180, 0xf1c0, 0xff00, 0xf1f8, 0xfff0, 0xf1ff, 0xfff8, 0xffff]

def rank (mask : Word) : ℕ :=
  if mask ∈ slotLoops.map Prod.fst then (slotLoops.map Prod.fst).idxOf mask + 1 else 0

set_option maxRecDepth 100000 in
theorem outputTable_masks :
    ∀ e ∈ opcodeOutputTable, e.opMask ∈ opcodeMasks ∧ e.opMatch &&& ~~~e.opMask = 0 := by
  decide +kernel

theorem rank_mono {a b : Word} (ha : a ∈ opcodeMasks) (hb : b ∈ opcodeMasks)
    (h : numBits a.toNat < numBits b.toNat ∨ numBits a.toNat = numBits b.toNat ∧ a.toNat ≤ b.toNat) :
    rank a ≤ rank b := by
  have hall : (opcodeMasks.all fun a => opcodeMasks.all fun b =>
      (numBits a.toNat < numBits b.toNat ∨ numBits a.toNat = numBits b.toNat ∧ a.toNat ≤ b.toNat) →
        rank a ≤ rank b) = true := by decide +kernel
  exact of_decide_eq_true (List.all_eq_true.mp (List.all_eq_true.mp hall a ha) b hb) h

theorem compare_le_iff {a b : OpcodeEntry} : compareNofTrueBits a b ≤ 0 ↔
    numBits a.opMask.toNat < numBits b.opMask.toNat ∨ numBits a.opMask.toNat = numBits b.opMask.toNat ∧
      (a.opMask.toNat < b.opMask.toNat ∨
        a.opMask.toNat = b.opMask.toNat ∧ a.opMatch.toNat ≤ b.opMatch.toNat) := by
  have hmask : a.opMask = b.opMask ↔ a.opMask.toNat = b.opMask.toNat :=
    ⟨congrArg BitVec.toNat, BitVec.eq_of_toNat_eq⟩
  rw [compareNofTrueBits]
  split_ifs with hbits hne <;> (try rw [Ne, hmask] at hne) <;> omega

theorem compare_rank {a b : OpcodeEntry} (ha : a.opMask ∈ opcodeMasks) (hb : b.opMask ∈ opcodeMasks)
    (h : compareNofTrueBits a b ≤ 0) : rank a.opMask ≤ rank b.opMask := by
  apply rank_mono ha hb
  have := compare_le_iff.mp h
  omega

end Order

section Loops

def Progress (table : List OpcodeEntry) (k : ℕ) (r : InstructionJumpTable × List OpcodeEntry) : Prop :=
  (∃ done, table = done ++ r.2 ∧
    r.1 = overlay Matches OpcodeEntry.handler done fun _ => .run exceptionIllegal) ∧
  ∀ e ∈ r.2, k ≤ rank e.opMask

variable {table : List OpcodeEntry} {k : ℕ} {r : InstructionJumpTable × List OpcodeEntry}

theorem Progress.pass {p : OpcodeEntry → Bool} {write : OpcodeEntry → InstructionJumpTable → InstructionJumpTable}
    (h : Progress table k r) {k' : ℕ} (hd : ∀ e ∈ r.2.dropWhile p, k' ≤ rank e.opMask)
    (hw : ∀ e ∈ r.2, p e = true → ∀ t, write e t = lay Matches OpcodeEntry.handler e t) :
    Progress table k' (Overlay.pass p write r.2 r.1) := by
  obtain ⟨⟨done, htable, ht⟩, -⟩ := h
  rw [pass_eq]
  refine ⟨⟨done ++ r.2.takeWhile p, ?_, ?_⟩, hd⟩
  · rw [List.append_assoc, List.takeWhile_append_dropWhile, ← htable]
  · rw [overlay_append, ← ht, overlay]
    apply List.foldl_ext
    intro t e he
    exact hw e (List.takeWhile_sublist p |>.mem he) (List.mem_takeWhile_imp he) t

theorem Progress.sorted (h : Progress table k r)
    (hs : table.Pairwise fun a b => rank a.opMask ≤ rank b.opMask) :
    r.2.Pairwise fun a b => rank a.opMask ≤ rank b.opMask := by
  obtain ⟨⟨done, htable, -⟩, -⟩ := h
  exact (List.pairwise_append.mp (htable ▸ hs)).2.1

theorem Progress.mem (h : Progress table k r) : ∀ e ∈ r.2, e ∈ table := by
  obtain ⟨⟨done, htable, -⟩, -⟩ := h
  intro e he
  rw [htable]
  exact List.mem_append_right _ he

theorem slotPasses_progress {loops : List (Word × List Word)} (h : Progress table k r)
    (hs : table.Pairwise fun a b => rank a.opMask ≤ rank b.opMask)
    (hm : ∀ e ∈ table, e.opMask ∈ opcodeMasks ∧ e.opMatch &&& ~~~e.opMask = 0)
    (hl : ∀ j l, loops[j]? = some l → Covers l.1 l.2 ∧ ∀ mask ∈ opcodeMasks, mask = l.1 ↔ rank mask = k + j) :
    Progress table (k + loops.length) (slotPasses loops r.2 r.1) := by
  induction loops generalizing k r with
  | nil => exact h
  | cons l loops ih =>
    obtain ⟨mask, slots⟩ := l
    obtain ⟨hc, hrank⟩ := hl 0 _ rfl
    have hmem := h.mem
    have hstep : Progress table (k + 1) (pass (fun e => e.opMask = mask) (fillSlots slots) r.2 r.1) := by
      apply h.pass
      · apply rank_dropWhile (h.sorted hs) _ h.2
        intro e he
        rw [decide_eq_true_iff]
        exact hrank _ (hm e (hmem e he)).1
      · intro e he hp t
        have hp : e.opMask = mask := of_decide_eq_true hp
        exact fillSlots_eq (hp ▸ hc) (hm e (hmem e he)).2 t
    have hrest := ih hstep fun j l hj => by
      have := hl (j + 1) l hj
      rwa [show k + (j + 1) = k + 1 + j by omega] at this
    rwa [show k + 1 + loops.length = k + (loops.length + 1) by omega] at hrest

theorem first_progress (hs : table.Pairwise fun a b => rank a.opMask ≤ rank b.opMask)
    (hff : ∃ e ∈ table, e.opMask = 0xff00) :
    let r := pass (fun e : OpcodeEntry => e.opMask ≠ 0xff00) fillMatching table (fun _ => .run exceptionIllegal)
    Progress table 1 r ∧ r.2 ≠ [] := by
  have hstart : Progress table 0 (fun _ => .run exceptionIllegal, table) :=
    ⟨⟨[], rfl, rfl⟩, fun e _ => Nat.zero_le _⟩
  refine ⟨hstart.pass ?_ fun e _ _ t => rfl, ?_⟩
  · intro e he
    have hsort := hs.sublist (List.dropWhile_sublist fun e : OpcodeEntry => decide (e.opMask ≠ 0xff00))
    have hhead := List.head?_dropWhile_not (fun e : OpcodeEntry => decide (e.opMask ≠ 0xff00)) table
    revert he hsort hhead
    generalize table.dropWhile (fun e : OpcodeEntry => decide (e.opMask ≠ 0xff00)) = rest
    intro he hsort hhead
    cases rest with
    | nil => cases he
    | cons first rest =>
      have hmask : first.opMask = 0xff00 := by simpa using hhead
      have hone : 1 ≤ rank first.opMask := by
        rw [hmask]
        decide
      rcases List.mem_cons.mp he with rfl | he
      · exact hone
      · exact hone.trans ((List.pairwise_cons.mp hsort).1 e he)
  · obtain ⟨e, he, hmask⟩ := hff
    rw [pass_eq]
    intro hnil
    have hall := List.dropWhile_eq_nil_iff.mp hnil e he
    simp [hmask] at hall

theorem slotLoops_rank {j : ℕ} {l : Word × List Word} (hl : slotLoops[j]? = some l) {mask : Word}
    (hm : mask ∈ opcodeMasks) : mask = l.1 ↔ rank mask = 1 + j := by
  have hall : (slotLoops.zipIdx.all fun l => opcodeMasks.all fun mask =>
      mask = l.1.1 ↔ rank mask = 1 + l.2) = true := by decide +kernel
  have hmem : (l, j) ∈ slotLoops.zipIdx := List.mk_mem_zipIdx_iff_getElem?.mpr hl
  exact of_decide_eq_true (List.all_eq_true.mp (List.all_eq_true.mp hall _ hmem) mask hm)

theorem rank_le {mask : Word} (hm : mask ∈ opcodeMasks) : rank mask ≤ 6 := by
  have hall : (opcodeMasks.all fun mask => rank mask ≤ 6) = true := by decide +kernel
  exact of_decide_eq_true (List.all_eq_true.mp hall mask hm)

set_option maxRecDepth 100000 in
theorem outputTable_branch : ∃ e ∈ opcodeOutputTable, e.opMask = 0xff00 := by
  have hany : (opcodeOutputTable.any fun e => e.opMask = 0xff00) = true := by decide +kernel
  simpa using hany

theorem buildOpcodeTable_eq (hs : table.Pairwise fun a b => rank a.opMask ≤ rank b.opMask)
    (hm : ∀ e ∈ table, e.opMask ∈ opcodeMasks ∧ e.opMatch &&& ~~~e.opMask = 0)
    (hff : ∃ e ∈ table, e.opMask = 0xff00) : buildOpcodeTable table =
      some (overlay Matches OpcodeEntry.handler table fun _ => .run exceptionIllegal) := by
  obtain ⟨hfirst, hne⟩ := first_progress hs hff
  have hloops : ∀ j l, slotLoops[j]? = some l →
      Covers l.1 l.2 ∧ ∀ mask ∈ opcodeMasks, mask = l.1 ↔ rank mask = 1 + j := fun j l hl =>
    ⟨slotLoops_cover l (List.mem_of_getElem? hl), fun mask hmask => slotLoops_rank hl hmask⟩
  have hlast := slotPasses_progress hfirst hs hm hloops
  rw [buildOpcodeTable, if_neg (by simpa using hne)]
  generalize slotPasses slotLoops _ _ = r at hlast ⊢
  have hnil : r.2 = [] := by
    apply List.eq_nil_iff_forall_not_mem.mpr
    intro e he
    have hlow : 7 ≤ rank e.opMask := hlast.2 e he
    have hhigh := rank_le (hm e (hlast.mem e he)).1
    omega
  obtain ⟨⟨done, htable, ht⟩, -⟩ := hlast
  rw [hnil, List.append_nil] at htable
  rw [ht, htable]

theorem buildOpcodeTable_sorted (hp : table.Perm opcodeOutputTable)
    (hs : table.Pairwise fun a b => compareNofTrueBits a b ≤ 0) : buildOpcodeTable table =
      some (overlay Matches OpcodeEntry.handler table fun _ => .run exceptionIllegal) := by
  have hm : ∀ e ∈ table, e.opMask ∈ opcodeMasks ∧ e.opMatch &&& ~~~e.opMask = 0 :=
    fun e he => outputTable_masks e (hp.mem_iff.mp he)
  have hrank : table.Pairwise fun a b => rank a.opMask ≤ rank b.opMask :=
    hs.imp_of_mem fun ha hb h => compare_rank (hm _ ha).1 (hm _ hb).1 h
  obtain ⟨e, he, hmask⟩ := outputTable_branch
  exact buildOpcodeTable_eq hrank hm ⟨e, hp.mem_iff.mpr he, hmask⟩

end Loops

/-- Whatever order `qsort` gives to equal entries: a word gets the handler of the entry that fixes
the most of its bits, and the words that no entry matches are illegal instructions. -/
theorem jump_table_most_specific {table : List OpcodeEntry} (hp : table.Perm opcodeOutputTable)
    (hs : table.Pairwise fun a b => compareNofTrueBits a b ≤ 0) :
    ∃ t, buildOpcodeTable table = some t ∧ ∀ instr,
      (∀ e ∈ opcodeOutputTable, ¬ Matches e instr) ∧ t instr = .run exceptionIllegal ∨
      ∃ e ∈ opcodeOutputTable, Matches e instr ∧ t instr = e.handler ∧
        ∀ e' ∈ opcodeOutputTable, Matches e' instr → compareNofTrueBits e' e ≤ 0 := by
  refine ⟨_, buildOpcodeTable_sorted hp hs, fun instr => ?_⟩
  have hself (e : OpcodeEntry) : compareNofTrueBits e e ≤ 0 := by simp [compareNofTrueBits]
  rcases overlay_greatest Matches OpcodeEntry.handler _ hs instr with ⟨hnone, heq⟩ | ⟨e, he, hmatch, heq, hle⟩
  · exact Or.inl ⟨fun e he => hnone e (hp.mem_iff.mpr he), heq⟩
  · refine Or.inr ⟨e, hp.mem_iff.mp he, hmatch, heq, fun e' he' hmatch' => ?_⟩
    rcases hle e' (hp.mem_iff.mpr he') hmatch' with rfl | h
    · exact hself _
    · exact h

/-- The entries as `print_opcode_output_table` writes them. -/
def opcodeHandlerTable : List OpcodeEntry :=
  opcodeOutputTable.mergeSort fun a b => compareNofTrueBits a b ≤ 0

theorem handlerTable_sorted : opcodeHandlerTable.Pairwise fun a b => compareNofTrueBits a b ≤ 0 := by
  have htrans : ∀ a b c : OpcodeEntry, decide (compareNofTrueBits a b ≤ 0) = true →
      decide (compareNofTrueBits b c ≤ 0) = true → decide (compareNofTrueBits a c ≤ 0) = true := by
    intro a b c hab hbc
    rw [decide_eq_true_iff, compare_le_iff] at *
    omega
  have htotal : ∀ a b : OpcodeEntry,
      (decide (compareNofTrueBits a b ≤ 0) || decide (compareNofTrueBits b a ≤ 0)) = true := by
    intro a b
    rw [Bool.or_eq_true, decide_eq_true_iff, decide_eq_true_iff, compare_le_iff, compare_le_iff]
    omega
  exact (List.pairwise_mergeSort htrans htotal opcodeOutputTable).imp fun h => of_decide_eq_true h

theorem jump_table_most_specific_sorted :
    ∃ t, buildOpcodeTable opcodeHandlerTable = some t ∧ ∀ instr,
      (∀ e ∈ opcodeOutputTable, ¬ Matches e instr) ∧ t instr = .run exceptionIllegal ∨
      ∃ e ∈ opcodeOutputTable, Matches e instr ∧ t instr = e.handler ∧
        ∀ e' ∈ opcodeOutputTable, Matches e' instr → compareNofTrueBits e' e ≤ 0 :=
  jump_table_most_specific (List.mergeSort_perm _ _) handlerTable_sorted

end Tosemu.M68k
