import Tosemu.BssSegment

/-!
The command line in the basepage: `copy_cmdlin` writes a blank in front of every argument, and at last
the length over the first blank.
-/

namespace Tosemu

section Copy

variable {argv : List (List Byte)} {dest : ℕ → Byte} {n : ℕ}

def spaced (argv : List (List Byte)) : List Byte := argv.flatMap (fun arg => 0x20 :: arg)

def joined (argv : List (List Byte)) : List Byte := [(0x20 : Byte)].intercalate argv

theorem spaced_eq (h : argv ≠ []) : spaced argv = 0x20 :: joined argv := by
  induction argv with
  | nil => exact absurd rfl h
  | cons arg argv ih =>
    cases argv with
    | nil => simp [spaced, joined, List.intercalate]
    | cons arg' argv =>
      have hs : spaced (arg :: arg' :: argv) = 0x20 :: arg ++ spaced (arg' :: argv) := rfl
      rw [hs, ih (List.cons_ne_nil _ _)]
      simp [joined, List.intercalate]

theorem strcpy_blank (dest : ℕ → Byte) (n : ℕ) (arg : List Byte) :
    strcpy (Function.update dest n 0x20) (n + 1) arg = strcpy dest n (0x20 :: arg) := by
  funext i
  unfold strcpy
  rcases Nat.lt_trichotomy i n with hi | rfl | hi
  · rw [if_neg (by omega), if_neg (by omega), Function.update_of_ne (by omega)]
  · rw [if_neg (by omega), if_pos le_rfl, Function.update_self, Nat.sub_self]
    rfl
  · have hsub : i - n = i - (n + 1) + 1 := by omega
    rw [if_pos (by omega), if_pos (by omega), Function.update_of_ne (by omega), hsub]
    rfl

theorem strcpy_append (dest : ℕ → Byte) (n : ℕ) (s s' : List Byte) :
    strcpy (strcpy dest n s) (n + s.length) s' = strcpy dest n (s ++ s') := by
  funext i
  unfold strcpy
  by_cases hn : n ≤ i
  · rw [if_pos hn, if_pos hn, List.append_assoc]
    by_cases hs : n + s.length ≤ i
    · have hright : (s ++ (s' ++ [0]))[i - n]? = (s' ++ [0])[i - (n + s.length)]? := by
        rw [List.getElem?_append_right (by omega), Nat.sub_sub]
      rw [if_pos hs, hright]
      cases hb : (s' ++ [0])[i - (n + s.length)]? with
      | some b => rfl
      | none =>
        have hlen := List.getElem?_eq_none_iff.mp hb
        rw [List.length_append, List.length_singleton] at hlen
        rw [List.getElem?_eq_none (by rw [List.length_append, List.length_singleton]; omega)]
        rfl
    · rw [if_neg hs, List.getElem?_append_left (by omega), List.getElem?_append_left (by omega)]
  · rw [if_neg (by omega), if_neg hn, if_neg hn]

theorem copyArgs_eq (h : argv ≠ []) (n : ℕ) (dest : ℕ → Byte) :
    copyArgs argv n dest = (n + (spaced argv).length, strcpy dest n (spaced argv)) := by
  induction argv generalizing n dest with
  | nil => exact absurd rfl h
  | cons arg argv ih =>
    have hspaced : spaced (arg :: argv) = (0x20 :: arg) ++ spaced argv := rfl
    have hlen : n + 1 + arg.length = n + ((0x20 : Byte) :: arg).length := by
      rw [List.length_cons]
      omega
    rw [copyArgs, strcpy_blank, hlen]
    cases argv with
    | nil => simp [copyArgs, spaced]
    | cons arg' argv =>
      rw [ih (List.cons_ne_nil _ _), strcpy_append, hspaced, List.length_append, Nat.add_assoc]

theorem copyCmdlin_eq (h : argv ≠ []) (dest : ℕ → Byte) :
    copyCmdlin argv dest = Function.update (strcpy dest 0 (0x20 :: joined argv)) 0
      (BitVec.ofNat 8 (joined argv).length) := by
  have hlen : ((0 + ((0x20 : Byte) :: joined argv).length : ℕ) : Int) - 1 = (joined argv).length := by
    rw [List.length_cons]
    omega
  simp only [copyCmdlin, copyArgs_eq h, spaced_eq h, hlen, BitVec.ofInt_natCast]

theorem copyCmdlin_zero (h : argv ≠ []) (dest : ℕ → Byte) :
    copyCmdlin argv dest 0 = BitVec.ofNat 8 (joined argv).length := by
  rw [copyCmdlin_eq h, Function.update_self]

theorem copyCmdlin_succ (h : argv ≠ []) (dest : ℕ → Byte) (i : ℕ) :
    copyCmdlin argv dest (i + 1) = (joined argv ++ [0])[i]?.getD (dest (i + 1)) := by
  rw [copyCmdlin_eq h, Function.update_of_ne (Nat.succ_ne_zero i)]
  rfl

theorem copyCmdlin_of_le (h : argv ≠ []) (dest : ℕ → Byte) {i : ℕ} (hi : (joined argv).length + 2 ≤ i) :
    copyCmdlin argv dest i = dest i := by
  obtain ⟨j, rfl⟩ : ∃ j, i = j + 1 := ⟨i - 1, by omega⟩
  rw [copyCmdlin_succ h, List.getElem?_eq_none (by rw [List.length_append, List.length_singleton]; omega)]
  rfl

theorem joined_noNul (h : ∀ arg ∈ argv, (0 : Byte) ∉ arg) : (0 : Byte) ∉ joined argv := by
  by_cases hempty : argv = []
  · rw [hempty]
    exact List.not_mem_nil
  · intro hmem
    have hspaced : (0 : Byte) ∈ spaced argv := by
      rw [spaced_eq hempty]
      exact List.mem_cons_of_mem _ hmem
    obtain ⟨arg, harg, h0⟩ := List.mem_flatMap.mp hspaced
    exact h arg harg ((List.mem_cons.mp h0).resolve_left (by decide))

end Copy

section Field

def cmdlinSize : ℕ := 128

/-- The characters of the field: what stands behind the length byte and in front of the first zero. -/
def cmdlinChars (field : ℕ → Byte) : List Byte :=
  ((List.range (cmdlinSize - 1)).map (fun i => field (i + 1))).takeWhile (fun c => c ≠ 0)

variable {argv : List (List Byte)} {dest : ℕ → Byte}

theorem cmdlinChars_eq (hne : argv ≠ []) (hnul : ∀ arg ∈ argv, (0 : Byte) ∉ arg)
    (hlen : (joined argv).length ≤ 126) (hdest : ∀ i < cmdlinSize, dest i = 0) :
    cmdlinChars (copyCmdlin argv dest) = joined argv := by
  have hrest : (List.range (cmdlinSize - 1)).map (fun i => copyCmdlin argv dest (i + 1)) =
      joined argv ++ List.replicate (127 - (joined argv).length) 0 := by
    apply List.ext_getElem (by simp [cmdlinSize]; omega)
    intro i hi _
    have hi : i < 127 := by simpa [cmdlinSize] using hi
    rw [List.getElem_map, List.getElem_range, copyCmdlin_succ hne]
    by_cases hin : i < (joined argv).length
    · rw [List.getElem?_append_left hin, List.getElem_append_left hin, List.getElem?_eq_getElem hin]
      rfl
    · rw [List.getElem_append_right (by omega), List.getElem_replicate,
        List.getElem?_append_right (by omega), hdest (i + 1) (by simp only [cmdlinSize]; omega)]
      cases i - (joined argv).length <;> rfl
  have hall : ∀ c ∈ joined argv, decide (c ≠ 0) = true := fun c hc =>
    decide_eq_true (fun h0 => joined_noNul hnul (h0 ▸ hc))
  rw [cmdlinChars, hrest, List.takeWhile_append_of_pos hall]
  obtain ⟨k, hk⟩ : ∃ k, 127 - (joined argv).length = k + 1 := ⟨126 - (joined argv).length, by omega⟩
  rw [hk, List.replicate_succ, List.takeWhile_cons_of_neg (by decide), List.append_nil]

structure FitsField (argv : List (List Byte)) : Prop where
  inside : ∀ (dest : ℕ → Byte) (i : ℕ), cmdlinSize ≤ i → copyCmdlin argv dest i = dest i
  length : ∀ dest : ℕ → Byte, (∀ i < cmdlinSize, dest i = 0) →
    (copyCmdlin argv dest 0).toNat = (cmdlinChars (copyCmdlin argv dest)).length

theorem no_arguments_length (dest : ℕ → Byte) : copyCmdlin [] dest 0 = 0xff := by
  rw [copyCmdlin, Function.update_self]
  rfl

theorem not_fitsField_nil : ¬ FitsField [] := by
  intro h
  have hlen := h.length (fun _ => 0) (fun _ _ => rfl)
  rw [no_arguments_length] at hlen
  revert hlen
  decide +kernel

theorem cmdline_fits_iff (argv : List (List Byte)) (hnul : ∀ arg ∈ argv, (0 : Byte) ∉ arg) :
    FitsField argv ↔ argv ≠ [] ∧ (joined argv).length ≤ 126 := by
  constructor
  · intro h
    have hne : argv ≠ [] := by
      rintro rfl
      exact not_fitsField_nil h
    refine ⟨hne, ?_⟩
    -- the terminating zero is the last byte written
    by_contra hlong
    have hin := h.inside (fun _ => 1) ((joined argv).length + 1) (by simp only [cmdlinSize]; omega)
    rw [copyCmdlin_succ hne, List.getElem?_concat_length] at hin
    exact absurd hin (by decide)
  · rintro ⟨hne, hlen⟩
    constructor
    · intro dest i hi
      exact copyCmdlin_of_le hne dest ((Nat.add_le_add_right hlen 2).trans hi)
    · intro dest hdest
      rw [cmdlinChars_eq hne hnul hlen hdest, copyCmdlin_zero hne, BitVec.toNat_ofNat,
        Nat.mod_eq_of_lt (by omega)]

theorem cmdline_fits_two : FitsField [[0x61], [0x62, 0x63]] :=
  (cmdline_fits_iff [[0x61], [0x62, 0x63]] (by decide)).mpr ⟨by decide, by decide⟩

/-- An argument of 127 bytes ends behind the field, and without arguments the length byte is 255. -/
theorem cmdline_overflow : ¬ FitsField [List.replicate 127 0x61] ∧ ¬ FitsField [] := by
  refine ⟨fun h => ?_, fun h => ?_⟩
  · have hin := h.inside (fun _ => 1) 128 le_rfl
    revert hin
    decide +kernel
  · have hlen := h.length (fun _ => 0) (fun _ _ => rfl)
    revert hlen
    decide +kernel

end Field

section Guest

variable {te : TosEnvironment} {argv : List (List Byte)} {heap : Heap} {appmem : ℕ → Byte}

def cmdlinByte (i : ℕ) (m : Machine) : Byte :=
  (m68kReadMemory8 (BitVec.ofNat 32 (0x880 + i)) m).1.setWidth 8

def guestCmdline (m : Machine) : List Byte :=
  (List.range (cmdlinByte 0 m).toNat).map (fun i => cmdlinByte (i + 1) m)

@[simp] theorem guestCmdline_length (m : Machine) : (guestCmdline m).length = (cmdlinByte 0 m).toNat := by
  rw [guestCmdline, List.length_map, List.length_range]

theorem cmdlinByte_eq {host : Endian} {m : Machine}
    (hm : m.memory = (mapEnvironment host heap te argv appmem).memory) {i : ℕ} (hi : i < cmdlinSize) :
    cmdlinByte i m = copyCmdlin argv (fun _ => 0) i := by
  have hi : i < 128 := hi
  obtain ⟨hb, hf⟩ := registerAreas_basepage _ hm (i := 128 + i) (by omega)
  rw [← Nat.add_assoc] at hb hf
  have hr := Readable.of_readwrite (by rw [hb]; rfl) hf
  rw [cmdlinByte, m68kReadMemory8, m68kReadDisassembler8, tosRead, tosReadWith_readable _ hr, hb]
  simp only [Option.getD_some, Basepage.bytes]
  rw [if_neg (by omega), dif_neg (by omega), Nat.add_sub_cancel_left, BitVec.setWidth_setWidth_of_le _ (by decide),
    BitVec.setWidth_eq]
  rfl

theorem command_line_read_iff (host : Endian) (heap : Heap) (te : TosEnvironment)
    (argv : List (List Byte)) (appmem : ℕ → Byte) (m : Machine)
    (hm : m.memory = (mapEnvironment host heap te argv appmem).memory)
    (hlen : (joined argv).length ≤ 126) :
    (guestCmdline m = joined argv ∧ cmdlinByte ((joined argv).length + 1) m = 0) ↔ argv ≠ [] := by
  have hzero := cmdlinByte_eq hm (i := 0) (by decide)
  constructor
  · rintro ⟨hread, -⟩ rfl
    have hlength := congrArg List.length hread
    rw [guestCmdline_length, hzero, no_arguments_length] at hlength
    exact absurd hlength (by decide)
  · intro hne
    have hcount : (cmdlinByte 0 m).toNat = (joined argv).length := by
      rw [hzero, copyCmdlin_zero hne, BitVec.toNat_ofNat, Nat.mod_eq_of_lt (by omega)]
    have hbyte : ∀ i ≤ (joined argv).length,
        cmdlinByte (i + 1) m = (joined argv ++ [0])[i]?.getD 0 := by
      intro i hi
      rw [cmdlinByte_eq hm (show i + 1 < 128 by omega), copyCmdlin_succ hne]
    constructor
    · apply List.ext_getElem (by rw [guestCmdline_length, hcount])
      intro i hi hi'
      simp only [guestCmdline, List.getElem_map, List.getElem_range]
      rw [hbyte i (by omega), List.getElem?_append_left hi', List.getElem?_eq_getElem hi']
      rfl
    · rw [hbyte _ le_rfl, List.getElem?_concat_length]
      rfl

theorem command_line_read_two :
    let m := mapEnvironment .little emptyHeap (fileEnvironment .little bareHeader none) [[0x61], [0x62]]
      (fun _ => 0)
    guestCmdline m = [0x61, 0x20, 0x62] := by
  intro m
  exact ((command_line_read_iff .little emptyHeap _ [[0x61], [0x62]] _ m rfl (by decide)).mpr (by decide)).1

theorem no_command_line_read :
    guestCmdline (mapEnvironment .little emptyHeap (fileEnvironment .little bareHeader none) [] (fun _ => 0)) ≠
      joined [] := by
  decide +kernel

end Guest

end Tosemu
