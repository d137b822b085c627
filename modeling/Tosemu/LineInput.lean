import Mathlib.Data.List.TakeWhile
import Tosemu.PathReport

/-!
`Cconrs`: a line of the standard input in a local buffer whose first contents are unknown.
-/

namespace Tosemu.Console

open Gemdos (Accessible)

def newline : Byte := 0x0a

abbrev LocalBuffer := Vector Byte 257

def getline : ℕ → List Byte → List Byte
  | 0, _ => []
  | _ + 1, [] => []
  | n + 1, c :: s => if c = newline then [c] else c :: getline n s

/-- The buffer after `fgets`, and what is left to read. Nothing is stored at the end of the file. -/
def fgets (buf : List Byte) (size : ℕ) (stdin : List Byte) : List Byte × List Byte :=
  if size = 0 then (buf, stdin)
  else if size = 1 then (0 :: buf.drop 1, stdin)
  else
    let line := getline (size - 1) stdin
    if line = [] then (buf, stdin) else (line ++ 0 :: buf.drop (line.length + 1), stdin.drop line.length)

/-- Nothing comes back where it would run out of the buffer. -/
def strlen : List Byte → Option ℕ
  | [] => none
  | c :: buf => if c = 0 then some 0 else (strlen buf).map Nat.succ

def removeNewline (buf : List Byte) (len : ℕ) : List Byte × ℕ :=
  if 0 < len ∧ buf[len - 1]? = some newline then (buf.set (len - 1) 0, len - 1) else (buf, len)

def truncateLine (maxlen : ℕ) (buf : List Byte) (len : ℕ) : List Byte × ℕ :=
  if maxlen < len then (buf.set maxlen 0, maxlen) else (buf, len)

/-- A character is stored before the one behind it is looked at. -/
def copyLine (lineptr : Long) : List Byte → Machine → Option Machine
  | c :: c' :: ptr, m =>
    let m := m68kWriteMemory8 lineptr (c.setWidth 32) m
    if c' = 0 then some m else copyLine (lineptr + 1) (c' :: ptr) m
  | _, _ => none

def copied : List Byte → Option (List Byte)
  | c :: c' :: ptr => if c' = 0 then some [c] else (copied (c' :: ptr)).map (fun w => c :: w)
  | _ => none

/-- The result, the input left, and the machine; nothing if the local buffer is left behind. -/
def gemdosCconrs (init : LocalBuffer) (stdin : List Byte) (lineptr : Long) (m : Machine) :
    Option (Long × List Byte × Machine) :=
  let r := m68kReadMemory8 lineptr m
  let maxlen := (r.1.setWidth 8 : Byte).toNat
  let got := fgets init.toList maxlen stdin
  (strlen got.1).bind fun len =>
    let line := removeNewline got.1 len
    let line := truncateLine maxlen line.1 line.2
    let m := m68kWriteMemory8 (lineptr + 1) (BitVec.ofNat 32 line.2) r.2
    (copyLine (lineptr + 2) line.1 m).map (fun m => (0, got.2, m))

def nextLine (stdin : List Byte) : List Byte := stdin.takeWhile (fun c => c ≠ newline)

structure LineStored (lineptr : Long) (maxlen : ℕ) (text : List Byte) (m m' : Machine) : Prop where
  actual : memByte m'.memory (lineptr + 1) = some (BitVec.ofNat 8 (min maxlen text.length))
  chars : ∀ k < min maxlen text.length,
    memByte m'.memory (lineptr + 2 + BitVec.ofNat 32 k) = text[k]?
  rest : ∀ k, text.length ≤ k → k < maxlen →
    memByte m'.memory (lineptr + 2 + BitVec.ofNat 32 k) = memByte m.memory (lineptr + 2 + BitVec.ofNat 32 k)
  beyond : ∀ k, 2 + maxlen ≤ k → k < 2 ^ 32 →
    memByte m'.memory (lineptr + BitVec.ofNat 32 k) = memByte m.memory (lineptr + BitVec.ofNat 32 k)

def StoresLine (stdin : List Byte) (lineptr : Long) (m : Machine) : Prop :=
  ∀ init, ∃ left m', gemdosCconrs init stdin lineptr m = some (0, left, m') ∧
    LineStored lineptr (readByte m lineptr).toNat (nextLine stdin) m m'

section Input

variable {n : ℕ} {stdin : List Byte}

theorem newline_notMem_nextLine (stdin : List Byte) : newline ∉ nextLine stdin := by
  intro hmem
  simpa using List.mem_takeWhile_imp hmem

theorem getline_cases (n : ℕ) (stdin : List Byte) :
    getline n stdin = nextLine stdin ++ [newline] ∧ (nextLine stdin).length < n ∨
      getline n stdin = (nextLine stdin).take n ∧ (nextLine stdin = [] → n = 0 ∨ stdin = []) := by
  induction n generalizing stdin with
  | zero => exact Or.inr ⟨rfl, fun _ => Or.inl rfl⟩
  | succ n ih =>
    cases stdin with
    | nil => exact Or.inr ⟨rfl, fun _ => Or.inr rfl⟩
    | cons c s =>
      by_cases hc : c = newline
      · subst hc
        have hline : nextLine (newline :: s) = [] := List.takeWhile_cons_of_neg (by simp)
        rw [hline, getline, if_pos rfl]
        exact Or.inl ⟨rfl, Nat.succ_pos n⟩
      · have hline : nextLine (c :: s) = c :: nextLine s := List.takeWhile_cons_of_pos (by simpa using hc)
        rw [hline, getline, if_neg hc]
        rcases ih s with ⟨hget, hlt⟩ | ⟨hget, -⟩
        · rw [hget]
          exact Or.inl ⟨rfl, Nat.succ_lt_succ hlt⟩
        · rw [hget]
          exact Or.inr ⟨rfl, fun h => absurd h (List.cons_ne_nil c _)⟩

theorem getline_ne_nil (hn : n ≠ 0) (hs : stdin ≠ []) : getline n stdin ≠ [] := by
  obtain ⟨n, rfl⟩ := Nat.exists_eq_succ_of_ne_zero hn
  obtain ⟨c, s, rfl⟩ := List.exists_cons_of_ne_nil hs
  rw [getline]
  split_ifs <;> exact List.cons_ne_nil _ _

theorem strlen_append (s rest : List Byte) :
    strlen (s ++ 0 :: rest) = some (s.takeWhile (fun c => c ≠ 0)).length := by
  induction s with
  | nil => rfl
  | cons c s ih =>
    rw [List.cons_append, strlen]
    by_cases hc : c = 0
    · rw [if_pos hc, List.takeWhile_cons_of_neg (by simpa using hc)]
      rfl
    · rw [if_neg hc, ih, List.takeWhile_cons_of_pos (by simpa using hc)]
      rfl

theorem strlen_none {buf : List Byte} (h : 0 ∉ buf) : strlen buf = none := by
  induction buf with
  | nil => rfl
  | cons c buf ih =>
    obtain ⟨hc, hbuf⟩ := not_or.mp (List.mem_cons.not.mp h)
    rw [strlen, if_neg (Ne.symm hc), ih hbuf]
    rfl

theorem takeWhile_nonzero {s : List Byte} (h : 0 ∉ s) : s.takeWhile (fun c => c ≠ 0) = s := by
  rw [List.takeWhile_eq_self_iff]
  intro c hc
  have hne : c ≠ 0 := fun h0 => h (h0 ▸ hc)
  simpa using hne

theorem removeNewline_none {buf : List Byte} {len : ℕ} (h : newline ∉ buf.take len) :
    removeNewline buf len = (buf, len) := by
  rw [removeNewline, if_neg]
  rintro ⟨hpos, hlast⟩
  apply h
  have hin : (buf.take len)[len - 1]? = some newline := by
    rw [List.getElem?_take_of_lt (by omega)]
    exact hlast
  exact List.mem_of_getElem? hin

theorem removeNewline_last (s rest : List Byte) :
    removeNewline (s ++ newline :: rest) (s.length + 1) = (s ++ 0 :: rest, s.length) := by
  have hlast : (s ++ newline :: rest)[s.length]? = some newline := by simp
  rw [removeNewline, Nat.add_sub_cancel, if_pos ⟨Nat.succ_pos _, hlast⟩, List.set_append_right _ _ le_rfl,
    Nat.sub_self]
  rfl

def counted (n : ℕ) (stdin : List Byte) : List Byte := ((nextLine stdin).take n).takeWhile (fun c => c ≠ 0)

theorem fgets_line {size : ℕ} (hsize : 2 ≤ size) (hs : stdin ≠ []) (buf : List Byte) :
    ∃ rest, (fgets buf size stdin).1 = getline (size - 1) stdin ++ 0 :: rest := by
  rw [fgets, if_neg (by omega), if_neg (by omega)]
  dsimp only
  rw [if_neg (getline_ne_nil (by omega) hs)]
  exact ⟨_, rfl⟩

theorem takeWhile_newline {s : List Byte} (h : 0 ∈ s) :
    (s ++ [newline]).takeWhile (fun c => c ≠ 0) = s.takeWhile (fun c => c ≠ 0) := by
  rw [List.takeWhile_append, if_neg]
  intro hlen
  have hall : s.takeWhile (fun c => c ≠ 0) = s := (List.takeWhile_prefix _).eq_of_length hlen
  rw [List.takeWhile_eq_self_iff] at hall
  simpa using hall 0 h

theorem line_length {size : ℕ} (hsize : 2 ≤ size) (hs : stdin ≠ []) (buf : List Byte) :
    ∃ len, strlen (fgets buf size stdin).1 = some len ∧
      (removeNewline (fgets buf size stdin).1 len).2 = (counted (size - 1) stdin).length := by
  obtain ⟨rest, hbuf⟩ := fgets_line hsize hs buf
  have hnone := newline_notMem_nextLine stdin
  refine ⟨_, by rw [hbuf, strlen_append], ?_⟩
  rw [hbuf, counted]
  rcases getline_cases (size - 1) stdin with ⟨hget, hlt⟩ | ⟨hget, -⟩
  · rw [hget, List.take_of_length_le hlt.le]
    by_cases hzero : 0 ∈ nextLine stdin
    · rw [takeWhile_newline hzero, removeNewline_none]
      rw [List.append_assoc, List.take_append_of_le_length (List.takeWhile_prefix _).length_le]
      exact fun hmem => hnone (List.mem_of_mem_take hmem)
    · have hno : 0 ∉ nextLine stdin ++ [newline] := by
        rw [List.mem_append, not_or]
        exact ⟨hzero, by decide⟩
      rw [takeWhile_nonzero hno, takeWhile_nonzero hzero, List.append_assoc, List.length_append]
      exact congrArg Prod.snd (removeNewline_last (nextLine stdin) (0 :: rest))
  · rw [hget, removeNewline_none]
    rw [List.take_append_of_le_length (List.takeWhile_prefix _).length_le]
    exact fun hmem => hnone (List.mem_of_mem_take (List.mem_of_mem_take hmem))

theorem line_text {size : ℕ} (hsize : 2 ≤ size) (hs : stdin ≠ []) (hzero : 0 ∉ nextLine stdin)
    (hlen : (nextLine stdin).length < size) (buf : List Byte) :
    ∃ len rest, strlen (fgets buf size stdin).1 = some len ∧
      removeNewline (fgets buf size stdin).1 len = (nextLine stdin ++ 0 :: rest, (nextLine stdin).length) ∧
      (nextLine stdin = [] → rest.head? = some 0) := by
  obtain ⟨rest, hbuf⟩ := fgets_line hsize hs buf
  rw [hbuf]
  rcases getline_cases (size - 1) stdin with ⟨hget, -⟩ | ⟨hget, hempty⟩
  · have hno : 0 ∉ nextLine stdin ++ [newline] := by
      rw [List.mem_append, not_or]
      exact ⟨hzero, by decide⟩
    refine ⟨_, 0 :: rest, strlen_append _ rest, ?_, fun _ => rfl⟩
    rw [hget, takeWhile_nonzero hno, List.append_assoc, List.length_append]
    exact removeNewline_last (nextLine stdin) (0 :: rest)
  · have hall : getline (size - 1) stdin = nextLine stdin := by
      rw [hget]
      exact List.take_of_length_le (by omega)
    refine ⟨_, rest, strlen_append _ rest, ?_, fun hnil => ?_⟩
    · rw [hall, takeWhile_nonzero hzero, removeNewline_none]
      rw [List.take_left]
      exact newline_notMem_nextLine stdin
    · rcases hempty hnil with h0 | h0
      · omega
      · exact absurd h0 hs

end Input

section Copy

theorem copied_text {s : List Byte} (hs : s ≠ []) (hzero : 0 ∉ s) (rest : List Byte) :
    copied (s ++ 0 :: rest) = some s := by
  induction s with
  | nil => exact absurd rfl hs
  | cons c s ih =>
    obtain ⟨-, hrest⟩ := not_or.mp (List.mem_cons.not.mp hzero)
    cases s with
    | nil => rfl
    | cons c' s =>
      obtain ⟨hc', -⟩ := not_or.mp (List.mem_cons.not.mp hrest)
      rw [List.cons_append, List.cons_append, copied, if_neg (Ne.symm hc'), ← List.cons_append,
        ih (List.cons_ne_nil c' s) hrest]
      rfl

theorem copied_none {c : Byte} {s : List Byte} (hzero : 0 ∉ s) : copied (c :: s) = none := by
  induction s generalizing c with
  | nil => rfl
  | cons c' s ih =>
    obtain ⟨hc', hrest⟩ := not_or.mp (List.mem_cons.not.mp hzero)
    rw [copied, if_neg (Ne.symm hc'), ih hrest]
    rfl

theorem copyLine_copied (lineptr : Long) (s : List Byte) (m : Machine) :
    copyLine lineptr s m = (copied s).map (fun w => File.copyOut lineptr w m) := by
  induction s generalizing lineptr m with
  | nil => rfl
  | cons c s ih =>
    cases s with
    | nil => rfl
    | cons c' s =>
      by_cases hc' : c' = 0
      · have hstep : copyLine lineptr (c :: c' :: s) m =
            some (m68kWriteMemory8 lineptr (c.setWidth 32) m) := if_pos hc'
        rw [hstep, copied, if_pos hc']
        rfl
      · have hstep : copyLine lineptr (c :: c' :: s) m =
            copyLine (lineptr + 1) (c' :: s) (m68kWriteMemory8 lineptr (c.setWidth 32) m) := if_neg hc'
        rw [hstep, ih, copied, if_neg hc', Option.map_map]
        rfl

theorem copied_length {s w : List Byte} (h : copied s = some w) : w.length < s.length := by
  induction s generalizing w with
  | nil => cases h
  | cons c s ih =>
    cases s with
    | nil => cases h
    | cons c' s =>
      rw [copied] at h
      by_cases hc' : c' = 0
      · rw [if_pos hc'] at h
        obtain rfl := Option.some.inj h
        simp
      · rw [if_neg hc'] at h
        obtain ⟨w, hw, rfl⟩ := Option.map_eq_some_iff.mp h
        exact Nat.succ_lt_succ (ih hw)

theorem copied_stops {s : List Byte} {i : ℕ} (hi : 0 < i) (h : s[i]? = some 0) :
    ∃ w, copied s = some w ∧ w.length ≤ i := by
  obtain ⟨i, rfl⟩ := Nat.exists_eq_succ_of_ne_zero hi.ne'
  induction i generalizing s with
  | zero =>
    match s, h with
    | c :: _ :: s, h =>
      obtain rfl := Option.some.inj h
      exact ⟨[c], rfl, le_rfl⟩
  | succ i ih =>
    match s, h with
    | c :: c' :: s, h =>
      obtain ⟨w, hw, hlen⟩ := ih (Nat.succ_pos i) (s := c' :: s) h
      by_cases hc' : c' = 0
      · exact ⟨[c], if_pos hc', Nat.succ_le_succ (Nat.zero_le _)⟩
      · exact ⟨c :: w, by rw [copied, if_neg hc', hw]; rfl, Nat.succ_le_succ hlen⟩

theorem strlen_of_zero {s : List Byte} {i : ℕ} (h : s[i]? = some 0) : ∃ len, strlen s = some len := by
  obtain ⟨_, rest, hs⟩ := List.append_of_mem (List.mem_of_getElem? h)
  exact ⟨_, hs ▸ strlen_append _ rest⟩

theorem set_zero {s : List Byte} {i : ℕ} (h : s[i]? = some 0) (j : ℕ) : (s.set j 0)[i]? = some 0 := by
  rw [List.getElem?_set]
  split_ifs with hj hlen
  · rfl
  · exact absurd (List.getElem?_eq_some_iff.mp h).1 (hj ▸ hlen)
  · exact h

end Copy

section Cconrs

variable {stdin : List Byte} {lineptr : Long} {m : Machine}

theorem writeLength (a : Long) (n : ℕ) (m : Machine) :
    m68kWriteMemory8 a (BitVec.ofNat 32 n) m = File.copyOut a [BitVec.ofNat 8 n] m := by
  have hbyte : (BitVec.ofNat 32 n).setWidth 8 = BitVec.ofNat 8 n := BitVec.setWidth_ofNat_of_le (by decide) n
  rw [File.copyOut, File.m68kWriteMemory8_byte, m68kWriteMemory8, hbyte]
  rfl

def storedLine (init : LocalBuffer) (stdin : List Byte) (maxlen : ℕ) : Option (List Byte) :=
  let got := fgets init.toList maxlen stdin
  (strlen got.1).bind fun len =>
    let line := removeNewline got.1 len
    let line := truncateLine maxlen line.1 line.2
    (copied line.1).map (fun w => BitVec.ofNat 8 line.2 :: w)

theorem add_two (a : Long) : a + 2 = a + 1 + 1 := by
  rw [BitVec.add_assoc]
  rfl

theorem add_two_ofNat (a : Long) (k : ℕ) : a + 2 + BitVec.ofNat 32 k = a + BitVec.ofNat 32 (k + 2) := by
  rw [add_two, succ_add_ofNat, succ_add_ofNat]

theorem gemdosCconrs_stored (init : LocalBuffer) (stdin : List Byte) (lineptr : Long) (m : Machine) :
    gemdosCconrs init stdin lineptr m =
      let maxlen := ((m68kReadMemory8 lineptr m).1.setWidth 8 : Byte).toNat
      (storedLine init stdin maxlen).map (fun bs => (0, (fgets init.toList maxlen stdin).2,
        File.copyOut (lineptr + 1) bs (m68kReadMemory8 lineptr m).2)) := by
  unfold gemdosCconrs storedLine
  dsimp only
  rw [Option.map_bind]
  congr 1
  funext len
  rw [Function.comp_apply, copyLine_copied, Option.map_map, Option.map_map, writeLength, add_two]
  rfl

theorem gemdosCconrs_readable (h : Readable m lineptr) (init : LocalBuffer) (stdin : List Byte) :
    gemdosCconrs init stdin lineptr m =
      (storedLine init stdin (readByte m lineptr).toNat).map (fun bs =>
        (0, (fgets init.toList (readByte m lineptr).toNat stdin).2, File.copyOut (lineptr + 1) bs m)) := by
  rw [gemdosCconrs_stored, File.m68kReadMemory8_readable h]
  simp only [File.low_byte_setWidth]

theorem truncateLine_short {maxlen len : ℕ} (h : len ≤ maxlen) (buf : List Byte) :
    truncateLine maxlen buf len = (buf, len) := if_neg (by omega)

theorem storedLine_fits {maxlen : ℕ} (hmax : 2 ≤ maxlen) (hs : stdin ≠ [])
    (hlen : (nextLine stdin).length < maxlen) (hzero : 0 ∉ nextLine stdin) (init : LocalBuffer) :
    storedLine init stdin maxlen =
      some (BitVec.ofNat 8 (nextLine stdin).length :: if nextLine stdin = [] then [0] else nextLine stdin) := by
  obtain ⟨len, rest, hstrlen, hline, hempty⟩ := line_text hmax hs hzero hlen init.toList
  have hcopied : copied (nextLine stdin ++ 0 :: rest) =
      some (if nextLine stdin = [] then [0] else nextLine stdin) := by
    by_cases hnil : nextLine stdin = []
    · obtain ⟨tail, htail⟩ : ∃ tail, rest = 0 :: tail := List.head?_eq_some_iff.mp (hempty hnil)
      rw [if_pos hnil, hnil, htail]
      rfl
    · rw [if_neg hnil, copied_text hnil hzero]
  unfold storedLine
  dsimp only
  rw [hstrlen, Option.bind_some, hline]
  dsimp only
  rw [truncateLine_short hlen.le, hcopied]
  rfl

theorem memByte_behind {bs : List Byte} {k : ℕ} (hbs : bs.length < k) (hk : k < 2 ^ 32) :
    memByte (File.copyOut (lineptr + 1) bs m).memory (lineptr + BitVec.ofNat 32 k) =
      memByte m.memory (lineptr + BitVec.ofNat 32 k) := by
  apply File.memByte_copyOut_of_ne
  intro j hj he
  rw [succ_add_ofNat, BitVec.add_right_inj] at he
  have hnat := congrArg BitVec.toNat he
  rw [BitVec.toNat_ofNat, BitVec.toNat_ofNat] at hnat
  omega

theorem stored_fits (h : Accessible m lineptr (2 + (readByte m lineptr).toNat))
    (hlen : (nextLine stdin).length < (readByte m lineptr).toNat) (hmax : 2 ≤ (readByte m lineptr).toNat)
    (hempty : nextLine stdin ≠ [] ∨ memByte m.memory (lineptr + 2) = some 0)
    {w : List Byte} (hw : w = if nextLine stdin = [] then [0] else nextLine stdin) :
    LineStored lineptr (readByte m lineptr).toNat (nextLine stdin) m
      (File.copyOut (lineptr + 1) (BitVec.ofNat 8 (nextLine stdin).length :: w) m) := by
  have hbyte : (readByte m lineptr).toNat < 2 ^ 8 := (readByte m lineptr).isLt
  have hcount : w.length < (readByte m lineptr).toNat := by
    rw [hw]
    split_ifs
    · rw [List.length_singleton]
      omega
    · exact hlen
  have hwritable : ∀ k < (BitVec.ofNat 8 (nextLine stdin).length :: w).length,
      Writable m (lineptr + 1 + BitVec.ofNat 32 k) := by
    intro k hk
    rw [List.length_cons] at hk
    rw [succ_add_ofNat]
    exact (h (k + 1) (by omega)).2
  have hbytes := fun k => @File.memByte_copyOut (BitVec.ofNat 8 (nextLine stdin).length :: w) (lineptr + 1) m
    (by rw [List.length_cons]; omega) hwritable k
  have hmin : min (readByte m lineptr).toNat (nextLine stdin).length = (nextLine stdin).length :=
    min_eq_right hlen.le
  constructor
  · have hfirst := hbytes 0 (by simp)
    rw [BitVec.add_zero] at hfirst
    rw [hmin, hfirst]
    rfl
  · intro k hk
    rw [hmin] at hk
    rw [if_neg (List.ne_nil_of_length_pos (by omega))] at hw
    have hchar := hbytes (k + 1) (by rw [hw, List.length_cons]; omega)
    rw [succ_add_ofNat] at hchar
    rw [add_two_ofNat, hchar, hw, List.getElem?_cons_succ]
  · intro k hk hkmax
    by_cases hnil : nextLine stdin = [] ∧ k = 0
    · obtain ⟨hnil, rfl⟩ := hnil
      rw [if_pos hnil] at hw
      have hzero := hbytes 1 (by rw [hw]; simp)
      rw [succ_add_ofNat] at hzero
      rw [add_two_ofNat, hzero, hw, ← add_two_ofNat, BitVec.add_zero]
      exact (hempty.resolve_left (not_not.mpr hnil)).symm
    · have hshort : w.length ≤ k := by
        rw [hw]
        split_ifs with hs
        · exact Nat.pos_of_ne_zero (fun h0 => hnil ⟨hs, h0⟩)
        · exact hk
      rw [add_two_ofNat]
      apply memByte_behind
      · rw [List.length_cons]
        omega
      · omega
  · intro k hk hk32
    apply memByte_behind
    · rw [List.length_cons]
      omega
    · exact hk32

theorem getline_length (n : ℕ) (stdin : List Byte) : (getline n stdin).length ≤ n := by
  rcases getline_cases n stdin with ⟨hget, hlt⟩ | ⟨hget, -⟩
  · rw [hget, List.length_append]
    exact hlt
  · rw [hget]
    exact List.length_take_le n _

theorem fgets_length {buf : List Byte} {size : ℕ} (h : size ≤ buf.length) (stdin : List Byte) :
    (fgets buf size stdin).1.length = buf.length := by
  have hline := getline_length (size - 1) stdin
  unfold fgets
  dsimp only
  split_ifs
  · rfl
  · rw [List.length_cons, List.length_drop]
    omega
  · rfl
  · rw [List.length_append, List.length_cons, List.length_drop]
    omega

theorem removeNewline_length (buf : List Byte) (len : ℕ) : (removeNewline buf len).1.length = buf.length := by
  unfold removeNewline
  split_ifs
  · exact List.length_set
  · rfl

theorem truncateLine_length (maxlen : ℕ) (buf : List Byte) (len : ℕ) :
    (truncateLine maxlen buf len).1.length = buf.length := by
  unfold truncateLine
  split_ifs
  · exact List.length_set
  · rfl

theorem storedLine_length {maxlen : ℕ} (hmax : maxlen < 256) {init : LocalBuffer} {bs : List Byte}
    (h : storedLine init stdin maxlen = some bs) : bs.length ≤ 257 := by
  unfold storedLine at h
  dsimp only at h
  obtain ⟨len, -, hlen⟩ := Option.bind_eq_some_iff.mp h
  obtain ⟨w, hcopied, rfl⟩ := Option.map_eq_some_iff.mp hlen
  have hw := copied_length hcopied
  rw [truncateLine_length, removeNewline_length, fgets_length (by rw [Vector.length_toList]; omega),
    Vector.length_toList] at hw
  exact hw

theorem storedLine_head {maxlen : ℕ} (hmax : 2 ≤ maxlen) (hs : stdin ≠ []) {init : LocalBuffer}
    {bs : List Byte} (h : storedLine init stdin maxlen = some bs) :
    bs.head? = some (BitVec.ofNat 8 (counted (maxlen - 1) stdin).length) := by
  obtain ⟨len, hstrlen, hlen⟩ := line_length hmax hs init.toList
  have hshort : (counted (maxlen - 1) stdin).length ≤ maxlen - 1 :=
    (List.takeWhile_prefix _).length_le.trans (List.length_take_le _ _)
  unfold storedLine at h
  dsimp only at h
  rw [hstrlen, Option.bind_some, hlen, truncateLine_short (by omega)] at h
  obtain ⟨w, -, rfl⟩ := Option.map_eq_some_iff.mp h
  rfl

theorem storedLine_stops {maxlen i : ℕ} (hi : 0 < i) {init : LocalBuffer}
    (h : (fgets init.toList maxlen stdin).1[i]? = some 0) :
    ∃ bs, storedLine init stdin maxlen = some bs ∧ bs.length ≤ i + 1 := by
  obtain ⟨len, hlen⟩ := strlen_of_zero h
  have hline : ((removeNewline (fgets init.toList maxlen stdin).1 len).1)[i]? = some 0 := by
    unfold removeNewline
    split_ifs
    · exact set_zero h _
    · exact h
  have hcut : (truncateLine maxlen (removeNewline (fgets init.toList maxlen stdin).1 len).1
      (removeNewline (fgets init.toList maxlen stdin).1 len).2).1[i]? = some 0 := by
    unfold truncateLine
    split_ifs
    · exact set_zero hline _
    · exact hline
  obtain ⟨w, hw, hshort⟩ := copied_stops hi hcut
  unfold storedLine
  dsimp only
  rw [hlen, Option.bind_some, hw]
  exact ⟨_, rfl, Nat.succ_le_succ hshort⟩

theorem storedLine_short {maxlen : ℕ} (hmax : 2 ≤ maxlen) (hs : stdin ≠ []) (init : LocalBuffer) :
    ∃ bs, storedLine init stdin maxlen = some bs ∧ bs.length ≤ maxlen := by
  obtain ⟨rest, hbuf⟩ := fgets_line hmax hs init.toList
  have hline := getline_length (maxlen - 1) stdin
  have hpos : 0 < (getline (maxlen - 1) stdin).length :=
    List.length_pos_iff.mpr (getline_ne_nil (by omega) hs)
  have hend : (fgets init.toList maxlen stdin).1[(getline (maxlen - 1) stdin).length]? = some 0 := by
    rw [hbuf, List.getElem?_append_right le_rfl, Nat.sub_self]
    rfl
  obtain ⟨bs, hbs, hlen⟩ := storedLine_stops hpos hend
  exact ⟨bs, hbs, by omega⟩

/-- `fgets` puts a zero into the local buffer, or one has stood there behind its first byte. -/
def LineEnds (init : LocalBuffer) (stdin : List Byte) (maxlen : ℕ) : Prop :=
  2 ≤ maxlen ∧ stdin ≠ [] ∨ 0 ∈ init.toList.tail

theorem storedLine_defined {init : LocalBuffer} {maxlen : ℕ} (h : LineEnds init stdin maxlen) :
    ∃ bs, storedLine init stdin maxlen = some bs := by
  by_cases hgood : 2 ≤ maxlen ∧ stdin ≠ []
  · obtain ⟨bs, hbs, -⟩ := storedLine_short hgood.1 hgood.2 init
    exact ⟨bs, hbs⟩
  · obtain ⟨i, hi⟩ := List.mem_iff_getElem?.mp (h.resolve_left hgood)
    have htail : (fgets init.toList maxlen stdin).1[i + 1]? = some 0 := by
      rw [List.getElem?_tail] at hi
      unfold fgets
      dsimp only
      split_ifs with h0 h1 hline
      · exact hi
      · rw [List.getElem?_cons_succ, List.getElem?_drop, Nat.add_comm]
        exact hi
      · exact hi
      · refine absurd ⟨by omega, ?_⟩ hgood
        rintro rfl
        exact hline (by cases maxlen - 1 <;> rfl)
    obtain ⟨bs, hbs, -⟩ := storedLine_stops (Nat.succ_pos i) htail
    exact ⟨bs, hbs⟩

theorem gemdosCconrs_defined {init : LocalBuffer}
    (h : LineEnds init stdin ((m68kReadMemory8 lineptr m).1.setWidth 8 : Byte).toNat) :
    (gemdosCconrs init stdin lineptr m).isSome := by
  obtain ⟨bs, hbs⟩ := storedLine_defined h
  rw [gemdosCconrs_stored]
  dsimp only
  rw [hbs]
  rfl

theorem cconrs_length (hread : Readable m lineptr) (hwrite : Writable m (lineptr + 1))
    (hmax : 2 ≤ (readByte m lineptr).toNat) (hs : stdin ≠ []) {init : LocalBuffer} {r : Long}
    {left : List Byte} {m' : Machine} (h : gemdosCconrs init stdin lineptr m = some (r, left, m')) :
    memByte m'.memory (lineptr + 1) =
      some (BitVec.ofNat 8 (counted ((readByte m lineptr).toNat - 1) stdin).length) := by
  have hbyte : (readByte m lineptr).toNat < 2 ^ 8 := (readByte m lineptr).isLt
  rw [gemdosCconrs_readable hread] at h
  obtain ⟨bs, hstored, he⟩ := Option.map_eq_some_iff.mp h
  have hroom := storedLine_length hbyte hstored
  obtain ⟨w, rfl⟩ := List.head?_eq_some_iff.mp (storedLine_head hmax hs hstored)
  rw [List.length_cons] at hroom
  obtain rfl : _ = m' := congrArg (fun r => r.2.2) he
  rw [File.copyOut, File.m68kWriteMemory8_byte, File.memByte_copyOut_of_ne, memByte_tosWrite,
    if_pos ⟨rfl, hwrite⟩]
  intro k hk he'
  have hnat : lineptr + BitVec.ofNat 32 1 = lineptr + BitVec.ofNat 32 (k + 2) := by
    rw [← add_two_ofNat, add_two]
    exact he'
  rw [BitVec.add_right_inj] at hnat
  have hmod := congrArg BitVec.toNat hnat
  rw [BitVec.toNat_ofNat, BitVec.toNat_ofNat] at hmod
  omega

def fullBuffer : LocalBuffer := Vector.replicate 257 1

theorem zero_notMem_fullBuffer : 0 ∉ fullBuffer.toList := by
  rw [fullBuffer, Vector.toList_replicate]
  intro hmem
  exact absurd (List.eq_of_mem_replicate hmem) (by decide)

theorem storedLine_undefined {maxlen : ℕ} (h : maxlen < 2 ∨ stdin = []) :
    storedLine fullBuffer stdin maxlen = none := by
  unfold storedLine
  dsimp only
  by_cases hone : maxlen = 1
  · have hbuf : (fgets fullBuffer.toList 1 stdin).1 = 0 :: fullBuffer.toList.drop 1 := rfl
    have hzero : 0 ∉ fullBuffer.toList.drop 1 := fun hmem => zero_notMem_fullBuffer (List.mem_of_mem_drop hmem)
    have hstrlen : strlen (0 :: fullBuffer.toList.drop 1) = some 0 := rfl
    have hline : removeNewline (0 :: fullBuffer.toList.drop 1) 0 = (0 :: fullBuffer.toList.drop 1, 0) :=
      removeNewline_none (by simp)
    rw [hone, hbuf, hstrlen, Option.bind_some, hline, truncateLine_short (by omega), copied_none hzero]
    rfl
  · have hbuf : (fgets fullBuffer.toList maxlen stdin).1 = fullBuffer.toList := by
      rw [fgets, if_neg hone]
      split_ifs with h0
      · rfl
      · dsimp only
        have hnil := h.resolve_left (by omega)
        have hget : getline (maxlen - 1) stdin = [] := by
          rw [hnil]
          cases maxlen - 1 <;> rfl
        rw [if_pos hget]
    rw [hbuf, strlen_none zero_notMem_fullBuffer]
    rfl

theorem counted_all {n : ℕ} (h : (counted n stdin).length = (nextLine stdin).length) :
    (nextLine stdin).length ≤ n ∧ 0 ∉ nextLine stdin := by
  have htake : ((nextLine stdin).take n).length ≤ n := List.length_take_le n _
  have hcount : (counted n stdin).length ≤ ((nextLine stdin).take n).length :=
    (List.takeWhile_prefix _).length_le
  have hlen : (nextLine stdin).length ≤ n := by omega
  have hall : counted n stdin = (nextLine stdin).takeWhile (fun c => c ≠ 0) := by
    rw [counted, List.take_of_length_le hlen]
  rw [hall] at h
  have heq : (nextLine stdin).takeWhile (fun c => c ≠ 0) = nextLine stdin :=
    (List.takeWhile_prefix _).eq_of_length h
  rw [List.takeWhile_eq_self_iff] at heq
  exact ⟨hlen, fun hmem => by simpa using heq 0 hmem⟩

theorem empty_line_zero (h : Accessible m lineptr (2 + (readByte m lineptr).toNat))
    (hmax : 2 ≤ (readByte m lineptr).toNat) (hs : stdin ≠ []) (hnil : nextLine stdin = []) {init : LocalBuffer}
    {r : Long} {left : List Byte} {m' : Machine}
    (hrun : gemdosCconrs init stdin lineptr m = some (r, left, m')) :
    memByte m'.memory (lineptr + 2) = some 0 := by
  have hread : Readable m lineptr := by
    have h0 := (h 0 (by omega)).1
    rwa [BitVec.add_zero] at h0
  rw [gemdosCconrs_readable hread, storedLine_fits hmax hs (by rw [hnil, List.length_nil]; omega)
    (by rw [hnil]; exact List.not_mem_nil), hnil] at hrun
  obtain rfl : _ = m' := congrArg (fun r => r.2.2) (Option.some.inj hrun)
  have hwritable : ∀ k < ([0, 0] : List Byte).length, Writable m (lineptr + 1 + BitVec.ofNat 32 k) := by
    intro k hk
    rw [succ_add_ofNat]
    exact (h (k + 1) (by simp at hk; omega)).2
  have hbyte := @File.memByte_copyOut [0, 0] (lineptr + 1) m (by decide) hwritable 1 (by decide)
  rwa [succ_add_ofNat] at hbyte

end Cconrs

theorem cconrs_stores_line_iff (stdin : List Byte) (lineptr : Long) (m : Machine)
    (h : Accessible m lineptr (2 + (readByte m lineptr).toNat)) :
    StoresLine stdin lineptr m ↔
      2 ≤ (readByte m lineptr).toNat ∧ stdin ≠ [] ∧
        (nextLine stdin).length < (readByte m lineptr).toNat ∧ 0 ∉ nextLine stdin ∧
        (nextLine stdin ≠ [] ∨ memByte m.memory (lineptr + 2) = some 0) := by
  have hread : Readable m lineptr := by
    have h0 := (h 0 (by omega)).1
    rwa [BitVec.add_zero] at h0
  have hwrite : Writable m (lineptr + 1) := (h 1 (by omega)).2
  have hbyte : (readByte m lineptr).toNat < 2 ^ 8 := (readByte m lineptr).isLt
  constructor
  · intro hstores
    obtain ⟨left, m', hrun, hline⟩ := hstores fullBuffer
    have hdefined : ¬ ((readByte m lineptr).toNat < 2 ∨ stdin = []) := by
      intro hno
      rw [gemdosCconrs_readable hread, storedLine_undefined hno] at hrun
      cases hrun
    obtain ⟨hmax, hs⟩ := not_or.mp hdefined
    have hmax : 2 ≤ (readByte m lineptr).toNat := by omega
    have hactual := (cconrs_length hread hwrite hmax hs hrun).symm.trans hline.actual
    have hcount : (counted ((readByte m lineptr).toNat - 1) stdin).length ≤ (readByte m lineptr).toNat - 1 :=
      (List.takeWhile_prefix _).length_le.trans (List.length_take_le _ _)
    have hnat := congrArg BitVec.toNat (Option.some.inj hactual)
    rw [BitVec.toNat_ofNat, BitVec.toNat_ofNat, Nat.mod_eq_of_lt (by omega), Nat.mod_eq_of_lt (by omega)] at hnat
    have hall : (counted ((readByte m lineptr).toNat - 1) stdin).length = (nextLine stdin).length := by omega
    obtain ⟨hlen, hzero⟩ := counted_all hall
    have hlen : (nextLine stdin).length < (readByte m lineptr).toNat := by omega
    refine ⟨hmax, hs, hlen, hzero, ?_⟩
    by_cases hnil : nextLine stdin = []
    · have hkept := hline.rest 0 (by rw [hnil]; rfl) (by omega)
      rw [BitVec.add_zero] at hkept
      rw [← hkept]
      exact Or.inr (empty_line_zero h hmax hs hnil hrun)
    · exact Or.inl hnil
  · rintro ⟨hmax, hs, hlen, hzero, hempty⟩ init
    have hrun := gemdosCconrs_readable hread init stdin
    rw [storedLine_fits hmax hs hlen hzero] at hrun
    exact ⟨_, _, hrun, stored_fits h hlen hmax hempty rfl⟩

def lineMachine (maxlen : Byte) : Machine :=
  { File.idleMachine with
    memory := addPtrMemoryArea MEMORY_READWRITE 0x1000 0x10 ⟨0x10, fun i => if i = 0 then maxlen else 0x20⟩ [] }

def byteAfter (init : LocalBuffer) (stdin : List Byte) (maxlen : Byte) (x : Long) : Option (Option Byte) :=
  (gemdosCconrs init stdin 0x1000 (lineMachine maxlen)).map (fun r => memByte r.2.2.memory x)

theorem cconrs_stores_line_short : StoresLine [0x61, 0x62, newline] 0x1000 (lineMachine 3) :=
  (cconrs_stores_line_iff [0x61, 0x62, newline] 0x1000 (lineMachine 3) (by decide)).mpr
    ⟨by decide, by decide, by decide, by decide, Or.inl (by decide)⟩

theorem byteAfter_of_stores {stdin : List Byte} {maxlen : Byte} (h : StoresLine stdin 0x1000 (lineMachine maxlen))
    (init : LocalBuffer) : byteAfter init stdin maxlen 0x1001 =
      some (some (BitVec.ofNat 8 (min (readByte (lineMachine maxlen) 0x1000).toNat (nextLine stdin).length))) := by
  obtain ⟨left, m', hrun, hline⟩ := h init
  rw [byteAfter, hrun]
  exact congrArg some hline.actual

/-- Of a line of two characters one is stored where there is room for two; at the end of the file, what
the local buffer held goes for a line; an empty line puts a zero into the structure, and spills over one
for one character. -/
theorem cconrs_line_cut :
    (byteAfter fullBuffer [0x61, 0x62, newline] 2 0x1001 = some (some 1) ∧
      ¬ StoresLine [0x61, 0x62, newline] 0x1000 (lineMachine 2)) ∧
    (byteAfter (fullBuffer.set 3 0) [] 8 0x1001 = some (some 3) ∧ ¬ StoresLine [] 0x1000 (lineMachine 8)) ∧
    (byteAfter fullBuffer [newline] 8 0x1002 = some (some 0) ∧ ¬ StoresLine [newline] 0x1000 (lineMachine 8)) ∧
      byteAfter (fullBuffer.set 3 0) [newline] 1 0x1003 = some (some 1) := by
  have hcut : byteAfter fullBuffer [0x61, 0x62, newline] 2 0x1001 = some (some 1) := by decide +kernel
  have hend : byteAfter (fullBuffer.set 3 0) [] 8 0x1001 = some (some 3) := by decide +kernel
  have hempty : byteAfter fullBuffer [newline] 8 0x1002 = some (some 0) := by decide +kernel
  refine ⟨⟨hcut, fun h => ?_⟩, ⟨hend, fun h => ?_⟩, ⟨hempty, fun h => ?_⟩, by decide +kernel⟩
  · rw [byteAfter_of_stores h] at hcut
    exact absurd hcut (by decide)
  · rw [byteAfter_of_stores h] at hend
    exact absurd hend (by decide)
  · obtain ⟨left, m', hrun, hline⟩ := h fullBuffer
    rw [byteAfter, hrun] at hempty
    have hkept := hline.rest 0 (by decide) (by decide)
    rw [BitVec.add_zero] at hkept
    exact absurd (hkept.symm.trans (Option.some.inj hempty)) (by decide)

end Tosemu.Console
