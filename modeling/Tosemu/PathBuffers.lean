import Tosemu.CharArrays
import Tosemu.PathComponents

/-!
`get_path` and `path_from_tos` as they work on their arrays of `PATH_MAX+1` chars. Elsewhere a path is
the string that they leave there.
-/

namespace Tosemu.PathBuffers

open Gemdos CharArrays
open Host (PATH_MAX)

structure Fetched where
  i : ℕ
  buf : Chars
  machine : Machine

def getPathRounds (address : Long) (i : ℕ) (buf : Chars) (m : Machine) : Fetched :=
  if buf.char (i - 1) ≠ 0 ∧ i < PATH_MAX then
    let r := m68kReadDisassembler8 (address + BitVec.ofNat 32 i) m
    getPathRounds address (i + 1) (buf.store i (r.1.setWidth 8)) r.2
  else ⟨i, buf, m⟩
termination_by PATH_MAX - i

def getPath (buf : Chars) (address : Long) (m : Machine) : Fetched :=
  let r := m68kReadDisassembler8 address m
  getPathRounds address 1 (buf.store 0 (r.1.setWidth 8)) r.2

/-- The locals of `path_from_tos`, and the indices at which it has looked at `tp`. -/
structure Conversion where
  src : ℕ
  dest : ℕ
  len : ℕ
  prevSlash : Bool
  up : Chars
  read : List ℕ

def Conversion.start (len : ℕ) (up : Chars) : Conversion where
  src := 0
  dest := len
  len := len
  prevSlash := true
  up := up
  read := []

def Conversion.emit (c : Byte) (s : Conversion) : Conversion :=
  { s with
    up := s.up.store s.dest c
    dest := s.dest + 1 }

def convertChar (c : Byte) (s : Conversion) : Conversion :=
  if c = backslash then
    { (if s.prevSlash then s else s.emit Host.slash) with prevSlash := true }
  else { s.emit c with prevSlash := false }

def convertRounds (tp : ℕ → Byte) (s : Conversion) : Conversion :=
  let looked := { s with read := s.src :: s.read }
  if tp s.src ≠ 0 ∧ s.len < PATH_MAX then
    convertRounds tp
      { convertChar (tp s.src) looked with
        src := s.src + 1
        len := s.len + 1 }
  else looked
termination_by PATH_MAX - s.len

/-- `ret` is nothing where a `strlen` would leave the array. -/
structure Converted where
  ret : Option ℕ
  up : Chars
  read : List ℕ

/-- The end of `path_from_tos`, behind the loop; `realpath` gives what the host's function leaves in
`tbuf`. -/
def checkPrefix (base : List Byte) (realpath : (ℕ → Byte) → ℕ → Byte) (s : Conversion) : Converted :=
  let tbuf := realpath s.up.char
  if base ≠ [] ∧ !strncmpEq s.up.char tbuf (base.length - 1) 0 then ⟨some 0, s.up, s.read⟩
  else ⟨strlen (PATH_MAX + 1) s.up.char, s.up, s.read⟩

def pathFromTos (base : List Byte) (realpath : (ℕ → Byte) → ℕ → Byte) (tp : ℕ → Byte) (up : Chars) :
    Converted :=
  let up := strncpy up base PATH_MAX
  match strlen (PATH_MAX + 1) up.char with
  | none => ⟨none, up, []⟩
  | some len => checkPrefix base realpath (convertRounds tp (.start len up))

structure Cleared (a : Chars) : Prop where
  chars : ∀ i ≤ PATH_MAX, a.char i = 0
  unwritten : a.written = []

def InBounds (a : Chars) : Prop := ∀ i ∈ a.written, i < PATH_MAX

theorem Cleared.padded {a : Chars} (h : Cleared a) : Padded (PATH_MAX + 1) a.char [] :=
  fun i hi => h.chars i (by omega)

theorem Cleared.inBounds {a : Chars} (h : Cleared a) : InBounds a := by
  rw [InBounds, h.unwritten]
  exact fun i hi => absurd hi List.not_mem_nil

theorem InBounds.store {a : Chars} (h : InBounds a) {i : ℕ} (hi : i < PATH_MAX) (v : Byte) :
    InBounds (a.store i v) := by
  rw [InBounds, Chars.store_written]
  exact List.forall_mem_cons.mpr ⟨hi, h⟩

section Fetch

variable {a : Long} {buf : Chars} {l : List Byte}

structure Fetches (a : Long) (l : List Byte) (n i : ℕ) (m : Machine) (r : Fetched) : Prop where
  inBounds : InBounds r.buf
  spells : Spells r.buf.char (l ++ (getPathLoop a n i m).1)
  machine : r.machine = (getPathLoop a n i m).2

theorem getPathLoop_end {n i : ℕ} {m : Machine}
    (hc : (m68kReadDisassembler8 (a + BitVec.ofNat 32 i) m).1.setWidth 8 = (0 : Byte)) :
    getPathLoop a (n + 1) i m = ([], (m68kReadDisassembler8 (a + BitVec.ofNat 32 i) m).2) :=
  if_pos hc

theorem getPathLoop_char {n i : ℕ} {m : Machine} {c : Byte} {m' : Machine}
    (hr : (m68kReadDisassembler8 (a + BitVec.ofNat 32 i) m).1.setWidth 8 = c)
    (hm : (m68kReadDisassembler8 (a + BitVec.ofNat 32 i) m).2 = m') (hc : c ≠ 0) :
    getPathLoop a (n + 1) i m =
      (c :: (getPathLoop a n (i + 1) m').1, (getPathLoop a n (i + 1) m').2) := by
  rw [getPathLoop]
  dsimp only
  rw [hr, hm, if_neg hc]

theorem store_last (l : List Byte) (c : Byte) (buf : Chars) :
    (buf.store l.length c).char (l.length + 1 - 1) = c := by
  rw [Nat.add_sub_cancel, Chars.store_char, Function.update_self]

theorem getPathRounds_fetches (n : ℕ) (hn : l.length + (n + 1) = PATH_MAX) (h0 : 0 ∉ l)
    (hbuf : Padded (PATH_MAX + 1) buf.char l) (hw : InBounds buf) (m : Machine) {c : Byte}
    {m' : Machine} (hr : (m68kReadDisassembler8 (a + BitVec.ofNat 32 l.length) m).1.setWidth 8 = c)
    (hm : (m68kReadDisassembler8 (a + BitVec.ofNat 32 l.length) m).2 = m') :
    Fetches a l (n + 1) l.length m (getPathRounds a (l.length + 1) (buf.store l.length c) m') := by
  induction n generalizing l buf m c m' with
  | zero =>
    have hw' := hw.store (by omega : l.length < PATH_MAX) c
    have hstore := hbuf.store c
    rw [getPathRounds, if_neg (fun h => absurd h.2 (by omega))]
    by_cases hc : c = 0
    · have hloop := getPathLoop_end (n := 0) (hr.trans hc)
      obtain rfl := hc
      refine ⟨hw', ?_, by rw [hloop, hm]⟩
      rw [hloop, List.append_nil]
      exact hstore.dropZero.spells (by omega) h0
    · have hloop := getPathLoop_char (n := 0) hr hm hc
      refine ⟨hw', ?_, by rw [hloop]; rfl⟩
      rw [hloop]
      exact hstore.spells (by simp; omega) (zero_notMem_append h0 hc)
  | succ n ih =>
    have hw' := hw.store (by omega : l.length < PATH_MAX) c
    have hstore := hbuf.store c
    by_cases hc : c = 0
    · have hloop := getPathLoop_end (n := n + 1) (hr.trans hc)
      rw [getPathRounds, if_neg (fun h => absurd ((store_last l c buf).trans hc) h.1)]
      obtain rfl := hc
      refine ⟨hw', ?_, by rw [hloop, hm]⟩
      rw [hloop, List.append_nil]
      exact hstore.dropZero.spells (by omega) h0
    · have hloop := getPathLoop_char (n := n + 1) hr hm hc
      have hlen : (l ++ [c]).length = l.length + 1 := by simp
      have hnext := ih (l := l ++ [c]) (by omega) (zero_notMem_append h0 hc) hstore hw' m' rfl rfl
      rw [hlen] at hnext
      rw [getPathRounds, if_pos ⟨by rw [store_last]; exact hc, by omega⟩]
      obtain ⟨hbounds, hspells, hmachine⟩ := hnext
      refine ⟨hbounds, ?_, by rw [hloop]; exact hmachine⟩
      rw [hloop]
      rwa [List.append_assoc] at hspells

theorem getPath_fetches (h : Cleared buf) (a : Long) (m : Machine) :
    Fetches a [] PATH_MAX 0 m (getPath buf a m) := by
  obtain ⟨n, hn⟩ : ∃ n, 0 + (n + 1) = PATH_MAX := ⟨4095, rfl⟩
  have hfetch := getPathRounds_fetches (a := a) (l := []) n hn List.not_mem_nil h.padded h.inBounds m
    rfl rfl
  rw [Nat.zero_add] at hn
  rw [hn, List.length_nil, BitVec.add_zero] at hfetch
  exact hfetch

theorem getPath_spells (h : Cleared buf) (a : Long) (m : Machine) :
    Spells (getPath buf a m).buf.char (Gemdos.getPath a m).1 := (getPath_fetches h a m).spells

theorem getPath_machine (h : Cleared buf) (a : Long) (m : Machine) :
    (getPath buf a m).machine = (Gemdos.getPath a m).2 := (getPath_fetches h a m).machine

theorem getPathLoop_length (n i : ℕ) (m : Machine) : (getPathLoop a n i m).1.length ≤ n := by
  induction n generalizing i m with
  | zero => exact le_rfl
  | succ n ih =>
    rw [getPathLoop]
    dsimp only
    split_ifs
    · exact Nat.zero_le _
    · exact Nat.succ_le_succ (ih _ _)

theorem getPath_length (a : Long) (m : Machine) : (Gemdos.getPath a m).1.length ≤ PATH_MAX :=
  getPathLoop_length PATH_MAX 0 m

end Fetch

section Convert

variable {tp : ℕ → Byte} {base done rest : List Byte}

theorem convert_length_le (prevSlash : Bool) (s : List Byte) : (convert prevSlash s).length ≤ s.length := by
  induction s generalizing prevSlash with
  | nil => exact le_rfl
  | cons c s ih =>
    rw [convert, List.length_cons]
    split_ifs
    · exact (ih true).trans (Nat.le_succ _)
    · exact Nat.succ_le_succ (ih true)
    · exact Nat.succ_le_succ (ih false)

theorem zero_notMem_convert {s : List Byte} (h : 0 ∉ s) (prevSlash : Bool) : 0 ∉ convert prevSlash s := by
  induction s generalizing prevSlash with
  | nil => exact List.not_mem_nil
  | cons c s ih =>
    have hslash : (0 : Byte) ≠ Host.slash := by decide
    obtain ⟨hc, hs⟩ := not_or.mp (mt List.mem_cons.mpr h)
    rw [convert]
    split_ifs
    · exact ih hs true
    · exact fun hm => (List.mem_cons.mp hm).elim hslash (ih hs true)
    · exact fun hm => (List.mem_cons.mp hm).elim hc (ih hs false)

structure Converting (tp : ℕ → Byte) (done rest : List Byte) (s : Conversion) : Prop where
  up : Padded (PATH_MAX + 1) s.up.char done
  dest : s.dest = done.length
  room : done.length ≤ s.len
  bound : s.len ≤ PATH_MAX
  inBounds : InBounds s.up
  source : ∀ k ≤ rest.length, tp (s.src + k) = rest.getD k 0
  nonzero : 0 ∉ rest

def emitted (prevSlash : Bool) (c : Byte) : List Byte :=
  if c = backslash then if prevSlash then [] else [Host.slash] else [c]

theorem convert_cons (prevSlash : Bool) (c : Byte) (s : List Byte) :
    convert prevSlash (c :: s) = emitted prevSlash c ++ convert (decide (c = backslash)) s := by
  rw [convert, emitted]
  by_cases hc : c = backslash
  · cases prevSlash <;> simp [hc]
  · simp [hc]

theorem emit_padded {s : Conversion} (hup : Padded (PATH_MAX + 1) s.up.char done)
    (hdest : s.dest = done.length) (c : Byte) :
    Padded (PATH_MAX + 1) (s.emit c).up.char (done ++ [c]) ∧ (s.emit c).dest = (done ++ [c]).length := by
  have hstore := hup.store c
  rw [← hdest] at hstore
  refine ⟨hstore, ?_⟩
  rw [List.length_append, List.length_singleton, ← hdest]
  rfl

theorem convertChar_converting {c : Byte} {s : Conversion} (h : Converting tp done (c :: rest) s)
    (hroom : s.len < PATH_MAX) :
    Converting tp (done ++ emitted s.prevSlash c) rest
      { convertChar c { s with read := s.src :: s.read } with
        src := s.src + 1
        len := s.len + 1 } := by
  have hdone := h.room
  have hdest : s.dest < PATH_MAX := by
    rw [h.dest]
    omega
  have hsource : ∀ k ≤ rest.length, tp (s.src + 1 + k) = rest.getD k 0 := by
    intro k hk
    have hk' := h.source (k + 1) (by simpa using hk)
    rwa [List.getD_cons_succ, ← Nat.add_assoc, Nat.add_right_comm] at hk'
  have hnonzero : 0 ∉ rest := fun hm => h.nonzero (List.mem_cons_of_mem _ hm)
  by_cases hc : c = backslash
  · by_cases hprev : s.prevSlash = true
    · rw [convertChar, emitted, if_pos hc, if_pos hc, if_pos hprev, if_pos hprev, List.append_nil]
      exact ⟨h.up, h.dest, hdone.trans (Nat.le_succ _), hroom, h.inBounds, hsource, hnonzero⟩
    · obtain ⟨hup, hlen⟩ := emit_padded h.up h.dest Host.slash
      rw [convertChar, emitted, if_pos hc, if_pos hc, if_neg hprev, if_neg hprev]
      exact ⟨hup, hlen, by simp; omega, hroom, h.inBounds.store hdest _, hsource, hnonzero⟩
  · obtain ⟨hup, hlen⟩ := emit_padded h.up h.dest c
    rw [convertChar, emitted, if_neg hc, if_neg hc]
    exact ⟨hup, hlen, by simp; omega, hroom, h.inBounds.store hdest _, hsource, hnonzero⟩

theorem convertChar_prevSlash (c : Byte) (s : Conversion) :
    (convertChar c s).prevSlash = decide (c = backslash) := by
  rw [convertChar]
  by_cases hc : c = backslash <;> simp [hc]

theorem convertChar_read (c : Byte) (s : Conversion) : (convertChar c s).read = s.read := by
  rw [convertChar]
  split_ifs <;> rfl

structure Finished (done rest : List Byte) (s r : Conversion) : Prop where
  up : Padded (PATH_MAX + 1) r.up.char (done ++ convert s.prevSlash (rest.take (PATH_MAX - s.len)))
  inBounds : InBounds r.up
  read : ∀ i ∈ r.read, i ≤ s.src + rest.length ∨ i ∈ s.read

theorem convertRounds_finished {s : Conversion} (h : Converting tp done rest s) :
    Finished done rest s (convertRounds tp s) := by
  induction rest generalizing done s with
  | nil =>
    have hnul : tp s.src = 0 := h.source 0 le_rfl
    rw [convertRounds, if_neg (fun hne => hne.1 hnul)]
    refine ⟨?_, h.inBounds, ?_⟩
    · rw [List.take_nil, convert, List.append_nil]
      exact h.up
    · intro i hi
      exact (List.mem_cons.mp hi).imp_left (fun he => by rw [he]; exact Nat.le_add_right _ _)
  | cons c rest ih =>
    have hfirst : tp s.src = c := h.source 0 (Nat.zero_le _)
    have hc : c ≠ 0 := fun he => h.nonzero (he ▸ List.mem_cons_self)
    by_cases hroom : s.len < PATH_MAX
    · obtain ⟨hup, hbounds, hread⟩ := ih (convertChar_converting h hroom)
      rw [convertRounds, hfirst, if_pos ⟨hc, hroom⟩]
      refine ⟨?_, hbounds, ?_⟩
      · have htake : PATH_MAX - s.len = PATH_MAX - (s.len + 1) + 1 := by omega
        rw [htake, List.take_succ_cons, convert_cons, ← List.append_assoc]
        rwa [convertChar_prevSlash] at hup
      · intro i hi
        rw [List.length_cons]
        rcases hread i hi with hle | hmem
        · left
          dsimp only at hle
          omega
        · dsimp only at hmem
          rw [convertChar_read] at hmem
          exact (List.mem_cons.mp hmem).imp_left (fun he => by omega)
    · have hfull : PATH_MAX - s.len = 0 := by omega
      rw [convertRounds, if_neg (fun hne => hroom hne.2)]
      refine ⟨?_, h.inBounds, ?_⟩
      · rw [hfull, List.take_zero, convert, List.append_nil]
        exact h.up
      · intro i hi
        exact (List.mem_cons.mp hi).imp_left (fun he => by rw [he]; exact Nat.le_add_right _ _)

theorem strncpy_inBounds {up : Chars} (h : InBounds up) (base : List Byte) :
    InBounds (strncpy up base PATH_MAX) := by
  intro i hi
  rcases strncpy_written up base PATH_MAX i hi with hlt | hmem
  · exact hlt
  · exact h i hmem

theorem take_spells {up : Chars} (h : Cleared up) (h0 : 0 ∉ base) :
    Spells (strncpy up base PATH_MAX).char (base.take PATH_MAX) := by
  apply (strncpy_padded h.padded base).spells
  · exact Nat.lt_succ_of_le (List.length_take_le _ _)
  · exact fun hm => h0 (List.mem_of_mem_take hm)

theorem converting_start {up : Chars} {g : List Byte} (hup : Padded (PATH_MAX + 1) up.char done)
    (hlen : done.length ≤ PATH_MAX) (hw : InBounds up) (hg : Spells tp g) :
    Converting tp done g (.start done.length up) where
  up := hup
  dest := rfl
  room := le_rfl
  bound := hlen
  inBounds := hw
  source := by
    intro k hk
    rw [Conversion.start, Nat.zero_add]
    exact hg.chars k hk
  nonzero := hg.nonzero

def joined (base g : List Byte) : List Byte :=
  base.take PATH_MAX ++ convert true (g.take (PATH_MAX - (base.take PATH_MAX).length))

theorem joined_length_le (base g : List Byte) : (joined base g).length ≤ PATH_MAX := by
  have hbase := List.length_take_le PATH_MAX base
  have hconvert := (convert_length_le true (g.take (PATH_MAX - (base.take PATH_MAX).length))).trans
    (List.length_take_le _ g)
  rw [joined, List.length_append]
  omega

theorem zero_notMem_joined {g : List Byte} (h0 : 0 ∉ base) (hg : 0 ∉ g) : 0 ∉ joined base g := by
  rw [joined, List.mem_append]
  rintro (hm | hm)
  · exact h0 (List.mem_of_mem_take hm)
  · exact zero_notMem_convert (fun hm' => hg (List.mem_of_mem_take hm')) true hm

structure Converts (base g : List Byte) (r : Converted) : Prop where
  inBounds : InBounds r.up
  spells : Spells r.up.char (joined base g)
  read : ∀ i ∈ r.read, i ≤ g.length

theorem convertRounds_joined {up : Chars} (h : Cleared up) (base : List Byte) {g : List Byte}
    (hg : Spells tp g) :
    let r := convertRounds tp (.start (base.take PATH_MAX).length (strncpy up base PATH_MAX))
    Padded (PATH_MAX + 1) r.up.char (joined base g) ∧ InBounds r.up ∧ ∀ i ∈ r.read, i ≤ g.length := by
  intro r
  obtain ⟨hup, hbounds, hread⟩ := convertRounds_finished (converting_start
    (strncpy_padded h.padded base) (List.length_take_le _ _) (strncpy_inBounds h.inBounds base) hg)
  refine ⟨hup, hbounds, fun i hi => ?_⟩
  rcases hread i hi with hle | hmem
  · rwa [Conversion.start, Nat.zero_add] at hle
  · exact absurd hmem List.not_mem_nil

theorem pathFromTos_eq {up : Chars} (h : Cleared up) (h0 : 0 ∉ base)
    (realpath : (ℕ → Byte) → ℕ → Byte) (tp : ℕ → Byte) :
    pathFromTos base realpath tp up = checkPrefix base realpath
      (convertRounds tp (.start (base.take PATH_MAX).length (strncpy up base PATH_MAX))) := by
  have hshort : (base.take PATH_MAX).length < PATH_MAX + 1 :=
    Nat.lt_succ_of_le (List.length_take_le PATH_MAX base)
  unfold pathFromTos
  simp only [(take_spells h h0).strlen hshort]

theorem pathFromTos_converts {up : Chars} (h : Cleared up) (h0 : 0 ∉ base)
    (realpath : (ℕ → Byte) → ℕ → Byte) {g : List Byte} (hg : Spells tp g) :
    let r := pathFromTos base realpath tp up
    Converts base g r ∧ r.ret =
      if base ≠ [] ∧ !strncmpEq r.up.char (realpath r.up.char) (base.length - 1) 0 then some 0
      else some (joined base g).length := by
  obtain ⟨hup, hbounds, hread⟩ := convertRounds_joined h base hg
  have hlen : (joined base g).length < PATH_MAX + 1 := Nat.lt_succ_of_le (joined_length_le base g)
  have hspells := hup.spells hlen (zero_notMem_joined h0 hg.nonzero)
  have hend := hspells.strlen hlen
  simp only [pathFromTos_eq h h0, checkPrefix]
  split_ifs with hprefixed
  · exact ⟨⟨hbounds, hspells, hread⟩, rfl⟩
  · refine ⟨⟨hbounds, hspells, hread⟩, ?_⟩
    rw [← hend]

theorem pathFromTos_model (t : Host.HostTree) {up : Chars} (h : Cleared up) (h0 : 0 ∉ base)
    {realpath : (ℕ → Byte) → ℕ → Byte} {g : List Byte} (hg : Spells tp g)
    (hreal : ∀ s, Spells s (joined base g) →
      Spells (realpath s) (t.realpathText (joined base g))) :
    (pathFromTos base realpath tp up).ret = some (Gemdos.pathFromTos t base g).1 ∧
      Spells (pathFromTos base realpath tp up).up.char (Gemdos.pathFromTos t base g).2 := by
  obtain ⟨hconverts, hret⟩ := pathFromTos_converts h h0 realpath hg
  have hcmp := strncmpEq_spells hconverts.spells (hreal _ hconverts.spells) (base.length - 1)
  have hdef : Gemdos.pathFromTos t base g =
      if base ≠ [] ∧ !Gemdos.strncmpEq (joined base g) (t.realpathText (joined base g))
        (base.length - 1) then (0, joined base g) else ((joined base g).length, joined base g) := rfl
  rw [hcmp] at hret
  rw [hdef, Gemdos.strncmpEq]
  split_ifs at hret ⊢ with hprefixed
  · exact ⟨hret, hconverts.spells⟩
  · exact ⟨hret, hconverts.spells⟩

end Convert

theorem path_buffers_safe (m : Machine) (address : Long) (base : List Byte) (h0 : 0 ∉ base)
    (realpath : (ℕ → Byte) → ℕ → Byte) (buf up : Chars) (hbuf : Cleared buf) (hup : Cleared up) :
    InBounds (getPath buf address m).buf ∧
      ∃ n ≤ PATH_MAX, strlen (PATH_MAX + 1) (getPath buf address m).buf.char = some n ∧
        let r := pathFromTos base realpath (getPath buf address m).buf.char up
        (∀ i ∈ r.read, i ≤ n) ∧ InBounds r.up ∧
          ∃ len ≤ PATH_MAX, strlen (PATH_MAX + 1) r.up.char = some len ∧
            (r.ret = some 0 ∨ r.ret = some len) := by
  have hfetch := getPath_fetches hbuf address m
  have hspells := getPath_spells hbuf address m
  have hlen := getPath_length address m
  obtain ⟨⟨hbounds, hup', hread⟩, hret⟩ := pathFromTos_converts hup h0 realpath hspells
  refine ⟨hfetch.inBounds, _, hlen, hspells.strlen (Nat.lt_succ_of_le hlen), hread, hbounds, _,
    joined_length_le base _, hup'.strlen (Nat.lt_succ_of_le (joined_length_le base _)), ?_⟩
  rw [hret]
  split_ifs
  · exact Or.inl rfl
  · exact Or.inr rfl

def cleared : Chars := ⟨fun _ => 0, []⟩

theorem cleared_cleared : Cleared cleared := ⟨fun _ _ => rfl, rfl⟩

theorem path_buffers_safe_base :
    InBounds (getPath cleared 0x1000 (longMachine 1)).buf ∧
      ∃ n ≤ PATH_MAX, strlen (PATH_MAX + 1) (getPath cleared 0x1000 (longMachine 1)).buf.char = some n ∧
        let r := pathFromTos [Host.slash, 0x62, Host.slash] id
          (getPath cleared 0x1000 (longMachine 1)).buf.char cleared
        (∀ i ∈ r.read, i ≤ n) ∧ InBounds r.up ∧
          ∃ len ≤ PATH_MAX, strlen (PATH_MAX + 1) r.up.char = some len ∧ (r.ret = some 0 ∨ r.ret = some len) := by
  have h0 : 0 ∉ [Host.slash, 0x62, Host.slash] := by decide
  exact path_buffers_safe (longMachine 1) 0x1000 [Host.slash, 0x62, Host.slash] h0 id cleared cleared
    cleared_cleared cleared_cleared

end Tosemu.PathBuffers
