import Tosemu.BaseSpelling
import Tosemu.Fields
import Tosemu.RefusedReads

namespace Tosemu.Gemdos

open Host Fields

def separator (c : Byte) : Bool := c = slash || c = backslash

def guestNames (p : List Byte) : List Name := fields separator p

def hostNames (s : List Byte) : List Name := names (segments s)

structure StringAt (m : Machine) (a : Long) (p : List Byte) : Prop where
  readable : ∀ k ≤ p.length, Readable m (a + BitVec.ofNat 32 k)
  chars : ∀ k < p.length, some (readByte m (a + BitVec.ofNat 32 k)) = p[k]?
  nonzero : 0 ∉ p
  nul : readByte m (a + BitVec.ofNat 32 p.length) = 0

def KeepsNames (base p : List Byte) (r : ℕ × List Byte) : Prop :=
  r.1 = 0 ∨ hostNames r.2 = hostNames base ++ guestNames p ∧ backslash ∉ r.2.drop base.length

def fittingText (base p : List Byte) : List Byte :=
  base.take PATH_MAX ++ convert true (p.take (PATH_MAX - (base.take PATH_MAX).length))

def Turned (realpath : List Byte → List Byte) (base p : List Byte) : Prop :=
  fittingText base p = [] ∨ base ≠ [] ∧
    strncmpEq (fittingText base p) (realpath (fittingText base p)) (base.length - 1) = false

def CutsSeparators (base p : List Byte) : Prop :=
  (∀ c ∈ base.drop PATH_MAX, c = slash) ∧ ∀ c ∈ p.drop (PATH_MAX - base.length), separator c = true

section Names

theorem hostNames_eq (s : List Byte) : hostNames s = fields (fun c => c == slash) s := by
  rw [hostNames, segments, List.splitOn_eq_splitOnP, names, fields]
  congr 1
  funext n
  cases n <;> rfl

theorem fields_plain {u : List Byte} (hu : ∀ c ∈ u, separator c = false) :
    fields (fun c => c == slash) u = fields separator u := by
  cases u with
  | nil => rfl
  | cons c u =>
    rw [fields_single (List.cons_ne_nil c u) hu, fields_single (List.cons_ne_nil c u)]
    intro d hd
    have hsep := hu d hd
    simp only [separator, Bool.or_eq_false_iff, decide_eq_false_iff_not] at hsep
    simpa using hsep.1

theorem fields_convert (u p : List Byte) (prevSlash : Bool) (hu : ∀ c ∈ u, separator c = false)
    (h : prevSlash = true → u = []) :
    fields (fun c => c == slash) (u ++ convert prevSlash p) = fields separator (u ++ p) := by
  induction p generalizing u prevSlash with
  | nil => rw [convert_nil, List.append_nil, fields_plain hu]
  | cons c p ih =>
    have hnone : ∀ c ∈ ([] : List Byte), separator c = false := by simp
    by_cases hback : c = backslash
    · subst hback
      have hsep : separator backslash = true := by decide
      have hrest := ih [] true hnone (fun _ => rfl)
      rw [List.nil_append, List.nil_append] at hrest
      rw [fields_append_cons u p hsep]
      cases prevSlash with
      | true => rw [h rfl, convert_skip, List.nil_append, hrest, fields_nil, List.nil_append]
      | false => rw [convert_slash, fields_append_cons u _ (by decide), hrest, fields_plain hu]
    · rw [convert_other hback]
      by_cases hslash : c = slash
      · subst hslash
        have hrest := ih [] false hnone (fun hf => absurd hf Bool.false_ne_true)
        rw [List.nil_append, List.nil_append] at hrest
        rw [fields_append_cons u _ (by decide), fields_append_cons u p (by decide), hrest,
          fields_plain hu]
      · rw [List.append_cons, List.append_cons u c p]
        apply ih _ false _ (fun hf => absurd hf Bool.false_ne_true)
        intro d hd
        rcases List.mem_append.mp hd with hd | hd
        · exact hu d hd
        · rw [List.mem_singleton.mp hd, separator, decide_eq_false hslash, decide_eq_false hback]
          rfl

theorem backslash_notMem_convert (prevSlash : Bool) (p : List Byte) : backslash ∉ convert prevSlash p := by
  induction p generalizing prevSlash with
  | nil => simp [convert]
  | cons c p ih =>
    by_cases hc : c = backslash
    · subst hc
      have hne : backslash ≠ slash := by decide
      cases prevSlash with
      | true => exact ih true
      | false =>
        rw [convert_slash, List.mem_cons, not_or]
        exact ⟨hne, ih true⟩
    · rw [convert_other hc, List.mem_cons, not_or]
      exact ⟨Ne.symm hc, ih false⟩

end Names

section Base

variable (path : Option (List Byte)) (p : List Byte)

theorem hostNames_base (s : List Byte) :
    hostNames (initBasePath path ++ s) = hostNames (initBasePath path) ++ hostNames s := by
  cases path with
  | none => rfl
  | some path =>
    have happ : initBasePath (some path) ++ s = path ++ slash :: s := by simp [initBasePath]
    have hbase : hostNames (initBasePath (some path)) = hostNames path := by
      rw [hostNames_eq, hostNames_eq, initBasePath]
      exact fields_append_seps path (by simp)
    rw [happ, hbase, hostNames_eq, fields_append_cons _ _ (by simp), ← hostNames_eq, ← hostNames_eq]

theorem hostNames_convert : hostNames (convert true p) = guestNames p := by
  have hnone : ∀ c ∈ ([] : List Byte), separator c = false := by simp
  rw [hostNames_eq]
  exact fields_convert [] p true hnone (fun _ => rfl)

theorem hostNames_fitting : hostNames (fittingText (initBasePath path) p) =
    hostNames ((initBasePath path).take PATH_MAX) ++
      guestNames (p.take (PATH_MAX - (initBasePath path).length)) := by
  rw [fittingText]
  rcases le_total (initBasePath path).length PATH_MAX with hle | hle
  · rw [List.take_of_length_le hle, hostNames_base, hostNames_convert]
  · have hfull : ((initBasePath path).take PATH_MAX).length = PATH_MAX := by
      rw [List.length_take, min_eq_left hle]
    rw [hfull, Nat.sub_self, Nat.sub_eq_zero_of_le hle, List.take_zero, convert_nil, List.append_nil]
    exact (List.append_nil _).symm

theorem keepsNames_fitting : hostNames (fittingText (initBasePath path) p) =
    hostNames (initBasePath path) ++ guestNames p ↔ CutsSeparators (initBasePath path) p := by
  have hcut := @fields_cut_iff Byte (fun c => c == slash) separator
    ((initBasePath path).take PATH_MAX) ((initBasePath path).drop PATH_MAX)
    (p.take (PATH_MAX - (initBasePath path).length)) (p.drop (PATH_MAX - (initBasePath path).length))
  rw [List.take_append_drop, List.take_append_drop] at hcut
  rw [hostNames_fitting, hostNames_eq, hostNames_eq, guestNames, guestNames, hcut, CutsSeparators]
  simp only [beq_iff_eq]

theorem backslash_notMem_fitting (base : List Byte) : backslash ∉ (fittingText base p).drop base.length := by
  rw [fittingText, List.drop_append, List.drop_eq_nil_of_le (List.length_take_le' _ _), List.nil_append]
  exact fun hmem => backslash_notMem_convert true _ (List.mem_of_mem_drop hmem)

end Base

section Translated

variable (realpath : List Byte → List Byte) (base p : List Byte)

theorem fittingText_take : fittingText base (p.take PATH_MAX) = fittingText base p := by
  rw [fittingText, fittingText, List.take_take, min_eq_left (Nat.sub_le _ _)]

theorem pathFromTosWith_fitting : (pathFromTosWith realpath base p).2 = fittingText base p := by
  unfold pathFromTosWith
  dsimp only
  split_ifs <;> rfl

theorem turned_iff : (pathFromTosWith realpath base p).1 = 0 ↔ Turned realpath base p := by
  have hdef : pathFromTosWith realpath base p =
      if base ≠ [] ∧ !strncmpEq (fittingText base p) (realpath (fittingText base p)) (base.length - 1)
      then (0, fittingText base p) else ((fittingText base p).length, fittingText base p) := rfl
  rw [hdef, Turned]
  split_ifs with h
  · simpa using Or.inr h
  · have hpass : ¬ (base ≠ [] ∧ strncmpEq (fittingText base p) (realpath (fittingText base p))
        (base.length - 1) = false) := by
      simpa using h
    rw [or_iff_left hpass]
    exact List.length_eq_zero_iff

theorem keepsNames_iff (path : Option (List Byte)) :
    KeepsNames (initBasePath path) p (pathFromTosWith realpath (initBasePath path) (p.take PATH_MAX)) ↔
      Turned realpath (initBasePath path) p ∨ CutsSeparators (initBasePath path) p := by
  have hpath : (pathFromTosWith realpath (initBasePath path) (p.take PATH_MAX)).2 =
      fittingText (initBasePath path) p := by
    rw [pathFromTosWith_fitting, fittingText_take]
  have hturned : Turned realpath (initBasePath path) (p.take PATH_MAX) ↔
      Turned realpath (initBasePath path) p := by
    rw [Turned, Turned, fittingText_take]
  rw [KeepsNames, turned_iff, hturned, hpath, keepsNames_fitting,
    and_iff_left (backslash_notMem_fitting p (initBasePath path))]

end Translated

section Fetch

variable {m : Machine} {a : Long} {p : List Byte}

theorem readState_readable {n : ℕ} (h : ∀ k < n, Readable m (a + BitVec.ofNat 32 k)) : readState a m n = m := by
  induction n with
  | zero => rfl
  | succ n ih =>
    rw [readState, ih (fun k hk => h k (by omega)), tosRead, tosReadWith_readable _ (h n (by omega))]

theorem byteRead_readable {k : ℕ} (h : ∀ j ≤ k, Readable m (a + BitVec.ofNat 32 j)) :
    byteRead a m k = readByte m (a + BitVec.ofNat 32 k) := by
  rw [byteRead, readState_readable (fun j hj => h j (by omega)), tosRead,
    tosReadWith_readable _ (h k le_rfl), readByte, if_pos (h k le_rfl)]

theorem getPathLoop_full (n i : ℕ) (h : ∀ k < n, byteRead a m (i + k) ≠ 0) :
    getPathLoop a n i (readState a m i) =
      ((List.range n).map (fun k => byteRead a m (i + k)), readState a m (i + n)) := by
  induction n generalizing i with
  | zero => rfl
  | succ n ih =>
    have hshift : ∀ k, i + 1 + k = i + (k + 1) := fun k => by omega
    have hfirst := h 0 (by omega)
    rw [Nat.add_zero] at hfirst
    rw [getPathLoop_step, if_neg hfirst, ih (i + 1) (fun k hk => by rw [hshift]; exact h (k + 1) (by omega)),
      List.range_succ_eq_map, List.map_cons, List.map_map, hshift]
    simp only [hshift, Function.comp_def, Nat.add_zero]

theorem StringAt.byteRead (h : StringAt m a p) {k : ℕ} (hk : k < p.length) : some (byteRead a m k) = p[k]? := by
  rw [byteRead_readable (fun j hj => h.readable j (by omega))]
  exact h.chars k hk

theorem byteRead_ne {k : ℕ} (h0 : 0 ∉ p) (hchar : some (byteRead a m k) = p[k]?) : byteRead a m k ≠ 0 := by
  intro hzero
  rw [hzero] at hchar
  exact h0 (List.mem_of_getElem? hchar.symm)

theorem map_byteRead {n : ℕ} (hn : n ≤ p.length) (h : ∀ k < n, some (byteRead a m k) = p[k]?) :
    (List.range n).map (byteRead a m) = p.take n := by
  apply List.ext_getElem (by simp [hn])
  intro k hk hk'
  have hkn : k < n := by simpa using hk
  have hchar := h k hkn
  rw [List.getElem?_eq_getElem (by omega)] at hchar
  rw [List.getElem_map, List.getElem_range, List.getElem_take]
  exact Option.some.inj hchar

theorem getPathLoop_take {n : ℕ} (hn : n ≤ p.length) (h0 : 0 ∉ p)
    (h : ∀ k < n, some (byteRead a m k) = p[k]?) : (getPathLoop a n 0 m).1 = p.take n := by
  have hfull := getPathLoop_full (a := a) (m := m) n 0 (fun k hk => by
    rw [Nat.zero_add]
    exact byteRead_ne h0 (h k hk))
  simp only [Nat.zero_add] at hfull
  have hstart : readState a m 0 = m := rfl
  rw [hstart] at hfull
  rw [hfull]
  exact map_byteRead hn h

/-- `get_path` stops at the zero or behind `PATH_MAX` characters, and says nothing of what it left. -/
theorem getPath_string (h : StringAt m a p) : (getPath a m).1 = p.take PATH_MAX := by
  rcases lt_or_ge p.length PATH_MAX with hlt | hge
  · have hzero : Tosemu.byteRead a m p.length = 0 := by
      rw [byteRead_readable h.readable, h.nul]
    rw [getPath_zero hlt (fun k hk => byteRead_ne h.nonzero (h.byteRead hk)) hzero,
      map_byteRead le_rfl (fun k hk => h.byteRead hk), List.take_of_length_le hlt.le, List.take_length]
  · exact getPathLoop_take hge h.nonzero (fun k hk => h.byteRead (by omega))

end Fetch

theorem components_kept_iff (realpath : List Byte → List Byte) (path : Option (List Byte)) (m : Machine)
    (a : Long) (p : List Byte) (h : StringAt m a p) :
    KeepsNames (initBasePath path) p (pathFromTosWith realpath (initBasePath path) (getPath a m).1) ↔
      Turned realpath (initBasePath path) p ∨ CutsSeparators (initBasePath path) p := by
  rw [getPath_string h]
  exact keepsNames_iff realpath p path

def longText (n : ℕ) : List Byte := List.replicate n backslash ++ [0x61, 0x62]

def longBuffer (n : ℕ) : Buffer := ⟨0x1002, fun i => (longText n ++ [0]).getD i 0⟩

def longMachine (n : ℕ) : Machine :=
  { File.idleMachine with memory := addPtrMemoryArea MEMORY_READWRITE 0x1000 0x1002 (longBuffer n) [] }

section Long

variable {n : ℕ}

theorem longText_length (n : ℕ) : (longText n).length = n + 2 := by
  rw [longText, List.length_append, List.length_replicate]
  rfl

theorem longMachine_byte {k : ℕ} (hk : k < 0x1002) :
    Readable (longMachine n) (0x1000 + BitVec.ofNat 32 k) ∧
      readByte (longMachine n) (0x1000 + BitVec.ofNat 32 k) = (longText n ++ [0]).getD k 0 := by
  have hnat : ((0x1000 : Long) + BitVec.ofNat 32 k).toNat = 0x1000 + k := by
    have h0 : (0x1000 : Long).toNat = 0x1000 := rfl
    rw [BitVec.toNat_add, BitVec.toNat_ofNat, h0]
    omega
  have hindex : (0x1000 + BitVec.ofNat 32 k - (0x1000 : Long)).toNat = k := by
    rw [BitVec.add_comm, BitVec.add_sub_cancel, BitVec.toNat_ofNat]
    omega
  have hhits : (Memarea.mk 0x1000 0x1002 (.ptr (longBuffer n)) MEMORY_READWRITE).hits
      (0x1000 + BitVec.ofNat 32 k) = true := by
    have hlen : (0x1000 : Long).toNat = 0x1000 ∧ (0x1002 : Long).toNat = 0x1002 := ⟨rfl, rfl⟩
    rw [Memarea.hits_eq _ _ _ _ _ (by decide), hnat, decide_eq_true_iff, hlen.1, hlen.2]
    omega
  have hfind : findMemarea (longMachine n).memory (0x1000 + BitVec.ofNat 32 k) =
      some ⟨0x1000, 0x1002, .ptr (longBuffer n), MEMORY_READWRITE⟩ :=
    List.find?_cons_of_pos hhits
  have hbyte : memByte (longMachine n).memory (0x1000 + BitVec.ofNat 32 k) =
      some ((longText n ++ [0]).getD k 0) := by
    rw [memByte, hfind]
    simp only [Option.bind_some, Memarea.byteAt, Memarea.index, hindex]
    rfl
  have hreadable : Readable (longMachine n) (0x1000 + BitVec.ofNat 32 k) :=
    Readable.of_readwrite (by rw [hbyte]; rfl) (by rw [memFlags, hfind]; rfl)
  refine ⟨hreadable, ?_⟩
  rw [readByte, if_pos hreadable, hbyte, Option.getD_some]

theorem longMachine_string (hn : n < 0x1000) : StringAt (longMachine n) 0x1000 (longText n) where
  readable k hk := by
    rw [longText_length] at hk
    exact (longMachine_byte (by omega)).1
  chars k hk := by
    have hlen := longText_length n
    rw [(longMachine_byte (by omega)).2, List.getD_append _ _ _ _ hk, List.getD_eq_getElem _ _ hk,
      List.getElem?_eq_getElem hk]
  nonzero := by
    simp [longText, backslash]
  nul := by
    have hlen := longText_length n
    rw [(longMachine_byte (by omega)).2, List.getD_append_right _ _ _ _ le_rfl, Nat.sub_self]
    rfl

theorem longText_take (n : ℕ) : (longText n).take (n + 1) = List.replicate n backslash ++ [0x61] := by
  rw [longText, List.take_append, List.length_replicate, List.take_of_length_le (by simp)]
  congr 1
  rw [Nat.add_sub_cancel_left]
  rfl

theorem longText_drop (n : ℕ) : (longText n).drop (n + 1) = [0x62] := by
  rw [longText, List.drop_append, List.length_replicate, List.drop_eq_nil_of_le (by simp),
    Nat.add_sub_cancel_left]
  rfl

theorem convert_backslashes (n : ℕ) (s : List Byte) :
    convert true (List.replicate n backslash ++ s) = convert true s := by
  induction n with
  | zero => rfl
  | succ n ih =>
    rw [List.replicate_succ, List.cons_append, convert_skip]
    exact ih

end Long

theorem components_kept_short :
    KeepsNames (initBasePath (some [slash, 0x62])) (longText 1)
      (pathFromTosWith nestedTree.realpathText (initBasePath (some [slash, 0x62]))
        (getPath 0x1000 (longMachine 1)).1) :=
  (components_kept_iff nestedTree.realpathText (some [slash, 0x62]) (longMachine 1) 0x1000 (longText 1)
    (longMachine_string (by decide))).mpr (Or.inr ⟨by decide, by decide⟩)

theorem long_path_shortened :
    StringAt (longMachine 4095) 0x1000 (longText 4095) ∧
      (pathFromTosWith HostTree.empty.realpathText (initBasePath none) (getPath 0x1000 (longMachine 4095)).1) =
        (1, [0x61]) ∧
      ¬ KeepsNames (initBasePath none) (longText 4095)
        (pathFromTosWith HostTree.empty.realpathText (initBasePath none)
          (getPath 0x1000 (longMachine 4095)).1) := by
  have hstring : StringAt (longMachine 4095) 0x1000 (longText 4095) := longMachine_string (by decide)
  have hfit : ∀ n, n + 1 = PATH_MAX → fittingText [] (longText n) = [0x61] := by
    intro n hn
    rw [fittingText, List.take_nil, List.length_nil, Nat.sub_zero, ← hn, longText_take, convert_backslashes]
    rfl
  have hpath : pathFromTosWith HostTree.empty.realpathText [] (getPath 0x1000 (longMachine 4095)).1 =
      (1, [0x61]) := by
    have hdef : ∀ tp, pathFromTosWith HostTree.empty.realpathText [] tp =
        ((fittingText [] tp).length, fittingText [] tp) := fun _ => rfl
    rw [getPath_string hstring, hdef, fittingText_take, hfit 4095 rfl]
    rfl
  refine ⟨hstring, hpath, ?_⟩
  have hcut : ∀ n, n + 1 = PATH_MAX → ¬ CutsSeparators [] (longText n) := by
    rintro n hn ⟨-, hseps⟩
    rw [List.length_nil, Nat.sub_zero, ← hn, longText_drop] at hseps
    exact absurd (hseps 0x62 (by simp)) (by decide)
  rw [getPath_string hstring, keepsNames_iff]
  rintro ((hnil | ⟨hbase, -⟩) | hseps)
  · rw [initBasePath, hfit 4095 rfl] at hnil
    cases hnil
  · exact hbase rfl
  · exact hcut 4095 rfl hseps

end Tosemu.Gemdos
