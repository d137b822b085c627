import Mathlib.Tactic.SplitIfs
import Tosemu.FileHandles
import Tosemu.HostFrames

namespace Tosemu.File

open Host

namespace FileState

def stream (σ : FileState) (i : ℕ) : Option Stream :=
  if i < HANDLES ∧ (σ.handles i).allocated then (σ.handles i).f else none

def Allocated (σ : FileState) (h : BitVec 16) : Prop :=
  h.toNat < HANDLES ∧ (σ.handles h.toNat).allocated = true

def bound (σ : FileState) (h : BitVec 16) : Option ℕ := (σ.stream h.toNat).map Stream.fd

def content (σ : FileState) (h : BitVec 16) : Option (List Byte) :=
  (σ.bound h).bind (fun fd => (σ.kernel.lookup fd).map (fun o => σ.kernel.files o.file))

variable {σ : FileState} {h : BitVec 16}

theorem invalidHandle_eq_false : σ.invalidHandle h = false ↔ σ.Allocated h := by
  simp [invalidHandle, Allocated]

theorem invalidHandle_eq_true : σ.invalidHandle h = true ↔ ¬ σ.Allocated h := by
  rw [← invalidHandle_eq_false, Bool.not_eq_false]

theorem stream_allocated (ha : σ.Allocated h) : σ.stream h.toNat = (σ.handles h.toNat).f :=
  if_pos ha

theorem stream_setSlot (i j : ℕ) (slot : Fhandle) :
    (σ.setSlot i slot).stream j =
      if j = i then (if i < HANDLES ∧ slot.allocated then slot.f else none) else σ.stream j := by
  by_cases hj : j = i
  · subst hj
    simp [stream, setSlot]
  · simp [stream, setSlot, hj]

theorem allocated_of_stream {s : Stream} (hs : σ.stream h.toNat = some s) : σ.Allocated h := by
  by_contra ha
  have hnone : σ.stream h.toNat = none := if_neg ha
  rw [hnone] at hs
  simp at hs

theorem allocated_of_bound {fd : ℕ} (hb : σ.bound h = some fd) : σ.Allocated h := by
  obtain ⟨s, hs, -⟩ := Option.map_eq_some_iff.mp hb
  exact allocated_of_stream hs

end FileState

structure Sound (σ : FileState) : Prop where
  isOpen : ∀ i s, σ.stream i = some s → (σ.kernel.lookup s.fd).isSome = true
  distinct : ∀ i j s t, σ.stream i = some s → σ.stream j = some t → s.fd = t.fd → i = j

structure Acts (h : ℕ) (σ σ' : FileState) : Prop where
  kernel : ActsOn ((σ.stream h).map Stream.fd) σ.kernel σ'.kernel
  others : ∀ i, i ≠ h → σ'.stream i = σ.stream i
  self : ∀ s', σ'.stream h = some s' → ∃ s, σ.stream h = some s ∧ s.fd = s'.fd ∧
    (σ'.kernel.lookup s.fd).isSome = (σ.kernel.lookup s.fd).isSome

namespace Acts

variable {h : ℕ} {σ σ' : FileState}

theorem refl (h : ℕ) (σ : FileState) : Acts h σ σ :=
  ⟨ActsOn.refl _ _, fun _ _ => rfl, fun s' hs => ⟨s', hs, rfl, rfl⟩⟩

theorem lookup_other (ha : Acts h σ σ') (hs : Sound σ) {i : ℕ} (hi : i ≠ h) {s : Stream}
    (hstream : σ.stream i = some s) : σ'.kernel.lookup s.fd = σ.kernel.lookup s.fd := by
  apply ha.kernel.others
  intro hfd
  obtain ⟨t, ht, hfd⟩ := Option.map_eq_some_iff.mp hfd
  exact hi (hs.distinct i h s t hstream ht hfd.symm)

theorem stream_before (ha : Acts h σ σ') {i : ℕ} {s' : Stream} (hs' : σ'.stream i = some s') :
    ∃ s, σ.stream i = some s ∧ s.fd = s'.fd := by
  by_cases hi : i = h
  · subst hi
    obtain ⟨s, hs, hfd, -⟩ := ha.self s' hs'
    exact ⟨s, hs, hfd⟩
  · exact ⟨s', ha.others i hi ▸ hs', rfl⟩

theorem sound (ha : Acts h σ σ') (hs : Sound σ) : Sound σ' where
  isOpen i s' hs' := by
    by_cases hi : i = h
    · subst hi
      obtain ⟨s, hstream, hfd, hopen⟩ := ha.self s' hs'
      rw [← hfd, hopen]
      exact hs.isOpen i s hstream
    · rw [ha.others i hi] at hs'
      rw [ha.lookup_other hs hi hs']
      exact hs.isOpen i s' hs'
  distinct i j s' t' hs' ht' hfd := by
    obtain ⟨s, hsi, hs⟩ := ha.stream_before hs'
    obtain ⟨t, htj, ht⟩ := ha.stream_before ht'
    exact Sound.distinct ‹_› i j s t hsi htj (hs.trans (hfd.trans ht.symm))

end Acts

/-- A new position that does not look like `GEMDOS_EIHNDL` in 32 bits. -/
def SeekFits (k : Kernel) (fd : ℕ) (offset : Int) (whence : Whence) : Prop :=
  ∀ o, k.lookup fd = some o → o.seekable = true → 0 ≤ k.seekBase o whence + offset →
    k.seekBase o whence + offset < 2 ^ 63 →
    BitVec.ofInt 32 (k.seekBase o whence + offset) ≠ GEMDOS_EIHNDL

section Calls

variable {σ : FileState} {h : BitVec 16}

theorem setSlot_acts (i : ℕ) (slot : Fhandle) (k : Kernel) (m : Machine)
    (hk : ActsOn ((σ.stream i).map Stream.fd) σ.kernel k)
    (hself : ∀ s', slot.allocated = true → slot.f = some s' → ∃ s, σ.stream i = some s ∧
      s.fd = s'.fd ∧ (k.lookup s.fd).isSome = (σ.kernel.lookup s.fd).isSome) :
    Acts i σ { σ.setSlot i slot with kernel := k, machine := m } where
  kernel := hk
  others j hj := (FileState.stream_setSlot i j slot).trans (if_neg hj)
  self s' hs' := by
    have hslot := (FileState.stream_setSlot (σ := σ) i i slot).symm.trans hs'
    rw [if_pos rfl] at hslot
    split_ifs at hslot with halloc
    exact hself s' halloc.2 hslot

theorem fclose_acts (ha : σ.Allocated h) {s : Stream} (hs : σ.stream h.toNat = some s) :
    (gemdosFclose h σ).1 = some GEMDOS_E_OK ∧ Acts h.toNat σ (gemdosFclose h σ).2 := by
  have hf : (σ.handles h.toNat).f = some s := (FileState.stream_allocated ha).symm.trans hs
  have hvalid := FileState.invalidHandle_eq_false.mpr ha
  simp only [gemdosFclose, hvalid, hf, Bool.false_eq_true, if_false, true_and]
  apply setSlot_acts
  · rw [hs]
    exact s.fclose_actsOn σ.kernel
  · intro s' halloc
    exact absurd halloc (Fhandle.not_allocated_of_flags rfl)

theorem fread_acts (ha : σ.Allocated h) (len buf : Long) {io : Io} (hio : io.memory = true)
    {s : Stream} (hs : σ.stream h.toNat = some s) :
    Acts h.toNat σ (gemdosFread h len buf io σ).2 ∧
      (gemdosFread h len buf io σ).1 =
        some (if (s.fread len.toNat io.transfer σ.kernel).2.1.error then GEMDOS_EINTRN
          else BitVec.ofNat 32 (s.fread len.toNat io.transfer σ.kernel).1.length) := by
  have hf : (σ.handles h.toNat).f = some s := (FileState.stream_allocated ha).symm.trans hs
  have hvalid := FileState.invalidHandle_eq_false.mpr ha
  have hmoves := s.fread_moves σ.kernel len.toNat io.transfer
  have hacts : ∀ m, Acts h.toNat σ { σ.setSlot h.toNat
      { σ.handles h.toNat with f := some (s.fread len.toNat io.transfer σ.kernel).2.1 } with
        kernel := (s.fread len.toNat io.transfer σ.kernel).2.2, machine := m } := by
    intro m
    apply setSlot_acts
    · rw [hs]
      exact hmoves.acts
    · rintro s' - hs'
      obtain rfl := Option.some.inj hs'
      exact ⟨s, hs, (s.fread_fd _ _ _).symm, hmoves.stays⟩
  simp only [gemdosFread, hvalid, hio, hf, Bool.false_eq_true, Bool.true_eq_false, if_false]
  split_ifs with he
  · exact ⟨hacts σ.machine, rfl⟩
  · exact ⟨hacts _, rfl⟩

theorem copyIn_length (buf : Long) (n : ℕ) (m : Machine) : (copyIn buf n m).1.length = n := by
  induction n generalizing buf m with
  | zero => rfl
  | succ n ih => rw [copyIn, List.length_cons, ih]

theorem fwrite_acts (ha : σ.Allocated h) (len buf : Long) {io : Io} (hio : io.memory = true)
    {s : Stream} (hs : σ.stream h.toNat = some s) :
    Acts h.toNat σ (gemdosFwrite h len buf io σ).2 ∧
      ∃ n ≤ len.toNat, (gemdosFwrite h len buf io σ).1 = some GEMDOS_EINTRN ∨
        (gemdosFwrite h len buf io σ).1 = some (BitVec.ofNat 32 n) := by
  have hf : (σ.handles h.toNat).f = some s := (FileState.stream_allocated ha).symm.trans hs
  have hvalid := FileState.invalidHandle_eq_false.mpr ha
  let data := (copyIn buf len.toNat σ.machine).1
  have hmoves := s.fwrite_moves σ.kernel data io.transfer
  have hacts : Acts h.toNat σ { σ.setSlot h.toNat
      { σ.handles h.toNat with f := some (s.fwrite data io.transfer σ.kernel).2.1 } with
        kernel := (s.fwrite data io.transfer σ.kernel).2.2
        machine := (copyIn buf len.toNat σ.machine).2 } := by
    apply setSlot_acts
    · rw [hs]
      exact hmoves.acts
    · rintro s' - hs'
      obtain rfl := Option.some.inj hs'
      exact ⟨s, hs, (s.fwrite_fd _ _ _).symm, hmoves.stays⟩
  have hcount := s.fwrite_count σ.kernel data io.transfer
  have hlen : data.length = len.toNat := copyIn_length buf len.toNat σ.machine
  simp only [gemdosFwrite, hvalid, hio, hf, Bool.false_eq_true, Bool.true_eq_false, if_false]
  split_ifs with he
  · exact ⟨hacts, 0, Nat.zero_le _, Or.inl rfl⟩
  · exact ⟨hacts, _, hcount.trans hlen.le, Or.inr rfl⟩

theorem moves_acts {fd i : ℕ} (hb : (σ.stream i).map Stream.fd = some fd) {k : Kernel}
    (hk : Kernel.Moves fd σ.kernel k) (m : Machine) :
    Acts i σ { σ with kernel := k, machine := m } where
  kernel := hb ▸ hk.acts
  others _ _ := rfl
  self s' hs' := by
    refine ⟨s', hs', rfl, ?_⟩
    obtain ⟨s, hs, hfd⟩ := Option.map_eq_some_iff.mp hb
    obtain rfl : s = s' := Option.some.inj (hs.symm.trans hs')
    rw [hfd]
    exact hk.stays

theorem fseek_acts (hb : σ.bound h = some h.toNat) (offset : Long) (seekmode : BitVec 16) :
    Acts h.toNat σ (gemdosFseek offset h seekmode σ).2 := by
  unfold gemdosFseek
  cases hw : seekWhence seekmode with
  | none => exact Acts.refl _ σ
  | some whence =>
    have hk := Kernel.lseek_moves h.toNat offset.toInt whence σ.kernel
    dsimp only
    split <;> exact moves_acts hb hk σ.machine

theorem fseek_returns {o : OpenFile} (ho : σ.kernel.lookup h.toNat = some o) (offset : Long)
    {seekmode : BitVec 16} {whence : Whence} (hw : seekWhence seekmode = some whence)
    (hfits : SeekFits σ.kernel h.toNat offset.toInt whence) :
    ∃ r, (gemdosFseek offset h seekmode σ).1 = some r ∧ r ≠ GEMDOS_EIHNDL := by
  have hfits := hfits o ho
  simp only [gemdosFseek, hw, Kernel.lseek, ho]
  split_ifs with h1 h2 h3
  · exact ⟨_, rfl, by decide⟩
  · exact ⟨_, rfl, by decide⟩
  · exact ⟨_, rfl, by decide⟩
  · refine ⟨_, rfl, ?_⟩
    have hpos := hfits (by simpa using h1) (by omega) (by omega)
    rw [← Int.toNat_of_nonneg (not_lt.mp h2), BitVec.ofInt_natCast] at hpos
    exact hpos

theorem fseek_closed (hclosed : σ.kernel.lookup h.toNat = none) (offset : Long)
    {seekmode : BitVec 16} {whence : Whence} (hw : seekWhence seekmode = some whence) :
    gemdosFseek offset h seekmode σ = (some GEMDOS_EIHNDL, σ) := by
  simp only [gemdosFseek, hw, Kernel.lseek, hclosed]
  rfl

theorem fseek_position {offset : Long} (hoff : 0 ≤ offset.toInt)
    (hr : (gemdosFseek offset h 0 σ).1 = some offset) :
    ∃ o, (gemdosFseek offset h 0 σ).2.kernel.lookup h.toNat = some o ∧ o.pos = offset.toNat := by
  have hneg : ∀ e, some (seekError e) ≠ some offset := by
    rintro e he
    rw [← Option.some.inj he] at hoff
    revert hoff
    cases e <;> decide
  have hw : seekWhence 0 = some .set := rfl
  simp only [gemdosFseek, hw, Kernel.lseek] at hr ⊢
  cases ho : σ.kernel.lookup h.toNat with
  | none =>
    rw [ho] at hr
    exact absurd hr (hneg _)
  | some o =>
    simp only [ho] at hr ⊢
    split_ifs at hr ⊢ with h1 h2 h3
    · exact absurd hr (hneg _)
    · exact absurd hr (hneg _)
    · exact absurd hr (hneg _)
    · refine ⟨_, Kernel.lookup_setFd_self ho _, ?_⟩
      have hcond := BitVec.toInt_eq_toNat_cond offset
      have hlt := offset.isLt
      simp only [Kernel.seekBase]
      split_ifs at hcond <;> omega

theorem fdatime_acts (hb : σ.bound h = some h.toNat) (hs : Sound σ) (ptr : Long) (mtime : ℕ → Tm) :
    ∃ o, σ.kernel.lookup h.toNat = some o ∧ (gemdosFdatime ptr h 0 mtime σ).1 = some 0 ∧
      (gemdosFdatime ptr h 0 mtime σ).2.machine =
        m68kWriteMemory32 ptr (datime (mtime o.file)) σ.machine ∧
      Acts h.toNat σ (gemdosFdatime ptr h 0 mtime σ).2 := by
  obtain ⟨s, hstream, hfd⟩ := Option.map_eq_some_iff.mp hb
  obtain ⟨o, ho⟩ := Option.isSome_iff_exists.mp (hs.isOpen _ s hstream)
  rw [hfd] at ho
  have hfile : (σ.kernel.fstat h.toNat).1 = some o.file := by rw [Kernel.fstat, ho]
  refine ⟨o, ho, ?_⟩
  simp only [gemdosFdatime, if_pos, hfile]
  exact ⟨trivial, trivial, moves_acts hb (Kernel.fstat_moves _ _) _⟩

end Calls

structure Extends (σ σ' : FileState) : Prop where
  sound : Sound σ → Sound σ'
  keeps : ∀ i s, Sound σ → σ.stream i = some s →
    σ'.stream i = some s ∧ σ'.kernel.lookup s.fd = σ.kernel.lookup s.fd

section Open

variable {σ : FileState}

theorem Extends.refl (σ : FileState) : Extends σ σ := ⟨id, fun _ _ _ hs => ⟨hs, rfl⟩⟩

theorem Extends.of_same {σ' : FileState} (hstream : ∀ i, σ'.stream i = σ.stream i)
    (hk : ∀ fd, σ'.kernel.lookup fd = σ.kernel.lookup fd) : Extends σ σ' where
  sound hs := by
    refine ⟨fun i s hi => ?_, fun i j s t hi hj => ?_⟩
    · rw [hstream] at hi
      rw [hk]
      exact hs.isOpen i s hi
    · rw [hstream] at hi hj
      exact hs.distinct i j s t hi hj
  keeps i s _ hi := ⟨(hstream i).trans hi, hk s.fd⟩

theorem fdatime_extends (ptr : Long) (h wflag : BitVec 16) (mtime : ℕ → Tm) :
    Extends σ (gemdosFdatime ptr h wflag mtime σ).2 := by
  unfold gemdosFdatime
  split_ifs
  · dsimp only
    split
    · exact Extends.of_same (fun _ => rfl) (fun fd => Kernel.fstat_lookup h.toNat fd σ.kernel)
    · exact Extends.refl σ
  · exact Extends.refl σ

theorem openStream_fd (id : ℕ) (seekable : Bool) (m : Mode) :
    (openStream id seekable m σ).1.fd = σ.kernel.lowestFree := by
  unfold openStream
  split_ifs <;> rfl

theorem openStream_lookup (id : ℕ) (seekable : Bool) (m : Mode) (fd : ℕ) :
    (openStream id seekable m σ).2.kernel.lookup fd =
      if fd = σ.kernel.lowestFree then some ⟨id, 0, seekable⟩ else σ.kernel.lookup fd := by
  unfold openStream
  by_cases hm : m = .write
  · rw [if_pos hm]
    exact Kernel.openFd_lookup _ _ fd
  · rw [if_neg hm]
    exact Kernel.openFd_lookup _ _ fd

theorem openStream_keeps (hs : Sound σ) (id : ℕ) (seekable : Bool) (m : Mode) {i : ℕ} {s : Stream}
    (hi : σ.stream i = some s) : s.fd ≠ σ.kernel.lowestFree ∧
      (openStream id seekable m σ).2.kernel.lookup s.fd = σ.kernel.lookup s.fd := by
  have hne : s.fd ≠ σ.kernel.lowestFree := by
    intro hfd
    have hopen := hs.isOpen i s hi
    rw [hfd, Kernel.lowestFree_free] at hopen
    exact Bool.false_ne_true hopen
  exact ⟨hne, (openStream_lookup id seekable m s.fd).trans (if_neg hne)⟩

theorem openStream_extends (id : ℕ) (seekable : Bool) (m : Mode) :
    Extends σ (openStream id seekable m σ).2 where
  sound hs := by
    refine ⟨fun i s hi => ?_, hs.distinct⟩
    rw [(openStream_keeps hs id seekable m hi).2]
    exact hs.isOpen i s hi
  keeps i s hs hi := ⟨hi, (openStream_keeps hs id seekable m hi).2⟩

theorem getHandle_extends (id : ℕ) (seekable : Bool) (m : Mode) {i : ℕ}
    (hfree : (σ.handles i).allocated = false) :
    Extends σ ((openStream id seekable m σ).2.setSlot i
      ⟨some (openStream id seekable m σ).1, HANDLE_ALLOCATED⟩) := by
  have hnone : σ.stream i = none := by simp [FileState.stream, hfree]
  have hstream : ∀ j s, j ≠ i → σ.stream j = some s → ((openStream id seekable m σ).2.setSlot i
      ⟨some (openStream id seekable m σ).1, HANDLE_ALLOCATED⟩).stream j = some s := by
    intro j s hj hs
    rw [FileState.stream_setSlot, if_neg hj]
    exact hs
  have hcases : ∀ j s, ((openStream id seekable m σ).2.setSlot i
      ⟨some (openStream id seekable m σ).1, HANDLE_ALLOCATED⟩).stream j = some s →
      j = i ∧ s.fd = σ.kernel.lowestFree ∨ j ≠ i ∧ σ.stream j = some s := by
    intro j s hs
    rw [FileState.stream_setSlot] at hs
    split_ifs at hs with hj
    · obtain rfl := Option.some.inj hs
      exact Or.inl ⟨hj, openStream_fd id seekable m⟩
    · exact Or.inr ⟨hj, hs⟩
  constructor
  · intro hs
    constructor
    · intro j s hj
      rcases hcases j s hj with ⟨-, hfd⟩ | ⟨-, hj⟩
      · exact congrArg Option.isSome ((openStream_lookup id seekable m s.fd).trans (if_pos hfd))
      · exact (congrArg Option.isSome (openStream_keeps hs id seekable m hj).2).trans (hs.isOpen j s hj)
    · intro j l s t hj hl hfd
      rcases hcases j s hj with ⟨hji, hsfd⟩ | ⟨-, hj'⟩ <;>
        rcases hcases l t hl with ⟨hli, htfd⟩ | ⟨-, hl'⟩
      · exact hji.trans hli.symm
      · exact absurd (hfd.symm.trans hsfd) (openStream_keeps hs id seekable m hl').1
      · exact absurd (hfd.trans htfd) (openStream_keeps hs id seekable m hj').1
      · exact hs.distinct j l s t hj' hl' hfd
  · intro j s hs hj
    have hne : j ≠ i := by
      rintro rfl
      rw [hnone] at hj
      simp at hj
    exact ⟨hstream j s hne hj, (openStream_keeps hs id seekable m hj).2⟩

theorem getHandle_some {s : Stream} {i : ℕ} {σ' : FileState} (h : σ.getHandle s = (some i, σ')) :
    (σ.handles i).allocated = false ∧ σ' = σ.setSlot i ⟨some s, HANDLE_ALLOCATED⟩ := by
  unfold FileState.getHandle at h
  split at h
  · simp at h
  · rename_i j hfind
    obtain ⟨rfl, rfl⟩ : j = i ∧ σ.setSlot j ⟨some s, HANDLE_ALLOCATED⟩ = σ' := by simpa using h
    have := List.find?_some hfind
    exact ⟨by simpa using this, rfl⟩

theorem getHandle_none {s : Stream} {σ' : FileState} (h : σ.getHandle s = (none, σ')) : σ' = σ := by
  unfold FileState.getHandle at h
  split at h
  · simpa using h.symm
  · simp at h

theorem openHandle_extends (id : ℕ) (seekable : Bool) (m : Mode) :
    Extends σ ((openStream id seekable m σ).2.getHandle (openStream id seekable m σ).1).2 := by
  rcases hg : (openStream id seekable m σ).2.getHandle (openStream id seekable m σ).1 with ⟨_ | i, σ'⟩
  · rw [getHandle_none hg]
    exact openStream_extends id seekable m
  · obtain ⟨hfree, rfl⟩ := getHandle_some hg
    exact getHandle_extends id seekable m hfree

theorem fcreate_extends (path : Path) : Extends σ (gemdosFcreate path σ).2 := by
  cases path with
  | refused => exact Extends.refl σ
  | failed => exact Extends.refl σ
  | file id seekable =>
    have h := openHandle_extends (σ := σ) id seekable .write
    simp only [gemdosFcreate]
    split <;> rename_i heq <;> rw [heq] at h <;> exact h

theorem fopen_extends (path : Path) (mode : BitVec 16) : Extends σ (gemdosFopen path mode σ).2 := by
  unfold gemdosFopen
  split
  · exact Extends.refl σ
  · exact Extends.refl σ
  · exact Extends.refl σ
  · rename_i id seekable m _
    have h := openHandle_extends (σ := σ) id seekable m
    dsimp only
    split <;> rename_i heq <;> rw [heq] at h <;> exact h

end Open

end Tosemu.File
