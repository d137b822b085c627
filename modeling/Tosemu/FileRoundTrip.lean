import Tosemu.CurrentDirectory
import Tosemu.HandleTable
import Tosemu.MemoryBytes
import Tosemu.StreamContents

namespace Tosemu.Gemdos

open Host

/-- What `Fcreate` finds at a path: `inode` numbers the objects of the tree. -/
def createPath (inode : Position → ℕ) (t : HostTree) (base : List Byte) (cwd : Position)
    (tp : List Byte) : File.Path × HostTree :=
  let r := pathFromTos t base tp
  if r.1 = 0 then (.refused, t)
  else
    let s := absolute cwd r.2
    let made := makeDirs t [] (segments s)
    match withPath r.2 (made.1.create s) with
    | none => (.failed, made.1)
    | some (p, t) => (.file (inode p) true, t)

def openPath (inode : Position → ℕ) (m : Mode) (t : HostTree) (base : List Byte) (cwd : Position)
    (tp : List Byte) : File.Path × HostTree :=
  let r := pathFromTos t base tp
  if r.1 = 0 then (.refused, t)
  else
    match withPath r.2 (hostFopen t (absolute cwd r.2) m) with
    | none => (.failed, t)
    | some (p, t) => (.file (inode p) true, t)

section Paths

variable {t t' : HostTree} {s : List Byte} {p : Position}

theorem resolve_of_create (h : t.create s = some (p, t')) : t'.resolve s = some p := by
  unfold HostTree.create at h
  cases hr : t.resolve s with
  | some q =>
    simp only [hr] at h
    split_ifs at h
    obtain ⟨rfl, rfl⟩ := Prod.mk.inj (Option.some.inj h)
    exact hr
  | none =>
    rw [hr] at h
    obtain hnil | ⟨cs, c, hcomp⟩ := (components s).eq_nil_or_concat
    · rw [HostTree.resolve, hnil] at hr
      exact absurd hr (by simp [HostTree.walk])
    · rw [List.concat_eq_append] at hcomp
      rw [hcomp] at h
      obtain ⟨d, hw, hd, hc, rfl, hnone, hkind⟩ := make_eq_some h
      have hkeeps : ∀ q, t.kind q = some .dir → t'.kind q = some .dir := by
        intro q hq
        rw [hkind, if_neg, hq]
        rintro rfl
        rw [hnone] at hq
        simp at hq
      obtain ⟨hlex, hdirs⟩ := walk_dir_iff.mp ⟨hw, hd⟩
      obtain ⟨hw', hd'⟩ := walk_dir_iff.mpr ⟨hlex, fun m hm => hkeeps _ (hdirs m hm)⟩
      rw [HostTree.resolve, hcomp, walk_concat, hw', Option.bind_some, enter_eq_some,
        lexStep_ordinary hc]
      exact ⟨hd', rfl, by rw [hkind, if_pos rfl]; rfl⟩

theorem pathFromTos_path (t t' : HostTree) (base tp : List Byte) :
    (pathFromTos t base tp).2 = (pathFromTos t' base tp).2 := by
  unfold pathFromTos pathFromTosWith
  dsimp only
  split_ifs <;> rfl

section Inode

variable {inode : Position → ℕ} {base tp : List Byte} {cwd : Position} {id id' : ℕ}
  {seekable seekable' : Bool} {t'' : HostTree}

theorem createPath_file (h : createPath inode t base cwd tp = (.file id seekable, t')) :
    seekable = true ∧
      ∃ p, t'.resolve (absolute cwd (pathFromTos t base tp).2) = some p ∧ id = inode p := by
  unfold createPath at h
  dsimp only at h
  by_cases h0 : (pathFromTos t base tp).1 = 0
  · rw [if_pos h0] at h
    simp at h
  · rw [if_neg h0] at h
    cases hc : withPath (pathFromTos t base tp).2
        ((makeDirs t [] (segments (absolute cwd (pathFromTos t base tp).2))).1.create
          (absolute cwd (pathFromTos t base tp).2)) with
    | none =>
      rw [hc] at h
      simp at h
    | some r =>
      obtain ⟨p, t₁⟩ := r
      simp only [hc, Prod.mk.injEq, File.Path.file.injEq] at h
      obtain ⟨⟨rfl, rfl⟩, rfl⟩ := h
      exact ⟨rfl, p, resolve_of_create (withPath_eq_some.mp hc).2, rfl⟩

theorem openPath_file (h : openPath inode .read t base cwd tp = (.file id seekable, t')) :
    seekable = true ∧
      ∃ p, t.resolve (absolute cwd (pathFromTos t base tp).2) = some p ∧ id = inode p := by
  unfold openPath at h
  dsimp only at h
  by_cases h0 : (pathFromTos t base tp).1 = 0
  · rw [if_pos h0] at h
    simp at h
  · rw [if_neg h0] at h
    cases hf : withPath (pathFromTos t base tp).2
        (hostFopen t (absolute cwd (pathFromTos t base tp).2) .read) with
    | none =>
      rw [hf] at h
      simp at h
    | some r =>
      obtain ⟨q, hq, rfl⟩ := Option.map_eq_some_iff.mp (withPath_eq_some.mp hf).2
      simp only [hf, Prod.mk.injEq, File.Path.file.injEq] at h
      obtain ⟨⟨rfl, rfl⟩, -⟩ := h
      exact ⟨rfl, q, hq, rfl⟩

theorem openPath_of_createPath
    (hcreate : createPath inode t base cwd tp = (.file id seekable, t'))
    (hopen : openPath inode .read t' base cwd tp = (.file id' seekable', t'')) :
    id' = id ∧ seekable = true ∧ seekable' = true := by
  obtain ⟨hs, p, hp, rfl⟩ := createPath_file hcreate
  obtain ⟨hs', q, hq, rfl⟩ := openPath_file hopen
  rw [pathFromTos_path t' t] at hq
  obtain rfl : q = p := Option.some.inj (hq.symm.trans hp)
  exact ⟨rfl, hs, hs'⟩

end Inode

end Paths

end Tosemu.Gemdos

namespace Tosemu.File

open Host Runs

structure Chunk where
  len : Long
  buf : Long
  io : Io
  machine : Machine

structure Chunk.Allowed (access : Machine → Long → Prop) (c : Chunk) : Prop where
  short : c.len.toNat < 2 ^ 31
  memory : c.io.memory = true
  transfer : c.io.transfer.ioError = false
  access : ∀ k < c.len.toNat, access c.machine (c.buf + BitVec.ofNat 32 k)

def Chunk.bytes (c : Chunk) : List Byte :=
  (List.range c.len.toNat).map (fun k => readByte c.machine (c.buf + BitVec.ofNat 32 k))

def writeStep (h : BitVec 16) (σ : FileState) (c : Chunk) : Option Long × FileState :=
  gemdosFwrite h c.len c.buf c.io { σ with machine := c.machine }

def readStep (h : BitVec 16) (σ : FileState) (c : Chunk) : Option Long × FileState :=
  gemdosFread h c.len c.buf c.io { σ with machine := c.machine }

def Delivered (h : BitVec 16) : List Byte → FileState → List Chunk → Prop
  | _, _, [] => True
  | rest, σ, c :: reads =>
    let r := readStep h σ c
    let n := min c.len.toNat rest.length
    r.1 = some (BitVec.ofNat 32 n) ∧
      (∀ k < n, memByte r.2.machine.memory (c.buf + BitVec.ofNat 32 k) = rest[k]?) ∧
      (∀ x, (∀ k < n, x ≠ c.buf + BitVec.ofNat 32 k) →
        memByte r.2.machine.memory x = memByte c.machine.memory x) ∧
      Delivered h (rest.drop n) r.2 reads

section Copy

theorem m68kReadMemory8_readable {m : Machine} {x : Long} (h : Readable m x) :
    m68kReadMemory8 x m = ((readByte m x).setWidth 32, m) := by
  rw [m68kReadMemory8, m68kReadDisassembler8, tosRead, tosReadWith_readable _ h, readByte, if_pos h]

theorem low_byte_setWidth (b : Byte) : (b.setWidth 32).setWidth 8 = b := by
  rw [BitVec.setWidth_setWidth_of_le _ (by decide), BitVec.setWidth_eq]

theorem m68kWriteMemory8_byte (x : Long) (b : Byte) (m : Machine) :
    m68kWriteMemory8 x (b.setWidth 32) m = tosWrite x b m := by
  rw [m68kWriteMemory8, low_byte_setWidth]

theorem copyIn_readable (n : ℕ) (buf : Long) (m : Machine)
    (h : ∀ k < n, Readable m (buf + BitVec.ofNat 32 k)) :
    copyIn buf n m = ((List.range n).map (fun k => readByte m (buf + BitVec.ofNat 32 k)), m) := by
  induction n generalizing buf with
  | zero => rfl
  | succ n ih =>
    have h0 := h 0 (Nat.succ_pos n)
    have hrest : ∀ k < n, Readable m (buf + 1 + BitVec.ofNat 32 k) := by
      intro k hk
      rw [succ_add_ofNat]
      exact h (k + 1) (by omega)
    rw [BitVec.add_zero] at h0
    rw [copyIn, m68kReadMemory8_readable h0, low_byte_setWidth, ih _ hrest, List.range_succ_eq_map,
      List.map_cons, List.map_map, BitVec.add_zero]
    simp only [succ_add_ofNat]
    rfl

theorem memByte_copyOut_of_ne (bs : List Byte) (buf : Long) (m : Machine) {x : Long}
    (hx : ∀ k < bs.length, x ≠ buf + BitVec.ofNat 32 k) :
    memByte (copyOut buf bs m).memory x = memByte m.memory x := by
  induction bs generalizing buf m with
  | nil => rfl
  | cons b bs ih =>
    have h0 := hx 0 (by simp)
    rw [BitVec.add_zero] at h0
    rw [copyOut, m68kWriteMemory8_byte, ih, memByte_tosWrite, if_neg (fun h => h0 h.1)]
    intro k hk
    rw [succ_add_ofNat]
    exact hx (k + 1) (by simpa using hk)

theorem memByte_copyOut (bs : List Byte) (buf : Long) (m : Machine) (hlen : bs.length < 2 ^ 32)
    (h : ∀ k < bs.length, Writable m (buf + BitVec.ofNat 32 k)) {k : ℕ} (hk : k < bs.length) :
    memByte (copyOut buf bs m).memory (buf + BitVec.ofNat 32 k) = bs[k]? := by
  induction bs generalizing buf m k with
  | nil => simp at hk
  | cons b bs ih =>
    rw [List.length_cons] at hlen hk h
    have h0 := h 0 (Nat.succ_pos _)
    rw [BitVec.add_zero] at h0
    rw [copyOut, m68kWriteMemory8_byte]
    cases k with
    | zero =>
      rw [BitVec.add_zero, memByte_copyOut_of_ne, memByte_tosWrite, if_pos ⟨rfl, h0⟩]
      · rfl
      intro j hj he
      have hnat := congrArg BitVec.toNat he
      rw [succ_add_ofNat, BitVec.toNat_add, BitVec.toNat_ofNat] at hnat
      omega
    | succ k =>
      rw [← succ_add_ofNat, ih _ _ (by omega) _ (by omega)]
      · rfl
      intro j hj
      rw [succ_add_ofNat, (tosWrite_sameMap m buf b).writable_iff]
      exact h (j + 1) (by omega)

end Copy

def Bound (h : ℕ) (P : Stream → Kernel → Prop) (σ : FileState) : Prop :=
  h < HANDLES ∧ ∃ s, σ.handles h = ⟨some s, HANDLE_ALLOCATED⟩ ∧ P s σ.kernel

section Transfers

variable {h : BitVec 16} {id : ℕ} {σ : FileState} {c : Chunk}

theorem Bound.valid {P : Stream → Kernel → Prop} (hb : Bound h.toNat P σ) :
    σ.invalidHandle h = false := by
  obtain ⟨hlt, s, hs, -⟩ := hb
  rw [FileState.invalidHandle_eq_false]
  exact ⟨hlt, Fhandle.allocated_of_flags (congrArg Fhandle.flags hs)⟩

theorem writeStep_appends {before : List Byte} (hb : Bound h.toNat (Stream.Appending id before) σ)
    (hc : c.Allowed Readable) :
    (writeStep h σ c).1 = some c.len ∧ (writeStep h σ c).2.machine = c.machine ∧
      Bound h.toNat (Stream.Appending id (before ++ c.bytes)) (writeStep h σ c).2 := by
  have hvalid : FileState.invalidHandle h { σ with machine := c.machine } = false := hb.valid
  obtain ⟨hlt, s, hs, happ⟩ := hb
  obtain ⟨hcount, hnext⟩ := happ.fwrite c.bytes hc.transfer
  have herror := hnext.error
  have hlen : c.bytes.length = c.len.toNat := by simp [Chunk.bytes]
  have hcopy : copyIn c.buf c.len.toNat c.machine = (c.bytes, c.machine) :=
    copyIn_readable c.len.toNat c.buf c.machine hc.access
  simp only [writeStep, gemdosFwrite, hvalid, hc.memory, hs, hcopy, herror, hcount, hlen,
    Bool.false_eq_true, Bool.true_eq_false, if_false, BitVec.ofNat_toNat, BitVec.setWidth_eq, true_and]
  exact ⟨rfl, hlt, _, Function.update_self _ _ _, hnext⟩

theorem readStep_delivers {rest : List Byte} (hb : Bound h.toNat (Stream.Delivering id rest) σ)
    (hc : c.Allowed Writable) :
    (readStep h σ c).1 = some (BitVec.ofNat 32 (rest.take c.len.toNat).length) ∧
      (readStep h σ c).2.machine = copyOut c.buf (rest.take c.len.toNat) c.machine ∧
      Bound h.toNat (Stream.Delivering id (rest.drop c.len.toNat)) (readStep h σ c).2 := by
  have hvalid : FileState.invalidHandle h { σ with machine := c.machine } = false := hb.valid
  obtain ⟨hlt, s, hs, hdel⟩ := hb
  obtain ⟨hdata, hnext⟩ := hdel.fread c.len.toNat hc.transfer
  have herror := hnext.error
  simp only [readStep, gemdosFread, hvalid, hc.memory, hs, herror, hdata, Bool.false_eq_true,
    Bool.true_eq_false, if_false, true_and]
  exact ⟨rfl, hlt, _, Function.update_self _ _ _, hnext⟩

theorem writes_append (writes : List Chunk) (hw : ∀ c ∈ writes, c.Allowed Readable)
    {before : List Byte} (hb : Bound h.toNat (Stream.Appending id before) σ) :
    results (writeStep h) σ writes = writes.map (fun c => some c.len) ∧
      Along (writeStep h) (fun τ c => (writeStep h τ c).2.machine = c.machine) σ writes ∧
      Bound h.toNat (Stream.Appending id (before ++ writes.flatMap Chunk.bytes))
        (run (writeStep h) σ writes) := by
  induction writes generalizing σ before with
  | nil =>
    rw [List.flatMap_nil, List.append_nil]
    exact ⟨rfl, trivial, hb⟩
  | cons c writes ih =>
    obtain ⟨hr, hmachine, hnext⟩ := writeStep_appends hb (hw c List.mem_cons_self)
    obtain ⟨hrs, halong, hlast⟩ := ih (fun d hd => hw d (List.mem_cons_of_mem _ hd)) hnext
    rw [List.flatMap_cons, ← List.append_assoc, results, hr, hrs]
    exact ⟨rfl, ⟨hmachine, halong⟩, hlast⟩

theorem reads_deliver (reads : List Chunk) (hr : ∀ c ∈ reads, c.Allowed Writable) {rest : List Byte}
    (hb : Bound h.toNat (Stream.Delivering id rest) σ) : Delivered h rest σ reads := by
  induction reads generalizing σ rest with
  | nil => trivial
  | cons c reads ih =>
    have hc := hr c List.mem_cons_self
    obtain ⟨hresult, hmachine, hnext⟩ := readStep_delivers hb hc
    have hlen : (rest.take c.len.toNat).length = min c.len.toNat rest.length := List.length_take
    have hshort := hc.short
    refine ⟨by rw [hresult, hlen], ?_, ?_, ?_⟩
    · intro k hk
      rw [hmachine, memByte_copyOut _ _ _ (by omega) (fun j hj => hc.access j (by omega)) (by omega),
        List.getElem?_take_of_lt (by omega)]
    · intro x hx
      rw [hmachine, memByte_copyOut_of_ne]
      rwa [hlen]
    · have hdrop : rest.drop (min c.len.toNat rest.length) = rest.drop c.len.toNat := by
        rcases le_total c.len.toNat rest.length with hle | hle
        · rw [min_eq_left hle]
        · rw [min_eq_right hle, List.drop_length, List.drop_eq_nil_of_le hle]
      rw [hdrop]
      exact ih (fun d hd => hr d (List.mem_cons_of_mem _ hd)) hnext

end Transfers

section Open

variable {σ : FileState} {id : ℕ} {seekable : Bool}

theorem getHandle_of_free (hfree : (freeHandles σ).Nonempty) (s : Stream) :
    ∃ i, i < HANDLES ∧ σ.getHandle s = (some i, σ.setSlot i ⟨some s, HANDLE_ALLOCATED⟩) := by
  rw [FileState.getHandle]
  rcases find_cases σ with ⟨i, hleast, hfind⟩ | ⟨hfull, -⟩
  · rw [hfind]
    exact ⟨i, hleast.1.1, rfl⟩
  · exact absurd hfull hfree.ne_empty

theorem handle_word {i : ℕ} (h : i < HANDLES) :
    (BitVec.ofNat 16 i).toNat = i ∧ BitVec.ofNat 32 i = (BitVec.ofNat 16 i).setWidth 32 := by
  have hlt : i < 2 ^ 16 := h.trans (by decide)
  refine ⟨by rw [BitVec.toNat_ofNat, Nat.mod_eq_of_lt hlt], BitVec.eq_of_toNat_eq ?_⟩
  rw [BitVec.toNat_setWidth, BitVec.toNat_ofNat, BitVec.toNat_ofNat, Nat.mod_eq_of_lt hlt]

theorem openStream_files (id : ℕ) (seekable : Bool) (m : Mode) :
    (openStream id seekable m σ).2.kernel.files =
      if m = .write then Function.update σ.kernel.files id [] else σ.kernel.files := by
  unfold openStream
  split_ifs
  · exact Kernel.openFd_files _ _
  · exact Kernel.openFd_files _ _

theorem openStream_isOpen (id : ℕ) (m : Mode) :
    (openStream id true m σ).2.kernel.lookup (openStream id true m σ).1.fd = some ⟨id, 0, true⟩ := by
  rw [openStream_lookup, openStream_fd, if_pos rfl]

theorem fcreate_appending (id : ℕ) (hfree : (freeHandles σ).Nonempty) :
    ∃ h : BitVec 16, (gemdosFcreate (.file id true) σ).1 = some (h.setWidth 32) ∧
      Bound h.toNat (Stream.Appending id []) (gemdosFcreate (.file id true) σ).2 := by
  obtain ⟨i, hlt, hg⟩ := getHandle_of_free (σ := (openStream id true .write σ).2) hfree
    (openStream id true .write σ).1
  obtain ⟨hnat, hword⟩ := handle_word hlt
  refine ⟨BitVec.ofNat 16 i, ?_⟩
  have hfiles : (openStream id true .write σ).2.kernel.files id = [] := by
    rw [openStream_files, if_pos rfl, Function.update_self]
  simp only [gemdosFcreate, hg, hnat]
  refine ⟨congrArg some hword, hlt, _, Function.update_self _ _ _, rfl, rfl, rfl, ?_, ?_⟩
  · exact (openStream_isOpen id .write).trans (by rw [FileState.setSlot, hfiles]; rfl)
  · exact (List.append_nil _).trans hfiles

theorem fopen_delivering (id : ℕ) (hfree : (freeHandles σ).Nonempty) :
    ∃ h : BitVec 16, (gemdosFopen (.file id true) 0 σ).1 = some (h.setWidth 32) ∧
      Bound h.toNat (Stream.Delivering id (σ.kernel.files id)) (gemdosFopen (.file id true) 0 σ).2 := by
  obtain ⟨i, hlt, hg⟩ := getHandle_of_free (σ := (openStream id true .read σ).2) hfree
    (openStream id true .read σ).1
  obtain ⟨hnat, hword⟩ := handle_word hlt
  have hmode : openMode 0 = some .read := rfl
  refine ⟨BitVec.ofNat 16 i, ?_⟩
  have hfiles : (openStream id true .read σ).2.kernel.files id = σ.kernel.files id := by
    rw [openStream_files, if_neg (by decide)]
  simp only [gemdosFopen, hmode, hg, hnat]
  refine ⟨congrArg some hword, hlt, _, Function.update_self _ _ _, rfl, rfl, rfl, ?_, 0, ?_, ?_⟩
  · exact fun heof => absurd heof Bool.false_ne_true
  · exact openStream_isOpen id .read
  · exact hfiles

theorem fclose_appending {h : BitVec 16} {data : List Byte}
    (hb : Bound h.toNat (Stream.Appending id data) σ) :
    (gemdosFclose h σ).1 = some GEMDOS_E_OK ∧ (gemdosFclose h σ).2.kernel.files id = data := by
  have hvalid := hb.valid
  obtain ⟨hlt, s, hs, happ⟩ := hb
  simp only [gemdosFclose, hvalid, hs, Bool.false_eq_true, if_false, true_and]
  exact happ.fclose

end Open

theorem file_round_trip (inode : Position → ℕ) (t t' t'' : HostTree) (base tp : List Byte)
    (cwd : Position) (id id' : ℕ) (seekable seekable' : Bool) (σ : FileState)
    (hcreate : Gemdos.createPath inode t base cwd tp = (.file id seekable, t'))
    (hopen : Gemdos.openPath inode .read t' base cwd tp = (.file id' seekable', t''))
    (hfree : (freeHandles σ).Nonempty) :
    let created := gemdosFcreate (.file id seekable) σ
    ∃ h : BitVec 16, created.1 = some (h.setWidth 32) ∧
      ∀ writes : List Chunk, (∀ c ∈ writes, c.Allowed Readable) →
        let closed := gemdosFclose h (run (writeStep h) created.2 writes)
        results (writeStep h) created.2 writes = writes.map (fun c => some c.len) ∧
          Along (writeStep h) (fun τ c => (writeStep h τ c).2.machine = c.machine) created.2 writes ∧
          closed.1 = some GEMDOS_E_OK ∧
          ∀ τ : FileState, τ.kernel.files id = closed.2.kernel.files id → (freeHandles τ).Nonempty →
            let opened := gemdosFopen (.file id' seekable') 0 τ
            ∃ h' : BitVec 16, opened.1 = some (h'.setWidth 32) ∧
              ∀ reads : List Chunk, (∀ c ∈ reads, c.Allowed Writable) →
                Delivered h' (writes.flatMap Chunk.bytes) opened.2 reads := by
  obtain ⟨hid, hs, hs'⟩ := Gemdos.openPath_of_createPath hcreate hopen
  rw [hid, hs, hs']
  intro created
  obtain ⟨h, hcreated, hnew⟩ := fcreate_appending id hfree
  refine ⟨h, hcreated, fun writes hw => ?_⟩
  obtain ⟨hresults, hmachine, hlast⟩ := writes_append writes hw hnew
  obtain ⟨hclosed, hfile⟩ := fclose_appending hlast
  rw [List.nil_append] at hfile
  refine ⟨hresults, hmachine, hclosed, fun τ hτ hfree' => ?_⟩
  obtain ⟨h', hopened, hreader⟩ := fopen_delivering id hfree'
  rw [hτ, hfile] at hreader
  exact ⟨h', hopened, fun reads hr => reads_deliver reads hr hreader⟩

def plainChunk (len : Long) : Chunk := ⟨len, 0x900, ⟨true, ⟨false, 0, true⟩⟩, idleMachine⟩

theorem plainChunk_allowed (len : Long) (h : len.toNat ≤ 16) :
    (plainChunk len).Allowed Readable ∧ (plainChunk len).Allowed Writable := by
  have hmem : ∀ k < 16, Readable idleMachine (0x900 + BitVec.ofNat 32 k) ∧
      Writable idleMachine (0x900 + BitVec.ofNat 32 k) := by decide
  exact ⟨⟨h.trans_lt (by decide), rfl, rfl, fun k hk => (hmem k (hk.trans_le h)).1⟩,
    ⟨h.trans_lt (by decide), rfl, rfl, fun k hk => (hmem k (hk.trans_le h)).2⟩⟩

theorem file_round_trip_three :
    let σ := gemdosFileInit idleMachine (inherited 3)
    ∃ h h' : BitVec 16,
      let closed := gemdosFclose h (run (writeStep h) (gemdosFcreate (.file 1 true) σ).2
        [plainChunk 2, plainChunk 1])
      closed.1 = some GEMDOS_E_OK ∧ Delivered h' [0, 0, 0]
        (gemdosFopen (.file 1 true) 0 { σ with kernel := closed.2.kernel }).2 [plainChunk 4, plainChunk 1] := by
  intro σ
  have hfree : ∀ k, (freeHandles { σ with kernel := k }).Nonempty := fun k =>
    ⟨6, by decide, show (initHandles 6).allocated = false by decide⟩
  let t := Gemdos.createPath List.length HostTree.empty [] [] [0x67]
  have hcreate : t = (.file 1 true, t.2) := Prod.ext (by decide +kernel) rfl
  have hopen : Gemdos.openPath List.length .read t.2 [] [] [0x67] = (.file 1 true, t.2) :=
    Prod.ext (by decide +kernel) (by rfl)
  obtain ⟨h, -, hwrites⟩ := file_round_trip List.length HostTree.empty t.2 t.2 [] [0x67] []
    1 1 true true σ hcreate hopen (hfree _)
  obtain ⟨-, -, hclosed, hreopen⟩ := hwrites [plainChunk 2, plainChunk 1] (by simp [plainChunk_allowed])
  obtain ⟨h', -, hreads⟩ := hreopen { σ with kernel := _ } rfl (hfree _)
  have hbytes : [plainChunk 2, plainChunk 1].flatMap Chunk.bytes = [0, 0, 0] := by decide
  rw [hbytes] at hreads
  exact ⟨h, h', hclosed, hreads [plainChunk 4, plainChunk 1] (by simp [plainChunk_allowed])⟩

end Tosemu.File
