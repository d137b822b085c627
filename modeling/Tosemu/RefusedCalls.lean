import Tosemu.RefusedReads

namespace Tosemu.Gemdos

open Host

structure HostState where
  tree : HostTree
  cwd : Position
  files : File.FileState

def HostState.onMachine (m : Machine) (σ : HostState) : HostState :=
  { σ with files := { σ.files with machine := m } }

inductive NamedCall
  | dsetpath
  | dcreate
  | fdelete
  | fcreate
  | fopen (mode : BitVec 16)

def dsetpath (base tp : List Byte) (σ : HostState) : Option Long × HostState :=
  let r := gemdosDsetpathFrom σ.tree base σ.cwd tp
  (some r.1, { σ with cwd := r.2 })

def changeTree (err : Long) (change : HostTree → List Byte → Option (Position × HostTree))
    (base tp : List Byte) (σ : HostState) : Option Long × HostState :=
  let r := pathFromTos σ.tree base tp
  if r.1 = 0 then (some GEMDOS_EFILNF, σ)
  else
    match withPath r.2 (change σ.tree (absolute σ.cwd r.2)) with
    | none => (some err, σ)
    | some (_, t) => (some 0, { σ with tree := t })

def dcreate := changeTree GEMDOS_EACCDN HostTree.mkdir
def fdelete := changeTree GEMDOS_EFILNF HostTree.unlink

def fcreate (inode : Position → ℕ) (base tp : List Byte) (σ : HostState) : Option Long × HostState :=
  let p := createPath inode σ.tree base σ.cwd tp
  let r := File.gemdosFcreate p.1 σ.files
  (r.1, { σ with tree := p.2, files := r.2 })

def fopen (inode : Position → ℕ) (base : List Byte) (mode : BitVec 16) (tp : List Byte)
    (σ : HostState) : Option Long × HostState :=
  match File.openMode mode with
  | none => (some (if (pathFromTos σ.tree base tp).1 = 0 then GEMDOS_EFILNF else GEMDOS_EINVAL), σ)
  | some m =>
    let p := openPath inode m σ.tree base σ.cwd tp
    let r := File.gemdosFopen p.1 mode σ.files
    (r.1, { σ with tree := p.2, files := r.2 })

def namedStep (inode : Position → ℕ) (base : List Byte) :
    NamedCall → List Byte → HostState → Option Long × HostState
  | .dsetpath => dsetpath base
  | .dcreate => dcreate base
  | .fdelete => fdelete base
  | .fcreate => fcreate inode base
  | .fopen mode => fopen inode base mode

def NamedCall.pathCall : NamedCall → PathCall
  | .dsetpath => .dsetpath
  | .dcreate => .dcreate
  | .fdelete => .fdelete
  | .fcreate => .fcreate
  | .fopen mode => .fopen mode

structure Agrees (o : Outcome) (r : Option Long × HostState) : Prop where
  tree : r.2.tree = o.tree
  code : ∀ c, o.reply = .code c → r.1 = some c

section Agrees

variable {base tp : List Byte} {σ σ' : HostState} {t : HostTree} {touched : List Position}

theorem Agrees.of_code (c : Long) (h : σ'.tree = t) : Agrees ⟨.code c, t, touched⟩ (some c, σ') :=
  ⟨h, fun _ hc => congrArg some (Reply.code.inj hc)⟩

theorem Agrees.of_handle {r : Option Long × HostState} (h : r.2.tree = t) :
    Agrees ⟨.handle, t, touched⟩ r := ⟨h, fun _ hc => Reply.noConfusion hc⟩

theorem gemdosFopen_failed {mode : BitVec 16} {m : Mode} (hm : File.openMode mode = some m)
    (files : File.FileState) :
    File.gemdosFopen .failed mode files = (some GEMDOS_EFILNF, files) := by
  simp only [File.gemdosFopen, hm]

theorem namedStep_agrees (inode : Position → ℕ) (call : NamedCall)
    (habs : (pathFromTos σ.tree base tp).2.head? = some slash) :
    Agrees (pathStep σ.tree base tp call.pathCall) (namedStep inode base call tp σ) := by
  have hpath : absolute σ.cwd (pathFromTos σ.tree base tp).2 = (pathFromTos σ.tree base tp).2 :=
    if_pos habs
  cases call with
  | dsetpath =>
    simp only [namedStep, dsetpath, gemdosDsetpathFrom, NamedCall.pathCall, pathStep, gemdosDsetpath]
    split_ifs
    · exact Agrees.of_code _ rfl
    · exact Agrees.of_code _ rfl
  | dcreate =>
    simp only [namedStep, dcreate, changeTree, hpath, NamedCall.pathCall, pathStep, gemdosDcreate]
    split_ifs
    · exact Agrees.of_code _ rfl
    · cases withPath (pathFromTos σ.tree base tp).2 (σ.tree.mkdir (pathFromTos σ.tree base tp).2) <;>
        exact Agrees.of_code _ rfl
  | fdelete =>
    simp only [namedStep, fdelete, changeTree, hpath, NamedCall.pathCall, pathStep, gemdosFdelete]
    split_ifs
    · exact Agrees.of_code _ rfl
    · cases withPath (pathFromTos σ.tree base tp).2 (σ.tree.unlink (pathFromTos σ.tree base tp).2) <;>
        exact Agrees.of_code _ rfl
  | fcreate =>
    simp only [namedStep, fcreate, createPath, hpath, NamedCall.pathCall, pathStep, gemdosFcreate]
    split_ifs
    · exact Agrees.of_code _ rfl
    · cases withPath (pathFromTos σ.tree base tp).2
        ((makeDirs σ.tree [] (segments (pathFromTos σ.tree base tp).2)).1.create
          (pathFromTos σ.tree base tp).2)
      · exact Agrees.of_code _ rfl
      · exact Agrees.of_handle rfl
  | fopen mode =>
    simp only [namedStep, fopen, openPath, hpath, NamedCall.pathCall, pathStep, gemdosFopen]
    cases hm : File.openMode mode with
    | none => split_ifs <;> exact Agrees.of_code _ rfl
    | some m =>
      dsimp only
      split_ifs
      · exact Agrees.of_code _ rfl
      · cases withPath (pathFromTos σ.tree base tp).2 (hostFopen σ.tree (pathFromTos σ.tree base tp).2 m)
        · rw [gemdosFopen_failed hm]
          exact Agrees.of_code _ rfl
        · exact Agrees.of_handle rfl

end Agrees

inductive HostCall
  | named (call : NamedCall) (addr : Long)
  | fwrite (h : BitVec 16) (len buf : Long) (io : File.Io)

def hostStep (inode : Position → ℕ) (base : List Byte) (σ : HostState) :
    HostCall → Option Long × HostState
  | .named call addr =>
    let p := getPath addr σ.files.machine
    namedStep inode base call p.1 (σ.onMachine p.2)
  | .fwrite h len buf io =>
    let r := File.gemdosFwrite h len buf io σ.files
    (r.1, { σ with files := r.2 })

def ReadRefused (σ : HostState) : HostCall → Prop
  | .named _ addr => ∃ k < PATH_MAX, (∀ j < k, byteRead addr σ.files.machine j ≠ 0) ∧
      RefusedRead addr σ.files.machine k
  | .fwrite h len buf io => σ.files.invalidHandle h = false ∧ io.memory = true ∧
      ∃ k < len.toNat, RefusedRead buf σ.files.machine k

structure Untouched (σ σ' : HostState) : Prop where
  tree : σ'.tree = σ.tree
  cwd : σ'.cwd = σ.cwd
  files : σ'.files.kernel.files = σ.files.kernel.files

/-- The same call in a machine that has zero for the bytes refused in `m` and refuses none. -/
inductive ZeroFor (m m' : Machine) : HostCall → HostCall → Prop
  | named (call : NamedCall) (addr addr' : Long) (k : ℕ) (hk : k < PATH_MAX)
      (hbefore : ∀ j < k, byteRead addr m j ≠ 0) (hrefused : RefusedRead addr m k)
      (hsame : ∀ j < k, byteRead addr' m' j = byteRead addr m j) (hzero : byteRead addr' m' k = 0)
      (hread : ∀ j ≤ k, ¬ RefusedRead addr' m' j) :
      ZeroFor m m' (.named call addr) (.named call addr')
  | fwrite (h : BitVec 16) (len buf buf' : Long) (io : File.Io)
      (hsame : ∀ k < len.toNat, ¬ RefusedRead buf m k → byteRead buf' m' k = byteRead buf m k)
      (hzero : ∀ k < len.toNat, RefusedRead buf m k → byteRead buf' m' k = 0)
      (hread : ∀ k < len.toNat, ¬ RefusedRead buf' m' k) :
      ZeroFor m m' (.fwrite h len buf io) (.fwrite h len buf' io)

structure SameHost (r r' : Option Long × HostState) : Prop where
  result : r.1 = r'.1
  tree : r.2.tree = r'.2.tree
  cwd : r.2.cwd = r'.2.cwd
  kernel : r.2.files.kernel = r'.2.files.kernel
  handles : r.2.files.handles = r'.2.files.handles

section Machine

variable (m : Machine)

theorem getHandle_machine (f : Stream) (σ : File.FileState) :
    ({ σ with machine := m } : File.FileState).getHandle f =
      ((σ.getHandle f).1, { (σ.getHandle f).2 with machine := m }) := by
  unfold File.FileState.getHandle
  dsimp only
  split <;> rfl

theorem openHandle_machine (id : ℕ) (seekable : Bool) (mode : Mode) (σ : File.FileState) :
    (File.openStream id seekable mode { σ with machine := m }).2.getHandle
        (File.openStream id seekable mode { σ with machine := m }).1 =
      (((File.openStream id seekable mode σ).2.getHandle (File.openStream id seekable mode σ).1).1,
        { ((File.openStream id seekable mode σ).2.getHandle
            (File.openStream id seekable mode σ).1).2 with machine := m }) :=
  getHandle_machine m (File.openStream id seekable mode σ).1 (File.openStream id seekable mode σ).2

theorem gemdosFcreate_machine (path : File.Path) (σ : File.FileState) :
    File.gemdosFcreate path { σ with machine := m } =
      ((File.gemdosFcreate path σ).1, { (File.gemdosFcreate path σ).2 with machine := m }) := by
  cases path with
  | refused => rfl
  | failed => rfl
  | file id seekable =>
    simp only [File.gemdosFcreate, openHandle_machine]
    rcases (File.openStream id seekable .write σ).2.getHandle
      (File.openStream id seekable .write σ).1 with ⟨_ | h, σ'⟩ <;> rfl

theorem gemdosFopen_machine (path : File.Path) (mode : BitVec 16) (σ : File.FileState) :
    File.gemdosFopen path mode { σ with machine := m } =
      ((File.gemdosFopen path mode σ).1, { (File.gemdosFopen path mode σ).2 with machine := m }) := by
  unfold File.gemdosFopen
  split
  · rfl
  · rfl
  · rfl
  · rename_i id seekable mode _
    simp only [openHandle_machine]
    rcases (File.openStream id seekable mode σ).2.getHandle
      (File.openStream id seekable mode σ).1 with ⟨_ | h, σ'⟩ <;> rfl

theorem changeTree_machine (err : Long)
    (change : HostTree → List Byte → Option (Position × HostTree)) (base tp : List Byte) (σ : HostState) :
    changeTree err change base tp (σ.onMachine m) =
      ((changeTree err change base tp σ).1, (changeTree err change base tp σ).2.onMachine m) := by
  have htree : (σ.onMachine m).tree = σ.tree := rfl
  have hcwd : (σ.onMachine m).cwd = σ.cwd := rfl
  rw [changeTree, changeTree, htree, hcwd]
  by_cases h0 : (pathFromTos σ.tree base tp).1 = 0
  · simp only [h0, if_true]
  · simp only [h0, if_false]
    cases withPath (pathFromTos σ.tree base tp).2
      (change σ.tree (absolute σ.cwd (pathFromTos σ.tree base tp).2)) <;> rfl

theorem namedStep_machine (inode : Position → ℕ) (base tp : List Byte) (call : NamedCall)
    (σ : HostState) :
    namedStep inode base call tp (σ.onMachine m) =
      ((namedStep inode base call tp σ).1, (namedStep inode base call tp σ).2.onMachine m) := by
  cases call with
  | dsetpath => rfl
  | dcreate => exact changeTree_machine m _ _ base tp σ
  | fdelete => exact changeTree_machine m _ _ base tp σ
  | fcreate => simp only [namedStep, fcreate, HostState.onMachine, gemdosFcreate_machine]
  | fopen mode =>
    simp only [namedStep, fopen, HostState.onMachine, gemdosFopen_machine]
    cases File.openMode mode <;> rfl

theorem gemdosFwrite_congr {h : BitVec 16} {len buf buf' : Long} (io : File.Io) {σ : File.FileState}
    {m' : Machine}
    (hdata : (File.copyIn buf len.toNat σ.machine).1 = (File.copyIn buf' len.toNat m').1) :
    (File.gemdosFwrite h len buf io σ).1 = (File.gemdosFwrite h len buf' io { σ with machine := m' }).1 ∧
      (File.gemdosFwrite h len buf io σ).2.kernel =
        (File.gemdosFwrite h len buf' io { σ with machine := m' }).2.kernel ∧
      (File.gemdosFwrite h len buf io σ).2.handles =
        (File.gemdosFwrite h len buf' io { σ with machine := m' }).2.handles := by
  have hvalid : File.FileState.invalidHandle h { σ with machine := m' } = σ.invalidHandle h := rfl
  simp only [File.gemdosFwrite, hvalid, ← hdata]
  split_ifs
  · exact ⟨rfl, rfl, rfl⟩
  · exact ⟨rfl, rfl, rfl⟩
  · cases (σ.handles h.toNat).f with
    | none => exact ⟨rfl, rfl, rfl⟩
    | some s =>
      dsimp only
      split_ifs <;> exact ⟨rfl, rfl, rfl⟩

theorem gemdosFwrite_machine {h : BitVec 16} {len buf : Long} {io : File.Io} {σ : File.FileState}
    (hvalid : σ.invalidHandle h = false) (hmem : io.memory = true) :
    (File.gemdosFwrite h len buf io σ).2.machine = (File.copyIn buf len.toNat σ.machine).2 := by
  simp only [File.gemdosFwrite, hvalid, hmem, Bool.false_eq_true, Bool.true_eq_false, if_false]
  cases (σ.handles h.toNat).f with
  | none => rfl
  | some s =>
    dsimp only
    split_ifs <;> rfl

end Machine

def singleFile : HostTree := ((HostTree.empty.make .file [[0x66]]).map Prod.snd).getD HostTree.empty

def textMachine (byte : ℕ → Byte) : Machine :=
  { File.idleMachine with memory := addPtrMemoryArea MEMORY_READWRITE 0x900 16 ⟨16, byte⟩ [] }

def cutName : HostState :=
  ⟨singleFile, [], File.gemdosFileInit (textMachine (fun _ => 0x66)) (File.inherited 3)⟩

end Tosemu.Gemdos
