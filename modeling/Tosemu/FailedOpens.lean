import Tosemu.HandleStreams
import Tosemu.RefusedCalls

namespace Tosemu.Gemdos

open Host Runs

inductive OpenCall
  | fopen (mode : BitVec 16)
  | fcreate (fdopens : Bool)

def fcreateFdopen (inode : Position → ℕ) (base : List Byte) (fdopens : Bool) (tp : List Byte) (σ : HostState) :
    Option Long × HostState :=
  let p := createPath inode σ.tree base σ.cwd tp
  let r := File.gemdosFcreateFdopen fdopens p.1 σ.files
  (r.1, { σ with tree := p.2, files := r.2 })

def openStep (inode : Position → ℕ) (base : List Byte) (σ : HostState) :
    OpenCall × List Byte → Option Long × HostState
  | (.fopen mode, tp) => fopen inode base mode tp σ
  | (.fcreate fdopens, tp) => fcreateFdopen inode base fdopens tp σ

structure NothingLeft (σ σ' : HostState) : Prop where
  tree : σ'.tree = σ.tree
  contents : σ'.files.kernel.files = σ.files.kernel.files
  descriptors : ∀ fd, σ'.files.kernel.lookup fd = σ.files.kernel.lookup fd

section Calls

variable (inode : Position → ℕ) (base : List Byte)

def Opens (σ : HostState) : OpenCall × List Byte → Prop
  | (.fopen mode, tp) =>
    let r := pathFromTos σ.tree base tp
    r.1 ≠ 0 ∧ r.2.length < PATH_MAX ∧
      ∃ m, File.openMode mode = some m ∧ (hostFopen σ.tree (absolute σ.cwd r.2) m).isSome
  | (.fcreate _, tp) =>
    let r := pathFromTos σ.tree base tp
    r.1 ≠ 0 ∧ r.2.length < PATH_MAX ∧ Creatable σ.tree (absolute σ.cwd r.2)

def OnlyFull (σ : HostState) (call : OpenCall × List Byte) : Prop :=
  Opens base σ call ∧ File.freeHandles σ.files = ∅

def DirsLeft (σ : HostState) : OpenCall × List Byte → Prop
  | (.fopen _, _) => False
  | (.fcreate _, tp) =>
    let r := pathFromTos σ.tree base tp
    let s := absolute σ.cwd r.2
    r.1 ≠ 0 ∧ (∃ q, Missing σ.tree (names (segments s).dropLast) q) ∧
      ¬ (r.2.length < PATH_MAX ∧ Creatable σ.tree s)

structure FailsClean (σ : HostState) (call : OpenCall × List Byte) : Prop where
  clean : ∀ code, (openStep inode base σ call).1 = some code → code.toInt < 0 →
    NothingLeft σ (openStep inode base σ call).2
  full : OnlyFull base σ call → (openStep inode base σ call).1 = some GEMDOS_ENHNDL

end Calls

section Dirs

variable {t t' : HostTree} {q : Position}

theorem make_kind {k : Kind} {cs : List Name} (h : t.make k cs = some (q, t')) :
    t.kind q = none ∧ ∀ x, t'.kind x = if x = q then some k else t.kind x := by
  rcases List.eq_nil_or_concat cs with rfl | ⟨init, c, rfl⟩
  · cases h
  · rw [List.concat_eq_append] at h
    obtain ⟨p, -, -, -, -, hnone, hkind⟩ := make_eq_some h
    exact ⟨hnone, hkind⟩

theorem makeDirs_keeps (t : HostTree) (path segs : List Name) (hq : t.kind q ≠ none) :
    (makeDirs t path segs).1.kind q = t.kind q := by
  fun_induction makeDirs t path segs with
  | case1 t path => rfl
  | case2 t path seg => rfl
  | case3 t path seg seg' segs hm ih => exact ih hq
  | case4 t path seg seg' segs p t' hm r ih =>
    obtain ⟨hnone, hkind⟩ := make_kind hm
    have hold : t'.kind q = t.kind q := by
      rw [hkind, if_neg]
      rintro rfl
      exact hq hnone
    rw [← hold]
    exact ih (hold ▸ hq)

theorem makeDirs_same_iff (t : HostTree) (path segs : List Name) :
    (makeDirs t path segs).1 = t ↔ (makeDirs t path segs).2 = [] := by
  fun_induction makeDirs t path segs with
  | case1 t path => exact iff_of_true rfl rfl
  | case2 t path seg => exact iff_of_true rfl rfl
  | case3 t path seg seg' segs hm ih => exact ih
  | case4 t path seg seg' segs p t' hm r ih =>
    refine iff_of_false (fun hsame => ?_) (List.cons_ne_nil _ _)
    obtain ⟨hnone, hkind⟩ := make_kind hm
    have hdir : t'.kind p = some .dir := by rw [hkind, if_pos rfl]
    have hkept := makeDirs_keeps t' (path ++ [seg]) (seg' :: segs) (q := p) (by simp [hdir])
    have hgone : r.1.kind p = none := by
      rw [hsame]
      exact hnone
    rw [hgone, hdir] at hkept
    cases hkept

end Dirs

end Tosemu.Gemdos

namespace Tosemu.File

open Host

variable {σ : FileState}

theorem handle_not_error {i : ℕ} (h : i < HANDLES) {r : Option Long} {code : Long}
    (hr : r = some (BitVec.ofNat 32 i)) (hcode : r = some code) : ¬ code.toInt < 0 := by
  have hlt : i < 10 := h
  have hnat := handle_toInt h
  obtain rfl := Option.some.inj (hr.symm.trans hcode)
  rw [BitVec.toInt_eq_toNat_of_lt (by omega), hnat]
  omega

theorem fopen_file {mode : BitVec 16} {m : Mode} (hm : openMode mode = some m) (id : ℕ) (seekable : Bool)
    (σ : FileState) :
    (∃ i, IsLeast (freeHandles σ) i ∧ gemdosFopen (.file id seekable) mode σ =
      (some (BitVec.ofNat 32 i), (openStream id seekable m σ).2.setSlot i
        ⟨some (openStream id seekable m σ).1, HANDLE_ALLOCATED⟩)) ∨
      freeHandles σ = ∅ ∧ gemdosFopen (.file id seekable) mode σ =
        (some GEMDOS_ENHNDL, (openStream id seekable m σ).2) := by
  have hget : ∀ f τ, FileState.getHandle f τ = τ.getHandleOf (some f) := fun _ _ => rfl
  simp only [gemdosFopen, hm, hget]
  rcases getHandleOf_cases (some (openStream id seekable m σ).1) (openStream id seekable m σ).2 with
    ⟨i, hleast, hget⟩ | ⟨hfull, hget⟩
  · simp only [hget]
    exact Or.inl ⟨i, hleast, rfl⟩
  · simp only [hget]
    exact Or.inr ⟨hfull, trivial⟩

theorem openStream_leaks (id : ℕ) (seekable : Bool) (m : Mode) (σ : FileState) :
    ∃ fd, (openStream id seekable m σ).2.kernel.lookup fd ≠ σ.kernel.lookup fd := by
  refine ⟨σ.kernel.lowestFree, ?_⟩
  rw [openStream_lookup, if_pos rfl]
  intro hsame
  have hfree := σ.kernel.lowestFree_free
  rw [← hsame] at hfree
  cases hfree

end Tosemu.File

namespace Tosemu.Gemdos

open Host

section Targets

variable {inode : Position → ℕ} {base : List Byte} {σ : HostState}

theorem openPath_file_iff {m : Mode} {t : HostTree} {cwd : Position} {tp : List Byte} :
    (∃ id seekable, (openPath inode m t base cwd tp).1 = .file id seekable) ↔
      (pathFromTos t base tp).1 ≠ 0 ∧ (pathFromTos t base tp).2.length < PATH_MAX ∧
        (hostFopen t (absolute cwd (pathFromTos t base tp).2) m).isSome := by
  unfold openPath withPath
  dsimp only
  by_cases h0 : (pathFromTos t base tp).1 = 0
  · simp [h0]
  · by_cases hlen : (pathFromTos t base tp).2.length < PATH_MAX
    · cases hopen : hostFopen t (absolute cwd (pathFromTos t base tp).2) m <;> simp [h0, hlen]
    · simp [h0, hlen]

theorem openPath_tree {m : Mode} {t : HostTree} {cwd : Position} {tp : List Byte}
    (h : ¬ ∃ id seekable, (openPath inode m t base cwd tp).1 = .file id seekable) :
    (openPath inode m t base cwd tp).2 = t := by
  unfold openPath at h ⊢
  dsimp only at h ⊢
  split_ifs at h ⊢
  · rfl
  · cases hopen : withPath (pathFromTos t base tp).2
        (hostFopen t (absolute cwd (pathFromTos t base tp).2) m) with
    | none => rfl
    | some r =>
      rw [hopen] at h
      exact absurd ⟨_, _, rfl⟩ h

theorem createPath_file_iff {t : HostTree} {cwd : Position} {tp : List Byte} :
    (∃ id seekable, (createPath inode t base cwd tp).1 = .file id seekable) ↔
      (pathFromTos t base tp).1 ≠ 0 ∧ (pathFromTos t base tp).2.length < PATH_MAX ∧
        Creatable t (absolute cwd (pathFromTos t base tp).2) := by
  have hcreate := makeDirs_create_iff t (absolute cwd (pathFromTos t base tp).2)
  unfold createPath withPath
  dsimp only
  by_cases h0 : (pathFromTos t base tp).1 = 0
  · simp [h0]
  · by_cases hlen : (pathFromTos t base tp).2.length < PATH_MAX
    · simp only [h0, hlen, if_true, if_false, ne_eq, not_false_eq_true, true_and]
      cases hmade : (makeDirs t [] (segments (absolute cwd (pathFromTos t base tp).2))).1.create
          (absolute cwd (pathFromTos t base tp).2) with
      | none =>
        refine iff_of_false (by simp) (fun h => ?_)
        obtain ⟨t'', hsome⟩ := (hcreate _).mpr ⟨h, rfl⟩
        rw [hmade] at hsome
        cases hsome
      | some r => exact iff_of_true ⟨_, _, rfl⟩ ((hcreate r.1).mp ⟨r.2, hmade⟩).1
    · simp [h0, hlen]

theorem createPath_tree {fdopens : Bool} {tp : List Byte}
    (h : ¬ ∃ id seekable, (createPath inode σ.tree base σ.cwd tp).1 = .file id seekable) :
    (createPath inode σ.tree base σ.cwd tp).2 = σ.tree ↔ ¬ DirsLeft base σ (.fcreate fdopens, tp) := by
  have hno := h
  rw [createPath_file_iff] at hno
  unfold createPath at h ⊢
  unfold DirsLeft
  dsimp only at h ⊢
  split_ifs at h ⊢ with h0
  · exact iff_of_true rfl (fun hdirs => hdirs.1 h0)
  · have hmade : (∃ q, Missing σ.tree
        (names (segments (absolute σ.cwd (pathFromTos σ.tree base tp).2)).dropLast) q) ↔
          (makeDirs σ.tree [] (segments (absolute σ.cwd (pathFromTos σ.tree base tp).2))).2 ≠ [] := by
      simp only [← mem_makeDirs_iff, ne_eq, List.eq_nil_iff_forall_not_mem, not_forall, not_not]
    cases hcreate : withPath (pathFromTos σ.tree base tp).2
        ((makeDirs σ.tree [] (segments (absolute σ.cwd (pathFromTos σ.tree base tp).2))).1.create
          (absolute σ.cwd (pathFromTos σ.tree base tp).2)) with
    | none =>
      dsimp only
      rw [makeDirs_same_iff, hmade]
      constructor
      · rintro hnil ⟨-, hne, -⟩
        exact hne hnil
      · intro hclean
        by_contra hne
        exact hclean ⟨h0, hne, fun hopens => hno ⟨h0, hopens⟩⟩
    | some r =>
      rw [hcreate] at h
      exact absurd ⟨_, _, rfl⟩ h

end Targets

section Ends

variable {inode : Position → ℕ} {base : List Byte} {σ : HostState} {call : OpenCall × List Byte}

inductive OpenEnds (inode : Position → ℕ) (base : List Byte) (σ : HostState) (call : OpenCall × List Byte) : Prop
  | failed (code : Long) (hneg : code.toInt < 0) (hopens : ¬ Opens base σ call)
      (hcode : (openStep inode base σ call).1 = some code)
      (hfiles : (openStep inode base σ call).2.files = σ.files)
      (htree : (openStep inode base σ call).2.tree = σ.tree ↔ ¬ DirsLeft base σ call)
  | opened (i : ℕ) (hfree : i ∈ File.freeHandles σ.files) (hopens : Opens base σ call)
      (hcode : (openStep inode base σ call).1 = some (BitVec.ofNat 32 i))
  | full (code : Long) (hneg : code.toInt < 0) (hfull : OnlyFull base σ call)
      (hcode : (openStep inode base σ call).1 = some code)
      (hleak : ∃ fd, (openStep inode base σ call).2.files.kernel.lookup fd ≠ σ.files.kernel.lookup fd)

theorem not_dirsLeft (h : Opens base σ call) : ¬ DirsLeft base σ call := by
  obtain ⟨open_call, tp⟩ := call
  cases open_call with
  | fopen mode => exact id
  | fcreate fdopens => exact fun hdirs => hdirs.2.2 h.2

theorem OpenEnds.failsClean_iff (h : OpenEnds inode base σ call) :
    FailsClean inode base σ call ↔ ¬ OnlyFull base σ call ∧ ¬ DirsLeft base σ call := by
  cases h with
  | failed code hneg hopens hcode hfiles htree =>
    have hnot : ¬ OnlyFull base σ call := fun hfull => hopens hfull.1
    constructor
    · intro hclean
      exact ⟨hnot, htree.mp (hclean.clean code hcode hneg).tree⟩
    · rintro ⟨-, hdirs⟩
      refine ⟨fun _ _ _ => ⟨htree.mpr hdirs, ?_, ?_⟩, fun hfull => absurd hfull hnot⟩
      · rw [hfiles]
      · rw [hfiles]
        exact fun _ => rfl
  | opened i hfree hopens hcode =>
    have hnot : ¬ OnlyFull base σ call := by
      rintro ⟨-, hempty⟩
      rw [hempty] at hfree
      exact hfree
    refine iff_of_true ⟨fun code hsome hneg => ?_, fun hfull => absurd hfull hnot⟩
      ⟨hnot, not_dirsLeft hopens⟩
    exact absurd hneg (File.handle_not_error hfree.1 hcode hsome)
  | full code hneg hfull hcode hleak =>
    refine iff_of_false (fun hclean => ?_) (fun h => h.1 hfull)
    obtain ⟨fd, hfd⟩ := hleak
    exact hfd ((hclean.clean code hcode hneg).descriptors fd)

theorem openEnds_of_step (act : File.Path → File.FileState → Option Long × File.FileState)
    (path : File.Path) {t : HostTree} (hopens : (∃ id seekable, path = .file id seekable) ↔ Opens base σ call)
    (hstep : openStep inode base σ call =
      ((act path σ.files).1, { σ with tree := t, files := (act path σ.files).2 }))
    (htree : (¬ ∃ id seekable, path = .file id seekable) → (t = σ.tree ↔ ¬ DirsLeft base σ call))
    (hfailed : (¬ ∃ id seekable, path = .file id seekable) →
      ∃ code : Long, code.toInt < 0 ∧ act path σ.files = (some code, σ.files))
    (hfile : ∀ id seekable, path = .file id seekable →
      (∃ i ∈ File.freeHandles σ.files, (act path σ.files).1 = some (BitVec.ofNat 32 i)) ∨
        File.freeHandles σ.files = ∅ ∧ ∃ (code : Long) (m : Mode), code.toInt < 0 ∧
          act path σ.files = (some code, (File.openStream id seekable m σ.files).2)) :
    OpenEnds inode base σ call := by
  by_cases hpath : ∃ id seekable, path = .file id seekable
  · have hopen := hopens.mp hpath
    obtain ⟨id, seekable, hpath⟩ := hpath
    rcases hfile id seekable hpath with ⟨i, hfree, hcode⟩ | ⟨hfull, code, m, hneg, hact⟩
    · apply OpenEnds.opened i hfree hopen
      rw [hstep]
      exact hcode
    · apply OpenEnds.full code hneg ⟨hopen, hfull⟩
      · rw [hstep, hact]
      · rw [hstep, hact]
        exact File.openStream_leaks id seekable m σ.files
  · obtain ⟨code, hneg, hact⟩ := hfailed hpath
    apply OpenEnds.failed code hneg (hopens.not.mp hpath)
    · rw [hstep, hact]
    · rw [hstep, hact]
    · rw [hstep]
      exact htree hpath

theorem fopen_ends (inode : Position → ℕ) (base : List Byte) (σ : HostState) (mode : BitVec 16) (tp : List Byte) :
    OpenEnds inode base σ (.fopen mode, tp) := by
  cases hm : File.openMode mode with
  | none =>
    have hstep : openStep inode base σ (.fopen mode, tp) =
        (some (if (pathFromTos σ.tree base tp).1 = 0 then GEMDOS_EFILNF else GEMDOS_EINVAL), σ) := by
      rw [openStep, fopen, hm]
    apply OpenEnds.failed _ _ _ (congrArg Prod.fst hstep)
    · rw [hstep]
    · rw [hstep]
      exact iff_of_true rfl id
    · split_ifs <;> decide
    · rintro ⟨-, -, m, hmode, -⟩
      rw [hm] at hmode
      cases hmode
  | some m =>
    apply openEnds_of_step (fun path σ => File.gemdosFopen path mode σ)
      (openPath inode m σ.tree base σ.cwd tp).1
    · rw [openPath_file_iff]
      simp [Opens, hm]
    · rw [openStep, fopen, hm]
    · exact fun hpath => iff_of_true (openPath_tree hpath) id
    · intro hpath
      refine ⟨GEMDOS_EFILNF, by decide, ?_⟩
      cases hend : (openPath inode m σ.tree base σ.cwd tp).1 with
      | refused => rfl
      | failed => exact gemdosFopen_failed hm σ.files
      | file id seekable => exact absurd ⟨id, seekable, hend⟩ hpath
    · intro id seekable hpath
      rw [hpath]
      rcases File.fopen_file hm id seekable σ.files with ⟨i, hleast, hact⟩ | ⟨hfull, hact⟩
      · exact Or.inl ⟨i, hleast.1, congrArg Prod.fst hact⟩
      · exact Or.inr ⟨hfull, GEMDOS_ENHNDL, m, by decide, hact⟩

theorem fcreate_ends (inode : Position → ℕ) (base : List Byte) (σ : HostState) (fdopens : Bool) (tp : List Byte) :
    OpenEnds inode base σ (.fcreate fdopens, tp) := by
  apply openEnds_of_step (File.gemdosFcreateFdopen fdopens) _ createPath_file_iff rfl
  · exact createPath_tree
  · intro hpath
    cases hend : (createPath inode σ.tree base σ.cwd tp).1 with
    | refused => exact ⟨GEMDOS_EFILNF, by decide, rfl⟩
    | failed => exact ⟨GEMDOS_EACCDN, by decide, rfl⟩
    | file id seekable => exact absurd ⟨id, seekable, hend⟩ hpath
  · intro id seekable hpath
    rw [hpath]
    rcases File.fcreate_file fdopens id seekable σ.files with ⟨i, hleast, hact⟩ | ⟨hfull, hact⟩
    · exact Or.inl ⟨i, hleast.1, congrArg Prod.fst hact⟩
    · exact Or.inr ⟨hfull, -1, .write, by decide, hact⟩

end Ends

theorem failed_open_clean_iff (inode : Position → ℕ) (base : List Byte) (σ : HostState)
    (call : OpenCall × List Byte) :
    FailsClean inode base σ call ↔ ¬ OnlyFull base σ call ∧ ¬ DirsLeft base σ call := by
  obtain ⟨open_call, tp⟩ := call
  cases open_call with
  | fopen mode => exact (fopen_ends inode base σ mode tp).failsClean_iff
  | fcreate fdopens => exact (fcreate_ends inode base σ fdopens tp).failsClean_iff

def fullTable : HostState :=
  Runs.run (openStep List.length []) cutName (List.replicate 4 (.fopen 0, [0x66]))

/-- With no handle free `Fopen` for writing empties the file, and `Fcreate` answers `-1`; `Fcreate` of
`d` with a backslash behind it leaves the directory `d`. -/
theorem failed_opens_leave :
    ((openStep List.length [] fullTable (.fopen 1, [0x66])).1 = some GEMDOS_ENHNDL ∧
      ¬ FailsClean List.length [] fullTable (.fopen 1, [0x66])) ∧
    ((openStep List.length [] fullTable (.fcreate true, [0x66])).1 = some (-1) ∧
      ¬ FailsClean List.length [] fullTable (.fcreate true, [0x66])) ∧
    (openStep List.length [] cutName (.fcreate true, [0x64, 0x5c])).1 = some GEMDOS_EACCDN ∧
      ¬ FailsClean List.length [] cutName (.fcreate true, [0x64, 0x5c]) := by
  have hopen : (openStep List.length [] fullTable (.fopen 1, [0x66])).1 = some GEMDOS_ENHNDL := by decide +kernel
  have hfull : (openStep List.length [] fullTable (.fcreate true, [0x66])).1 = some (-1) := by decide +kernel
  have hdirs : (openStep List.length [] cutName (.fcreate true, [0x64, 0x5c])).1 = some GEMDOS_EACCDN := by
    decide +kernel
  refine ⟨⟨hopen, fun h => ?_⟩, ⟨hfull, fun h => ?_⟩, hdirs, fun h => ?_⟩
  · have hcontent := congrFun (h.clean _ hopen (by decide)).contents 1
    exact absurd hcontent (by decide +kernel)
  · have hcontent := congrFun (h.clean _ hfull (by decide)).contents 1
    exact absurd hcontent (by decide +kernel)
  · have hkind := congrArg (fun t => t.kind [[0x64]]) (h.clean _ hdirs (by decide)).tree
    exact absurd hkind (by decide +kernel)

end Tosemu.Gemdos
