import Tosemu.FailedOpens

namespace Tosemu.Gemdos

open Host

section Calls

variable (base tp : List Byte) (σ : HostState)

def Accepted : Prop := (pathFromTos σ.tree base tp).1 ≠ 0 ∧ (pathFromTos σ.tree base tp).2.length < PATH_MAX

def ubuf : List Byte := absolute σ.cwd (pathFromTos σ.tree base tp).2

def Names (k : Kind) (p : Position) : Prop :=
  Accepted base tp σ ∧ σ.tree.resolve (ubuf base tp σ) = some p ∧ σ.tree.kind p = some k

structure OpensOnly (inode : Position → ℕ) (mode : BitVec 16) : Prop where
  missing : (¬ ∃ p, Names base tp σ .file p) →
    (∃ code : Long, (fopen inode base mode tp σ).1 = some code ∧ code.toInt < 0) ∧
      (fopen inode base mode tp σ).2.tree = σ.tree
  existing : ∀ p, Names base tp σ .file p →
    (fopen inode base mode tp σ).2.files.kernel.files (inode p) = σ.files.kernel.files (inode p)

/-- Opened for writing, a file that is not there is made and one that is there is emptied. -/
inductive OpenWrites (inode : Position → ℕ) : Prop
  | creates (hacc : Accepted base tp σ) (hnone : σ.tree.resolve (ubuf base tp σ) = none)
      (hcreate : (σ.tree.create (ubuf base tp σ)).isSome)
  | truncates (p : Position) (hp : Names base tp σ .file p) (hdata : σ.files.kernel.files (inode p) ≠ [])

def OpensDirectory : Prop :=
  (∃ p, Names base tp σ .dir p) ∧ (File.freeHandles σ.files).Nonempty

end Calls

section Cases

variable (inode : Position → ℕ) {base tp : List Byte} {σ : HostState} {mode : BitVec 16}

theorem fopen_refused (h : ¬ Accepted base tp σ) : ∃ code : Long, code.toInt < 0 ∧
    fopen inode base mode tp σ = (some code, σ) := by
  by_cases h0 : (pathFromTos σ.tree base tp).1 = 0
  · refine ⟨GEMDOS_EFILNF, by decide, ?_⟩
    unfold fopen
    cases hm : File.openMode mode with
    | none => rw [if_pos h0]
    | some m =>
      simp only [openPath, h0, if_true]
      rfl
  · have hlen : ¬ (pathFromTos σ.tree base tp).2.length < PATH_MAX := fun hlen => h ⟨h0, hlen⟩
    cases hm : File.openMode mode with
    | none =>
      refine ⟨GEMDOS_EINVAL, by decide, ?_⟩
      simp only [fopen, hm, if_neg h0]
    | some m =>
      refine ⟨GEMDOS_EFILNF, by decide, ?_⟩
      simp only [fopen, hm, openPath, if_neg h0, withPath, if_neg hlen, gemdosFopen_failed hm]

theorem fopen_failed {m : Mode} (hm : File.openMode mode = some m) (hacc : Accepted base tp σ)
    (h : hostFopen σ.tree (ubuf base tp σ) m = none) :
    fopen inode base mode tp σ = (some GEMDOS_EFILNF, σ) := by
  have hopen : hostFopen σ.tree (absolute σ.cwd (pathFromTos σ.tree base tp).2) m = none := h
  simp only [fopen, hm, openPath, if_neg hacc.1, withPath, if_pos hacc.2, hopen, gemdosFopen_failed hm]

theorem fopen_opened {m : Mode} (hm : File.openMode mode = some m) (hacc : Accepted base tp σ)
    {p : Position} {t : HostTree} (h : hostFopen σ.tree (ubuf base tp σ) m = some (p, t)) :
    (fopen inode base mode tp σ).2.tree = t ∧
      (fopen inode base mode tp σ).2.files.kernel.files =
        (if m = .write then Function.update σ.files.kernel.files (inode p) [] else σ.files.kernel.files) ∧
      ((∃ i ∈ File.freeHandles σ.files, (fopen inode base mode tp σ).1 = some (BitVec.ofNat 32 i)) ∨
        File.freeHandles σ.files = ∅ ∧ (fopen inode base mode tp σ).1 = some GEMDOS_ENHNDL) := by
  have hopen : hostFopen σ.tree (absolute σ.cwd (pathFromTos σ.tree base tp).2) m = some (p, t) := h
  have hfopen : fopen inode base mode tp σ =
      ((File.gemdosFopen (.file (inode p) true) mode σ.files).1,
        { σ with tree := t, files := (File.gemdosFopen (.file (inode p) true) mode σ.files).2 }) := by
    simp only [fopen, hm, openPath, if_neg hacc.1, withPath, if_pos hacc.2, hopen]
  rw [hfopen]
  refine ⟨rfl, ?_⟩
  rcases File.fopen_file hm (inode p) true σ.files with ⟨i, hleast, hact⟩ | ⟨hfull, hact⟩
  · rw [hact]
    exact ⟨File.openStream_files (inode p) true m, Or.inl ⟨i, hleast.1, rfl⟩⟩
  · rw [hact]
    exact ⟨File.openStream_files (inode p) true m, Or.inr ⟨hfull, rfl⟩⟩

theorem opensOnly_unchanged {code : Long} (hcode : (fopen inode base mode tp σ).1 = some code)
    (hneg : code.toInt < 0) (h : (fopen inode base mode tp σ).2 = σ) :
    OpensOnly base tp σ inode mode := by
  refine ⟨fun _ => ⟨⟨code, hcode, hneg⟩, ?_⟩, fun p _ => ?_⟩
  · rw [h]
  · rw [h]

theorem opensOnly_failed {m : Mode} (hm : File.openMode mode = some m) (hacc : Accepted base tp σ)
    (h : hostFopen σ.tree (ubuf base tp σ) m = none) : OpensOnly base tp σ inode mode := by
  have hfail := fopen_failed inode hm hacc h
  exact opensOnly_unchanged inode (congrArg Prod.fst hfail) (by decide) (congrArg Prod.snd hfail)

theorem opensOnly_kept {m : Mode} (hm : File.openMode mode = some m) (hw : m ≠ .write)
    (hacc : Accepted base tp σ) {p : Position}
    (h : hostFopen σ.tree (ubuf base tp σ) m = some (p, σ.tree)) :
    OpensOnly base tp σ inode mode ↔
      (∃ p, Names base tp σ .file p) ∨ ¬ (File.freeHandles σ.files).Nonempty := by
  obtain ⟨htree, hfiles, hcode⟩ := fopen_opened inode hm hacc h
  rw [if_neg hw] at hfiles
  rcases hcode with ⟨i, hfree, hcode⟩ | ⟨hfull, hcode⟩
  · constructor
    · intro hopens
      by_contra hno
      rw [not_or] at hno
      obtain ⟨⟨code, hsome, hneg⟩, -⟩ := hopens.missing hno.1
      exact absurd hneg (File.handle_not_error hfree.1 hcode hsome)
    · rintro (hfile | hempty)
      · exact ⟨fun hno => absurd hfile hno, fun q _ => by rw [hfiles]⟩
      · exact absurd ⟨i, hfree⟩ hempty
  · refine iff_of_true ⟨fun _ => ⟨⟨_, hcode, by decide⟩, htree⟩, fun q _ => by rw [hfiles]⟩ (Or.inr ?_)
    rw [hfull]
    exact Set.not_nonempty_empty

theorem names_cases (hacc : Accepted base tp σ) {p : Position}
    (h : σ.tree.resolve (ubuf base tp σ) = some p) {k : Kind} (hk : σ.tree.kind p = some k) :
    ∀ k' q, Names base tp σ k' q ↔ k' = k ∧ q = p := by
  intro k' q
  constructor
  · rintro ⟨-, hq, hkind⟩
    obtain rfl := Option.some.inj (h.symm.trans hq)
    rw [hk] at hkind
    exact ⟨(Option.some.inj hkind).symm, rfl⟩
  · rintro ⟨rfl, rfl⟩
    exact ⟨hacc, h, hk⟩

theorem kind_of_walk {t : HostTree} {cs : List Name} {p q : Position} (hp : (t.kind p).isSome)
    (h : t.walk p cs = some q) : (t.kind q).isSome := by
  induction cs generalizing p with
  | nil => exact Option.some.inj h ▸ hp
  | cons c cs ih =>
    obtain ⟨r, hr, hw⟩ := Option.bind_eq_some_iff.mp h
    exact ih (enter_eq_some.mp hr).2.2 hw

theorem opensOnly_read (hm : File.openMode mode = some .read) (hacc : Accepted base tp σ) :
    OpensOnly base tp σ inode mode ↔ ¬ OpensDirectory base tp σ := by
  cases hr : σ.tree.resolve (ubuf base tp σ) with
  | none =>
    have hopen : hostFopen σ.tree (ubuf base tp σ) .read = none := by
      rw [hostFopen, hr, Option.map_none]
    refine iff_of_true (opensOnly_failed inode hm hacc hopen) ?_
    rintro ⟨⟨p, -, hp, -⟩, -⟩
    rw [hr] at hp
    cases hp
  | some p =>
    have hopen : hostFopen σ.tree (ubuf base tp σ) .read = some (p, σ.tree) := by
      rw [hostFopen, hr, Option.map_some]
    have hroot : (σ.tree.kind []).isSome := by rw [σ.tree.root, Option.isSome_some]
    obtain ⟨k, hk⟩ := Option.isSome_iff_exists.mp (kind_of_walk hroot hr)
    rw [opensOnly_kept inode hm (by decide) hacc hopen, OpensDirectory]
    cases k <;> simp [names_cases hacc hr hk]

theorem opensOnly_update (hm : File.openMode mode = some .update) (hacc : Accepted base tp σ) :
    OpensOnly base tp σ inode mode := by
  cases hopen : hostFopen σ.tree (ubuf base tp σ) .update with
  | none => exact opensOnly_failed inode hm hacc hopen
  | some r =>
    obtain ⟨p, t⟩ := r
    rw [hostFopen] at hopen
    cases hr : σ.tree.resolve (ubuf base tp σ) with
    | none =>
      rw [hr] at hopen
      cases hopen
    | some q =>
      simp only [hr] at hopen
      split_ifs at hopen with hfile
      obtain ⟨rfl, rfl⟩ := Prod.mk.inj (Option.some.inj hopen)
      have hupdate : hostFopen σ.tree (ubuf base tp σ) .update = some (q, σ.tree) := by
        simp only [hostFopen, hr, hfile, if_true]
      exact (opensOnly_kept inode hm (by decide) hacc hupdate).mpr (Or.inl ⟨q, hacc, hr, hfile⟩)

theorem opensOnly_write (hm : File.openMode mode = some .write) (hacc : Accepted base tp σ) :
    OpensOnly base tp σ inode mode ↔ ¬ OpenWrites base tp σ inode := by
  cases hopen : σ.tree.create (ubuf base tp σ) with
  | none =>
    refine iff_of_true (opensOnly_failed inode hm hacc hopen) ?_
    rintro (⟨-, -, hcreate⟩ | ⟨p, ⟨-, hr, hfile⟩, -⟩)
    · rw [hopen] at hcreate
      cases hcreate
    · simp [HostTree.create, hr, hfile] at hopen
  | some r =>
    obtain ⟨p, t⟩ := r
    obtain ⟨htree, hfiles, hcode⟩ := fopen_opened inode hm hacc (m := .write) hopen
    rw [if_pos rfl] at hfiles
    cases hr : σ.tree.resolve (ubuf base tp σ) with
    | none =>
      refine iff_of_false (fun hopens => ?_) (not_not.mpr (.creates hacc hr (by rw [hopen]; rfl)))
      have hnofile : ¬ ∃ q, Names base tp σ .file q := by
        rintro ⟨q, -, hq, -⟩
        rw [hr] at hq
        cases hq
      have hsame := (hopens.missing hnofile).2
      rw [htree] at hsame
      simp only [HostTree.create, hr] at hopen
      obtain ⟨hnone, hkind⟩ := make_kind hopen
      have hnew := hkind p
      rw [if_pos rfl, hsame, hnone] at hnew
      cases hnew
    | some q =>
      simp only [HostTree.create, hr] at hopen
      split_ifs at hopen with hfile
      obtain ⟨rfl, rfl⟩ := Prod.mk.inj (Option.some.inj hopen)
      have hnames := names_cases hacc hr hfile
      constructor
      · rintro hopens (⟨-, hnone, -⟩ | ⟨p, hp, hdata⟩)
        · rw [hr] at hnone
          cases hnone
        · obtain ⟨-, rfl⟩ := (hnames .file p).mp hp
          have hsame := hopens.existing p hp
          rw [hfiles, Function.update_self] at hsame
          exact hdata hsame.symm
      · intro hno
        refine ⟨fun hmissing => absurd ⟨q, hacc, hr, hfile⟩ hmissing, fun p hp => ?_⟩
        obtain ⟨-, rfl⟩ := (hnames .file p).mp hp
        rw [hfiles, Function.update_self]
        by_contra hdata
        exact hno (.truncates p hp (Ne.symm hdata))

end Cases

theorem fopen_opens_only_iff (inode : Position → ℕ) (base tp : List Byte) (σ : HostState)
    (mode : BitVec 16) :
    OpensOnly base tp σ inode mode ↔
      ¬ (File.openMode mode = some .write ∧ OpenWrites base tp σ inode) ∧
        ¬ (File.openMode mode = some .read ∧ OpensDirectory base tp σ) := by
  by_cases hacc : Accepted base tp σ
  · cases hm : File.openMode mode with
    | none =>
      have hfopen : fopen inode base mode tp σ = (some GEMDOS_EINVAL, σ) := by
        simp only [fopen, hm, if_neg hacc.1]
      refine iff_of_true ?_ ⟨by simp, by simp⟩
      exact opensOnly_unchanged inode (congrArg Prod.fst hfopen) (by decide) (congrArg Prod.snd hfopen)
    | some m =>
      cases m with
      | read => simpa using opensOnly_read inode hm hacc
      | write => simpa using opensOnly_write inode hm hacc
      | update => exact iff_of_true (opensOnly_update inode hm hacc) ⟨by simp, by simp⟩
  · have hrefused : ∃ code : Long, code.toInt < 0 ∧ fopen inode base mode tp σ = (some code, σ) :=
      fopen_refused inode hacc
    obtain ⟨code, hneg, hfopen⟩ := hrefused
    refine iff_of_true ?_ ⟨?_, ?_⟩
    · exact opensOnly_unchanged inode (congrArg Prod.fst hfopen) hneg (congrArg Prod.snd hfopen)
    · rintro ⟨-, ⟨h, -, -⟩ | ⟨p, ⟨h, -⟩, -⟩⟩ <;> exact hacc h
    · rintro ⟨-, ⟨p, h, -⟩, -⟩
      exact hacc h

def writtenFile : HostState :=
  { cutName with files :=
    { cutName.files with kernel := { cutName.files.kernel with files := fun _ => [0x78] } } }

theorem fopen_creates_and_truncates :
    ¬ OpensOnly [] [0x67] writtenFile List.length 1 ∧ ¬ OpensOnly [] [0x66] writtenFile List.length 1 ∧
      ¬ OpensOnly [] [0x2e] writtenFile List.length 0 := by
  refine ⟨fun h => ?_, fun h => ?_, fun h => ?_⟩
  · have hmissing : ¬ ∃ p, Names [] [0x67] writtenFile .file p := by
      rintro ⟨p, -, hp, -⟩
      have hnone : writtenFile.tree.resolve (ubuf [] [0x67] writtenFile) = none := by decide +kernel
      rw [hnone] at hp
      cases hp
    have hmade : (fopen List.length [] 1 [0x67] writtenFile).2.tree.kind [[0x67]] ≠
        writtenFile.tree.kind [[0x67]] := by decide +kernel
    exact hmade (congrArg (fun t => t.kind [[0x67]]) (h.missing hmissing).2)
  · have hnames : Names [] [0x66] writtenFile .file [[0x66]] := by
      refine ⟨?_, by decide +kernel, by decide +kernel⟩
      unfold Accepted
      decide +kernel
    have hempty : (fopen List.length [] 1 [0x66] writtenFile).2.files.kernel.files 1 = [] := by
      decide +kernel
    have hsame := h.existing _ hnames
    rw [show List.length [[(0x66 : Byte)]] = 1 from rfl, hempty] at hsame
    cases hsame
  · have hmissing : ¬ ∃ p, Names [] [0x2e] writtenFile .file p := by
      rintro ⟨p, -, hp, hfile⟩
      have hroot : writtenFile.tree.resolve (ubuf [] [0x2e] writtenFile) = some [] := by decide +kernel
      rw [hroot] at hp
      obtain rfl := Option.some.inj hp
      rw [writtenFile.tree.root] at hfile
      cases hfile
    have hhandle : (fopen List.length [] 0 [0x2e] writtenFile).1 = some 6 := by decide +kernel
    obtain ⟨⟨code, hcode, hneg⟩, -⟩ := h.missing hmissing
    rw [hhandle] at hcode
    obtain rfl := Option.some.inj hcode
    exact absurd hneg (by decide)

end Tosemu.Gemdos
