import Mathlib.Order.Bounds.Defs
import Tosemu.FileHandlesRuns

namespace Tosemu.Host.Stream

variable (s : Stream) (k : Kernel)

theorem fclose_lookup (fd : ℕ) :
    (s.fclose k).lookup fd = if fd = s.fd then none else k.lookup fd := by
  by_cases hfd : fd = s.fd
  · rw [if_pos hfd, hfd, fclose, Kernel.close]
    cases h : (k.write s.fd s.pending).lookup s.fd with
    | none => exact h
    | some o => exact Kernel.lookup_setFd_self h none
  · rw [if_neg hfd]
    exact (s.fclose_actsOn k).others fd (by simpa using Ne.symm hfd)

end Tosemu.Host.Stream

namespace Tosemu.File

open Host Runs

def FileCall.Opens : FileCall → Prop
  | .fopen _ _ => True
  | .fcreate _ => True
  | _ => False

def FileCall.OnTable : FileCall → Prop
  | .fopen _ _ => True
  | .fcreate _ => True
  | .fclose h => h.toNat < 2 ∨ 5 < h.toNat
  | _ => False

def freeHandles (σ : FileState) : Set ℕ := {i | i < HANDLES ∧ (σ.handles i).allocated = false}

inductive Opened (σ σ' : FileState) : Option Long → Prop
  | failed (r : Long) (hneg : r.toInt < 0) (hsame : σ'.handles = σ.handles) : Opened σ σ' (some r)
  | opened (i : ℕ) (s : Stream) (hleast : IsLeast (freeHandles σ) i) (hfd : s.fd = σ.kernel.lowestFree)
      (hnew : σ'.handles = Function.update σ.handles i ⟨some s, HANDLE_ALLOCATED⟩) :
      Opened σ σ' (some (BitVec.ofNat 32 i))

section Open

variable {σ : FileState}

theorem find_isLeast {i : ℕ} (h : (List.range HANDLES).find? (fun i => !(σ.handles i).allocated) = some i) :
    IsLeast (freeHandles σ) i := by
  obtain ⟨hfree, hmem, hbefore⟩ := List.find?_range_eq_some.mp h
  refine ⟨⟨List.mem_range.mp hmem, by simpa using hfree⟩, fun l hl => ?_⟩
  by_contra hlt
  have hl' := hbefore l (not_le.mp hlt)
  rw [hl.2] at hl'
  exact Bool.false_ne_true hl'

theorem find_cases (σ : FileState) :
    (∃ i, IsLeast (freeHandles σ) i ∧ (List.range HANDLES).find? (fun i => !(σ.handles i).allocated) = some i) ∨
      freeHandles σ = ∅ ∧ (List.range HANDLES).find? (fun i => !(σ.handles i).allocated) = none := by
  cases hfind : (List.range HANDLES).find? (fun i => !(σ.handles i).allocated) with
  | none =>
    right
    refine ⟨Set.eq_empty_of_forall_notMem fun i hi => ?_, rfl⟩
    have hall := List.find?_eq_none.mp hfind i (List.mem_range.mpr hi.1)
    simp [hi.2] at hall
  | some i => exact Or.inl ⟨i, find_isLeast hfind, rfl⟩

theorem getHandle_isLeast {s : Stream} {i : ℕ} {σ' : FileState} (h : σ.getHandle s = (some i, σ')) :
    IsLeast (freeHandles σ) i := by
  unfold FileState.getHandle at h
  split at h
  · simp at h
  · rename_i j hfind
    obtain ⟨rfl, -⟩ : j = i ∧ σ.setSlot j ⟨some s, HANDLE_ALLOCATED⟩ = σ' := by simpa using h
    exact find_isLeast hfind

theorem openHandle_opened {id : ℕ} {seekable : Bool} {m : Mode} {i : ℕ} {σ' : FileState}
    (hg : (openStream id seekable m σ).2.getHandle (openStream id seekable m σ).1 = (some i, σ')) :
    Opened σ σ' (some (BitVec.ofNat 32 i)) := by
  have hleast : IsLeast (freeHandles (openStream id seekable m σ).2) i := getHandle_isLeast hg
  rw [(getHandle_some hg).2]
  exact .opened i _ hleast (openStream_fd id seekable m) rfl

theorem openHandle_full {id : ℕ} {seekable : Bool} {m : Mode} {σ' : FileState}
    (hg : (openStream id seekable m σ).2.getHandle (openStream id seekable m σ).1 = (none, σ'))
    {r : Long} (hneg : r.toInt < 0) : Opened σ σ' (some r) := by
  rw [getHandle_none hg]
  exact .failed r hneg rfl

theorem fcreate_opened (path : Path) :
    Opened σ (gemdosFcreate path σ).2 (gemdosFcreate path σ).1 := by
  cases path with
  | refused => exact .failed _ (by decide) rfl
  | failed => exact .failed _ (by decide) rfl
  | file id seekable =>
    simp only [gemdosFcreate]
    split <;> rename_i hg
    · exact openHandle_full hg (by decide)
    · exact openHandle_opened hg

theorem fopen_opened (path : Path) (mode : BitVec 16) :
    Opened σ (gemdosFopen path mode σ).2 (gemdosFopen path mode σ).1 := by
  unfold gemdosFopen
  split
  · exact .failed _ (by decide) rfl
  · exact .failed _ (by decide) rfl
  · exact .failed _ (by decide) rfl
  · dsimp only
    split <;> rename_i hg
    · exact openHandle_full hg (by decide)
    · exact openHandle_opened hg

theorem step_opened {call : FileCall} (h : call.Opens) :
    Opened σ (fileStep σ call).2 (fileStep σ call).1 := by
  cases call with
  | fopen path mode => exact fopen_opened path mode
  | fcreate path => exact fcreate_opened path
  | _ => exact absurd h id

theorem handle_toInt {i : ℕ} (h : i < HANDLES) : (BitVec.ofNat 32 i).toNat = i := by
  rw [BitVec.toNat_ofNat, Nat.mod_eq_of_lt (h.trans (by decide))]

theorem Opened.isLeast {σ' : FileState} {r : Long} (h : Opened σ σ' (some r)) (hr : 0 ≤ r.toInt) :
    IsLeast (freeHandles σ) r.toNat := by
  cases h with
  | failed _ hneg => omega
  | opened i s hleast => rwa [handle_toInt hleast.1.1]

end Open

structure TableInv (σ : FileState) : Prop where
  sound : Sound σ
  filled : ∀ i < HANDLES, (σ.handles i).allocated = true → i < 2 ∨ 5 < i →
    ((σ.handles i).f).isSome = true

section Step

variable {σ : FileState} {h : BitVec 16}

theorem TableInv.stream (hi : TableInv σ) (ha : σ.Allocated h) (hh : h.toNat < 2 ∨ 5 < h.toNat) :
    ∃ s, σ.stream h.toNat = some s := by
  obtain ⟨s, hs⟩ := Option.isSome_iff_exists.mp (hi.filled _ ha.1 ha.2 hh)
  exact ⟨s, (FileState.stream_allocated ha).trans hs⟩

theorem fclose_eq (ha : σ.Allocated h) {s : Stream} (hs : σ.stream h.toNat = some s) :
    gemdosFclose h σ = (some GEMDOS_E_OK, { σ.setSlot h.toNat ⟨some s, 0⟩ with
      kernel := s.fclose σ.kernel }) := by
  have hf : (σ.handles h.toNat).f = some s := (FileState.stream_allocated ha).symm.trans hs
  have hvalid := FileState.invalidHandle_eq_false.mpr ha
  simp only [gemdosFclose, hvalid, hf, Bool.false_eq_true, if_false]
  rfl

theorem fclose_invalid (ha : ¬ σ.Allocated h) : gemdosFclose h σ = (some GEMDOS_EIHNDL, σ) :=
  if_pos (FileState.invalidHandle_eq_true.mpr ha)

structure Closes (h : BitVec 16) (σ σ' : FileState) : Prop where
  stream : ∃ s, σ.stream h.toNat = some s ∧ (σ.kernel.lookup s.fd).isSome = true ∧
    ∀ fd, σ'.kernel.lookup fd = if fd = s.fd then none else σ.kernel.lookup fd
  freed : ¬ σ'.Allocated h
  others : ∀ i, i ≠ h.toNat → σ'.handles i = σ.handles i

theorem fclose_closes (hi : TableInv σ) (ha : σ.Allocated h) (hh : h.toNat < 2 ∨ 5 < h.toNat) :
    Closes h σ (gemdosFclose h σ).2 := by
  obtain ⟨s, hs⟩ := hi.stream ha hh
  rw [fclose_eq ha hs]
  refine ⟨⟨s, hs, hi.sound.isOpen _ s hs, fun fd => ?_⟩, ?_, ?_⟩
  · exact Stream.fclose_lookup s σ.kernel fd
  · rintro ⟨-, halloc⟩
    have hslot : Function.update σ.handles h.toNat ⟨some s, 0⟩ h.toNat = ⟨some s, 0⟩ := Function.update_self _ _ _
    exact Fhandle.not_allocated_of_flags (congrArg Fhandle.flags hslot) halloc
  · intro i hne
    exact Function.update_of_ne hne _ _

theorem fclose_inv (hi : TableInv σ) (hh : h.toNat < 2 ∨ 5 < h.toNat) :
    TableInv (gemdosFclose h σ).2 := by
  by_cases ha : σ.Allocated h
  · obtain ⟨s, hs⟩ := hi.stream ha hh
    have hcloses := fclose_closes hi ha hh
    refine ⟨(fclose_acts ha hs).2.sound hi.sound, fun i hlt halloc hres => ?_⟩
    by_cases hih : i = h.toNat
    · subst hih
      exact absurd ⟨hlt, halloc⟩ hcloses.freed
    · rw [hcloses.others i hih] at halloc ⊢
      exact hi.filled i hlt halloc hres
  · rwa [fclose_invalid ha]

theorem opened_inv (hi : TableInv σ) {σ' : FileState} {r : Option Long} (he : Extends σ σ')
    (ho : Opened σ σ' r) : TableInv σ' := by
  refine ⟨he.sound hi.sound, fun i hlt halloc hres => ?_⟩
  cases ho with
  | failed r hneg hsame =>
    rw [hsame] at halloc ⊢
    exact hi.filled i hlt halloc hres
  | opened j s hleast hfd hnew =>
    rw [hnew] at halloc ⊢
    by_cases hij : i = j
    · subst hij
      simp
    · rw [Function.update_of_ne hij] at halloc ⊢
      exact hi.filled i hlt halloc hres

theorem step_inv {call : FileCall} (hi : TableInv σ) (hc : call.OnTable) :
    TableInv (fileStep σ call).2 := by
  cases call with
  | fopen path mode => exact opened_inv hi (fopen_extends path mode) (fopen_opened path mode)
  | fcreate path => exact opened_inv hi (fcreate_extends path) (fcreate_opened path)
  | fclose h => exact fclose_inv hi hc
  | _ => exact absurd hc id

theorem init_table (m : Machine) {k : Kernel} (hstdin : (k.lookup 0).isSome = true)
    (hstdout : (k.lookup 1).isSome = true) : TableInv (gemdosFileInit m k) where
  sound := (init_inv m hstdin hstdout).sound
  filled i _ halloc hres := by
    have hcases : i = 0 ∨ i = 1 ∨ 5 < i := by omega
    rcases hcases with rfl | rfl | hlt
    · rfl
    · rfl
    · have hreserved := (initHandles_allocated i).mp halloc
      omega

end Step

def NotReturned (h : BitVec 16) (σ : FileState) (call : FileCall) : Prop :=
  call.OnTable ∧ (call.Opens → (fileStep σ call).1 ≠ some (h.setWidth 32))

theorem step_released {σ : FileState} {h : BitVec 16} {call : FileCall}
    (hi : TableInv σ ∧ ¬ σ.Allocated h) (hn : NotReturned h σ call) :
    TableInv (fileStep σ call).2 ∧ ¬ (fileStep σ call).2.Allocated h := by
  refine ⟨step_inv hi.1 hn.1, ?_⟩
  have hopened : call.Opens → ¬ (fileStep σ call).2.Allocated h := by
    intro hopens
    have hr := hn.2 hopens
    have ho := step_opened (σ := σ) hopens
    rintro ⟨hlt, halloc⟩
    generalize (fileStep σ call).1 = r at hr ho
    cases ho with
    | failed r hneg hsame =>
      rw [hsame] at halloc
      exact hi.2 ⟨hlt, halloc⟩
    | opened i s hleast hfd hnew =>
      have hne : h.toNat ≠ i := by
        rintro rfl
        exact hr (congrArg some (BitVec.ofNat_toNat 32 h))
      rw [hnew, Function.update_of_ne hne] at halloc
      exact hi.2 ⟨hlt, halloc⟩
  cases call with
  | fopen path mode => exact hopened trivial
  | fcreate path => exact hopened trivial
  | fclose l =>
    by_cases ha : σ.Allocated l
    · have hcloses := fclose_closes hi.1 ha hn.1
      rintro ⟨hlt, halloc⟩
      by_cases hhl : h = l
      · subst hhl
        exact hcloses.freed ⟨hlt, halloc⟩
      · have hne : h.toNat ≠ l.toNat := fun he => hhl (BitVec.eq_of_toNat_eq he)
        rw [fileStep, hcloses.others _ hne] at halloc
        exact hi.2 ⟨hlt, halloc⟩
    · rw [fileStep, fclose_invalid ha]
      exact hi.2
  | _ => exact absurd hn.1 id

structure Disciplined (σ : FileState) (call : FileCall) : Prop where
  returns : ∃ r, (fileStep σ call).1 = some r
  lowest : call.Opens → ∀ r, (fileStep σ call).1 = some r → 0 ≤ r.toInt →
    IsLeast (freeHandles σ) r.toNat
  closes : ∀ h, call = .fclose h →
    ((fileStep σ call).1 = some GEMDOS_E_OK ↔ σ.Allocated h) ∧
      (σ.Allocated h → Closes h σ (fileStep σ call).2) ∧
      (¬ σ.Allocated h → fileStep σ call = (some GEMDOS_EIHNDL, σ))

theorem step_returns {σ : FileState} {call : FileCall} (hi : TableInv σ) (hc : call.OnTable) :
    ∃ r, (fileStep σ call).1 = some r := by
  have hopened : call.Opens → ∃ r, (fileStep σ call).1 = some r := by
    intro hopens
    have ho := step_opened (σ := σ) hopens
    generalize (fileStep σ call).1 = r at ho ⊢
    cases ho with
    | failed r => exact ⟨r, rfl⟩
    | opened i => exact ⟨_, rfl⟩
  cases call with
  | fopen path mode => exact hopened trivial
  | fcreate path => exact hopened trivial
  | fclose h =>
    by_cases ha : σ.Allocated h
    · obtain ⟨s, hs⟩ := hi.stream ha hc
      exact ⟨_, congrArg Prod.fst (fclose_eq ha hs)⟩
    · exact ⟨_, congrArg Prod.fst (fclose_invalid ha)⟩
  | _ => exact absurd hc id

theorem step_disciplined {σ : FileState} {call : FileCall} (hi : TableInv σ) (hc : call.OnTable) :
    Disciplined σ call := by
  refine ⟨step_returns hi hc, ?_, ?_⟩
  · intro hopens r hr hpos
    have ho := step_opened (σ := σ) hopens
    rw [hr] at ho
    exact ho.isLeast hpos
  · rintro h rfl
    refine ⟨⟨?_, ?_⟩, fun ha => fclose_closes hi ha hc, fclose_invalid⟩
    · intro hr
      by_contra ha
      rw [fileStep, fclose_invalid ha] at hr
      exact absurd (Option.some.inj hr) (by decide)
    · intro ha
      obtain ⟨s, hs⟩ := hi.stream ha hc
      exact congrArg Prod.fst (fclose_eq ha hs)

theorem fclose_released {σ : FileState} {h : BitVec 16} (hi : TableInv σ)
    (hc : (FileCall.fclose h).OnTable) : ¬ (fileStep σ (.fclose h)).2.Allocated h := by
  by_cases ha : σ.Allocated h
  · exact (fclose_closes hi ha hc).freed
  · rwa [fileStep, fclose_invalid ha]

theorem handle_table_discipline (m : Machine) (k : Kernel) (hstdin : (k.lookup 0).isSome = true)
    (hstdout : (k.lookup 1).isSome = true) (calls : List FileCall) (hcalls : ∀ c ∈ calls, c.OnTable) :
    let σ := run fileStep (gemdosFileInit m k) calls
    (∀ i j s t, σ.stream i = some s → σ.stream j = some t → i ≠ j → s.fd ≠ t.fd) ∧
      (∀ call : FileCall, call.OnTable → Disciplined σ call) ∧
      ∀ (h : BitVec 16) (between : List FileCall), (FileCall.fclose h).OnTable →
        Along fileStep (NotReturned h) (fileStep σ (.fclose h)).2 between →
        (fileStep (run fileStep (fileStep σ (.fclose h)).2 between) (.fclose h)).1 =
          some GEMDOS_EIHNDL := by
  intro σ
  have hi : TableInv σ := run_along (C := fun _ c => c.OnTable) (fun _ _ hi hc => step_inv hi hc)
    (init_table m hstdin hstdout) (along_of_forall _ hcalls)
  refine ⟨?_, fun call hc => step_disciplined hi hc, ?_⟩
  · intro i j s t hs ht hne hfd
    exact hne (hi.sound.distinct i j s t hs ht hfd)
  · intro h between hc hbetween
    let Released (τ : FileState) : Prop := TableInv τ ∧ ¬ τ.Allocated h
    have hkeep : ∀ τ call, Released τ → NotReturned h τ call → Released (fileStep τ call).2 :=
      fun _ _ hi hn => step_released hi hn
    have hreleased := run_along hkeep ⟨step_inv hi hc, fclose_released hi hc⟩ hbetween
    exact congrArg Prod.fst (fclose_invalid hreleased.2)

theorem handle_recycled :
    (fileStep (run fileStep (gemdosFileInit idleMachine (inherited 3))
      [.fopen (.file 1 true) 0, .fcreate (.file 2 true), .fclose 6, .fopen .failed 0, .fclose 0])
        (.fclose 6)).1 = some GEMDOS_EIHNDL := by
  have h := (handle_table_discipline idleMachine (inherited 3) rfl rfl
    [.fopen (.file 1 true) 0, .fcreate (.file 2 true)] (by simp [FileCall.OnTable])).2.2 6
    [.fopen .failed 0, .fclose 0] (Or.inr (by decide))
  exact h ⟨⟨trivial, fun _ => by decide⟩, ⟨Or.inl (by decide), fun ho => absurd ho id⟩, trivial⟩

end Tosemu.File
