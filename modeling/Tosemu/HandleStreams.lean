import Mathlib.Order.Bounds.Basic
import Tosemu.HandleTable

namespace Tosemu.File

open Host Runs

/-- `get_handle` of what `fdopen` has returned, which may be null. -/
def FileState.getHandleOf (f : Option Stream) (σ : FileState) : Option ℕ × FileState :=
  match (List.range HANDLES).find? (fun i => !(σ.handles i).allocated) with
  | none => (none, σ)
  | some i => (some i, σ.setSlot i ⟨f, HANDLE_ALLOCATED⟩)

def gemdosFcreateFdopen (fdopens : Bool) (path : Path) (σ : FileState) : Option Long × FileState :=
  match path with
  | .refused => (some GEMDOS_EFILNF, σ)
  | .failed => (some GEMDOS_EACCDN, σ)
  | .file id seekable =>
    let r := openStream id seekable .write σ
    match r.2.getHandleOf (if fdopens then some r.1 else none) with
    | (none, σ) => (some (-1), σ)
    | (some h, σ) => (some (BitVec.ofNat 32 h), σ)

inductive StreamCall
  | fopen (path : Path) (mode : BitVec 16)
  | fcreate (path : Path) (fdopens : Bool)
  | fclose (h : BitVec 16)
  | fread (h : BitVec 16) (len buf : Long) (io : Io)
  | fwrite (h : BitVec 16) (len buf : Long) (io : Io)

def StreamCall.handle : StreamCall → Option (BitVec 16)
  | .fopen _ _ => none
  | .fcreate _ _ => none
  | .fclose h => some h
  | .fread h _ _ _ => some h
  | .fwrite h _ _ _ => some h

def streamStep (σ : FileState) : StreamCall → Option Long × FileState
  | .fopen path mode => gemdosFopen path mode σ
  | .fcreate path fdopens => gemdosFcreateFdopen fdopens path σ
  | .fclose h => gemdosFclose h σ
  | .fread h len buf io => gemdosFread h len buf io σ
  | .fwrite h len buf io => gemdosFwrite h len buf io σ

def CallReturns (σ : FileState) (call : StreamCall) : Prop := (streamStep σ call).1 ≠ none

instance (σ : FileState) (call : StreamCall) : Decidable (CallReturns σ call) :=
  inferInstanceAs (Decidable ((streamStep σ call).1 ≠ none))

structure HasStream (σ : FileState) (h : BitVec 16) : Prop where
  isOpen : ∃ s, (σ.handles h.toNat).f = some s ∧ (σ.kernel.lookup s.fd).isSome = true
  used : ∀ call : StreamCall, call.handle = some h → CallReturns σ call

/-- The handle that an `Fcreate` gives out although its `fdopen` has failed. -/
def GivesNull (σ : FileState) : StreamCall → ℕ → Prop
  | .fcreate (.file _ _) false, i => IsLeast (freeHandles σ) i
  | _, _ => False

def GivenNull (σ : FileState) : List StreamCall → ℕ → Prop
  | [], _ => False
  | call :: calls, i => GivesNull σ call i ∨ GivenNull (streamStep σ call).2 calls i

def EmptySlot (σ : FileState) (i : ℕ) : Prop :=
  i < HANDLES ∧ (σ.handles i).allocated = true ∧ (σ.handles i).f = none

section Step

variable {σ : FileState} {h : BitVec 16} {i : ℕ}

theorem fcreate_fdopens (path : Path) (σ : FileState) :
    gemdosFcreateFdopen true path σ = gemdosFcreate path σ := by
  cases path <;> rfl

theorem getHandleOf_cases (f : Option Stream) (σ : FileState) :
    (∃ i, IsLeast (freeHandles σ) i ∧ σ.getHandleOf f = (some i, σ.setSlot i ⟨f, HANDLE_ALLOCATED⟩)) ∨
      freeHandles σ = ∅ ∧ σ.getHandleOf f = (none, σ) := by
  rw [FileState.getHandleOf]
  rcases find_cases σ with ⟨i, hleast, hfind⟩ | ⟨hfull, hfind⟩
  · rw [hfind]
    exact Or.inl ⟨i, hleast, rfl⟩
  · rw [hfind]
    exact Or.inr ⟨hfull, rfl⟩

theorem emptySlot_same {σ' : FileState} (hsame : σ'.handles = σ.handles) : EmptySlot σ' i ↔ EmptySlot σ i := by
  rw [EmptySlot, EmptySlot, hsame]

theorem emptySlot_update {σ' : FileState} {j : ℕ} {slot : Fhandle}
    (hnew : σ'.handles = Function.update σ.handles j slot) (hbefore : ¬ EmptySlot σ j)
    (hslot : slot.allocated = true → slot.f ≠ none) : EmptySlot σ' i ↔ EmptySlot σ i := by
  by_cases hij : i = j
  · subst hij
    refine iff_of_false (fun hi => ?_) hbefore
    rw [EmptySlot, hnew, Function.update_self] at hi
    exact hslot hi.2.1 hi.2.2
  · rw [EmptySlot, EmptySlot, hnew, Function.update_of_ne hij]

theorem not_emptySlot_of_free (hfree : i ∈ freeHandles σ) : ¬ EmptySlot σ i := by
  rintro ⟨-, halloc, -⟩
  rw [hfree.2] at halloc
  cases halloc

theorem opened_emptySlot {σ' : FileState} {r : Option Long} (ho : Opened σ σ' r) :
    EmptySlot σ' i ↔ EmptySlot σ i := by
  cases ho with
  | failed r hneg hsame => exact emptySlot_same hsame
  | opened j s hleast hfd hnew =>
    apply emptySlot_update hnew (not_emptySlot_of_free hleast.1)
    exact fun _ => Option.some_ne_none s

theorem fcreate_file (fdopens : Bool) (id : ℕ) (seekable : Bool) (σ : FileState) :
    (∃ i, IsLeast (freeHandles σ) i ∧ gemdosFcreateFdopen fdopens (.file id seekable) σ =
      (some (BitVec.ofNat 32 i), (openStream id seekable .write σ).2.setSlot i
        ⟨if fdopens then some (openStream id seekable .write σ).1 else none, HANDLE_ALLOCATED⟩)) ∨
      freeHandles σ = ∅ ∧ gemdosFcreateFdopen fdopens (.file id seekable) σ =
        (some (-1), (openStream id seekable .write σ).2) := by
  rw [gemdosFcreateFdopen]
  rcases getHandleOf_cases (if fdopens then some (openStream id seekable .write σ).1 else none)
    (openStream id seekable .write σ).2 with ⟨i, hleast, hget⟩ | ⟨hfull, hget⟩
  · simp only [hget]
    exact Or.inl ⟨i, hleast, rfl⟩
  · simp only [hget]
    exact Or.inr ⟨hfull, trivial⟩

theorem fcreate_null_emptySlot (id : ℕ) (seekable : Bool) :
    EmptySlot (gemdosFcreateFdopen false (.file id seekable) σ).2 i ↔
      EmptySlot σ i ∨ IsLeast (freeHandles σ) i := by
  rcases fcreate_file false id seekable σ with ⟨j, hleast, hstep⟩ | ⟨hfull, hstep⟩
  · rw [hstep]
    by_cases hij : i = j
    · subst hij
      have hslot : ((openStream id seekable .write σ).2.setSlot i ⟨none, HANDLE_ALLOCATED⟩).handles i =
          ⟨none, HANDLE_ALLOCATED⟩ := Function.update_self _ _ _
      refine iff_of_true ⟨hleast.1.1, Fhandle.allocated_of_flags ?_, ?_⟩ (Or.inr hleast)
      · exact congrArg Fhandle.flags hslot
      · exact congrArg Fhandle.f hslot
    · have hother : ¬ IsLeast (freeHandles σ) i := fun hi => hij (IsLeast.unique hi hleast)
      rw [or_iff_left hother]
      simp only [EmptySlot, FileState.setSlot, Function.update_of_ne hij]
      rfl
  · have hnone : ¬ IsLeast (freeHandles σ) i := by
      intro hi
      rw [hfull] at hi
      exact hi.1
    rw [hstep, or_iff_left hnone]
    exact emptySlot_same rfl

structure Uses (h : BitVec 16) (σ σ' : FileState) : Prop where
  filled : (σ.handles h.toNat).f ≠ none
  acts : Acts h.toNat σ σ'
  slot : ∃ slot : Fhandle, σ'.handles = Function.update σ.handles h.toNat slot ∧
    (slot.allocated = true → slot.f ≠ none)

inductive HandleEnds (h : BitVec 16) (σ : FileState) (r : Option Long × FileState) : Prop
  | refused (code : Long) (hr : r = (some code, σ))
  | null (hf : (σ.handles h.toNat).f = none) (hr : r.1 = none)
  | used (hr : r.1 ≠ none) (huses : Uses h σ r.2)

theorem fclose_ends (h : BitVec 16) (σ : FileState) : HandleEnds h σ (gemdosFclose h σ) := by
  by_cases ha : σ.Allocated h
  · have hvalid := FileState.invalidHandle_eq_false.mpr ha
    cases hf : (σ.handles h.toNat).f with
    | none => exact .null hf (by simp [gemdosFclose, hvalid, hf])
    | some s =>
      have hs := (FileState.stream_allocated ha).trans hf
      have hstep := fclose_eq ha hs
      apply HandleEnds.used
      · rw [hstep]
        exact Option.some_ne_none _
      · refine ⟨by simp [hf], (fclose_acts ha hs).2, ⟨some s, 0⟩, ?_, fun _ => Option.some_ne_none s⟩
        rw [hstep]
        rfl
  · exact .refused GEMDOS_EIHNDL (fclose_invalid ha)

theorem fread_ends (h : BitVec 16) (len buf : Long) (io : Io) (σ : FileState) :
    HandleEnds h σ (gemdosFread h len buf io σ) := by
  by_cases ha : σ.Allocated h
  · have hvalid := FileState.invalidHandle_eq_false.mpr ha
    cases hmem : io.memory with
    | false => exact .refused GEMDOS_ENSMEM (by simp [gemdosFread, hvalid, hmem])
    | true =>
      cases hf : (σ.handles h.toNat).f with
      | none => exact .null hf (by simp [gemdosFread, hvalid, hf, hmem])
      | some s =>
        have hs := (FileState.stream_allocated ha).trans hf
        obtain ⟨hacts, hr⟩ := fread_acts ha len buf hmem hs
        apply HandleEnds.used
        · rw [hr]
          exact Option.some_ne_none _
        · refine ⟨by simp [hf], hacts,
            { σ.handles h.toNat with f := some (s.fread len.toNat io.transfer σ.kernel).2.1 }, ?_,
            fun _ => Option.some_ne_none _⟩
          simp only [gemdosFread, hvalid, hmem, hf, Bool.false_eq_true, Bool.true_eq_false, if_false]
          split_ifs <;> rfl
  · exact .refused GEMDOS_EIHNDL (if_pos (FileState.invalidHandle_eq_true.mpr ha))

theorem fwrite_ends (h : BitVec 16) (len buf : Long) (io : Io) (σ : FileState) :
    HandleEnds h σ (gemdosFwrite h len buf io σ) := by
  by_cases ha : σ.Allocated h
  · have hvalid := FileState.invalidHandle_eq_false.mpr ha
    cases hmem : io.memory with
    | false => exact .refused GEMDOS_ENSMEM (by simp [gemdosFwrite, hvalid, hmem])
    | true =>
      cases hf : (σ.handles h.toNat).f with
      | none => exact .null hf (by simp [gemdosFwrite, hvalid, hf, hmem])
      | some s =>
        have hs := (FileState.stream_allocated ha).trans hf
        obtain ⟨hacts, n, -, hr⟩ := fwrite_acts ha len buf hmem hs
        apply HandleEnds.used
        · rcases hr with hr | hr <;>
            rw [hr] <;>
            exact Option.some_ne_none _
        · refine ⟨by simp [hf], hacts,
            { σ.handles h.toNat with
              f := some (s.fwrite (copyIn buf len.toNat σ.machine).1 io.transfer σ.kernel).2.1 }, ?_,
            fun _ => Option.some_ne_none _⟩
          simp only [gemdosFwrite, hvalid, hmem, hf, Bool.false_eq_true, Bool.true_eq_false, if_false]
          split_ifs <;> rfl
  · exact .refused GEMDOS_EIHNDL (if_pos (FileState.invalidHandle_eq_true.mpr ha))

theorem step_ends {call : StreamCall} (hcall : call.handle = some h) : HandleEnds h σ (streamStep σ call) := by
  cases call with
  | fopen path mode => cases hcall
  | fcreate path fdopens => cases hcall
  | fclose l =>
    obtain rfl : l = h := Option.some.inj hcall
    exact fclose_ends l σ
  | fread l len buf io =>
    obtain rfl : l = h := Option.some.inj hcall
    exact fread_ends l len buf io σ
  | fwrite l len buf io =>
    obtain rfl : l = h := Option.some.inj hcall
    exact fwrite_ends l len buf io σ

theorem not_emptySlot_of_filled (hf : (σ.handles i).f ≠ none) : ¬ EmptySlot σ i := fun hi => hf hi.2.2

theorem fcreate_null_sound (hs : Sound σ) (id : ℕ) (seekable : Bool) :
    Sound (gemdosFcreateFdopen false (.file id seekable) σ).2 := by
  have hopen := (openStream_extends id seekable .write).sound hs
  rcases fcreate_file false id seekable σ with ⟨j, hleast, hstep⟩ | ⟨hfull, hstep⟩
  · have hfree : (openStream id seekable .write σ).2.stream j = none :=
      if_neg (fun h => Bool.false_ne_true (hleast.1.2.symm.trans h.2))
    rw [hstep]
    apply Extends.sound _ hopen
    apply Extends.of_same
    · intro i
      rw [FileState.stream_setSlot]
      by_cases hij : i = j
      · rw [if_pos hij, hij, hfree]
        exact ite_self none
      · exact if_neg hij
    · exact fun _ => rfl
  · rw [hstep]
    exact hopen

theorem step_streams {call : StreamCall} (hs : Sound σ) (hreturns : CallReturns σ call) :
    Sound (streamStep σ call).2 ∧
      ∀ i, EmptySlot (streamStep σ call).2 i ↔ EmptySlot σ i ∨ GivesNull σ call i := by
  have hopened : ∀ σ' r, Extends σ σ' → Opened σ σ' r →
      Sound σ' ∧ ∀ i, EmptySlot σ' i ↔ EmptySlot σ i ∨ False := by
    intro σ' r he ho
    refine ⟨he.sound hs, fun i => ?_⟩
    rw [or_false]
    exact opened_emptySlot ho
  have hused : ∀ h, call.handle = some h → Sound (streamStep σ call).2 ∧
      ∀ i, EmptySlot (streamStep σ call).2 i ↔ EmptySlot σ i ∨ False := by
    intro h hcall
    rcases step_ends (σ := σ) hcall with ⟨code, hstep⟩ | ⟨-, hnone⟩ | ⟨-, huses⟩
    · rw [hstep]
      exact ⟨hs, fun i => (or_iff_left id).symm⟩
    · exact absurd hnone hreturns
    · obtain ⟨slot, hnew, hslot⟩ := huses.slot
      refine ⟨huses.acts.sound hs, fun i => ?_⟩
      rw [or_false]
      exact emptySlot_update hnew (not_emptySlot_of_filled huses.filled) hslot
  cases call with
  | fopen path mode => exact hopened _ _ (fopen_extends path mode) (fopen_opened path mode)
  | fcreate path fdopens =>
    cases fdopens with
    | true =>
      have hstep := hopened _ _ (fcreate_extends path) (fcreate_opened path)
      rw [← fcreate_fdopens] at hstep
      cases path <;> exact hstep
    | false =>
      cases path with
      | refused => exact hopened _ _ (fcreate_extends .refused) (fcreate_opened .refused)
      | failed => exact hopened _ _ (fcreate_extends .failed) (fcreate_opened .failed)
      | file id seekable => exact ⟨fcreate_null_sound hs id seekable, fun i => fcreate_null_emptySlot id seekable⟩
  | fclose h => exact hused h rfl
  | fread h len buf io => exact hused h rfl
  | fwrite h len buf io => exact hused h rfl

theorem run_streams {calls : List StreamCall} (hs : Sound σ) (hreturn : Along streamStep CallReturns σ calls) :
    Sound (run streamStep σ calls) ∧
      ∀ i, EmptySlot (run streamStep σ calls) i ↔ EmptySlot σ i ∨ GivenNull σ calls i := by
  induction calls generalizing σ with
  | nil => exact ⟨hs, fun i => (or_iff_left id).symm⟩
  | cons call calls ih =>
    obtain ⟨hnext, hslots⟩ := step_streams hs hreturn.1
    obtain ⟨hsound, hempty⟩ := ih hnext hreturn.2
    refine ⟨hsound, fun i => ?_⟩
    rw [run, hempty, hslots, or_assoc]
    rfl

theorem init_emptySlot (m : Machine) (k : Kernel) : EmptySlot (gemdosFileInit m k) i ↔ 2 ≤ i ∧ i < 6 := by
  have hf : (initHandles i).f = none ↔ 2 ≤ i := by
    simp only [initHandles]
    split_ifs <;> simp <;> omega
  have halloc := initHandles_allocated i
  constructor
  · exact fun h => ⟨hf.mp h.2.2, halloc.mp h.2.1⟩
  · intro h
    refine ⟨?_, halloc.mpr h.2, hf.mpr h.1⟩
    unfold HANDLES
    omega

theorem hasStream_iff (hs : Sound σ) (ha : σ.Allocated h) : HasStream σ h ↔ ¬ EmptySlot σ h.toNat := by
  constructor
  · rintro ⟨⟨s, hf, -⟩, -⟩ hempty
    rw [hempty.2.2] at hf
    cases hf
  · intro hfilled
    have hf : (σ.handles h.toNat).f ≠ none := fun hnone => hfilled ⟨ha.1, ha.2, hnone⟩
    obtain ⟨s, hsome⟩ := Option.ne_none_iff_exists'.mp hf
    refine ⟨⟨s, hsome, hs.isOpen h.toNat s ((FileState.stream_allocated ha).trans hsome)⟩, ?_⟩
    intro call hcall
    rcases step_ends (σ := σ) hcall with ⟨code, hstep⟩ | ⟨hnone, -⟩ | ⟨hreturns, -⟩
    · rw [CallReturns, hstep]
      exact Option.some_ne_none code
    · exact absurd hnone hf
    · exact hreturns

end Step

/-- Of the handles that are let through, those without a stream are the reserved ones behind standard
output and those that an `Fcreate` gave out without one. -/
theorem valid_handle_stream_iff (m : Machine) (k : Kernel) (hstdin : (k.lookup 0).isSome = true)
    (hstdout : (k.lookup 1).isSome = true) (calls : List StreamCall)
    (hreturn : Along streamStep CallReturns (gemdosFileInit m k) calls) (h : BitVec 16)
    (hvalid : (run streamStep (gemdosFileInit m k) calls).invalidHandle h = false) :
    HasStream (run streamStep (gemdosFileInit m k) calls) h ↔
      ¬ (2 ≤ h.toNat ∧ h.toNat < 6 ∨ GivenNull (gemdosFileInit m k) calls h.toNat) := by
  obtain ⟨hsound, hempty⟩ := run_streams (init_inv m hstdin hstdout).sound hreturn
  rw [hasStream_iff hsound (FileState.invalidHandle_eq_false.mp hvalid), hempty, init_emptySlot]

theorem valid_handle_stream_opened :
    HasStream (run streamStep (gemdosFileInit idleMachine (inherited 3))
      [.fopen (.file 1 true) 0, .fcreate (.file 2 true) true, .fclose 7]) 6 := by
  have hreturn : Along streamStep CallReturns (gemdosFileInit idleMachine (inherited 3))
      [.fopen (.file 1 true) 0, .fcreate (.file 2 true) true, .fclose 7] := by decide
  refine (valid_handle_stream_iff idleMachine (inherited 3) rfl rfl _ hreturn 6 (by decide)).mpr ?_
  rintro (⟨-, hlt⟩ | hnull)
  · exact absurd hlt (by decide)
  · rcases hnull with hnull | hnull | hnull | hnull <;> exact hnull

/-- Handle 2 is valid from the start and has no stream: `Fclose` of it follows a null pointer. -/
theorem reserved_handle_null :
    (gemdosFileInit idleMachine (inherited 3)).invalidHandle 2 = false ∧
      (streamStep (gemdosFileInit idleMachine (inherited 3)) (.fclose 2)).1 = none ∧
      ¬ HasStream (gemdosFileInit idleMachine (inherited 3)) 2 := by
  have hcrash : (streamStep (gemdosFileInit idleMachine (inherited 3)) (.fclose 2)).1 = none := by decide
  exact ⟨by decide, hcrash, fun h => h.used (.fclose 2) rfl hcrash⟩

end Tosemu.File
