import Tosemu.DirectorySearchRuns

namespace Tosemu.Search

open Gemdos Host

section Stores

variable (host : Endian) (dir : HostDir)

def fsfirstStores (filename : Long) (σ : SearchState) : List (ℕ × List Byte) :=
  if (accepted dir filename σ.machine).1 = 0 ∨ (found dir filename σ.machine).1 ≠ 0 then []
  else
    match (found dir filename σ.machine).2, (tosMemToHostMem σ.dtaAddr σ.machine).1 with
    | path :: _, some _ =>
      [(0, host.bytes (σ.sid + 1)), (4, host.bytes 0)] ++ dtaFields host (dir.stat path) path
    | _, _ => []

def fsnextStores (σ : SearchState) : List (ℕ × List Byte) :=
  match (tosMemToHostMem σ.dtaAddr σ.machine).1 with
  | none => []
  | some dta =>
    let i := hostLoad host dta 4 σ.machine.memory + 1
    let gres := gemdosFindDta (hostLoad host dta 0 σ.machine.memory) σ.globhead
    (4, host.bytes i) ::
      match (gres.bind Globitem.g).bind (fun pathv => pathv[(i.signExtend 64).toNat]?) with
      | none => []
      | some path => dtaFields host (dir.stat path) path

def dtaStores (σ : SearchState) : SearchCall → List (ℕ × List Byte)
  | .fsetdta _ => []
  | .fsfirst filename => fsfirstStores host dir filename σ
  | .fsnext => fsnextStores host dir σ

end Stores

def DtaWritable (σ : SearchState) : Prop :=
  InOneArea σ.machine.memory σ.dtaAddr 44 ∧
    memFlags σ.machine.memory σ.dtaAddr &&& σ.machine.writeMask ≠ 0

def Reports (r : Option Long × SearchState) : Prop :=
  ∃ code, r.1 = some code ∧ (code.toInt < 0 ∨ r.2.machine.keepongoing = false)

structure RespectsDta (host : Endian) (dir : HostDir) (σ : SearchState) (call : SearchCall) : Prop where
  stores : dtaStores host dir σ call ≠ [] → DtaWritable σ
  reports : ¬ DtaWritable σ → dtaStores host dir σ call = [] ∧ Reports (searchCall host dir σ call)

def FailsEarly (dir : HostDir) (σ : SearchState) : SearchCall → Prop
  | .fsfirst filename =>
    (accepted dir filename σ.machine).1 = 0 ∨ (found dir filename σ.machine).1 ≠ 0
  | _ => False

section Calls

variable {host : Endian} {dir : HostDir} {σ : SearchState} {filename : Long}

theorem fsfirst_memory (host : Endian) (dir : HostDir) (σ : SearchState) (filename : Long) :
    (gemdosFsfirst host dir filename σ).2.machine.memory =
      match (tosMemToHostMem σ.dtaAddr σ.machine).1 with
      | none => σ.machine.memory
      | some p => storeFields p (fsfirstStores host dir filename σ) σ.machine.memory := by
  have hmem := getPath_memory filename σ.machine
  have hptr := tosMemToHostMem_congr hmem σ.dtaAddr
  have hmem' := (tosMemToHostMem_memory σ.dtaAddr (getPath filename σ.machine).2).trans hmem
  simp only [gemdosFsfirst_eq, fsfirstStores]
  by_cases haccepted : (accepted dir filename σ.machine).1 = 0
  · rw [if_pos haccepted, if_pos (Or.inl haccepted)]
    cases (tosMemToHostMem σ.dtaAddr σ.machine).1 <;> exact hmem
  · by_cases hglob : (found dir filename σ.machine).1 ≠ 0
    · rw [if_neg haccepted, if_pos hglob, if_pos (Or.inr hglob)]
      cases (tosMemToHostMem σ.dtaAddr σ.machine).1 <;> exact hmem
    · rw [if_neg haccepted, if_neg hglob, if_neg (not_or.mpr ⟨haccepted, hglob⟩), ← hptr]
      cases (found dir filename σ.machine).2 with
      | nil => cases (tosMemToHostMem σ.dtaAddr (getPath filename σ.machine).2).1 <;> exact hmem
      | cons path rest =>
        cases (tosMemToHostMem σ.dtaAddr (getPath filename σ.machine).2).1 with
        | none => exact hmem'
        | some p => exact congrArg (storeFields p _) hmem'

theorem fsnext_memory (host : Endian) (dir : HostDir) (σ : SearchState) :
    (gemdosFsnext host dir σ).2.machine.memory =
      match (tosMemToHostMem σ.dtaAddr σ.machine).1 with
      | none => σ.machine.memory
      | some p => storeFields p (fsnextStores host dir σ) σ.machine.memory := by
  have hmem := tosMemToHostMem_memory σ.dtaAddr σ.machine
  simp only [gemdosFsnext, fsnextStores]
  cases (tosMemToHostMem σ.dtaAddr σ.machine).1 with
  | none => exact hmem
  | some p =>
    simp only [hmem]
    cases (gemdosFindDta (hostLoad host p 0 σ.machine.memory) σ.globhead).bind Globitem.g with
    | none => exact congrArg (storeFields p _) hmem
    | some pathv =>
      simp only [Option.bind_some]
      cases pathv[((hostLoad host p 4 σ.machine.memory + 1).signExtend 64).toNat]? with
      | none => exact congrArg (storeFields p _) hmem
      | some path =>
        exact congrArg (storeFields p ((4, host.bytes (hostLoad host p 4 σ.machine.memory + 1)) ::
          dtaFields host (dir.stat path) path)) hmem

theorem searchCall_memory (host : Endian) (dir : HostDir) (σ : SearchState) (call : SearchCall) :
    (searchCall host dir σ call).2.machine.memory =
      match (tosMemToHostMem σ.dtaAddr σ.machine).1 with
      | none => σ.machine.memory
      | some p => storeFields p (dtaStores host dir σ call) σ.machine.memory := by
  cases call with
  | fsetdta addr => cases (tosMemToHostMem σ.dtaAddr σ.machine).1 <;> rfl
  | fsfirst filename => exact fsfirst_memory host dir σ filename
  | fsnext => exact fsnext_memory host dir σ

theorem dtaStores_fit (host : Endian) (dir : HostDir) (σ : SearchState) (call : SearchCall) :
    ∀ field ∈ dtaStores host dir σ call, field.1 + field.2.length ≤ 44 := by
  have hlong : ∀ i < 8, ∀ v, i + (host.bytes v).length ≤ 44 := by
    intro i hi v
    rw [Endian.bytes_length]
    omega
  cases call with
  | fsetdta addr => simp [dtaStores]
  | fsfirst filename =>
    rw [dtaStores, fsfirstStores]
    split_ifs
    · simp
    · split
      · intro field hfield
        rcases List.mem_append.mp hfield with hfield | hfield
        · rcases List.mem_pair.mp hfield with rfl | rfl
          · exact hlong 0 (by omega) _
          · exact hlong 4 (by omega) _
        · exact dtaFields_fit _ _ _ field hfield
      · simp
  | fsnext =>
    rw [dtaStores, fsnextStores]
    split
    · simp
    · intro field hfield
      rcases List.mem_cons.mp hfield with rfl | hfield
      · exact hlong 4 (by omega) _
      · split at hfield
        · exact absurd hfield List.not_mem_nil
        · exact dtaFields_fit _ _ _ field hfield

theorem searchCall_frame {p : HostPtr} (hp : Points σ.machine.memory σ.dtaAddr 44 p) (call : SearchCall)
    {x : Long} (hx : ∀ k < 44, x ≠ σ.dtaAddr + BitVec.ofNat 32 k) :
    memByte (searchCall host dir σ call).2.machine.memory x = memByte σ.machine.memory x := by
  rw [searchCall_memory, hp.tosMemToHostMem (by omega)]
  exact hp.memByte_storeFields_of_ne (dtaStores_fit host dir σ call) hx

theorem reports_early (h : FailsEarly dir σ (.fsfirst filename)) :
    dtaStores host dir σ (.fsfirst filename) = [] ∧ Reports (searchCall host dir σ (.fsfirst filename)) := by
  have hfit : GEMDOS_EFILNF.toInt < 0 := by decide
  refine ⟨if_pos h, GEMDOS_EFILNF, ?_, Or.inl hfit⟩
  rw [searchCall, gemdosFsfirst_eq]
  by_cases haccepted : (accepted dir filename σ.machine).1 = 0
  · simp only [if_pos haccepted]
  · simp only [if_neg haccepted, if_pos (Or.resolve_left h haccepted)]

theorem stores_or_crashes {call : SearchCall} (hcall : call.Searches) (hearly : ¬ FailsEarly dir σ call)
    (hglob : ∀ pattern, (dir.glob pattern).1 = 0 → (dir.glob pattern).2 ≠ []) :
    dtaStores host dir σ call ≠ [] ∨ (searchCall host dir σ call).1 = none := by
  cases call with
  | fsetdta addr => exact absurd hcall id
  | fsfirst filename =>
    obtain ⟨haccepted, hfound⟩ := not_or.mp hearly
    have hptr := tosMemToHostMem_congr (getPath_memory filename σ.machine) σ.dtaAddr
    obtain ⟨path, rest, hpaths⟩ := List.exists_cons_of_ne_nil (hglob _ (not_not.mp hfound))
    have hpaths : (found dir filename σ.machine).2 = path :: rest := hpaths
    cases hdta : (tosMemToHostMem σ.dtaAddr σ.machine).1 with
    | none =>
      right
      rw [hdta] at hptr
      simp only [searchCall, gemdosFsfirst_eq, if_neg haccepted, if_neg hfound, hpaths, hptr]
    | some p =>
      left
      rw [dtaStores, fsfirstStores, if_neg (not_or.mpr ⟨haccepted, hfound⟩), hpaths, hdta]
      exact List.cons_ne_nil _ _
  | fsnext =>
    cases hdta : (tosMemToHostMem σ.dtaAddr σ.machine).1 with
    | none =>
      right
      simp only [searchCall, gemdosFsnext, hdta]
    | some p =>
      left
      rw [dtaStores, fsnextStores, hdta]
      exact List.cons_ne_nil _ _

theorem search_respects_dta_iff (host : Endian) (dir : HostDir) (σ : SearchState) (call : SearchCall)
    (hcall : call.Searches)
    (hglob : ∀ pattern, (dir.glob pattern).1 = 0 → (dir.glob pattern).2 ≠ []) :
    RespectsDta host dir σ call ↔ DtaWritable σ ∨ FailsEarly dir σ call := by
  constructor
  · intro h
    by_contra hneither
    obtain ⟨hwritable, hearly⟩ := not_or.mp hneither
    obtain ⟨hnil, code, hcode, -⟩ := h.reports hwritable
    rcases stores_or_crashes hcall hearly hglob with hstores | hnone
    · exact hstores hnil
    · rw [hnone] at hcode
      cases hcode
  · rintro (hwritable | hearly)
    · exact ⟨fun _ => hwritable, fun h => absurd hwritable h⟩
    · cases call with
      | fsfirst filename =>
        obtain ⟨hnil, hreports⟩ := @reports_early host dir σ filename hearly
        exact ⟨fun h => absurd hnil h, fun _ => ⟨hnil, hreports⟩⟩
      | fsetdta addr => exact absurd hearly id
      | fsnext => exact absurd hearly id

end Calls

theorem search_respects_dta_open :
    RespectsDta .little twoFiles ⟨searchMachine, 0x900, 42, []⟩ (.fsfirst 0x980) := by
  have hglob : ∀ pattern, (twoFiles.glob pattern).1 = 0 → (twoFiles.glob pattern).2 ≠ [] :=
    fun _ _ => List.cons_ne_nil _ _
  have hwritable : DtaWritable ⟨searchMachine, 0x900, 42, []⟩ := ⟨⟨_, searchMachine_points⟩, by decide⟩
  exact (search_respects_dta_iff .little twoFiles _ (.fsfirst 0x980) trivial hglob).mpr (Or.inl hwritable)

def guardedMachine : Machine :=
  { searchMachine with
    memory := addPtrMemoryArea (MEMORY_SUPERREAD ||| MEMORY_SUPERWRITE) 0x600 512 ⟨512, fun _ => 0⟩
      searchMachine.memory }

/-- Stores to supervisor memory in user mode, and a null pointer for an unmapped DTA. -/
theorem search_ignores_flags :
    (¬ DtaWritable ⟨guardedMachine, 0x600, 42, []⟩ ∧
      dtaStores .little twoFiles ⟨guardedMachine, 0x600, 42, []⟩ (.fsfirst 0x980) ≠ []) ∧
      ¬ DtaWritable ⟨guardedMachine, 0x400, 42, []⟩ ∧
        (searchCall .little twoFiles ⟨guardedMachine, 0x400, 42, []⟩ (.fsfirst 0x980)).1 = none := by
  refine ⟨⟨fun h => h.2 ?_, ?_⟩, fun h => h.2 ?_, ?_⟩
  · decide
  · decide +kernel
  · decide
  · decide +kernel

end Tosemu.Search
