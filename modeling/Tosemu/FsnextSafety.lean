import Tosemu.DirectorySearchRuns

namespace Tosemu.Search

open Gemdos Host Runs

structure SearchEvent where
  dir : HostDir
  call : SearchCall
  machine : Machine

def eventStep (host : Endian) (σ : SearchState) (e : SearchEvent) : Option Long × SearchState :=
  searchCall host e.dir { σ with machine := e.machine } e.call

def SearchEvent.accepts (e : SearchEvent) : Option Bool :=
  match e.call with
  | .fsfirst filename => some (decide ((accepted e.dir filename e.machine).1 ≠ 0))
  | _ => none

def acceptedSearches (events : List SearchEvent) : List Bool := events.filterMap SearchEvent.accepts

def numbered (flags : List Bool) : List (Long × Bool) :=
  flags.mapIdx (fun k flag => (43 + BitVec.ofNat 32 k, flag))

def lastSearch (flags : List Bool) (id : Long) : Option Bool :=
  ((numbered flags).reverse.find? (fun r => r.1 = id)).map Prod.snd

def FsnextSafe (host : Endian) (dir : HostDir) (σ : SearchState) : Prop :=
  ∃ code, (gemdosFsnext host dir σ).1 = some code ∧ (code = GEMDOS_ENMFIL ∨
    ∃ dta pathv, (tosMemToHostMem σ.dtaAddr σ.machine).1 = some dta ∧
      (gemdosFindDta (hostLoad host dta 0 σ.machine.memory) σ.globhead).bind Globitem.g = some pathv ∧
      ((hostLoad host dta 4 σ.machine.memory + 1).signExtend 64).toNat < pathv.length)

def LeadsToGlob (host : Endian) (flags : List Bool) (m : Machine) (dtaAddr : Long) : Prop :=
  ∃ dta, (tosMemToHostMem dtaAddr m).1 = some dta ∧ lastSearch flags (hostLoad host dta 0 m.memory) = some true

def Globitem.record (item : Globitem) : Long × Bool := (item.id, item.g.isSome)

structure Recorded (flags : List Bool) (σ : SearchState) : Prop where
  sid : σ.sid = 42 + BitVec.ofNat 32 flags.length
  items : σ.globhead.map Globitem.record = (numbered flags).reverse

section Events

variable {host : Endian} {flags : List Bool} {σ : SearchState}

theorem numbered_append (flags : List Bool) (flag : Bool) :
    numbered (flags ++ [flag]) = numbered flags ++ [(43 + BitVec.ofNat 32 flags.length, flag)] := by
  simp [numbered, List.mapIdx_append]

theorem searchInit_recorded (m : Machine) : Recorded [] (searchInit m) := ⟨rfl, rfl⟩

theorem gemdosFsnext_globhead (host : Endian) (dir : HostDir) (σ : SearchState) :
    (gemdosFsnext host dir σ).2.sid = σ.sid ∧ (gemdosFsnext host dir σ).2.globhead = σ.globhead := by
  unfold gemdosFsnext
  simp only
  split
  · exact ⟨rfl, rfl⟩
  · split
    · exact ⟨rfl, rfl⟩
    · split <;> exact ⟨rfl, rfl⟩

theorem gemdosFsfirst_globhead (host : Endian) (dir : HostDir) (filename : Long) (σ : SearchState) :
    (gemdosFsfirst host dir filename σ).2.sid = σ.sid + 1 ∧
      (gemdosFsfirst host dir filename σ).2.globhead.map Globitem.record =
        (σ.sid + 1, decide ((accepted dir filename σ.machine).1 ≠ 0)) :: σ.globhead.map Globitem.record := by
  rw [gemdosFsfirst_eq]
  simp only
  split_ifs with haccepted hglob
  · exact ⟨rfl, by rw [decide_eq_false (not_not.mpr haccepted)]; rfl⟩
  · exact ⟨rfl, by rw [decide_eq_true haccepted]; rfl⟩
  · rw [decide_eq_true haccepted]
    split
    · exact ⟨rfl, rfl⟩
    · split <;> exact ⟨rfl, rfl⟩

theorem Recorded.keep (h : Recorded flags σ) {τ : SearchState} (hsid : τ.sid = σ.sid)
    (hhead : τ.globhead = σ.globhead) : Recorded (flags ++ []) τ := by
  rw [List.append_nil]
  exact ⟨hsid.trans h.sid, by rw [hhead, h.items]⟩

theorem Recorded.first (h : Recorded flags σ) {τ : SearchState} {flag : Bool} (hsid : τ.sid = σ.sid + 1)
    (hhead : τ.globhead.map Globitem.record = (σ.sid + 1, flag) :: σ.globhead.map Globitem.record) :
    Recorded (flags ++ [flag]) τ := by
  constructor
  · rw [hsid, h.sid, List.length_append, List.length_singleton, BitVec.ofNat_add, BitVec.add_assoc]
    rfl
  · have hnumber : (42 : Long) + BitVec.ofNat 32 flags.length + 1 = 43 + BitVec.ofNat 32 flags.length := by
      rw [BitVec.add_assoc, BitVec.add_comm _ 1, ← BitVec.add_assoc]
      rfl
    rw [hhead, h.items, h.sid, hnumber, numbered_append, List.reverse_concat]

theorem Recorded.event (h : Recorded flags σ) (e : SearchEvent) :
    Recorded (flags ++ e.accepts.toList) (eventStep host σ e).2 := by
  obtain ⟨dir, call, machine⟩ := e
  cases call with
  | fsetdta addr => exact h.keep rfl rfl
  | fsfirst filename =>
    obtain ⟨hsid, hhead⟩ := gemdosFsfirst_globhead host dir filename { σ with machine := machine }
    exact h.first hsid hhead
  | fsnext =>
    obtain ⟨hsid, hhead⟩ := gemdosFsnext_globhead host dir { σ with machine := machine }
    exact h.keep hsid hhead

theorem run_recorded (h : Recorded flags σ) (events : List SearchEvent) :
    Recorded (flags ++ acceptedSearches events) (run (eventStep host) σ events) := by
  induction events generalizing flags σ with
  | nil =>
    rw [acceptedSearches, List.filterMap_nil, List.append_nil]
    exact h
  | cons e events ih =>
    have hnext := ih (@Recorded.event host _ _ h e)
    rw [List.append_assoc] at hnext
    have hcons : acceptedSearches (e :: events) = e.accepts.toList ++ acceptedSearches events := by
      cases he : e.accepts <;> simp [acceptedSearches, he]
    rw [hcons]
    exact hnext

theorem Recorded.find (h : Recorded flags σ) (id : Long) :
    (gemdosFindDta id σ.globhead).map (fun item => item.g.isSome) = lastSearch flags id := by
  have hfind : ∀ items : List Globitem,
      ((items.map Globitem.record).find? (fun r => r.1 = id)).map Prod.snd =
        (gemdosFindDta id items).map (fun item => item.g.isSome) := by
    intro items
    rw [List.find?_map, Option.map_map]
    rfl
  rw [lastSearch, ← h.items, hfind]

theorem fsnextSafe_iff {dir : HostDir} :
    FsnextSafe host dir σ ↔ ∃ dta, (tosMemToHostMem σ.dtaAddr σ.machine).1 = some dta ∧
      (gemdosFindDta (hostLoad host dta 0 σ.machine.memory) σ.globhead).map (fun item => item.g.isSome) =
        some true := by
  have hmem := tosMemToHostMem_memory σ.dtaAddr σ.machine
  simp only [FsnextSafe, gemdosFsnext]
  cases hdta : (tosMemToHostMem σ.dtaAddr σ.machine).1 with
  | none => simp
  | some dta =>
    simp only [hmem]
    cases hitem : gemdosFindDta (hostLoad host dta 0 σ.machine.memory) σ.globhead with
    | none => simp [hitem]
    | some item =>
      cases hg : item.g with
      | none => simp [hitem, hg]
      | some pathv =>
        refine iff_of_true ?_ ⟨dta, rfl, by simp [hitem, hg]⟩
        simp only [Option.bind_some, hg]
        cases hpath : pathv[((hostLoad host dta 4 σ.machine.memory + 1).signExtend 64).toNat]? with
        | none => exact ⟨_, rfl, Or.inl rfl⟩
        | some path =>
          have hlt := (List.getElem?_eq_some_iff.mp hpath).1
          exact ⟨_, rfl, Or.inr ⟨dta, pathv, rfl, by simp [hitem, hg], hlt⟩⟩

end Events

theorem fsnext_safe_iff (host : Endian) (m₀ : Machine) (events : List SearchEvent) (dir : HostDir) (m : Machine) :
    FsnextSafe host dir { run (eventStep host) (searchInit m₀) events with machine := m } ↔
      LeadsToGlob host (acceptedSearches events) m (run (eventStep host) (searchInit m₀) events).dtaAddr := by
  have hrun := @run_recorded host _ _ (searchInit_recorded m₀) events
  rw [List.nil_append] at hrun
  simp only [LeadsToGlob, ← hrun.find]
  exact @fsnextSafe_iff host { run (eventStep host) (searchInit m₀) events with machine := m } dir

/-- `glob` is not called: the base path does not exist. -/
def refusedDir : HostDir := { twoFiles with basePath := [0x2f, 0x62, 0x2f, 0x63, 0x2f] }

def numberMachine : Machine :=
  { searchMachine with
    memory := addPtrMemoryArea MEMORY_READWRITE 0x900 256 ⟨256, fun i => if i = 0 then 43 else 0⟩ [] }

theorem fsnext_unsafe :
    let before := [⟨twoFiles, .fsetdta 0x900, searchMachine⟩]
    let refused := before ++ [⟨refusedDir, .fsfirst 0x980, searchMachine⟩]
    (results (eventStep .little) (searchInit searchMachine) refused).getLast? = some (some GEMDOS_EFILNF) ∧
      ∀ events ∈ [before, refused], ¬ FsnextSafe .little twoFiles
        { run (eventStep .little) (searchInit searchMachine) events with machine := numberMachine } := by
  intro before refused
  have hnone : ∀ events ∈ [before, refused], (gemdosFsnext .little twoFiles
      { run (eventStep .little) (searchInit searchMachine) events with machine := numberMachine }).1 = none := by
    intro events hevents
    rcases List.mem_pair.mp hevents with rfl | rfl
    · decide +kernel
    · decide +kernel
  refine ⟨by decide +kernel, fun events hevents hsafe => ?_⟩
  obtain ⟨code, hcode, -⟩ := hsafe
  rw [hnone events hevents] at hcode
  cases hcode

end Tosemu.Search
