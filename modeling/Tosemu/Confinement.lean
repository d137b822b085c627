import Tosemu.SandboxCreate
import Tosemu.SandboxGlob

namespace Tosemu.Gemdos

open Host

def Confined (t : HostTree) (d : Position) (tp : List Byte) (call : PathCall) : Prop :=
  (pathFromTos t (basePath d) tp).1 ≠ 0 →
    ∀ p ∈ (pathStep t (basePath d) tp call).touched, d <+: p

/-- The one object that a call reaches which neither makes directories nor expands wildcards. -/
def target (t : HostTree) (s : List Byte) : PathCall → Option Position
  | .dsetpath => (withPath s (t.resolve s)).filter (fun p => t.kind p = some .dir)
  | .dcreate => (withPath s (t.mkdir s)).map Prod.fst
  | .fdelete => (withPath s (t.unlink s)).map Prod.fst
  | .fcreate => none
  | .fopen mode => (File.openMode mode).bind (fun m => (withPath s (hostFopen t s m)).map Prod.fst)
  | .fattrib => withPath s (t.resolve s)
  | .fsfirst _ => none

def Accepts (t : HostTree) (d : Position) (s : List Byte) : Prop :=
  ∃ p, t.realpath s = some p ∧ (d <+: p ∨ Sibling d p)

def Keeps (t : HostTree) (d : Position) (s : List Byte) : PathCall → Prop
  | .fcreate => Accepts t d s → ∀ q, Creates t s q → d <+: q
  | .fsfirst parse => Accepts t d s → ∀ q, Globbed parse t (components s) q → d <+: q
  | call => ∀ p, target t s call = some p → ¬ Sibling d p

section Targets

variable {t : HostTree} {s : List Byte} {p : Position} {t' : HostTree}

theorem realpathFrom_of_unlink (h : t.unlink s = some (p, t')) :
    t.realpathFrom [] (components s) = some p := by
  unfold HostTree.unlink at h
  cases hr : t.resolve s with
  | none =>
    rw [hr] at h
    simp at h
  | some r =>
    simp only [hr] at h
    split_ifs at h
    obtain ⟨rfl, -⟩ := Prod.mk.inj (Option.some.inj h)
    exact realpathFrom_of_walk hr

theorem realpathFrom_of_create (h : t.create s = some (p, t')) :
    t.realpathFrom [] (components s) = some p := by
  unfold HostTree.create at h
  cases hr : t.resolve s with
  | none =>
    rw [hr] at h
    have := realpathFrom_of_make h []
    rwa [List.append_nil] at this
  | some r =>
    simp only [hr] at h
    split_ifs at h
    obtain ⟨rfl, -⟩ := Prod.mk.inj (Option.some.inj h)
    exact realpathFrom_of_walk hr

theorem realpathFrom_of_fopen {m : Mode} (h : hostFopen t s m = some (p, t')) :
    t.realpathFrom [] (components s) = some p := by
  cases m with
  | read =>
    obtain ⟨r, hr, hp⟩ := Option.map_eq_some_iff.mp h
    obtain ⟨rfl, -⟩ := Prod.mk.inj hp
    exact realpathFrom_of_walk hr
  | write => exact realpathFrom_of_create h
  | update =>
    unfold hostFopen at h
    cases hr : t.resolve s with
    | none =>
      rw [hr] at h
      simp at h
    | some r =>
      simp only [hr] at h
      split_ifs at h
      obtain ⟨rfl, -⟩ := Prod.mk.inj (Option.some.inj h)
      exact realpathFrom_of_walk hr

theorem realpath_of_target {call : PathCall} (habs : s.head? = some slash) (h : target t s call = some p) :
    t.realpath s = some p := by
  cases call with
  | dsetpath =>
    obtain ⟨hlen, hr⟩ := withPath_eq_some.mp (Option.filter_eq_some_iff.mp h).1
    exact realpath_of_resolve habs hlen hr
  | dcreate =>
    obtain ⟨⟨q, t'⟩, hm, rfl⟩ := Option.map_eq_some_iff.mp h
    obtain ⟨hlen, hm⟩ := withPath_eq_some.mp hm
    exact realpath_of_short habs hlen (realpathFrom_of_make hm _)
  | fdelete =>
    obtain ⟨⟨q, t'⟩, hm, rfl⟩ := Option.map_eq_some_iff.mp h
    obtain ⟨hlen, hm⟩ := withPath_eq_some.mp hm
    exact realpath_of_short habs hlen (realpathFrom_of_unlink hm)
  | fopen mode =>
    obtain ⟨m, -, hopen⟩ := Option.bind_eq_some_iff.mp h
    obtain ⟨⟨q, t'⟩, hm, rfl⟩ := Option.map_eq_some_iff.mp hopen
    obtain ⟨hlen, hm⟩ := withPath_eq_some.mp hm
    exact realpath_of_short habs hlen (realpathFrom_of_fopen hm)
  | fattrib =>
    obtain ⟨hlen, hr⟩ := withPath_eq_some.mp h
    exact realpath_of_resolve habs hlen hr
  | fcreate => simp [target] at h
  | fsfirst parse => simp [target] at h

end Targets

section Calls

variable {t : HostTree} {base tp : List Byte}

theorem mem_touched_one {call : PathCall} (h : (pathFromTos t base tp).1 ≠ 0)
    (hcreate : call ≠ .fcreate) (hfirst : ∀ parse, call ≠ .fsfirst parse) {p : Position} :
    p ∈ (pathStep t base tp call).touched ↔ target t (pathFromTos t base tp).2 call = some p := by
  cases call with
  | dsetpath => simp [pathStep, gemdosDsetpath, target, h, Option.filter_eq_some_iff]
  | dcreate =>
    simp only [pathStep, gemdosDcreate, target, h, if_false]
    cases withPath (pathFromTos t base tp).2 (t.mkdir (pathFromTos t base tp).2) <;> simp [eq_comm]
  | fdelete =>
    simp only [pathStep, gemdosFdelete, target, h, if_false]
    cases withPath (pathFromTos t base tp).2 (t.unlink (pathFromTos t base tp).2) <;> simp [eq_comm]
  | fcreate => exact absurd rfl hcreate
  | fopen mode =>
    simp only [pathStep, gemdosFopen, target, h, if_false]
    cases File.openMode mode with
    | none => simp
    | some m =>
      cases hf : withPath (pathFromTos t base tp).2 (hostFopen t (pathFromTos t base tp).2 m) <;> simp [hf, eq_comm]
  | fattrib =>
    simp only [pathStep, gemdosFattrib, target, h, if_false]
    cases withPath (pathFromTos t base tp).2 (t.resolve (pathFromTos t base tp).2) <;> simp [eq_comm]
  | fsfirst parse => exact absurd rfl (hfirst parse)

theorem mem_touched_fcreate (h : (pathFromTos t base tp).1 ≠ 0) {q : Position} :
    q ∈ (gemdosFcreate t base tp).touched ↔ Creates t (pathFromTos t base tp).2 q := by
  rw [← create_touched]
  simp only [gemdosFcreate, h, if_false]
  cases hc : withPath (pathFromTos t base tp).2 ((makeDirs t [] (segments (pathFromTos t base tp).2)).1.create
      (pathFromTos t base tp).2) with
  | none => simp
  | some r =>
    obtain ⟨p, t'⟩ := r
    simp [eq_comm]

theorem mem_touched_fsfirst (h : (pathFromTos t base tp).1 ≠ 0) (parse : Name → GlobComponent)
    {q : Position} : q ∈ (gemdosFsfirst parse t base tp).touched ↔
      Globbed parse t (components (pathFromTos t base tp).2) q := by
  rw [← glob_touched]
  simp only [gemdosFsfirst, h, if_false]
  split_ifs <;> rfl

end Calls

section Confined

variable {t : HostTree} {d : Position} {tp : List Byte} {call : PathCall}

theorem confined_iff_of_touched (hd : t.kind d = some .dir) (hlen : (pathText d).length < PATH_MAX)
    {P : Position → Prop} (hmem : (pathFromTos t (basePath d) tp).1 ≠ 0 →
      ∀ q, q ∈ (pathStep t (basePath d) tp call).touched ↔ P q) :
    Confined t d tp call ↔ (Accepts t d (hostPath d tp) → ∀ q, P q → d <+: q) := by
  have haccepts := accepts_iff hd hlen tp
  constructor
  · intro h hok q hq
    have hok := haccepts.mpr hok
    apply h hok q
    exact (hmem hok q).mpr hq
  · intro h hok q hq
    apply h (haccepts.mp hok) q
    exact (hmem hok q).mp hq

theorem target_below_iff {s : List Byte} (habs : s.head? = some slash) :
    (Accepts t d s → ∀ q, target t s call = some q → d <+: q) ↔
      ∀ q, target t s call = some q → ¬ Sibling d q := by
  constructor
  · intro h q hq hs
    have hreal := realpath_of_target habs hq
    apply not_sibling_of_below (h ⟨q, hreal, Or.inr hs⟩ q hq)
    exact hs
  · rintro h ⟨p, hp, hbelow⟩ q hq
    have hreal := realpath_of_target habs hq
    obtain rfl := Option.some.inj (hp.symm.trans hreal)
    exact hbelow.resolve_right (h p hq)

end Confined

theorem sandbox_confined_iff (t : HostTree) (d : Position) (hd : t.kind d = some .dir)
    (hlen : (pathText d).length < PATH_MAX) (tp : List Byte) (call : PathCall) :
    Confined t d tp call ↔ Keeps t d (hostPath d tp) call := by
  have hpath : (pathFromTos t (basePath d) tp).2 = hostPath d tp := by
    rw [pathFromTos_eq hlen]
    split_ifs <;> rfl
  have hone : call ≠ .fcreate → (∀ parse, call ≠ .fsfirst parse) → (Confined t d tp call ↔
      ∀ p, target t (hostPath d tp) call = some p → ¬ Sibling d p) := by
    intro hcreate hfirst
    have habs : (hostPath d tp).head? = some slash := by
      cases d <;> rfl
    rw [← target_below_iff habs]
    apply confined_iff_of_touched hd hlen
    intro hok q
    rw [mem_touched_one hok hcreate hfirst, hpath]
  cases call with
  | fcreate =>
    apply confined_iff_of_touched hd hlen
    intro hok q
    rw [pathStep, mem_touched_fcreate hok, hpath]
  | fsfirst parse =>
    apply confined_iff_of_touched hd hlen
    intro hok q
    rw [pathStep, mem_touched_fsfirst hok parse, hpath]
  | dsetpath => exact hone (by simp) (by simp)
  | dcreate => exact hone (by simp) (by simp)
  | fdelete => exact hone (by simp) (by simp)
  | fopen mode => exact hone (by simp) (by simp)
  | fattrib => exact hone (by simp) (by simp)

def sampleTree : HostTree :=
  [(Kind.dir, [[0x62]]), (Kind.dir, [[0x62, 0x32]]), (Kind.file, [[0x62], [0x66]]),
    (Kind.file, [[0x62, 0x32], [0x66]])].foldl
    (fun t r => ((t.make r.1 r.2).map Prod.snd).getD t) HostTree.empty

theorem sandbox_confined_delete : Confined sampleTree [[0x62]] [0x66] .fdelete := by
  refine (sandbox_confined_iff _ _ (by decide +kernel) (by decide) _ _).mpr ?_
  intro p hp
  obtain rfl : [[0x62], [0x66]] = p := Option.some.inj ((by decide +kernel :
    some [[0x62], [0x66]] = target sampleTree (hostPath [[0x62]] [0x66]) .fdelete).trans hp)
  exact not_sibling_of_below (by decide)

/-- `.*` and `*`, as the C library reads them. -/
def readStar (c : Name) : GlobComponent :=
  if c = [0x2e, 0x2a] then .pattern (fun n => n.head? = some 0x2e)
  else if c = [0x2a] then .pattern (fun n => n.head? ≠ some 0x2e)
  else .literal c

/-- `..\b2\f` deletes a file of the sibling `/b2`, `x\..\..\f` creates a file in `/`, and `.*\*` lists
what is in `/`. -/
theorem guest_path_escapes :
    ¬ Confined sampleTree [[0x62]] [0x2e, 0x2e, 0x5c, 0x62, 0x32, 0x5c, 0x66] .fdelete ∧
      ¬ Confined sampleTree [[0x62]]
        [0x78, 0x5c, 0x2e, 0x2e, 0x5c, 0x2e, 0x2e, 0x5c, 0x66] .fcreate ∧
      ¬ Confined sampleTree [[0x62]] [0x2e, 0x2a, 0x5c, 0x2a] (.fsfirst readStar) := by
  refine ⟨fun h => ?_, fun h => ?_, fun h => ?_⟩
  · have hbelow := h (by decide +kernel) [[0x62, 0x32], [0x66]] (by decide +kernel)
    exact absurd hbelow (by decide)
  · have hbelow := h (by decide +kernel) [[0x66]] (by decide +kernel)
    exact absurd hbelow (by decide)
  · have hbelow := h (by decide +kernel) [] (by decide +kernel)
    exact absurd hbelow (by decide)

end Tosemu.Gemdos
