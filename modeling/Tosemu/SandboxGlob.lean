import Mathlib.Data.List.Forall2
import Tosemu.HostPaths

namespace Tosemu.Host

def Fits (parse : Name → GlobComponent) (c n : Name) : Prop :=
  match parse c with
  | .literal m => n = m
  | .pattern fits => fits n = true

def Selects (parse : Name → GlobComponent) (t : HostTree) (p : Position) (cs : List Name)
    (q : Position) : Prop :=
  ∃ ns, List.Forall₂ (Fits parse) cs ns ∧ t.walk p ns = some q

variable {parse : Name → GlobComponent} {t : HostTree} {p q : Position}

theorem mem_globEnter {c : Name} :
    q ∈ t.globEnter parse p c ↔ ∃ n, Fits parse c n ∧ t.enter p n = some q := by
  unfold HostTree.globEnter Fits
  cases parse c with
  | literal m => simp
  | pattern fits =>
    simp only [List.mem_filterMap, List.mem_filter]
    constructor
    · rintro ⟨n, ⟨-, hfits⟩, hq⟩
      exact ⟨n, hfits, hq⟩
    · rintro ⟨n, hfits, hq⟩
      refine ⟨n, ⟨?_, hfits⟩, hq⟩
      -- what can be entered is listed
      obtain ⟨-, rfl, hk⟩ := enter_eq_some.mp hq
      unfold lexStep at hk
      split_ifs at hk with hdot hdotdot
      · simp [hdot]
      · simp [hdotdot]
      · simp [(t.mem_entries p n).mpr hk]

theorem selects_nil : Selects parse t p [] q ↔ q = p := by
  constructor
  · rintro ⟨ns, hns, hw⟩
    cases hns
    exact (Option.some.inj hw).symm
  · rintro rfl
    exact ⟨[], .nil, rfl⟩

theorem selects_cons {c : Name} {cs : List Name} :
    Selects parse t p (c :: cs) q ↔ ∃ r ∈ t.globEnter parse p c, Selects parse t r cs q := by
  constructor
  · rintro ⟨ns, hns, hw⟩
    cases hns with
    | cons hfit hns =>
      obtain ⟨r, hr, hw⟩ := Option.bind_eq_some_iff.mp hw
      exact ⟨r, mem_globEnter.mpr ⟨_, hfit, hr⟩, _, hns, hw⟩
  · rintro ⟨r, hr, ns, hns, hw⟩
    obtain ⟨n, hfit, hr⟩ := mem_globEnter.mp hr
    exact ⟨n :: ns, .cons hfit hns, Option.bind_eq_some_iff.mpr ⟨r, hr, hw⟩⟩

theorem mem_globFrom {ps : List Position} {cs : List Name} :
    q ∈ t.globFrom parse ps cs ↔ ∃ p ∈ ps, Selects parse t p cs q := by
  induction cs generalizing ps with
  | nil =>
    simp only [HostTree.globFrom, selects_nil]
    simp
  | cons c cs ih =>
    simp only [HostTree.globFrom, ih, List.mem_flatMap, selects_cons]
    constructor
    · rintro ⟨r, ⟨p, hp, hr⟩, hq⟩
      exact ⟨p, hp, r, hr, hq⟩
    · rintro ⟨p, hp, r, hr, hq⟩
      exact ⟨r, ⟨p, hp, hr⟩, hq⟩

theorem mem_globListed {ps : List Position} {cs : List Name} :
    q ∈ t.globListed parse ps cs ↔ ∃ before c after, cs = before ++ c :: after ∧
      (parse c).isPattern = true ∧ t.kind q = some .dir ∧ q ∈ t.globFrom parse ps before := by
  induction cs generalizing ps with
  | nil => simp [HostTree.globListed]
  | cons c cs ih =>
    simp only [HostTree.globListed, List.mem_append, ih]
    constructor
    · rintro (hq | ⟨before, c', after, rfl, hpat, hk, hq⟩)
      · split_ifs at hq with hpat
        · obtain ⟨hp, hk⟩ := List.mem_filter.mp hq
          exact ⟨[], c, cs, rfl, hpat, by simpa using hk, hp⟩
        · simp at hq
      · exact ⟨c :: before, c', after, rfl, hpat, hk, hq⟩
    · rintro ⟨before, c', after, hcs, hpat, hk, hq⟩
      cases before with
      | nil =>
        obtain ⟨rfl, -⟩ := List.cons.inj hcs
        rw [if_pos hpat]
        exact Or.inl (List.mem_filter.mpr ⟨hq, by simpa using hk⟩)
      | cons b before =>
        obtain ⟨rfl, rfl⟩ := List.cons.inj hcs
        exact Or.inr ⟨before, c', after, rfl, hpat, hk, hq⟩

def Globbed (parse : Name → GlobComponent) (t : HostTree) (cs : List Name) (q : Position) : Prop :=
  Selects parse t [] cs q ∨ ∃ before c after, cs = before ++ c :: after ∧
    (parse c).isPattern = true ∧ t.kind q = some .dir ∧ Selects parse t [] before q

theorem glob_touched {cs : List Name} :
    q ∈ t.globListed parse [[]] cs ++ t.globFrom parse [[]] cs ↔ Globbed parse t cs q := by
  simp only [List.mem_append, mem_globListed, mem_globFrom, List.mem_singleton, exists_eq_left, Globbed]
  exact or_comm

end Tosemu.Host
