import Tosemu.SandboxCreate

namespace Tosemu.Gemdos

open Host

/-- The absolute path with the meaning of `s` for a process in `cwd`. `path_from_tos` never accepts the
empty path, which the host refuses. -/
def absolute (cwd : Position) (s : List Byte) : List Byte :=
  if s.head? = some slash then s else basePath cwd ++ s

def chdir (t : HostTree) (cwd : Position) (s : List Byte) : Option Position :=
  withPath s ((t.resolve (absolute cwd s)).filter (fun p => t.kind p = some .dir))

def gemdosDsetpathFrom (t : HostTree) (base : List Byte) (cwd : Position) (tp : List Byte) :
    Long × Position :=
  let r := pathFromTos t base tp
  if r.1 = 0 then (GEMDOS_EFILNF, cwd)
  else (0, (chdir t cwd r.2).getD cwd)

def denotes (t : HostTree) (base : List Byte) (cwd : Position) (tp : List Byte) : Option Position :=
  let r := pathFromTos t base tp
  if r.1 = 0 then none else t.resolve (absolute cwd r.2)

theorem gemdosDsetpath_reply (t : HostTree) (base : List Byte) (cwd : Position) (tp : List Byte) :
    (gemdosDsetpath t base tp).reply = .code (gemdosDsetpathFrom t base cwd tp).1 := by
  unfold gemdosDsetpath gemdosDsetpathFrom
  dsimp only
  split_ifs <;> rfl

theorem chdir_eq_some {t : HostTree} {cwd q : Position} {s : List Byte} : chdir t cwd s = some q ↔
    s.length < PATH_MAX ∧ t.resolve (absolute cwd s) = some q ∧ t.kind q = some .dir := by
  rw [chdir, withPath_eq_some, Option.filter_eq_some_iff, decide_eq_true_iff]

section Components

variable {t : HostTree} {p q : Position}

theorem segments_append (s s' : List Byte) : segments (s ++ slash :: s') = segments s ++ segments s' :=
  List.splitOn_append_cons_self s s'

theorem components_append (s s' : List Byte) :
    components (s ++ slash :: s') = names (segments s) ++ components s' := by
  have hne : segments s' ≠ [] := List.splitOn_ne_nil _ _
  rw [components, segments_append, names_append, List.getLast?_append_of_ne_nil _ hne, components,
    List.append_assoc]

theorem names_segments_single {n : Name} (h : Ordinary n) : names (segments n) = [n] := by
  rw [segments, List.splitOn_eq_singleton h.noSlash]
  simp [names, h.nonempty]

theorem names_segments_slashed (hp : ∀ n ∈ p, Ordinary n) : names (segments (slashed p)) = p := by
  induction p using List.reverseRecOn with
  | nil => rfl
  | append_singleton p n ih =>
    have hn : slashed (p ++ [n]) = slashed p ++ slash :: n := by simp [slashed]
    rw [hn, segments_append, names_append, ih (fun m hm => hp m (List.mem_append_left _ hm)),
      names_segments_single (hp n (by simp))]

theorem names_segments_pathText (hp : ∀ n ∈ p, Ordinary n) : names (segments (pathText p)) = p := by
  unfold pathText
  split_ifs with h0
  · rw [h0]
    rfl
  · exact names_segments_slashed hp

theorem walk_position (hp : (t.kind p).isSome = true) : t.walk [] p = some p := by
  induction p using List.reverseRecOn with
  | nil => rfl
  | append_singleton p n ih =>
    have hdir := t.parent p n hp
    rw [walk_concat, ih (by rw [hdir]; rfl), Option.bind_some, enter_eq_some,
      lexStep_ordinary (t.ordinary p n hp)]
    exact ⟨hdir, rfl, hp⟩

theorem components_basePath (hp : ∀ n ∈ p, Ordinary n) (s : List Byte) :
    components (basePath p ++ s) = p ++ components s := by
  have hs : basePath p ++ s = pathText p ++ slash :: s := by simp [basePath]
  rw [hs, components_append, names_segments_pathText hp]

theorem resolve_basePath (hp : t.kind p = some .dir) (s : List Byte) :
    t.resolve (basePath p ++ s) = t.walk p (components s) := by
  have hsome : (t.kind p).isSome = true := by rw [hp]; rfl
  rw [HostTree.resolve, components_basePath (exists_ordinary hsome), walk_append, walk_position hsome,
    Option.bind_some]

theorem walk_components_dir {s : List Byte} (hq : t.kind q = some .dir) :
    t.walk p (components s) = some q ↔ t.walk p (names (segments s)) = some q := by
  unfold components
  split_ifs
  · rw [walk_concat, Option.bind_eq_some_iff]
    constructor
    · rintro ⟨r, hw, hr⟩
      obtain ⟨-, rfl, -⟩ := enter_eq_some.mp hr
      exact hw
    · intro hw
      exact ⟨q, hw, enter_eq_some.mpr ⟨hq, rfl, by rw [hq]; rfl⟩⟩
  · rw [List.append_nil]

end Components

end Tosemu.Gemdos
