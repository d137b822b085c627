import Tosemu.PathMeaning

namespace Tosemu.Gemdos

open Host

def pathFromTosIn (t : HostTree) (cwd : Position) (base tp : List Byte) : ℕ × List Byte :=
  pathFromTosWith (fun up => t.realpathText (absolute cwd up)) base tp

/-- `te->base_path` for a value of `TOS_BASE_PATH`. -/
def initBasePath : Option (List Byte) → List Byte
  | none => []
  | some path => path ++ [slash]

/-- `TOS_BASE_PATH` is `s` and names the directory `d`, and the translated path names `q` there; the host
takes both texts. -/
structure NamesInside (t : HostTree) (cwd : Position) (s tp : List Byte) (d q : Position) : Prop where
  short : s.length < PATH_MAX
  base : t.resolve (absolute cwd s) = some d
  dir : t.kind d = some .dir
  taken : (pathFromTosIn t cwd (initBasePath (some s)) tp).2.length < PATH_MAX
  object : t.resolve (absolute cwd (pathFromTosIn t cwd (initBasePath (some s)) tp).2) = some q
  below : d <+: q

section Check

variable {t : HostTree} {cwd : Position} {s tp : List Byte} {d q : Position}

theorem pathFromTosIn_unset (t : HostTree) (cwd : Position) (tp : List Byte) :
    pathFromTosIn t cwd [] tp = pathFromTos t [] tp := by
  simp [pathFromTosIn, pathFromTos, pathFromTosWith]

theorem pathFromTosIn_absolute {base : List Byte} (h : base.head? = some slash) (tp : List Byte) :
    pathFromTosIn t cwd base tp = pathFromTos t base tp := by
  obtain ⟨rest, rfl⟩ : ∃ rest, base = slash :: rest := by
    cases base with
    | nil => cases h
    | cons b rest => exact ⟨rest, by rw [Option.some.inj h]⟩
  rfl

theorem pathFromTosIn_path (base tp : List Byte) : (pathFromTosIn t cwd base tp).2 =
    base.take PATH_MAX ++ convert true (tp.take (PATH_MAX - (base.take PATH_MAX).length)) := by
  unfold pathFromTosIn pathFromTosWith
  dsimp only
  split_ifs <;> rfl

theorem pathText_head (p : Position) : (pathText p).head? = some slash := by
  cases p <;> rfl

theorem not_prefix_pathText (hs : s ≠ []) (hhead : s.head? ≠ some slash) (p : Position) :
    ¬ s <+: pathText p := by
  rintro ⟨rest, hrest⟩
  have hp := pathText_head p
  rw [← hrest, List.head?_append_of_ne_nil _ hs] at hp
  exact hhead hp

theorem accepted_iff_text (h : NamesInside t cwd s tp d q) :
    (pathFromTosIn t cwd (initBasePath (some s)) tp).1 ≠ 0 ↔ s <+: pathText q := by
  have hlen := h.short
  have htaken := h.taken
  have hq := h.object
  have htake : (s ++ [slash]).take PATH_MAX = s ++ [slash] := by
    apply List.take_of_length_le
    rw [List.length_append, List.length_singleton]
    omega
  have hcount : (s ++ [slash]).length - 1 = s.length := by simp
  rw [pathFromTosIn_path] at hq htaken
  rw [initBasePath, htake] at hq htaken
  let up := s ++ [slash] ++ convert true (tp.take (PATH_MAX - (s ++ [slash]).length))
  have hup : up.take s.length = s := by simp [up, List.append_assoc]
  have hpos : up.length ≠ 0 := by simp [up]
  have hpath : pathFromTosIn t cwd (s ++ [slash]) tp =
      if s ++ [slash] ≠ [] ∧ !strncmpEq up (t.realpathText (absolute cwd up)) s.length
      then (0, up) else (up.length, up) := by
    rw [← hcount]
    simp only [pathFromTosIn, pathFromTosWith, htake]
    rfl
  have hcheck : strncmpEq up (t.realpathText (absolute cwd up)) s.length = true ↔
      s <+: t.realpathText (absolute cwd up) := by
    rw [strncmpEq, decide_eq_true_iff, hup, List.prefix_iff_eq_take]
  -- what does not start at the root is no prefix of a canonical path
  have hreal : s <+: t.realpathText (absolute cwd up) ↔ s <+: pathText q := by
    by_cases habs : up.head? = some slash
    · have hsame : absolute cwd up = up := if_pos habs
      have hresolve : t.resolve up = some q := hsame ▸ hq
      rw [hsame, HostTree.realpathText, realpath_of_resolve habs htaken hresolve]
      rfl
    · have hne : s ≠ [] := by
        rintro rfl
        exact habs rfl
      have hhead : s.head? ≠ some slash := by
        intro hs
        apply habs
        have happ : up = s ++ (slash :: convert true (tp.take (PATH_MAX - (s ++ [slash]).length))) := by
          simp [up]
        rw [happ, List.head?_append_of_ne_nil _ hne, hs]
      have hno : ∀ p, ¬ s <+: pathText p := not_prefix_pathText hne hhead
      unfold HostTree.realpathText
      cases t.realpath (absolute cwd up) with
      | none => simp [hno q, hne]
      | some p => simp [hno p, hno q]
  rw [initBasePath, hpath, ← hreal]
  by_cases hpre : s <+: t.realpathText (absolute cwd up)
  · simp [hpre, hcheck.mpr hpre, hpos]
  · have hno := hcheck.not.mpr hpre
    simp [hpre, hno]

theorem canonical_base_accepted (h : NamesInside t cwd (pathText d) tp d q) :
    (pathFromTosIn t cwd (initBasePath (some (pathText d))) tp).1 ≠ 0 := by
  have hords : ∀ n ∈ d, Ordinary n := exists_ordinary (by rw [h.dir]; rfl)
  have hreal : ∀ n ∈ q, slash ∉ n := realpathFrom_noSlash (by simp) (components_noSlash _)
    (realpathFrom_of_walk h.object)
  exact (accepted_iff_text h).mpr ((pathText_prefix_iff hords hreal).mpr (Or.inl h.below))

theorem relative_base_refused (h : NamesInside t cwd s tp d q) (hne : s ≠ []) (hrel : s.head? ≠ some slash) :
    (pathFromTosIn t cwd (initBasePath (some s)) tp).1 = 0 := by
  by_contra hacc
  obtain ⟨rest, hrest⟩ := (accepted_iff_text h).mp hacc
  have hhead := pathText_head q
  rw [← hrest, List.head?_append_of_ne_nil _ hne] at hhead
  exact hrel hhead

end Check

theorem inside_accepted_iff (t : HostTree) (cwd : Position) (s tp : List Byte) (d q : Position)
    (h : NamesInside t cwd s tp d q) :
    (pathFromTosIn t cwd (initBasePath (some s)) tp).1 ≠ 0 ↔ s <+: pathText q :=
  accepted_iff_text h

theorem inside_accepted_canonical :
    (pathFromTosIn nestedTree [] (initBasePath (some [slash, 0x62])) [0x73, 0x5c, 0x66]).1 ≠ 0 :=
  (inside_accepted_iff nestedTree [] [slash, 0x62] [0x73, 0x5c, 0x66] [[0x62]] [[0x62], [0x73], [0x66]]
    ⟨by decide, by decide +kernel, by decide +kernel, by decide +kernel, by decide +kernel, by decide⟩).mpr
      (by decide)

/-- The base path `b` from the root refuses its own `s\f`, and `/b/` refuses the base directory itself. -/
theorem inside_refused :
    (NamesInside nestedTree [] [0x62] [0x73, 0x5c, 0x66] [[0x62]] [[0x62], [0x73], [0x66]] ∧
      (pathFromTosIn nestedTree [] (initBasePath (some [0x62])) [0x73, 0x5c, 0x66]).1 = 0) ∧
    NamesInside nestedTree [] [slash, 0x62, slash] [] [[0x62]] [[0x62]] ∧
      (pathFromTosIn nestedTree [] (initBasePath (some [slash, 0x62, slash])) []).1 = 0 := by
  refine ⟨⟨⟨by decide, ?_, ?_, ?_, ?_, by decide⟩, by decide +kernel⟩,
    ⟨by decide, ?_, ?_, ?_, ?_, by decide⟩, by decide +kernel⟩ <;> decide +kernel

end Tosemu.Gemdos
