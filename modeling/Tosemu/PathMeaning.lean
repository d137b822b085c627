import Tosemu.CurrentDirectory
import Tosemu.Runs

namespace Tosemu.Gemdos

open Host Runs

def baseText : Option Position → List Byte
  | none => []
  | some d => basePath d

def setpathStep (t : HostTree) (base : Option Position) (cwd : Position) (d : List Byte) :
    Long × Position := gemdosDsetpathFrom t (baseText base) cwd d

/-- A base path is set, or the path names no other directory than the current one. -/
def StaysPut (t : HostTree) (base : Option Position) (cwd : Position) (d : List Byte) : Prop :=
  base.isSome ∨ ∀ q, chdir t cwd (convert true (d.take PATH_MAX)) = some q → q = cwd

/-- Without a base path: `d` names a directory and `p` is a relative path. With one: `d` names the
base directory itself. -/
def CarriesOver (t : HostTree) (base : Option Position) (cwd : Position) (d p : List Byte) : Prop :=
  (baseText base).length + (d ++ backslash :: p).length ≤ PATH_MAX ∧
    match base with
    | none => (chdir t cwd (convert true d)).isSome ∧ p ≠ [] ∧ p.head? ≠ some slash
    | some b => t.resolve (basePath b ++ convert true d) = some b

section Convert

theorem convert_nil (prevSlash : Bool) : convert prevSlash [] = [] := rfl

theorem convert_skip (s : List Byte) : convert true (backslash :: s) = convert true s := rfl

theorem convert_slash (s : List Byte) : convert false (backslash :: s) = slash :: convert true s := rfl

theorem convert_other {c : Byte} (hc : c ≠ backslash) (prevSlash : Bool) (s : List Byte) :
    convert prevSlash (c :: s) = c :: convert false s := by
  rw [convert, if_neg hc]

theorem components_convert (d p : List Byte) (prevSlash : Bool) (up : List Byte)
    (h : prevSlash = true → up = [] ∨ ∃ u, up = u ++ [slash]) :
    components (up ++ convert prevSlash (d ++ backslash :: p)) =
      names (segments (up ++ convert prevSlash d)) ++ components (convert true p) := by
  induction d generalizing prevSlash up with
  | nil =>
    rw [List.nil_append, convert_nil, List.append_nil]
    cases prevSlash with
    | false => exact components_append up _
    | true =>
      rw [convert_skip]
      rcases h rfl with rfl | ⟨u, rfl⟩
      · rfl
      · have happ : u ++ [slash] ++ convert true p = u ++ slash :: convert true p := by simp
        rw [happ, components_append, segments_append, names_append]
        exact congrArg (· ++ components (convert true p)) (List.append_nil _).symm
  | cons c d ih =>
    rw [List.cons_append]
    by_cases hc : c = backslash
    · subst hc
      cases prevSlash with
      | true =>
        rw [convert_skip, convert_skip]
        exact ih true up h
      | false =>
        rw [convert_slash, convert_slash, List.append_cons, List.append_cons up slash (convert true d)]
        exact ih true (up ++ [slash]) (fun _ => Or.inr ⟨up, rfl⟩)
    · rw [convert_other hc, convert_other hc, List.append_cons, List.append_cons up c (convert false d)]
      exact ih false (up ++ [c]) (fun hf => absurd hf Bool.false_ne_true)

theorem convert_append (prevSlash : Bool) (s s' : List Byte) :
    convert prevSlash s <+: convert prevSlash (s ++ s') := by
  induction s generalizing prevSlash with
  | nil => exact List.nil_prefix
  | cons c s ih =>
    rw [List.cons_append]
    by_cases hc : c = backslash
    · subst hc
      cases prevSlash with
      | true => exact ih true
      | false => exact List.cons_prefix_cons.mpr ⟨rfl, ih true⟩
    · rw [convert_other hc, convert_other hc]
      exact List.cons_prefix_cons.mpr ⟨rfl, ih false⟩

end Convert

section Denotes

variable {t : HostTree} {cwd : Position} {tp : List Byte}

theorem absolute_of_relative {s : List Byte} (hcwd : t.kind cwd = some .dir)
    (hs : s.head? ≠ some slash) : t.resolve (absolute cwd s) = t.walk cwd (components s) := by
  rw [absolute, if_neg hs, resolve_basePath hcwd]

theorem basePath_cons (d : Position) : ∃ rest, basePath d = slash :: rest := by
  cases d with
  | nil => exact ⟨[slash], rfl⟩
  | cons n p => exact ⟨_, rfl⟩

theorem absolute_basePath (d cwd : Position) (s : List Byte) :
    absolute cwd (basePath d ++ s) = basePath d ++ s := by
  obtain ⟨rest, hrest⟩ := basePath_cons d
  rw [hrest]
  rfl

theorem denotes_base (d cwd cwd' : Position) (tp : List Byte) :
    denotes t (basePath d) cwd tp = denotes t (basePath d) cwd' tp := by
  obtain ⟨rest, hrest⟩ := basePath_cons d
  have habs : ∀ q, absolute q (pathFromTos t (slash :: rest) tp).2 = (pathFromTos t (slash :: rest) tp).2 := by
    intro q
    unfold pathFromTos pathFromTosWith
    dsimp only
    split_ifs <;> rfl
  unfold denotes
  rw [hrest]
  simp only [habs]

theorem denotes_unset (hlen : tp.length ≤ PATH_MAX) (hne : convert true tp ≠ []) :
    denotes t [] cwd tp = t.resolve (absolute cwd (convert true tp)) := by
  have htake : tp.take (PATH_MAX - 0) = tp := List.take_of_length_le hlen
  have hpath : pathFromTos t [] tp = ((convert true tp).length, convert true tp) := by
    rw [← htake]
    simp [pathFromTos, pathFromTosWith, List.take_take]
  have hpos : (convert true tp).length ≠ 0 := fun h0 => hne (List.length_eq_zero_iff.mp h0)
  rw [denotes, hpath]
  exact if_neg hpos

theorem denotes_set {d : Position} (hlen : (basePath d).length + tp.length ≤ PATH_MAX) :
    denotes t (basePath d) cwd tp =
      if pathText d <+: t.realpathText (basePath d ++ convert true tp) then
        t.resolve (basePath d ++ convert true tp) else none := by
  have htext : (basePath d).length = (pathText d).length + 1 := by simp [basePath]
  have hhost : hostPath d tp = basePath d ++ convert true tp := by
    rw [hostPath, List.take_of_length_le (by omega)]
  have hpos : (basePath d ++ convert true tp).length ≠ 0 := by
    rw [List.length_append]
    omega
  rw [denotes, pathFromTos_eq (by omega), hhost]
  by_cases hpre : pathText d <+: t.realpathText (basePath d ++ convert true tp)
  · simp only [if_pos hpre, if_neg hpos, absolute_basePath]
  · simp only [if_neg hpre, if_true]

end Denotes

section Carries

variable {t : HostTree} {d p : List Byte}

theorem components_absolute (cwd : Position) (hd : convert true d ≠ []) (p : List Byte) :
    components (absolute cwd (convert true (d ++ backslash :: p))) =
      names (segments (absolute cwd (convert true d))) ++ components (convert true p) := by
  obtain ⟨rest, hrest⟩ := convert_append true d (backslash :: p)
  have hhead : (convert true (d ++ backslash :: p)).head? = (convert true d).head? := by
    rw [← hrest, List.head?_append_of_ne_nil _ hd]
  unfold absolute
  rw [hhead]
  split_ifs
  · exact components_convert d p true [] (fun _ => Or.inl rfl)
  · exact components_convert d p true (basePath cwd) (fun _ => Or.inr ⟨pathText cwd, rfl⟩)

theorem carries_unset {cwd q : Position} (hlen : (d ++ backslash :: p).length ≤ PATH_MAX)
    (hd : convert true d ≠ []) (hq : chdir t cwd (convert true d) = some q) (hp : p.head? ≠ some backslash)
    (hne : p ≠ []) (hrel : p.head? ≠ some slash) :
    denotes t [] q p = denotes t [] cwd (d ++ backslash :: p) := by
  obtain ⟨c, rest, rfl⟩ := List.exists_cons_of_ne_nil hne
  obtain ⟨-, hresolve, hdir⟩ := chdir_eq_some.mp hq
  have hconvert : convert true (c :: rest) = c :: convert false rest :=
    convert_other (fun hc => hp (by rw [hc]; rfl)) true rest
  have hjoined : convert true (d ++ backslash :: c :: rest) ≠ [] := by
    obtain ⟨tail, htail⟩ := convert_append true d (backslash :: c :: rest)
    rw [← htail]
    exact List.append_ne_nil_of_left_ne_nil hd tail
  have hwalk := (walk_components_dir hdir).mp hresolve
  rw [List.length_append, List.length_cons] at hlen
  rw [denotes_unset (by omega) (by rw [hconvert]; exact List.cons_ne_nil _ _),
    denotes_unset (by rw [List.length_append, List.length_cons]; exact hlen) hjoined,
    absolute_of_relative hdir (by rw [hconvert]; exact hrel), HostTree.resolve,
    components_absolute cwd hd, walk_append, hwalk, Option.bind_some]

theorem carries_set {b : Position} (hb : t.kind b = some .dir)
    (hlen : (basePath b).length + (d ++ backslash :: p).length ≤ PATH_MAX)
    (hd : t.resolve (basePath b ++ convert true d) = some b) (cwd cwd' : Position) :
    denotes t (basePath b) cwd' p = denotes t (basePath b) cwd (d ++ backslash :: p) := by
  have hsome : (t.kind b).isSome = true := by rw [hb]; rfl
  have hcomps := components_convert d p true (basePath b) (fun _ => Or.inr ⟨pathText b, rfl⟩)
  have hwalk := (walk_components_dir hb).mp hd
  have hreal : t.realpathText (basePath b ++ convert true (d ++ backslash :: p)) =
      t.realpathText (basePath b ++ convert true p) := by
    rw [HostTree.realpathText, HostTree.realpathText, HostTree.realpath, hcomps, realpathFrom_append hwalk,
      HostTree.realpath, components_basePath (exists_ordinary hsome), realpathFrom_append (walk_position hsome)]
  have hresolve : t.resolve (basePath b ++ convert true (d ++ backslash :: p)) =
      t.resolve (basePath b ++ convert true p) := by
    rw [resolve_basePath hb (convert true p), HostTree.resolve, hcomps, walk_append, hwalk, Option.bind_some]
  have hshort : (basePath b).length + p.length ≤ PATH_MAX := by
    rw [List.length_append, List.length_cons] at hlen
    omega
  rw [denotes_set hshort, denotes_set hlen, hreal, hresolve]

end Carries

theorem pathFromTos_unset (t : HostTree) (tp : List Byte) :
    pathFromTos t [] tp = ((convert true (tp.take PATH_MAX)).length, convert true (tp.take PATH_MAX)) := by
  simp [pathFromTos, pathFromTosWith]

section Setpath

variable {t : HostTree} {cwd : Position} {d : List Byte}

theorem setpath_unset (hok : (setpathStep t none cwd d).1 = 0) :
    convert true (d.take PATH_MAX) ≠ [] ∧
      (setpathStep t none cwd d).2 = (chdir t cwd (convert true (d.take PATH_MAX))).getD cwd := by
  unfold setpathStep gemdosDsetpathFrom at hok ⊢
  rw [baseText, pathFromTos_unset] at hok ⊢
  by_cases hnil : convert true (d.take PATH_MAX) = []
  · rw [hnil] at hok
    exact absurd hok (show GEMDOS_EFILNF ≠ 0 by decide)
  · have hpos : (convert true (d.take PATH_MAX)).length ≠ 0 := fun h0 => hnil (List.length_eq_zero_iff.mp h0)
    simp only [if_neg hpos]
    exact ⟨hnil, trivial⟩

theorem stays_put (h : StaysPut t none cwd d) : (setpathStep t none cwd d).2 = cwd := by
  have hq := h.resolve_left (by simp)
  unfold setpathStep gemdosDsetpathFrom
  rw [baseText, pathFromTos_unset]
  dsimp only
  split_ifs
  · rfl
  · cases hc : chdir t cwd (convert true (d.take PATH_MAX)) with
    | none => rfl
    | some q => exact hq q hc

end Setpath

theorem path_meaning (t : HostTree) (base : Option Position) (hbase : ∀ b ∈ base, t.kind b = some .dir)
    (start : Position) (calls : List (List Byte)) :
    let cwd := run (setpathStep t base) start calls
    (∀ p, Along (setpathStep t base) (StaysPut t base) start calls →
      denotes t (baseText base) cwd p = denotes t (baseText base) start p) ∧
    ∀ d p, p.head? ≠ some backslash → (setpathStep t base cwd d).1 = 0 →
      CarriesOver t base cwd d p →
      denotes t (baseText base) (setpathStep t base cwd d).2 p =
        denotes t (baseText base) cwd (d ++ backslash :: p) := by
  intro cwd
  constructor
  · intro p halong
    cases base with
    | some b => exact denotes_base b cwd start p
    | none =>
      have hkeep : ∀ q d, q = start → StaysPut t none q d → (setpathStep t none q d).2 = start :=
        fun q d hq hs => (stays_put hs).trans hq
      have hcwd : cwd = start := run_along hkeep rfl halong
      rw [hcwd]
  · rintro d p hp hok ⟨hlen, hcarries⟩
    cases base with
    | some b => exact carries_set (hbase b rfl) hlen hcarries cwd _
    | none =>
      obtain ⟨hdir, hne, hrel⟩ := hcarries
      obtain ⟨q, hq⟩ := Option.isSome_iff_exists.mp hdir
      obtain ⟨hnil, hnext⟩ := setpath_unset hok
      have hfits : (d ++ backslash :: p).length ≤ PATH_MAX := by simpa [baseText] using hlen
      have htake : d.take PATH_MAX = d := by
        apply List.take_of_length_le
        rw [List.length_append] at hfits
        omega
      rw [htake] at hnil hnext
      rw [hnext, hq]
      exact carries_unset hfits hnil hq hp hne hrel

def nestedTree : HostTree :=
  [(Kind.dir, [[0x62]]), (Kind.dir, [[0x62], [0x73]]), (Kind.file, [[0x62], [0x73], [0x66]]),
    (Kind.file, [[0x66]])].foldl
    (fun t r => ((t.make r.1 r.2).map Prod.snd).getD t) HostTree.empty

theorem path_meaning_nested :
    (denotes nestedTree (baseText (some [[0x62]]))
          (run (setpathStep nestedTree (some [[0x62]])) [] [[0x73], [0x78]]) [0x73, backslash, 0x66] =
        denotes nestedTree (baseText (some [[0x62]])) [] [0x73, backslash, 0x66] ∧
      denotes nestedTree (baseText (some [[0x62]]))
          (setpathStep nestedTree (some [[0x62]])
            (run (setpathStep nestedTree (some [[0x62]])) [] [[0x73], [0x78]]) [0x2e]).2
          [0x73, backslash, 0x66] =
        denotes nestedTree (baseText (some [[0x62]]))
          (run (setpathStep nestedTree (some [[0x62]])) [] [[0x73], [0x78]])
          [0x2e, backslash, 0x73, backslash, 0x66]) ∧
    denotes nestedTree [] [[0x62], [0x73]] [0x66] =
      denotes nestedTree [] [[0x62]] [0x73, backslash, 0x66] := by
  have hdir : ∀ b ∈ some [[0x62]], nestedTree.kind b = some .dir := by
    rintro b ⟨⟩
    decide +kernel
  obtain ⟨hfixed, hcarries⟩ := path_meaning nestedTree (some [[0x62]]) hdir [] [[0x73], [0x78]]
  have hset := hfixed [0x73, backslash, 0x66] ⟨Or.inl rfl, Or.inl rfl, trivial⟩
  have hbelow := hcarries [0x2e] [0x73, backslash, 0x66] (by decide) (by decide +kernel)
    ⟨by decide, by decide +kernel⟩
  have h := (path_meaning nestedTree none (by simp) [] [[0x62]]).2 [0x73] [0x66]
  have hcwd : run (setpathStep nestedTree none) [] [[0x62]] = [[0x62]] := by decide +kernel
  have hnext : (setpathStep nestedTree none [[0x62]] [0x73]).2 = [[0x62], [0x73]] := by decide +kernel
  rw [hcwd, hnext] at h
  exact ⟨⟨hset, hbelow⟩, h (by decide) (by decide +kernel) ⟨by decide, by decide +kernel, by decide, by decide⟩⟩

/-- With the base path `/b`, `s` stays out of the meaning of `f`; without one, `\f` follows the current
directory. -/
theorem path_meaning_lost :
    ((setpathStep nestedTree (some [[0x62]]) [] [0x73]).1 = 0 ∧
      denotes nestedTree (baseText (some [[0x62]])) (setpathStep nestedTree (some [[0x62]]) [] [0x73]).2
        [0x66] = none ∧
      denotes nestedTree (baseText (some [[0x62]])) [] [0x73, backslash, 0x66] =
        some [[0x62], [0x73], [0x66]]) ∧
    (setpathStep nestedTree none [] [0x62]).1 = 0 ∧
      denotes nestedTree [] [] [backslash, 0x66] = some [[0x66]] ∧
      denotes nestedTree [] (setpathStep nestedTree none [] [0x62]).2 [backslash, 0x66] = none := by
  decide +kernel

end Tosemu.Gemdos
