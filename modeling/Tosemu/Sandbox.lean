import Tosemu.GemdosPaths
import Tosemu.HostPaths

namespace Tosemu.Gemdos

open Host

/-- `p` lies in or below a sibling of `d` whose name continues the name of `d`. -/
def Sibling (d p : Position) : Prop :=
  ∃ up c n rest, d = up ++ [c] ∧ p = up ++ n :: rest ∧ c <+: n ∧ c ≠ n

theorem not_sibling_nil (d : Position) : ¬ Sibling d [] := by
  rintro ⟨up, c, n, rest, -, hp, -⟩
  simp at hp

theorem sibling_single (c n : Name) (rest : Position) :
    Sibling [c] (n :: rest) ↔ c <+: n ∧ c ≠ n := by
  constructor
  · rintro ⟨up, c', n', rest', hd, hp, hpre, hne⟩
    obtain rfl : up = [] := by
      have hlen := congrArg List.length hd
      simpa using hlen
    obtain rfl : c = c' := by simpa using hd
    obtain ⟨rfl, -⟩ : n = n' ∧ rest = rest' := by simpa using hp
    exact ⟨hpre, hne⟩
  · exact fun h => ⟨[], c, n, rest, rfl, rfl, h⟩

theorem sibling_cons (c c' n : Name) (d p : Position) :
    Sibling (c :: c' :: d) (n :: p) ↔ c = n ∧ Sibling (c' :: d) p := by
  constructor
  · rintro ⟨up, b, m, rest, hd, hp, h⟩
    cases up with
    | nil => simp at hd
    | cons a up =>
      obtain ⟨hca, hd'⟩ : c = a ∧ c' :: d = up ++ [b] := by simpa using hd
      obtain ⟨hna, hp'⟩ : n = a ∧ p = up ++ m :: rest := by simpa using hp
      exact ⟨hca.trans hna.symm, up, b, m, rest, hd', hp', h⟩
  · rintro ⟨rfl, up, b, m, rest, hd, hp, h⟩
    exact ⟨c :: up, b, m, rest, by rw [hd]; rfl, by rw [hp]; rfl, h⟩

theorem not_sibling_of_below {d p : Position} (h : d <+: p) : ¬ Sibling d p := by
  rintro ⟨up, c, n, rest, rfl, rfl, -, hne⟩
  rw [List.prefix_append_right_inj, List.cons_prefix_cons] at h
  exact hne h.1

def slashed (p : Position) : List Byte := p.flatMap (fun n => slash :: n)

theorem slashed_cons (n : Name) (p : Position) : slashed (n :: p) = slash :: (n ++ slashed p) := rfl

theorem name_prefix_iff {c n : Name} (hc : slash ∉ c) (p : Position) :
    c <+: n ++ slashed p ↔ c <+: n := by
  constructor
  · intro h
    rcases List.prefix_or_prefix_of_prefix h (List.prefix_append n _) with h' | ⟨r, rfl⟩
    · exact h'
    · rw [List.prefix_append_right_inj] at h
      cases p with
      | nil => rw [List.prefix_nil.mp h, List.append_nil]
      | cons m p =>
        cases r with
        | nil => rw [List.append_nil]
        | cons b r =>
          rw [slashed_cons, List.cons_prefix_cons] at h
          rw [h.1] at hc
          simp at hc
  · exact fun h => h.trans (List.prefix_append n _)

theorem slashed_cons_prefix_iff {c n : Name} (hc : slash ∉ c) (hn : slash ∉ n) {c' : Name} (d p : Position) :
    c ++ slashed (c' :: d) <+: n ++ slashed p ↔ c = n ∧ slashed (c' :: d) <+: slashed p := by
  constructor
  · intro h
    have hcn : c <+: n := (name_prefix_iff hc p).mp ((List.prefix_append c _).trans h)
    obtain ⟨r, rfl⟩ := hcn
    rw [List.append_assoc, List.prefix_append_right_inj] at h
    cases r with
    | nil => exact ⟨(List.append_nil c).symm, h⟩
    | cons b r =>
      rw [slashed_cons, List.cons_append, List.cons_prefix_cons] at h
      rw [← h.1] at hn
      simp at hn
  · rintro ⟨rfl, h⟩
    rwa [List.prefix_append_right_inj]

theorem slashed_prefix_iff {d p : Position} (hd : d ≠ []) (hds : ∀ n ∈ d, slash ∉ n)
    (hps : ∀ n ∈ p, slash ∉ n) : slashed d <+: slashed p ↔ d <+: p ∨ Sibling d p := by
  induction d generalizing p with
  | nil => exact absurd rfl hd
  | cons c d ih =>
    have hc := hds c List.mem_cons_self
    cases p with
    | nil =>
      have hnil : ¬ slashed (c :: d) <+: slashed [] := by
        rw [slashed_cons]
        exact fun h => by simpa [slashed] using List.prefix_nil.mp h
      simp [hnil, not_sibling_nil]
    | cons n p =>
      rw [slashed_cons, slashed_cons, List.cons_prefix_cons, List.cons_prefix_cons]
      cases d with
      | nil =>
        rw [slashed, List.flatMap_nil, List.append_nil, name_prefix_iff hc, sibling_single]
        by_cases hcn : c = n
        · simp [hcn]
        · simp [hcn]
      | cons c' d =>
        rw [slashed_cons_prefix_iff hc (hps n List.mem_cons_self), sibling_cons, ih (by simp)
          (fun m hm => hds m (List.mem_cons_of_mem _ hm))
          (fun m hm => hps m (List.mem_cons_of_mem _ hm))]
        tauto

section Length

variable {t : HostTree} {p q : Position} {cs : List Name}

theorem slashed_append (p q : Position) : slashed (p ++ q) = slashed p ++ slashed q := List.flatMap_append

theorem slashed_length_append (p q : Position) :
    (slashed (p ++ q)).length = (slashed p).length + (slashed q).length := by
  rw [slashed_append, List.length_append]

theorem slashed_length_sublist (h : List.Sublist p q) : (slashed p).length ≤ (slashed q).length := by
  induction h with
  | slnil => exact le_rfl
  | cons n _ ih =>
    rw [slashed_cons, List.length_cons, List.length_append]
    omega
  | cons_cons n _ ih =>
    rw [slashed_cons, slashed_cons, List.length_cons, List.length_append, List.length_cons, List.length_append]
    omega

theorem slashed_segments (s : List Byte) : (slashed (segments s)).length = s.length + 1 := by
  unfold segments
  induction s with
  | nil => rfl
  | cons b s ih =>
    rw [List.splitOn_cons_eq_if_modifyHead]
    split_ifs with hb
    · rw [slashed_cons, List.nil_append, List.length_cons, List.length_cons, ih]
    · obtain ⟨n, ns, hn⟩ := List.exists_cons_of_ne_nil (List.splitOn_ne_nil slash s)
      rw [hn] at ih ⊢
      rw [List.modifyHead_cons, slashed_cons, List.length_cons, List.length_append, List.length_cons,
        List.length_cons]
      rw [slashed_cons, List.length_cons, List.length_append] at ih
      omega

theorem slashed_names (s : List Byte) : (slashed (names (segments (slash :: s)))).length ≤ s.length + 1 := by
  have hsegments : segments (slash :: s) = [] :: segments s := by
    rw [segments, List.splitOn_cons_eq_if_modifyHead, if_pos (by simp)]
    rfl
  rw [hsegments, names, List.filter_cons_of_neg (by simp), ← slashed_segments s]
  exact slashed_length_sublist List.filter_sublist

theorem slashed_lexStep (p : Position) (c : Name) :
    (slashed (lexStep p c)).length ≤ (slashed p).length + (slashed [c]).length := by
  unfold lexStep
  split_ifs
  · omega
  · have hsub := slashed_length_sublist (List.dropLast_sublist p)
    omega
  · rw [slashed_length_append]

theorem realpathFrom_length (h : t.realpathFrom p cs = some q) :
    (slashed q).length ≤ (slashed p).length + (slashed cs).length := by
  induction cs generalizing p with
  | nil =>
    obtain rfl := Option.some.inj h
    omega
  | cons c cs ih =>
    have hcons : (slashed (c :: cs)).length = (slashed [c]).length + (slashed cs).length :=
      slashed_length_append [c] cs
    rw [HostTree.realpathFrom] at h
    split at h
    · rename_i r hr
      obtain ⟨-, rfl, -⟩ := enter_eq_some.mp hr
      have hstep := slashed_lexStep p c
      have hrest := ih h
      omega
    · split_ifs at h
      obtain rfl := Option.some.inj h
      rw [slashed_length_append]
      omega

theorem realpathFrom_dot (h : t.realpathFrom p (cs ++ [dot]) = some q) : t.realpathFrom p cs = some q := by
  induction cs generalizing p with
  | nil =>
    rw [List.nil_append, HostTree.realpathFrom] at h
    by_cases hd : t.kind p = some .dir
    · have henter : t.enter p dot = some p := enter_eq_some.mpr ⟨hd, rfl, by rw [hd]; rfl⟩
      rwa [henter] at h
    · have henter : t.enter p dot = none := if_pos hd
      simp [henter, hd] at h
  | cons c cs ih =>
    rw [List.cons_append, HostTree.realpathFrom] at h
    rw [HostTree.realpathFrom]
    cases hc : t.enter p c with
    | some r =>
      rw [hc] at h
      exact ih h
    | none =>
      rw [hc] at h
      exact h

theorem realpathFrom_short {s : List Byte} (h : t.realpathFrom [] (components (slash :: s)) = some q) :
    (pathText q).length ≤ s.length + 1 := by
  have hnames : t.realpathFrom [] (names (segments (slash :: s))) = some q := by
    unfold components at h
    split_ifs at h
    · exact realpathFrom_dot h
    · rwa [List.append_nil] at h
  have hlen := (realpathFrom_length hnames).trans (Nat.add_le_add_left (slashed_names s) _)
  have hnil : (slashed []).length = 0 := rfl
  rw [hnil, Nat.zero_add] at hlen
  unfold pathText
  split_ifs
  · exact Nat.le_add_left 1 s.length
  · exact hlen

theorem realpath_of_short {s : List Byte} (habs : s.head? = some slash) (hs : s.length < PATH_MAX)
    (h : t.realpathFrom [] (components s) = some q) : t.realpath s = some q := by
  obtain ⟨s, rfl⟩ : ∃ s', s = slash :: s' := by
    cases s with
    | nil => cases habs
    | cons b s => exact ⟨s, by rw [Option.some.inj habs]⟩
  refine realpath_eq_some.mpr ⟨h, lt_of_le_of_lt (realpathFrom_short h) ?_⟩
  rwa [List.length_cons] at hs

theorem realpath_of_resolve {s : List Byte} (habs : s.head? = some slash) (hs : s.length < PATH_MAX)
    (h : t.resolve s = some q) : t.realpath s = some q :=
  realpath_of_short habs hs (realpathFrom_of_walk h)

end Length

section Check

variable {t : HostTree} {d : Position}

theorem pathText_prefix_iff {p : Position} (hds : ∀ n ∈ d, Ordinary n) (hps : ∀ n ∈ p, slash ∉ n) :
    pathText d <+: pathText p ↔ d <+: p ∨ Sibling d p := by
  by_cases hd : d = []
  · subst hd
    simp only [List.nil_prefix, true_or, iff_true]
    cases p with
    | nil => exact List.prefix_rfl
    | cons n p => exact ⟨n ++ slashed p, rfl⟩
  · have hslash : ∀ n ∈ d, slash ∉ n := fun n hn => (hds n hn).noSlash
    cases p with
    | nil =>
      obtain ⟨c, rest, rfl⟩ := List.exists_cons_of_ne_nil hd
      have hc := (hds c List.mem_cons_self).nonempty
      simp [pathText, hc, not_sibling_nil]
    | cons n p =>
      have htext : pathText d = slashed d := if_neg hd
      rw [htext]
      exact slashed_prefix_iff hd hslash hps

def hostPath (d : Position) (tp : List Byte) : List Byte :=
  basePath d ++ convert true (tp.take (PATH_MAX - (basePath d).length))

theorem pathFromTos_eq (hlen : (pathText d).length < PATH_MAX) (tp : List Byte) :
    pathFromTos t (basePath d) tp =
      if pathText d <+: t.realpathText (hostPath d tp) then
        ((hostPath d tp).length, hostPath d tp) else (0, hostPath d tp) := by
  have htake : (basePath d).take PATH_MAX = basePath d := by
    apply List.take_of_length_le
    simp only [basePath, List.length_append, List.length_singleton]
    omega
  have hbase : basePath d ≠ [] := by simp [basePath]
  have hcount : (basePath d).length - 1 = (pathText d).length := by simp [basePath]
  have hup : (hostPath d tp).take (pathText d).length = pathText d := by
    simp [hostPath, basePath, List.append_assoc]
  have hcheck : (strncmpEq (hostPath d tp) (t.realpathText (hostPath d tp))
      ((basePath d).length - 1) = true) ↔
        pathText d <+: t.realpathText (hostPath d tp) := by
    rw [strncmpEq, decide_eq_true_iff, hcount, hup, List.prefix_iff_eq_take]
  have hfold : basePath d ++ convert true (tp.take (PATH_MAX - (basePath d).length)) =
      hostPath d tp := rfl
  simp only [pathFromTos, pathFromTosWith, htake, hfold]
  by_cases hpre : pathText d <+: t.realpathText (hostPath d tp)
  · simp [hpre, hcheck.mpr hpre]
  · have hno := hcheck.not.mpr hpre
    simp [hpre, hbase, hno]

theorem pathText_ne_nil (p : Position) : pathText p ≠ [] := by
  cases p with
  | nil => exact List.cons_ne_nil _ _
  | cons n p => exact List.cons_ne_nil _ _

theorem realpathText_prefix_iff (hd : ∀ n ∈ d, Ordinary n) (s : List Byte) :
    pathText d <+: t.realpathText s ↔ ∃ p, t.realpath s = some p ∧ (d <+: p ∨ Sibling d p) := by
  unfold HostTree.realpathText
  cases hp : t.realpath s with
  | none => simp [pathText_ne_nil d]
  | some p => simp [pathText_prefix_iff hd (realpath_noSlash hp)]

theorem accepts_iff (hd : t.kind d = some .dir) (hlen : (pathText d).length < PATH_MAX)
    (tp : List Byte) : (pathFromTos t (basePath d) tp).1 ≠ 0 ↔
      ∃ p, t.realpath (hostPath d tp) = some p ∧ (d <+: p ∨ Sibling d p) := by
  have hords : ∀ n ∈ d, Ordinary n := exists_ordinary (by rw [hd]; rfl)
  have hpos : (hostPath d tp).length ≠ 0 := by simp [hostPath, basePath]
  rw [pathFromTos_eq hlen, ← realpathText_prefix_iff hords]
  split_ifs with h
  · simp [h, hpos]
  · simp [h]

end Check

end Tosemu.Gemdos
