import Tosemu.Sandbox

namespace Tosemu.Gemdos

open Host

def Reached (t : HostTree) (cs : List Name) (n : ℕ) : Prop :=
  ∀ m < n, t.kind (lexFrom [] (cs.take m)) ≠ some .file

def ShortNames (cs : List Name) : Prop := ∀ c ∈ cs, c.length ≤ NAME_MAX

/-- A position that a path names on its way and that is not there. No name before it is too long. -/
def Missing (t : HostTree) (cs : List Name) (q : Position) : Prop :=
  ∃ n ≤ cs.length, q = lexFrom [] (cs.take n) ∧ Reached t cs n ∧ ShortNames (cs.take n) ∧ t.kind q = none

def Filled (t t' : HostTree) (cs : List Name) : Prop :=
  ∀ q, Missing t cs q ∧ t'.kind q = some .dir ∨ ¬ Missing t cs q ∧ t'.kind q = t.kind q

section Fill

variable {t t' : HostTree} {cs : List Name} {c : Name} {q : Position}

theorem take_concat {n : ℕ} (hn : n ≤ cs.length) : (cs ++ [c]).take n = cs.take n :=
  List.take_append_of_le_length hn

theorem reached_concat {n : ℕ} (hn : n ≤ cs.length + 1) :
    Reached t (cs ++ [c]) n ↔ Reached t cs n := by
  constructor <;> intro h m hm
  · have := h m hm
    rwa [take_concat (by omega)] at this
  · rw [take_concat (by omega)]
    exact h m hm

theorem lexFrom_concat : lexFrom [] (cs ++ [c]) = lexStep (lexFrom [] cs) c := by
  rw [lexFrom, List.foldl_append]
  rfl

theorem missing_concat : Missing t (cs ++ [c]) q ↔ Missing t cs q ∨
    q = lexFrom [] (cs ++ [c]) ∧ Reached t cs (cs.length + 1) ∧ ShortNames (cs ++ [c]) ∧ t.kind q = none := by
  constructor
  · rintro ⟨n, hn, hq, hr, hs, hk⟩
    rw [List.length_append, List.length_singleton] at hn
    by_cases hlast : n = cs.length + 1
    · subst hlast
      rw [List.take_of_length_le (by simp)] at hq hs
      exact Or.inr ⟨hq, (reached_concat le_rfl).mp hr, hs, hk⟩
    · have hle : n ≤ cs.length := by omega
      rw [take_concat hle] at hq hs
      exact Or.inl ⟨n, hle, hq, (reached_concat hn).mp hr, hs, hk⟩
  · rintro (⟨n, hn, hq, hr, hs, hk⟩ | ⟨hq, hr, hs, hk⟩)
    · refine ⟨n, by simp; omega, ?_, (reached_concat (by omega)).mpr hr, ?_, hk⟩
      · rwa [take_concat hn]
      · rwa [take_concat hn]
    · refine ⟨cs.length + 1, by simp, ?_, (reached_concat le_rfl).mpr hr, ?_, hk⟩
      · rwa [List.take_of_length_le (by simp)]
      · rwa [List.take_of_length_le (by simp)]

theorem short_concat : ShortNames (cs ++ [c]) ↔ ShortNames cs ∧ c.length ≤ NAME_MAX := by
  simp [ShortNames, or_imp, forall_and]

theorem Missing.append (h : Missing t cs q) (ds : List Name) : Missing t (cs ++ ds) q := by
  induction ds using List.reverseRecOn with
  | nil => rwa [List.append_nil]
  | append_singleton ds c ih =>
    rw [← List.append_assoc]
    exact missing_concat.mpr (Or.inl ih)

theorem Filled.refl (t : HostTree) : Filled t t [] := by
  intro q
  refine Or.inr ⟨?_, rfl⟩
  rintro ⟨n, -, rfl, -, -, hk⟩
  rw [List.take_nil, lexFrom, List.foldl_nil, t.root] at hk
  simp at hk

theorem Filled.missing_of_dir (h : Filled t t' cs) (hd : (t'.kind q).isSome = true)
    (hk : t.kind q = none) : Missing t cs q := by
  rcases h q with ⟨hm, -⟩ | ⟨-, he⟩
  · exact hm
  · rw [he, hk] at hd
    simp at hd

theorem Filled.kind_of_missing (h : Filled t t' cs) (hm : Missing t cs q) : t'.kind q = some .dir := by
  rcases h q with ⟨-, hd⟩ | ⟨hn, -⟩
  · exact hd
  · exact absurd hm hn

theorem Filled.file_iff (h : Filled t t' cs) : t'.kind q = some .file ↔ t.kind q = some .file := by
  rcases h q with ⟨⟨n, -, -, -, -, hk⟩, hd⟩ | ⟨-, he⟩
  · simp [hk, hd]
  · rw [he]

theorem short_of_kind {p : Position} (h : (t.kind (lexStep p c)).isSome = true) : c.length ≤ NAME_MAX := by
  unfold lexStep at h
  split_ifs at h with hdot hdotdot
  · rw [hdot]
    decide
  · rw [hdotdot]
    decide
  · exact (t.ordinary p c h).short

theorem short_of_dirs (h : ∀ m ≤ cs.length, t.kind (lexFrom [] (cs.take m)) = some .dir) : ShortNames cs := by
  induction cs using List.reverseRecOn with
  | nil => simp [ShortNames]
  | append_singleton cs c ih =>
    have hinit : ∀ m ≤ cs.length, t.kind (lexFrom [] (cs.take m)) = some .dir := by
      intro m hm
      rw [← take_concat (c := c) hm]
      exact h m (by simp; omega)
    have hlast := h (cs ++ [c]).length le_rfl
    rw [List.take_length, lexFrom_concat] at hlast
    exact short_concat.mpr ⟨ih hinit, short_of_kind (by rw [hlast]; rfl)⟩

theorem Filled.dirs_iff (h : Filled t t' cs) :
    (∀ m ≤ cs.length, t'.kind (lexFrom [] (cs.take m)) = some .dir) ↔
      Reached t cs (cs.length + 1) ∧ ShortNames cs := by
  constructor
  · intro hall
    refine ⟨fun m hm hfile => ?_, short_of_dirs hall⟩
    have hd := hall m (by omega)
    rw [h.file_iff.mpr hfile] at hd
    simp at hd
  · rintro ⟨hr, hs⟩ m hm
    cases hk : t.kind (lexFrom [] (cs.take m)) with
    | none =>
      have hshort : ShortNames (cs.take m) := fun c hc => hs c (List.mem_of_mem_take hc)
      exact h.kind_of_missing ⟨m, hm, rfl, fun l hl => hr l (by omega), hshort, hk⟩
    | some k =>
      cases k with
      | file => exact absurd hk (hr m (by omega))
      | dir =>
        rcases h (lexFrom [] (cs.take m)) with ⟨-, hd⟩ | ⟨-, he⟩
        · exact hd
        · exact he.trans hk

theorem Filled.walk_iff (h : Filled t t' cs) {p : Position} :
    t'.walk [] cs = some p ∧ t'.kind p = some .dir ↔
      p = lexFrom [] cs ∧ Reached t cs (cs.length + 1) ∧ ShortNames cs := by
  rw [walk_dir_iff, h.dirs_iff]

theorem Filled.congr {cs' : List Name} (h : Filled t t' cs)
    (hm : ∀ x, Missing t cs' x ↔ Missing t cs x) : Filled t t' cs' := by
  intro x
  rw [hm x]
  exact h x

theorem make_eq_some {k : Kind} {t'' : HostTree} (h : t'.make k (cs ++ [c]) = some (q, t'')) :
    ∃ p, t'.walk [] cs = some p ∧ t'.kind p = some .dir ∧ Ordinary c ∧ q = p ++ [c] ∧
      t'.kind q = none ∧ ∀ x, t''.kind x = if x = q then some k else t'.kind x := by
  unfold HostTree.make at h
  rw [List.dropLast_concat, List.getLast?_concat] at h
  cases hw : t'.walk [] cs with
  | none =>
    rw [hw] at h
    simp at h
  | some p =>
    simp only [hw] at h
    split_ifs at h with hnew
    obtain ⟨rfl, rfl⟩ := Prod.mk.inj (Option.some.inj h)
    exact ⟨p, rfl, hnew.1, hnew.2.2, rfl, hnew.2.1, fun x => Function.update_apply _ _ _ x⟩

theorem make_of_new {k : Kind} {p : Position} (hw : t'.walk [] cs = some p)
    (hd : t'.kind p = some .dir) (hnone : t'.kind (p ++ [c]) = none) (hc : Ordinary c) :
    ∃ t'', t'.make k (cs ++ [c]) = some (p ++ [c], t'') := by
  unfold HostTree.make
  rw [List.dropLast_concat, List.getLast?_concat, hw]
  exact ⟨_, dif_pos ⟨hd, hnone, hc⟩⟩

theorem lexStep_ordinary {p : Position} (hc : Ordinary c) : lexStep p c = p ++ [c] := by
  rw [lexStep, if_neg hc.notDot, if_neg hc.notDotdot]

theorem ordinary_of_missing {p : Position} (hd : t.kind p = some .dir) (hc : c ≠ [] ∧ slash ∉ c)
    (hs : c.length ≤ NAME_MAX) (hk : t.kind (lexStep p c) = none) : Ordinary c := by
  have hdots : ¬ (c = dot ∨ c = dotdot) := by
    intro hdots
    rw [kind_lexStep hd hdots] at hk
    simp at hk
  obtain ⟨hdot, hdotdot⟩ := not_or.mp hdots
  exact ⟨hc.1, hdot, hdotdot, hc.2, hs⟩

theorem Filled.make_some (h : Filled t t' cs) {t'' : HostTree}
    (hm : t'.make .dir (cs ++ [c]) = some (q, t'')) : Filled t t'' (cs ++ [c]) ∧
      ¬ Missing t cs q ∧ ∀ x, Missing t (cs ++ [c]) x ↔ Missing t cs x ∨ x = q := by
  obtain ⟨p, hw, hd, hc, hq, hnone, hkind⟩ := make_eq_some hm
  obtain ⟨rfl, hr, hs⟩ := h.walk_iff.mp ⟨hw, hd⟩
  have hshort : ShortNames (cs ++ [c]) := short_concat.mpr ⟨hs, hc.short⟩
  have hlex : lexFrom [] (cs ++ [c]) = q := by rw [lexFrom_concat, lexStep_ordinary hc, hq]
  have hnot : ¬ Missing t cs q := by
    intro hmiss
    rw [h.kind_of_missing hmiss] at hnone
    simp at hnone
  have hk : t.kind q = none := by
    rcases h q with ⟨hmiss, -⟩ | ⟨-, he⟩
    · exact absurd hmiss hnot
    · rw [← he, hnone]
  have hiff : ∀ x, Missing t (cs ++ [c]) x ↔ Missing t cs x ∨ x = q := by
    intro x
    rw [missing_concat, hlex]
    constructor
    · exact Or.imp_right And.left
    · rintro (hx | rfl)
      · exact Or.inl hx
      · exact Or.inr ⟨rfl, hr, hshort, hk⟩
  refine ⟨fun x => ?_, hnot, hiff⟩
  rw [hiff x, hkind x]
  by_cases hx : x = q
  · exact Or.inl ⟨Or.inr hx, if_pos hx⟩
  · rw [if_neg hx]
    simpa [hx] using h x

theorem Filled.make_none (h : Filled t t' cs) (hc : c ≠ [] ∧ slash ∉ c)
    (hm : t'.make .dir (cs ++ [c]) = none) (x : Position) :
    Missing t (cs ++ [c]) x ↔ Missing t cs x := by
  rw [missing_concat]
  refine ⟨?_, Or.inl⟩
  rintro (hx | ⟨rfl, hr, hs, hk⟩)
  · exact hx
  · rw [short_concat] at hs
    obtain ⟨hw, hd⟩ := h.walk_iff.mpr ⟨rfl, hr, hs.1⟩
    apply h.missing_of_dir ?_ hk
    rw [lexFrom_concat]
    by_contra hnone
    have hnone : t'.kind (lexStep (lexFrom [] cs) c) = none := by simpa using hnone
    have hord := ordinary_of_missing hd hc hs.2 hnone
    rw [lexStep_ordinary hord] at hnone
    obtain ⟨t'', ht⟩ := make_of_new (k := .dir) hw hd hnone hord
    rw [hm] at ht
    simp at ht

theorem Filled.make_again (h : Filled t t' cs) : t'.make .dir cs = none := by
  rcases List.eq_nil_or_concat cs with rfl | ⟨init, c, rfl⟩
  · rfl
  · rw [List.concat_eq_append] at h ⊢
    by_contra hne
    obtain ⟨⟨q, t''⟩, hm⟩ := Option.ne_none_iff_exists'.mp hne
    obtain ⟨p, hw, hd, hc, rfl, hnone, -⟩ := make_eq_some hm
    obtain ⟨rfl, hall⟩ := walk_dir_iff.mp ⟨hw, hd⟩
    have hr : Reached t (init ++ [c]) (init.length + 1) := by
      intro m hm hfile
      rw [take_concat (by omega)] at hfile
      have hdir := hall m (by omega)
      rw [h.file_iff.mpr hfile] at hdir
      simp at hdir
    have hlex : lexFrom [] (init ++ [c]) = lexFrom [] init ++ [c] := by
      rw [lexFrom_concat, lexStep_ordinary hc]
    cases hk : t.kind (lexFrom [] init ++ [c]) with
    | none =>
      have hmiss : Missing t (init ++ [c]) (lexFrom [] init ++ [c]) := by
        refine ⟨init.length + 1, by simp, ?_, hr, ?_, hk⟩
        · rw [List.take_of_length_le (by simp), hlex]
        · rw [List.take_of_length_le (by simp)]
          exact short_concat.mpr ⟨short_of_dirs hall, hc.short⟩
      rw [h.kind_of_missing hmiss] at hnone
      simp at hnone
    | some k =>
      rcases h (lexFrom [] init ++ [c]) with ⟨⟨-, -, -, -, -, hk'⟩, -⟩ | ⟨-, he⟩
      · rw [hk] at hk'
        simp at hk'
      · rw [he, hk] at hnone
        simp at hnone

theorem names_append (segs segs' : List Name) : names (segs ++ segs') = names segs ++ names segs' :=
  List.filter_append _ _

theorem names_concat (segs : List Name) (seg : Name) :
    names (segs ++ [seg]) = if seg = [] then names segs else names segs ++ [seg] := by
  by_cases h : seg = [] <;> simp [names, h]

theorem makeDirs_filled (t' : HostTree) (done segs : List Name) (hs : ∀ n ∈ segs, slash ∉ n)
    (h : Filled t t' (names done)) :
    Filled t (makeDirs t' done segs).1 (names (done ++ segs.dropLast)) ∧
      ∀ x, x ∈ (makeDirs t' done segs).2 ↔
        Missing t (names (done ++ segs.dropLast)) x ∧ ¬ Missing t (names done) x := by
  fun_induction makeDirs t' done segs with
  | case1 t' done => simpa using h
  | case2 t' done seg => simpa using h
  | case3 t' done seg seg' segs hm ih =>
    have hmiss : ∀ x, Missing t (names (done ++ [seg])) x ↔ Missing t (names done) x := by
      intro x
      rw [names_concat] at hm ⊢
      split_ifs at hm ⊢ with hseg
      · rfl
      · exact h.make_none ⟨hseg, hs seg List.mem_cons_self⟩ hm x
    have hnext := ih (fun n hn => hs n (List.mem_cons_of_mem _ hn)) (h.congr hmiss)
    simpa [hmiss, List.dropLast] using hnext
  | case4 t' done seg seg' segs q t'' hm r ih =>
    rw [names_concat] at hm
    split_ifs at hm with hseg
    · rw [h.make_again] at hm
      simp at hm
    · obtain ⟨hfill, hnot, hiff⟩ := h.make_some hm
      have hnames : names (done ++ [seg]) = names done ++ [seg] := by rw [names_concat, if_neg hseg]
      obtain ⟨hrest, hmem⟩ := ih (fun n hn => hs n (List.mem_cons_of_mem _ hn)) (hnames ▸ hfill)
      have hall : done ++ (seg :: seg' :: segs).dropLast = done ++ [seg] ++ (seg' :: segs).dropLast := by
        simp [List.dropLast]
      have hq : Missing t (names (done ++ [seg] ++ (seg' :: segs).dropLast)) q := by
        rw [names_append, hnames]
        exact Missing.append ((hiff q).mpr (Or.inr rfl)) _
      rw [hall]
      refine ⟨hrest, fun x => ?_⟩
      rw [List.mem_cons, hmem, hnames, hiff]
      constructor
      · rintro (rfl | ⟨hx, hn⟩)
        · exact ⟨hq, hnot⟩
        · exact ⟨hx, fun hd => hn (Or.inl hd)⟩
      · rintro ⟨hx, hn⟩
        by_cases hxq : x = q
        · exact Or.inl hxq
        · exact Or.inr ⟨hx, fun hd => hd.elim hn hxq⟩

end Fill

def Overwritten (t : HostTree) (s : List Byte) (q : Position) : Prop :=
  (segments s).getLast? ≠ some [] ∧ q = lexFrom [] (names (segments s)) ∧
    Reached t (names (segments s)) (names (segments s)).length ∧ ShortNames (names (segments s)) ∧
    t.kind q = some .file

/-- The path ends in a name, no file and no name that is too long is on its way, and at its end there is
no directory, and none that is made on the way. -/
structure Creatable (t : HostTree) (s : List Byte) : Prop where
  named : (segments s).getLast? ≠ some []
  reached : Reached t (names (segments s)) (names (segments s)).length
  short : ShortNames (names (segments s))
  notDir : t.kind (lexFrom [] (names (segments s))) ≠ some .dir
  notMade : ¬ Missing t (names (segments s).dropLast) (lexFrom [] (names (segments s)))

/-- The directories before the last slash, and what stands behind it if the host takes the path. -/
def Creates (t : HostTree) (s : List Byte) (q : Position) : Prop :=
  Missing t (names (segments s).dropLast) q ∨
    s.length < PATH_MAX ∧ (Missing t (names (segments s)) q ∨ Overwritten t s q)

section Create

variable {t t' : HostTree} {s : List Byte} {q : Position}

theorem segments_split (s : List Byte) :
    ∃ seg, segments s = (segments s).dropLast ++ [seg] ∧ (segments s).getLast? = some seg := by
  have hne : segments s ≠ [] := List.splitOn_ne_nil _ _
  exact ⟨(segments s).getLast hne, (List.dropLast_append_getLast hne).symm,
    List.getLast?_eq_getLast_of_ne_nil hne⟩

theorem make_notOrdinary {k : Kind} {cs : List Name} {c : Name} (hc : ¬ Ordinary c) :
    t'.make k (cs ++ [c]) = none := by
  by_contra hne
  obtain ⟨⟨q, t''⟩, hm⟩ := Option.ne_none_iff_exists'.mp hne
  obtain ⟨-, -, -, hord, -⟩ := make_eq_some hm
  exact hc hord

theorem create_slash (h : (segments s).getLast? = some []) : t'.create s = none := by
  have hcomp : components s = names (segments s) ++ [dot] := by rw [components, if_pos h]
  unfold HostTree.create
  cases hr : t'.resolve s with
  | some p =>
    rw [HostTree.resolve, hcomp, walk_concat, Option.bind_eq_some_iff] at hr
    obtain ⟨r, -, hr⟩ := hr
    obtain ⟨hd, hp, -⟩ := enter_eq_some.mp hr
    have hpr : p = r := hp
    simp [hpr, hd]
  | none =>
    rw [hcomp]
    exact make_notOrdinary (fun hord => hord.notDot rfl)

theorem create_of_walk {cs : List Name} {c : Name} (hcomp : components s = cs ++ [c])
    (hfill : Filled t t' cs) {t'' : HostTree} (h : t'.create s = some (q, t'')) :
    q = lexFrom [] (cs ++ [c]) ∧ Reached t cs (cs.length + 1) ∧ ShortNames (cs ++ [c]) ∧ ¬ Missing t cs q ∧
      t.kind q ≠ some .dir := by
  unfold HostTree.create at h
  cases hr : t'.resolve s with
  | some p =>
    rw [hr] at h
    dsimp only at h
    split_ifs at h with hfile
    obtain ⟨rfl, -⟩ := Prod.mk.inj (Option.some.inj h)
    rw [HostTree.resolve, hcomp, walk_concat, Option.bind_eq_some_iff] at hr
    obtain ⟨r, hw, hr⟩ := hr
    obtain ⟨hd, hp, hsome⟩ := enter_eq_some.mp hr
    obtain ⟨rfl, hreach, hshort⟩ := hfill.walk_iff.mp ⟨hw, hd⟩
    have hold := hfill.file_iff.mp hfile
    have hc : c.length ≤ NAME_MAX := short_of_kind (hp ▸ hsome)
    refine ⟨by rw [hp, lexFrom_concat], hreach, short_concat.mpr ⟨hshort, hc⟩, ?_, by simp [hold]⟩
    rintro ⟨-, -, -, -, -, hk⟩
    simp [hold] at hk
  | none =>
    rw [hr, hcomp] at h
    obtain ⟨p, hw, hd, hord, rfl, hnone, -⟩ := make_eq_some h
    obtain ⟨rfl, hreach, hshort⟩ := hfill.walk_iff.mp ⟨hw, hd⟩
    refine ⟨by rw [lexFrom_concat, lexStep_ordinary hord], hreach,
      short_concat.mpr ⟨hshort, hord.short⟩, ?_, ?_⟩
    · intro hmiss
      simp [hfill.kind_of_missing hmiss] at hnone
    · intro hdir
      rcases hfill (lexFrom [] cs ++ [c]) with ⟨⟨-, -, -, -, -, hk⟩, -⟩ | ⟨-, he⟩
      · simp [hk] at hdir
      · simp [he, hdir] at hnone

theorem create_file {p : Position} {c : Name} (hresolve : t'.resolve s = t'.enter p c)
    (hd : t'.kind p = some .dir) (hk : t'.kind (lexStep p c) = some .file) :
    t'.create s = some (lexStep p c, t') := by
  have henter : t'.enter p c = some (lexStep p c) := enter_eq_some.mpr ⟨hd, rfl, by rw [hk]; rfl⟩
  unfold HostTree.create
  rw [hresolve, henter]
  exact if_pos hk

theorem create_new {cs : List Name} {c : Name} (hcomp : components s = cs ++ [c])
    (hc : c ≠ [] ∧ slash ∉ c) (hs : c.length ≤ NAME_MAX) {p : Position} (hw : t'.walk [] cs = some p)
    (hd : t'.kind p = some .dir) (hk : t'.kind (lexStep p c) = none) :
    ∃ t'', t'.create s = some (lexStep p c, t'') := by
  have hord := ordinary_of_missing hd hc hs hk
  have hresolve : t'.resolve s = none := by
    rw [HostTree.resolve, hcomp, walk_concat, hw, Option.bind_some]
    by_contra hne
    obtain ⟨r, hr⟩ := Option.ne_none_iff_exists'.mp hne
    obtain ⟨-, rfl, hsome⟩ := enter_eq_some.mp hr
    rw [hk] at hsome
    simp at hsome
  unfold HostTree.create
  rw [hresolve, hcomp, lexStep_ordinary hord]
  rw [lexStep_ordinary hord] at hk
  exact make_of_new hw hd hk hord

theorem create_last {cs : List Name} {c : Name} (hcomp : components s = cs ++ [c])
    (hc : c ≠ [] ∧ slash ∉ c) (hfill : Filled t t' cs) :
    (∃ t'', t'.create s = some (q, t'')) ↔
      q = lexFrom [] (cs ++ [c]) ∧ Reached t cs (cs.length + 1) ∧ ShortNames (cs ++ [c]) ∧ ¬ Missing t cs q ∧
        t.kind q ≠ some .dir := by
  constructor
  · rintro ⟨t'', h⟩
    exact create_of_walk hcomp hfill h
  · rintro ⟨rfl, hreach, hshort, hmiss, hdir⟩
    rw [short_concat] at hshort
    obtain ⟨hw, hd⟩ := hfill.walk_iff.mpr ⟨rfl, hreach, hshort.1⟩
    rw [lexFrom_concat] at hmiss hdir ⊢
    have hsame : t'.kind (lexStep (lexFrom [] cs) c) = t.kind (lexStep (lexFrom [] cs) c) := by
      rcases hfill (lexStep (lexFrom [] cs) c) with ⟨hm, -⟩ | ⟨-, he⟩
      · exact absurd hm hmiss
      · exact he
    cases hk : t.kind (lexStep (lexFrom [] cs) c) with
    | none => exact create_new hcomp hc hshort.2 hw hd (hsame.trans hk)
    | some k =>
      cases k with
      | dir => exact absurd hk hdir
      | file =>
        refine ⟨t', create_file ?_ hd (hsame.trans hk)⟩
        rw [HostTree.resolve, hcomp, walk_concat, hw, Option.bind_some]

theorem not_missing_root : ¬ Missing t [] q := by
  rintro ⟨n, -, rfl, -, -, hk⟩
  rw [List.take_nil, lexFrom, List.foldl_nil, t.root] at hk
  simp at hk

theorem mem_makeDirs_iff (t : HostTree) (s : List Byte) (q : Position) :
    q ∈ (makeDirs t [] (segments s)).2 ↔ Missing t (names (segments s).dropLast) q := by
  obtain ⟨-, hmade⟩ := makeDirs_filled t [] (segments s) (segments_noSlash s) (Filled.refl t)
  rw [hmade q, List.nil_append]
  exact and_iff_left not_missing_root

theorem makeDirs_create_iff (t : HostTree) (s : List Byte) (q : Position) :
    (∃ t'', (makeDirs t [] (segments s)).1.create s = some (q, t'')) ↔
      Creatable t s ∧ q = lexFrom [] (names (segments s)) := by
  obtain ⟨hfill, -⟩ := makeDirs_filled t [] (segments s) (segments_noSlash s) (Filled.refl t)
  rw [List.nil_append] at hfill
  obtain ⟨seg, hsplit, hlast⟩ := segments_split s
  by_cases hseg : seg = []
  · subst hseg
    refine iff_of_false ?_ (fun h => h.1.named hlast)
    rintro ⟨t'', h⟩
    rw [create_slash hlast] at h
    cases h
  · have hnames : names (segments s) = names (segments s).dropLast ++ [seg] := by
      conv_lhs => rw [hsplit]
      rw [names_concat, if_neg hseg]
    have hcomp : components s = names (segments s).dropLast ++ [seg] := by
      rw [components, hlast, hnames]
      simp [hseg]
    have hmem : seg ∈ segments s := List.mem_of_getLast? hlast
    rw [create_last hcomp ⟨hseg, segments_noSlash s seg hmem⟩ hfill]
    constructor
    · rintro ⟨rfl, hreach, hshort, hmiss, hdir⟩
      rw [← hnames] at hshort hmiss hdir ⊢
      refine ⟨⟨by simpa [hlast] using hseg, ?_, hshort, hdir, hmiss⟩, rfl⟩
      rw [hnames, List.length_append, List.length_singleton]
      exact (reached_concat le_rfl).mpr hreach
    · rintro ⟨⟨-, hreach, hshort, hdir, hmiss⟩, rfl⟩
      rw [hnames, List.length_append, List.length_singleton] at hreach
      exact ⟨by rw [hnames], (reached_concat le_rfl).mp hreach, hnames ▸ hshort, hmiss, hdir⟩

theorem create_touched (t : HostTree) (s : List Byte) (q : Position) :
    (q ∈ (makeDirs t [] (segments s)).2 ∨
      ∃ t'', withPath s ((makeDirs t [] (segments s)).1.create s) = some (q, t'')) ↔ Creates t s q := by
  have hmade : (∃ t'', withPath s ((makeDirs t [] (segments s)).1.create s) = some (q, t'')) ↔
      s.length < PATH_MAX ∧ Creatable t s ∧ q = lexFrom [] (names (segments s)) := by
    rw [← makeDirs_create_iff]
    simp [withPath_eq_some]
  rw [hmade, mem_makeDirs_iff, Creates]
  obtain ⟨seg, hsplit, hlast⟩ := segments_split s
  by_cases hseg : seg = []
  · subst hseg
    have hnames : names (segments s) = names (segments s).dropLast := by
      conv_lhs => rw [hsplit]
      rw [names_concat, if_pos rfl]
    have hno : ¬ Creatable t s := fun h => h.named hlast
    have hover : ¬ Overwritten t s q := fun h => h.1 hlast
    simp [hno, hover, ← hnames]
  · have hnames : names (segments s) = names (segments s).dropLast ++ [seg] := by
      conv_lhs => rw [hsplit]
      rw [names_concat, if_neg hseg]
    have hne : (segments s).getLast? ≠ some [] := by simpa [hlast] using hseg
    have hmissing := @missing_concat t (names (segments s).dropLast) seg q
    rw [← hnames] at hmissing
    have hreach := @reached_concat t (names (segments s).dropLast) seg _ le_rfl
    rw [← hnames] at hreach
    have hlen : (names (segments s)).length = (names (segments s).dropLast).length + 1 := by
      rw [hnames, List.length_append, List.length_singleton]
    rw [← hlen] at hreach hmissing
    rw [hmissing, Overwritten, ← hreach]
    have hkind : t.kind q ≠ some .dir ↔ t.kind q = none ∨ t.kind q = some .file := by
      cases t.kind q with
      | none => simp
      | some k => cases k <;> simp
    constructor
    · rintro (hm | ⟨hs, ⟨-, hr, hshort, hdir, hmiss⟩, rfl⟩)
      · exact Or.inl hm
      · rcases hkind.mp hdir with hk | hk
        · exact Or.inr ⟨hs, Or.inl (Or.inr ⟨rfl, hr, hshort, hk⟩)⟩
        · exact Or.inr ⟨hs, Or.inr ⟨hne, rfl, hr, hshort, hk⟩⟩
    · rintro (hm | ⟨hs, (hm | ⟨rfl, hr, hshort, hk⟩) | ⟨-, rfl, hr, hshort, hk⟩⟩)
      · exact Or.inl hm
      · exact Or.inl hm
      · by_cases hm : Missing t (names (segments s).dropLast) (lexFrom [] (names (segments s)))
        · exact Or.inl hm
        · exact Or.inr ⟨hs, ⟨hne, hr, hshort, hkind.mpr (Or.inl hk), hm⟩, rfl⟩
      · have hm : ¬ Missing t (names (segments s).dropLast) (lexFrom [] (names (segments s))) := by
          rintro ⟨-, -, -, -, -, hnone⟩
          rw [hk] at hnone
          cases hnone
        exact Or.inr ⟨hs, ⟨hne, hr, hshort, hkind.mpr (Or.inr hk), hm⟩, rfl⟩

end Create

end Tosemu.Gemdos
