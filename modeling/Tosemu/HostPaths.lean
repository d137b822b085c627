import Mathlib.Data.List.Induction
import Tosemu.HostTree

namespace Tosemu.Host

theorem segments_noSlash (s : List Byte) : ∀ n ∈ segments s, slash ∉ n := by
  unfold segments
  induction s with
  | nil => simp
  | cons b s ih =>
    intro n hn
    rw [List.splitOn_cons_eq_if_modifyHead] at hn
    by_cases hb : b = slash
    · rw [if_pos (by simpa using hb)] at hn
      rcases List.mem_cons.mp hn with rfl | hn
      · simp
      · exact ih n hn
    · rw [if_neg (by simpa using hb)] at hn
      cases hs : s.splitOn slash with
      | nil => simp [hs] at hn
      | cons m ms =>
        rw [hs, List.modifyHead_cons] at hn
        rw [hs] at ih
        rcases List.mem_cons.mp hn with rfl | hn
        · simp [Ne.symm hb, ih m List.mem_cons_self]
        · exact ih n (List.mem_cons_of_mem _ hn)

theorem names_noSlash (s : List Byte) : ∀ n ∈ names (segments s), n ≠ [] ∧ slash ∉ n := by
  intro n hn
  obtain ⟨hmem, hne⟩ := List.mem_filter.mp hn
  exact ⟨by simpa using hne, segments_noSlash s n hmem⟩

theorem components_noSlash (s : List Byte) : ∀ n ∈ components s, slash ∉ n := by
  intro n hn
  rcases List.mem_append.mp hn with hn | hn
  · exact (names_noSlash s n hn).2
  · split_ifs at hn
    · rw [List.mem_singleton.mp hn]
      decide
    · simp at hn

section Tree

variable {t : HostTree}

theorem exists_ordinary {p : Position} (h : (t.kind p).isSome = true) : ∀ n ∈ p, Ordinary n := by
  induction p using List.reverseRecOn with
  | nil => simp
  | append_singleton p c ih =>
    intro n hn
    rcases List.mem_append.mp hn with hn | hn
    · exact ih (by rw [t.parent p c h]; rfl) n hn
    · rw [List.mem_singleton.mp hn]
      exact t.ordinary p c h

def lexStep (p : Position) (c : Name) : Position :=
  if c = dot then p else if c = dotdot then p.dropLast else p ++ [c]

def lexFrom (p : Position) (cs : List Name) : Position := cs.foldl lexStep p

theorem kind_dropLast {p : Position} (hp : t.kind p = some .dir) : t.kind p.dropLast = some .dir := by
  induction p using List.reverseRecOn with
  | nil => exact hp
  | append_singleton p c _ =>
    rw [List.dropLast_concat]
    exact t.parent p c (by rw [hp]; rfl)

theorem kind_lexStep {p : Position} (hp : t.kind p = some .dir) {c : Name} (hc : c = dot ∨ c = dotdot) :
    t.kind (lexStep p c) = some .dir := by
  rcases hc with rfl | rfl
  · exact hp
  · exact kind_dropLast hp

theorem enter_eq_some {p q : Position} {c : Name} :
    t.enter p c = some q ↔ t.kind p = some .dir ∧ q = lexStep p c ∧ (t.kind q).isSome = true := by
  by_cases hp : t.kind p = some .dir
  · by_cases hc : c = dot ∨ c = dotdot
    · have hk := kind_lexStep hp hc
      have henter : t.enter p c = some (lexStep p c) := by
        rcases hc with rfl | rfl
        · simp [HostTree.enter, lexStep, hp]
        · have hne : dotdot ≠ dot := by decide
          simp [HostTree.enter, lexStep, hp, hne]
      rw [henter]
      constructor
      · intro h
        obtain rfl := Option.some.inj h
        exact ⟨hp, rfl, by rw [hk]; rfl⟩
      · rintro ⟨-, rfl, -⟩
        rfl
    · obtain ⟨hdot, hdotdot⟩ := not_or.mp hc
      simp only [HostTree.enter, lexStep, hp, hdot, hdotdot, ne_eq, not_true_eq_false, if_false,
        true_and]
      constructor
      · intro h
        split_ifs at h with hk
        obtain rfl := Option.some.inj h
        exact ⟨rfl, hk⟩
      · rintro ⟨rfl, hk⟩
        exact if_pos hk
  · simp [HostTree.enter, hp]

theorem walk_dir_iff {p q : Position} {cs : List Name} :
    t.walk p cs = some q ∧ t.kind q = some .dir ↔
      q = lexFrom p cs ∧ ∀ m ≤ cs.length, t.kind (lexFrom p (cs.take m)) = some .dir := by
  induction cs generalizing p with
  | nil =>
    simp only [HostTree.walk, Option.some.injEq, List.length_nil, Nat.le_zero, forall_eq,
      List.take_nil, lexFrom, List.foldl_nil]
    constructor
    · rintro ⟨rfl, hk⟩
      exact ⟨rfl, hk⟩
    · rintro ⟨rfl, hk⟩
      exact ⟨rfl, hk⟩
  | cons c cs ih =>
    have hfirst : (∀ m ≤ (c :: cs).length, t.kind (lexFrom p ((c :: cs).take m)) = some .dir) ↔
        t.kind p = some .dir ∧
          ∀ m ≤ cs.length, t.kind (lexFrom (lexStep p c) (cs.take m)) = some .dir := by
      constructor
      · exact fun h => ⟨h 0 (Nat.zero_le _), fun m hm => h (m + 1) (Nat.succ_le_succ hm)⟩
      · rintro ⟨h0, h⟩ m hm
        cases m with
        | zero => exact h0
        | succ m => exact h m (Nat.le_of_succ_le_succ hm)
    rw [hfirst]
    simp only [HostTree.walk, Option.bind_eq_some_iff, enter_eq_some]
    constructor
    · rintro ⟨⟨r, ⟨hp, rfl, -⟩, hw⟩, hq⟩
      obtain ⟨hlex, hall⟩ := ih.mp ⟨hw, hq⟩
      exact ⟨hlex, hp, hall⟩
    · rintro ⟨hlex, hp, hall⟩
      obtain ⟨hw, hq⟩ := ih.mpr ⟨hlex, hall⟩
      exact ⟨⟨_, ⟨hp, rfl, by rw [show t.kind (lexStep p c) = some .dir from hall 0 (Nat.zero_le _)]; rfl⟩,
        hw⟩, hq⟩

theorem enter_noSlash {p q : Position} {c : Name} (hp : ∀ n ∈ p, slash ∉ n) (hc : slash ∉ c)
    (h : t.enter p c = some q) : ∀ n ∈ q, slash ∉ n := by
  obtain ⟨-, rfl, -⟩ := enter_eq_some.mp h
  intro n hn
  unfold lexStep at hn
  split_ifs at hn
  · exact hp n hn
  · exact hp n (List.mem_of_mem_dropLast hn)
  · rcases List.mem_append.mp hn with hn | hn
    · exact hp n hn
    · exact List.mem_singleton.mp hn ▸ hc

theorem realpathFrom_noSlash {p q : Position} (hp : ∀ n ∈ p, slash ∉ n) {cs : List Name}
    (hcs : ∀ n ∈ cs, slash ∉ n) (h : t.realpathFrom p cs = some q) : ∀ n ∈ q, slash ∉ n := by
  induction cs generalizing p with
  | nil =>
    obtain rfl := Option.some.inj h
    exact hp
  | cons c cs ih =>
    have hc := hcs c List.mem_cons_self
    rw [HostTree.realpathFrom] at h
    split at h
    · rename_i r hr
      exact ih (enter_noSlash hp hc hr) (fun n hn => hcs n (List.mem_cons_of_mem _ hn)) h
    · split_ifs at h
      obtain rfl := Option.some.inj h
      intro n hn
      rcases List.mem_append.mp hn with hn | hn
      · exact hp n hn
      · exact List.mem_singleton.mp hn ▸ hc

theorem realpath_eq_some {s : List Byte} {p : Position} : t.realpath s = some p ↔
    t.realpathFrom [] (components s) = some p ∧ (pathText p).length < PATH_MAX := by
  rw [HostTree.realpath, Option.filter_eq_some_iff, decide_eq_true_iff]

theorem realpath_noSlash {s : List Byte} {p : Position} (h : t.realpath s = some p) : ∀ n ∈ p, slash ∉ n :=
  realpathFrom_noSlash (by simp) (components_noSlash s) (realpath_eq_some.mp h).1

theorem walk_append (p : Position) (as bs : List Name) :
    t.walk p (as ++ bs) = (t.walk p as).bind (fun q => t.walk q bs) := by
  induction as generalizing p with
  | nil => rfl
  | cons a as ih =>
    simp only [List.cons_append, HostTree.walk]
    cases t.enter p a with
    | none => rfl
    | some q => exact ih q

theorem walk_concat (p : Position) (cs : List Name) (c : Name) :
    t.walk p (cs ++ [c]) = (t.walk p cs).bind (fun q => t.enter q c) := by
  rw [walk_append]
  congr 1
  funext q
  exact Option.bind_fun_some _

theorem realpathFrom_append {p q : Position} {as : List Name} (h : t.walk p as = some q)
    (bs : List Name) : t.realpathFrom p (as ++ bs) = t.realpathFrom q bs := by
  induction as generalizing p with
  | nil =>
    rw [Option.some.inj h]
    rfl
  | cons a as ih =>
    simp only [HostTree.walk] at h
    cases ha : t.enter p a with
    | none =>
      rw [ha] at h
      simp at h
    | some r =>
      rw [ha] at h
      simp only [List.cons_append, HostTree.realpathFrom, ha]
      exact ih h

theorem realpathFrom_of_walk {p q : Position} {cs : List Name} (h : t.walk p cs = some q) :
    t.realpathFrom p cs = some q := by
  have := realpathFrom_append h []
  rwa [List.append_nil] at this

theorem realpathFrom_of_make {k : Kind} {cs : List Name} {p : Position} {t' : HostTree}
    (h : t.make k cs = some (p, t')) (ds : List Name) : t.realpathFrom [] (cs ++ ds) = some p := by
  unfold HostTree.make at h
  split at h
  · rename_i q c hq hc
    split_ifs at h with hnew
    obtain ⟨rfl, -⟩ := Prod.mk.inj (Option.some.inj h)
    obtain ⟨hdir, hnone, hord⟩ := hnew
    have hcs : cs = cs.dropLast ++ [c] := by
      rw [List.dropLast_append_getLast?]
      exact hc
    have henter : t.enter q c = none := by
      simp [HostTree.enter, hdir, hord.notDot, hord.notDotdot, hnone]
    rw [hcs, List.append_assoc, realpathFrom_append hq, List.singleton_append, HostTree.realpathFrom,
      henter]
    exact if_pos ⟨hdir, hord.short⟩
  · simp at h

end Tree

end Tosemu.Host
