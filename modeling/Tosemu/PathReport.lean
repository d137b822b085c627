import Mathlib.Data.List.TakeWhile
import Tosemu.PathComponents

namespace Tosemu.Gemdos

open Host

def getcwd (cwd : Position) : List Byte := if (pathText cwd).length ≤ PATH_MAX then pathText cwd else []

def dgetpathLoop (addr : Long) : ℕ → List Byte → Machine → Machine
  | 0, _, m => m
  | n + 1, ubuf, m =>
    let c := ubuf.headD 0
    let m := m68kWriteMemory8 addr (c.setWidth 32) m
    if c = 0 then m else dgetpathLoop (addr + 1) n ubuf.tail m

def gemdosDgetpath (cwd : Position) (addr : Long) (m : Machine) : Long × Machine :=
  (0, dgetpathLoop addr PATH_MAX (getcwd cwd) m)

def reported (cwd : Position) : List Byte := (getcwd cwd).takeWhile (fun c => c ≠ 0)

/-- The bytes that `Dgetpath` writes. A name of full length has no zero behind it. -/
def reportedBytes (cwd : Position) : List Byte := (reported cwd ++ [0]).take PATH_MAX

def Accessible (m : Machine) (a : Long) (n : ℕ) : Prop :=
  ∀ k < n, Readable m (a + BitVec.ofNat 32 k) ∧ Writable m (a + BitVec.ofNat 32 k)

instance (m : Machine) (a : Long) (n : ℕ) : Decidable (Accessible m a n) :=
  inferInstanceAs (Decidable (∀ k < n, _))

/-- 0 is answered with the directory that the translated path names, or else nothing happens. -/
def SetsNamed (t : HostTree) (base : Option Position) (cwd : Position) (tp : List Byte) : Prop :=
  let r := setpathStep t base cwd tp
  (r.1 = 0 → chdir t cwd (pathFromTos t (baseText base) tp).2 = some r.2) ∧
    (r.1 ≠ 0 → r.1.toInt < 0 ∧ r.2 = cwd)

instance (t : HostTree) (base : Option Position) (cwd : Position) (tp : List Byte) :
    Decidable (SetsNamed t base cwd tp) := inferInstanceAs (Decidable (_ ∧ _))

def ReportSets (t : HostTree) (base : Option Position) (cwd : Position) (a : Long) (m : Machine) : Prop :=
  setpathStep t base cwd (getPath a (gemdosDgetpath cwd a m).2).1 = (0, cwd)

instance (t : HostTree) (base : Option Position) (cwd : Position) (a : Long) (m : Machine) :
    Decidable (ReportSets t base cwd a m) := inferInstanceAs (Decidable (_ = _))

def Leads (t : HostTree) (s : List Byte) : Prop :=
  ∀ m ≤ (components s).length, t.kind (lexFrom [] ((components s).take m)) = some .dir

instance (t : HostTree) (s : List Byte) : Decidable (Leads t s) := inferInstanceAs (Decidable (∀ m ≤ _, _))

def NamesDirectory (t : HostTree) (base : Option Position) (cwd : Position) (tp : List Byte) : Prop :=
  Turned t.realpathText (baseText base) tp ∨
    (fittingText (baseText base) tp).length < PATH_MAX ∧ Leads t (absolute cwd (fittingText (baseText base) tp))

/-- Put behind the base path, the text of the current directory is let through, and leads through
directories to no other one. -/
def ReadsBack (t : HostTree) (base : Option Position) (cwd : Position) : Prop :=
  let s := fittingText (baseText base) (reported cwd)
  ¬ Turned t.realpathText (baseText base) (reported cwd) ∧
    (s.length < PATH_MAX → Leads t (absolute cwd s) → lexFrom [] (components (absolute cwd s)) = cwd)

section Report

variable {m : Machine} {a : Long}

theorem copyOut_sameMap (bs : List Byte) (a : Long) (m : Machine) : SameMap m (File.copyOut a bs m) := by
  induction bs generalizing a m with
  | nil => exact SameMap.refl m
  | cons b bs ih =>
    rw [File.copyOut, File.m68kWriteMemory8_byte]
    exact (tosWrite_sameMap m a b).trans (ih _ _)

theorem dgetpathLoop_eq (n : ℕ) (a : Long) (s : List Byte) (m : Machine) :
    dgetpathLoop a n s m = File.copyOut a ((s.takeWhile (fun c => c ≠ 0) ++ [0]).take n) m := by
  induction n generalizing a s m with
  | zero => rfl
  | succ n ih =>
    cases s with
    | nil =>
      have hnil : ([0] : List Byte).take (n + 1) = [0] := by simp
      rw [List.takeWhile_nil, List.nil_append, hnil]
      rfl
    | cons c s =>
      have hloop : dgetpathLoop a (n + 1) (c :: s) m = if c = 0 then m68kWriteMemory8 a (c.setWidth 32) m
          else dgetpathLoop (a + 1) n s (m68kWriteMemory8 a (c.setWidth 32) m) := rfl
      rw [hloop]
      by_cases hc : c = 0
      · subst hc
        have hnil : ([0] : List Byte).take (n + 1) = [0] := by simp
        rw [if_pos rfl, List.takeWhile_cons_of_neg (by simp), List.nil_append, hnil]
        rfl
      · rw [if_neg hc, ih, List.takeWhile_cons_of_pos (by simpa using hc), List.cons_append,
          List.take_succ_cons]
        rfl

theorem gemdosDgetpath_eq (cwd : Position) (a : Long) (m : Machine) :
    gemdosDgetpath cwd a m = (0, File.copyOut a (reportedBytes cwd) m) := by
  rw [gemdosDgetpath, dgetpathLoop_eq]
  rfl

theorem readByte_copyOut {bs : List Byte} (hlen : bs.length < 2 ^ 32) (h : Accessible m a bs.length) {k : ℕ}
    (hk : k < bs.length) : Readable (File.copyOut a bs m) (a + BitVec.ofNat 32 k) ∧
      some (readByte (File.copyOut a bs m) (a + BitVec.ofNat 32 k)) = bs[k]? := by
  have hreadable : Readable (File.copyOut a bs m) (a + BitVec.ofNat 32 k) :=
    ((copyOut_sameMap bs a m).readable_iff _).mpr (h k hk).1
  have hbyte := File.memByte_copyOut bs a m hlen (fun j hj => (h j hj).2) hk
  refine ⟨hreadable, ?_⟩
  rw [readByte, if_pos hreadable, hbyte, List.getElem?_eq_getElem hk, Option.getD_some]

theorem getPath_copyOut {s : List Byte} (hs : 0 ∉ s)
    (h : Accessible m a ((s ++ [0]).take PATH_MAX).length) :
    (getPath a (File.copyOut a ((s ++ [0]).take PATH_MAX) m)).1 = s.take PATH_MAX := by
  have hmax : PATH_MAX = 4096 := rfl
  have hlen : (s ++ [0]).length = s.length + 1 := by simp
  have hbytes : ((s ++ [0]).take PATH_MAX).length < 2 ^ 32 := by
    rw [List.length_take]
    omega
  rcases lt_or_ge s.length PATH_MAX with hlt | hge
  · have htake : (s ++ [0]).take PATH_MAX = s ++ [0] := List.take_of_length_le (by omega)
    rw [htake] at h hbytes ⊢
    have hat : ∀ k ≤ s.length, Readable (File.copyOut a (s ++ [0]) m) (a + BitVec.ofNat 32 k) ∧
        some (readByte (File.copyOut a (s ++ [0]) m) (a + BitVec.ofNat 32 k)) = (s ++ [0])[k]? :=
      fun k hk => readByte_copyOut hbytes h (by omega)
    apply getPath_string
    refine ⟨fun k hk => (hat k hk).1, fun k hk => ?_, hs, ?_⟩
    · rw [(hat k hk.le).2, List.getElem?_append_left hk]
    · have hnul := (hat s.length le_rfl).2
      rw [List.getElem?_append_right le_rfl, Nat.sub_self] at hnul
      exact Option.some.inj hnul
  · have htake : (s ++ [0]).take PATH_MAX = s.take PATH_MAX := List.take_append_of_le_length hge
    have hcount : (s.take PATH_MAX).length = PATH_MAX := by rw [List.length_take, min_eq_left hge]
    rw [htake] at h hbytes ⊢
    have hat := fun k hk => readByte_copyOut (k := k) hbytes h (hcount.symm ▸ hk)
    apply getPathLoop_take hge hs
    intro k hk
    rw [byteRead_readable (fun j hj => (hat j (by omega)).1), (hat k hk).2, List.getElem?_take_of_lt hk]

end Report

section Setpath

variable {t : HostTree} {base : Option Position} {cwd : Position} {tp : List Byte}

theorem chdir_iff {s : List Byte} {q : Position} : chdir t cwd s = some q ↔
    s.length < PATH_MAX ∧ Leads t (absolute cwd s) ∧ q = lexFrom [] (components (absolute cwd s)) := by
  rw [chdir_eq_some, HostTree.resolve, walk_dir_iff, Leads, and_comm (a := q = _)]

theorem setpathStep_turned (h : Turned t.realpathText (baseText base) tp) :
    setpathStep t base cwd tp = (GEMDOS_EFILNF, cwd) := if_pos ((turned_iff _ _ _).mpr h)

theorem setpathStep_accepted (h : ¬ Turned t.realpathText (baseText base) tp) :
    setpathStep t base cwd tp = (0, (chdir t cwd (fittingText (baseText base) tp)).getD cwd) := by
  have hpos := (turned_iff t.realpathText (baseText base) tp).not.mpr h
  rw [← pathFromTosWith_fitting t.realpathText]
  exact if_neg hpos

theorem setsNamed_iff (t : HostTree) (base : Option Position) (cwd : Position) (tp : List Byte) :
    SetsNamed t base cwd tp ↔ NamesDirectory t base cwd tp := by
  unfold SetsNamed NamesDirectory
  rw [pathFromTos, pathFromTosWith_fitting]
  by_cases hturned : Turned t.realpathText (baseText base) tp
  · have herror : GEMDOS_EFILNF ≠ 0 ∧ GEMDOS_EFILNF.toInt < 0 := by decide
    rw [setpathStep_turned hturned]
    simp only [hturned, true_or, iff_true]
    exact ⟨fun h0 => absurd h0 herror.1, fun _ => ⟨herror.2, trivial⟩⟩
  · rw [setpathStep_accepted hturned]
    simp only [hturned, false_or, ne_eq, not_true_eq_false, false_implies, and_true, forall_const]
    rw [chdir_iff]
    constructor
    · rintro ⟨hlen, hleads, -⟩
      exact ⟨hlen, hleads⟩
    · rintro ⟨hlen, hleads⟩
      rw [chdir_iff.mpr ⟨hlen, hleads, rfl⟩]
      exact ⟨hlen, hleads, rfl⟩

theorem setpath_stays_iff {s : List Byte} (hs : fittingText (baseText base) tp = s) :
    setpathStep t base cwd tp = (0, cwd) ↔ ¬ Turned t.realpathText (baseText base) tp ∧
      (s.length < PATH_MAX → Leads t (absolute cwd s) → lexFrom [] (components (absolute cwd s)) = cwd) := by
  by_cases hturned : Turned t.realpathText (baseText base) tp
  · have herror : GEMDOS_EFILNF ≠ 0 := by decide
    rw [setpathStep_turned hturned, Prod.mk.injEq]
    constructor
    · rintro ⟨h0, -⟩
      exact absurd h0 herror
    · rintro ⟨hno, -⟩
      exact absurd hturned hno
  · rw [setpathStep_accepted hturned, and_iff_right hturned, Prod.mk.injEq, and_iff_right rfl, hs]
    by_cases hdir : s.length < PATH_MAX ∧ Leads t (absolute cwd s)
    · rw [chdir_iff.mpr ⟨hdir.1, hdir.2, rfl⟩, Option.getD_some]
      exact ⟨fun h _ _ => h, fun h => h hdir.1 hdir.2⟩
    · have hnone : chdir t cwd s = none := by
        by_contra hne
        obtain ⟨q, hq⟩ := Option.ne_none_iff_exists'.mp hne
        obtain ⟨hlen, hleads, -⟩ := chdir_iff.mp hq
        exact hdir ⟨hlen, hleads⟩
      rw [hnone]
      exact iff_of_true rfl (fun hlen hleads => absurd ⟨hlen, hleads⟩ hdir)

theorem reported_nonzero (cwd : Position) : 0 ∉ reported cwd := by
  intro hmem
  simpa using List.mem_takeWhile_imp hmem

theorem reported_length (cwd : Position) : (reported cwd).length ≤ PATH_MAX := by
  apply (List.takeWhile_prefix _).length_le.trans
  rw [getcwd]
  split_ifs with h
  · exact h
  · exact Nat.zero_le _

theorem getPath_reported {a : Long} {m : Machine} (h : Accessible m a (reportedBytes cwd).length) :
    (getPath a (gemdosDgetpath cwd a m).2).1 = reported cwd := by
  rw [gemdosDgetpath_eq]
  exact (getPath_copyOut (reported_nonzero cwd) h).trans (List.take_of_length_le (reported_length cwd))

end Setpath

section Plain

variable {t : HostTree} {cwd : Position}

theorem convert_plain {s : List Byte} (hs : backslash ∉ s) (prevSlash : Bool) : convert prevSlash s = s := by
  induction s generalizing prevSlash with
  | nil => rfl
  | cons c s ih =>
    obtain ⟨hc, hs⟩ := not_or.mp (List.mem_cons.not.mp hs)
    rw [convert_other (Ne.symm hc), ih hs]

theorem reported_plain (hzero : 0 ∉ pathText cwd) (hlen : (pathText cwd).length ≤ PATH_MAX) :
    reported cwd = pathText cwd := by
  rw [reported, getcwd, if_pos hlen, List.takeWhile_eq_self_iff]
  intro c hc
  have hne : c ≠ 0 := fun h0 => hzero (h0 ▸ hc)
  simpa using hne

theorem segments_slashed (hcwd : ∀ n ∈ cwd, Ordinary n) : segments (slashed cwd) = [] :: cwd := by
  induction cwd using List.reverseRecOn with
  | nil => rfl
  | append_singleton p n ih =>
    have hn := hcwd n (by simp)
    have happ : slashed (p ++ [n]) = slashed p ++ slash :: n := by simp [slashed]
    have hsingle : segments n = [n] := List.splitOn_eq_singleton hn.noSlash
    rw [happ, segments_append, ih (fun m hm => hcwd m (List.mem_append_left _ hm)), hsingle]
    rfl

theorem components_pathText (hcwd : ∀ n ∈ cwd, Ordinary n) :
    components (pathText cwd) = if cwd = [] then [dot] else cwd := by
  have hnames := names_segments_pathText hcwd
  by_cases hnil : cwd = []
  · subst hnil
    rfl
  · have hlast : (segments (pathText cwd)).getLast? ≠ some [] := by
      have htext : pathText cwd = slashed cwd := if_neg hnil
      rw [htext, segments_slashed hcwd, List.getLast?_cons_of_ne_nil hnil]
      intro h
      exact (hcwd [] (List.mem_of_getLast? h)).nonempty rfl
    rw [components, hnames, if_neg hlast, if_neg hnil, List.append_nil]

theorem lexFrom_ordinary (p : Position) {cs : List Name} (hcs : ∀ c ∈ cs, Ordinary c) : lexFrom p cs = p ++ cs := by
  induction cs generalizing p with
  | nil => exact (List.append_nil p).symm
  | cons c cs ih =>
    have hfold : lexFrom p (c :: cs) = lexFrom (lexStep p c) cs := rfl
    rw [hfold, lexStep_ordinary (hcs c List.mem_cons_self), ih _ (fun d hd => hcs d (List.mem_cons_of_mem c hd)),
      ← List.append_cons]

theorem leads_pathText {d : Position} (hd : t.kind d = some .dir) (hcwd : ∀ n ∈ cwd, Ordinary n) :
    Leads t (basePath d ++ pathText cwd) ↔ t.kind (d ++ cwd) = some .dir := by
  have hsome : (t.kind d).isSome = true := by rw [hd]; rfl
  have hlex : lexFrom [] (d ++ cwd) = d ++ cwd := by
    rw [lexFrom_ordinary [] (fun c hc => (List.mem_append.mp hc).elim (exists_ordinary hsome c) (hcwd c)),
      List.nil_append]
  have hwalk : ∀ q, t.walk [] (components (basePath d ++ pathText cwd)) = some q ∧ t.kind q = some .dir ↔
      t.walk [] (d ++ cwd) = some q ∧ t.kind q = some .dir := by
    intro q
    refine and_congr_left (fun hq => ?_)
    rw [walk_components_dir hq]
    have hnames : names (segments (basePath d ++ pathText cwd)) = d ++ cwd := by
      have happ : basePath d ++ pathText cwd = pathText d ++ slash :: pathText cwd := by simp [basePath]
      rw [happ, segments_append, names_append, names_segments_pathText (exists_ordinary hsome),
        names_segments_pathText hcwd]
    rw [hnames]
  constructor
  · intro hleads
    obtain ⟨hw, hdir⟩ := (hwalk _).mp (walk_dir_iff.mpr ⟨rfl, hleads⟩)
    rw [(walk_dir_iff.mp ⟨hw, hdir⟩).1, hlex] at hdir
    exact hdir
  · intro hdir
    have hw : t.walk [] (d ++ cwd) = some (d ++ cwd) := walk_position (by rw [hdir]; rfl)
    exact (walk_dir_iff.mp ((hwalk _).mpr ⟨hw, hdir⟩)).2

theorem realpathFrom_below {p q : Position} {cs : List Name} (hcs : ∀ c ∈ cs, c ≠ dotdot)
    (h : t.realpathFrom p cs = some q) : p <+: q := by
  induction cs generalizing p with
  | nil => exact Option.some.inj h ▸ List.prefix_rfl
  | cons c cs ih =>
    rw [HostTree.realpathFrom] at h
    split at h
    · rename_i r hr
      obtain ⟨-, hstep, -⟩ := enter_eq_some.mp hr
      have hpre : p <+: r := by
        rw [hstep, lexStep, if_neg (hcs c List.mem_cons_self)]
        split_ifs
        · exact List.prefix_rfl
        · exact List.prefix_append p [c]
      exact hpre.trans (ih (fun d hd => hcs d (List.mem_cons_of_mem c hd)) h)
    · split_ifs at h
      exact Option.some.inj h ▸ List.prefix_append p [c]

theorem kind_take {p : Position} (hp : t.kind p = some .dir) (m : ℕ) : t.kind (p.take m) = some .dir := by
  induction p using List.reverseRecOn with
  | nil => rwa [List.take_nil]
  | append_singleton p n ih =>
    by_cases hm : m ≤ p.length
    · rw [take_concat hm]
      exact ih (t.parent p n (by rw [hp]; rfl))
    · rw [List.take_of_length_le (by simp; omega)]
      exact hp

theorem kind_append_none {p : Position} (hp : t.kind p = none) (q : Position) : t.kind (p ++ q) = none := by
  induction q using List.reverseRecOn with
  | nil => rwa [List.append_nil]
  | append_singleton q n ih =>
    by_contra hne
    have hsome : (t.kind (p ++ q ++ [n])).isSome = true := by
      rw [List.append_assoc]
      exact Option.isSome_iff_ne_none.mpr hne
    rw [t.parent (p ++ q) n hsome] at ih
    cases ih

theorem realpathFrom_ordinary {p : Position} (hp : t.kind p = some .dir) {cs : List Name}
    (hcs : ∀ c ∈ cs, Ordinary c) :
    (t.realpathFrom p cs).isSome ↔ ∀ m < cs.length, t.kind (p ++ cs.take m) ≠ some .file := by
  induction cs generalizing p with
  | nil => exact iff_of_true rfl (by simp)
  | cons c cs ih =>
    have hc := hcs c List.mem_cons_self
    have hsplit : (∀ m < (c :: cs).length, t.kind (p ++ (c :: cs).take m) ≠ some .file) ↔
        ∀ m < cs.length, t.kind (p ++ [c] ++ cs.take m) ≠ some .file := by
      constructor
      · intro h m hm
        rw [List.append_assoc]
        exact h (m + 1) (Nat.succ_lt_succ hm)
      · intro h m hm
        cases m with
        | zero => simp [hp]
        | succ m =>
          rw [List.take_succ_cons, List.append_cons]
          exact h m (Nat.lt_of_succ_lt_succ hm)
    rw [hsplit, HostTree.realpathFrom]
    cases hk : t.kind (p ++ [c]) with
    | none =>
      have henter : t.enter p c = none := by
        simp [HostTree.enter, hp, hc.notDot, hc.notDotdot, hk]
      rw [henter]
      refine iff_of_true (by simp [hp, hc.short]) (fun m _ => ?_)
      rw [kind_append_none hk]
      simp
    | some k =>
      have henter : t.enter p c = some (p ++ [c]) :=
        enter_eq_some.mpr ⟨hp, (lexStep_ordinary hc).symm, by rw [hk]; rfl⟩
      rw [henter]
      dsimp only
      cases k with
      | dir => exact ih hk (fun d hd => hcs d (List.mem_cons_of_mem c hd))
      | file =>
        cases cs with
        | nil => exact iff_of_true rfl (by simp)
        | cons c' cs =>
          refine iff_of_false (by simp [HostTree.realpathFrom, HostTree.enter, hk]) (fun h => ?_)
          have hfile := h 0 (by simp)
          rw [List.take_zero, List.append_nil] at hfile
          exact hfile hk

theorem turned_pathText {d : Position} (hd : t.kind d = some .dir) (hcwd : ∀ n ∈ cwd, Ordinary n)
    (hplain : backslash ∉ pathText cwd) (hlen : (basePath d).length + (pathText cwd).length < PATH_MAX) :
    ¬ Turned t.realpathText (basePath d) (pathText cwd) ↔
      ∀ m < cwd.length, t.kind (d ++ cwd.take m) ≠ some .file := by
  have hdirs : ∀ n ∈ d, Ordinary n := exists_ordinary (by rw [hd]; rfl)
  have hbase : (basePath d).length = (pathText d).length + 1 := by simp [basePath]
  have hhost : hostPath d (pathText cwd) = basePath d ++ pathText cwd := by
    rw [hostPath, List.take_of_length_le (by omega), convert_plain hplain]
  have habs : (basePath d ++ pathText cwd).head? = some slash := by
    obtain ⟨rest, hrest⟩ := basePath_cons d
    rw [hrest]
    rfl
  have hwalk : t.realpathFrom [] (components (basePath d ++ pathText cwd)) =
      t.realpathFrom d (components (pathText cwd)) := by
    rw [components_basePath hdirs]
    exact realpathFrom_append (walk_position (by rw [hd]; rfl)) _
  have hdot : t.realpathFrom d (components (pathText cwd)) = t.realpathFrom d cwd := by
    rw [components_pathText hcwd]
    split_ifs with hnil
    · have henter : t.enter d dot = some d := enter_eq_some.mpr ⟨hd, rfl, by rw [hd]; rfl⟩
      simp [hnil, HostTree.realpathFrom, henter]
    · rfl
  rw [← realpathFrom_ordinary hd hcwd, ← turned_iff]
  refine (accepts_iff hd (by omega) (pathText cwd)).trans ?_
  rw [hhost]
  constructor
  · rintro ⟨p, hp, -⟩
    rw [← hdot, ← hwalk, (realpath_eq_some.mp hp).1]
    rfl
  · intro hsome
    obtain ⟨q, hq⟩ := Option.isSome_iff_exists.mp hsome
    refine ⟨q, realpath_of_short habs ?_ (by rw [hwalk, hdot, hq]), Or.inl ?_⟩
    · rw [List.length_append]
      exact hlen
    · exact realpathFrom_below (fun c hc => (hcwd c hc).notDotdot) hq

theorem fittingText_plain {s : List Byte} (base : Option Position) (hplain : backslash ∉ s)
    (hlen : (baseText base).length + s.length < PATH_MAX) :
    fittingText (baseText base) s = baseText base ++ s := by
  have htake : (baseText base).take PATH_MAX = baseText base := List.take_of_length_le (by omega)
  rw [fittingText, htake, List.take_of_length_le (by omega), convert_plain hplain]

theorem readsBack_unset (hcwd : t.kind cwd = some .dir) (hplain : 0 ∉ pathText cwd ∧ backslash ∉ pathText cwd)
    (hlen : (pathText cwd).length < PATH_MAX) : ReadsBack t none cwd := by
  have hords : ∀ n ∈ cwd, Ordinary n := exists_ordinary (by rw [hcwd]; rfl)
  have hfit : fittingText (baseText none) (pathText cwd) = pathText cwd :=
    fittingText_plain none hplain.2 (by simpa [baseText] using hlen)
  have hturned : ¬ Turned t.realpathText (baseText none) (pathText cwd) := by
    rintro (hnil | ⟨hset, -⟩)
    · rw [hfit] at hnil
      exact pathText_ne_nil cwd hnil
    · exact hset rfl
  have hlex : lexFrom [] (components (pathText cwd)) = cwd := by
    rw [components_pathText hords]
    split_ifs with hnil
    · rw [hnil]
      rfl
    · exact lexFrom_ordinary [] hords
  rw [ReadsBack, reported_plain hplain.1 hlen.le, hfit, absolute, if_pos (pathText_head cwd)]
  exact ⟨hturned, fun _ _ => hlex⟩

theorem readsBack_set {d : Position} (hd : t.kind d = some .dir) (hcwd : t.kind cwd = some .dir)
    (hplain : 0 ∉ pathText cwd ∧ backslash ∉ pathText cwd)
    (hlen : (basePath d).length + (pathText cwd).length < PATH_MAX) :
    ReadsBack t (some d) cwd ↔ d = [] ∨ t.kind (d ++ cwd) ≠ some .dir ∧
      ∀ m < cwd.length, t.kind (d ++ cwd.take m) ≠ some .file := by
  have hords : ∀ n ∈ cwd, Ordinary n := exists_ordinary (by rw [hcwd]; rfl)
  have hdirs : ∀ n ∈ d, Ordinary n := exists_ordinary (by rw [hd]; rfl)
  have hfit : fittingText (baseText (some d)) (pathText cwd) = basePath d ++ pathText cwd :=
    fittingText_plain (some d) hplain.2 hlen
  have hlex : lexFrom [] (components (basePath d ++ pathText cwd)) = d ++ cwd := by
    have hboth : ∀ c ∈ d ++ cwd, Ordinary c :=
      fun c hc => (List.mem_append.mp hc).elim (hdirs c) (hords c)
    rw [components_basePath hdirs, components_pathText hords]
    split_ifs with hnil
    · have happ : lexFrom [] (d ++ [dot]) = lexFrom [] d := by
        rw [lexFrom_concat]
        rfl
      rw [happ, lexFrom_ordinary [] hdirs, hnil, List.append_nil]
      rfl
    · exact lexFrom_ordinary [] hboth
  have hturned : ¬ Turned t.realpathText (baseText (some d)) (pathText cwd) ↔
      ∀ m < cwd.length, t.kind (d ++ cwd.take m) ≠ some .file := turned_pathText hd hords hplain.2 hlen
  have hshort : (basePath d ++ pathText cwd).length < PATH_MAX := by rwa [List.length_append]
  have hsame : d ++ cwd = cwd ↔ d = [] := List.append_left_eq_self
  rw [ReadsBack, reported_plain hplain.1 (by omega), hfit, absolute_basePath, hlex, leads_pathText hd hords,
    hturned, hsame]
  simp only [hshort, forall_const]
  constructor
  · rintro ⟨hfiles, hdir⟩
    by_cases hk : t.kind (d ++ cwd) = some .dir
    · exact Or.inl (hdir hk)
    · exact Or.inr ⟨hk, hfiles⟩
  · rintro (rfl | ⟨hk, hfiles⟩)
    · refine ⟨fun m _ => ?_, fun _ => rfl⟩
      rw [List.nil_append, kind_take hcwd m]
      simp
    · exact ⟨hfiles, fun hdir => absurd hdir hk⟩

theorem readsBack_plain (base : Option Position) (hbase : ∀ d ∈ base, t.kind d = some .dir)
    (hcwd : t.kind cwd = some .dir) (hplain : 0 ∉ pathText cwd ∧ backslash ∉ pathText cwd)
    (hlen : (baseText base).length + (pathText cwd).length < PATH_MAX) :
    ReadsBack t base cwd ↔ ∀ d ∈ base, d = [] ∨ t.kind (d ++ cwd) ≠ some .dir ∧
      ∀ m < cwd.length, t.kind (d ++ cwd.take m) ≠ some .file := by
  cases base with
  | none => simp [readsBack_unset hcwd hplain (by simpa [baseText] using hlen)]
  | some d => simpa using readsBack_set (hbase d rfl) hcwd hplain hlen

end Plain

theorem directory_calls_agree_iff (t : HostTree) (base : Option Position) (cwd : Position) (tp : List Byte)
    (a : Long) (m : Machine) (h : Accessible m a (reportedBytes cwd).length) :
    SetsNamed t base cwd tp ∧ ReportSets t base cwd a m ↔
      NamesDirectory t base cwd tp ∧ ReadsBack t base cwd := by
  rw [setsNamed_iff, ReportSets, getPath_reported h, setpath_stays_iff rfl, ReadsBack]

def bufferMachine : Machine :=
  { File.idleMachine with memory := addPtrMemoryArea MEMORY_READWRITE 0x1000 0x10 ⟨0x10, fun _ => 0⟩ [] }

def twiceTree : HostTree :=
  [(Kind.dir, [[0x62]]), (Kind.dir, [[0x62], [0x62]])].foldl
    (fun t r => ((t.make r.1 r.2).map Prod.snd).getD t) HostTree.empty

theorem directory_calls_agree_below :
    SetsNamed twiceTree (some [[0x62]]) [[0x62], [0x62]] [0x62] ∧
      ReportSets twiceTree (some [[0x62]]) [[0x62], [0x62]] 0x1000 bufferMachine :=
  (directory_calls_agree_iff twiceTree (some [[0x62]]) [[0x62], [0x62]] [0x62] 0x1000 bufferMachine
    (by decide)).mpr ⟨Or.inr (by decide +kernel),
      (readsBack_plain (some [[0x62]]) (fun d hd => Option.some.inj hd ▸ rfl) rfl (by decide) (by decide)).mpr
        (fun d hd => Option.some.inj hd ▸ Or.inr (by decide +kernel))⟩

/-- A missing directory `x` is set with 0; under the base path `/b`, the reported `/b` sets `/b/b`. -/
theorem directory_calls_disagree :
    (setpathStep twiceTree none [] [0x78] = (0, []) ∧ ¬ SetsNamed twiceTree none [] [0x78]) ∧
      Accessible bufferMachine 0x1000 (reportedBytes [[0x62]]).length ∧
      (getPath 0x1000 (gemdosDgetpath [[0x62]] 0x1000 bufferMachine).2).1 = [slash, 0x62] ∧
      setpathStep twiceTree (some [[0x62]]) [[0x62]] [slash, 0x62] = (0, [[0x62], [0x62]]) ∧
      ¬ ReportSets twiceTree (some [[0x62]]) [[0x62]] 0x1000 bufferMachine := by
  decide +kernel

end Tosemu.Gemdos
