import Mathlib.Tactic.SplitIfs
import Tosemu.Allocator
import Tosemu.Ranges
import Tosemu.Runs

namespace Tosemu.Allocator

open Ranges Runs

def MemArea.range (ma : MemArea) : Range ℕ :=
  ⟨ma.base.toNat, ma.base.toNat + ma.len.toNat, Nat.le_add_right _ _⟩

structure Ordered (limit : ℕ) (l : List MemArea) : Prop where
  separated : Separated (l.map MemArea.range)
  bounded : ∀ ma ∈ l, 0x800 ≤ ma.range.lo ∧ ma.range.hi ≤ limit

variable {limit : ℕ} {before after : List MemArea} {ma n : MemArea} {memTop newsiz : Long}

theorem MemArea.top_toNat (h : ma.range.hi ≤ limit) (hl : limit < 2 ^ 32) :
    ma.top.toNat = ma.range.hi := by
  simp only [range] at h
  simp only [top, range, BitVec.toNat_add]
  omega

theorem Ordered.remove (h : Ordered limit (before ++ ma :: after)) :
    Ordered limit (before ++ after) := by
  obtain ⟨hs, hb⟩ := h
  simp only [List.map_append, List.map_cons, List.forall_mem_append, List.forall_mem_cons] at hs hb
  exact ⟨by simpa only [List.map_append] using hs.remove,
    List.forall_mem_append.mpr ⟨hb.1, hb.2.2⟩⟩

theorem Ordered.shrink (h : Ordered limit (before ++ ma :: after))
    (hn : newsiz.toNat ≤ ma.len.toNat) :
    Ordered limit (before ++ { ma with len := newsiz } :: after) := by
  obtain ⟨hs, hb⟩ := h
  have hr : ({ ma with len := newsiz } : MemArea).range.hi ≤ ma.range.hi :=
    Nat.add_le_add_left hn _
  simp only [List.map_append, List.map_cons, List.forall_mem_append, List.forall_mem_cons] at hs hb
  have hcut : Separated (before.map MemArea.range ++
      ({ ma with len := newsiz } : MemArea).range :: after.map MemArea.range) := hs.replace rfl hr
  refine ⟨by simpa only [List.map_append, List.map_cons] using hcut, ?_⟩
  simp only [List.forall_mem_append, List.forall_mem_cons]
  exact ⟨hb.1, ⟨hb.2.1.1, hr.trans hb.2.1.2⟩, hb.2.2⟩

theorem Ordered.insert (h : Ordered limit (before ++ after))
    (hn : 0x800 ≤ n.range.lo ∧ n.range.hi ≤ limit)
    (hb : ∀ x ∈ before, x.range.hi ≤ n.range.lo) (ha : ∀ x ∈ after, n.range.hi ≤ x.range.lo) :
    Ordered limit (before ++ n :: after) := by
  obtain ⟨hs, hbd⟩ := h
  simp only [List.map_append, List.forall_mem_append] at hs hbd
  refine ⟨?_, ?_⟩
  · rw [List.map_append, List.map_cons]
    exact hs.insert n.range (List.forall_mem_map.mpr hb) (List.forall_mem_map.mpr ha)
  · simp only [List.forall_mem_append, List.forall_mem_cons]
    exact ⟨hbd.1, hn, hbd.2⟩

theorem Ordered.parts (h : Ordered limit (before ++ ma :: after)) :
    (∀ x ∈ before, x.range.hi ≤ ma.range.lo) ∧ ∀ x ∈ after, ma.range.hi ≤ x.range.lo := by
  have hs := h.separated
  simp only [List.map_append, List.map_cons] at hs
  obtain ⟨-, hc, hx⟩ := List.pairwise_append.mp hs
  refine ⟨fun x hx' => hx _ (List.mem_map_of_mem hx') _ List.mem_cons_self, fun x hx' => ?_⟩
  exact (List.pairwise_cons.mp hc).1 _ (List.mem_map_of_mem hx')

theorem gap_room (hma : ma.range.hi ≤ limit) (hl : limit < 2 ^ 32)
    (hg : ma.range.hi ≤ (gapLimit memTop after).toNat)
    (hn : newsiz < gapLimit memTop after - ma.top) :
    (MemArea.mk ma.top newsiz).range.hi < (gapLimit memTop after).toNat := by
  have ht := ma.top_toNat hma hl
  have hn' : newsiz.toNat < (gapLimit memTop after - ma.top).toNat := hn
  rw [BitVec.toNat_sub_of_le (by simpa only [BitVec.le_def, ht] using hg), ht] at hn'
  simp only [MemArea.range] at ht hn' ⊢
  omega

theorem Ordered.fill (h : Ordered limit (before ++ ma :: after)) (hl : limit < 2 ^ 32)
    (hg : ma.range.hi ≤ (gapLimit memTop after).toNat) (hlim : (gapLimit memTop after).toNat ≤ limit)
    (hn : newsiz < gapLimit memTop after - ma.top) :
    (MemArea.mk ma.top newsiz).range.lo = ma.range.hi ∧
      Ordered limit (before ++ ma :: ⟨ma.top, newsiz⟩ :: after) := by
  have hb := h.bounded ma (by simp)
  have hlo : (MemArea.mk ma.top newsiz).range.lo = ma.range.hi := MemArea.top_toNat hb.2 hl
  have hroom := gap_room hb.2 hl hg hn
  refine ⟨hlo, ?_⟩
  have hins : Ordered limit ((before ++ [ma]) ++ ⟨ma.top, newsiz⟩ :: after) := by
    apply Ordered.insert (by simpa using h)
    · exact ⟨by rw [hlo]; exact hb.1.trans ma.range.le, (hroom.trans_le hlim).le⟩
    · intro x hx
      rw [hlo]
      rcases List.mem_append.mp hx with hx | hx
      · exact (h.parts.1 x hx).trans ma.range.le
      · rw [List.mem_singleton.mp hx]
    · cases after with
      | nil => simp
      | cons a after =>
        -- the areas further on start behind the one that limits the gap
        have ha : Ordered limit ((before ++ [ma]) ++ a :: after) := by simpa using h
        intro x hx
        rcases List.mem_cons.mp hx with rfl | hx
        · exact hroom.le
        · exact (hroom.le.trans a.range.le).trans (ha.parts.2 x hx)
  simpa using hins

theorem gemdosMalloc_cases {s : MemState} (h : Ordered limit s.memList) (hl : limit < 2 ^ 32)
    (htop : s.memAllocatableTop.toNat ≤ limit) (hn : newsiz ≠ -1) (hstart : 0x900 ≤ s.memAllocatableTop)
    (hlast : ∀ ma ∈ s.memList, newsiz < s.memAllocatableTop - ma.top → ma.top ≤ s.memAllocatableTop) :
    gemdosMalloc newsiz s = (0, s) ∨
      ∃ g, s.taken newsiz = some g ∧ ∃ before after, s.memList = before ++ after ∧
        gemdosMalloc newsiz s = (g.1, { s with memList := before ++ ⟨g.1, newsiz⟩ :: after }) ∧
        (g.1 = 0x900 ∨ ∃ ma ∈ before, g.1.toNat = ma.range.hi) ∧
        Ordered limit (before ++ ⟨g.1, newsiz⟩ :: after) := by
  obtain ⟨memList, memTop⟩ := s
  simp only [gemdosMalloc, hn, ↓reduceIte]
  cases hi : insertArea memTop newsiz memList with
  | none => exact Or.inl rfl
  | some r =>
    right
    cases memList with
    | nil =>
      simp only [insertArea] at hi
      split_ifs at hi with hlt
      obtain rfl := Option.some.inj hi
      have hfind : MemState.taken ⟨[], memTop⟩ newsiz = some (0x900, memTop - 0x900) :=
        List.find?_cons_of_pos (by simpa using hlt)
      refine ⟨_, hfind, [], [], rfl, rfl, Or.inl rfl, ?_⟩
      have hlt' : newsiz.toNat < (memTop - 0x900).toNat := hlt
      rw [BitVec.toNat_sub_of_le hstart] at hlt'
      have hbase : (0x900 : Long).toNat = 0x900 := rfl
      apply Ordered.insert (by simpa using h)
      · simp only [MemArea.range, hbase] at hlt' htop ⊢
        omega
      · simp
      · simp
    | cons prev next =>
      obtain ⟨before, ma, after, hl', hb, hr, hlt, hfind⟩ := insertBehind_some hi
      simp only at h
      rw [hl'] at h
      have hma := h.bounded ma (by simp)
      have hgap : ma.range.hi ≤ (gapLimit memTop after).toNat := by
        cases after with
        | nil =>
          rw [← MemArea.top_toNat hma.2 hl]
          exact hlast ma (by rw [hl']; simp) hlt
        | cons a after => exact h.parts.2 a List.mem_cons_self
      have hlim : (gapLimit memTop after).toNat ≤ limit := by
        cases after with
        | nil => exact htop
        | cons a after => exact (a.range.le).trans (h.bounded a (by simp)).2
      obtain ⟨hlo, hord⟩ := h.fill hl hgap hlim hlt
      refine ⟨_, hfind, before ++ [ma], after, by simpa using hl', ?_, Or.inr ⟨ma, by simp, hlo⟩, ?_⟩
      · simp only [hb, hr, List.append_assoc, List.singleton_append]
      · simpa using hord

theorem gemdosMfree_cases (block : Long) (s : MemState) :
    gemdosMfree block s = (GEMDOS_EIMBA, s) ∨
      ∃ before ma after, s.memList = before ++ ma :: after ∧ ma.base = block ∧
        gemdosMfree block s = (0, { s with memList := before ++ after }) := by
  unfold gemdosMfree
  cases hf : findMemArea block s.memList with
  | none => exact Or.inl rfl
  | some r =>
    obtain ⟨hl, hb⟩ := findMemArea_some hf
    exact Or.inr ⟨r.1, r.2.1, r.2.2, hl, hb, rfl⟩

theorem gemdosMshrink_cases (block newsiz : Long) (s : MemState) :
    gemdosMshrink block newsiz s = (GEMDOS_EIMBA, s) ∨
      gemdosMshrink block newsiz s = (GEMDOS_EGSBF, s) ∨
      ∃ before ma after, s.memList = before ++ ma :: after ∧ ma.base = block ∧ newsiz ≤ ma.len ∧
        gemdosMshrink block newsiz s =
          (0, { s with memList := before ++ { ma with len := newsiz } :: after }) := by
  unfold gemdosMshrink
  cases hf : findMemArea block s.memList with
  | none => exact Or.inl rfl
  | some r =>
    obtain ⟨hl, hb⟩ := findMemArea_some hf
    right
    simp only
    split_ifs with hlt
    · exact Or.inl rfl
    · exact Or.inr ⟨r.1, r.2.1, r.2.2, hl, hb, BitVec.not_lt.mp hlt, rfl⟩

def AboveBasepage (ma : MemArea) : Prop := ma.base = 0x800 ∧ 0x100 ≤ ma.len ∨ 0x900 ≤ ma.base

theorem AboveBasepage.hi (h : AboveBasepage ma) : 0x900 ≤ ma.range.hi := by
  have h100 : (0x100 : Long).toNat = 0x100 := rfl
  have h900 : (0x900 : Long).toNat = 0x900 := rfl
  simp only [AboveBasepage, BitVec.le_def, h100, h900] at h
  simp only [MemArea.range]
  rcases h with ⟨hb, hl⟩ | hb
  · have h800 : ma.base.toNat = 0x800 := by
      rw [hb]
      rfl
    omega
  · omega

theorem mshrink_above (block newsiz : Long) {s : MemState} (h : ∀ ma ∈ s.memList, AboveBasepage ma)
    (hk : block = 0x800 → (∃ ma ∈ s.memList, ma.base = block) → (gemdosMshrink block newsiz s).1 = 0 →
      0x100 ≤ newsiz) : ∀ ma ∈ (gemdosMshrink block newsiz s).2.memList, AboveBasepage ma := by
  rcases gemdosMshrink_cases block newsiz s with he | he | ⟨before, ma, after, hl, hb, -, he⟩
  · rwa [he]
  · rwa [he]
  · have hin : ma ∈ s.memList := by simp [hl]
    rw [hl, List.forall_mem_append, List.forall_mem_cons] at h
    obtain ⟨hbefore, hma, hafter⟩ := h
    rw [he]
    simp only [List.forall_mem_append, List.forall_mem_cons]
    refine ⟨hbefore, ?_, hafter⟩
    rcases hma with ⟨h800, -⟩ | h900
    · exact Or.inl ⟨h800, hk (hb.symm.trans h800) ⟨ma, hin, hb⟩ (by rw [he])⟩
    · exact Or.inr h900

theorem mfree_above (block : Long) {s : MemState} (h : ∀ ma ∈ s.memList, AboveBasepage ma) :
    ∀ ma ∈ (gemdosMfree block s).2.memList, AboveBasepage ma := by
  rcases gemdosMfree_cases block s with he | ⟨before, ma, after, hl, -, he⟩
  · rwa [he]
  · rw [he]
    intro x hx
    apply h x
    rw [hl]
    exact (List.Sublist.append_left (List.sublist_cons_self ma after) before).subset hx

end Tosemu.Allocator
