import Tosemu.LinkedList
import Tosemu.Allocator
import Tosemu.Runs

/-!
`gemdosmem.c` as it works on the cells of the host's heap: pointers that are followed, cells that
are allocated, linked in, unlinked and freed. A `none` stands for a read through a pointer that
leads to no allocated cell, or for a loop that has used up its fuel.
-/

namespace Tosemu.AllocatorCells

open LinkedList Allocator Runs

abbrev Areas := Chain ℕ MemArea

structure Heap where
  memList : Areas
  memAllocatableTop : Long

def findLoop (base : Long) (c : Areas) : ℕ → Option ℕ → Option ℕ → Option (Option ℕ × Option ℕ)
  | 0, _, _ => none
  | _ + 1, prev, none => some (prev, none)
  | fuel + 1, prev, some ptr => do
    let area ← c.node ptr
    if area.value.base = base then some (prev, some ptr)
    else findLoop base c fuel (some ptr) area.next

/-- What `find_mem_area` leaves in `*prevptr`, beside the pointer it returns. -/
def findMemArea (fuel : ℕ) (base : Long) (c : Areas) : Option (Option ℕ × Option ℕ) :=
  findLoop base c fuel none c.head

def gemdosMshrink (fuel : ℕ) (block newsiz : Long) (h : Heap) : Option (Long × Heap) := do
  match (← findMemArea fuel block h.memList).2 with
  | none => some (GEMDOS_EIMBA, h)
  | some ma =>
    let area ← h.memList.node ma
    if area.value.len < newsiz then some (GEMDOS_EGSBF, h)
    else some (0, { h with memList := h.memList.setValue ma { area.value with len := newsiz } })

def topOf (c : Areas) : Option ℕ → Option Long
  | none => some 0x900
  | some prev => (c.node prev).map (fun area => area.value.top)

def largestLoop (c : Areas) : ℕ → Option ℕ → Option ℕ → Long → Option (Option ℕ × Long)
  | 0, _, _, _ => none
  | _ + 1, prev, none, maxFree => some (prev, maxFree)
  | fuel + 1, prev, some ptr, maxFree => do
    let prevTop ← (← c.node (← prev)).value.top
    let area ← c.node ptr
    largestLoop c fuel (some ptr) area.next (widen maxFree (area.value.base - prevTop))

/-- The second walk of `Malloc`: `prev` and `ptr` where it stops, `ptr` null at the list's end. -/
def gapLoop (newsiz : Long) (c : Areas) : ℕ → Option ℕ → Option ℕ → Option (Option ℕ × Option ℕ)
  | 0, _, _ => none
  | _ + 1, prev, none => some (prev, none)
  | fuel + 1, prev, some ptr => do
    let prevTop ← (← c.node (← prev)).value.top
    let area ← c.node ptr
    if newsiz < area.value.base - prevTop then some (prev, some ptr)
    else gapLoop newsiz c fuel (some ptr) area.next

/-- `n` is the cell that the host's `malloc` hands out, where the call asks for one. -/
def gemdosMalloc (fuel n : ℕ) (newsiz : Long) (h : Heap) : Option (Long × Heap) := do
  let c := h.memList
  let ptr ← match c.head with
    | none => some none
    | some prev => (c.node prev).map Node.next
  if newsiz = -1 then
    let r ← largestLoop c fuel c.head ptr 0
    let prevTop ← topOf c r.1
    some (widen r.2 (h.memAllocatableTop - prevTop), h)
  else
    let r ← gapLoop newsiz c fuel c.head ptr
    let prevTop ← topOf c r.1
    if r.2.isSome ∨ newsiz < h.memAllocatableTop - prevTop then
      some (prevTop, { h with memList := (c.alloc n ⟨prevTop, newsiz⟩ r.2).link r.1 (some n) })
    else some (0, h)

def gemdosMfree (fuel : ℕ) (block : Long) (h : Heap) : Option (Long × Heap) := do
  let r ← findMemArea fuel block h.memList
  match r.2 with
  | none => some (GEMDOS_EIMBA, h)
  | some ma =>
    let area ← h.memList.node ma
    some (0, { h with memList := (h.memList.link r.1 area.next).free ma })

def gemdosMemInit (ma : ℕ) (size : BitVec 64) : Heap :=
  let len := (size + 0x100).setWidth 32
  { memList := Chain.empty.push ma ⟨0x800, len⟩, memAllocatableTop := len }

def gemdosMemFree : ℕ → Areas → Option Areas
  | 0, _ => none
  | fuel + 1, c =>
    match c.head with
    | none => some c
    | some p => do
      let area ← c.node p
      gemdosMemFree fuel { c.free p with head := area.next }

def cellStep (fuel : ℕ) (h : Heap) (a : MemCall × ℕ) : Option (Long × Heap) :=
  match a.1 with
  | .malloc newsiz => gemdosMalloc fuel a.2 newsiz h
  | .mfree block => gemdosMfree fuel block h
  | .mshrink block newsiz => gemdosMshrink fuel block newsiz h

structure Represents (h : Heap) (s : MemState) (cells : List (ℕ × MemArea)) : Prop where
  layout : h.memList.Layout cells
  areas : cells.map Prod.snd = s.memList
  top : h.memAllocatableTop = s.memAllocatableTop

section Loops

variable {c : Areas} {before after : List (ℕ × MemArea)} {q fuel : ℕ} {prev : MemArea}

theorem findLoop_eq (base : Long) (h : c.Layout (before ++ after)) (hf : after.length < fuel) :
    (∃ mid p ma rest, after = mid ++ (p, ma) :: rest ∧
      Allocator.findMemArea base (after.map Prod.snd) =
        some (mid.map Prod.snd, ma, rest.map Prod.snd) ∧
      findLoop base c fuel (lastOf before) (after.head?.map Prod.fst) =
        some (lastOf (before ++ mid), some p)) ∨
    Allocator.findMemArea base (after.map Prod.snd) = none ∧
      ∃ prev, findLoop base c fuel (lastOf before) (after.head?.map Prod.fst) =
        some (prev, none) := by
  induction after generalizing before fuel with
  | nil =>
    obtain ⟨fuel, rfl⟩ := Nat.exists_eq_succ_of_ne_zero (by omega : fuel ≠ 0)
    exact Or.inr ⟨rfl, lastOf before, rfl⟩
  | cons cell after ih =>
    obtain ⟨p, area⟩ := cell
    rw [List.length_cons] at hf
    obtain ⟨fuel, rfl⟩ := Nat.exists_eq_succ_of_ne_zero (by omega : fuel ≠ 0)
    have hnode := h.node_eq
    have hwalk : findLoop base c (fuel + 1) (lastOf before) (some p) =
        if area.base = base then some (lastOf before, some p)
        else findLoop base c fuel (some p) (after.head?.map Prod.fst) := by
      rw [findLoop, hnode]
      rfl
    rw [List.head?_cons, Option.map_some, hwalk, List.map_cons, Allocator.findMemArea]
    by_cases hb : area.base = base
    · left
      refine ⟨[], p, area, after, rfl, by rw [if_pos hb]; rfl, ?_⟩
      rw [if_pos hb, List.append_nil]
    · rw [if_neg hb, if_neg hb]
      have hlast : lastOf (before ++ [(p, area)]) = some p := by simp [lastOf]
      have h' : c.Layout ((before ++ [(p, area)]) ++ after) := by simpa using h
      have hstep := ih h' (by omega : after.length < fuel)
      rw [hlast] at hstep
      rcases hstep with ⟨mid, p', ma, rest, rfl, hfind, hloop⟩ | ⟨hfind, prev, hloop⟩
      · left
        refine ⟨(p, area) :: mid, p', ma, rest, rfl, by rw [hfind]; rfl, ?_⟩
        rw [hloop, List.append_assoc, List.singleton_append]
      · exact Or.inr ⟨by rw [hfind]; rfl, prev, hloop⟩

theorem gapLoop_eq (newsiz memTop : Long) (h : c.Layout (before ++ (q, prev) :: after))
    (hf : after.length < fuel) :
    ∃ mid p ma rest, (q, prev) :: after = mid ++ (p, ma) :: rest ∧
      gapLoop newsiz c fuel (some q) (after.head?.map Prod.fst) =
        some (some p, rest.head?.map Prod.fst) ∧
      insertBehind memTop newsiz prev (after.map Prod.snd) =
        if (rest.head?.map Prod.fst).isSome ∨ newsiz < memTop - ma.top then
          some (ma.top, mid.map Prod.snd ++ ma :: ⟨ma.top, newsiz⟩ :: rest.map Prod.snd)
        else none := by
  induction after generalizing before q prev fuel with
  | nil =>
    obtain ⟨fuel, rfl⟩ := Nat.exists_eq_succ_of_ne_zero (by omega : fuel ≠ 0)
    exact ⟨[], q, prev, [], rfl, rfl, by simp [insertBehind]⟩
  | cons cell after ih =>
    obtain ⟨p, area⟩ := cell
    rw [List.length_cons] at hf
    obtain ⟨fuel, rfl⟩ := Nat.exists_eq_succ_of_ne_zero (by omega : fuel ≠ 0)
    have h' : c.Layout ((before ++ [(q, prev)]) ++ (p, area) :: after) := by simpa using h
    have hq := h.node_eq
    have hp := h'.node_eq
    have hwalk : gapLoop newsiz c (fuel + 1) (some q) (some p) =
        if newsiz < area.base - prev.top then some (some q, some p)
        else gapLoop newsiz c fuel (some p) (after.head?.map Prod.fst) := by
      simp only [gapLoop, hq, hp, Option.bind_eq_bind, Option.bind_some]
    rw [List.head?_cons, Option.map_some, hwalk, List.map_cons, insertBehind]
    by_cases hn : newsiz < area.base - prev.top
    · refine ⟨[], q, prev, (p, area) :: after, rfl, by rw [if_pos hn]; rfl, ?_⟩
      rw [if_pos hn]
      simp
    · obtain ⟨mid, p', ma, rest, hsplit, hloop, hins⟩ := ih h' (by omega : after.length < fuel)
      refine ⟨(q, prev) :: mid, p', ma, rest, by rw [hsplit]; rfl, by rw [if_neg hn, hloop], ?_⟩
      rw [if_neg hn, hins]
      split_ifs <;> rfl

theorem largestLoop_eq (memTop : Long) (h : c.Layout (before ++ (q, prev) :: after))
    (hf : after.length < fuel) (maxFree : Long) :
    ∃ p m prevTop, largestLoop c fuel (some q) (after.head?.map Prod.fst) maxFree = some (some p, m) ∧
      topOf c (some p) = some prevTop ∧
      widen m (memTop - prevTop) = largestGap memTop prev (after.map Prod.snd) maxFree := by
  induction after generalizing before q prev fuel maxFree with
  | nil =>
    obtain ⟨fuel, rfl⟩ := Nat.exists_eq_succ_of_ne_zero (by omega : fuel ≠ 0)
    exact ⟨q, maxFree, prev.top, rfl, by rw [topOf, h.node_eq]; rfl, rfl⟩
  | cons cell after ih =>
    obtain ⟨p, area⟩ := cell
    rw [List.length_cons] at hf
    obtain ⟨fuel, rfl⟩ := Nat.exists_eq_succ_of_ne_zero (by omega : fuel ≠ 0)
    have h' : c.Layout ((before ++ [(q, prev)]) ++ (p, area) :: after) := by simpa using h
    have hq := h.node_eq
    have hp := h'.node_eq
    have hwalk : largestLoop c (fuel + 1) (some q) (some p) maxFree =
        largestLoop c fuel (some p) (after.head?.map Prod.fst)
          (widen maxFree (area.base - prev.top)) := by
      simp only [largestLoop, hq, hp, Option.bind_eq_bind, Option.bind_some]
    rw [List.head?_cons, Option.map_some, hwalk]
    exact ih h' (by omega : after.length < fuel) _

end Loops

section Calls

variable {h : Heap} {s : MemState} {cells : List (ℕ × MemArea)} {fuel n : ℕ}

theorem findMemArea_eq (block : Long) (hr : Represents h s cells) (hf : cells.length < fuel) :
    (∃ before p ma after, cells = before ++ (p, ma) :: after ∧
      Allocator.findMemArea block s.memList =
        some (before.map Prod.snd, ma, after.map Prod.snd) ∧
      findMemArea fuel block h.memList = some (lastOf before, some p)) ∨
    Allocator.findMemArea block s.memList = none ∧
      ∃ prev, findMemArea fuel block h.memList = some (prev, none) := by
  have hl : h.memList.Layout ([] ++ cells) := hr.layout
  have hfind := findLoop_eq block hl hf
  rw [hr.areas, ← hr.layout.head] at hfind
  exact hfind

theorem mshrink_represents (block newsiz : Long) (hr : Represents h s cells)
    (hf : cells.length < fuel) :
    ∃ h' cells', gemdosMshrink fuel block newsiz h =
        some ((Allocator.gemdosMshrink block newsiz s).1, h') ∧
      Represents h' (Allocator.gemdosMshrink block newsiz s).2 cells' ∧
      cells'.length ≤ cells.length + 1 := by
  rcases findMemArea_eq block hr hf with
    ⟨before, p, ma, after, hcells, hlist, hfind⟩ | ⟨hlist, prev, hfind⟩
  · have hl : h.memList.Layout (before ++ (p, ma) :: after) := hcells ▸ hr.layout
    by_cases hlen : ma.len < newsiz
    · have ha : Allocator.gemdosMshrink block newsiz s = (GEMDOS_EGSBF, s) := by
        simp only [Allocator.gemdosMshrink, hlist, hlen, ↓reduceIte]
      rw [ha]
      refine ⟨h, cells, ?_, hr, Nat.le_succ _⟩
      simp only [gemdosMshrink, hfind, Option.bind_eq_bind, Option.bind_some, hl.node_eq, hlen,
        ↓reduceIte]
    · have ha : Allocator.gemdosMshrink block newsiz s =
          (0, ⟨before.map Prod.snd ++ { ma with len := newsiz } :: after.map Prod.snd,
            s.memAllocatableTop⟩) := by
        simp only [Allocator.gemdosMshrink, hlist, hlen, ↓reduceIte]
      rw [ha]
      refine ⟨{ h with memList := h.memList.setValue p { ma with len := newsiz } },
        before ++ (p, { ma with len := newsiz }) :: after, ?_, ⟨hl.setValue _, ?_, hr.top⟩, ?_⟩
      · simp only [gemdosMshrink, hfind, Option.bind_eq_bind, Option.bind_some, hl.node_eq, hlen,
          ↓reduceIte]
      · rw [List.map_append, List.map_cons]
      · simp [hcells]
  · have ha : Allocator.gemdosMshrink block newsiz s = (GEMDOS_EIMBA, s) := by
      simp only [Allocator.gemdosMshrink, hlist]
    rw [ha]
    refine ⟨h, cells, ?_, hr, Nat.le_succ _⟩
    simp only [gemdosMshrink, hfind, Option.bind_eq_bind, Option.bind_some]

theorem mfree_represents (block : Long) (hr : Represents h s cells) (hf : cells.length < fuel) :
    ∃ h' cells', gemdosMfree fuel block h = some ((Allocator.gemdosMfree block s).1, h') ∧
      Represents h' (Allocator.gemdosMfree block s).2 cells' ∧
      cells'.length ≤ cells.length + 1 := by
  rcases findMemArea_eq block hr hf with
    ⟨before, p, ma, after, hcells, hlist, hfind⟩ | ⟨hlist, prev, hfind⟩
  · have hl : h.memList.Layout (before ++ (p, ma) :: after) := hcells ▸ hr.layout
    have ha : Allocator.gemdosMfree block s =
        (0, ⟨before.map Prod.snd ++ after.map Prod.snd, s.memAllocatableTop⟩) := by
      simp only [Allocator.gemdosMfree, hlist]
    rw [ha]
    refine ⟨{ h with memList := (h.memList.link (lastOf before)
      (after.head?.map Prod.fst)).free p }, before ++ after, ?_, ⟨hl.remove, ?_, hr.top⟩, ?_⟩
    · simp only [gemdosMfree, hfind, Option.bind_eq_bind, Option.bind_some, hl.node_eq]
    · rw [List.map_append]
    · rw [hcells, List.length_append, List.length_append, List.length_cons]
      omega
  · have ha : Allocator.gemdosMfree block s = (GEMDOS_EIMBA, s) := by
      simp only [Allocator.gemdosMfree, hlist]
    rw [ha]
    refine ⟨h, cells, ?_, hr, Nat.le_succ _⟩
    simp only [gemdosMfree, hfind, Option.bind_eq_bind, Option.bind_some]

theorem query_represents (hr : Represents h s cells) (hf : cells.length < fuel) :
    gemdosMalloc fuel n (-1) h = some ((Allocator.gemdosMalloc (-1) s).1, h) := by
  obtain ⟨hl, hs, ht⟩ := hr
  cases cells with
  | nil =>
    obtain ⟨fuel, rfl⟩ := Nat.exists_eq_succ_of_ne_zero (by omega : fuel ≠ 0)
    have hhead : h.memList.head = none := hl.head
    simp only [gemdosMalloc, hhead, Option.bind_eq_bind, Option.bind_some, ↓reduceIte, largestLoop,
      topOf, Allocator.gemdosMalloc, ← hs, List.map_nil, ht]
  | cons cell after =>
    obtain ⟨q, prev⟩ := cell
    have hhead : h.memList.head = some q := hl.head
    have hl' : h.memList.Layout ([] ++ (q, prev) :: after) := hl
    have hnode := hl'.node_eq
    rw [List.length_cons] at hf
    obtain ⟨p, m, prevTop, hloop, htop, hw⟩ :=
      largestLoop_eq s.memAllocatableTop hl' (by omega : after.length < fuel) 0
    simp only [gemdosMalloc, hhead, hnode, Option.map_some, Option.bind_eq_bind, Option.bind_some,
      ↓reduceIte, hloop, htop, ht, hw, Allocator.gemdosMalloc, ← hs, List.map_cons]

theorem Represents.insert {before after : List (ℕ × MemArea)} (base newsiz : Long)
    (hr : Represents h s (before ++ after)) (hfresh : h.memList.node n = none) :
    Represents { h with memList := (h.memList.alloc n ⟨base, newsiz⟩
        (after.head?.map Prod.fst)).link (lastOf before) (some n) }
      { s with memList := before.map Prod.snd ++ ⟨base, newsiz⟩ :: after.map Prod.snd }
      (before ++ (n, ⟨base, newsiz⟩) :: after) :=
  ⟨hr.layout.insert hfresh _, by rw [List.map_append, List.map_cons], hr.top⟩

theorem malloc_represents {newsiz : Long} (hn : newsiz ≠ -1) (hr : Represents h s cells)
    (hf : cells.length < fuel) (hfresh : h.memList.node n = none) :
    ∃ h' cells', gemdosMalloc fuel n newsiz h =
        some ((Allocator.gemdosMalloc newsiz s).1, h') ∧
      Represents h' (Allocator.gemdosMalloc newsiz s).2 cells' ∧
      cells'.length ≤ cells.length + 1 := by
  have ht := hr.top
  cases cells with
  | nil =>
    obtain ⟨fuel, rfl⟩ := Nat.exists_eq_succ_of_ne_zero (by omega : fuel ≠ 0)
    have hhead : h.memList.head = none := hr.layout.head
    have hlist : s.memList = [] := hr.areas.symm
    have hr' : Represents h s ([] ++ []) := hr
    by_cases hroom : newsiz < s.memAllocatableTop - 0x900
    · have ha : Allocator.gemdosMalloc newsiz s =
          (0x900, { s with memList := [⟨0x900, newsiz⟩] }) := by
        simp only [Allocator.gemdosMalloc, hn, hlist, insertArea, hroom, ↓reduceIte]
      rw [ha]
      refine ⟨_, _, ?_, hr'.insert _ _ hfresh, Nat.le_refl 1⟩
      simp only [gemdosMalloc, hhead, Option.bind_eq_bind, Option.bind_some, hn, ↓reduceIte,
        gapLoop, topOf, ht, hroom, or_true]
      rfl
    · have ha : Allocator.gemdosMalloc newsiz s = (0, s) := by
        simp only [Allocator.gemdosMalloc, hn, hlist, insertArea, hroom, ↓reduceIte]
      rw [ha]
      refine ⟨h, [], ?_, hr, Nat.le_succ _⟩
      simp only [gemdosMalloc, hhead, Option.bind_eq_bind, Option.bind_some, hn, ↓reduceIte,
        gapLoop, topOf, ht, hroom, or_false, Option.isSome_none, Bool.false_eq_true]
  | cons cell after =>
    obtain ⟨q, prev⟩ := cell
    have hhead : h.memList.head = some q := hr.layout.head
    have hl : h.memList.Layout ([] ++ (q, prev) :: after) := hr.layout
    have hnode := hl.node_eq
    have hlist : s.memList = prev :: after.map Prod.snd := hr.areas.symm
    rw [List.length_cons] at hf
    obtain ⟨mid, p, ma, rest, hsplit, hloop, hins⟩ := gapLoop_eq newsiz
      s.memAllocatableTop hl (by omega : after.length < fuel)
    rw [hsplit] at hr ⊢
    have htop : topOf h.memList (some p) = some ma.top := by rw [topOf, hr.layout.node_eq]; rfl
    by_cases hroom : (rest.head?.map Prod.fst).isSome ∨ newsiz < s.memAllocatableTop - ma.top
    · rw [if_pos hroom] at hins
      have ha : Allocator.gemdosMalloc newsiz s =
          (ma.top, ⟨mid.map Prod.snd ++ ma :: ⟨ma.top, newsiz⟩ :: rest.map Prod.snd,
            s.memAllocatableTop⟩) := by
        simp only [Allocator.gemdosMalloc, hn, ↓reduceIte, hlist, insertArea, hins]
      have hr' : Represents h s ((mid ++ [(p, ma)]) ++ rest) := by simpa using hr
      have hnew := hr'.insert ma.top newsiz hfresh
      have hlast : lastOf (mid ++ [(p, ma)]) = some p := by simp [lastOf]
      rw [hlast, List.map_append, List.append_assoc] at hnew
      rw [ha]
      refine ⟨_, _, ?_, hnew, by simp; omega⟩
      simp only [gemdosMalloc, hhead, hnode, Option.map_some, Option.bind_eq_bind,
        Option.bind_some, hn, ↓reduceIte, hloop, htop, ht, hroom]
    · rw [if_neg hroom] at hins
      have ha : Allocator.gemdosMalloc newsiz s = (0, s) := by
        simp only [Allocator.gemdosMalloc, hn, ↓reduceIte, hlist, insertArea, hins]
      rw [ha]
      refine ⟨h, _, ?_, hr, Nat.le_succ _⟩
      simp only [gemdosMalloc, hhead, hnode, Option.map_some, Option.bind_eq_bind,
        Option.bind_some, hn, ↓reduceIte, hloop, htop, ht, hroom]

theorem cellStep_represents (call : MemCall) (hr : Represents h s cells) (hf : cells.length < fuel)
    (hfresh : h.memList.node n = none) :
    ∃ h' cells', cellStep fuel h (call, n) = some ((memStep s call).1, h') ∧
      Represents h' (memStep s call).2 cells' ∧ cells'.length ≤ cells.length + 1 := by
  cases call with
  | malloc newsiz =>
    by_cases hn : newsiz = -1
    · subst hn
      refine ⟨h, cells, query_represents hr hf, ?_, Nat.le_succ _⟩
      rw [memStep, gemdosMalloc_query rfl]
      exact hr
    · exact malloc_represents hn hr hf hfresh
  | mfree block => exact mfree_represents block hr hf
  | mshrink block newsiz => exact mshrink_represents block newsiz hr hf

end Calls

theorem memFree_empty {c : Areas} {cells : List (ℕ × MemArea)} (h : c.Layout cells) {fuel : ℕ}
    (hf : cells.length < fuel) : gemdosMemFree fuel c = some Chain.empty := by
  induction cells generalizing c fuel with
  | nil =>
    obtain ⟨fuel, rfl⟩ := Nat.exists_eq_succ_of_ne_zero (by omega : fuel ≠ 0)
    rw [h.nil]
    rfl
  | cons cell after ih =>
    obtain ⟨p, ma⟩ := cell
    rw [List.length_cons] at hf
    obtain ⟨fuel, rfl⟩ := Nat.exists_eq_succ_of_ne_zero (by omega : fuel ≠ 0)
    have hhead : c.head = some p := h.head
    have h' : c.Layout ([] ++ (p, ma) :: after) := h
    have hnode := h'.node_eq
    have hrest := h'.remove
    have hfree := ih hrest (by omega : after.length < fuel)
    simp only [gemdosMemFree, hhead, hnode, Option.bind_eq_bind, Option.bind_some]
    exact hfree

def runCells (fuel : ℕ) (h : Heap) : List (MemCall × ℕ) → Option (List Long × Heap)
  | [] => some ([], h)
  | a :: calls => do
    let r ← cellStep fuel h a
    let rs ← runCells fuel r.2 calls
    some (r.1 :: rs.1, rs.2)

def Fresh (fuel : ℕ) (h : Heap) : List (MemCall × ℕ) → Prop
  | [] => True
  | a :: calls => h.memList.node a.2 = none ∧
    match cellStep fuel h a with
    | none => True
    | some r => Fresh fuel r.2 calls

theorem runCells_represents {h : Heap} {s : MemState} {cells : List (ℕ × MemArea)} {fuel : ℕ}
    (hr : Represents h s cells) (calls : List (MemCall × ℕ))
    (hf : cells.length + calls.length < fuel) (hfresh : Fresh fuel h calls) :
    ∃ h' cells', runCells fuel h calls = some (results memStep s (calls.map Prod.fst), h') ∧
      Represents h' (run memStep s (calls.map Prod.fst)) cells' ∧ cells'.length < fuel := by
  induction calls generalizing h s cells with
  | nil => exact ⟨h, cells, rfl, hr, hf⟩
  | cons a calls ih =>
    obtain ⟨call, n⟩ := a
    rw [List.length_cons] at hf
    obtain ⟨hn, hrest⟩ := hfresh
    obtain ⟨h₁, cells₁, hstep, hr₁, hlen⟩ :=
      cellStep_represents call hr (by omega : cells.length < fuel) hn
    rw [hstep] at hrest
    obtain ⟨h₂, cells₂, hrun, hr₂, hlen₂⟩ := ih hr₁ (by omega) hrest
    refine ⟨h₂, cells₂, ?_, hr₂, hlen₂⟩
    simp only [runCells, hstep, Option.bind_eq_bind, Option.bind_some, hrun, List.map_cons, results]

theorem cells_run_as_list (size : BitVec 64) (ma : ℕ) (calls : List (MemCall × ℕ)) {fuel : ℕ}
    (hf : calls.length + 1 < fuel) (hfresh : Fresh fuel (gemdosMemInit ma size) calls) :
    ∃ h cells, runCells fuel (gemdosMemInit ma size) calls =
        some (results memStep (Allocator.gemdosMemInit size) (calls.map Prod.fst), h) ∧
      Represents h (run memStep (Allocator.gemdosMemInit size) (calls.map Prod.fst)) cells ∧
      gemdosMemFree fuel h.memList = some Chain.empty := by
  have hstart : Represents (gemdosMemInit ma size) (Allocator.gemdosMemInit size)
      [(ma, ⟨0x800, (size + 0x100).setWidth 32⟩)] := by
    have hempty : (Chain.empty : Areas).Layout ([] ++ []) := Chain.Layout.empty
    have hins := hempty.insert (n := ma) rfl (MemArea.mk 0x800 ((size + 0x100).setWidth 32))
    exact ⟨hins, rfl, rfl⟩
  obtain ⟨h, cells, hrun, hr, hlen⟩ := runCells_represents hstart calls
    (by rw [List.length_singleton]; omega) hfresh
  exact ⟨h, cells, hrun, hr, memFree_empty hr.layout hlen⟩

def fourCalls : List (MemCall × ℕ) :=
  [(.mshrink 0x800 0x1000, 7), (.malloc 0x20, 1), (.mfree 0x800, 7), (.malloc 0x10, 0)]

theorem cells_run_as_list_four_calls : Fresh 9 (gemdosMemInit 0 tosSize) fourCalls ∧
    ∃ h, runCells 9 (gemdosMemInit 0 tosSize) fourCalls =
      some (results memStep (Allocator.gemdosMemInit tosSize) (fourCalls.map Prod.fst), h) := by
  have hfresh : Fresh 9 (gemdosMemInit 0 tosSize) fourCalls := ⟨rfl, rfl, rfl, rfl, trivial⟩
  obtain ⟨h, -, hrun, -⟩ := cells_run_as_list tosSize 0 fourCalls (by decide : _ < 9) hfresh
  exact ⟨hfresh, h, hrun⟩

end Tosemu.AllocatorCells
