import Tosemu.Basic

namespace Tosemu.Allocator

structure MemArea where
  base : Long
  len : Long
deriving DecidableEq, Repr

/-- The two globals of `gemdosmem.c`. The linked list is kept head first. -/
structure MemState where
  memList : List MemArea
  memAllocatableTop : Long
deriving DecidableEq, Repr

def MemArea.top (ma : MemArea) : Long := ma.base + ma.len

/-- The first area of that base, between the areas before it and the areas after it. The C function
hands out the last of the areas before it as `*prevptr`. -/
def findMemArea (base : Long) : List MemArea → Option (List MemArea × MemArea × List MemArea)
  | [] => none
  | ptr :: next =>
    if ptr.base = base then some ([], ptr, next)
    else (findMemArea base next).map (fun r => (ptr :: r.1, r.2))

def gemdosMshrink (block newsiz : Long) (s : MemState) : Long × MemState :=
  match findMemArea block s.memList with
  | none => (GEMDOS_EIMBA, s)
  | some (before, ma, after) =>
    if ma.len < newsiz then (GEMDOS_EGSBF, s)
    else (0, { s with memList := before ++ { ma with len := newsiz } :: after })

def widen (maxFree gap : Long) : Long := if maxFree < gap then gap else maxFree

def largestGap (memTop : Long) (prev : MemArea) : List MemArea → Long → Long
  | [], maxFree => widen maxFree (memTop - prev.top)
  | ptr :: next, maxFree => largestGap memTop ptr next (widen maxFree (ptr.base - prev.top))

/-- The walk of `Malloc(newsiz)`: the new base and the list from `prev` on, with the new area in the
first gap that is larger than `newsiz`. The sizes are compared unsigned, because the `int32_t`
operand is converted. -/
def insertBehind (memTop newsiz : Long) (prev : MemArea) :
    List MemArea → Option (Long × List MemArea)
  | [] =>
    if newsiz < memTop - prev.top then some (prev.top, [prev, ⟨prev.top, newsiz⟩]) else none
  | ptr :: next =>
    if newsiz < ptr.base - prev.top then
      some (prev.top, prev :: ⟨prev.top, newsiz⟩ :: ptr :: next)
    else (insertBehind memTop newsiz ptr next).map (fun r => (r.1, prev :: r.2))

def insertArea (memTop newsiz : Long) : List MemArea → Option (Long × List MemArea)
  | [] => if newsiz < memTop - 0x900 then some (0x900, [⟨0x900, newsiz⟩]) else none
  | prev :: next => insertBehind memTop newsiz prev next

def gemdosMalloc (newsiz : Long) (s : MemState) : Long × MemState :=
  if newsiz = -1 then
    match s.memList with
    | [] => (widen 0 (s.memAllocatableTop - 0x900), s)
    | prev :: next => (largestGap s.memAllocatableTop prev next 0, s)
  else
    match insertArea s.memAllocatableTop newsiz s.memList with
    | none => (0, s)
    | some (base, memList) => (base, { s with memList := memList })

def gemdosMfree (block : Long) (s : MemState) : Long × MemState :=
  match findMemArea block s.memList with
  | none => (GEMDOS_EIMBA, s)
  | some (before, _, after) => (0, { s with memList := before ++ after })

def gemdosMemInit (size : BitVec 64) : MemState :=
  let len := (size + 0x100).setWidth 32
  { memList := [⟨0x800, len⟩], memAllocatableTop := len }

inductive MemCall
  | malloc (newsiz : Long)
  | mfree (block : Long)
  | mshrink (block newsiz : Long)
deriving DecidableEq, Repr

def memStep (s : MemState) : MemCall → Long × MemState
  | .malloc newsiz => gemdosMalloc newsiz s
  | .mfree block => gemdosMfree block s
  | .mshrink block newsiz => gemdosMshrink block newsiz s

theorem findMemArea_some {base : Long} {l : List MemArea} {r : List MemArea × MemArea × List MemArea}
    (h : findMemArea base l = some r) : l = r.1 ++ r.2.1 :: r.2.2 ∧ r.2.1.base = base := by
  induction l generalizing r with
  | nil => simp [findMemArea] at h
  | cons ptr next ih =>
    simp only [findMemArea] at h
    split_ifs at h with hb
    · obtain rfl := Option.some.inj h
      exact ⟨rfl, hb⟩
    · obtain ⟨q, hq, rfl⟩ := Option.map_eq_some_iff.mp h
      obtain ⟨hl, hbase⟩ := ih hq
      exact ⟨by rw [hl]; rfl, hbase⟩

theorem gemdosMalloc_query {newsiz : Long} (hn : newsiz = -1) (s : MemState) :
    (gemdosMalloc newsiz s).2 = s := by
  unfold gemdosMalloc
  rw [if_pos hn]
  split <;> rfl

def gapLimit (memTop : Long) (after : List MemArea) : Long :=
  (after.head?.map MemArea.base).getD memTop

def gapsBehind (memTop : Long) (prev : MemArea) : List MemArea → List (Long × Long)
  | [] => [(prev.top, memTop - prev.top)]
  | ptr :: next => (prev.top, ptr.base - prev.top) :: gapsBehind memTop ptr next

def MemState.gaps (s : MemState) : List (Long × Long) :=
  match s.memList with
  | [] => [(0x900, s.memAllocatableTop - 0x900)]
  | prev :: next => gapsBehind s.memAllocatableTop prev next

def MemState.taken (s : MemState) (newsiz : Long) : Option (Long × Long) :=
  s.gaps.find? (fun g => newsiz < g.2)

theorem insertBehind_some {memTop newsiz : Long} {prev : MemArea} {next : List MemArea}
    {r : Long × List MemArea} (h : insertBehind memTop newsiz prev next = some r) :
    ∃ before ma after, prev :: next = before ++ ma :: after ∧ r.1 = ma.top ∧
      r.2 = before ++ ma :: ⟨ma.top, newsiz⟩ :: after ∧ newsiz < gapLimit memTop after - ma.top ∧
      (gapsBehind memTop prev next).find? (fun g => newsiz < g.2) =
        some (ma.top, gapLimit memTop after - ma.top) := by
  induction next generalizing prev r with
  | nil =>
    simp only [insertBehind] at h
    split_ifs at h with hn
    obtain rfl := Option.some.inj h
    refine ⟨[], prev, [], rfl, rfl, rfl, hn, ?_⟩
    rw [gapsBehind, List.find?_cons_of_pos (by simpa using hn)]
    rfl
  | cons ptr next ih =>
    simp only [insertBehind] at h
    split_ifs at h with hn
    · obtain rfl := Option.some.inj h
      refine ⟨[], prev, ptr :: next, rfl, rfl, rfl, hn, ?_⟩
      rw [gapsBehind, List.find?_cons_of_pos (by simpa using hn)]
      rfl
    · obtain ⟨q, hq, rfl⟩ := Option.map_eq_some_iff.mp h
      obtain ⟨before, ma, after, hl, hb, hr, hlt, hfind⟩ := ih hq
      refine ⟨prev :: before, ma, after, by rw [hl]; rfl, hb, by rw [hr]; rfl, hlt, ?_⟩
      rw [gapsBehind, List.find?_cons_of_neg (by simpa using hn)]
      exact hfind

end Tosemu.Allocator
