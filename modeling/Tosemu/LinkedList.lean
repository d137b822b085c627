import Mathlib.Data.List.Nodup
import Mathlib.Logic.Function.Basic

namespace Tosemu.LinkedList

variable {P α : Type}

structure Node (P α : Type) where
  value : α
  next : Option P

structure Chain (P α : Type) where
  node : P → Option (Node P α)
  head : Option P

def Linked (node : P → Option (Node P α)) : Option P → List (P × α) → Prop
  | p, [] => p = none
  | p, (q, value) :: rest =>
    p = some q ∧ ∃ next, node q = some ⟨value, next⟩ ∧ Linked node next rest

def Chain.empty : Chain P α := ⟨fun _ => none, none⟩

def Chain.Holds (c : Chain P α) (values : List α) : Prop :=
  ∃ cells : List (P × α), Linked c.node c.head cells ∧ (cells.map Prod.fst).Nodup ∧
    cells.map Prod.snd = values

theorem Linked.allocated {node : P → Option (Node P α)} {p : Option P} {cells : List (P × α)}
    (h : Linked node p cells) : ∀ q ∈ cells.map Prod.fst, (node q).isSome := by
  induction cells generalizing p with
  | nil => simp
  | cons cell rest ih =>
    obtain ⟨-, next, hn, hrest⟩ := h
    intro q hq
    rcases List.mem_cons.mp hq with rfl | hq
    · rw [hn, Option.isSome_some]
    · exact ih hrest q hq

namespace Chain.Holds

variable {c : Chain P α} {value : α} {values : List α}

theorem empty : (Chain.empty : Chain P α).Holds [] := ⟨[], rfl, List.nodup_nil, rfl⟩

theorem head_nil (h : c.Holds []) : c.head = none := by
  obtain ⟨cells, hl, -, hv⟩ := h
  rw [List.map_eq_nil_iff] at hv
  subst hv
  exact hl

theorem head_cons (h : c.Holds (value :: values)) :
    ∃ p next rest, c.head = some p ∧ c.node p = some ⟨value, next⟩ ∧ Linked c.node next rest ∧
      p ∉ rest.map Prod.fst ∧ (rest.map Prod.fst).Nodup ∧ rest.map Prod.snd = values := by
  obtain ⟨cells, hl, hnd, hv⟩ := h
  cases cells with
  | nil => exact absurd hv (by simp)
  | cons cell rest =>
    obtain ⟨p, v⟩ := cell
    obtain ⟨hh, next, hn, hrest⟩ := hl
    obtain ⟨rfl, rfl⟩ := List.cons.inj hv
    obtain ⟨hp, hnd'⟩ := List.nodup_cons.mp hnd
    exact ⟨p, next, rest, hh, hn, hrest, hp, hnd', rfl⟩

theorem tail (h : c.Holds (value :: values)) :
    ∃ p next, c.head = some p ∧ c.node p = some ⟨value, next⟩ ∧
      { c with head := next }.Holds values := by
  obtain ⟨p, next, rest, hh, hn, hrest, -, hnd, hv⟩ := h.head_cons
  exact ⟨p, next, hh, hn, rest, hrest, hnd, hv⟩

end Chain.Holds

section Update

variable [DecidableEq P]

def Chain.push (p : P) (value : α) (c : Chain P α) : Chain P α :=
  ⟨Function.update c.node p (some ⟨value, c.head⟩), some p⟩

def Chain.setNext (p : P) (next : Option P) (c : Chain P α) : Chain P α :=
  { c with node := Function.update c.node p ((c.node p).map (fun n => { n with next := next })) }

def Chain.free (p : P) (c : Chain P α) : Chain P α :=
  { c with node := Function.update c.node p none }

theorem Linked.update {node : P → Option (Node P α)} {p : Option P} {cells : List (P × α)}
    (h : Linked node p cells) {q : P} (hq : q ∉ cells.map Prod.fst) (n : Option (Node P α)) :
    Linked (Function.update node q n) p cells := by
  induction cells generalizing p with
  | nil => exact h
  | cons cell rest ih =>
    obtain ⟨hp, next, hn, hrest⟩ := h
    rw [List.map_cons, List.mem_cons, not_or] at hq
    refine ⟨hp, next, ?_, ih hrest hq.2⟩
    rw [Function.update_of_ne (Ne.symm hq.1), hn]

theorem Chain.Holds.push {c : Chain P α} {values : List α} (h : c.Holds values) {p : P}
    (hp : c.node p = none) (value : α) : (c.push p value).Holds (value :: values) := by
  obtain ⟨cells, hl, hnd, hv⟩ := h
  have hfresh : p ∉ cells.map Prod.fst := by
    intro hmem
    have hs := hl.allocated p hmem
    rw [hp] at hs
    exact Bool.false_ne_true hs
  refine ⟨(p, value) :: cells, ⟨rfl, c.head, ?_, hl.update hfresh _⟩, ?_, ?_⟩
  · exact Function.update_self _ _ _
  · exact List.nodup_cons.mpr ⟨hfresh, hnd⟩
  · rw [List.map_cons, hv]

theorem Chain.Holds.pop {c : Chain P α} {value : α} {values : List α}
    (h : c.Holds (value :: values)) :
    ∃ p next, c.head = some p ∧ c.node p = some ⟨value, next⟩ ∧
      ({ c with head := next }.free p).Holds values := by
  obtain ⟨p, next, rest, hh, hn, hrest, hp, hnd, hv⟩ := h.head_cons
  exact ⟨p, next, hh, hn, rest, hrest.update hp none, hnd, hv⟩

end Update

section Layout

def Segment (node : P → Option (Node P α)) : Option P → List (P × α) → Option P → Prop
  | p, [], q => p = q
  | p, (r, value) :: rest, q =>
    p = some r ∧ ∃ next, node r = some ⟨value, next⟩ ∧ Segment node next rest q

structure Chain.Layout (c : Chain P α) (cells : List (P × α)) : Prop where
  linked : Linked c.node c.head cells
  nodup : (cells.map Prod.fst).Nodup
  allocated : ∀ p, (c.node p).isSome → p ∈ cells.map Prod.fst

variable {node : P → Option (Node P α)} {c : Chain P α} {before after cells : List (P × α)}
  {p q : Option P} {r : P} {value : α}

theorem linked_append : Linked node p (before ++ after) ↔
    ∃ q, Segment node p before q ∧ Linked node q after := by
  induction before generalizing p with
  | nil => simp [Segment]
  | cons cell before ih =>
    simp only [List.cons_append, Linked, Segment, ih]
    constructor
    · rintro ⟨hp, next, hn, q, hs, hl⟩
      exact ⟨q, ⟨hp, next, hn, hs⟩, hl⟩
    · rintro ⟨q, ⟨hp, next, hn, hs⟩, hl⟩
      exact ⟨hp, next, hn, q, hs, hl⟩

theorem Segment.update [DecidableEq P] (h : Segment node p cells q)
    (hr : r ∉ cells.map Prod.fst) (n : Option (Node P α)) :
    Segment (Function.update node r n) p cells q := by
  induction cells generalizing p with
  | nil => exact h
  | cons cell rest ih =>
    obtain ⟨hp, next, hn, hrest⟩ := h
    rw [List.map_cons, List.mem_cons, not_or] at hr
    refine ⟨hp, next, ?_, ih hrest hr.2⟩
    rw [Function.update_of_ne (Ne.symm hr.1), hn]

theorem Linked.head? (h : Linked node p cells) : p = cells.head?.map Prod.fst := by
  cases cells with
  | nil => exact h
  | cons cell rest => exact h.1

theorem Linked.node_eq (h : Linked node p (before ++ (r, value) :: after)) :
    node r = some ⟨value, after.head?.map Prod.fst⟩ := by
  obtain ⟨q, -, -, next, hn, hl⟩ := linked_append.mp h
  rw [hn, hl.head?]

namespace Chain.Layout

theorem empty : (Chain.empty : Chain P α).Layout [] :=
  ⟨rfl, List.nodup_nil, fun _ h => absurd h Bool.false_ne_true⟩

theorem nil (h : c.Layout []) : c = Chain.empty := by
  obtain ⟨node, head⟩ := c
  have hn : ∀ p, node p = none := by
    intro p
    by_contra hp
    exact List.not_mem_nil (h.allocated p (Option.isSome_iff_ne_none.mpr hp))
  obtain rfl : head = none := h.linked
  obtain rfl : node = fun _ => none := funext hn
  rfl

theorem head (h : c.Layout cells) : c.head = cells.head?.map Prod.fst := h.linked.head?

theorem node_eq (h : c.Layout (before ++ (r, value) :: after)) :
    c.node r = some ⟨value, after.head?.map Prod.fst⟩ := h.linked.node_eq

theorem fresh (h : c.Layout cells) (hr : c.node r = none) : r ∉ cells.map Prod.fst := by
  intro hmem
  have hs := h.linked.allocated r hmem
  rw [hr] at hs
  exact Bool.false_ne_true hs

theorem parts (h : c.Layout (before ++ (r, value) :: after)) :
    r ∉ before.map Prod.fst ∧ r ∉ after.map Prod.fst ∧
      ((before ++ after).map Prod.fst).Nodup := by
  have hn := h.nodup
  rw [List.map_append, List.map_cons, List.nodup_middle, List.nodup_cons, List.mem_append,
    not_or] at hn
  exact ⟨hn.1.1, hn.1.2, by rw [List.map_append]; exact hn.2⟩

end Chain.Layout

variable [DecidableEq P]

def Chain.setValue (p : P) (value : α) (c : Chain P α) : Chain P α :=
  { c with node := Function.update c.node p ((c.node p).map (fun n => { n with value := value })) }

def Chain.link (prev : Option P) (next : Option P) (c : Chain P α) : Chain P α :=
  match prev with
  | some q => c.setNext q next
  | none => { c with head := next }

def Chain.alloc (p : P) (value : α) (next : Option P) (c : Chain P α) : Chain P α :=
  { c with node := Function.update c.node p (some ⟨value, next⟩) }

def lastOf (before : List (P × α)) : Option P := before.getLast?.map Prod.fst

namespace Chain.Layout

theorem setValue (h : c.Layout (before ++ (r, value) :: after)) (value' : α) :
    (c.setValue r value').Layout (before ++ (r, value') :: after) := by
  obtain ⟨hb, ha, -⟩ := h.parts
  obtain ⟨q, hs, rfl, next, hn, hl⟩ := linked_append.mp h.linked
  refine ⟨?_, ?_, ?_⟩
  · apply linked_append.mpr
    refine ⟨some r, hs.update hb _, rfl, next, ?_, hl.update ha _⟩
    rw [show (c.setValue r value').node r = _ from Function.update_self _ _ _, hn, Option.map_some]
  · simpa using h.nodup
  · intro p hp
    have hal := h.allocated p
    by_cases hpr : p = r
    · subst hpr
      simp
    · simp only [Chain.setValue, Function.update_of_ne hpr] at hp
      simpa using hal hp

theorem link (hs : Segment c.node c.head before p) (hb : (before.map Prod.fst).Nodup)
    (hd : ∀ x ∈ before.map Prod.fst, x ∉ after.map Prod.fst) (hl : Linked c.node q after) :
    Linked (c.link (lastOf before) q).node (c.link (lastOf before) q).head (before ++ after) := by
  rcases List.eq_nil_or_concat' before with rfl | ⟨front, ⟨r, value⟩, rfl⟩
  · exact hl
  · have hlast : lastOf (front ++ [(r, value)]) = some r := by simp [lastOf]
    rw [hlast]
    obtain ⟨hfront, hr⟩ : (front.map Prod.fst).Nodup ∧ r ∉ front.map Prod.fst := by
      rw [List.map_append, List.nodup_append] at hb
      exact ⟨hb.1, fun hmem => hb.2.2 r hmem r (by simp) rfl⟩
    have hra : r ∉ after.map Prod.fst := hd r (by simp)
    have hmid : ∀ front' : List (P × α), ∀ p', r ∉ front'.map Prod.fst →
        Segment c.node p' (front' ++ [(r, value)]) p →
        Linked (Function.update c.node r ((c.node r).map (fun n => { n with next := q }))) p'
          (front' ++ (r, value) :: after) := by
      intro front'
      induction front' with
      | nil =>
        rintro p' - ⟨rfl, next, hn, -⟩
        refine ⟨rfl, q, ?_, hl.update hra _⟩
        rw [Function.update_self, hn, Option.map_some]
      | cons cell front' ih =>
        rintro p' hr' ⟨hp', next, hn, hrest⟩
        rw [List.map_cons, List.mem_cons, not_or] at hr'
        refine ⟨hp', next, ?_, ih next hr'.2 hrest⟩
        rw [Function.update_of_ne (Ne.symm hr'.1), hn]
    rw [List.append_assoc, List.singleton_append]
    exact hmid front c.head hr hs

theorem remove (h : c.Layout (before ++ (r, value) :: after)) :
    ((c.link (lastOf before) (after.head?.map Prod.fst)).free r).Layout (before ++ after) := by
  obtain ⟨hb, ha, hnd⟩ := h.parts
  obtain ⟨q, hs, -, next, -, hl⟩ := linked_append.mp h.linked
  have hsplit := hnd
  rw [List.map_append, List.nodup_append] at hsplit
  have hlink := link hs hsplit.1 (fun x hx hx' => hsplit.2.2 x hx x hx' rfl) (hl.head? ▸ hl)
  refine ⟨?_, hnd, ?_⟩
  · apply Linked.update hlink
    rw [List.map_append, List.mem_append, not_or]
    exact ⟨hb, ha⟩
  · intro p hp
    by_cases hpr : p = r
    · subst hpr
      simp [Chain.free] at hp
    · have hp' : (c.node p).isSome := by
        simp only [Chain.free, Function.update_of_ne hpr] at hp
        cases hlast : lastOf before with
        | none =>
          rw [hlast] at hp
          exact hp
        | some q =>
          rw [hlast] at hp
          by_cases hpq : p = q
          · subst hpq
            simpa [Chain.link, Chain.setNext] using hp
          · simpa only [Chain.link, Chain.setNext, Function.update_of_ne hpq] using hp
      have hal := h.allocated p hp'
      rw [List.map_append, List.map_cons, List.mem_append, List.mem_cons] at hal
      rw [List.map_append, List.mem_append]
      rcases hal with hal | rfl | hal
      · exact Or.inl hal
      · exact absurd rfl hpr
      · exact Or.inr hal

theorem insert (h : c.Layout (before ++ after)) {n : P} (hn : c.node n = none) (value : α) :
    ((c.alloc n value (after.head?.map Prod.fst)).link (lastOf before) (some n)).Layout
      (before ++ (n, value) :: after) := by
  obtain ⟨q, hs, hl⟩ := linked_append.mp h.linked
  have hfresh := h.fresh hn
  rw [List.map_append, List.mem_append, not_or] at hfresh
  have hnd := h.nodup
  rw [List.map_append, List.nodup_append] at hnd
  have hall : Linked (c.alloc n value (after.head?.map Prod.fst)).node (some n)
      ((n, value) :: after) := by
    refine ⟨rfl, _, Function.update_self _ _ _, ?_⟩
    rw [← hl.head?]
    exact hl.update hfresh.2 _
  refine ⟨?_, ?_, ?_⟩
  · apply link (c := c.alloc n value (after.head?.map Prod.fst)) (hs.update hfresh.1 _) hnd.1 _ hall
    intro x hx hmem
    rcases List.mem_cons.mp hmem with rfl | hmem
    · exact hfresh.1 hx
    · exact hnd.2.2 x hx x hmem rfl
  · rw [List.map_append, List.map_cons, List.nodup_middle, List.nodup_cons]
    refine ⟨?_, by rw [← List.map_append]; exact h.nodup⟩
    rw [List.mem_append, not_or]
    exact hfresh
  · intro p hp
    by_cases hpn : p = n
    · subst hpn
      simp
    · have hp' : (c.node p).isSome := by
        cases hlast : lastOf before with
        | none =>
          rw [hlast] at hp
          simpa only [Chain.link, Chain.alloc, Function.update_of_ne hpn] using hp
        | some q =>
          rw [hlast] at hp
          by_cases hpq : p = q
          · subst hpq
            simpa [Chain.link, Chain.setNext, Chain.alloc, Function.update_of_ne hpn] using hp
          · simpa only [Chain.link, Chain.setNext, Chain.alloc, Function.update_of_ne hpq,
              Function.update_of_ne hpn] using hp
      have hal := h.allocated p hp'
      rw [List.map_append, List.mem_append] at hal
      rw [List.map_append, List.map_cons, List.mem_append, List.mem_cons]
      rcases hal with hal | hal
      · exact Or.inl hal
      · exact Or.inr (Or.inr hal)

end Chain.Layout

end Layout

end Tosemu.LinkedList
