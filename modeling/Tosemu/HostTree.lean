import Mathlib.Data.List.Basic
import Mathlib.Logic.Function.Basic
import Tosemu.Machine

/-!
The host's directory tree, without symbolic links. A position is the canonical path of an object,
as the names on the way from the root. Nothing is refused for want of permission or space. A name has
at most `NAME_MAX` bytes. The functions on a tree take paths of any length; the calls that hand them
one hold it to `PATH_MAX`.
-/

namespace Tosemu.Host

abbrev Name := List Byte
abbrev Position := List Name

def slash : Byte := 0x2f
def dot : Name := [0x2e]
def dotdot : Name := [0x2e, 0x2e]

def NAME_MAX : ℕ := 255

/-- The zero at the end counts. -/
def PATH_MAX : ℕ := 4096

structure Ordinary (n : Name) : Prop where
  nonempty : n ≠ []
  notDot : n ≠ dot
  notDotdot : n ≠ dotdot
  noSlash : slash ∉ n
  short : n.length ≤ NAME_MAX

theorem ordinary_iff {n : Name} :
    Ordinary n ↔ n ≠ [] ∧ n ≠ dot ∧ n ≠ dotdot ∧ slash ∉ n ∧ n.length ≤ NAME_MAX :=
  ⟨fun h => ⟨h.1, h.2, h.3, h.4, h.5⟩, fun h => ⟨h.1, h.2.1, h.2.2.1, h.2.2.2.1, h.2.2.2.2⟩⟩

instance (n : Name) : Decidable (Ordinary n) := decidable_of_iff' _ ordinary_iff

inductive Kind
  | dir
  | file
deriving DecidableEq, Repr

structure HostTree where
  kind : Position → Option Kind
  entries : Position → List Name
  root : kind [] = some .dir
  parent : ∀ p n, (kind (p ++ [n])).isSome = true → kind p = some .dir
  ordinary : ∀ p n, (kind (p ++ [n])).isSome = true → Ordinary n
  mem_entries : ∀ p n, n ∈ entries p ↔ (kind (p ++ [n])).isSome = true

namespace HostTree

def empty : HostTree where
  kind p := if p = [] then some .dir else none
  entries _ := []
  root := rfl
  parent := by simp
  ordinary := by simp
  mem_entries := by simp

theorem concat_eq_iff (p q : Position) (n c : Name) : p ++ [n] = q ++ [c] ↔ p = q ∧ n = c := by
  simp

def add (t : HostTree) (p : Position) (c : Name) (k : Kind) (hdir : t.kind p = some .dir)
    (hnone : t.kind (p ++ [c]) = none) (hc : Ordinary c) : HostTree where
  kind := Function.update t.kind (p ++ [c]) (some k)
  entries := Function.update t.entries p (c :: t.entries p)
  root := by
    rw [Function.update_of_ne (by simp)]
    exact t.root
  parent q n hq := by
    have hold : t.kind q = some .dir := by
      by_cases he : q ++ [n] = p ++ [c]
      · rw [((concat_eq_iff q p n c).mp he).1]
        exact hdir
      · rw [Function.update_of_ne he] at hq
        exact t.parent q n hq
    rw [Function.update_of_ne, hold]
    rintro rfl
    rw [hnone] at hold
    simp at hold
  ordinary q n hq := by
    by_cases he : q ++ [n] = p ++ [c]
    · rw [((concat_eq_iff q p n c).mp he).2]
      exact hc
    · rw [Function.update_of_ne he] at hq
      exact t.ordinary q n hq
  mem_entries q n := by
    by_cases hq : q = p
    · subst hq
      by_cases hn : n = c
      · simp [hn]
      · simp [hn, t.mem_entries]
    · rw [Function.update_of_ne hq, Function.update_of_ne (by simp [hq]), t.mem_entries]

def remove (t : HostTree) (p : Position) (hfile : t.kind p = some .file) : HostTree where
  kind := Function.update t.kind p none
  entries q := (t.entries q).filter (fun n => q ++ [n] ≠ p)
  root := by
    rw [Function.update_of_ne, t.root]
    rintro rfl
    rw [t.root] at hfile
    simp at hfile
  parent q n hq := by
    have hold : t.kind q = some .dir := by
      by_cases he : q ++ [n] = p
      · simp [he] at hq
      · rw [Function.update_of_ne he] at hq
        exact t.parent q n hq
    rw [Function.update_of_ne, hold]
    rintro rfl
    rw [hfile] at hold
    simp at hold
  ordinary q n hq := by
    by_cases he : q ++ [n] = p
    · simp [he] at hq
    · rw [Function.update_of_ne he] at hq
      exact t.ordinary q n hq
  mem_entries q n := by
    by_cases he : q ++ [n] = p
    · simp [he]
    · simp [he, t.mem_entries]

def enter (t : HostTree) (p : Position) (c : Name) : Option Position :=
  if t.kind p ≠ some .dir then none
  else if c = dot then some p
  else if c = dotdot then some p.dropLast
  else if (t.kind (p ++ [c])).isSome then some (p ++ [c])
  else none

def walk (t : HostTree) (p : Position) : List Name → Option Position
  | [] => some p
  | c :: cs => (t.enter p c).bind (fun q => t.walk q cs)

/-- What `realpath` writes to its buffer: the object, or the path up to the first missing component.
Nothing is written for a file that is used as a directory, and for a name that is too long. -/
def realpathFrom (t : HostTree) (p : Position) : List Name → Option Position
  | [] => some p
  | c :: cs =>
    match t.enter p c with
    | some q => t.realpathFrom q cs
    | none => if t.kind p = some .dir ∧ c.length ≤ NAME_MAX then some (p ++ [c]) else none

end HostTree

def segments (s : List Byte) : List Name := s.splitOn slash

def names (segs : List Name) : List Name := segs.filter (fun n => n ≠ [])

/-- A slash at the end asks for a directory. -/
def components (s : List Byte) : List Name :=
  names (segments s) ++ (if (segments s).getLast? = some [] then [dot] else [])

def pathText (p : Position) : List Byte := if p = [] then [slash] else p.flatMap (fun n => slash :: n)

namespace HostTree

def resolve (t : HostTree) (s : List Byte) : Option Position := t.walk [] (components s)

def realpath (t : HostTree) (s : List Byte) : Option Position :=
  (t.realpathFrom [] (components s)).filter (fun p => (pathText p).length < PATH_MAX)

/-- The text in a buffer that was zeroed before `realpath`. -/
def realpathText (t : HostTree) (s : List Byte) : List Byte := (t.realpath s).elim [] pathText

def make (t : HostTree) (k : Kind) (cs : List Name) : Option (Position × HostTree) :=
  match t.walk [] cs.dropLast, cs.getLast? with
  | some p, some c =>
    if h : t.kind p = some .dir ∧ t.kind (p ++ [c]) = none ∧ Ordinary c then
      some (p ++ [c], t.add p c k h.1 h.2.1 h.2.2)
    else none
  | _, _ => none

def mkdir (t : HostTree) (s : List Byte) : Option (Position × HostTree) :=
  -- a slash at the end is allowed here
  t.make .dir (names (segments s))

def create (t : HostTree) (s : List Byte) : Option (Position × HostTree) :=
  match t.resolve s with
  | some p => if t.kind p = some .file then some (p, t) else none
  | none => t.make .file (components s)

def unlink (t : HostTree) (s : List Byte) : Option (Position × HostTree) :=
  match t.resolve s with
  | some p => if h : t.kind p = some .file then some (p, t.remove p h) else none
  | none => none

end HostTree

def withPath {α : Type} (s : List Byte) (r : Option α) : Option α := if s.length < PATH_MAX then r else none

theorem withPath_eq_some {α : Type} {s : List Byte} {r : Option α} {x : α} :
    withPath s r = some x ↔ s.length < PATH_MAX ∧ r = some x := by
  unfold withPath
  split_ifs with h <;> simp [h]

/-! `glob`. How the C library reads one component of a pattern is a parameter. -/

inductive GlobComponent
  | literal (n : Name)
  | pattern (fits : Name → Bool)

def GlobComponent.isPattern : GlobComponent → Bool
  | .literal _ => false
  | .pattern _ => true

namespace HostTree

def globEnter (t : HostTree) (parse : Name → GlobComponent) (p : Position) (c : Name) : List Position :=
  match parse c with
  | .literal n => (t.enter p n).toList
  -- a directory lists itself and its parent too
  | .pattern fits => ((dot :: dotdot :: t.entries p).filter fits).filterMap (fun n => t.enter p n)

def globFrom (t : HostTree) (parse : Name → GlobComponent) (ps : List Position) :
    List Name → List Position
  | [] => ps
  | c :: cs => t.globFrom parse (ps.flatMap (fun p => t.globEnter parse p c)) cs

def globListed (t : HostTree) (parse : Name → GlobComponent) (ps : List Position) :
    List Name → List Position
  | [] => []
  | c :: cs =>
    (if (parse c).isPattern then ps.filter (fun p => t.kind p = some .dir) else []) ++
      t.globListed parse (ps.flatMap (fun p => t.globEnter parse p c)) cs

end HostTree

end Tosemu.Host
