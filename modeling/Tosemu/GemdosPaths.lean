import Tosemu.FileHandles
import Tosemu.HostTree

namespace Tosemu.Gemdos

open Host

def backslash : Byte := 0x5c

def basePath (d : Position) : List Byte := pathText d ++ [slash]

def convert (prevSlash : Bool) : List Byte → List Byte
  | [] => []
  | c :: src =>
    if c = backslash then
      if prevSlash then convert true src else slash :: convert true src
    else c :: convert false src

def strncmpEq (s s' : List Byte) (n : ℕ) : Bool := s.take n = s'.take n

/-- `path_from_tos`; `realpath` gives what the host's function leaves in the zeroed buffer. -/
def pathFromTosWith (realpath : List Byte → List Byte) (base tp : List Byte) : ℕ × List Byte :=
  let prefixed := base.take PATH_MAX
  let up := prefixed ++ convert true (tp.take (PATH_MAX - prefixed.length))
  let tbuf := realpath up
  -- the count leaves out the slash at the end of the base path
  if base ≠ [] ∧ !strncmpEq up tbuf (base.length - 1) then (0, up) else (up.length, up)

def pathFromTos (t : HostTree) (base tp : List Byte) : ℕ × List Byte :=
  pathFromTosWith t.realpathText base tp

inductive Reply
  | code (r : Long)
  | handle
deriving DecidableEq

structure Outcome where
  reply : Reply
  tree : HostTree
  touched : List Position

def gemdosDsetpath (t : HostTree) (base tp : List Byte) : Outcome :=
  let r := pathFromTos t base tp
  if r.1 = 0 then ⟨.code GEMDOS_EFILNF, t, []⟩
  else ⟨.code 0, t, (withPath r.2 (t.resolve r.2)).toList.filter (fun p => t.kind p = some .dir)⟩

def gemdosDcreate (t : HostTree) (base tp : List Byte) : Outcome :=
  let r := pathFromTos t base tp
  if r.1 = 0 then ⟨.code GEMDOS_EFILNF, t, []⟩
  else
    match withPath r.2 (t.mkdir r.2) with
    | none => ⟨.code GEMDOS_EACCDN, t, []⟩
    | some (p, t) => ⟨.code 0, t, [p]⟩

def gemdosFdelete (t : HostTree) (base tp : List Byte) : Outcome :=
  let r := pathFromTos t base tp
  if r.1 = 0 then ⟨.code GEMDOS_EFILNF, t, []⟩
  else
    match withPath r.2 (t.unlink r.2) with
    | none => ⟨.code GEMDOS_EFILNF, t, []⟩
    | some (p, t) => ⟨.code 0, t, [p]⟩

/-- The tree after `mkdir` of every prefix that ends before a slash, and the directories made. The
path is cut at its slashes, `path` before the next of them. `path_from_tos` leaves at most `PATH_MAX`
characters, so that no prefix is too long for `mkdir`. -/
def makeDirs (t : HostTree) (path : List Name) : List Name → HostTree × List Position
  | [] => (t, [])
  | [_] => (t, [])
  | seg :: seg' :: segs =>
    match t.make .dir (names (path ++ [seg])) with
    | none => makeDirs t (path ++ [seg]) (seg' :: segs)
    | some (p, t) =>
      let r := makeDirs t (path ++ [seg]) (seg' :: segs)
      (r.1, p :: r.2)

def gemdosFcreate (t : HostTree) (base tp : List Byte) : Outcome :=
  let r := pathFromTos t base tp
  if r.1 = 0 then ⟨.code GEMDOS_EFILNF, t, []⟩
  else
    let made := makeDirs t [] (segments r.2)
    match withPath r.2 (made.1.create r.2) with
    | none => ⟨.code GEMDOS_EACCDN, made.1, made.2⟩
    | some (p, t) => ⟨.handle, t, made.2 ++ [p]⟩

def hostFopen (t : HostTree) (s : List Byte) : Mode → Option (Position × HostTree)
  -- a directory can be opened for reading
  | .read => (t.resolve s).map (fun p => (p, t))
  | .write => t.create s
  | .update =>
    match t.resolve s with
    | some p => if t.kind p = some .file then some (p, t) else none
    | none => none

def gemdosFopen (mode : BitVec 16) (t : HostTree) (base tp : List Byte) : Outcome :=
  let r := pathFromTos t base tp
  if r.1 = 0 then ⟨.code GEMDOS_EFILNF, t, []⟩
  else
    match File.openMode mode with
    | none => ⟨.code GEMDOS_EINVAL, t, []⟩
    | some m =>
      match withPath r.2 (hostFopen t r.2 m) with
      | none => ⟨.code GEMDOS_EFILNF, t, []⟩
      | some (p, t) => ⟨.handle, t, [p]⟩

def ATTR_DIRECTORY : Long := 0x10

def modeToAttrib (k : Option Kind) : Long := if k = some .dir then ATTR_DIRECTORY else 0

def gemdosFattrib (t : HostTree) (base tp : List Byte) : Outcome :=
  let r := pathFromTos t base tp
  if r.1 = 0 then ⟨.code GEMDOS_EFILNF, t, []⟩
  else
    match withPath r.2 (t.resolve r.2) with
    | none => ⟨.code GEMDOS_EFILNF, t, []⟩
    | some p => ⟨.code (modeToAttrib (t.kind p)), t, [p]⟩

def gemdosFsfirst (parse : Name → GlobComponent) (t : HostTree) (base tp : List Byte) : Outcome :=
  let r := pathFromTos t base tp
  if r.1 = 0 then ⟨.code GEMDOS_EFILNF, t, []⟩
  else
    let gres := t.globFrom parse [[]] (components r.2)
    let touched := t.globListed parse [[]] (components r.2) ++ gres
    if gres = [] then ⟨.code GEMDOS_EFILNF, t, touched⟩ else ⟨.code GEMDOS_E_OK, t, touched⟩

inductive PathCall
  | dsetpath
  | dcreate
  | fdelete
  | fcreate
  | fopen (mode : BitVec 16)
  | fattrib
  | fsfirst (parse : Name → GlobComponent)

def pathStep (t : HostTree) (base tp : List Byte) : PathCall → Outcome
  | .dsetpath => gemdosDsetpath t base tp
  | .dcreate => gemdosDcreate t base tp
  | .fdelete => gemdosFdelete t base tp
  | .fcreate => gemdosFcreate t base tp
  | .fopen mode => gemdosFopen mode t base tp
  | .fattrib => gemdosFattrib t base tp
  | .fsfirst parse => gemdosFsfirst parse t base tp

end Tosemu.Gemdos
