import Tosemu.HostPointers
import Tosemu.RefusedReads

/-!
`Fsfirst` and `Fsnext`: a search keeps its number and its position in the DTA of the guest, and what
`glob` has found in a list of the emulator.
-/

namespace Tosemu

def Endian.bytes16 (host : Endian) (value : BitVec 16) : List Byte :=
  match host with
  | little => (BigEndian.unpack value 2).reverse
  | big => BigEndian.unpack value 2

def endianize16Loop : ℕ → BitVec 16 → BitVec 16 → BitVec 16
  | 0, _, out => out
  | n + 1, inp, out => endianize16Loop n (inp >>> 8) ((out <<< 8) ||| (0xff &&& inp))

def endianize16 (inp : BitVec 16) : BitVec 16 := endianize16Loop 2 inp 0

namespace Search

open Gemdos Host

structure Stat where
  mode : Kind
  mtime : File.Tm
  size : ℕ

/-- What the host answers as long as its directory does not change; `glob` returns zero when it has
found something. -/
structure HostDir where
  tree : HostTree
  basePath : List Byte
  glob : List Byte → Int × List (List Byte)
  stat : List Byte → Stat

/-- `g` has nothing to be read before `glob` has filled it. -/
structure Globitem where
  g : Option (List (List Byte))
  id : Long

structure SearchState where
  machine : Machine
  dtaAddr : Long
  sid : Long
  globhead : List Globitem

def searchInit (m : Machine) : SearchState := ⟨m, 0x830, 42, []⟩

def gemdosPrepareDta (σ : SearchState) : Long × SearchState :=
  let sid := σ.sid + 1
  (sid, { σ with sid := sid, globhead := ⟨none, sid⟩ :: σ.globhead })

def gemdosFindDta (id : Long) (globhead : List Globitem) : Option Globitem :=
  globhead.find? (fun item => item.id = id)

def SearchState.setGlob (g : List (List Byte)) (σ : SearchState) : SearchState :=
  { σ with globhead := σ.globhead.modifyHead (fun item => { item with g := some g }) }

def SearchState.store (dta : HostPtr) (fields : List (ℕ × List Byte)) (σ : SearchState) : SearchState :=
  { σ with machine := { σ.machine with memory := storeFields dta fields σ.machine.memory } }

def basename (path : List Byte) : List Byte :=
  if path = [] then dot
  else
    let rest := path.reverse.dropWhile (fun c => c = slash)
    if rest = [] then [slash] else (rest.takeWhile (fun c => c ≠ slash)).reverse

def strncpy (src : List Byte) (n : ℕ) : List Byte := (List.range n).map (fun i => src.getD i 0)

def dosTime (lt : File.Tm) : BitVec 16 :=
  (BitVec.ofInt 32 (lt.sec.tdiv 2) ||| BitVec.ofInt 32 lt.min <<< 5 |||
    BitVec.ofInt 32 lt.hour <<< 11).setWidth 16

def dosDate (lt : File.Tm) : BitVec 16 :=
  (BitVec.ofInt 32 lt.mday ||| BitVec.ofInt 32 (lt.mon + 1) <<< 5 |||
    BitVec.ofInt 32 (lt.year - 80) <<< 9).setWidth 16

def dtaFields (host : Endian) (sres : Stat) (path : List Byte) : List (ℕ × List Byte) :=
  [(21, [(modeToAttrib (some sres.mode)).setWidth 8]),
    (22, host.bytes16 (endianize16 (dosTime sres.mtime))),
    (24, host.bytes16 (endianize16 (dosDate sres.mtime))),
    (26, host.bytes (endianize32 (BitVec.ofNat 32 sres.size))),
    (30, List.replicate 14 0),
    (30, strncpy (basename path) 13)]

/-! A call returns nothing where it follows a null pointer, or reads a `glob_t` that was never filled. -/

def gemdosFsetdta (addr : Long) (σ : SearchState) : Option Long × SearchState :=
  (some 0, { σ with dtaAddr := addr })

def gemdosFsfirst (host : Endian) (dir : HostDir) (filename : Long) (σ : SearchState) :
    Option Long × SearchState :=
  let prepared := gemdosPrepareDta σ
  let path := getPath filename σ.machine
  let σ := { prepared.2 with machine := path.2 }
  let r := pathFromTos dir.tree dir.basePath path.1
  if r.1 = 0 then (some GEMDOS_EFILNF, σ)
  else
    let gres := dir.glob r.2
    let σ := σ.setGlob gres.2
    if gres.1 ≠ 0 then (some GEMDOS_EFILNF, σ)
    else
      match gres.2 with
      | [] => (some GEMDOS_E_OK, σ)
      | path :: _ =>
        let dta := tosMemToHostMem σ.dtaAddr σ.machine
        let σ := { σ with machine := dta.2 }
        match dta.1 with
        | none => (none, σ)
        | some dta =>
          (some GEMDOS_E_OK, σ.store dta
            ([(0, host.bytes prepared.1), (4, host.bytes 0)] ++ dtaFields host (dir.stat path) path))

def gemdosFsnext (host : Endian) (dir : HostDir) (σ : SearchState) : Option Long × SearchState :=
  let dta := tosMemToHostMem σ.dtaAddr σ.machine
  let σ := { σ with machine := dta.2 }
  match dta.1 with
  | none => (none, σ)
  | some dta =>
    let gres := gemdosFindDta (hostLoad host dta 0 σ.machine.memory) σ.globhead
    let i := hostLoad host dta 4 σ.machine.memory + 1
    let σ := σ.store dta [(4, host.bytes i)]
    match gres.bind Globitem.g with
    | none => (none, σ)
    | some pathv =>
      -- the `int` is compared as a `size_t`
      match pathv[(i.signExtend 64).toNat]? with
      | none => (some GEMDOS_ENMFIL, σ)
      | some path => (some GEMDOS_E_OK, σ.store dta (dtaFields host (dir.stat path) path))

inductive SearchCall
  | fsetdta (addr : Long)
  | fsfirst (filename : Long)
  | fsnext

def searchCall (host : Endian) (dir : HostDir) (σ : SearchState) : SearchCall → Option Long × SearchState
  | .fsetdta addr => gemdosFsetdta addr σ
  | .fsfirst filename => gemdosFsfirst host dir filename σ
  | .fsnext => gemdosFsnext host dir σ

end Search

end Tosemu
