import Tosemu.DirectorySearch
import Tosemu.Runs

namespace Tosemu

theorem Endian.bytes16_length (host : Endian) (v : BitVec 16) : (host.bytes16 v).length = 2 := by
  cases host <;> simp [Endian.bytes16]

theorem endianize16Loop_eq (n : ℕ) (inp out : BitVec 16) :
    endianize16Loop n inp out = BigEndian.pack (BigEndian.unpack inp n).reverse out := by
  induction n generalizing inp out with
  | zero => rfl
  | succ n ih =>
    have hlow := BigEndian.low_byte_eq_and (by decide) inp
    rw [endianize16Loop, ih, BigEndian.unpack, List.reverse_append, List.reverse_singleton,
      List.singleton_append, BigEndian.pack, BigEndian.pack, List.foldl_cons, hlow]

theorem endianize16_bytes (v : BitVec 16) : Endian.little.bytes16 (endianize16 v) = BigEndian.unpack v 2 := by
  rw [Endian.bytes16, endianize16, endianize16Loop_eq, BigEndian.unpack_pack_reverse (by decide),
    List.reverse_reverse]

theorem endianize32_bytes (v : Long) : Endian.little.bytes (endianize32 v) = BigEndian.unpack v 4 := by
  rw [Endian.bytes, endianize32, endianize32With_eq, BigEndian.unpack_pack_reverse (by decide),
    List.reverse_reverse]

namespace Search

open Gemdos Host Runs

theorem strncpy_length (src : List Byte) (n : ℕ) : (strncpy src n).length = n := by simp [strncpy]

structure HoldsMatch (dir : HostDir) (memory : List Memarea) (d : Long) (path : List Byte) : Prop where
  attrib : memByte memory (d + 21) = some (if (dir.stat path).mode = .dir then 0x10 else 0)
  time : ∀ k < 2, memByte memory (d + BitVec.ofNat 32 (22 + k)) =
    (BigEndian.unpack (dosTime (dir.stat path).mtime) 2)[k]?
  date : ∀ k < 2, memByte memory (d + BitVec.ofNat 32 (24 + k)) =
    (BigEndian.unpack (dosDate (dir.stat path).mtime) 2)[k]?
  length : ∀ k < 4, memByte memory (d + BitVec.ofNat 32 (26 + k)) =
    (BigEndian.unpack (BitVec.ofNat 32 (dir.stat path).size) 4)[k]?
  fname : ∀ k < 14, memByte memory (d + BitVec.ofNat 32 (30 + k)) =
    some (if k < 13 then (basename path).getD k 0 else 0)

section Fields

variable {memory : List Memarea} {d : Long} {p : HostPtr}

theorem getD_unpack {w : ℕ} (v : BitVec w) (n k : ℕ) (hk : k < n) :
    some ((BigEndian.unpack v n).getD k 0) = (BigEndian.unpack v n)[k]? := by
  rw [List.getD_eq_getElem?_getD, List.getElem?_eq_getElem (by simpa using hk)]
  rfl

theorem fieldByte_dtaFields (host : Endian) (sres : Stat) (path : List Byte) (k : ℕ) (b : Byte) :
    fieldByte (dtaFields host sres path) k b =
      if 30 ≤ k ∧ k < 43 then (strncpy (basename path) 13).getD (k - 30) 0
      else if 30 ≤ k ∧ k < 44 then (List.replicate 14 (0 : Byte)).getD (k - 30) 0
      else if 26 ≤ k ∧ k < 30 then (host.bytes (endianize32 (BitVec.ofNat 32 sres.size))).getD (k - 26) 0
      else if 24 ≤ k ∧ k < 26 then (host.bytes16 (endianize16 (dosDate sres.mtime))).getD (k - 24) 0
      else if 22 ≤ k ∧ k < 24 then (host.bytes16 (endianize16 (dosTime sres.mtime))).getD (k - 22) 0
      else if 21 ≤ k ∧ k < 22 then [((modeToAttrib (some sres.mode)).setWidth 8 : Byte)].getD (k - 21) 0
      else b := by
  simp only [fieldByte, dtaFields, List.foldl_cons, List.foldl_nil, strncpy_length, List.length_replicate,
    Endian.bytes_length, Endian.bytes16_length, List.length_singleton]

theorem strncpy_getD (src : List Byte) (n k : ℕ) :
    (strncpy src n).getD k 0 = if k < n then src.getD k 0 else 0 := by
  split_ifs with hk
  · rw [List.getD_eq_getElem _ _ (by rwa [strncpy_length])]
    simp [strncpy]
  · exact List.getD_eq_default _ _ (by rw [strncpy_length]; omega)

theorem holdsMatch_dtaFields (h : Points memory d 44 p) (dir : HostDir) (path : List Byte) :
    HoldsMatch dir (storeFields p (dtaFields .little (dir.stat path) path) memory) d path := by
  have hbyte : ∀ k < 44, memByte (storeFields p (dtaFields .little (dir.stat path) path) memory)
      (d + BitVec.ofNat 32 k) =
        some (fieldByte (dtaFields .little (dir.stat path) path) k (hostByte p k memory)) :=
    fun k hk => h.memByte_storeFields _ hk
  constructor
  · rw [show (21 : Long) = BitVec.ofNat 32 21 from rfl, hbyte 21 (by omega), fieldByte_dtaFields]
    cases (dir.stat path).mode <;> rfl
  · intro k hk
    rw [hbyte _ (by omega), fieldByte_dtaFields, if_neg (by omega), if_neg (by omega),
      if_neg (by omega), if_neg (by omega), if_pos (by omega), endianize16_bytes,
      Nat.add_sub_cancel_left, getD_unpack _ _ _ hk]
  · intro k hk
    rw [hbyte _ (by omega), fieldByte_dtaFields, if_neg (by omega), if_neg (by omega),
      if_neg (by omega), if_pos (by omega), endianize16_bytes, Nat.add_sub_cancel_left,
      getD_unpack _ _ _ hk]
  · intro k hk
    rw [hbyte _ (by omega), fieldByte_dtaFields, if_neg (by omega), if_neg (by omega),
      if_pos (by omega), endianize32_bytes, Nat.add_sub_cancel_left, getD_unpack _ _ _ hk]
  · intro k hk
    rw [hbyte _ (by omega), fieldByte_dtaFields, strncpy_getD, Nat.add_sub_cancel_left]
    by_cases hk13 : k < 13
    · rw [if_pos (by omega)]
    · rw [if_neg (by omega), if_pos (by omega), if_neg hk13]
      obtain rfl : k = 13 := by omega
      rfl

end Fields

structure SearchAction where
  call : SearchCall
  machine : Machine

def accepted (dir : HostDir) (filename : Long) (m : Machine) : ℕ × List Byte :=
  pathFromTos dir.tree dir.basePath (getPath filename m).1

def found (dir : HostDir) (filename : Long) (m : Machine) : Int × List (List Byte) :=
  dir.glob (accepted dir filename m).2

theorem gemdosFsfirst_eq (host : Endian) (dir : HostDir) (filename : Long) (σ : SearchState) :
    gemdosFsfirst host dir filename σ =
    let m := (getPath filename σ.machine).2
    let head := ⟨none, σ.sid + 1⟩ :: σ.globhead
    if (accepted dir filename σ.machine).1 = 0 then (some GEMDOS_EFILNF, ⟨m, σ.dtaAddr, σ.sid + 1, head⟩)
    else
      let σ' := SearchState.setGlob (found dir filename σ.machine).2 ⟨m, σ.dtaAddr, σ.sid + 1, head⟩
      if (found dir filename σ.machine).1 ≠ 0 then (some GEMDOS_EFILNF, σ')
      else
        match (found dir filename σ.machine).2 with
        | [] => (some GEMDOS_E_OK, σ')
        | path :: _ =>
          let dta := tosMemToHostMem σ.dtaAddr m
          match dta.1 with
          | none => (none, { σ' with machine := dta.2 })
          | some p => (some GEMDOS_E_OK, SearchState.store p ([(0, host.bytes (σ.sid + 1)), (4, host.bytes 0)] ++
              dtaFields host (dir.stat path) path) { σ' with machine := dta.2 }) := rfl

/-- The last `Fsfirst` on a DTA: what it has found, and how many calls there have been on the DTA
since, itself included. -/
structure Enumeration where
  pathv : List (List Byte)
  calls : ℕ

structure Session where
  state : SearchState
  last : Long → Option Enumeration

def lastAfter (dir : HostDir) (a : SearchAction) (σ : Session) : Long → Option Enumeration :=
  match a.call with
  | .fsetdta _ => σ.last
  | .fsfirst filename =>
    Function.update σ.last σ.state.dtaAddr (some ⟨(found dir filename a.machine).2, 1⟩)
  | .fsnext => Function.update σ.last σ.state.dtaAddr
      ((σ.last σ.state.dtaAddr).map (fun e => { e with calls := e.calls + 1 }))

def sessionStep (host : Endian) (dir : HostDir) (σ : Session) (a : SearchAction) :
    Option Long × Session :=
  let r := searchCall host dir { σ.state with machine := a.machine } a.call
  (r.1, ⟨r.2, lastAfter dir a σ⟩)

def Separate (D : Set Long) : Prop :=
  ∀ d ∈ D, ∀ e ∈ D, d ≠ e → ∀ j < 44, ∀ k < 44, d + BitVec.ofNat 32 j ≠ e + BitVec.ofNat 32 k

structure Allowed (dir : HostDir) (D : Set Long) (σ : Session) (a : SearchAction) : Prop where
  inArea : ∀ d ∈ D, InOneArea a.machine.memory d 44
  unwritten : ∀ d ∈ D, (σ.last d).isSome → ∀ k < 44,
    memByte a.machine.memory (d + BitVec.ofNat 32 k) =
      memByte σ.state.machine.memory (d + BitVec.ofNat 32 k)
  first : ∀ filename, a.call = .fsfirst filename → σ.state.dtaAddr ∈ D ∧
    (accepted dir filename a.machine).1 ≠ 0 ∧ (found dir filename a.machine).1 = 0 ∧
      (found dir filename a.machine).2 ≠ []
  next : a.call = .fsnext → σ.state.dtaAddr ∈ D ∧ (σ.last σ.state.dtaAddr).isSome

def SearchCall.Searches : SearchCall → Prop
  | .fsetdta _ => False
  | _ => True

structure Enumerates (dir : HostDir) (D : Set Long) (σ : Session) (a : SearchAction) : Prop where
  answers : a.call.Searches →
    ∃ e, (sessionStep .little dir σ a).2.last σ.state.dtaAddr = some e ∧
      (sessionStep .little dir σ a).1 =
        some (if e.calls ≤ e.pathv.length then GEMDOS_E_OK else GEMDOS_ENMFIL) ∧
      ∀ path, e.pathv[e.calls - 1]? = some path →
        HoldsMatch dir (sessionStep .little dir σ a).2.state.machine.memory σ.state.dtaAddr path
  others : ∀ d ∈ D, (a.call.Searches → d ≠ σ.state.dtaAddr) → ∀ k < 44,
    memByte (sessionStep .little dir σ a).2.state.machine.memory (d + BitVec.ofNat 32 k) =
      memByte a.machine.memory (d + BitVec.ofNat 32 k)

structure Held (memory : List Memarea) (globhead : List Globitem) (d : Long) (e : Enumeration) :
    Prop where
  started : 0 < e.calls
  item : ∃ id, gemdosFindDta id globhead = some ⟨some e.pathv, id⟩ ∧
    ∀ k < 4, memByte memory (d + BitVec.ofNat 32 k) = some ((Endian.little.bytes id).getD k 0)
  index : ∀ k < 4, memByte memory (d + BitVec.ofNat 32 (4 + k)) =
    some ((Endian.little.bytes (BitVec.ofNat 32 (e.calls - 1))).getD k 0)

structure SearchInv (D : Set Long) (n : ℕ) (σ : Session) : Prop where
  sid : ∃ j ≤ n, σ.state.sid = 42 + BitVec.ofNat 32 j ∧
    ∀ item ∈ σ.state.globhead, ∃ i ≤ j, item.id = 42 + BitVec.ofNat 32 i
  held : ∀ d ∈ D, ∀ e, σ.last d = some e →
    Held σ.state.machine.memory σ.state.globhead d e ∧ e.calls ≤ n

section Calls

variable {dir : HostDir} {σ : SearchState} {p : HostPtr} {e : Enumeration} {d : Long}
  {memory memory' : List Memarea} {globhead : List Globitem}

theorem Held.congr (h : Held memory globhead d e) (hmem : ∀ k < 44,
    memByte memory' (d + BitVec.ofNat 32 k) = memByte memory (d + BitVec.ofNat 32 k)) :
    Held memory' globhead d e := by
  obtain ⟨hpos, ⟨id, hfind, hid⟩, hindex⟩ := h
  refine ⟨hpos, ⟨id, hfind, fun k hk => ?_⟩, fun k hk => ?_⟩
  · rw [hmem k (by omega), hid k hk]
  · rw [hmem (4 + k) (by omega), hindex k hk]

theorem Held.push (h : Held memory globhead d e) {item : Globitem}
    (hfresh : ∀ old ∈ globhead, old.id ≠ item.id) : Held memory (item :: globhead) d e := by
  obtain ⟨hpos, ⟨id, hfind, hid⟩, hindex⟩ := h
  have hne : item.id ≠ id := Ne.symm (hfresh _ (List.mem_of_find?_eq_some hfind))
  refine ⟨hpos, ⟨id, ?_, hid⟩, hindex⟩
  rw [gemdosFindDta, List.find?_cons_of_neg (by simpa using hne)]
  exact hfind

theorem gemdosFsfirst_found (dir : HostDir) (filename : Long) {path : List Byte} {rest : List (List Byte)}
    (hp : Points σ.machine.memory σ.dtaAddr 44 p) (haccepted : (accepted dir filename σ.machine).1 ≠ 0)
    (hglob : (found dir filename σ.machine).1 = 0)
    (hfound : (found dir filename σ.machine).2 = path :: rest) :
    gemdosFsfirst .little dir filename σ =
      (some GEMDOS_E_OK,
        { machine := { (getPath filename σ.machine).2 with
            memory := storeFields p ([(0, Endian.little.bytes (σ.sid + 1)), (4, Endian.little.bytes 0)] ++
              dtaFields .little (dir.stat path) path) σ.machine.memory }
          dtaAddr := σ.dtaAddr
          sid := σ.sid + 1
          globhead := ⟨some (path :: rest), σ.sid + 1⟩ :: σ.globhead }) := by
  have hmemory := getPath_memory filename σ.machine
  rw [← hmemory] at hp
  have hdta := hp.tosMemToHostMem (by omega)
  rw [found, accepted] at hglob hfound
  rw [accepted] at haccepted
  simp only [gemdosFsfirst, gemdosPrepareDta, SearchState.setGlob, SearchState.store, haccepted, hglob,
    hfound, hdta, hmemory, if_false, ne_eq, not_true_eq_false, List.modifyHead]

theorem hostByte_of_memByte {k : ℕ} {b : Byte} (hp : Points memory d 44 p) (hk : k < 44)
    (h : memByte memory (d + BitVec.ofNat 32 k) = some b) : hostByte p k memory = b :=
  Option.some.inj ((hp.memByte hk).symm.trans h)

theorem signExtend_small {c : ℕ} (hc : c < 2 ^ 31) : ((BitVec.ofNat 32 c).signExtend 64).toNat = c := by
  have hnat : (BitVec.ofNat 32 c).toNat = c := by
    rw [BitVec.toNat_ofNat, Nat.mod_eq_of_lt (by omega)]
  have hmsb : (BitVec.ofNat 32 c).msb = false := by
    rw [BitVec.msb_eq_false_iff_two_mul_lt, hnat]
    omega
  rw [BitVec.signExtend_eq_setWidth_of_msb_false hmsb, BitVec.toNat_setWidth, hnat,
    Nat.mod_eq_of_lt (by omega)]

theorem gemdosFsnext_held (dir : HostDir) (hp : Points σ.machine.memory σ.dtaAddr 44 p)
    (h : Held σ.machine.memory σ.globhead σ.dtaAddr e) (hcalls : e.calls < 2 ^ 31) :
    let σ' := σ.store p [(4, Endian.little.bytes (BitVec.ofNat 32 e.calls))]
    gemdosFsnext .little dir σ =
      match e.pathv[e.calls]? with
      | none => (some GEMDOS_ENMFIL, σ')
      | some path => (some GEMDOS_E_OK, σ'.store p (dtaFields .little (dir.stat path) path)) := by
  obtain ⟨hpos, ⟨id, hfind, hid⟩, hindex⟩ := h
  have hdta := hp.tosMemToHostMem (by omega)
  have hload : hostLoad .little p 0 σ.machine.memory = id := by
    refine hostLoad_eq (fun k hk => hostByte_of_memByte hp (by omega) ?_)
    rw [Nat.zero_add]
    exact hid k hk
  have hload' : hostLoad .little p 4 σ.machine.memory = BitVec.ofNat 32 (e.calls - 1) :=
    hostLoad_eq (fun k hk => hostByte_of_memByte hp (by omega) (hindex k hk))
  have hnext : BitVec.ofNat 32 (e.calls - 1) + 1 = BitVec.ofNat 32 e.calls := by
    obtain ⟨c, hc⟩ := Nat.exists_eq_add_of_lt hpos
    rw [hc, Nat.zero_add, Nat.add_sub_cancel, BitVec.ofNat_add]
    rfl
  cases hpath : e.pathv[e.calls]? <;>
    simp only [gemdosFsnext, hdta, hload, hload', hnext, hfind, Option.bind_some,
      signExtend_small hcalls, hpath]

theorem fieldByte_append (fields fields' : List (ℕ × List Byte)) (k : ℕ) (b : Byte) :
    fieldByte (fields ++ fields') k b = fieldByte fields' k (fieldByte fields k b) := List.foldl_append

theorem fieldByte_dtaFields_low (host : Endian) (sres : Stat) (path : List Byte) {k : ℕ} (hk : k < 8)
    (b : Byte) : fieldByte (dtaFields host sres path) k b = b := by
  rw [fieldByte_dtaFields, if_neg (by omega), if_neg (by omega), if_neg (by omega), if_neg (by omega),
    if_neg (by omega), if_neg (by omega)]

theorem dtaFields_fit (host : Endian) (sres : Stat) (path : List Byte) :
    ∀ field ∈ dtaFields host sres path, field.1 + field.2.length ≤ 44 := by
  simp [dtaFields, strncpy_length, Endian.bytes_length, Endian.bytes16_length]

theorem held_first (hp : Points memory d 44 p) (id : Long) (path : List Byte) (pathv : List (List Byte)) :
    Held (storeFields p ([(0, Endian.little.bytes id), (4, Endian.little.bytes 0)] ++
      dtaFields .little (dir.stat path) path) memory) (⟨some pathv, id⟩ :: globhead) d ⟨pathv, 1⟩ := by
  have hbyte : ∀ k < 8, memByte (storeFields p ([(0, Endian.little.bytes id),
      (4, Endian.little.bytes 0)] ++ dtaFields .little (dir.stat path) path) memory)
        (d + BitVec.ofNat 32 k) = some (if 4 ≤ k then (Endian.little.bytes 0).getD (k - 4) 0
          else (Endian.little.bytes id).getD k 0) := by
    intro k hk
    rw [hp.memByte_storeFields _ (by omega), fieldByte_append, fieldByte_dtaFields_low _ _ _ hk]
    simp only [fieldByte, List.foldl_cons, List.foldl_nil, Endian.bytes_length]
    by_cases h4 : 4 ≤ k
    · rw [if_pos (by omega), if_pos h4]
    · rw [if_neg (by omega), if_neg h4, if_pos (by omega), Nat.sub_zero]
  refine ⟨Nat.one_pos, ⟨id, ?_, fun k hk => ?_⟩, fun k hk => ?_⟩
  · exact List.find?_cons_of_pos (by simp)
  · rw [hbyte k (by omega), if_neg (by omega)]
  · rw [hbyte (4 + k) (by omega), if_pos (by omega), Nat.add_sub_cancel_left]
    rfl

theorem held_next (hp : Points memory d 44 p) (h : Held memory globhead d e)
    {rest : List (ℕ × List Byte)} (hrest : ∀ k < 8, ∀ b, fieldByte rest k b = b) :
    Held (storeFields p ((4, Endian.little.bytes (BitVec.ofNat 32 e.calls)) :: rest) memory) globhead d
      ⟨e.pathv, e.calls + 1⟩ := by
  obtain ⟨hpos, ⟨id, hfind, hid⟩, hindex⟩ := h
  have hbyte : ∀ k < 8, memByte (storeFields p ((4, Endian.little.bytes (BitVec.ofNat 32 e.calls)) :: rest)
      memory) (d + BitVec.ofNat 32 k) =
        some (if 4 ≤ k then (Endian.little.bytes (BitVec.ofNat 32 e.calls)).getD (k - 4) 0
          else hostByte p k memory) := by
    intro k hk
    rw [hp.memByte_storeFields _ (by omega), ← List.singleton_append, fieldByte_append, hrest k hk]
    simp only [fieldByte, List.foldl_cons, List.foldl_nil, Endian.bytes_length]
    by_cases h4 : 4 ≤ k
    · rw [if_pos (by omega), if_pos h4]
    · rw [if_neg (by omega), if_neg h4]
  refine ⟨Nat.succ_pos _, ⟨id, hfind, fun k hk => ?_⟩, fun k hk => ?_⟩
  · rw [hbyte k (by omega), if_neg (by omega), hostByte_of_memByte hp (by omega) (hid k hk)]
  · rw [hbyte (4 + k) (by omega), if_pos (by omega), Nat.add_sub_cancel_left, Nat.add_sub_cancel]

end Calls

section Step

variable {dir : HostDir} {D : Set Long} {n : ℕ} {σ : Session} {a : SearchAction}

theorem SearchInv.held_now (hi : SearchInv D n σ) (ha : Allowed dir D σ a) {d : Long} (hd : d ∈ D)
    {e : Enumeration} (he : σ.last d = some e) : Held a.machine.memory σ.state.globhead d e :=
  (hi.held d hd e he).1.congr (ha.unwritten d hd (by rw [he]; rfl))

theorem SearchInv.fresh (hi : SearchInv D n σ) (hn : n < 2 ^ 31) :
    ∀ old ∈ σ.state.globhead, old.id ≠ σ.state.sid + 1 := by
  obtain ⟨j, hj, hsid, hids⟩ := hi.sid
  intro old hold he
  obtain ⟨i, hij, hid⟩ := hids old hold
  rw [hid, hsid, BitVec.add_assoc, BitVec.add_right_inj] at he
  have hnat := congrArg BitVec.toNat he
  rw [BitVec.toNat_add, BitVec.toNat_ofNat, BitVec.toNat_ofNat] at hnat
  have hone : (1 : Long).toNat = 1 := rfl
  omega

theorem SearchInv.prepare (hi : SearchInv D n σ) (g : Option (List (List Byte))) :
    ∃ j ≤ n + 1, σ.state.sid + 1 = 42 + BitVec.ofNat 32 j ∧
      ∀ item ∈ ⟨g, σ.state.sid + 1⟩ :: σ.state.globhead, ∃ i ≤ j, item.id = 42 + BitVec.ofNat 32 i := by
  obtain ⟨j, hj, hsid, hids⟩ := hi.sid
  have hnew : σ.state.sid + 1 = 42 + BitVec.ofNat 32 (j + 1) := by
    rw [hsid, BitVec.ofNat_add, BitVec.add_assoc]
    rfl
  refine ⟨j + 1, by omega, hnew, fun item hitem => ?_⟩
  rcases List.mem_cons.mp hitem with rfl | hitem
  · exact ⟨j + 1, le_rfl, hnew⟩
  · obtain ⟨i, hij, hid⟩ := hids item hitem
    exact ⟨i, by omega, hid⟩

theorem store_enumerates (hD : Separate D) (hi : SearchInv D n σ) (ha : Allowed dir D σ a)
    (hd : σ.state.dtaAddr ∈ D) {p : HostPtr} (hp : Points a.machine.memory σ.state.dtaAddr 44 p)
    {fields : List (ℕ × List Byte)} (hfit : ∀ field ∈ fields, field.1 + field.2.length ≤ 44)
    {τ : Session} (e' : Enumeration)
    (hstep : sessionStep .little dir σ a =
      (some (if e'.calls ≤ e'.pathv.length then GEMDOS_E_OK else GEMDOS_ENMFIL), τ))
    (hmemory : τ.state.machine.memory = storeFields p fields a.machine.memory)
    (hlast : τ.last = Function.update σ.last σ.state.dtaAddr (some e'))
    (hsid : ∃ j ≤ n + 1, τ.state.sid = 42 + BitVec.ofNat 32 j ∧
      ∀ item ∈ τ.state.globhead, ∃ i ≤ j, item.id = 42 + BitVec.ofNat 32 i)
    (hkeep : ∀ memory d e, Held memory σ.state.globhead d e → Held memory τ.state.globhead d e)
    (hnew : Held (storeFields p fields a.machine.memory) τ.state.globhead σ.state.dtaAddr e')
    (hcalls : e'.calls ≤ n + 1)
    (hmatch : ∀ path, e'.pathv[e'.calls - 1]? = some path →
      HoldsMatch dir (storeFields p fields a.machine.memory) σ.state.dtaAddr path)
    (hsearches : a.call.Searches) :
    Enumerates dir D σ a ∧ SearchInv D (n + 1) (sessionStep .little dir σ a).2 := by
  have hothers : ∀ d ∈ D, d ≠ σ.state.dtaAddr → ∀ k < 44,
      memByte τ.state.machine.memory (d + BitVec.ofNat 32 k) =
        memByte a.machine.memory (d + BitVec.ofNat 32 k) := by
    intro d hd' hne k hk
    rw [hmemory]
    exact hp.memByte_storeFields_of_ne hfit (fun j hj => hD d hd' _ hd hne k hk j hj)
  rw [hstep]
  refine ⟨⟨fun _ => ⟨e', ?_, ?_, ?_⟩, ?_⟩, hsid, ?_⟩
  · rw [hstep, hlast, Function.update_self]
  · rw [hstep]
  · intro path hpath
    rw [hstep, hmemory]
    exact hmatch path hpath
  · intro d hd' hother
    rw [hstep]
    exact hothers d hd' (hother hsearches)
  · intro d hd' e he
    rw [hlast] at he
    by_cases hne : d = σ.state.dtaAddr
    · rw [hne, Function.update_self] at he
      rw [hne, ← Option.some.inj he, hmemory]
      exact ⟨hnew, hcalls⟩
    · rw [Function.update_of_ne hne] at he
      exact ⟨(hkeep _ _ _ (hi.held_now ha hd' he)).congr (hothers d hd' hne),
        (hi.held d hd' e he).2.trans (Nat.le_succ n)⟩

theorem fsetdta_enumerates (hi : SearchInv D n σ) {addr : Long} (hcall : a.call = .fsetdta addr)
    (ha : Allowed dir D σ a) :
    Enumerates dir D σ a ∧ SearchInv D (n + 1) (sessionStep .little dir σ a).2 := by
  obtain ⟨call, machine⟩ := a
  obtain rfl : call = .fsetdta addr := hcall
  refine ⟨⟨fun h => absurd h id, fun _ _ _ _ _ => rfl⟩, ?_, fun d hd e he => ?_⟩
  · obtain ⟨j, hj, hsid⟩ := hi.sid
    exact ⟨j, by omega, hsid⟩
  · exact ⟨hi.held_now ha hd he, (hi.held d hd e he).2.trans (Nat.le_succ n)⟩

theorem fsfirst_enumerates (hD : Separate D) (hi : SearchInv D n σ) (hn : n < 2 ^ 31)
    {filename : Long} (hcall : a.call = .fsfirst filename) (ha : Allowed dir D σ a) :
    Enumerates dir D σ a ∧ SearchInv D (n + 1) (sessionStep .little dir σ a).2 := by
  obtain ⟨hd, haccepted, hglob, hne⟩ := ha.first filename hcall
  obtain ⟨p, hp⟩ := ha.inArea _ hd
  obtain ⟨path, rest, hfound⟩ := List.exists_cons_of_ne_nil hne
  obtain ⟨call, machine⟩ := a
  obtain rfl : call = .fsfirst filename := hcall
  have hresult := gemdosFsfirst_found dir filename (σ := { σ.state with machine := machine }) hp haccepted
    hglob hfound
  have hfit : ∀ field ∈ [(0, Endian.little.bytes (σ.state.sid + 1)), (4, Endian.little.bytes 0)] ++
      dtaFields .little (dir.stat path) path, field.1 + field.2.length ≤ 44 := by
    intro field hfield
    rcases List.mem_append.mp hfield with hfield | hfield
    · simp only [List.mem_cons, List.not_mem_nil, or_false] at hfield
      rcases hfield with rfl | rfl <;> simp [Endian.bytes_length]
    · exact dtaFields_fit _ _ _ field hfield
  have hstep := congrArg (fun r => (r.1, Session.mk r.2 (lastAfter dir ⟨.fsfirst filename, machine⟩ σ))) hresult
  refine store_enumerates hD hi ha hd hp hfit ⟨path :: rest, 1⟩ (hstep.trans (Prod.ext (by simp) rfl)) rfl ?_
    (hi.prepare _) (fun _ _ _ h => h.push (hi.fresh hn)) (held_first hp _ path _) (by simp) ?_ trivial
  · exact congrArg (fun pathv => Function.update σ.last σ.state.dtaAddr (some ⟨pathv, 1⟩)) hfound
  · intro path' hpath
    obtain rfl : path = path' := by simpa using hpath
    rw [storeFields_append]
    exact holdsMatch_dtaFields (hp.storeFields p _) dir path

theorem fsnext_enumerates (hD : Separate D) (hi : SearchInv D n σ) (hn : n < 2 ^ 31)
    (hcall : a.call = .fsnext) (ha : Allowed dir D σ a) :
    Enumerates dir D σ a ∧ SearchInv D (n + 1) (sessionStep .little dir σ a).2 := by
  obtain ⟨hd, hlast⟩ := ha.next hcall
  obtain ⟨p, hp⟩ := ha.inArea _ hd
  obtain ⟨e, he⟩ := Option.isSome_iff_exists.mp hlast
  have hheld := hi.held_now ha hd he
  have hcalls := (hi.held _ hd e he).2
  obtain ⟨call, machine⟩ := a
  obtain rfl : call = .fsnext := hcall
  have hresult := gemdosFsnext_held dir (σ := { σ.state with machine := machine }) hp hheld
    (by omega)
  have hstep := congrArg (fun r => (r.1, Session.mk r.2 (lastAfter dir ⟨.fsnext, machine⟩ σ))) hresult
  have hlastAfter : lastAfter dir ⟨.fsnext, machine⟩ σ =
      Function.update σ.last σ.state.dtaAddr (some ⟨e.pathv, e.calls + 1⟩) := by
    rw [lastAfter, he]
    rfl
  have hsid : ∃ j ≤ n + 1, σ.state.sid = 42 + BitVec.ofNat 32 j ∧
      ∀ item ∈ σ.state.globhead, ∃ i ≤ j, item.id = 42 + BitVec.ofNat 32 i := by
    obtain ⟨j, hj, hids⟩ := hi.sid
    exact ⟨j, by omega, hids⟩
  have hindex : 4 + (Endian.little.bytes (BitVec.ofNat 32 e.calls)).length ≤ 44 := by
    rw [Endian.bytes_length]
    omega
  cases hpath : e.pathv[e.calls]? with
  | none =>
    have hend := List.getElem?_eq_none_iff.mp hpath
    rw [hpath] at hstep
    refine store_enumerates hD hi ha hd hp (by simpa using hindex) ⟨e.pathv, e.calls + 1⟩
      (hstep.trans (Prod.ext ?_ rfl)) rfl hlastAfter hsid (fun _ _ _ h => h)
      (held_next hp hheld (fun _ _ _ => rfl)) (by simpa using hcalls) ?_ trivial
    · exact congrArg some (if_neg (show ¬ e.calls + 1 ≤ e.pathv.length by omega)).symm
    · intro path h
      rw [Nat.add_sub_cancel, hpath] at h
      simp at h
  | some path =>
    have hlt := (List.getElem?_eq_some_iff.mp hpath).1
    rw [hpath] at hstep
    have hfit : ∀ field ∈ (4, Endian.little.bytes (BitVec.ofNat 32 e.calls)) ::
        dtaFields .little (dir.stat path) path, field.1 + field.2.length ≤ 44 := by
      intro field hfield
      rcases List.mem_cons.mp hfield with rfl | hfield
      · exact hindex
      · exact dtaFields_fit _ _ _ field hfield
    refine store_enumerates hD hi ha hd hp hfit ⟨e.pathv, e.calls + 1⟩
      (hstep.trans (Prod.ext ?_ rfl)) rfl hlastAfter hsid (fun _ _ _ h => h)
      (held_next hp hheld (fun k hk b => fieldByte_dtaFields_low _ _ _ hk b)) (by simpa using hcalls) ?_ trivial
    · exact congrArg some (if_pos (show e.calls + 1 ≤ e.pathv.length from hlt)).symm
    · intro path' h
      rw [Nat.add_sub_cancel, hpath] at h
      rw [← Option.some.inj h]
      exact holdsMatch_dtaFields (hp.storeFields p [_]) dir path

theorem step_enumerates (hD : Separate D) (hi : SearchInv D n σ) (hn : n < 2 ^ 31)
    (ha : Allowed dir D σ a) :
    Enumerates dir D σ a ∧ SearchInv D (n + 1) (sessionStep .little dir σ a).2 := by
  cases hcall : a.call with
  | fsetdta addr => exact fsetdta_enumerates hi hcall ha
  | fsfirst filename => exact fsfirst_enumerates hD hi hn hcall ha
  | fsnext => exact fsnext_enumerates hD hi hn hcall ha

end Step

theorem init_inv (D : Set Long) (m : Machine) : SearchInv D 0 ⟨searchInit m, fun _ => none⟩ where
  sid := ⟨0, le_rfl, rfl, by simp [searchInit]⟩
  held _ _ e he := by simp at he

theorem run_enumerates {dir : HostDir} {D : Set Long} (hD : Separate D) {n : ℕ} {σ : Session}
    (hi : SearchInv D n σ) (calls : List SearchAction) (hlen : n + calls.length ≤ 2 ^ 31)
    (h : Along (sessionStep .little dir) (Allowed dir D) σ calls) :
    Along (sessionStep .little dir) (Enumerates dir D) σ calls := by
  induction calls generalizing n σ with
  | nil => trivial
  | cons a calls ih =>
    rw [List.length_cons] at hlen
    obtain ⟨henum, hnext⟩ := step_enumerates hD hi (by omega) h.1
    exact ⟨henum, ih hnext (by omega) h.2⟩

def twoFiles : HostDir where
  tree := HostTree.empty
  basePath := []
  glob := fun _ => (0, [[0x66], [0x67]])
  stat := fun _ => ⟨.file, ⟨0, 0, 0, 1, 0, 80⟩, 5⟩

def searchMachine : Machine :=
  { File.idleMachine with
    memory := addPtrMemoryArea MEMORY_READWRITE 0x900 256 ⟨256, fun i => if i = 128 then 0x66 else 0⟩ [] }

theorem searchMachine_points : Points searchMachine.memory 0x900 44 ⟨0, 0⟩ where
  area := ⟨_, rfl, ⟨_, rfl, by decide⟩, by decide⟩
  hits := by decide

section Quiet

variable {dir : HostDir} {ds : List Long} {σ : Session} {d : Long}

def quietRun (dir : HostDir) (σ : Session) : List SearchCall → List SearchAction
  | [] => []
  | call :: calls =>
    let a : SearchAction := ⟨call, σ.state.machine⟩
    a :: quietRun dir (sessionStep .little dir σ a).2 calls

def Ready (dir : HostDir) (ds : List Long) (σ : Session) (a : SearchAction) : Prop :=
  match a.call with
  | .fsetdta _ => True
  | .fsfirst filename => σ.state.dtaAddr ∈ ds ∧ (accepted dir filename a.machine).1 ≠ 0 ∧
      (found dir filename a.machine).1 = 0 ∧ (found dir filename a.machine).2 ≠ []
  | .fsnext => σ.state.dtaAddr ∈ ds ∧ (σ.last σ.state.dtaAddr).isSome

instance (dir : HostDir) (ds : List Long) (σ : Session) (a : SearchAction) : Decidable (Ready dir ds σ a) :=
  match a with
  | ⟨.fsetdta _, _⟩ => inferInstanceAs (Decidable True)
  | ⟨.fsfirst _, _⟩ => inferInstanceAs (Decidable (_ ∧ _ ∧ _ ∧ _))
  | ⟨.fsnext, _⟩ => inferInstanceAs (Decidable (_ ∧ _))

theorem inOneArea_searchCall {s : SearchState} (h : InOneArea s.machine.memory d 44) (call : SearchCall) :
    InOneArea (searchCall .little dir s call).2.machine.memory d 44 := by
  have hstore : ∀ (p : HostPtr) (fields : List (ℕ × List Byte)) {memory : List Memarea},
      InOneArea memory d 44 → InOneArea (storeFields p fields memory) d 44 := by
    rintro p fields memory ⟨q, hq⟩
    exact ⟨q, hq.storeFields p fields⟩
  cases call with
  | fsetdta addr => exact h
  | fsfirst filename =>
    have hpath : InOneArea (getPath filename s.machine).2.memory d 44 := by rwa [getPath_memory]
    have hptr : InOneArea (tosMemToHostMem s.dtaAddr (getPath filename s.machine).2).2.memory d 44 := by
      rwa [tosMemToHostMem_memory]
    simp only [searchCall, gemdosFsfirst_eq]
    split_ifs
    · exact hpath
    · exact hpath
    · cases (found dir filename s.machine).2 with
      | nil => exact hpath
      | cons path rest =>
        cases (tosMemToHostMem s.dtaAddr (getPath filename s.machine).2).1 with
        | none => exact hptr
        | some p => exact hstore p _ hptr
  | fsnext =>
    have hptr : InOneArea (tosMemToHostMem s.dtaAddr s.machine).2.memory d 44 := by rwa [tosMemToHostMem_memory]
    simp only [searchCall, gemdosFsnext]
    cases (tosMemToHostMem s.dtaAddr s.machine).1 with
    | none => exact hptr
    | some p =>
      dsimp only
      cases (gemdosFindDta _ s.globhead).bind Globitem.g with
      | none => exact hstore p _ hptr
      | some pathv =>
        dsimp only
        split
        · exact hstore p _ hptr
        · exact hstore p _ (hstore p _ hptr)

theorem quietRun_allowed {calls : List SearchCall} (hd : ∀ d ∈ ds, InOneArea σ.state.machine.memory d 44)
    (h : Along (sessionStep .little dir) (Ready dir ds) σ (quietRun dir σ calls)) :
    Along (sessionStep .little dir) (Allowed dir {d | d ∈ ds}) σ (quietRun dir σ calls) := by
  induction calls generalizing σ with
  | nil => trivial
  | cons call calls ih =>
    obtain ⟨hready, hrest⟩ := h
    refine ⟨⟨hd, fun _ _ _ _ _ => rfl, ?_, ?_⟩, ih (fun d hin => inOneArea_searchCall (hd d hin) call) hrest⟩
    · rintro filename rfl
      exact hready
    · rintro rfl
      exact hready

end Quiet

def turns : List SearchCall :=
  [.fsetdta 0x900, .fsfirst 0x980, .fsetdta 0x940, .fsfirst 0x980, .fsetdta 0x900, .fsnext, .fsetdta 0x940,
    .fsnext, .fsetdta 0x900, .fsnext, .fsetdta 0x940, .fsnext]

end Search

end Tosemu
