import Tosemu.BasepageFields
import Tosemu.MainStart
import Tosemu.SystemCalls
import Tosemu.TransferResults

/-!
The environment that `p_env` of the basepage names, over the system calls of a run:
`init_tos_environment` puts it at `0x830`, and `gemdos_file_init` puts the DTA there.
-/

namespace Tosemu.Calls

open Gemdos Host Search

/-- What `init_tos_environment` leaves behind, once `main` has set the registers. -/
def tosInit (tree : HostTree) (cwd : Position) (kernel : Kernel) (te : TosEnvironment) (m : Machine) : Tos :=
  let s := searchInit (startCpu te m)
  { process := ⟨tree, cwd, File.gemdosFileInit s.machine kernel⟩
    dtaAddr := s.dtaAddr
    sid := s.sid
    globhead := s.globhead
    blocks := Allocator.gemdosMemInit te.size }

def InPage (x : Long) : Prop := 0x800 ≤ x.toNat ∧ x.toNat < 0x900

def InEnvironment (x : Long) : Prop := 0x82c ≤ x.toNat ∧ x.toNat < 0x880

def pEnv (memory : List Memarea) : Long :=
  BigEndian.pack ((List.range 4).map
    (fun i => (memByte memory (BasepageField.env.address + BitVec.ofNat 32 i)).getD 0)) 0

/-- What the program finds through `p_env` is zeros, as far as the basepage has room for them. -/
structure EmptyEnvironment (m : Machine) : Prop where
  place : pEnv m.memory = 0x830
  zero : ∀ k < 80, memByte m.memory (pEnv m.memory + BitVec.ofNat 32 k) = some 0

def envByte (x : Long) : Byte := if x.toNat = 0x82e then 0x08 else if x.toNat = 0x82f then 0x30 else 0

def KeepsEnvironment (m : Machine) : Prop := ∀ x, InEnvironment x → memByte m.memory x = some (envByte x)

def DtaClear (σ : Tos) : Prop :=
  InOneArea σ.machine.memory σ.dtaAddr 44 ∧ ∀ k < 44, ¬ InEnvironment (σ.dtaAddr + BitVec.ofNat 32 k)

/-- The memory that is handed to the call to store in: for `Cconrs` the line behind its first byte, or as much
as the local buffer holds where `fgets` may leave it alone, for `Supexec` the top of the supervisor's stack. -/
def SysCall.buffer (σ : Tos) : SysCall → Long × ℕ
  | .cconrs _ stdin lineptr =>
    let maxlen := ((m68kReadMemory8 lineptr σ.machine).1.setWidth 8 : Byte).toNat
    (lineptr + 1, if 2 ≤ maxlen ∧ stdin ≠ [] then maxlen else 257)
  | .dgetpath addr => (addr, (reportedBytes σ.process.cwd).length)
  | .fread _ len buf _ => (buf, len.toNat)
  | .fdatime ptr _ wflag _ => (ptr, if wflag = 0 then 4 else 0)
  | .setexc nm _ => (excAddress nm, 4)
  | .supexec => ((supexecStart σ.machine).cpu.a 7 - 8, 8)
  | _ => (0, 0)

def SysCall.Misses (σ : Tos) (c : SysCall) : Prop :=
  ∀ k < (c.buffer σ).2, ¬ InEnvironment ((c.buffer σ).1 + BitVec.ofNat 32 k)

section Runs

variable (te : TosEnvironment)

def SysCall.Spares (σ : Tos) : SysCall → Prop
  | .fsfirst filename glob stat =>
    let dir := σ.hostDir te glob stat
    FailsEarly dir σ.search (.fsfirst filename) ∨ (found dir filename σ.machine).2 = [] ∨ DtaClear σ
  | .fsnext _ => DtaClear σ
  | .cconrs init stdin lineptr =>
    Console.LineEnds init stdin ((m68kReadMemory8 lineptr σ.machine).1.setWidth 8 : Byte).toNat ∧
      (SysCall.cconrs init stdin lineptr).Misses σ
  | c => c.Misses σ

def Spares (σ : Tos) : Event → Prop
  | .guest m => ∀ x, InPage x → memByte m.memory x = memByte σ.machine.memory x
  | .call c => c.Spares te σ

end Runs

section Step

variable {σ : Tos} {te : TosEnvironment} {inode : Position → ℕ} {m m' : Machine}

theorem KeepsEnvironment.congr (h : KeepsEnvironment m)
    (hbyte : ∀ x, InEnvironment x → memByte m'.memory x = memByte m.memory x) : KeepsEnvironment m' :=
  fun x hx => (hbyte x hx).trans (h x hx)

theorem KeepsEnvironment.storesOnly (h : KeepsEnvironment m) {a : Long} {bs : List Byte}
    (hstores : StoresOnly a bs m m') (hclear : ∀ k < bs.length, ¬ InEnvironment (a + BitVec.ofNat 32 k)) :
    KeepsEnvironment m' := by
  refine h.congr fun x hx => ?_
  rcases hstores x with hsame | ⟨k, b, hk, rfl, -⟩
  · exact hsame
  · exact absurd hx (hclear k (List.getElem?_eq_some_iff.mp hk).1)

theorem cconrs_stores_length (init : Console.LocalBuffer) (stdin : List Byte) (maxlen : Byte) :
    ((Console.storedLine init stdin maxlen.toNat).getD []).length ≤
      if 2 ≤ maxlen.toNat ∧ stdin ≠ [] then maxlen.toNat else 257 := by
  split_ifs with hline
  · obtain ⟨bs, hbs, hlen⟩ := Console.storedLine_short hline.1 hline.2 init
    rwa [hbs]
  · cases hstored : Console.storedLine init stdin maxlen.toNat with
    | none => exact Nat.zero_le _
    | some bs => exact Console.storedLine_length maxlen.isLt hstored

theorem delivered_length (handle : BitVec 16) (len : Long) (io : File.Io) (s : File.FileState) :
    (delivered handle len io s).length ≤ len.toNat := by
  unfold delivered
  split_ifs
  · exact Nat.zero_le _
  · cases (s.handles handle.toNat).f with
    | none => exact Nat.zero_le _
    | some f =>
      dsimp only [Option.elim]
      split_ifs
      · exact Nat.zero_le _
      · exact File.fread_le _ _ _ _

theorem SysCall.stores_in_buffer (σ : Tos) (c : SysCall) :
    (c.stores σ).1 = (c.buffer σ).1 ∧ (c.stores σ).2.length ≤ (c.buffer σ).2 := by
  cases c with
  | cconrs init stdin lineptr => exact ⟨rfl, cconrs_stores_length init stdin _⟩
  | fread handle len buf io => exact ⟨rfl, delivered_length handle len io σ.process.files⟩
  | fdatime ptr handle wflag mtime =>
    refine ⟨rfl, ?_⟩
    dsimp only [SysCall.stores, SysCall.buffer]
    split_ifs
    · cases (σ.process.files.kernel.fstat handle.toNat).1 with
      | none => exact Nat.zero_le _
      | some file => exact (BigEndian.unpack_length _ _).le
    · exact le_rfl
  | setexc nm vec => exact ⟨rfl, (BigEndian.unpack_length _ _).le⟩
  | supexec =>
    refine ⟨rfl, ?_⟩
    dsimp only [SysCall.stores, SysCall.buffer]
    rw [List.length_append, BigEndian.unpack_length, BigEndian.unpack_length]
  | _ => exact ⟨rfl, le_rfl⟩

theorem KeepsEnvironment.search (h : KeepsEnvironment σ.machine) (hdta : DtaClear σ) (dir : HostDir)
    (call : SearchCall) : KeepsEnvironment (σ.onDir dir call).2.machine := by
  obtain ⟨⟨p, hp⟩, hclear⟩ := hdta
  refine h.congr fun x hx => ?_
  have hframe := @searchCall_frame .little dir σ.search p hp call x (fun k hk he => hclear k hk (he ▸ hx))
  exact hframe

theorem KeepsEnvironment.fsfirst (h : KeepsEnvironment σ.machine) {dir : HostDir} {filename : Long}
    (hstores : dtaStores .little dir σ.search (.fsfirst filename) = []) :
    KeepsEnvironment (σ.onDir dir (.fsfirst filename)).2.machine := by
  have hmem := searchCall_memory .little dir σ.search (.fsfirst filename)
  have hsame : (σ.onDir dir (.fsfirst filename)).2.machine.memory = σ.machine.memory := by
    refine hmem.trans ?_
    rw [hstores]
    cases (tosMemToHostMem σ.search.dtaAddr σ.search.machine).1 <;> rfl
  exact h.congr fun x _ => by rw [hsame]

theorem fsfirst_stores_nothing {dir : HostDir} {s : SearchState} {filename : Long}
    (h : FailsEarly dir s (.fsfirst filename) ∨ (found dir filename s.machine).2 = []) :
    dtaStores .little dir s (.fsfirst filename) = [] := by
  rw [dtaStores, fsfirstStores]
  split_ifs with hearly
  · rfl
  · rw [h.resolve_left hearly]

theorem KeepsEnvironment.call (h : KeepsEnvironment σ.machine) {c : SysCall} (hc : c.Spares te σ) :
    KeepsEnvironment (sysCall inode te σ c).2.machine := by
  have hplain : ∀ c : SysCall, ¬ c.Searches → c.Misses σ → KeepsEnvironment (sysCall inode te σ c).2.machine :=
    fun c hsearch hmisses => by
      obtain ⟨haddr, hlen⟩ := c.stores_in_buffer σ
      refine h.storesOnly (sysCall_storesOnly inode te σ c hsearch) fun k hk => ?_
      rw [haddr]
      exact hmisses k (hk.trans_le hlen)
  cases c with
  | fsfirst filename glob stat =>
    rw [sysCall]
    rcases hc with hearly | hempty | hclear
    · exact h.fsfirst (fsfirst_stores_nothing (Or.inl hearly))
    · exact h.fsfirst (fsfirst_stores_nothing (Or.inr hempty))
    · exact h.search hclear _ _
  | fsnext stat =>
    rw [sysCall]
    exact h.search hc _ _
  | cconrs init stdin lineptr => exact hplain _ id hc.2
  | _ => exact hplain _ id hc

theorem KeepsEnvironment.step (h : KeepsEnvironment σ.machine) {e : Event} (he : Spares te σ e) :
    KeepsEnvironment (tosStep inode te σ e).2.machine := by
  cases e with
  | guest m =>
    refine h.congr fun x hx => he x ?_
    unfold InEnvironment at hx
    unfold InPage
    omega
  | call c =>
    have hcall := @KeepsEnvironment.call _ _ inode h c he
    rw [tosStep]
    cases hresult : (sysCall inode te σ c).1 with
    | none =>
      dsimp only [hresult, Option.elim]
      exact hcall
    | some v =>
      dsimp only [hresult, Option.elim]
      exact hcall.congr fun _ _ => rfl

end Step

section Start

variable {heap : Heap} {binary : List Byte} {argv : List (List Byte)} {tosBasePath : Option (List Byte)}
  {te : TosEnvironment} {m : Machine}

theorem basepage_environment (te : TosEnvironment) (argv : List (List Byte)) {i : ℕ} (hlow : 44 ≤ i)
    (hhigh : i < 128) :
    (prepareBasepage te argv).bytes .little i = envByte (BitVec.ofNat 32 (0x800 + i)) := by
  have hnat : (BitVec.ofNat 32 (0x800 + i)).toNat = 0x800 + i := by
    rw [BitVec.toNat_ofNat, Nat.mod_eq_of_lt (by omega)]
  rw [envByte, hnat]
  by_cases hi : i < 48
  · obtain ⟨k, rfl⟩ : ∃ k, i = 4 * 11 + k := ⟨i - 44, by omega⟩
    have hindex : 11 < (prepareBasepage te argv).longs.length := Nat.lt_succ_self 11
    have hlong : (prepareBasepage te argv).longs[11] = endianize32 0x830 := rfl
    rw [Basepage.bytes, if_pos hi, getD_flatMap_bytes .little _ hindex (by omega), hlong]
    have hbytes : ∀ k < 4, (Endian.little.bytes (endianize32 0x830)).getD k 0 =
        if 0x800 + (4 * 11 + k) = 0x82e then 0x08 else if 0x800 + (4 * 11 + k) = 0x82f then 0x30 else 0 := by
      decide
    exact hbytes k (by omega)
  · rw [Basepage.bytes, if_neg hi, dif_pos (by omega), if_neg (by omega), if_neg (by omega)]
    rfl

theorem load_environment (hload : initTosEnvironment .little heap binary argv tosBasePath = .ok (te, m))
    (hreloc : ∀ a ∈ loadTargets .little binary, ∀ k < 4, ¬ InEnvironment (a + BitVec.ofNat 32 k)) :
    KeepsEnvironment m := by
  obtain ⟨-, m', rfl, hr, -⟩ := load_cases hload
  intro x hx
  have hframe := hr.byte x (fun a ha k hk he => hreloc a ha k hk (he ▸ hx))
  obtain ⟨hlow, hhigh⟩ := hx
  obtain ⟨i, hi⟩ : ∃ i, x.toNat = 0x800 + i := ⟨x.toNat - 0x800, by omega⟩
  obtain rfl : x = BitVec.ofNat 32 (0x800 + i) := by rw [← hi, BitVec.ofNat_toNat, BitVec.setWidth_eq]
  have hbyte := (registerAreas_basepage _ (m := mappedFile .little heap binary argv tosBasePath) rfl
    (i := i) (by omega)).1
  refine hframe.trans (hbyte.trans (congrArg some ?_))
  exact basepage_environment _ argv (by omega) (by omega)

theorem start_environment (h : KeepsEnvironment m) (hsize : te.size = tosSize) :
    KeepsEnvironment (startCpu te m) := by
  refine h.congr fun x hx => ?_
  have hwrite : (startCpu te m).memory = (writeLoop 4 (te.size.setWidth 32) 0x800
    (((pulseReset m).setReg .isp 0x600).setReg .usp ((te.size - 4).setWidth 32))).memory := rfl
  rw [hwrite, hsize, memByte_writeLoop_of_ne]
  · rfl
  · rintro k hk rfl
    obtain ⟨-, hhigh⟩ := hx
    have htop : (tosSize.setWidth 32 : Long).toNat = 0xF9F6FF := by decide
    rw [BitVec.toNat_add, BitVec.toNat_ofNat, htop] at hhigh
    omega

theorem KeepsEnvironment.empty (h : KeepsEnvironment m) : EmptyEnvironment m := by
  have hbytes : ∀ i < 4, memByte m.memory (BasepageField.env.address + BitVec.ofNat 32 i) =
      some (envByte (BasepageField.env.address + BitVec.ofNat 32 i)) := by
    intro i hi
    have hbase : BasepageField.env.address = BitVec.ofNat 32 0x82c := rfl
    have hnat : (BasepageField.env.address + BitVec.ofNat 32 i).toNat = 0x82c + i := by
      rw [hbase, ← BitVec.ofNat_add, BitVec.toNat_ofNat, Nat.mod_eq_of_lt (by omega)]
    apply h
    unfold InEnvironment
    omega
  have hplace : pEnv m.memory = 0x830 := by
    have hlist : (List.range 4).map
        (fun i => (memByte m.memory (BasepageField.env.address + BitVec.ofNat 32 i)).getD 0) =
        [0, 0, 0x08, 0x30] := by
      rw [List.map_congr_left fun i hi => by rw [hbytes i (List.mem_range.mp hi)]]
      decide
    rw [pEnv, hlist]
    decide
  refine ⟨hplace, fun k hk => ?_⟩
  have hnat : ((0x830 : Long) + BitVec.ofNat 32 k).toNat = 0x830 + k := by
    have hbase : (0x830 : Long) = BitVec.ofNat 32 0x830 := rfl
    rw [hbase, ← BitVec.ofNat_add, BitVec.toNat_ofNat, Nat.mod_eq_of_lt (by omega)]
  have hzero := h (0x830 + BitVec.ofNat 32 k) (by unfold InEnvironment; omega)
  rw [hplace, hzero, envByte, hnat, if_neg (by omega), if_neg (by omega)]

end Start

theorem environment_survives (inode : Position → ℕ) (heap : Heap) (binary : List Byte) (argv : List (List Byte))
    (tosBasePath : Option (List Byte)) (te : TosEnvironment) (m : Machine)
    (hload : initTosEnvironment .little heap binary argv tosBasePath = .ok (te, m))
    (hreloc : ∀ a ∈ loadTargets .little binary, ∀ k < 4, ¬ InEnvironment (a + BitVec.ofNat 32 k))
    (tree : HostTree) (cwd : Position) (kernel : Kernel) (events : List Event)
    (hspares : Runs.Along (tosStep inode te) (Spares te) (tosInit tree cwd kernel te m) events) :
    EmptyEnvironment (tosInit tree cwd kernel te m).machine ∧
      Runs.Along (tosStep inode te) (fun σ e => EmptyEnvironment (tosStep inode te σ e).2.machine)
        (tosInit tree cwd kernel te m) events := by
  obtain ⟨hsize, -⟩ := load_map hload
  have hstart : KeepsEnvironment (tosInit tree cwd kernel te m).machine :=
    start_environment (load_environment hload hreloc) hsize
  refine ⟨hstart.empty, ?_⟩
  have hkeep : ∀ σ e, KeepsEnvironment σ.machine → Spares te σ e →
      KeepsEnvironment (tosStep inode te σ e).2.machine := fun σ e hσ he => hσ.step he
  exact Runs.along_mono hkeep (fun σ e hσ he => (hkeep σ e hσ he).empty) hstart hspares

def namedBinary : List Byte := [0x60, 0x1a, 0, 0, 0, 2] ++ List.replicate 20 0 ++ [0, 1, 0x66, 0]

def SysCall.pointers (σ : Tos) : SysCall → List Long
  | .cconws adr => [adr]
  | .cconrs _ _ lineptr => [lineptr]
  | .dcreate addr | .dsetpath addr | .fcreate addr | .fopen addr _ | .fdelete addr | .dgetpath addr => [addr]
  | .fread _ _ buf _ | .fwrite _ _ buf _ => [buf]
  | .fattrib filename | .fsfirst filename _ _ => [filename]
  | .fdatime ptr _ _ _ => [ptr]
  | .mfree block | .mshrink block _ => [block]
  | .setexc _ vec => [vec]
  | .super | .supexec => [(peekU32 2 σ.machine).1]
  | .keytbl => [(peekU32 2 σ.machine).1, (peekU32 6 σ.machine).1, (peekU32 10 σ.machine).1]
  | _ => []

/-- The program leaves the page of the basepage alone, takes no other DTA and hands over no pointer into the
page. -/
def KeepsPromise (σ : Tos) : Event → Prop
  | .guest m => ∀ x, InPage x → memByte m.memory x = memByte σ.machine.memory x
  | .call (.fsetdta _) => False
  | .call c => ∀ p ∈ c.pointers σ, ¬ InPage p

theorem misses_outside {σ : Tos} {c : SysCall} {a : Long} {n : ℕ} (haddr : (c.buffer σ).1 = a)
    (hn : (c.buffer σ).2 ≤ n)
    (hout : a.toNat + n ≤ 0x82c ∨ 0x880 ≤ a.toNat ∧ a.toNat + n ≤ 2 ^ 32) : c.Misses σ := by
  subst haddr
  rintro k hk ⟨hlow, hin⟩
  rw [BitVec.toNat_add, BitVec.toNat_ofNat] at hlow hin
  omega

def typedLine : List Byte := [0x61, 0x62, 0x0a]

def plainHost (te : TosEnvironment) (m : Machine) : Tos :=
  tosInit singleFile [] ⟨[], fun _ => [1, 2, 3], []⟩ te m

/-- After eight has been written to `0x20000`, the longest line that `Cconrs` may store there. -/
def plainEvents (te : TosEnvironment) (m : Machine) : List Event :=
  [.guest (tosWrite 0x20000 8 (startCpu te m)), .call .supexec,
    .call (.fsfirst 0x900 (fun _ => (3, [])) twoFiles.stat),
    .call (.cconrs Console.fullBuffer typedLine 0x20000), .call (.fopen 0x900 0),
    .call (.fread 6 16 0x20100 ⟨true, ⟨false, 0, false⟩⟩), .call (.dgetpath 0x20200),
    .call (.setexc 0x20 0x904)]

theorem plain_guest (te : TosEnvironment) (m : Machine) {x : Long} (hx : InPage x) :
    memByte (tosWrite 0x20000 8 (startCpu te m)).memory x = memByte (startCpu te m).memory x := by
  rw [memByte_tosWrite, if_neg]
  rintro ⟨rfl, -⟩
  exact absurd hx.2 (by decide)

theorem plain_promise (te : TosEnvironment) (m : Machine)
    (hcode : (peekU32 2 (tosWrite 0x20000 8 (startCpu te m))).1 = 0) :
    Runs.Along (tosStep (fun _ => 0) te) KeepsPromise (plainHost te m) (plainEvents te m) := by
  have hpointer : ∀ {p : Long}, ¬ (0x800 ≤ p.toNat ∧ p.toNat < 0x900) → ∀ q ∈ [p], ¬ InPage q := by
    intro p hp q hq
    rwa [List.mem_singleton.mp hq]
  refine ⟨fun x => plain_guest te m, hpointer ?_, hpointer (by decide), hpointer (by decide),
    hpointer (by decide), hpointer (by decide), hpointer (by decide), hpointer (by decide), trivial⟩
  exact hcode ▸ (by decide)

theorem spares_failed_glob (te : TosEnvironment) (σ : Tos) (filename : Long) (stat : List Byte → Stat) {code : Int}
    (h : code ≠ 0) : Spares te σ (.call (.fsfirst filename (fun _ => (code, [])) stat)) := Or.inl (Or.inr h)

theorem spares_supexec (inode : Position → ℕ) (te : TosEnvironment) (σ : Tos) {m : Machine} {sp : Long}
    (hsp : (supexecStart m).cpu.a 7 = sp) (hout : (sp - 8).toNat + 8 ≤ 0x82c) :
    Spares te (tosStep inode te σ (.guest m)).2 (.call .supexec) := by
  subst hsp
  exact misses_outside rfl le_rfl (Or.inl hout)

theorem spares_cconrs (te : TosEnvironment) (σ : Tos) (init : Console.LocalBuffer) {stdin : List Byte}
    {lineptr maxlen : Long} (hread : (m68kReadMemory8 lineptr σ.machine).1 = maxlen)
    (hmax : 2 ≤ (maxlen.setWidth 8 : Byte).toNat) (hstdin : stdin ≠ [])
    (hout : 0x880 ≤ (lineptr + 1).toNat ∧ (lineptr + 1).toNat + 256 ≤ 2 ^ 32) :
    Spares te σ (.call (.cconrs init stdin lineptr)) := by
  subst hread
  refine ⟨Or.inl ⟨hmax, hstdin⟩, misses_outside (n := 256) rfl ?_ (Or.inr hout)⟩
  exact (if_pos ⟨hmax, hstdin⟩).le.trans (BitVec.isLt _).le

theorem environment_survives_promise : ∃ te m,
    initTosEnvironment .little emptyHeap namedBinary [] none = .ok (te, m) ∧
      Runs.Along (tosStep (fun _ => 0) te) KeepsPromise (plainHost te m) (plainEvents te m) ∧
      Runs.Along (tosStep (fun _ => 0) te) (fun σ e => EmptyEnvironment (tosStep (fun _ => 0) te σ e).2.machine)
        (plainHost te m) (plainEvents te m) := by
  have hreloc : ∀ a ∈ loadTargets .little namedBinary, ∀ k < 4, ¬ InEnvironment (a + BitVec.ofNat 32 k) :=
    fun a ha => absurd ha List.not_mem_nil
  obtain ⟨te, m, hload, hcode, hsp, hmax⟩ : ∃ te m,
      initTosEnvironment .little emptyHeap namedBinary [] none = .ok (te, m) ∧
        (peekU32 2 (tosWrite 0x20000 8 (startCpu te m))).1 = 0 ∧
        (supexecStart (tosWrite 0x20000 8 (startCpu te m))).cpu.a 7 = 0x600 ∧
        (m68kReadMemory8 0x20000 (Runs.run (tosStep (fun _ => 0) te) (plainHost te m)
          ((plainEvents te m).take 3)).machine).1 = 8 :=
    ⟨_, _, rfl, by decide +kernel, by decide +kernel, by decide +kernel⟩
  simp only [plainEvents, List.take, Runs.run] at hmax
  refine ⟨te, m, hload, plain_promise te m hcode, (environment_survives (fun _ => 0) emptyHeap namedBinary []
    none te m hload hreloc singleFile [] ⟨[], fun _ => [1, 2, 3], []⟩ (plainEvents te m)
    ⟨fun x => plain_guest te m, spares_supexec _ te _ hsp (by decide), spares_failed_glob te _ 0x900 _ (by decide),
      spares_cconrs te _ _ hmax (by decide) (by decide) (by decide), ?_, ?_, ?_, ?_, trivial⟩).2⟩
  · exact fun k hk => absurd hk (Nat.not_lt_zero k)
  · exact misses_outside (a := 0x20100) (n := 16) rfl le_rfl (by decide)
  · exact misses_outside (a := 0x20200) (n := PATH_MAX) rfl (List.length_take_le _ _) (by decide)
  · exact misses_outside (a := excAddress 0x20) (n := 4) rfl le_rfl (by decide)

theorem environment_overwritten : ¬ (∀ inode heap binary argv tosBasePath te m,
    initTosEnvironment .little heap binary argv tosBasePath = .ok (te, m) → ∀ tree cwd kernel events,
      Runs.Along (tosStep inode te) KeepsPromise (tosInit tree cwd kernel te m) events →
        Runs.Along (tosStep inode te) (fun σ e => EmptyEnvironment (tosStep inode te σ e).2.machine)
          (tosInit tree cwd kernel te m) events) := by
  intro h
  have hrun := h (fun _ => 0) emptyHeap namedBinary [] none _ _ rfl HostTree.empty [] ⟨[], fun _ => [], []⟩
    [.call (.fsfirst 0x900 twoFiles.glob twoFiles.stat)]
  have hpromise : ∀ p ∈ [(0x900 : Long)], ¬ InPage p := by
    intro p hp
    rw [List.mem_singleton.mp hp]
    exact fun hin => absurd hin.2 (by decide)
  obtain ⟨⟨hplace, hzero⟩, -⟩ := hrun ⟨hpromise, trivial⟩
  have hbyte := hzero 0 (by omega)
  rw [hplace] at hbyte
  revert hbyte
  decide +kernel

end Tosemu.Calls
