import Tosemu.FileTable
import Tosemu.Runs

namespace Tosemu.File

open Host Runs

/-- The table and the host, and the position at which the last `Fseek` has left a handle that was
not read, written or closed since. -/
structure Session where
  files : FileState
  sought : ℕ → Option ℕ

def soughtAfter (call : FileCall) (r : Option Long) (sought : ℕ → Option ℕ) : ℕ → Option ℕ :=
  match call with
  | .fclose h => Function.update sought h.toNat none
  | .fread h _ _ _ => Function.update sought h.toNat none
  | .fwrite h _ _ _ => Function.update sought h.toNat none
  | .fseek offset h seekmode => Function.update sought h.toNat
      (if seekmode = 0 ∧ 0 ≤ offset.toInt ∧ r = some offset then some offset.toNat else none)
  | _ => sought

def sessionStep (σ : Session) (call : FileCall) : Option Long × Session :=
  let r := fileStep σ.files call
  (r.1, ⟨r.2, soughtAfter call r.1 σ.sought⟩)

def FileCall.handle : FileCall → Option (BitVec 16)
  | .fopen _ _ => none
  | .fcreate _ => none
  | .fclose h => some h
  | .fread h _ _ _ => some h
  | .fwrite h _ _ _ => some h
  | .fseek _ h _ => some h
  | .fdatime _ h _ _ => some h

def Delivers (σ : Session) : FileCall → Prop
  | .fread h len buf io => ∀ off, σ.sought h.toNat = some off → io.memory = true →
      io.transfer.ioError = false → ∃ content, σ.files.content h = some content ∧
        (fileStep σ.files (.fread h len buf io)).1 =
          some (BitVec.ofNat 32 ((content.drop off).take len.toNat).length) ∧
        (fileStep σ.files (.fread h len buf io)).2.machine =
          copyOut buf ((content.drop off).take len.toNat) σ.files.machine
  | .fdatime ptr h wflag mtime => wflag = 0 → ∃ fd o, σ.files.bound h = some fd ∧
      σ.files.kernel.lookup fd = some o ∧ (fileStep σ.files (.fdatime ptr h wflag mtime)).2.machine =
        m68kWriteMemory32 ptr (datime (mtime o.file)) σ.files.machine
  | _ => True

structure OneFile (σ : Session) (call : FileCall) : Prop where
  returns : ∀ h, call.handle = some h → ∃ r, (fileStep σ.files call).1 = some r ∧
    (r = GEMDOS_EIHNDL ↔ ¬ σ.files.Allocated h)
  acts : ∀ h, call.handle = some h →
    ActsOn (σ.files.bound h) σ.files.kernel (fileStep σ.files call).2.kernel
  delivers : Delivers σ call

structure Clean (s : Stream) : Prop where
  readable : s.mode.readable = true
  error : s.error = false
  eof : s.eof = false
  readAhead : s.readAhead = []
  pending : s.pending = []

def SeekAgrees (σ : FileState) (offset : Long) (h seekmode : BitVec 16) : Prop :=
  match seekWhence seekmode with
  | none => σ.Allocated h
  | some whence =>
    σ.bound h = some h.toNat ∧ SeekFits σ.kernel h.toNat offset.toInt whence ∨
      ¬ σ.Allocated h ∧ σ.kernel.lookup h.toNat = none

/-- Where the calls agree: streams for the calls that use one, descriptors of the handle's own number
for the others. Fewer than `2 ^ 31` bytes are copied, for the counter of the loop is an `int`. -/
def Agrees (σ : Session) : FileCall → Prop
  | .fopen _ _ => True
  | .fcreate _ => True
  | .fclose h => σ.files.Allocated h → (σ.files.stream h.toNat).isSome
  | .fread h len _ io => σ.files.Allocated h → io.memory = true →
      ∃ s, σ.files.stream h.toNat = some s ∧ (io.transfer.ioError = false →
        min len.toNat (s.available σ.files.kernel) < 2 ^ 31 ∧
          ((σ.sought h.toNat).isSome → Clean s))
  | .fwrite h len _ io => σ.files.Allocated h → io.memory = true →
      (σ.files.stream h.toNat).isSome ∧ len.toNat < 2 ^ 31
  | .fseek offset h seekmode => SeekAgrees σ.files offset h seekmode
  | .fdatime _ h wflag _ => σ.files.Allocated h ∧ (wflag = 0 → σ.files.bound h = some h.toNat)

structure SessionInv (σ : Session) : Prop where
  sound : Sound σ.files
  sought : ∀ i off, σ.sought i = some off → ∃ s o, σ.files.stream i = some s ∧
    σ.files.kernel.lookup s.fd = some o ∧ o.pos = off

section Step

variable {σ : Session}

theorem extends_inv (hi : SessionInv σ) {σ' : FileState} (he : Extends σ.files σ') :
    SessionInv ⟨σ', σ.sought⟩ where
  sound := he.sound hi.sound
  sought i off hoff := by
    obtain ⟨s, o, hs, ho, hpos⟩ := hi.sought i off hoff
    obtain ⟨hs', hk⟩ := he.keeps i s hi.sound hs
    exact ⟨s, o, hs', hk.trans ho, hpos⟩

theorem acts_inv (hi : SessionInv σ) {h : ℕ} {σ' : FileState} (ha : Acts h σ.files σ')
    {new : Option ℕ} (hnew : ∀ off, new = some off → ∃ s o, σ'.stream h = some s ∧
      σ'.kernel.lookup s.fd = some o ∧ o.pos = off) :
    SessionInv ⟨σ', Function.update σ.sought h new⟩ where
  sound := ha.sound hi.sound
  sought i off hoff := by
    by_cases hih : i = h
    · subst hih
      exact hnew off (by simpa using hoff)
    · obtain ⟨s, o, hs, ho, hpos⟩ := hi.sought i off (by simpa [hih] using hoff)
      exact ⟨s, o, (ha.others i hih).trans hs, (ha.lookup_other hi.sound hih hs).trans ho, hpos⟩

theorem forgets (hi : SessionInv σ) {h : ℕ} {σ' : FileState} (ha : Acts h σ.files σ') :
    SessionInv ⟨σ', Function.update σ.sought h none⟩ := acts_inv hi ha (by simp)

theorem oneFile_of_acts {call : FileCall} {h : BitVec 16} (hcall : call.handle = some h)
    (hr : ∃ r, (fileStep σ.files call).1 = some r ∧ (r = GEMDOS_EIHNDL ↔ ¬ σ.files.Allocated h))
    (ha : Acts h.toNat σ.files (fileStep σ.files call).2) (hdelivers : Delivers σ call) :
    OneFile σ call := by
  refine ⟨?_, ?_, hdelivers⟩
  · intro h' h'call
    obtain rfl : h = h' := Option.some.inj (hcall.symm.trans h'call)
    exact hr
  · intro h' h'call
    obtain rfl : h = h' := Option.some.inj (hcall.symm.trans h'call)
    exact ha.kernel

theorem not_sought (hi : SessionInv σ) {h : BitVec 16} (ha : ¬ σ.files.Allocated h) :
    σ.sought h.toNat = none := by
  rw [Option.eq_none_iff_forall_ne_some]
  intro off hoff
  obtain ⟨s, o, hs, -⟩ := hi.sought _ off hoff
  exact ha (FileState.allocated_of_stream hs)

theorem refused_session (hi : SessionInv σ) {c : FileCall} {h : BitVec 16}
    (hcall : c.handle = some h) {r : Long} (hstep : fileStep σ.files c = (some r, σ.files))
    (hr : r = GEMDOS_EIHNDL ↔ ¬ σ.files.Allocated h) (hdelivers : Delivers σ c) :
    SessionInv ⟨(fileStep σ.files c).2, Function.update σ.sought h.toNat none⟩ ∧ OneFile σ c := by
  have hacts : Acts h.toNat σ.files (fileStep σ.files c).2 := by
    rw [hstep]
    exact Acts.refl _ _
  exact ⟨forgets hi hacts, oneFile_of_acts hcall ⟨r, by rw [hstep], hr⟩ hacts hdelivers⟩

theorem invalid_session (hi : SessionInv σ) {c : FileCall} {h : BitVec 16}
    (hcall : c.handle = some h) (ha : ¬ σ.files.Allocated h)
    (hstep : fileStep σ.files c = (some GEMDOS_EIHNDL, σ.files)) (hdelivers : Delivers σ c) :
    SessionInv ⟨(fileStep σ.files c).2, Function.update σ.sought h.toNat none⟩ ∧ OneFile σ c :=
  refused_session hi hcall hstep (by simp [ha]) hdelivers

theorem valid_code {h : BitVec 16} (ha : σ.files.Allocated h) {r : Long} (hr : r ≠ GEMDOS_EIHNDL) :
    r = GEMDOS_EIHNDL ↔ ¬ σ.files.Allocated h := by simp [ha, hr]

theorem fclose_session (hi : SessionInv σ) {h : BitVec 16} (hg : Agrees σ (.fclose h)) :
    SessionInv (sessionStep σ (.fclose h)).2 ∧ OneFile σ (.fclose h) := by
  by_cases ha : σ.files.Allocated h
  · obtain ⟨s, hs⟩ := Option.isSome_iff_exists.mp (hg ha)
    obtain ⟨hr, hacts⟩ := fclose_acts ha hs
    exact ⟨forgets hi hacts,
      oneFile_of_acts rfl ⟨_, hr, valid_code ha (by decide)⟩ hacts trivial⟩
  · exact invalid_session hi rfl ha (if_pos (FileState.invalidHandle_eq_true.mpr ha)) trivial

theorem short_count {n : ℕ} (hn : n < 2 ^ 31) : BitVec.ofNat 32 n ≠ GEMDOS_EIHNDL := by
  intro h
  have hnat := congrArg BitVec.toNat h
  have hcode : GEMDOS_EIHNDL.toNat = 2 ^ 32 - 37 := by decide
  rw [BitVec.toNat_ofNat, hcode] at hnat
  omega

theorem fread_count {s : Stream} {k : Kernel} (hopen : (k.lookup s.fd).isSome = true) (len : Long)
    {io : Stream.Transfer}
    (hshort : io.ioError = false → min len.toNat (s.available k) < 2 ^ 31) :
    (if (s.fread len.toNat io k).2.1.error then GEMDOS_EINTRN
      else BitVec.ofNat 32 (s.fread len.toNat io k).1.length) ≠ GEMDOS_EIHNDL := by
  split_ifs with he
  · decide
  · by_cases hzero : len.toNat = 0
    · rw [Stream.fread, if_pos hzero]
      exact short_count (n := 0) (by decide)
    · have hok : ¬ (s.mode.readable = false ∨ io.ioError = true) := by
        intro hbad
        rw [Stream.fread, if_neg hzero, if_pos hbad] at he
        exact he rfl
      have hio : io.ioError = false := by simpa using fun h => hok (Or.inr h)
      have hr : s.mode.readable = true := by simpa using fun h => hok (Or.inl h)
      exact short_count ((Stream.fread_length s k hr hio hopen).trans_lt (hshort hio))

theorem fread_reads (hi : SessionInv σ) {h : BitVec 16} {len buf : Long} {io : Io}
    (ha : σ.files.Allocated h) (hg : Agrees σ (.fread h len buf io)) :
    Delivers σ (.fread h len buf io) := by
  intro off hoff hmem hio
  obtain ⟨s, hs, hgood⟩ := hg ha hmem
  obtain ⟨t, o, ht, ho, hpos⟩ := hi.sought _ off hoff
  obtain rfl : s = t := Option.some.inj (hs.symm.trans ht)
  have hclean := (hgood hio).2 (by rw [hoff]; rfl)
  obtain ⟨hdata, herror⟩ := s.fread_fresh σ.files.kernel len.toNat hclean.readable hio
    hclean.readAhead hclean.pending hclean.eof ho
  have hf : (σ.files.handles h.toNat).f = some s := (FileState.stream_allocated ha).symm.trans hs
  have hvalid := FileState.invalidHandle_eq_false.mpr ha
  rw [hclean.error] at herror
  subst hpos
  refine ⟨σ.files.kernel.files o.file, ?_, ?_, ?_⟩
  · rw [FileState.content, FileState.bound, hs, Option.map_some, Option.bind_some, ho]
    rfl
  · rw [fileStep, (fread_acts ha len buf hmem hs).2, herror, hdata]
    rfl
  · simp only [fileStep, gemdosFread, hvalid, hmem, hf, Bool.false_eq_true, Bool.true_eq_false,
      if_false, herror, hdata]
    rfl

theorem fread_session (hi : SessionInv σ) {h : BitVec 16} {len buf : Long} {io : Io}
    (hg : Agrees σ (.fread h len buf io)) :
    SessionInv (sessionStep σ (.fread h len buf io)).2 ∧ OneFile σ (.fread h len buf io) := by
  by_cases ha : σ.files.Allocated h
  · have hreads := fread_reads hi ha hg
    have hvalid := FileState.invalidHandle_eq_false.mpr ha
    by_cases hmem : io.memory = true
    · obtain ⟨s, hs, hgood⟩ := hg ha hmem
      obtain ⟨hacts, hr⟩ := fread_acts ha len buf hmem hs
      have hne := fread_count (hi.sound.isOpen _ s hs) len (fun hio => (hgood hio).1)
      exact ⟨forgets hi hacts, oneFile_of_acts rfl ⟨_, hr, valid_code ha hne⟩ hacts hreads⟩
    · refine refused_session hi rfl ?_ (valid_code ha (r := GEMDOS_ENSMEM) (by decide)) hreads
      simp [fileStep, gemdosFread, hvalid, hmem]
  · exact invalid_session hi rfl ha (if_pos (FileState.invalidHandle_eq_true.mpr ha))
      (fun off hoff => by simp [not_sought hi ha] at hoff)

theorem fwrite_session (hi : SessionInv σ) {h : BitVec 16} {len buf : Long} {io : Io}
    (hg : Agrees σ (.fwrite h len buf io)) :
    SessionInv (sessionStep σ (.fwrite h len buf io)).2 ∧ OneFile σ (.fwrite h len buf io) := by
  by_cases ha : σ.files.Allocated h
  · have hvalid := FileState.invalidHandle_eq_false.mpr ha
    by_cases hmem : io.memory = true
    · obtain ⟨hsome, hlen⟩ := hg ha hmem
      obtain ⟨s, hs⟩ := Option.isSome_iff_exists.mp hsome
      obtain ⟨hacts, n, hn, hr⟩ := fwrite_acts ha len buf hmem hs
      refine ⟨forgets hi hacts, oneFile_of_acts rfl ?_ hacts trivial⟩
      rcases hr with hr | hr
      · exact ⟨_, hr, valid_code ha (by decide)⟩
      · exact ⟨_, hr, valid_code ha (short_count (hn.trans_lt hlen))⟩
    · refine refused_session hi rfl ?_ (valid_code ha (r := GEMDOS_ENSMEM) (by decide)) trivial
      simp [fileStep, gemdosFwrite, hvalid, hmem]
  · exact invalid_session hi rfl ha (if_pos (FileState.invalidHandle_eq_true.mpr ha)) trivial

theorem seekTarget_sound {offset : Long} {h seekmode : BitVec 16} {s : Stream}
    (hfd : s.fd = h.toNat) {off : ℕ}
    (hoff : (if seekmode = 0 ∧ 0 ≤ offset.toInt ∧
      (gemdosFseek offset h seekmode σ.files).1 = some offset then some offset.toNat
        else none) = some off) :
    ∃ o, (gemdosFseek offset h seekmode σ.files).2.kernel.lookup s.fd = some o ∧ o.pos = off := by
  split_ifs at hoff with hseek
  obtain ⟨rfl, hpos, hr⟩ := hseek
  obtain ⟨o, ho, hat⟩ := fseek_position hpos hr
  exact ⟨o, hfd ▸ ho, hat.trans (Option.some.inj hoff)⟩

theorem fseek_stream (offset : Long) (h seekmode : BitVec 16) (τ : FileState) (i : ℕ) :
    (gemdosFseek offset h seekmode τ).2.stream i = τ.stream i := by
  unfold gemdosFseek
  split
  · rfl
  · dsimp only
    split <;> rfl

theorem fseek_bound_session (hi : SessionInv σ) {offset : Long} {h seekmode : BitVec 16}
    {whence : Whence} (hw : seekWhence seekmode = some whence) (hb : σ.files.bound h = some h.toNat)
    (hfits : SeekFits σ.files.kernel h.toNat offset.toInt whence) :
    SessionInv (sessionStep σ (.fseek offset h seekmode)).2 ∧
      OneFile σ (.fseek offset h seekmode) := by
  obtain ⟨s, hs, hfd⟩ := Option.map_eq_some_iff.mp hb
  obtain ⟨o, ho⟩ := Option.isSome_iff_exists.mp (hi.sound.isOpen _ s hs)
  obtain ⟨r, hr, hne⟩ := fseek_returns (hfd ▸ ho) offset hw hfits
  have ha := FileState.allocated_of_bound hb
  have hacts := fseek_acts hb offset seekmode
  refine ⟨acts_inv hi hacts ?_, oneFile_of_acts rfl ⟨r, hr, valid_code ha hne⟩ hacts trivial⟩
  intro off hoff
  obtain ⟨o', ho', hpos⟩ := seekTarget_sound hfd hoff
  exact ⟨s, o', (fseek_stream _ _ _ _ _).trans hs, ho', hpos⟩

theorem fseek_refused_session (hi : SessionInv σ) {offset : Long} {h seekmode : BitVec 16} {r : Long}
    (hstep : gemdosFseek offset h seekmode σ.files = (some r, σ.files)) (hneg : r.toInt < 0)
    (hr : r = GEMDOS_EIHNDL ↔ ¬ σ.files.Allocated h) :
    SessionInv (sessionStep σ (.fseek offset h seekmode)).2 ∧
      OneFile σ (.fseek offset h seekmode) := by
  have hsession := refused_session (c := .fseek offset h seekmode) hi rfl hstep hr trivial
  have hnone : ¬ (seekmode = 0 ∧ 0 ≤ offset.toInt ∧ r = offset) := by
    rintro ⟨-, hpos, rfl⟩
    omega
  refine ⟨?_, hsession.2⟩
  have hinv := hsession.1
  simp only [sessionStep, soughtAfter, fileStep, hstep, Option.some.injEq, if_neg hnone] at hinv ⊢
  exact hinv

theorem fseek_session (hi : SessionInv σ) {offset : Long} {h seekmode : BitVec 16}
    (hg : SeekAgrees σ.files offset h seekmode) :
    SessionInv (sessionStep σ (.fseek offset h seekmode)).2 ∧
      OneFile σ (.fseek offset h seekmode) := by
  unfold SeekAgrees at hg
  cases hw : seekWhence seekmode with
  | none =>
    rw [hw] at hg
    have hstep : gemdosFseek offset h seekmode σ.files = (some GEMDOS_EINVAL, σ.files) := by
      rw [gemdosFseek, hw]
    exact fseek_refused_session hi hstep (by decide) (valid_code hg (by decide))
  | some whence =>
    rw [hw] at hg
    rcases hg with ⟨hb, hfits⟩ | ⟨ha, hclosed⟩
    · exact fseek_bound_session hi hw hb hfits
    · apply fseek_refused_session hi (fseek_closed hclosed offset hw) (by decide)
      simp [ha]

theorem fdatime_session (hi : SessionInv σ) {ptr : Long} {h wflag : BitVec 16} {mtime : ℕ → Tm}
    (hg : Agrees σ (.fdatime ptr h wflag mtime)) :
    SessionInv (sessionStep σ (.fdatime ptr h wflag mtime)).2 ∧
      OneFile σ (.fdatime ptr h wflag mtime) := by
  obtain ⟨ha, hb⟩ := hg
  refine ⟨extends_inv hi (fdatime_extends ptr h wflag mtime), ?_⟩
  by_cases hw : wflag = 0
  · subst hw
    obtain ⟨o, ho, hr, hmachine, hacts⟩ := fdatime_acts (hb rfl) hi.sound ptr mtime
    exact oneFile_of_acts rfl ⟨0, hr, valid_code ha (by decide)⟩ hacts
      (fun _ => ⟨_, o, hb rfl, ho, hmachine⟩)
  · have hstep : fileStep σ.files (.fdatime ptr h wflag mtime) = (some GEMDOS_EINVAL, σ.files) :=
      if_neg hw
    exact (refused_session hi rfl hstep (valid_code ha (by decide)) (fun h0 => absurd h0 hw)).2

theorem sessionStep_inv (σ : Session) (call : FileCall) (hi : SessionInv σ) (hg : Agrees σ call) :
    SessionInv (sessionStep σ call).2 ∧ OneFile σ call := by
  have hopen : call.handle = none → Delivers σ call → OneFile σ call := fun hnone hdelivers =>
    ⟨by simp [hnone], by simp [hnone], hdelivers⟩
  cases call with
  | fopen path mode => exact ⟨extends_inv hi (fopen_extends path mode), hopen rfl trivial⟩
  | fcreate path => exact ⟨extends_inv hi (fcreate_extends path), hopen rfl trivial⟩
  | fclose h => exact fclose_session hi hg
  | fread h len buf io => exact fread_session hi hg
  | fwrite h len buf io => exact fwrite_session hi hg
  | fseek offset h seekmode => exact fseek_session hi hg
  | fdatime ptr h wflag mtime => exact fdatime_session hi hg

end Step

theorem init_stream {m : Machine} {k : Kernel} {i : ℕ} {s : Stream}
    (hs : (gemdosFileInit m k).stream i = some s) : s.fd = i ∧ i < 2 := by
  have hf : (initHandles i).f = some s := by
    unfold FileState.stream at hs
    split_ifs at hs
    exact hs
  simp only [initHandles] at hf
  split_ifs at hf with h0 h1
  · obtain rfl := Option.some.inj hf
    exact ⟨h0.symm, by omega⟩
  · obtain rfl := Option.some.inj hf
    exact ⟨h1.symm, by omega⟩

theorem init_inv (m : Machine) {k : Kernel} (hstdin : (k.lookup 0).isSome = true)
    (hstdout : (k.lookup 1).isSome = true) : SessionInv ⟨gemdosFileInit m k, fun _ => none⟩ where
  sound := by
    constructor
    · intro i s hs
      obtain ⟨hfd, hi⟩ := init_stream hs
      have hik : i = 0 ∨ i = 1 := by omega
      rw [hfd]
      rcases hik with rfl | rfl
      · exact hstdin
      · exact hstdout
    · intro i j s t hs ht hfd
      rw [← (init_stream hs).1, ← (init_stream ht).1, hfd]
  sought i off hoff := by simp at hoff

theorem one_handle_one_file (m : Machine) (k : Kernel) (hstdin : (k.lookup 0).isSome = true)
    (hstdout : (k.lookup 1).isSome = true) (calls : List FileCall)
    (h : Along sessionStep Agrees ⟨gemdosFileInit m k, fun _ => none⟩ calls) :
    Along sessionStep OneFile ⟨gemdosFileInit m k, fun _ => none⟩ calls :=
  along_mono (fun σ call hi hg => (sessionStep_inv σ call hi hg).1)
    (fun σ call hi hg => (sessionStep_inv σ call hi hg).2) (init_inv m hstdin hstdout) h

def inherited (n : ℕ) : Kernel := ⟨List.replicate n (some ⟨0, 0, false⟩), fun _ => [1, 2, 3, 4], []⟩

def idleMachine : Machine where
  cpu := Cpu.coldCore
  memory := addPtrMemoryArea MEMORY_READWRITE 0x900 16 ⟨16, fun _ => 0⟩ []
  keepongoing := true
  dreg := fun _ => 0
  areg := fun _ => 0
  crashed := false

theorem one_handle_one_file_read :
    Along sessionStep OneFile ⟨gemdosFileInit idleMachine (inherited 6), fun _ => none⟩
      [.fopen (.file 1 true) 0, .fseek 1 6 0, .fread 6 2 0x900 ⟨true, false, 0, true⟩, .fclose 6] := by
  refine one_handle_one_file _ _ rfl rfl _ ⟨trivial, Or.inl ⟨by decide, ?_⟩, ?_, ?_, trivial⟩
  · intro o _ _ _ _
    have hne : BitVec.ofInt 32 (((0 : ℕ) : Int) + 1) ≠ GEMDOS_EIHNDL := by decide
    exact hne
  · intro _ _
    exact ⟨_, rfl, fun _ => ⟨by decide, fun _ => ⟨rfl, rfl, rfl, rfl, rfl⟩⟩⟩
  · exact fun _ => rfl

theorem seek_after_open_invalid :
    let σ : Session := ⟨gemdosFileInit idleMachine (inherited 3), fun _ => none⟩
    let calls : List FileCall := [.fopen (.file 1 true) 0, .fseek 0 6 0]
    results sessionStep σ calls = [some 6, some GEMDOS_EIHNDL] ∧ ¬ Along sessionStep OneFile σ calls := by
  refine ⟨by decide, ?_⟩
  intro h
  obtain ⟨r, hr, hiff⟩ := h.2.1.returns 6 rfl
  have hcode : r = GEMDOS_EIHNDL := Option.some.inj (hr.symm.trans (by decide))
  exact hiff.mp hcode (by unfold FileState.Allocated; decide)

end Tosemu.File
