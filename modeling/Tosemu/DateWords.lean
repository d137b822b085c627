import Tosemu.BitFields
import Tosemu.SystemCalls

namespace Tosemu.DateWords

open BitFields Search

/-- The broken-down times that the words have room for; a second may be a leap second. -/
structure Calendar (lt : File.Tm) : Prop where
  sec : 0 ≤ lt.sec ∧ lt.sec ≤ 60
  min : 0 ≤ lt.min ∧ lt.min ≤ 59
  hour : 0 ≤ lt.hour ∧ lt.hour ≤ 23
  mday : 1 ≤ lt.mday ∧ lt.mday ≤ 31
  mon : 0 ≤ lt.mon ∧ lt.mon ≤ 11
  year : 1980 ≤ lt.year + 1900 ∧ lt.year + 1900 ≤ 2107

def decodeTime (time : BitVec 16) : ℕ × ℕ × ℕ := (field time 0 5, field time 5 6, field time 11 5)

def decodeDate (date : BitVec 16) : ℕ × ℕ × ℕ := (field date 0 5, field date 5 4, field date 9 7)

/-- The numbers of a time from the year down; two times compare as these lists. -/
def moment (lt : File.Tm) : List Int := [lt.year, lt.mon, lt.mday, lt.hour, lt.min, lt.sec / 2]

def matched (dir : HostDir) (p : HostPtr) (σ : SearchState) : SearchCall → Option (List Byte)
  | .fsetdta _ => none
  | .fsfirst filename =>
    if (accepted dir filename σ.machine).1 = 0 ∨ (found dir filename σ.machine).1 ≠ 0 then none
    else (found dir filename σ.machine).2.head?
  | .fsnext =>
    let gres := gemdosFindDta (hostLoad .little p 0 σ.machine.memory) σ.globhead
    let i := hostLoad .little p 4 σ.machine.memory + 1
    (gres.bind Globitem.g).bind (fun pathv => pathv[(i.signExtend 64).toNat]?)

structure Encodes (lt : File.Tm) (time date : BitVec 16) : Prop where
  tgettime : Calls.gemdosTgettime lt = time.setWidth 32
  tgetdate : Calls.gemdosTgetdate lt = date.setWidth 32
  dta : ∀ (dir : HostDir) (p : HostPtr) (σ : SearchState) (call : SearchCall) (path : List Byte),
    Points σ.machine.memory σ.dtaAddr 44 p → matched dir p σ call = some path →
    (dir.stat path).mtime = lt →
    ∀ m : Machine, m.memory = (searchCall .little dir σ call).2.machine.memory →
      (∀ k < 4, Readable m (σ.dtaAddr + BitVec.ofNat 32 (22 + k))) →
      m68kReadMemory16 (σ.dtaAddr + 22) m = (time.setWidth 32, m) ∧
        m68kReadMemory16 (σ.dtaAddr + 24) m = (date.setWidth 32, m)
  fdatime : ∀ (ptr : Long) (h : BitVec 16) (mtime : ℕ → File.Tm) (σ : File.FileState) (file : ℕ),
    (σ.kernel.fstat h.toNat).1 = some file → mtime file = lt →
    (File.gemdosFdatime ptr h 0 mtime σ).2.machine = m68kWriteMemory32 ptr (date ++ time) σ.machine

section Words

variable {lt : File.Tm}

theorem Calendar.numbers (h : Calendar lt) : ∃ sec min hour mday mon year : ℕ,
    lt = ⟨sec, min, hour, mday, mon, year + 80⟩ ∧ sec ≤ 60 ∧ min < 60 ∧ hour < 24 ∧ mday < 32 ∧
      mon < 12 ∧ year < 128 := by
  obtain ⟨⟨hs, hs'⟩, ⟨hmi, hmi'⟩, ⟨hh, hh'⟩, ⟨hd, hd'⟩, ⟨hmo, hmo'⟩, ⟨hy, hy'⟩⟩ := h
  refine ⟨lt.sec.toNat, lt.min.toNat, lt.hour.toNat, lt.mday.toNat, lt.mon.toNat,
    (lt.year - 80).toNat, ?_, by omega, by omega, by omega, by omega, by omega, by omega⟩
  obtain ⟨sec, min, hour, mday, mon, year⟩ := lt
  simp only [File.Tm.mk.injEq] at *
  omega

theorem gemdosTgettime_numbers (sec min hour : ℕ) (mday mon year : ℤ) (hs : sec ≤ 60) (hm : min < 60)
    (hh : hour < 24) :
    Calls.gemdosTgettime ⟨sec, min, hour, mday, mon, year⟩ =
      BitVec.ofNat 32 (sec / 2 + min * 2 ^ 5 + hour * 2 ^ 11) := by
  have hsec : (sec : ℤ).tdiv 2 = ((sec / 2 : ℕ) : ℤ) := rfl
  rw [Calls.gemdosTgettime, hsec, BitVec.ofInt_natCast, BitVec.ofInt_natCast, BitVec.ofInt_natCast,
    ofNat_or_shiftLeft (by omega) (by omega), ofNat_or_shiftLeft (by omega) (by omega)]

theorem gemdosTgetdate_numbers (sec min hour : ℤ) (mday mon year : ℕ) (hd : mday < 32) (hm : mon < 12)
    (hy : year < 128) :
    Calls.gemdosTgetdate ⟨sec, min, hour, mday, mon, year + 80⟩ =
      BitVec.ofNat 32 (mday + (mon + 1) * 2 ^ 5 + year * 2 ^ 9) := by
  have hmon : (mon : ℤ) + 1 = ((mon + 1 : ℕ) : ℤ) := rfl
  have hyear : (year : ℤ) + 80 - 80 = (year : ℤ) := by omega
  rw [Calls.gemdosTgetdate, hmon, hyear, BitVec.ofInt_natCast, BitVec.ofInt_natCast,
    BitVec.ofInt_natCast, ofNat_or_shiftLeft (by omega) (by omega),
    ofNat_or_shiftLeft (by omega) (by omega)]

theorem datime_numbers (sec min hour mday mon year : ℕ) (hs : sec ≤ 60) (hmi : min < 60)
    (hh : hour < 24) (hd : mday < 32) (hmo : mon < 12) (hy : year < 128) :
    File.datime ⟨sec, min, hour, mday, mon, year + 80⟩ =
      BitVec.ofNat 32 (sec / 2 + min * 2 ^ 5 + hour * 2 ^ 11 + mday * 2 ^ 16 + (mon + 1) * 2 ^ 21 +
        year * 2 ^ 25) := by
  have htime := gemdosTgettime_numbers sec min hour mday mon (year + 80) hs hmi hh
  have hmon : (mon : ℤ) + 1 = ((mon + 1 : ℕ) : ℤ) := rfl
  have hyear : (year : ℤ) + 80 - 80 = (year : ℤ) := by omega
  rw [Calls.gemdosTgettime] at htime
  rw [File.datime, htime, hmon, hyear, BitVec.ofInt_natCast, BitVec.ofInt_natCast,
    BitVec.ofInt_natCast, ofNat_or_shiftLeft (by omega) (by omega),
    ofNat_or_shiftLeft (by omega) (by omega), ofNat_or_shiftLeft (by omega) (by omega)]

theorem dosTime_low (lt : File.Tm) : dosTime lt = (Calls.gemdosTgettime lt).setWidth 16 := rfl

theorem dosDate_low (lt : File.Tm) : dosDate lt = (Calls.gemdosTgetdate lt).setWidth 16 := rfl

theorem dosTime_toNat (h : Calendar lt) :
    (dosTime lt).toNat = lt.sec.toNat / 2 + lt.min.toNat * 2 ^ 5 + lt.hour.toNat * 2 ^ 11 := by
  obtain ⟨sec, min, hour, mday, mon, year, rfl, hs, hmi, hh, -⟩ := h.numbers
  rw [dosTime_low, gemdosTgettime_numbers sec min hour mday mon (year + 80) hs hmi hh,
    BitVec.setWidth_ofNat_of_le (by decide), BitVec.toNat_ofNat]
  exact Nat.mod_eq_of_lt (by omega)

theorem dosDate_toNat (h : Calendar lt) :
    (dosDate lt).toNat =
      lt.mday.toNat + (lt.mon.toNat + 1) * 2 ^ 5 + (lt.year - 80).toNat * 2 ^ 9 := by
  obtain ⟨sec, min, hour, mday, mon, year, rfl, -, -, -, hd, hmo, hy⟩ := h.numbers
  have hyear : ((year : ℤ) + 80 - 80).toNat = year := by omega
  rw [dosDate_low, gemdosTgetdate_numbers sec min hour mday mon year hd hmo hy,
    BitVec.setWidth_ofNat_of_le (by decide), BitVec.toNat_ofNat, hyear]
  exact Nat.mod_eq_of_lt (by omega)

theorem tgettime_eq (h : Calendar lt) : Calls.gemdosTgettime lt = (dosTime lt).setWidth 32 := by
  obtain ⟨sec, min, hour, mday, mon, year, rfl, hs, hmi, hh, -⟩ := h.numbers
  rw [dosTime_low, gemdosTgettime_numbers sec min hour mday mon (year + 80) hs hmi hh,
    BitVec.setWidth_ofNat_of_le (by decide), BitVec.setWidth_ofNat_of_le_of_lt (by decide) (by omega)]

theorem tgetdate_eq (h : Calendar lt) : Calls.gemdosTgetdate lt = (dosDate lt).setWidth 32 := by
  obtain ⟨sec, min, hour, mday, mon, year, rfl, -, -, -, hd, hmo, hy⟩ := h.numbers
  rw [dosDate_low, gemdosTgetdate_numbers sec min hour mday mon year hd hmo hy,
    BitVec.setWidth_ofNat_of_le (by decide), BitVec.setWidth_ofNat_of_le_of_lt (by decide) (by omega)]

theorem datime_eq (h : Calendar lt) : File.datime lt = dosDate lt ++ dosTime lt := by
  have htime := dosTime_toNat h
  have hdate := dosDate_toNat h
  obtain ⟨sec, min, hour, mday, mon, year, rfl, hs, hmi, hh, hd, hmo, hy⟩ := h.numbers
  have hyear : ((year : ℤ) + 80 - 80).toNat = year := by omega
  simp only [Int.toNat_natCast, hyear] at htime hdate
  apply BitVec.eq_of_toNat_eq
  rw [datime_numbers sec min hour mday mon year hs hmi hh hd hmo hy, BitVec.toNat_append, htime, hdate,
    ← Nat.shiftLeft_add_eq_or_of_lt (by omega), BitVec.toNat_ofNat, Nat.shiftLeft_eq,
    Nat.mod_eq_of_lt (by omega)]
  omega

theorem decodeTime_dosTime (h : Calendar lt) :
    decodeTime (dosTime lt) = ((lt.sec / 2).toNat, lt.min.toNat, lt.hour.toNat) := by
  have htime := dosTime_toNat h
  obtain ⟨sec, min, hour, mday, mon, year, rfl, hs, hmi, hh, -⟩ := h.numbers
  simp only [Int.toNat_natCast] at htime
  simp only [decodeTime, field_eq, htime, Prod.mk.injEq]
  omega

theorem decodeDate_dosDate (h : Calendar lt) :
    decodeDate (dosDate lt) = (lt.mday.toNat, (lt.mon + 1).toNat, (lt.year - 80).toNat) := by
  have hdate := dosDate_toNat h
  obtain ⟨sec, min, hour, mday, mon, year, rfl, -, -, -, hd, hmo, hy⟩ := h.numbers
  simp only [Int.toNat_natCast] at hdate
  simp only [decodeDate, field_eq, hdate, Prod.mk.injEq]
  omega

theorem moment_lt_iff {lt' : File.Tm} (h : Calendar lt) (h' : Calendar lt') :
    moment lt < moment lt' ↔
      [(dosDate lt).toNat, (dosTime lt).toNat] < [(dosDate lt').toNat, (dosTime lt').toNat] := by
  rw [dosTime_toNat h, dosDate_toNat h, dosTime_toNat h', dosDate_toNat h']
  obtain ⟨sec, min, hour, mday, mon, year, rfl, hs, hmi, hh, hd, hmo, hy⟩ := h.numbers
  obtain ⟨sec', min', hour', mday', mon', year', rfl, hs', hmi', hh', hd', hmo', hy'⟩ := h'.numbers
  simp only [moment, List.cons_lt_cons_iff, List.lt_irrefl, and_false, or_false, Int.toNat_natCast]
  omega

end Words

section Dta

variable {dir : HostDir} {p : HostPtr} {σ : SearchState} {call : SearchCall} {path : List Byte}

theorem dtaStores_matched (hp : Points σ.machine.memory σ.dtaAddr 44 p)
    (h : matched dir p σ call = some path) :
    ∃ fields, dtaStores .little dir σ call = fields ++ dtaFields .little (dir.stat path) path := by
  have hdta := hp.tosMemToHostMem (by omega)
  cases call with
  | fsetdta addr => simp [matched] at h
  | fsfirst filename =>
    rw [matched] at h
    split_ifs at h with hfail
    obtain ⟨rest, hfound⟩ := List.head?_eq_some_iff.mp h
    refine ⟨[(0, Endian.little.bytes (σ.sid + 1)), (4, Endian.little.bytes 0)], ?_⟩
    rw [dtaStores, fsfirstStores, if_neg hfail, hfound, hdta]
  | fsnext =>
    refine ⟨[(4, Endian.little.bytes (hostLoad .little p 4 σ.machine.memory + 1))], ?_⟩
    simp only [matched] at h
    simp only [dtaStores, fsnextStores, hdta, h]
    rfl

theorem searchCall_holdsMatch (hp : Points σ.machine.memory σ.dtaAddr 44 p)
    (h : matched dir p σ call = some path) :
    HoldsMatch dir (searchCall .little dir σ call).2.machine.memory σ.dtaAddr path := by
  obtain ⟨fields, hfields⟩ := dtaStores_matched hp h
  rw [searchCall_memory, hp.tosMemToHostMem (by omega), hfields]
  simp only [storeFields_append]
  exact holdsMatch_dtaFields (hp.storeFields p fields) dir path

theorem read16_bytes {m : Machine} {a : Long} {v : BitVec 16}
    (hread : ∀ k < 2, Readable m (a + BitVec.ofNat 32 k))
    (hbytes : ∀ k < 2, memByte m.memory (a + BitVec.ofNat 32 k) = (BigEndian.unpack v 2)[k]?) :
    m68kReadMemory16 a m = (v.setWidth 32, m) := by
  have hloop := readLoop_bytes (BigEndian.unpack_length v 2) hread hbytes
  rw [← BigEndian.unpack_setWidth (by decide : 16 ≤ 32)] at hloop
  have hlt := v.isLt
  rw [m68kReadMemory16, m68kReadDisassembler16, hloop]
  congr 1
  apply BitVec.eq_of_toNat_eq
  rw [BigEndian.pack_unpack, BitVec.toNat_setWidth]
  omega

theorem dta_words (hp : Points σ.machine.memory σ.dtaAddr 44 p)
    (h : matched dir p σ call = some path) {m : Machine}
    (hm : m.memory = (searchCall .little dir σ call).2.machine.memory)
    (hread : ∀ k < 4, Readable m (σ.dtaAddr + BitVec.ofNat 32 (22 + k))) :
    m68kReadMemory16 (σ.dtaAddr + 22) m = ((dosTime (dir.stat path).mtime).setWidth 32, m) ∧
      m68kReadMemory16 (σ.dtaAddr + 24) m = ((dosDate (dir.stat path).mtime).setWidth 32, m) := by
  have hholds := searchCall_holdsMatch hp h
  rw [← hm] at hholds
  have htime (k : ℕ) : σ.dtaAddr + 22 + BitVec.ofNat 32 k = σ.dtaAddr + BitVec.ofNat 32 (22 + k) := by
    rw [BitVec.ofNat_add, ← BitVec.add_assoc]
    rfl
  have hdate (k : ℕ) : σ.dtaAddr + 24 + BitVec.ofNat 32 k = σ.dtaAddr + BitVec.ofNat 32 (24 + k) := by
    rw [BitVec.ofNat_add, ← BitVec.add_assoc]
    rfl
  constructor
  · apply read16_bytes
    · intro k hk
      rw [htime]
      exact hread k (by omega)
    · intro k hk
      rw [htime]
      exact hholds.time k hk
  · apply read16_bytes
    · intro k hk
      rw [hdate, show 24 + k = 22 + (2 + k) by omega]
      exact hread (2 + k) (by omega)
    · intro k hk
      rw [hdate]
      exact hholds.date k hk

end Dta

theorem encodes {lt : File.Tm} (h : Calendar lt) : Encodes lt (dosTime lt) (dosDate lt) where
  tgettime := tgettime_eq h
  tgetdate := tgetdate_eq h
  dta := by
    rintro dir p σ call path hp hmatch rfl m hm hread
    exact dta_words hp hmatch hm hread
  fdatime := by
    rintro ptr handle mtime σ file hfile rfl
    simp only [File.gemdosFdatime, if_pos, hfile, datime_eq h]

theorem date_words (lt : File.Tm) (h : Calendar lt) :
    Encodes lt (dosTime lt) (dosDate lt) ∧
      decodeTime (dosTime lt) = ((lt.sec / 2).toNat, lt.min.toNat, lt.hour.toNat) ∧
      decodeDate (dosDate lt) = (lt.mday.toNat, (lt.mon + 1).toNat, (lt.year - 80).toNat) ∧
      ∀ lt', Calendar lt' → (moment lt < moment lt' ↔
        [(dosDate lt).toNat, (dosTime lt).toNat] < [(dosDate lt').toNat, (dosTime lt').toNat]) :=
  ⟨encodes h, decodeTime_dosTime h, decodeDate_dosDate h, fun _ h' => moment_lt_iff h h'⟩

/-- The ninth of September 2001, 1:46:40. -/
def billion : File.Tm := ⟨40, 46, 1, 9, 8, 101⟩

def billionDir : HostDir := { twoFiles with stat := fun _ => ⟨.file, billion, 5⟩ }

theorem date_words_billion :
    let m := (searchCall .little billionDir ⟨searchMachine, 0x900, 42, []⟩ (.fsfirst 0x980)).2.machine
    m68kReadMemory16 (0x900 + 22) m = (0x0dd4, m) ∧ m68kReadMemory16 (0x900 + 24) m = (0x2b29, m) ∧
      decodeTime (dosTime billion) = (20, 46, 1) ∧ decodeDate (dosDate billion) = (9, 9, 21) ∧
      [(dosDate billion).toNat, (dosTime billion).toNat] <
        [(dosDate { billion with mon := 9 }).toNat, (dosTime { billion with mon := 9 }).toNat] := by
  intro m
  have hcalendar : Calendar billion := by constructor <;> decide
  have hnext : Calendar { billion with mon := 9 } := by constructor <;> decide
  have hread : ∀ k < 4, Readable m (0x900 + BitVec.ofNat 32 (22 + k)) := by
    decide +kernel
  obtain ⟨hencodes, htime, hdate, horder⟩ := date_words billion hcalendar
  have hdta := hencodes.dta billionDir ⟨0, 0⟩ ⟨searchMachine, 0x900, 42, []⟩ (.fsfirst 0x980) [0x66]
    searchMachine_points (by decide +kernel) rfl _ rfl hread
  exact ⟨hdta.1, hdta.2, htime, hdate, (horder _ hnext).mp (by decide)⟩

end Tosemu.DateWords
