import Tosemu.SystemCalls

namespace Tosemu.Console

def ascii (s : String) : List Byte := s.toList.map (fun c => BitVec.ofNat 8 c.toNat)

/-- `%x` -/
def hexText (x : Long) : List Byte := (Nat.toDigits 16 x.toNat).map (fun c => BitVec.ofNat 8 c.toNat)

def refusal (address : Long) (m : Machine) : List Byte :=
  let kind := if (findMemarea m.memory address).isNone then "non-existing" else "non-readable"
  ascii ("Attempted to read " ++ kind ++ " memory at 0x") ++ hexText address ++ [newline]

def readMessage (address : Long) (m : Machine) : List Byte :=
  match findMemarea m.memory address with
  | none => refusal address m
  | some area => if area.flags &&& m.readMask ≠ 0 then [] else refusal address m

/-- `out` is what goes to the standard output. -/
structure Printed where
  res : Long
  out : List Byte
  machine : Machine

def cconwsRounds : ℕ → Long → Long → List Byte → Machine → Option Printed
  | 0, _, _, _, _ => none
  | n + 1, adr, res, out, m =>
    let r := m68kReadDisassembler8 adr m
    let out := out ++ readMessage adr m
    let ch : Byte := r.1.setWidth 8
    if ch = 0 then some ⟨res, out, r.2⟩ else cconwsRounds n (adr + 1) (res + 1) (out ++ [ch]) r.2

def gemdosCconws (fuel : ℕ) (adr : Long) (m : Machine) : Option Printed := cconwsRounds fuel adr 0 [] m

theorem cconwsRounds_loop {n : ℕ} {adr res : Long} {out : List Byte} {m : Machine} {r : Printed}
    (h : cconwsRounds n adr res out m = some r) :
    Calls.cconwsLoop n adr res m = (some r.res, r.machine) := by
  induction n generalizing adr res out m with
  | zero => exact absurd h.symm (Option.some_ne_none _)
  | succ n ih =>
    rw [cconwsRounds] at h
    rw [Calls.cconwsLoop]
    split_ifs at h ⊢
    · rw [← Option.some.inj h]
    · exact ih h

def Ends (m : Machine) (x : Long) : Prop := ¬ Readable m x ∨ memByte m.memory x = some 0

def stopMessage (m : Machine) (x : Long) : List Byte := if Readable m x then [] else refusal x m

instance (m : Machine) (x : Long) : Decidable (Ends m x) := inferInstanceAs (Decidable (_ ∨ _))

def stringBytes (m : Machine) (a : Long) (n : ℕ) : List Byte :=
  (List.range n).map (fun k => (memByte m.memory (a + BitVec.ofNat 32 k)).getD 0)

theorem stringBytes_succ (m : Machine) (a : Long) (n : ℕ) :
    stringBytes m a (n + 1) = (memByte m.memory a).getD 0 :: stringBytes m (a + 1) n := by
  rw [stringBytes, stringBytes, List.range_succ_eq_map, List.map_cons, List.map_map, BitVec.add_zero]
  simp only [succ_add_ofNat, Function.comp_def]

section Rounds

variable {m : Machine} {a : Long}

theorem readByte_eq_zero_iff (x : Long) : readByte m x = 0 ↔ Ends m x := by
  rw [readByte, Ends]
  by_cases hr : Readable m x
  · obtain ⟨v, hv⟩ := Option.isSome_iff_exists.mp hr.1
    simp [hr, hv]
  · simp [hr]

theorem readMessage_readable {x : Long} (h : Readable m x) : readMessage x m = [] := by
  obtain ⟨hbyte, hflags⟩ := h
  unfold readMessage
  cases hfind : findMemarea m.memory x with
  | none =>
    rw [memByte, hfind] at hbyte
    cases hbyte
  | some area =>
    rw [memFlags, hfind] at hflags
    exact if_pos hflags

theorem readMessage_refused {x : Long} (h : Plain m x) (hr : ¬ Readable m x) :
    readMessage x m = refusal x m := by
  unfold readMessage
  cases hfind : findMemarea m.memory x with
  | none => rfl
  | some area =>
    have hflags : memFlags m.memory x = area.flags := by rw [memFlags, hfind]; rfl
    dsimp only
    rw [if_neg]
    rw [← hflags, not_not]
    by_contra hok
    refine hr ⟨?_, hok⟩
    rw [Option.isSome_iff_ne_none]
    exact fun hnone => hok (h hnone)

theorem refusal_ne_nil (x : Long) (m : Machine) : refusal x m ≠ [] :=
  List.append_ne_nil_of_right_ne_nil _ (List.cons_ne_nil _ _)

theorem readMessage_eq (h : UserMap m) (x : Long) : readMessage x m = stopMessage m x := by
  unfold stopMessage
  split_ifs with hr
  · exact readMessage_readable hr
  · exact readMessage_refused (h.plain x) hr

theorem cconwsRounds_step (h : UserMap m) (n : ℕ) (adr res : Long) (out : List Byte) :
    cconwsRounds (n + 1) adr res out m =
      if Ends m adr then
        some ⟨res, out ++ stopMessage m adr, haltUnless (decide (Readable m adr)) m⟩
      else cconwsRounds n (adr + 1) (res + 1) (out ++ [(memByte m.memory adr).getD 0]) m := by
  have hread : m68kReadDisassembler8 adr m =
      ((readByte m adr).setWidth 32, haltUnless (decide (Readable m adr)) m) := by
    rw [m68kReadDisassembler8, tosRead_plain (h.plain adr)]
  rw [cconwsRounds, hread, readMessage_eq h]
  dsimp only
  rw [File.low_byte_setWidth]
  by_cases hends : Ends m adr
  · rw [if_pos hends, if_pos ((readByte_eq_zero_iff adr).mpr hends)]
  · have hr : Readable m adr := not_not.mp (not_or.mp hends).1
    have hbyte : readByte m adr = (memByte m.memory adr).getD 0 := if_pos hr
    rw [if_neg hends, if_neg (mt (readByte_eq_zero_iff adr).mp hends), hbyte, decide_eq_true hr, stopMessage,
      if_pos hr]
    simp [haltUnless]

theorem cconwsRounds_run (h : UserMap m) {n fuel : ℕ} (hfuel : n < fuel) (adr res : Long)
    (out : List Byte) (hends : Ends m (adr + BitVec.ofNat 32 n))
    (hgo : ∀ k < n, ¬ Ends m (adr + BitVec.ofNat 32 k)) :
    cconwsRounds fuel adr res out m =
      some ⟨res + BitVec.ofNat 32 n, out ++ (stringBytes m adr n ++ stopMessage m (adr + BitVec.ofNat 32 n)),
        haltUnless (decide (Readable m (adr + BitVec.ofNat 32 n))) m⟩ := by
  induction n generalizing fuel adr res out with
  | zero =>
    obtain ⟨fuel, rfl⟩ := Nat.exists_eq_succ_of_ne_zero (by omega : fuel ≠ 0)
    rw [BitVec.add_zero] at hends
    rw [cconwsRounds_step h, if_pos hends, BitVec.add_zero, BitVec.add_zero]
    rfl
  | succ n ih =>
    obtain ⟨fuel, rfl⟩ := Nat.exists_eq_succ_of_ne_zero (by omega : fuel ≠ 0)
    have hfirst := hgo 0 (Nat.succ_pos n)
    rw [BitVec.add_zero] at hfirst
    rw [cconwsRounds_step h, if_neg hfirst, ih (by omega), succ_add_ofNat, succ_add_ofNat,
      stringBytes_succ, List.append_assoc]
    · rfl
    · rwa [succ_add_ofNat]
    · intro k hk
      rw [succ_add_ofNat]
      exact hgo (k + 1) (by omega)

end Rounds

section TosMap

variable {b : TosBuffers} {m : Machine}

/-- No area of the map reaches the last address, and the loop comes to it from everywhere. -/
theorem exists_end (hm : m.memory = registerAreas b) (a : Long) :
    ∃ n < 2 ^ 32, Ends m (a + BitVec.ofNat 32 n) := by
  refine ⟨(0xffffffff - a).toNat, (0xffffffff - a).isLt, Or.inl fun hr => ?_⟩
  have hlast : a + BitVec.ofNat 32 (0xffffffff - a).toNat = 0xffffffff := by
    rw [BitVec.ofNat_toNat, BitVec.setWidth_eq, BitVec.add_comm, BitVec.sub_add_cancel]
  have hmapped := hr.1
  rw [hlast, hm] at hmapped
  exact absurd (mapped_bounds hmapped).1 (by decide)

theorem exists_first_end (hm : m.memory = registerAreas b) (a : Long) :
    ∃ n < 2 ^ 32, Ends m (a + BitVec.ofNat 32 n) ∧ ∀ k < n, ¬ Ends m (a + BitVec.ofNat 32 k) := by
  obtain ⟨n, hn, hends⟩ := exists_end hm a
  have hex : ∃ n, Ends m (a + BitVec.ofNat 32 n) := ⟨n, hends⟩
  refine ⟨Nat.find hex, (Nat.find_le hends).trans_lt hn, Nat.find_spec hex, ?_⟩
  intro k hk
  exact Nat.find_min hex hk

end TosMap

structure PrintsString (m : Machine) (a : Long) (n : ℕ) (said : List Byte) (r : Printed) : Prop where
  count : r.res.toNat = n
  ends : Ends m (a + BitVec.ofNat 32 n)
  before : ∀ k < n, ¬ Ends m (a + BitVec.ofNat 32 k)
  out : r.out = stringBytes m a n ++ said
  halted : r.machine.keepongoing = false ↔
    m.keepongoing = false ∨ ¬ Readable m (a + BitVec.ofNat 32 n)
  kept : r.machine = { m with keepongoing := r.machine.keepongoing }

theorem gemdosCconws_eq {m : Machine} (h : UserMap m) {a : Long} {n fuel : ℕ} (hfuel : n < fuel)
    (hends : Ends m (a + BitVec.ofNat 32 n)) (hgo : ∀ k < n, ¬ Ends m (a + BitVec.ofNat 32 k)) :
    gemdosCconws fuel a m = some ⟨BitVec.ofNat 32 n,
      stringBytes m a n ++ stopMessage m (a + BitVec.ofNat 32 n),
      haltUnless (decide (Readable m (a + BitVec.ofNat 32 n))) m⟩ := by
  have hzero : (0 : Long) + BitVec.ofNat 32 n = BitVec.ofNat 32 n := BitVec.zero_add _
  rw [gemdosCconws, cconwsRounds_run h hfuel a 0 [] hends hgo, hzero, List.nil_append]

theorem exists_printed {b : TosBuffers} {m : Machine} (hm : m.memory = registerAreas b)
    (hu : m.cpu.sFlag = false) (a : Long) :
    ∃ n < 2 ^ 32, ∃ r, PrintsString m a n (stopMessage m (a + BitVec.ofNat 32 n)) r ∧
      ∀ fuel > n, gemdosCconws fuel a m = some r := by
  obtain ⟨n, hn, hends, hbefore⟩ := exists_first_end hm a
  have hcount : (BitVec.ofNat 32 n).toNat = n := by
    rw [BitVec.toNat_ofNat, Nat.mod_eq_of_lt hn]
  have hhalted : (haltUnless (decide (Readable m (a + BitVec.ofNat 32 n))) m).keepongoing = false ↔
      m.keepongoing = false ∨ ¬ Readable m (a + BitVec.ofNat 32 n) := by
    rw [haltUnless, Bool.and_eq_false_iff, decide_eq_false_iff_not]
  exact ⟨n, hn, _, ⟨hcount, hends, hbefore, rfl, hhalted, rfl⟩,
    fun fuel hfuel => gemdosCconws_eq (registerAreas_userMap b hm hu) hfuel hends hbefore⟩

theorem cconwsLoop_prints {b : TosBuffers} {m : Machine} (hm : m.memory = registerAreas b)
    (hu : m.cpu.sFlag = false) (a : Long) :
    ∃ n < 2 ^ 32, ∃ r, PrintsString m a n (stopMessage m (a + BitVec.ofNat 32 n)) r ∧
      ∀ fuel > n, Calls.cconwsLoop fuel a 0 m = (some r.res, r.machine) := by
  obtain ⟨n, hn, r, hprints, hrun⟩ := exists_printed hm hu a
  exact ⟨n, hn, r, hprints, fun fuel hfuel => cconwsRounds_loop (hrun fuel hfuel)⟩

theorem cconws_prints_string (b : TosBuffers) (m : Machine) (hm : m.memory = registerAreas b)
    (hu : m.cpu.sFlag = false) (a : Long) :
    ∃ n r, PrintsString m a n (stopMessage m (a + BitVec.ofNat 32 n)) r ∧
      ∀ fuel > n, gemdosCconws fuel a m = some r := by
  obtain ⟨n, -, r, hprints, hrun⟩ := exists_printed hm hu a
  exact ⟨n, r, hprints, hrun⟩

theorem PrintsString.length_eq {m : Machine} {a : Long} {n n' : ℕ} {said : List Byte} {r : Printed}
    (h : PrintsString m a n said r) (hends : Ends m (a + BitVec.ofNat 32 n'))
    (hbefore : ∀ k < n', ¬ Ends m (a + BitVec.ofNat 32 k)) : n = n' := by
  rcases lt_trichotomy n n' with hlt | heq | hlt
  · exact absurd h.ends (hbefore n hlt)
  · exact heq
  · exact absurd hends (h.before n' hlt)

def textBuffers : TosBuffers :=
  { supervisorFilled 0 with
    appmem := ⟨tosSize.toNat, fun i => if i % 3 = 0 then 0x61 else if i % 3 = 1 then 0x62 else 0⟩
    appmem_size := rfl }

theorem cconws_prints_string_ab : ∃ r, PrintsString (coldMachine textBuffers) 0x900 2 [] r ∧
    r.out = [0x61, 0x62] ∧ ∀ fuel > 2, gemdosCconws fuel 0x900 (coldMachine textBuffers) = some r := by
  obtain ⟨n, r, hprints, hrun⟩ := cconws_prints_string textBuffers (coldMachine textBuffers) rfl rfl 0x900
  have hends : Ends (coldMachine textBuffers) (0x900 + BitVec.ofNat 32 2) := by decide +kernel
  have hbefore : ∀ k < 2, ¬ Ends (coldMachine textBuffers) (0x900 + BitVec.ofNat 32 k) := by decide +kernel
  obtain rfl : n = 2 := hprints.length_eq hends hbefore
  have hsaid : stopMessage (coldMachine textBuffers) (0x900 + BitVec.ofNat 32 2) = [] := by decide +kernel
  rw [hsaid] at hprints
  have hbytes : stringBytes (coldMachine textBuffers) 0x900 2 = [0x61, 0x62] := by decide +kernel
  refine ⟨r, hprints, ?_, hrun⟩
  rw [hprints.out, hbytes, List.append_nil]

theorem cconws_prints_message :
    ¬ ∃ n r, PrintsString (coldMachine textBuffers) 0xFFFFFF00 n [] r ∧
      ∀ fuel > n, gemdosCconws fuel 0xFFFFFF00 (coldMachine textBuffers) = some r := by
  rintro ⟨n, r, hprints, hrun⟩
  have hrefused : ¬ Readable (coldMachine textBuffers) (0xFFFFFF00 + BitVec.ofNat 32 0) := by decide +kernel
  have hends : Ends (coldMachine textBuffers) (0xFFFFFF00 + BitVec.ofNat 32 0) := Or.inl hrefused
  obtain rfl : n = 0 := hprints.length_eq hends (fun k hk => absurd hk (Nat.not_lt_zero k))
  have hmap : UserMap (coldMachine textBuffers) := registerAreas_userMap textBuffers rfl rfl
  have hout := hrun 1 (by decide)
  rw [gemdosCconws_eq hmap (by decide) hends (fun k hk => absurd hk (Nat.not_lt_zero k)), stopMessage,
    if_neg hrefused] at hout
  have hsame := hprints.out
  rw [← Option.some.inj hout, List.append_nil] at hsame
  exact refusal_ne_nil _ _ (List.append_right_eq_self.mp hsame)

end Tosemu.Console
