import Tosemu.FileRoundTrip

namespace Tosemu.File

open Host Runs

inductive TransferCall
  | fread (c : Chunk)
  | fwrite (c : Chunk)

namespace TransferCall

def chunk : TransferCall → Chunk
  | .fread c => c
  | .fwrite c => c

def transfer (s : Stream) (k : Kernel) : TransferCall → ℕ × Stream
  | .fread c =>
    let r := s.fread c.len.toNat c.io.transfer k
    (r.1.length, r.2.1)
  | .fwrite c =>
    let r := s.fwrite (copyIn c.buf c.len.toNat c.machine).1 c.io.transfer k
    (r.1, r.2.1)

/-- The bytes the transfer moves, if it sets no error of its own. -/
def outcome (s : Stream) (k : Kernel) (call : TransferCall) : Option ℕ :=
  let r := call.transfer { s with error := false } k
  if r.2.error then none else some r.1

def fails (mode : Mode) : TransferCall → Bool
  | .fread c => c.len.toNat != 0 && (!mode.readable || c.io.transfer.ioError)
  | .fwrite c => c.len.toNat != 0 && (!mode.writable || c.io.transfer.ioError)

end TransferCall

section Step

variable (h : BitVec 16)

def transferStep (σ : FileState) : TransferCall → Option Long × FileState
  | .fread c => readStep h σ c
  | .fwrite c => writeStep h σ c

/-- The answer is the number of bytes of the transfer itself. As the guest reads it, a negative one
is an error. -/
def OwnOutcome (σ : FileState) (call : TransferCall) : Prop :=
  ∀ s n, (σ.handles h.toNat).f = some s → call.chunk.io.memory = true →
    call.outcome s σ.kernel = some n → (transferStep h σ call).1.map BitVec.toInt = some (n : Int)

/-- The copy loops count in an `int`. -/
def Short (σ : FileState) (call : TransferCall) : Prop :=
  ∀ s n, (σ.handles h.toNat).f = some s → call.chunk.io.memory = true →
    call.outcome s σ.kernel = some n → n < 2 ^ 31

def NoneRecovers (s : Stream) (calls : List TransferCall) : Prop :=
  (s.error :: (calls.filter (fun call => call.chunk.io.memory)).map
    (TransferCall.fails s.mode)).Pairwise (fun before after => before = true → after = true)

end Step

section Indicator

variable (s : Stream) (k : Kernel) (call : TransferCall)

theorem fread_indicator (len : ℕ) (io : Stream.Transfer) :
    (s.fread len io k).1 = (Stream.fread len io { s with error := false } k).1 ∧
      (s.fread len io k).2.1.mode = s.mode ∧
      (Stream.fread len io { s with error := false } k).2.1.error =
        (len != 0 && (!s.mode.readable || io.ioError)) ∧
      (s.fread len io k).2.1.error = (s.error || (len != 0 && (!s.mode.readable || io.ioError))) := by
  unfold Stream.fread
  by_cases hzero : len = 0
  · simp [hzero]
  by_cases hfail : s.mode.readable = false ∨ io.ioError = true
  · have hflag : (!s.mode.readable || io.ioError) = true := by simpa using hfail
    simp [hzero, hfail, hflag]
  · have hflag : (!s.mode.readable || io.ioError) = false := by simpa using hfail
    simp only [hzero, hfail, hflag, if_false]
    split_ifs <;> simp

theorem fwrite_indicator (data : List Byte) (io : Stream.Transfer) :
    (s.fwrite data io k).1 = (Stream.fwrite data io { s with error := false } k).1 ∧
      (s.fwrite data io k).2.1.mode = s.mode ∧
      (Stream.fwrite data io { s with error := false } k).2.1.error =
        (data.length != 0 && (!s.mode.writable || io.ioError)) ∧
      (s.fwrite data io k).2.1.error =
        (s.error || (data.length != 0 && (!s.mode.writable || io.ioError))) := by
  unfold Stream.fwrite
  by_cases hnil : data = []
  · simp [hnil]
  have hlen : (data.length != 0) = true := by simpa using hnil
  by_cases hfail : s.mode.writable = false ∨ io.ioError = true
  · have hflag : (!s.mode.writable || io.ioError) = true := by simpa using hfail
    simp [hnil, hlen, hfail, hflag]
  · have hflag : (!s.mode.writable || io.ioError) = false := by simpa using hfail
    simp only [hnil, hfail, hflag, if_false]
    split_ifs <;> simp

theorem transfer_indicator :
    (call.transfer s k).1 = (call.transfer { s with error := false } k).1 ∧
      (call.transfer s k).2.mode = s.mode ∧
      (call.transfer { s with error := false } k).2.error = call.fails s.mode ∧
      (call.transfer s k).2.error = (s.error || call.fails s.mode) := by
  cases call with
  | fread c =>
    obtain ⟨hdata, hmode, hclear, herror⟩ := fread_indicator s k c.len.toNat c.io.transfer
    exact ⟨congrArg List.length hdata, hmode, hclear, herror⟩
  | fwrite c =>
    have hind := fwrite_indicator s k (copyIn c.buf c.len.toNat c.machine).1 c.io.transfer
    rwa [copyIn_length] at hind

theorem outcome_eq :
    call.outcome s k = if call.fails s.mode then none else some (call.transfer s k).1 := by
  obtain ⟨hcount, -, hclear, -⟩ := transfer_indicator s k call
  simp only [TransferCall.outcome, hclear, hcount]

end Indicator

section Run

variable {h : BitVec 16} {σ : FileState} {call : TransferCall} {s : Stream}

theorem transferStep_refused (hvalid : σ.invalidHandle h = false) (hmem : call.chunk.io.memory = false) :
    (transferStep h σ call).2 = { σ with machine := call.chunk.machine } := by
  cases call with
  | fread c =>
    have hmem' : c.io.memory = false := hmem
    have hvalid' : FileState.invalidHandle h { σ with machine := c.machine } = false := hvalid
    simp [transferStep, readStep, gemdosFread, hvalid', hmem', TransferCall.chunk]
  | fwrite c =>
    have hmem' : c.io.memory = false := hmem
    have hvalid' : FileState.invalidHandle h { σ with machine := c.machine } = false := hvalid
    simp [transferStep, writeStep, gemdosFwrite, hvalid', hmem', TransferCall.chunk]

theorem transferStep_null (hs : (σ.handles h.toNat).f = none) :
    ((transferStep h σ call).2.handles h.toNat).f = none := by
  cases call with
  | fread c =>
    simp only [transferStep, readStep, gemdosFread, hs]
    split_ifs <;> exact hs
  | fwrite c =>
    simp only [transferStep, writeStep, gemdosFwrite, hs]
    split_ifs <;> exact hs

theorem transferStep_eq (hvalid : σ.invalidHandle h = false) (hmem : call.chunk.io.memory = true)
    (hs : (σ.handles h.toNat).f = some s) :
    (transferStep h σ call).1 = some (if s.error || call.fails s.mode then GEMDOS_EINTRN
        else BitVec.ofNat 32 (call.transfer s σ.kernel).1) ∧
      (transferStep h σ call).2.handles h.toNat =
        ⟨some (call.transfer s σ.kernel).2, (σ.handles h.toNat).flags⟩ := by
  obtain ⟨-, -, -, herror⟩ := transfer_indicator s σ.kernel call
  rw [← herror]
  cases call with
  | fread c =>
    have hmem' : c.io.memory = true := hmem
    have hvalid' : FileState.invalidHandle h { σ with machine := c.machine } = false := hvalid
    have herr : (TransferCall.transfer s σ.kernel (.fread c)).2.error =
        (s.fread c.len.toNat c.io.transfer σ.kernel).2.1.error := rfl
    rw [herr]
    simp only [transferStep, readStep, gemdosFread, hvalid', hmem', hs, Bool.false_eq_true,
      Bool.true_eq_false, if_false]
    split_ifs <;> exact ⟨rfl, Function.update_self _ _ _⟩
  | fwrite c =>
    have hmem' : c.io.memory = true := hmem
    have hvalid' : FileState.invalidHandle h { σ with machine := c.machine } = false := hvalid
    have herr : (TransferCall.transfer s σ.kernel (.fwrite c)).2.error =
        (s.fwrite (copyIn c.buf c.len.toNat c.machine).1 c.io.transfer σ.kernel).2.1.error := rfl
    rw [herr]
    simp only [transferStep, writeStep, gemdosFwrite, hvalid', hmem', hs, Bool.false_eq_true,
      Bool.true_eq_false, if_false]
    split_ifs <;> exact ⟨rfl, Function.update_self _ _ _⟩

theorem count_toInt {n : ℕ} : (BitVec.ofNat 32 n).toInt = (n : Int) ↔ n < 2 ^ 31 := by
  rw [BitVec.toInt_eq_toNat_bmod, BitVec.toNat_ofNat, Int.bmod_def]
  omega

theorem ownOutcome_iff (hvalid : σ.invalidHandle h = false) (hmem : call.chunk.io.memory = true)
    (hs : (σ.handles h.toNat).f = some s) :
    OwnOutcome h σ call ↔ (s.error = true → call.fails s.mode = true) ∧ Short h σ call := by
  obtain ⟨hresult, -⟩ := transferStep_eq hvalid hmem hs
  have houtcome := outcome_eq s σ.kernel call
  cases hfails : call.fails s.mode with
  | true =>
    rw [hfails, if_pos rfl] at houtcome
    refine iff_of_true (fun t n ht _ hn => ?_) ⟨fun _ => rfl, fun t n ht _ hn => ?_⟩
    · obtain rfl := Option.some.inj (hs.symm.trans ht)
      rw [houtcome] at hn
      cases hn
    · obtain rfl := Option.some.inj (hs.symm.trans ht)
      rw [houtcome] at hn
      cases hn
  | false =>
    rw [hfails, if_neg Bool.false_ne_true] at houtcome
    rw [hfails, Bool.or_false] at hresult
    have hown : OwnOutcome h σ call ↔ (transferStep h σ call).1.map BitVec.toInt =
        some ((call.transfer s σ.kernel).1 : Int) := by
      refine ⟨fun hall => hall s _ hs hmem houtcome, fun hone t n ht _ hn => ?_⟩
      obtain rfl := Option.some.inj (hs.symm.trans ht)
      obtain rfl := Option.some.inj (houtcome.symm.trans hn)
      exact hone
    have hshort : Short h σ call ↔ (call.transfer s σ.kernel).1 < 2 ^ 31 := by
      refine ⟨fun hall => hall s _ hs hmem houtcome, fun hone t n ht _ hn => ?_⟩
      obtain rfl := Option.some.inj (hs.symm.trans ht)
      obtain rfl := Option.some.inj (houtcome.symm.trans hn)
      exact hone
    rw [hown, hshort, hresult, Option.map_some, Option.some.injEq]
    cases herror : s.error with
    | true =>
      have hneg : GEMDOS_EINTRN.toInt = -65 := by decide
      rw [if_pos rfl, hneg]
      refine iff_of_false ?_ (fun h => Bool.false_ne_true (h.1 rfl))
      omega
    | false =>
      rw [if_neg Bool.false_ne_true, count_toInt]
      simp

theorem invalidHandle_congr {τ : FileState} (hflags : (τ.handles h.toNat).flags = (σ.handles h.toNat).flags) :
    τ.invalidHandle h = σ.invalidHandle h := by
  simp only [FileState.invalidHandle, Fhandle.allocated, hflags]

theorem pairwise_indicator (a b : Bool) (flags : List Bool) :
    (a :: b :: flags).Pairwise (fun before after => before = true → after = true) ↔
      (a = true → b = true) ∧
        ((a || b) :: flags).Pairwise (fun before after => before = true → after = true) := by
  simp only [List.pairwise_cons, List.forall_mem_cons, Bool.or_eq_true]
  constructor
  · rintro ⟨⟨hab, ha⟩, hb, hflags⟩
    exact ⟨hab, fun x hx h => h.elim (ha x hx) (hb x hx), hflags⟩
  · rintro ⟨hab, h, hflags⟩
    exact ⟨⟨hab, fun x hx ha => h x hx (Or.inl ha)⟩, fun x hx hb => h x hx (Or.inr hb), hflags⟩

theorem along_own_iff (hvalid : σ.invalidHandle h = false) (hs : (σ.handles h.toNat).f = some s)
    (calls : List TransferCall) :
    Along (transferStep h) (OwnOutcome h) σ calls ↔
      NoneRecovers s calls ∧ Along (transferStep h) (Short h) σ calls := by
  induction calls generalizing σ s with
  | nil =>
    refine iff_of_true trivial ⟨?_, trivial⟩
    exact List.pairwise_singleton _ _
  | cons call calls ih =>
    rw [Along, Along]
    cases hmem : call.chunk.io.memory with
    | false =>
      have hnext := transferStep_refused hvalid hmem
      have hown : OwnOutcome h σ call := fun t n _ hm _ => absurd (hmem.symm.trans hm) Bool.false_ne_true
      have hshort : Short h σ call := fun t n _ hm _ => absurd (hmem.symm.trans hm) Bool.false_ne_true
      have hrecovers : NoneRecovers s (call :: calls) = NoneRecovers s calls := by
        rw [NoneRecovers, List.filter_cons_of_neg (by simp [hmem]), NoneRecovers]
      rw [hnext, hrecovers, ih (σ := { σ with machine := call.chunk.machine }) hvalid hs]
      exact ⟨fun ⟨_, hr, hsh⟩ => ⟨hr, hshort, hsh⟩, fun ⟨hr, _, hsh⟩ => ⟨hown, hr, hsh⟩⟩
    | true =>
      obtain ⟨-, hslot⟩ := transferStep_eq hvalid hmem hs
      obtain ⟨-, hmode, -, herror⟩ := transfer_indicator s σ.kernel call
      have hvalid' : FileState.invalidHandle h (transferStep h σ call).2 = false :=
        (invalidHandle_congr (by rw [hslot])).trans hvalid
      have hrecovers : NoneRecovers s (call :: calls) ↔ (s.error = true → call.fails s.mode = true) ∧
          NoneRecovers (call.transfer s σ.kernel).2 calls := by
        rw [NoneRecovers, List.filter_cons_of_pos (by simp [hmem]), List.map_cons, pairwise_indicator,
          NoneRecovers, hmode, herror]
      rw [ih hvalid' (s := (call.transfer s σ.kernel).2) (by rw [hslot]), hrecovers, ownOutcome_iff hvalid hmem hs]
      tauto

end Run

theorem along_of_null {h : BitVec 16} {C : FileState → TransferCall → Prop}
    (hC : ∀ σ call, (σ.handles h.toNat).f = none → C σ call) {σ : FileState}
    (hs : (σ.handles h.toNat).f = none) (calls : List TransferCall) :
    Along (transferStep h) C σ calls := by
  induction calls generalizing σ with
  | nil => trivial
  | cons call calls ih => exact ⟨hC σ call hs, ih (transferStep_null hs)⟩

theorem transfers_report_iff (h : BitVec 16) (σ : FileState) (hvalid : σ.invalidHandle h = false)
    (calls : List TransferCall) :
    Along (transferStep h) (OwnOutcome h) σ calls ↔
      (∀ s, (σ.handles h.toNat).f = some s → NoneRecovers s calls) ∧
        Along (transferStep h) (Short h) σ calls := by
  cases hs : (σ.handles h.toNat).f with
  | none =>
    have hnull : ∀ (τ : FileState) s, (τ.handles h.toNat).f = none → (τ.handles h.toNat).f ≠ some s := by
      intro τ s hnone hsome
      rw [hnone] at hsome
      cases hsome
    refine iff_of_true ?_ ⟨fun s hsome => ?_, ?_⟩
    · exact along_of_null (fun τ call hnone s n hsome => absurd hsome (hnull τ s hnone)) hs calls
    · cases hsome
    · exact along_of_null (fun τ call hnone s n hsome => absurd hsome (hnull τ s hnone)) hs calls
  | some s =>
    rw [along_own_iff hvalid hs]
    simp

theorem fread_le (len : ℕ) (io : Stream.Transfer) (s : Stream) (k : Kernel) :
    (s.fread len io k).1.length ≤ len := by
  unfold Stream.fread
  split_ifs
  · exact Nat.zero_le _
  · exact Nat.zero_le _
  · exact Nat.zero_le _
  · exact List.length_take_le _ _
  · exact List.length_take_le _ _

theorem short_of_len (h : BitVec 16) (σ : FileState) {call : TransferCall}
    (hlen : call.chunk.len.toNat < 2 ^ 31) : Short h σ call := by
  intro s n _ _ hn
  rw [outcome_eq] at hn
  split_ifs at hn
  obtain rfl := Option.some.inj hn
  refine lt_of_le_of_lt ?_ hlen
  cases call with
  | fread c => exact fread_le c.len.toNat c.io.transfer s σ.kernel
  | fwrite c =>
    have hcount := s.fwrite_count σ.kernel (copyIn c.buf c.len.toNat c.machine).1 c.io.transfer
    rwa [copyIn_length] at hcount

def createdFile : FileState := (gemdosFcreate (.file 1 true) (gemdosFileInit idleMachine (inherited 3))).2

theorem transfers_report_writes :
    Along (transferStep 6) (OwnOutcome 6) createdFile
      [.fread (plainChunk 0), .fwrite (plainChunk 3), .fwrite (plainChunk 2), .fread (plainChunk 1)] := by
  apply (transfers_report_iff 6 createdFile (by decide) _).mpr
  refine ⟨fun s hs => ?_, ?_⟩
  · have hstream : (createdFile.handles (6 : BitVec 16).toNat).f = some (Stream.fopen 3 .write) := by decide
    obtain rfl := Option.some.inj (hstream.symm.trans hs)
    unfold NoneRecovers
    decide
  · exact ⟨short_of_len _ _ (by decide), short_of_len _ _ (by decide), short_of_len _ _ (by decide),
      short_of_len _ _ (by decide), trivial⟩

theorem failed_read_sticks :
    ¬ Along (transferStep 6) (OwnOutcome 6) createdFile [.fread (plainChunk 1), .fwrite (plainChunk 3)] ∧
      results (transferStep 6) createdFile [.fread (plainChunk 1), .fwrite (plainChunk 3)] =
        [some GEMDOS_EINTRN, some GEMDOS_EINTRN] := by
  have hresults : results (transferStep 6) createdFile [.fread (plainChunk 1), .fwrite (plainChunk 3)] =
      [some GEMDOS_EINTRN, some GEMDOS_EINTRN] := by decide
  refine ⟨?_, hresults⟩
  rintro ⟨-, hwrite, -⟩
  have hanswer := hwrite ⟨3, .write, [], [], true, false⟩ 3 (by decide) (by decide) (by decide)
  obtain ⟨-, hcons⟩ := List.cons.inj hresults
  rw [(List.cons.inj hcons).1] at hanswer
  exact absurd hanswer (by decide)

end Tosemu.File
