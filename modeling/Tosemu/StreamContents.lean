import Tosemu.HostFrames

namespace Tosemu.Host

namespace Kernel

variable {k : Kernel} {fd : ℕ} {o : OpenFile}

theorem write_nil (k : Kernel) (fd : ℕ) : k.write fd [] = k := by
  unfold write
  cases k.lookup fd <;> rfl

theorem overwrite_end (content data : List Byte) :
    overwrite content content.length data = content ++ data := by
  rw [overwrite, List.take_length, Nat.sub_self, List.replicate_zero, List.append_nil,
    List.drop_eq_nil_of_le (Nat.le_add_right _ _), List.append_nil]

theorem write_end {id : ℕ} {seekable : Bool}
    (h : k.lookup fd = some ⟨id, (k.files id).length, seekable⟩) (data : List Byte) :
    (k.write fd data).files id = k.files id ++ data ∧
      (k.write fd data).lookup fd = some ⟨id, (k.files id ++ data).length, seekable⟩ := by
  by_cases hd : data = []
  · subst hd
    rw [write_nil, List.append_nil]
    exact ⟨rfl, h⟩
  · rw [write, h]
    dsimp only
    rw [if_neg hd]
    constructor
    · simp only [Function.update_self, overwrite_end]
    · rw [List.length_append]
      exact lookup_setFd_self h _

theorem lookup_unread {s : Stream} (h : k.lookup s.fd = some o) (hahead : s.readAhead = []) :
    (s.unread k).lookup s.fd = some o ∧ (s.unread k).files = k.files := by
  rw [Stream.unread, h, hahead]
  exact ⟨lookup_setFd_self h _, rfl⟩

end Kernel

namespace Stream

open Kernel

/-- Everything accepted so far is `data`: the file, and behind it what has not been written yet. -/
structure Appending (id : ℕ) (data : List Byte) (s : Stream) (k : Kernel) : Prop where
  mode : s.mode = .write
  readAhead : s.readAhead = []
  error : s.error = false
  isOpen : k.lookup s.fd = some ⟨id, (k.files id).length, true⟩
  content : k.files id ++ s.pending = data

structure Delivering (id : ℕ) (rest : List Byte) (s : Stream) (k : Kernel) : Prop where
  mode : s.mode = .read
  pending : s.pending = []
  error : s.error = false
  atEnd : s.eof = true → rest = []
  isOpen : ∃ pos, k.lookup s.fd = some ⟨id, pos, true⟩ ∧ s.readAhead ++ (k.files id).drop pos = rest

variable {id : ℕ} {s : Stream} {k : Kernel}

theorem Appending.fwrite {before : List Byte} (h : Appending id before s k) (data : List Byte)
    {io : Transfer} (hio : io.ioError = false) :
    (s.fwrite data io k).1 = data.length ∧
      Appending id (before ++ data) (s.fwrite data io k).2.1 (s.fwrite data io k).2.2 := by
  have hok : ¬ (s.mode.writable = false ∨ io.ioError = true) := by simp [h.mode, hio, Mode.writable]
  by_cases hd : data = []
  · rw [Stream.fwrite, if_pos hd, hd, List.append_nil]
    exact ⟨rfl, h⟩
  obtain ⟨hopen, hfiles⟩ := lookup_unread h.isOpen h.readAhead
  have hcontent : k.files id ++ (s.pending ++ data) = before ++ data := by
    rw [← List.append_assoc, h.content]
  unfold Stream.fwrite
  rw [if_neg hd, if_neg hok]
  dsimp only
  by_cases hf : io.flushed = true
  · rw [if_pos hf]
    rw [← hfiles] at hopen
    obtain ⟨hwritten, hpos⟩ := write_end hopen (s.pending ++ data)
    refine ⟨rfl, h.mode, rfl, h.error, by rw [hpos, hwritten], ?_⟩
    rw [hwritten, hfiles, List.append_nil, hcontent]
  · rw [if_neg hf]
    exact ⟨rfl, h.mode, rfl, h.error, by rw [hfiles]; exact hopen, by rw [hfiles]; exact hcontent⟩

theorem Appending.fclose {data : List Byte} (h : Appending id data s k) :
    (s.fclose k).files id = data := by
  obtain ⟨hwritten, hpos⟩ := write_end h.isOpen s.pending
  rw [Stream.fclose, Kernel.close, hpos]
  exact hwritten.trans h.content

theorem take_drop_read (ahead rest : List Byte) (n len : ℕ) (h : len ≤ ahead.length + n) :
    (ahead ++ rest.take n).take len = (ahead ++ rest).take len ∧
      (ahead ++ rest.take n).drop len ++ rest.drop (rest.take n).length = (ahead ++ rest).drop len := by
  by_cases hn : rest.length ≤ n
  · rw [List.take_of_length_le hn, List.drop_length, List.append_nil]
    exact ⟨rfl, rfl⟩
  · have hlen : (rest.take n).length = n := List.length_take_of_le (by omega)
    have hle : len ≤ (ahead ++ rest.take n).length := by rw [List.length_append, hlen]; exact h
    have hsplit : ahead ++ rest = (ahead ++ rest.take n) ++ rest.drop n := by
      rw [List.append_assoc, List.take_append_drop]
    rw [hsplit, List.take_append_of_le_length hle, List.drop_append_of_le_length hle, hlen]
    exact ⟨rfl, rfl⟩

theorem Delivering.fread {rest : List Byte} (h : Delivering id rest s k) (len : ℕ) {io : Transfer}
    (hio : io.ioError = false) :
    (s.fread len io k).1 = rest.take len ∧
      Delivering id (rest.drop len) (s.fread len io k).2.1 (s.fread len io k).2.2 := by
  have hok : ¬ (s.mode.readable = false ∨ io.ioError = true) := by simp [h.mode, hio, Mode.readable]
  by_cases hzero : len = 0
  · rw [Stream.fread, if_pos hzero, hzero]
    exact ⟨rfl, h⟩
  by_cases heof : s.eof = true
  · obtain rfl := h.atEnd heof
    rw [Stream.fread, if_neg hzero, if_neg hok, if_pos heof, List.take_nil, List.drop_nil]
    exact ⟨rfl, h⟩
  obtain ⟨pos, hopen, hrest⟩ := h.isOpen
  unfold Stream.fread
  rw [if_neg hzero, if_neg hok, if_neg heof, h.pending, write_nil]
  dsimp only
  by_cases hlen : len ≤ s.readAhead.length
  · rw [if_pos hlen, ← hrest, List.take_append_of_le_length hlen, List.drop_append_of_le_length hlen]
    exact ⟨rfl, h.mode, rfl, h.error, fun he => absurd he heof, pos, hopen, rfl⟩
  · rw [if_neg hlen]
    obtain ⟨htake, hdrop⟩ := take_drop_read s.readAhead ((k.files id).drop pos)
      (len - s.readAhead.length + io.ahead) len (by omega)
    simp only [Kernel.read, hopen]
    rw [← hrest, ← htake, ← hdrop]
    refine ⟨rfl, h.mode, rfl, h.error, fun he => ?_, _, lookup_setFd_self hopen _, ?_⟩
    · -- a short read has delivered everything there was
      have hshort := of_decide_eq_true he
      rw [List.length_append, List.length_take] at hshort
      rw [hdrop]
      apply List.drop_eq_nil_of_le
      rw [List.length_append]
      omega
    · rw [List.drop_drop]
      rfl

end Stream

end Tosemu.Host
