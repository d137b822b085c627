import Mathlib.Data.List.Lemmas
import Tosemu.HostFiles

namespace Tosemu.Host

structure ActsOn (bound : Option ℕ) (k k' : Kernel) : Prop where
  touched : ∃ new, k'.touched = new ++ k.touched ∧ ∀ fd ∈ new, bound = some fd
  others : ∀ fd, bound ≠ some fd → k'.lookup fd = k.lookup fd
  sameFile : ∀ fd o', bound = some fd → k'.lookup fd = some o' →
    ∃ o, k.lookup fd = some o ∧ o.file = o'.file
  files : ∀ file, k'.files file ≠ k.files file →
    ∃ fd o, bound = some fd ∧ k.lookup fd = some o ∧ o.file = file

namespace ActsOn

variable {bound : Option ℕ} {k k' k'' : Kernel}

theorem refl (bound : Option ℕ) (k : Kernel) : ActsOn bound k k where
  touched := ⟨[], rfl, by simp⟩
  others _ _ := rfl
  sameFile _ o' _ ho := ⟨o', ho, rfl⟩
  files _ h := absurd rfl h

theorem trans (h : ActsOn bound k k') (h' : ActsOn bound k' k'') : ActsOn bound k k'' where
  touched := by
    obtain ⟨new, hnew, hfd⟩ := h.touched
    obtain ⟨new', hnew', hfd'⟩ := h'.touched
    refine ⟨new' ++ new, by rw [hnew', hnew, List.append_assoc], ?_⟩
    intro fd hmem
    rcases List.mem_append.mp hmem with hmem | hmem
    · exact hfd' fd hmem
    · exact hfd fd hmem
  others fd hfd := (h'.others fd hfd).trans (h.others fd hfd)
  sameFile fd o'' hfd ho'' := by
    obtain ⟨o', ho', hf'⟩ := h'.sameFile fd o'' hfd ho''
    obtain ⟨o, ho, hf⟩ := h.sameFile fd o' hfd ho'
    exact ⟨o, ho, hf.trans hf'⟩
  files file hne := by
    by_cases hk : k'.files file = k.files file
    · obtain ⟨fd, o', hfd, ho', hf'⟩ := h'.files file (hk ▸ hne)
      obtain ⟨o, ho, hf⟩ := h.sameFile fd o' hfd ho'
      exact ⟨fd, o, hfd, ho, hf.trans hf'⟩
    · exact h.files file hk

end ActsOn

namespace Kernel

variable {k : Kernel} {fd : ℕ} {o : OpenFile}

theorem lt_of_lookup (h : k.lookup fd = some o) : fd < k.fds.length := by
  by_contra hlt
  rw [lookup, List.getElem?_eq_none (by omega)] at h
  simp at h

theorem lookup_setFd_self (h : k.lookup fd = some o) (new : Option OpenFile) :
    (k.setFd fd new).lookup fd = new := by
  have hlt := lt_of_lookup h
  simp [lookup, setFd, hlt]

theorem lookup_setFd_of_ne {i : ℕ} (hi : fd ≠ i) (new : Option OpenFile) :
    (k.setFd fd new).lookup i = k.lookup i := by
  simp [lookup, setFd, List.getElem?_set_ne hi]

theorem actsOn_setFd (h : k.lookup fd = some o) {new : Option OpenFile}
    (hnew : ∀ o' ∈ new, o'.file = o.file) : ActsOn (some fd) k (k.setFd fd new) where
  touched := ⟨[fd], rfl, by simp⟩
  others i hi := lookup_setFd_of_ne (by simpa using hi) new
  sameFile i o' hi ho' := by
    obtain rfl : fd = i := by simpa using hi
    rw [lookup_setFd_self h] at ho'
    exact ⟨o, h, (hnew o' ho').symm⟩
  files _ hne := absurd rfl hne

theorem actsOn_setFile (h : k.lookup fd = some o) (content : List Byte) :
    ActsOn (some fd) k { k with files := Function.update k.files o.file content } where
  touched := ⟨[], rfl, by simp⟩
  others _ _ := rfl
  sameFile _ o' _ ho := ⟨o', ho, rfl⟩
  files file hne := by
    refine ⟨fd, o, rfl, h, ?_⟩
    by_contra hf
    exact hne (Function.update_of_ne (Ne.symm hf) _ _)

structure Moves (fd : ℕ) (k k' : Kernel) : Prop where
  acts : ActsOn (some fd) k k'
  stays : (k'.lookup fd).isSome = (k.lookup fd).isSome

theorem Moves.refl (fd : ℕ) (k : Kernel) : Moves fd k k := ⟨ActsOn.refl _ k, rfl⟩

theorem Moves.trans {k' k'' : Kernel} (h : Moves fd k k') (h' : Moves fd k' k'') : Moves fd k k'' :=
  ⟨h.acts.trans h'.acts, h'.stays.trans h.stays⟩

theorem moves_setFd (h : k.lookup fd = some o) (pos : ℕ) :
    Moves fd k (k.setFd fd (some { o with pos := pos })) := by
  refine ⟨actsOn_setFd h (by simp), ?_⟩
  rw [lookup_setFd_self h, h]
  rfl

theorem lseek_moves (fd : ℕ) (offset : Int) (whence : Whence) (k : Kernel) :
    Moves fd k (k.lseek fd offset whence).2 := by
  unfold lseek
  cases h : k.lookup fd with
  | none => exact Moves.refl fd k
  | some o =>
    dsimp only
    split_ifs <;> exact moves_setFd h _

theorem fstat_moves (fd : ℕ) (k : Kernel) : Moves fd k (k.fstat fd).2 := by
  unfold fstat
  cases h : k.lookup fd with
  | none => exact Moves.refl fd k
  | some o => exact moves_setFd h o.pos

theorem fstat_lookup (fd i : ℕ) (k : Kernel) : (k.fstat fd).2.lookup i = k.lookup i := by
  unfold fstat
  cases h : k.lookup fd with
  | none => rfl
  | some o =>
    by_cases hi : fd = i
    · subst hi
      exact (lookup_setFd_self h _).trans h.symm
    · exact lookup_setFd_of_ne hi _

theorem read_moves (fd n : ℕ) (k : Kernel) : Moves fd k (k.read fd n).2 := by
  unfold read
  cases h : k.lookup fd with
  | none => exact Moves.refl fd k
  | some o => exact moves_setFd h _

theorem write_moves (fd : ℕ) (data : List Byte) (k : Kernel) : Moves fd k (k.write fd data) := by
  unfold write
  cases h : k.lookup fd with
  | none => exact Moves.refl fd k
  | some o =>
    dsimp only
    split_ifs
    · exact Moves.refl fd k
    · have hset := moves_setFd h (o.pos + data.length)
      refine hset.trans ⟨?_, rfl⟩
      exact actsOn_setFile (o := { o with pos := o.pos + data.length }) (lookup_setFd_self h _) _

theorem close_actsOn (fd : ℕ) (k : Kernel) : ActsOn (some fd) k (k.close fd) := by
  unfold close
  cases h : k.lookup fd with
  | none => exact ActsOn.refl _ k
  | some o => exact actsOn_setFd h (by simp)

section Open

variable (new : OpenFile) (k)

theorem lowestFree_free : k.lookup k.lowestFree = none := by
  by_cases h : k.lowestFree < k.fds.length
  · have hnone : (k.fds[k.lowestFree]).isNone = true := List.findIdx_getElem (w := h)
    rw [lookup, List.getElem?_eq_getElem h]
    exact Option.isNone_iff_eq_none.mp hnone
  · rw [lookup, List.getElem?_eq_none (by omega)]
    rfl

theorem openFd_files (new : OpenFile) (k : Kernel) : (k.openFd new).2.files = k.files := by
  unfold openFd
  dsimp only
  split_ifs <;> rfl

theorem openFd_lookup (i : ℕ) :
    (k.openFd new).2.lookup i = if i = k.lowestFree then some new else k.lookup i := by
  have hle : k.lowestFree ≤ k.fds.length := List.findIdx_le_length
  unfold openFd
  by_cases h : k.lowestFree < k.fds.length
  · rw [if_pos h]
    split_ifs with hi
    · subst hi
      simp [lookup, setFd, h]
    · exact lookup_setFd_of_ne (Ne.symm hi) _
  · have hlen : k.lowestFree = k.fds.length := by omega
    rw [if_neg h]
    split_ifs with hi
    · simp [lookup, hi, hlen]
    · simp only [lookup, List.getElem?_append]
      split_ifs with hlt
      · rfl
      · rw [List.getElem?_eq_none (by simp; omega), List.getElem?_eq_none (by omega)]

end Open

end Kernel

namespace Stream

open Kernel

variable (s : Stream) (k : Kernel)

theorem fread_moves (len : ℕ) (io : Transfer) : Moves s.fd k (s.fread len io k).2.2 := by
  have hw := write_moves s.fd s.pending k
  unfold fread
  split_ifs
  · exact Moves.refl s.fd k
  · exact Moves.refl s.fd k
  · exact Moves.refl s.fd k
  · exact hw
  · exact hw.trans (read_moves _ _ _)

theorem unread_moves : Moves s.fd k (s.unread k) := by
  unfold unread
  cases h : k.lookup s.fd with
  | none => exact Moves.refl s.fd k
  | some o => exact moves_setFd h _

theorem fwrite_moves (data : List Byte) (io : Transfer) : Moves s.fd k (s.fwrite data io k).2.2 := by
  have hu := unread_moves s k
  unfold fwrite
  split_ifs
  · exact Moves.refl s.fd k
  · exact Moves.refl s.fd k
  · exact hu.trans (write_moves _ _ _)
  · exact hu

theorem fclose_actsOn : ActsOn (some s.fd) k (s.fclose k) :=
  (write_moves s.fd s.pending k).acts.trans (close_actsOn _ _)

theorem fread_fd (len : ℕ) (io : Transfer) : (s.fread len io k).2.1.fd = s.fd := by
  unfold fread
  split_ifs <;> rfl

theorem fwrite_fd (data : List Byte) (io : Transfer) : (s.fwrite data io k).2.1.fd = s.fd := by
  unfold fwrite
  split_ifs <;> rfl

theorem fwrite_count (data : List Byte) (io : Transfer) :
    (s.fwrite data io k).1 ≤ data.length := by
  unfold fwrite
  split_ifs
  · exact Nat.zero_le _
  · exact Nat.zero_le _
  · exact le_rfl
  · exact le_rfl

theorem lookup_write_pending {o : OpenFile} (h : k.lookup s.fd = some o) :
    ∃ o', (k.write s.fd s.pending).lookup s.fd = some o' ∧ o'.pos = o.pos + s.pending.length ∧
      ((k.write s.fd s.pending).files o'.file).length - o'.pos =
        (k.files o.file).length - (o.pos + s.pending.length) := by
  unfold write
  rw [h]
  dsimp only
  by_cases hp : s.pending = []
  · rw [if_pos hp]
    exact ⟨o, h, by simp [hp], by simp [hp]⟩
  · rw [if_neg hp]
    refine ⟨_, lookup_setFd_self h _, rfl, ?_⟩
    simp only [Function.update_self, overwrite, List.length_append, List.length_take,
      List.length_replicate, List.length_drop]
    omega

theorem fread_length {len : ℕ} {io : Transfer} (hr : s.mode.readable = true) (hio : io.ioError = false)
    (hopen : (k.lookup s.fd).isSome) : (s.fread len io k).1.length ≤ min len (s.available k) := by
  obtain ⟨o, ho⟩ := Option.isSome_iff_exists.mp hopen
  obtain ⟨o', ho', -, hrest⟩ := lookup_write_pending s k ho
  have havail : s.available k =
      s.readAhead.length + ((k.files o.file).length - (o.pos + s.pending.length)) := by
    rw [available, ho]
  have hok : ¬ (s.mode.readable = false ∨ io.ioError = true) := by simp [hr, hio]
  unfold fread
  split_ifs with hzero heof hlen
  · exact Nat.zero_le _
  · exact Nat.zero_le _
  · rw [List.length_take, havail]
    omega
  · simp only [Kernel.read, ho', List.length_take, List.length_append, List.length_drop, hrest, havail]
    omega

theorem fread_fresh (len : ℕ) {io : Transfer} {o : OpenFile} (hr : s.mode.readable = true)
    (hio : io.ioError = false) (hahead : s.readAhead = []) (hpending : s.pending = [])
    (heof : s.eof = false) (ho : k.lookup s.fd = some o) :
    (s.fread len io k).1 = ((k.files o.file).drop o.pos).take len ∧
      (s.fread len io k).2.1.error = s.error := by
  have hok : ¬ (s.mode.readable = false ∨ io.ioError = true) := by simp [hr, hio]
  have hwrite : k.write s.fd [] = k := by
    rw [Kernel.write, ho]
    rfl
  by_cases hzero : len = 0
  · rw [fread, if_pos hzero, hzero, List.take_zero]
    exact ⟨rfl, rfl⟩
  · have hlen : ¬ len ≤ ([] : List Byte).length := by simpa using hzero
    rw [fread, if_neg hzero, if_neg hok, heof, if_neg Bool.false_ne_true, hahead, hpending, hwrite]
    dsimp only
    rw [if_neg hlen]
    simp only [Kernel.read, ho, List.nil_append, List.length_nil, Nat.sub_zero, List.take_take, and_true]
    congr 1
    omega

end Stream

end Tosemu.Host
