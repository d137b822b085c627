import Tosemu.BssSegment
import Tosemu.UserIsolation

namespace Tosemu

def Accessible (m : Machine) (a : Long) : Prop :=
  ∀ k < 4, Readable m (a + BitVec.ofNat 32 k) ∧ Writable m (a + BitVec.ofNat 32 k)

instance (m : Machine) (a : Long) : Decidable (Accessible m a) :=
  inferInstanceAs (Decidable (∀ k < 4, _))

theorem SameMap.accessible_iff {m m' : Machine} (h : SameMap m m') (a : Long) :
    Accessible m' a ↔ Accessible m a := by
  simp only [Accessible, h.readable_iff, h.writable_iff]

structure Relocated (targets : List Long) (m₀ m : Machine) : Prop where
  user : UserMap m
  areas : (∃ b, m₀.memory = registerAreas b) → ∃ b, m.memory = registerAreas b
  map : SameMap m₀ m
  byte : ∀ x, (∀ a ∈ targets, ∀ k < 4, x ≠ a + BitVec.ofNat 32 k) → memByte m.memory x = memByte m₀.memory x
  running : m.keepongoing = (m₀.keepongoing && decide (∀ a ∈ targets, Accessible m₀ a))

section Table

variable {m₀ m m' : Machine} {targets targets' : List Long}

theorem Relocated.refl (h : UserMap m) : Relocated [] m m :=
  ⟨h, id, SameMap.refl m, fun _ _ => rfl, by simp⟩

theorem Relocated.trans (h : Relocated targets m₀ m) (h' : Relocated targets' m m') :
    Relocated (targets ++ targets') m₀ m' := by
  refine ⟨h'.user, h'.areas ∘ h.areas, h.map.trans h'.map, fun x hx => ?_, ?_⟩
  · have hx := List.forall_mem_append.mp hx
    rw [h'.byte x hx.2, h.byte x hx.1]
  · rw [h'.running, h.running, Bool.and_assoc, ← Bool.decide_and]
    simp only [h.map.accessible_iff, List.forall_mem_append]

theorem fixup_relocated (h : UserMap m) (a : Long) : Relocated [a] m (fixup a m) := by
  have hread := h.read_eq .long a
  rw [m68kReadMemory] at hread
  have hs := haltUnless_sameMap (decide (∀ i < Width.long.bytes, Readable m (a + BitVec.ofNat 32 i))) m
  unfold fixup
  simp only [hread]
  refine ⟨(h.haltUnless _).writeLoop _ _ _, ?_, hs.trans (writeLoop_sameMap _ _ _ _), fun x hx => ?_, ?_⟩
  · rintro ⟨b, hb⟩
    apply writeLoop_registerAreas
    exact hb
  · exact memByte_writeLoop_of_ne _ _ _ _ (fun k hk he => absurd he (hx a List.mem_cons_self k hk))
  · rw [m68kWriteMemory32, writeLoop_keepongoing, haltUnless, Bool.and_assoc, ← Bool.decide_and]
    simp only [List.forall_mem_singleton, Accessible, imp_and, forall_and]
    rfl

theorem relocateTable_relocated (h : UserMap m) {table : List Byte} {adr : Long}
    (hm : relocateTable table adr m = some m') : Relocated (relocationTargets table adr) m m' := by
  induction table generalizing adr m with
  | nil => exact absurd hm (by simp [relocateTable])
  | cons b table ih =>
    rw [relocateTable] at hm
    rw [relocationTargets]
    by_cases h0 : b = 0
    · rw [if_pos h0] at hm ⊢
      obtain rfl := Option.some.inj hm
      exact Relocated.refl h
    · rw [if_neg h0] at hm ⊢
      by_cases h1 : b = 1
      · rw [if_pos h1] at hm ⊢
        exact ih h hm
      · rw [if_neg h1] at hm ⊢
        have hfixup := fixup_relocated h (adr + b.setWidth 32)
        exact hfixup.trans (ih hfixup.user hm)

end Table

section Load

variable {host : Endian} {heap : Heap} {binary : List Byte} {argv : List (List Byte)}
  {tosBasePath : Option (List Byte)} {te : TosEnvironment} {m m' : Machine}

def loadTargets (host : Endian) (binary : List Byte) : List Long :=
  let first := fileLong host binary (segmentsEnd host binary)
  if (binary.drop 26).take 2 ≠ [0, 0] ∨ first = 0 then []
  else (0x900 + first) ::
    relocationTargets (binary.drop (segmentsEnd host binary + 4)) (0x900 + first)

theorem relocate_relocated (h : UserMap m) (habs : (binary.drop 26).take 2 = [0, 0])
    (hm : relocate host binary (fileEnvironment host binary tosBasePath) m = .ok m') :
    Relocated (loadTargets host binary) m m' := by
  have hend : TableEnds host binary := by
    obtain ⟨hend, -⟩ | ⟨-, j, hj⟩ := @relocate_cases host binary tosBasePath m
    · exact hend
    · rw [hm] at hj
      cases hj
  rw [relocate_eq m hend.1] at hm
  unfold loadTargets
  by_cases hfirst : fileLong host binary (segmentsEnd host binary) = 0
  · rw [if_pos hfirst] at hm
    rw [if_pos (Or.inr hfirst)]
    cases hm
    exact Relocated.refl h
  · rw [if_neg hfirst] at hm
    rw [if_neg (not_or.mpr ⟨not_not.mpr habs, hfirst⟩)]
    have hfixup := fixup_relocated h (0x900 + fileLong host binary (segmentsEnd host binary))
    split at hm
    · next hr =>
      cases hm
      exact hfixup.trans (relocateTable_relocated hfixup.user hr)
    · cases hm

theorem mapEnvironment_user (host : Endian) (heap : Heap) (te : TosEnvironment)
    (argv : List (List Byte)) (appmem : ℕ → Byte) : UserMap (mapEnvironment host heap te argv appmem) :=
  registerAreas_userMap _ rfl rfl

def mappedFile (host : Endian) (heap : Heap) (binary : List Byte) (argv : List (List Byte))
    (tosBasePath : Option (List Byte)) : Machine :=
  mapEnvironment host heap (fileEnvironment host binary tosBasePath) argv (fileAppmem host heap binary)

theorem load_copied (h : initTosEnvironment host heap binary argv tosBasePath = .ok (te, m)) :
    headerSize ≤ binary.length ∧
      copySegments tosSize heap.appmem binary (copyLength host binary) = .ok (fileAppmem host heap binary) := by
  have hlen : headerSize ≤ binary.length := by
    by_contra hlt
    rw [initTosEnvironment, if_pos (by omega)] at h
    cases h
  refine ⟨hlen, ?_⟩
  rw [initTosEnvironment_eq hlen] at h
  by_cases hfile : headerSize + (copyLength host binary).toNat ≤ binary.length
  · by_cases hmem : (copyLength host binary).toNat ≤ tosSize.toNat
    · exact copySegments_ok hfile hmem
    · rw [copySegments, if_neg (by omega), if_pos (by omega)] at h
      cases h
  · rw [copySegments, if_pos (by omega)] at h
    cases h

theorem load_cases (h : initTosEnvironment host heap binary argv tosBasePath = .ok (te, m)) :
    te = fileEnvironment host binary tosBasePath ∧
      ∃ m', m = { m' with keepongoing := true } ∧
        Relocated (loadTargets host binary) (mappedFile host heap binary argv tosBasePath) m' ∧
        ((binary.drop 26).take 2 = [0, 0] →
          relocate host binary te (mappedFile host heap binary argv tosBasePath) = .ok m') := by
  obtain ⟨hlen, hcopy⟩ := load_copied h
  rw [initTosEnvironment_eq hlen] at h
  rw [hcopy] at h
  simp only [bind, Except.bind] at h
  have huser : UserMap (mappedFile host heap binary argv tosBasePath) := mapEnvironment_user _ _ _ _ _
  by_cases habs : (binary.drop 26).take 2 ≠ [0, 0]
  · rw [if_pos habs] at h
    cases h
    refine ⟨rfl, _, rfl, ?_, fun h0 => absurd h0 habs⟩
    rw [loadTargets, if_pos (Or.inl habs)]
    exact Relocated.refl huser
  · rw [if_neg habs] at h
    cases hr : relocate host binary (fileEnvironment host binary tosBasePath)
        (mappedFile host heap binary argv tosBasePath) with
    | error e =>
      rw [mappedFile] at hr
      rw [hr] at h
      cases h
    | ok m' =>
      have hr' := hr
      rw [mappedFile] at hr'
      rw [hr'] at h
      cases h
      exact ⟨rfl, m', rfl, relocate_relocated huser (not_not.mp habs) hr, fun _ => hr⟩

end Load

def absoluteBinary : List Byte := [0x60, 0x1a] ++ List.replicate 24 0 ++ [0, 1]

end Tosemu
