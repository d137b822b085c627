import Tosemu.RelocationFrame

namespace Tosemu

inductive BasepageField
  | lowtpa
  | hitpa
  | tbase
  | tlen
  | dbase
  | dlen
  | bbase
  | blen
  | dta
  | parent
  | env
deriving DecidableEq, Repr

namespace BasepageField

/-- The number of longwords in front of the field; `p_reserved` lies between `p_parent` and `p_env`. -/
def index : BasepageField → ℕ
  | lowtpa => 0
  | hitpa => 1
  | tbase => 2
  | tlen => 3
  | dbase => 4
  | dlen => 5
  | bbase => 6
  | blen => 7
  | dta => 8
  | parent => 9
  | env => 11

def address (f : BasepageField) : Long := BitVec.ofNat 32 (0x800 + 4 * f.index)

def meant (binary : List Byte) : BasepageField → Long
  | lowtpa => 0x800
  | hitpa => 0x900 + tosSize.setWidth 32
  | tbase => 0x900
  | tlen => fileLong .little binary 2
  | dbase => 0x900 + fileLong .little binary 2
  | dlen => fileLong .little binary 6
  | bbase => 0x900 + fileLong .little binary 2 + fileLong .little binary 6
  | blen => fileLong .little binary 10
  | dta => 0x880
  | parent => 0
  | env => 0x830

/-- What the guest reads there: `p_dta` is stored in the byte order of the host. -/
def stored (binary : List Byte) (f : BasepageField) : Long :=
  if f = dta then endianize32 (meant binary dta) else meant binary f

variable (binary : List Byte) (tosBasePath : Option (List Byte)) (argv : List (List Byte))

theorem index_lt (f : BasepageField) :
    f.index < (prepareBasepage (fileEnvironment .little binary tosBasePath) argv).longs.length := by
  cases f <;> simp [index, Basepage.longs]

theorem endianize_longs (f : BasepageField)
    (hf : f.index < (prepareBasepage (fileEnvironment .little binary tosBasePath) argv).longs.length) :
    endianize32 (prepareBasepage (fileEnvironment .little binary tosBasePath) argv).longs[f.index] =
      f.stored binary := by
  have hsize : (tosSize + 0x900).setWidth 32 = 0x900 + tosSize.setWidth 32 := by decide
  cases f with
  | hitpa => exact (endianize32_involutive _).trans hsize
  | dbase | bbase =>
    refine (endianize32_involutive _).trans ?_
    simp only [endianize32_involutive]
    rfl
  | parent => exact show endianize32 0 = 0 by decide
  | dta => rfl
  | _ => exact endianize32_involutive _

theorem stored_eq_iff (f : BasepageField) : f.stored binary = f.meant binary ↔ f ≠ dta := by
  have hswap : endianize32 0x880 ≠ 0x880 := by decide
  by_cases hf : f = dta
  · rw [stored, if_pos hf, hf]
    exact iff_of_false hswap (fun h => h rfl)
  · rw [stored, if_neg hf]
    exact iff_of_true rfl hf

def Untouched (binary : List Byte) (f : BasepageField) : Prop :=
  ∀ a ∈ loadTargets .little binary, ∀ k < 4, ∀ k' < 4,
    f.address + BitVec.ofNat 32 k' ≠ a + BitVec.ofNat 32 k

end BasepageField

section Load

open BasepageField

variable {heap : Heap} {binary : List Byte} {argv : List (List Byte)}
  {tosBasePath : Option (List Byte)} {te : TosEnvironment} {m g : Machine}

theorem read_field (hload : initTosEnvironment .little heap binary argv tosBasePath = .ok (te, m))
    (hg : g.memory = m.memory) (f : BasepageField) (hf : f.Untouched binary) :
    (m68kReadMemory32 f.address g).1 = f.stored binary := by
  obtain ⟨-, m', rfl, hr, -⟩ := load_cases hload
  have hindex := f.index_lt binary tosBasePath argv
  rw [← endianize_longs binary tosBasePath argv f hindex]
  apply read_basepage hindex
  · intro x
    rw [hg]
    exact hr.map.flags x
  · intro k hk
    rw [hg]
    exact hr.byte _ (fun a ha j hj => hf a ha j hj k hk)

theorem basepage_field_iff (heap : Heap) (binary : List Byte) (argv : List (List Byte))
    (tosBasePath : Option (List Byte)) (te : TosEnvironment) (m g : Machine)
    (hload : initTosEnvironment .little heap binary argv tosBasePath = .ok (te, m))
    (hg : g.memory = m.memory) (f : BasepageField) (hf : f.Untouched binary) :
    (m68kReadMemory32 f.address g).1 = f.meant binary ↔ f ≠ .dta := by
  rw [read_field hload hg f hf]
  exact stored_eq_iff binary f

theorem basepage_field_hitpa : ∃ te m,
    initTosEnvironment .little emptyHeap absoluteBinary [] none = .ok (te, m) ∧
      (m68kReadMemory32 0x804 m).1 = 0xf9ffff := by
  refine ⟨_, _, rfl, ?_⟩
  exact (basepage_field_iff emptyHeap absoluteBinary [] none _ _ _ rfl rfl .hitpa
    (fun a ha => absurd ha List.not_mem_nil)).mpr (by decide)

theorem dta_not_converted : ∃ te m,
    initTosEnvironment .little emptyHeap absoluteBinary [] none = .ok (te, m) ∧
      (m68kReadMemory32 BasepageField.dta.address m).1 = 0x80080000 ∧
      BasepageField.dta.meant absoluteBinary = 0x880 := by
  refine ⟨_, _, rfl, ?_, rfl⟩
  decide

end Load

end Tosemu
