import Mathlib.Data.BitVec

namespace Tosemu

abbrev Long := BitVec 32

/-- `te->size` as `init_tos_environment` sets it. -/
def tosSize : BitVec 64 := 0xF9FFFF - 0x000900

def GEMDOS_E_OK : Long := 0
def GEMDOS_EINVAL : Long := -25
def GEMDOS_EFILNF : Long := -33
def GEMDOS_ENHNDL : Long := -35
def GEMDOS_EACCDN : Long := -36
def GEMDOS_EIHNDL : Long := -37
def GEMDOS_ENSMEM : Long := -39
def GEMDOS_EIMBA : Long := -40
def GEMDOS_ENMFIL : Long := -49
def GEMDOS_EINTRN : Long := -65
def GEMDOS_EGSBF : Long := -67

end Tosemu
