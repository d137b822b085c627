import Tosemu.BigEndian
import Tosemu.Basic

namespace Tosemu

inductive Endian
  | little
  | big
deriving DecidableEq, Repr

namespace Endian

def bytes (host : Endian) (value : Long) : List (BitVec 8) :=
  match host with
  | little => (BigEndian.unpack value 4).reverse
  | big => BigEndian.unpack value 4

def load (host : Endian) (bytes : List (BitVec 8)) : Long :=
  match host with
  | little => BigEndian.pack bytes.reverse 0
  | big => BigEndian.pack bytes 0

theorem bytes_length (host : Endian) (v : Long) : (host.bytes v).length = 4 := by
  cases host <;> simp [bytes]

theorem load_bytes (host : Endian) (v : Long) : host.load (host.bytes v) = v := by
  have hpack : BigEndian.pack (BigEndian.unpack v 4) 0 = v := BigEndian.pack_unpack_eq (by decide) v
  cases host with
  | little => rw [load, bytes, List.reverse_reverse, hpack]
  | big => rw [load, bytes, hpack]

end Endian

def endianizeLoop : ℕ → Long → Long → Long
  | 0, _, out => out
  | n + 1, inp, out => endianizeLoop n (inp >>> 8) ((out <<< 8) ||| (0xff &&& inp))

/-- `endianize_32`, where `out` is what its uninitialised local holds. -/
def endianize32With (out inp : Long) : Long := endianizeLoop 4 inp out

def endianize32 : Long → Long := endianize32With 0

theorem endianizeLoop_eq (n : ℕ) (inp out : Long) :
    endianizeLoop n inp out = BigEndian.pack (BigEndian.unpack inp n).reverse out := by
  induction n generalizing inp out with
  | zero => rfl
  | succ n ih =>
    have hlow := BigEndian.low_byte_eq_and (by decide) inp
    rw [endianizeLoop, ih, BigEndian.unpack, List.reverse_append, List.reverse_singleton,
      List.singleton_append, BigEndian.pack, BigEndian.pack, List.foldl_cons, hlow]

theorem endianize32With_eq (out inp : Long) :
    endianize32With out inp = BigEndian.pack (BigEndian.unpack inp 4).reverse 0 := by
  rw [endianize32With, endianizeLoop_eq, BigEndian.pack_eq_or, List.length_reverse,
    BigEndian.unpack_length, BitVec.shiftLeft_eq_zero le_rfl, BitVec.zero_or]

theorem endianize32_involutive (v : Long) : endianize32 (endianize32 v) = v := by
  rw [endianize32, endianize32With_eq, endianize32With_eq, BigEndian.unpack_pack_reverse (by decide),
    List.reverse_reverse, BigEndian.pack_unpack_eq (by decide)]

theorem endianize32_load {bytes : List (BitVec 8)} (h : bytes.length = 4) :
    endianize32 (Endian.little.load bytes) = BigEndian.pack bytes 0 := by
  have hb := BigEndian.unpack_pack (w := 32) bytes.reverse (by simp [h])
  rw [List.length_reverse, h] at hb
  rw [endianize32, endianize32With_eq, Endian.load, hb, List.reverse_reverse]

end Tosemu
