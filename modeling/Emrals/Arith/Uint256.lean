import Emrals.Primitives
import Emrals.Lib.Words

/-!
# 256-bit unsigned arithmetic and the compact target format

`arith_uint256` (`src/arith_uint256.h`) is a number of `2^256` held as eight 32-bit words; its
operators compute modulo `2^256`. The model holds it as a `BitVec 256`, whose operators are those
of the source, except the multiplication by a 32-bit word, which the model keeps as the source's
loop over the words (`mulU32`): its 64-bit accumulator never overflows and the carry out of the top
word is dropped, so it is the product modulo `2^256` (`mulU32_eq`).

The compact format packs a target into 32 bits: a byte count in the top byte and a 23-bit
mantissa (`SetCompact`, `GetCompact`). `setCompact_toNat` reads a compact value as a number.
-/

namespace Emrals

/-- `arith_uint256`. -/
abbrev arith_uint256 := BitVec 256

/-- `UintToArith256`. The words it reads are those of the number that the model's `uint256`
stands for, so the conversion is the identity. -/
def uintToArith256 (a : uint256) : arith_uint256 := a

/-- The conversion of a signed 64-bit value to `uint32_t` at a call: modulo `2^32`. -/
def int64ToUInt32 (m : Int) : UInt32 := (m % 2 ^ 32).toNat.toUInt32

/-- The conversion of a signed 64-bit value to `uint64_t`, as `base_uint(uint64_t)` receives it. -/
def int64ToArith256 (m : Int) : arith_uint256 := BitVec.ofNat 256 (m % 2 ^ 64).toNat

/-- A product of two `int64_t` values: `none` where it overflows, which C++ leaves undefined. -/
def int64Mul (a b : Int) : Option Int := if -2 ^ 63 ≤ a * b ∧ a * b < 2 ^ 63 then some (a * b) else none

namespace ArithUint256

/-- `base_uint::operator*=(uint32_t)`: the words times `b32`, from the least significant, with a
64-bit carry; the carry out of the top word is dropped. -/
def mulU32 (a : arith_uint256) (b32 : UInt32) : arith_uint256 :=
  BitVec.ofNat 256 (Words.ofWords (Words.mulWordLoop b32 0 (Words.toWords 8 a.toNat)))

/-- The word loop is the product modulo `2^256`. -/
theorem mulU32_eq (a : arith_uint256) (b32 : UInt32) :
    mulU32 a b32 = a * BitVec.ofNat 256 b32.toNat := by
  apply BitVec.eq_of_toNat_eq
  have hb : b32.toNat < 2 ^ 256 := by have := b32.toNat_lt; omega
  rw [mulU32, BitVec.toNat_ofNat, Words.ofWords_mulWordLoop_toWords, BitVec.toNat_mul,
    BitVec.toNat_ofNat, Nat.mod_eq_of_lt hb, Nat.mod_mod, Nat.mul_comm]

/-- `base_uint::bits`: the position of the highest set bit plus one, `0` for zero. -/
def bits (a : arith_uint256) : Nat := if a.toNat = 0 then 0 else a.toNat.log2 + 1

theorem toNat_lt_two_pow_bits (a : arith_uint256) : a.toNat < 2 ^ bits a := by
  unfold bits
  split
  · next h => simp [h]
  · exact Nat.lt_log2_self

theorem bits_le (a : arith_uint256) : bits a ≤ 256 := by
  unfold bits
  split
  · omega
  · next h =>
    have hpow : 2 ^ a.toNat.log2 < 2 ^ 256 := lt_of_le_of_lt (Nat.log2_self_le h) a.isLt
    have : a.toNat.log2 < 256 := (Nat.pow_lt_pow_iff_right (by decide : 1 < 2)).1 hpow
    omega

/-- `arith_uint256::SetCompact`, without the sign and overflow flags, which the modelled callers
do not ask for: the mantissa is shifted into place by the byte count in the top byte. -/
def setCompact (nCompact : UInt32) : arith_uint256 :=
  let nSize := nCompact.toNat >>> 24
  let nWord := nCompact.toNat &&& 0x007fffff
  if nSize ≤ 3 then BitVec.ofNat 256 (nWord >>> (8 * (3 - nSize)))
  else BitVec.ofNat 256 nWord <<< (8 * (nSize - 3))

/-- `arith_uint256::GetCompact` with `fNegative = false`: the three most significant bytes as
mantissa, moved down one byte when the sign bit would be set. Both shifted values fit in 24 bits,
so the `uint64_t` and `uint32_t` conversions keep them whole. -/
def getCompact (a : arith_uint256) : UInt32 :=
  let nSize := (bits a + 7) / 8
  let nCompact : Nat :=
    if nSize ≤ 3 then (a.toNat <<< (8 * (3 - nSize))) % 2 ^ 32
    else (a >>> (8 * (nSize - 3))).toNat % 2 ^ 32
  let signBit := nCompact &&& 0x00800000 ≠ 0
  let nCompact := if signBit then nCompact >>> 8 else nCompact
  let nSize := if signBit then nSize + 1 else nSize
  (nCompact ||| nSize <<< 24).toUInt32

/-- A compact value with a byte count above three is its mantissa shifted by that many bytes less
three, modulo `2^256`. -/
theorem setCompact_toNat (nCompact : UInt32) (h : 3 < nCompact.toNat >>> 24) :
    (setCompact nCompact).toNat =
      (nCompact.toNat &&& 0x007fffff) * 2 ^ (8 * ((nCompact.toNat >>> 24) - 3)) % 2 ^ 256 := by
  have hw : (nCompact.toNat &&& 0x007fffff) < 2 ^ 256 :=
    lt_of_le_of_lt Nat.and_le_right (by decide)
  simp only [setCompact, show ¬ (nCompact.toNat >>> 24 ≤ 3) by omega, if_false,
    BitVec.toNat_shiftLeft, BitVec.toNat_ofNat, Nat.mod_eq_of_lt hw, Nat.shiftLeft_eq]

end ArithUint256

end Emrals
