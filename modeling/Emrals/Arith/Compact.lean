import Mathlib
import Emrals.Arith.Uint256

/-!
# The compact format round trip

`SetCompact` (`src/arith_uint256.cpp:206-223`) reports through `pfNegative` and `pfOverflow` whether
the mantissa is negative and whether it overflows 256 bits (`setCompactFlags`), and `GetCompact`
(`:225-247`) asserts that its mantissa has no bit above the 23 of the format and that the byte count
fits in its byte (`getCompactChecked`).

`GetCompact` reads the three most significant bytes of a number (`topBytes`), and moves them down a
byte when the leading one would set the sign bit. So the mantissa is below `2^23` and the byte count
at most `33`: neither assertion fails (`getCompactChecked_eq`), and `SetCompact` decodes the pair
with neither flag (`setCompactFlags_encode`). What it decodes is the number with the bits below the
kept bytes cleared (`compactRounded`, `setCompactFlags_getCompact`). A value of `SetCompact` is a
mantissa of 23 bits shifted by whole bytes, so it has no bit below those bytes
(`compactDroppedBits_le`) and comes back whole.
-/

namespace Emrals

namespace ArithUint256

/-- `arith_uint256::SetCompact` with the flags it writes through `pfNegative` and `pfOverflow`. -/
def setCompactFlags (nCompact : UInt32) : arith_uint256 × Bool × Bool :=
  let nSize := nCompact.toNat >>> 24
  let nWord := nCompact.toNat &&& 0x007fffff
  -- the flags read `nWord` after `nWord >>= 8 * (3 - nSize)`
  let nWord := if nSize ≤ 3 then nWord >>> (8 * (3 - nSize)) else nWord
  (if nSize ≤ 3 then BitVec.ofNat 256 nWord else BitVec.ofNat 256 nWord <<< (8 * (nSize - 3)),
    decide (nWord ≠ 0 ∧ nCompact.toNat &&& 0x00800000 ≠ 0),
    decide (nWord ≠ 0 ∧ (nSize > 34 ∨ nWord > 0xff ∧ nSize > 33 ∨ nWord > 0xffff ∧ nSize > 32)))

theorem setCompactFlags_fst (nCompact : UInt32) :
    (setCompactFlags nCompact).1 = setCompact nCompact := by
  simp only [setCompactFlags, setCompact]
  split_ifs <;> rfl

/-- `arith_uint256::GetCompact` with its `fNegative` argument and its two assertions: `none` where
one fails. -/
def getCompactChecked (a : arith_uint256) (fNegative : Bool) : Option UInt32 :=
  let nSize := (bits a + 7) / 8
  let nCompact : Nat :=
    if nSize ≤ 3 then (a.toNat <<< (8 * (3 - nSize))) % 2 ^ 32
    else (a >>> (8 * (nSize - 3))).toNat % 2 ^ 32
  let signBit := nCompact &&& 0x00800000 ≠ 0
  let nCompact := if signBit then nCompact >>> 8 else nCompact
  let nSize := if signBit then nSize + 1 else nSize
  -- `assert((nCompact & ~0x007fffff) == 0)` and `assert(nSize < 256)`
  if nCompact &&& 0xff800000 = 0 ∧ nSize < 256 then
    let nCompact := nCompact ||| nSize <<< 24
    some (nCompact ||| if fNegative ∧ nCompact &&& 0x007fffff ≠ 0 then 0x00800000 else 0).toUInt32
  else none

/-- What `GetCompact` reads before it looks at the sign bit: the three most significant bytes of
`a`, the leading one at the top when `a` has fewer. -/
def topBytes (a : arith_uint256) : Nat :=
  if (bits a + 7) / 8 ≤ 3 then (a.toNat <<< (8 * (3 - (bits a + 7) / 8))) % 2 ^ 32
  else (a >>> (8 * ((bits a + 7) / 8 - 3))).toNat % 2 ^ 32

/-- The bits of `a` that the compact format drops: those below its three most significant bytes, or
below its two most significant bytes where the leading one is `0x80` or more. -/
def compactDroppedBits (a : arith_uint256) : Nat :=
  let nBytes := (bits a + 7) / 8
  if 0x80 ≤ a.toNat >>> (8 * (nBytes - 1)) then 8 * (nBytes - 2) else 8 * (nBytes - 3)

/-- `a` with the bits that the compact format drops cleared. -/
def compactRounded (a : arith_uint256) : arith_uint256 :=
  BitVec.ofNat 256 (a.toNat >>> compactDroppedBits a <<< compactDroppedBits a)

/-! ## Bytes and bits -/

theorem bits_le_of_lt {a : arith_uint256} {k : Nat} (h : a.toNat < 2 ^ k) : bits a ≤ k := by
  unfold bits
  split
  · omega
  · next h0 => exact (Nat.log2_lt h0).2 h

theorem lt_two_pow_bytes (a : arith_uint256) : a.toNat < 2 ^ (8 * ((bits a + 7) / 8)) :=
  lt_of_lt_of_le (toNat_lt_two_pow_bits a) (Nat.pow_le_pow_right (by decide) (by omega))

/-- A leading byte of `0x80` or more is the top bit of its byte. -/
theorem two_pow_le_of_leading {a : arith_uint256}
    (h : 0x80 ≤ a.toNat >>> (8 * ((bits a + 7) / 8 - 1))) :
    2 ^ (8 * ((bits a + 7) / 8 - 1) + 7) ≤ a.toNat := by
  rw [Nat.shiftRight_eq_div_pow, Nat.le_div_iff_mul_le (Nat.two_pow_pos _)] at h
  rw [Nat.pow_add, Nat.mul_comm]
  exact le_trans (Nat.mul_le_mul_right _ (by decide)) h

/-- A number below `2^(8e + 23)` keeps all its bits above `8e` in the compact format. -/
theorem compactDroppedBits_le {a : arith_uint256} {e : Nat} (h : a.toNat < 2 ^ (8 * e + 23)) :
    compactDroppedBits a ≤ 8 * e := by
  have hbits := bits_le_of_lt h
  unfold compactDroppedBits
  dsimp only
  split
  · next hlead =>
    have hle := lt_of_le_of_lt (two_pow_le_of_leading hlead) h
    have := (Nat.pow_lt_pow_iff_right (by decide)).1 hle
    omega
  · omega

/-! ## The bytes that `GetCompact` reads -/

section TopBytes
variable (a : arith_uint256)

theorem bytes_le : (bits a + 7) / 8 ≤ 32 := by
  have := bits_le a
  omega

/-- A number of at most three bytes, moved to the top of three bytes. -/
theorem toNat_mul_lt (h : (bits a + 7) / 8 ≤ 3) :
    a.toNat * 2 ^ (8 * (3 - (bits a + 7) / 8)) < 2 ^ 24 :=
  calc a.toNat * 2 ^ (8 * (3 - (bits a + 7) / 8))
      < 2 ^ (8 * ((bits a + 7) / 8)) * 2 ^ (8 * (3 - (bits a + 7) / 8)) :=
        Nat.mul_lt_mul_of_pos_right (lt_two_pow_bytes a) (Nat.two_pow_pos _)
    _ = 2 ^ 24 := by rw [← Nat.pow_add]; congr 1; omega

/-- The three most significant bytes of a number. -/
theorem toNat_div_lt : a.toNat / 2 ^ (8 * ((bits a + 7) / 8 - 3)) < 2 ^ 24 := by
  rw [Nat.div_lt_iff_lt_mul (Nat.two_pow_pos _), ← Nat.pow_add]
  exact lt_of_lt_of_le (lt_two_pow_bytes a) (Nat.pow_le_pow_right (by decide) (by omega))

theorem topBytes_of_le (h : (bits a + 7) / 8 ≤ 3) :
    topBytes a = a.toNat * 2 ^ (8 * (3 - (bits a + 7) / 8)) := by
  have hlt := toNat_mul_lt a h
  rw [topBytes, if_pos h, Nat.shiftLeft_eq, Nat.mod_eq_of_lt (by omega)]

theorem topBytes_of_ge (h : 3 ≤ (bits a + 7) / 8) :
    topBytes a = a.toNat / 2 ^ (8 * ((bits a + 7) / 8 - 3)) := by
  by_cases h3 : (bits a + 7) / 8 = 3
  · rw [topBytes_of_le a (by omega), h3]
    simp
  · have hlt := toNat_div_lt a
    rw [topBytes, if_neg (by omega), BitVec.toNat_ushiftRight, Nat.shiftRight_eq_div_pow,
      Nat.mod_eq_of_lt (by omega)]

theorem topBytes_lt : topBytes a < 2 ^ 24 := by
  by_cases h : (bits a + 7) / 8 ≤ 3
  · rw [topBytes_of_le a h]
    exact toNat_mul_lt a h
  · rw [topBytes_of_ge a (by omega)]
    exact toNat_div_lt a

/-- The top byte of what `GetCompact` reads is the leading byte of `a`. -/
theorem topBytes_div : topBytes a / 2 ^ 16 = a.toNat >>> (8 * ((bits a + 7) / 8 - 1)) := by
  rw [Nat.shiftRight_eq_div_pow]
  by_cases h : (bits a + 7) / 8 ≤ 3
  · rw [topBytes_of_le a h]
    by_cases h0 : (bits a + 7) / 8 = 0
    · have : a.toNat < 1 := by simpa [h0] using lt_two_pow_bytes a
      simp [show a.toNat = 0 by omega]
    · rw [show 16 = 8 * (3 - (bits a + 7) / 8) + 8 * ((bits a + 7) / 8 - 1) by omega, Nat.pow_add,
        Nat.mul_comm a.toNat, Nat.mul_div_mul_left _ _ (Nat.two_pow_pos _)]
  · rw [topBytes_of_ge a (by omega), Nat.div_div_eq_div_mul, ← Nat.pow_add]
    congr 2
    omega

end TopBytes

/-! ## Mantissa and byte count side by side -/

/-- The sign bit `0x00800000` is bit `23`. -/
theorem and_sign_ne_zero_iff (m : Nat) : m &&& 0x00800000 ≠ 0 ↔ 2 ^ 23 ≤ m % 2 ^ 24 := by
  rw [show (0x00800000 : Nat) = 2 ^ 23 by rfl, Nat.and_two_pow, Nat.testBit_eq_decide_div_mod_eq]
  simp only [ne_eq, mul_eq_zero, Bool.toNat_eq_zero, decide_eq_false_iff_not, not_or, not_not,
    Nat.pow_eq_zero]
  omega

/-- A mantissa below `2^24` beside a byte count above it. -/
theorem or_shiftLeft_eq_add {m : Nat} (k : Nat) (hm : m < 2 ^ 24) :
    m ||| k <<< 24 = m + k * 2 ^ 24 := by
  rw [Nat.lor_comm, ← Nat.shiftLeft_add_eq_or_of_lt hm, Nat.shiftLeft_eq, Nat.add_comm]

/-- No bit of a mantissa below `2^23` is above the 23 of the format. -/
theorem and_not_mantissa_eq_zero {m : Nat} (hm : m < 2 ^ 23) : m &&& 0xff800000 = 0 := by
  rw [← Nat.mod_eq_of_lt hm, ← Nat.and_two_pow_sub_one_eq_mod, Nat.and_assoc,
    show (2 ^ 23 - 1) &&& 0xff800000 = 0 by decide, Nat.and_zero]

theorem getCompact_body (a : arith_uint256) :
    getCompact a = (if topBytes a &&& 0x00800000 ≠ 0
      then topBytes a >>> 8 ||| ((bits a + 7) / 8 + 1) <<< 24
      else topBytes a ||| ((bits a + 7) / 8) <<< 24).toUInt32 := by
  simp only [getCompact, ← topBytes.eq_1]
  split_ifs <;> rfl

/-- `GetCompact` in terms of the bytes it reads: a mantissa and a byte count, side by side. -/
theorem getCompact_eq (a : arith_uint256) :
    getCompact a = if 2 ^ 23 ≤ topBytes a
      then (topBytes a / 2 ^ 8 + ((bits a + 7) / 8 + 1) * 2 ^ 24).toUInt32
      else (topBytes a + (bits a + 7) / 8 * 2 ^ 24).toUInt32 := by
  have ht := topBytes_lt a
  have hsign : topBytes a &&& 0x00800000 ≠ 0 ↔ 2 ^ 23 ≤ topBytes a := by
    rw [and_sign_ne_zero_iff, Nat.mod_eq_of_lt ht]
  rw [getCompact_body]
  by_cases hs : 2 ^ 23 ≤ topBytes a
  · rw [if_pos (hsign.2 hs), if_pos hs, Nat.shiftRight_eq_div_pow, or_shiftLeft_eq_add _ (by omega)]
  · rw [if_neg (mt hsign.1 hs), if_neg hs, or_shiftLeft_eq_add _ ht]

/-- Both assertions of `GetCompact` hold: what it checks is the mantissa and byte count of
`getCompact_body`, below `2^23` and at most `33`. -/
theorem getCompactChecked_eq (a : arith_uint256) (fNegative : Bool) :
    getCompactChecked a fNegative =
      let nCompact := if topBytes a &&& 0x00800000 ≠ 0
        then topBytes a >>> 8 ||| ((bits a + 7) / 8 + 1) <<< 24
        else topBytes a ||| ((bits a + 7) / 8) <<< 24
      some (nCompact ||| if fNegative ∧ nCompact &&& 0x007fffff ≠ 0 then 0x00800000 else 0).toUInt32 := by
  have ht := topBytes_lt a
  have hN := bytes_le a
  simp only [getCompactChecked, ← topBytes.eq_1]
  by_cases hs : topBytes a &&& 0x00800000 ≠ 0
  · have hm : topBytes a >>> 8 < 2 ^ 23 := by rw [Nat.shiftRight_eq_div_pow]; omega
    rw [if_pos hs, if_pos hs, if_pos hs, if_pos ⟨and_not_mantissa_eq_zero hm, by omega⟩]
  · have hm : topBytes a < 2 ^ 23 := by
      rw [and_sign_ne_zero_iff, Nat.mod_eq_of_lt ht] at hs
      omega
    rw [if_neg hs, if_neg hs, if_neg hs, if_pos ⟨and_not_mantissa_eq_zero hm, by omega⟩]

theorem getCompactChecked_false (a : arith_uint256) :
    getCompactChecked a false = some (getCompact a) := by
  rw [getCompactChecked_eq, getCompact_body]
  simp

/-! ## Decoding -/

/-- `SetCompact` of a mantissa below `2^23` beside a byte count: the mantissa shifted into place,
with neither flag where the mantissa fits in 256 bits. -/
theorem setCompactFlags_encode {m k : Nat} (hm : m < 2 ^ 23) (hk : k ≤ 32 ∨ k = 33 ∧ m < 2 ^ 16) :
    setCompactFlags (m + k * 2 ^ 24).toUInt32 =
      (if k ≤ 3 then BitVec.ofNat 256 (m >>> (8 * (3 - k)))
        else BitVec.ofNat 256 m <<< (8 * (k - 3)), false, false) := by
  have hc : (m + k * 2 ^ 24).toUInt32.toNat = m + k * 2 ^ 24 := by
    rw [UInt32.toNat_ofNat']
    omega
  have hsize : (m + k * 2 ^ 24) >>> 24 = k := by
    rw [Nat.shiftRight_eq_div_pow]
    omega
  have hword : (m + k * 2 ^ 24) &&& 0x007fffff = m := by
    rw [show (0x007fffff : Nat) = 2 ^ 23 - 1 by rfl, Nat.and_two_pow_sub_one_eq_mod]
    omega
  have hsign : ¬(m + k * 2 ^ 24) &&& 0x00800000 ≠ 0 := by
    rw [and_sign_ne_zero_iff]
    omega
  simp only [setCompactFlags, hc, hsize, hword, hsign, and_false, decide_false]
  split_ifs with h3
  · simp only [Prod.mk.injEq, decide_eq_false_iff_not, true_and]
    omega
  · simp only [Prod.mk.injEq, decide_eq_false_iff_not, true_and]
    omega

/-- A number's top bits, shifted back into place. -/
theorem ofNat_div_shiftLeft {n : Nat} (s : Nat) (hn : n < 2 ^ 256) :
    BitVec.ofNat 256 (n / 2 ^ s) <<< s = BitVec.ofNat 256 (n >>> s <<< s) := by
  apply BitVec.eq_of_toNat_eq
  have hle : n / 2 ^ s * 2 ^ s ≤ n := Nat.div_mul_le_self n _
  rw [BitVec.toNat_shiftLeft, BitVec.toNat_ofNat, BitVec.toNat_ofNat,
    Nat.mod_eq_of_lt (lt_of_le_of_lt (Nat.div_le_self n _) hn), Nat.shiftRight_eq_div_pow,
    Nat.shiftLeft_eq]

/-- `SetCompact(GetCompact(a))` is `a` with the bits the format drops cleared, and it reports
neither a negative nor an overflowing mantissa. -/
theorem setCompactFlags_getCompact (a : arith_uint256) :
    setCompactFlags (getCompact a) = (compactRounded a, false, false) := by
  have ht := topBytes_lt a
  have hN := bytes_le a
  have hn := a.isLt
  rw [getCompact_eq]
  unfold compactRounded compactDroppedBits
  dsimp only
  rw [← topBytes_div]
  by_cases hs : 2 ^ 23 ≤ topBytes a
  · -- the leading byte sets the sign bit: two bytes are kept, and the count goes up by one
    have hlead : 0x80 ≤ topBytes a / 2 ^ 16 := by omega
    rw [if_pos hs, setCompactFlags_encode (by omega) (by omega), if_pos hlead]
    congr 1
    by_cases h3 : (bits a + 7) / 8 + 1 ≤ 3
    · have hmul : topBytes a = a.toNat * 2 ^ (8 * (3 - ((bits a + 7) / 8 + 1))) * 2 ^ 8 := by
        rw [topBytes_of_le a (by omega), Nat.mul_assoc, ← Nat.pow_add]
        congr 2
        omega
      rw [if_pos h3, hmul, Nat.mul_div_cancel _ (Nat.two_pow_pos _), Nat.shiftRight_eq_div_pow,
        Nat.mul_div_cancel _ (Nat.two_pow_pos _), show 8 * ((bits a + 7) / 8 - 2) = 0 by omega]
      rfl
    · rw [if_neg h3, topBytes_of_ge a (by omega), Nat.div_div_eq_div_mul, ← Nat.pow_add,
        show 8 * ((bits a + 7) / 8 - 3) + 8 = 8 * ((bits a + 7) / 8 + 1 - 3) by omega,
        ofNat_div_shiftLeft _ hn]
      congr 3
  · -- three bytes are kept
    have hlead : ¬0x80 ≤ topBytes a / 2 ^ 16 := by omega
    rw [if_neg hs, setCompactFlags_encode (by omega) (by omega), if_neg hlead]
    congr 1
    by_cases h3 : (bits a + 7) / 8 ≤ 3
    · rw [if_pos h3, topBytes_of_le a h3, Nat.shiftRight_eq_div_pow,
        Nat.mul_div_cancel _ (Nat.two_pow_pos _), show 8 * ((bits a + 7) / 8 - 3) = 0 by omega]
      rfl
    · rw [if_neg h3, topBytes_of_ge a (by omega), ofNat_div_shiftLeft _ hn]

theorem compactRounded_le (a : arith_uint256) : compactRounded a ≤ a := by
  rw [BitVec.le_def, compactRounded, BitVec.toNat_ofNat, Nat.shiftRight_eq_div_pow,
    Nat.shiftLeft_eq]
  exact le_trans (Nat.mod_le _ _) (Nat.div_mul_le_self _ _)

theorem compactRounded_eq_self {a : arith_uint256} (h : a.toNat % 2 ^ compactDroppedBits a = 0) :
    compactRounded a = a := by
  apply BitVec.eq_of_toNat_eq
  rw [compactRounded, BitVec.toNat_ofNat, Nat.shiftRight_eq_div_pow, Nat.shiftLeft_eq,
    Nat.div_mul_cancel (Nat.dvd_of_mod_eq_zero h), Nat.mod_eq_of_lt a.isLt]

/-- A value of `SetCompact` is a mantissa of 23 bits shifted up by whole bytes. -/
theorem setCompact_bytes (nCompact : UInt32) : ∃ e, (setCompact nCompact).toNat < 2 ^ (8 * e + 23) ∧
    2 ^ (8 * e) ∣ (setCompact nCompact).toNat := by
  have hw : nCompact.toNat &&& 0x007fffff < 2 ^ 23 := by
    rw [show (0x007fffff : Nat) = 2 ^ 23 - 1 by rfl, Nat.and_two_pow_sub_one_eq_mod]
    exact Nat.mod_lt _ (Nat.two_pow_pos _)
  by_cases h3 : nCompact.toNat >>> 24 ≤ 3
  · refine ⟨0, ?_, by simp⟩
    simp only [setCompact, if_pos h3, BitVec.toNat_ofNat]
    exact lt_of_le_of_lt (Nat.mod_le _ _)
      (lt_of_le_of_lt (Nat.shiftRight_le _ _) hw)
  · refine ⟨(nCompact.toNat >>> 24) - 3, ?_, ?_⟩
    · rw [setCompact_toNat nCompact (by omega), Nat.pow_add, Nat.mul_comm (2 ^ _)]
      exact lt_of_le_of_lt (Nat.mod_le _ _) (Nat.mul_lt_mul_of_pos_right hw (Nat.two_pow_pos _))
    · rw [setCompact_toNat nCompact (by omega)]
      by_cases hs : 8 * ((nCompact.toNat >>> 24) - 3) ≤ 256
      · exact (Nat.dvd_mod_iff (Nat.pow_dvd_pow 2 hs)).2 (Nat.dvd_mul_left _ _)
      · rw [Nat.mod_eq_zero_of_dvd (Dvd.dvd.mul_left (Nat.pow_dvd_pow 2 (by omega)) _)]
        exact Nat.dvd_zero _

/-- A value of `SetCompact` comes back whole from `GetCompact` and `SetCompact`. -/
theorem setCompact_getCompact_setCompact (nCompact : UInt32) :
    setCompact (getCompact (setCompact nCompact)) = setCompact nCompact := by
  obtain ⟨e, hlt, hdvd⟩ := setCompact_bytes nCompact
  have hdrop := compactDroppedBits_le hlt
  rw [← setCompactFlags_fst, setCompactFlags_getCompact]
  exact compactRounded_eq_self
    (Nat.mod_eq_zero_of_dvd (Nat.dvd_trans (Nat.pow_dvd_pow 2 hdrop) hdvd))

/-- `GetCompact` never fails an assertion, and without the sign it is `getCompact`; `SetCompact` of
its result reports neither flag and gives the number with the bits the format drops cleared, which is
at most the number and is the number where none of those bits is set; and a value of `SetCompact`
that reports neither flag comes back whole. -/
theorem compact_round_trip :
    (∀ (a : arith_uint256) (fNegative : Bool), (getCompactChecked a fNegative).isSome) ∧
    (∀ a : arith_uint256, getCompactChecked a false = some (getCompact a)) ∧
    (∀ a : arith_uint256, setCompactFlags (getCompact a) = (compactRounded a, false, false)) ∧
    (∀ a : arith_uint256, compactRounded a ≤ a) ∧
    (∀ a : arith_uint256, a.toNat % 2 ^ compactDroppedBits a = 0 → compactRounded a = a) ∧
    ∀ nCompact : UInt32, (setCompactFlags nCompact).2.1 = false →
      (setCompactFlags nCompact).2.2 = false →
      setCompact (getCompact (setCompact nCompact)) = setCompact nCompact :=
  ⟨fun a fNegative => by rw [getCompactChecked_eq]; rfl, getCompactChecked_false,
    setCompactFlags_getCompact, compactRounded_le, fun _ h => compactRounded_eq_self h,
    fun nCompact _ _ => setCompact_getCompact_setCompact nCompact⟩

theorem compact_round_trip_pow_limit :
    setCompact (getCompact (setCompact 0x1e0fffff)) = setCompact 0x1e0fffff :=
  compact_round_trip.2.2.2.2.2 0x1e0fffff (by decide) (by decide)

end ArithUint256

end Emrals
