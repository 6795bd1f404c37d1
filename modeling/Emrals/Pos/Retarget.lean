import Emrals.Pos.Chain

/-!
# The proof-of-stake retarget

`GetNextRequiredPoS` (`src/pow.cpp:25-52`) moves the target of the last block towards the target
spacing: it multiplies the target by `(nInterval - 1) * nTargetSpacing + 2 * nActualSpacing` and
divides it by `(nInterval + 1) * nTargetSpacing`, then caps it at `powLimit`.

The multiplier is a 64-bit value, but the call binds to `base_uint::operator*=(uint32_t)`: the
multiplier is cut to 32 bits and the product to 256. When neither cut happens, the result is the
exact formula (`getNextRequiredPoS_eq_of_lt`). With the main network's `powLimit` of `2^236 - 1`
the product leaves 256 bits once the multiplier passes `2^20`, after a gap of about six days
between two blocks, and the target then falls instead of rising (`retarget_falls_after_long_gap`).
-/

namespace Emrals.Pos

open ArithUint256

/-- The spacing between a block and its parent, negative spacings raised to `1`; `0` for the
genesis block, whose height is `0`. -/
def actualSpacing : BlockPtr → Int
  | last :: prev :: _ =>
    let nActualSpacing := last.getBlockTime - prev.getBlockTime
    if nActualSpacing < 0 then 1 else nActualSpacing
  | _ => 0

/-- `GetNextRequiredPoS`. The `nHeight != 0` test is the test that the block has a parent. -/
def getNextRequiredPoS (params : ConsensusParams) (pindexLast : BlockPtr) : UInt32 :=
  match pindexLast with
  | [] => getCompact (uintToArith256 params.powLimit)
  | last :: _ =>
    let nActualSpacing := actualSpacing pindexLast
    let bnTargetLimit := uintToArith256 params.powLimit
    let bnNew := setCompact last.nBits
    let nTargetSpacing := params.nPosTargetSpacing
    let nInterval := params.nPosTargetTimespan.tdiv nTargetSpacing
    let bnNew := mulU32 bnNew
      (int64ToUInt32 ((nInterval - 1) * nTargetSpacing + nActualSpacing + nActualSpacing))
    let bnNew := bnNew / int64ToArith256 ((nInterval + 1) * nTargetSpacing)
    let bnNew := if bnNew ≤ 0 ∨ bnNew > bnTargetLimit then bnTargetLimit else bnNew
    getCompact bnNew

/-- The multiplier of the retarget at a spacing `s`. -/
def retargetMultiplier (params : ConsensusParams) (s : Int) : Int :=
  (params.nPosTargetTimespan.tdiv params.nPosTargetSpacing - 1) * params.nPosTargetSpacing + s + s

/-- The divisor of the retarget. -/
def retargetDivisor (params : ConsensusParams) : Int :=
  (params.nPosTargetTimespan.tdiv params.nPosTargetSpacing + 1) * params.nPosTargetSpacing

/-- The target before the cap: the word loop's product over the divisor. -/
def retargetQuotient (params : ConsensusParams) (nBits : UInt32) (s : Int) : arith_uint256 :=
  mulU32 (setCompact nBits) (int64ToUInt32 (retargetMultiplier params s)) /
    int64ToArith256 (retargetDivisor params)

/-- `bnNew <= 0 || bnNew > bnTargetLimit` replaces the target by the limit. -/
def capTarget (limit b : arith_uint256) : arith_uint256 :=
  if b ≤ 0 ∨ b > limit then limit else b

theorem getNextRequiredPoS_cons (params : ConsensusParams) (last : CBlockIndex) (pprev : BlockPtr) :
    getNextRequiredPoS params (last :: pprev) = getCompact (capTarget
      (uintToArith256 params.powLimit)
      (retargetQuotient params last.nBits (actualSpacing (last :: pprev)))) := rfl

theorem retargetDivisor_pos (params : ConsensusParams) : 0 < retargetDivisor params := by
  have hs := params.spacing_pos
  have hi : 0 ≤ params.nPosTargetTimespan.tdiv params.nPosTargetSpacing :=
    Int.tdiv_nonneg params.timespan_nonneg (Int.le_of_lt hs)
  exact Int.mul_pos (by omega) hs

theorem retargetDivisor_lt (params : ConsensusParams) : retargetDivisor params < 2 ^ 64 := by
  have hs := params.spacing_pos
  have hle : params.nPosTargetTimespan.tdiv params.nPosTargetSpacing * params.nPosTargetSpacing
      ≤ params.nPosTargetTimespan := by
    rw [Int.tdiv_eq_ediv_of_nonneg params.timespan_nonneg]
    exact Int.ediv_mul_le _ (by omega)
  have := params.spacing_lt
  have := params.timespan_lt
  unfold retargetDivisor
  rw [Int.add_mul, Int.one_mul]
  omega

/-- Below both cuts the quotient is exact: when the multiplier is a `uint32_t` and the product
fits in 256 bits, the quotient is the target times the multiplier over the divisor. -/
theorem retargetQuotient_toNat (params : ConsensusParams) (nBits : UInt32) {s : Int}
    (hm : 0 ≤ retargetMultiplier params s ∧ retargetMultiplier params s < 2 ^ 32)
    (hprod : (setCompact nBits).toNat * (retargetMultiplier params s).toNat < 2 ^ 256) :
    (retargetQuotient params nBits s).toNat =
      (setCompact nBits).toNat * (retargetMultiplier params s).toNat /
        (retargetDivisor params).toNat := by
  have hmul : (int64ToUInt32 (retargetMultiplier params s)).toNat =
      (retargetMultiplier params s).toNat := by
    simp only [int64ToUInt32, Int.emod_eq_of_lt hm.1 hm.2, Nat.toUInt32, UInt32.toNat_ofNat']
    exact Nat.mod_eq_of_lt (by omega)
  have hd := retargetDivisor_pos params
  have hdlt := retargetDivisor_lt params
  have hdiv : (int64ToArith256 (retargetDivisor params)).toNat =
      (retargetDivisor params).toNat := by
    rw [int64ToArith256, BitVec.toNat_ofNat, Int.emod_eq_of_lt (Int.le_of_lt hd) hdlt]
    exact Nat.mod_eq_of_lt (by omega)
  have hm256 : (retargetMultiplier params s).toNat < 2 ^ 256 := by omega
  rw [retargetQuotient, BitVec.toNat_udiv, mulU32_eq, BitVec.toNat_mul, BitVec.toNat_ofNat, hmul,
    Nat.mod_eq_of_lt hm256, Nat.mod_eq_of_lt hprod, hdiv]

/-- The exact retarget: the target times the multiplier, over the divisor, with zero and what
exceeds `powLimit` replaced by `powLimit`. -/
def exactRetarget (params : ConsensusParams) (T : Nat) (s : Int) : Nat :=
  let t := T * (retargetMultiplier params s).toNat / (retargetDivisor params).toNat
  if t = 0 ∨ (uintToArith256 params.powLimit).toNat < t then
    (uintToArith256 params.powLimit).toNat else t

/-- The cap read on numbers. -/
theorem capTarget_toNat (limit b : arith_uint256) :
    (capTarget limit b).toNat =
      if b.toNat = 0 ∨ limit.toNat < b.toNat then limit.toNat else b.toNat := by
  unfold capTarget
  have h0 : (0 : arith_uint256).toNat = 0 := rfl
  by_cases h : b.toNat = 0 ∨ limit.toNat < b.toNat
  · have h' : b ≤ 0 ∨ b > limit := by
      simp only [BitVec.le_def, gt_iff_lt, BitVec.lt_def, h0]
      omega
    rw [if_pos h', if_pos h]
  · have h' : ¬ (b ≤ 0 ∨ b > limit) := by
      simp only [BitVec.le_def, gt_iff_lt, BitVec.lt_def, h0]
      omega
    rw [if_neg h', if_neg h]

/-- Below both cuts the retarget computes the exact formula: the result is the compact form of
`exactRetarget`. -/
theorem getNextRequiredPoS_eq_of_lt (params : ConsensusParams) (last : CBlockIndex)
    (pprev : BlockPtr)
    (hm : 0 ≤ retargetMultiplier params (actualSpacing (last :: pprev)) ∧
      retargetMultiplier params (actualSpacing (last :: pprev)) < 2 ^ 32)
    (hprod : (setCompact last.nBits).toNat *
      (retargetMultiplier params (actualSpacing (last :: pprev))).toNat < 2 ^ 256) :
    getNextRequiredPoS params (last :: pprev) =
      getCompact (BitVec.ofNat 256 (exactRetarget params (setCompact last.nBits).toNat
        (actualSpacing (last :: pprev)))) := by
  rw [getNextRequiredPoS_cons]
  congr 1
  apply BitVec.eq_of_toNat_eq
  have hlim := BitVec.isLt (uintToArith256 params.powLimit)
  have hq := retargetQuotient_toNat params last.nBits hm hprod
  have hqlt := BitVec.isLt (retargetQuotient params last.nBits (actualSpacing (last :: pprev)))
  rw [capTarget_toNat, hq, BitVec.toNat_ofNat, exactRetarget]
  rw [hq] at hqlt
  split <;> simp only [Nat.mod_eq_of_lt hlim, Nat.mod_eq_of_lt hqlt]

namespace RetargetFixture

/-- A block at the main network's `powLimit` target, `gap` seconds after its parent. -/
def lastBlock (gap : UInt32) : CBlockIndex :=
  ⟨1, gap, 0x1e0fffff, true, false, false, 0, 0⟩

/-- Its parent, at time `0`. -/
def parent : CBlockIndex := ⟨0, 0, 0x1e0fffff, false, false, true, 0, 0⟩

/-- One second more between two blocks takes the next target from `powLimit` down by a factor of
about 2460: with a gap of 523118 seconds the multiplier is `2^20` and the result is `powLimit`,
with 523119 it is `2^20 + 2` and the product of the target `2^236 - 2^216` wraps, where the exact
formula still gives `powLimit`. -/
theorem retarget_falls_after_long_gap :
    0 < (setCompact 0x1e0fffff).toNat ∧
      setCompact 0x1e0fffff ≤ uintToArith256 mainParams.powLimit ∧
      getNextRequiredPoS mainParams [lastBlock 523118, parent] = 0x1e0fffff ∧
      getNextRequiredPoS mainParams [lastBlock 523119, parent] = 0x1d01aa3f ∧
      setCompact 0x1d01aa3f < setCompact 0x1e0fffff ∧
      getCompact (BitVec.ofNat 256
        (exactRetarget mainParams (setCompact 0x1e0fffff).toNat 523119)) = 0x1e0fffff := by
  refine ⟨by decide +kernel, by decide +kernel, by decide +kernel, by decide +kernel,
    by decide +kernel, by decide +kernel⟩

end RetargetFixture

end Emrals.Pos
