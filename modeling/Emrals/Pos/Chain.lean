import Emrals.Arith.Uint256

/-!
# The block index as the proof-of-stake code reads it

The consensus parameters of proof of stake (`Consensus::Params`, `src/consensus/params.h`), the
fields of a block index entry that the kernel, the stake modifier and the retarget read
(`src/chain.h`), and the active chain (`CChain`).

A `CBlockIndex*` is modelled by the entries on its `pprev` chain, the entry itself first
(`BlockPtr`); `nullptr` is the empty list. Two pointers are equal when they point to one entry of
the block index, and the entries of the block index are told apart by their hashes, so a pointer
is the list of entries it reaches. The height of an entry is the number of its ancestors.

`CChain` holds the active chain by its tip: the entry at height `h` is the tip's ancestor at `h`
(`CChain.get`), `Contains` compares it with a pointer and `Next` steps one entry up the chain.
The chain's entries are exactly the suffixes of the tip (`CChain.contains_iff`).
-/

namespace Emrals.Pos

/-- `MODIFIER_INTERVAL_RATIO` (`src/pos/kernel.h`). -/
def MODIFIER_INTERVAL_RATIO : Int := 3

/-- The consensus parameters that the proof-of-stake code reads. The bounds after the values hold
of every network's parameters; they keep the divisors positive and every product the code forms
within its C++ type, so that the model's integers compute what the source's do. -/
structure ConsensusParams where
  powLimit : uint256
  nPosTargetSpacing : Int
  nPosTargetTimespan : Int
  nStakeMinAge : Int
  nStakeMaxAge : Int
  nModifierInterval : Int
  nStakeEnforcement : Int
  nMinStakeAmount : CAmount
  spacing_pos : 0 < nPosTargetSpacing
  spacing_lt : nPosTargetSpacing < 2 ^ 31
  timespan_nonneg : 0 ≤ nPosTargetTimespan
  timespan_lt : nPosTargetTimespan < 2 ^ 31
  minAge_nonneg : 0 ≤ nStakeMinAge
  minAge_le_maxAge : nStakeMinAge ≤ nStakeMaxAge
  maxAge_lt : nStakeMaxAge < 2 ^ 31
  interval_pos : 0 < nModifierInterval
  interval_lt : nModifierInterval < 2 ^ 25

/-- The main network's values (`CMainParams`, `src/chainparams.cpp:152-170`). -/
def mainParams : ConsensusParams where
  powLimit := BitVec.ofNat 256 (2 ^ 236 - 1)
  nPosTargetSpacing := 60
  nPosTargetTimespan := 60 * 40
  nStakeMinAge := 60 * 60
  nStakeMaxAge := 60 * 60 * 24
  nModifierInterval := 60
  nStakeEnforcement := 7001
  nMinStakeAmount := 150 * COIN
  spacing_pos := by decide
  spacing_lt := by decide
  timespan_nonneg := by decide
  timespan_lt := by decide
  minAge_nonneg := by decide
  minAge_le_maxAge := by decide
  maxAge_lt := by decide
  interval_pos := by decide
  interval_lt := by decide

/-- The fields of a block index entry that the proof-of-stake code reads. The three flags are the
bits `BLOCK_PROOF_OF_STAKE`, `BLOCK_STAKE_ENTROPY` and `BLOCK_STAKE_MODIFIER` of `nFlags`. -/
structure CBlockIndex where
  hash : uint256
  nTime : UInt32
  nBits : UInt32
  isProofOfStake : Bool
  stakeEntropyBit : Bool
  generatedStakeModifier : Bool
  nStakeModifier : UInt64
  hashProofOfStake : uint256
  deriving DecidableEq

/-- `CBlockIndex::GetBlockTime`. -/
def CBlockIndex.getBlockTime (b : CBlockIndex) : Int := b.nTime.toNat

/-- `CBlockIndex::GetStakeEntropyBit`. -/
def CBlockIndex.getStakeEntropyBit (b : CBlockIndex) : UInt64 := if b.stakeEntropyBit then 1 else 0

/-- A `CBlockIndex*`: the entry it points to, then those of its `pprev` chain down to the genesis
block. `[]` is `nullptr`. -/
abbrev BlockPtr := List CBlockIndex

/-- `nHeight`: the number of ancestors. -/
def nHeight (p : BlockPtr) : Int := p.length - 1

@[simp] theorem nHeight_cons (b : CBlockIndex) (p : BlockPtr) : nHeight (b :: p) = p.length := by
  simp [nHeight]

/-- `CChain`, the active chain, by its tip. -/
structure CChain where
  tip : BlockPtr

namespace CChain

/-- `CChain::operator[]`: the entry at a height, `nullptr` outside the chain. -/
def get (c : CChain) (h : Int) : BlockPtr :=
  if h < 0 ∨ c.tip.length ≤ h then [] else c.tip.drop (c.tip.length - 1 - h.toNat)

/-- `CChain::Contains`. -/
def contains (c : CChain) (p : BlockPtr) : Bool := c.get (nHeight p) == p

/-- `CChain::Next`: the entry above one of the chain, `nullptr` above the tip or off the chain. -/
def next (c : CChain) (p : BlockPtr) : BlockPtr :=
  if c.contains p then c.get (nHeight p + 1) else []

/-- The entry at a height within the chain is the tip's suffix of that height. -/
theorem get_of_lt {c : CChain} {h : Nat} (hh : h < c.tip.length) :
    c.get h = c.tip.drop (c.tip.length - 1 - h) := by
  unfold get
  rw [if_neg (by omega), Int.toNat_natCast]

/-- The chain contains a non-null pointer exactly when it is a suffix of the tip. -/
theorem contains_iff {c : CChain} {p : BlockPtr} (hp : p ≠ []) :
    c.contains p = true ↔ p <:+ c.tip := by
  obtain ⟨b, p, rfl⟩ := List.exists_cons_of_ne_nil hp
  unfold contains
  simp only [nHeight_cons, beq_iff_eq]
  constructor
  · intro h
    unfold get at h
    split at h
    · simp at h
    · rw [← h]
      exact List.drop_suffix _ _
  · rintro ⟨t, ht⟩
    have hlen : p.length < c.tip.length := by rw [← ht]; simp; omega
    rw [get_of_lt hlen, ← ht]
    simp only [List.length_append, List.length_cons]
    rw [show t.length + (p.length + 1) - 1 - p.length = t.length by omega, List.drop_left]

end CChain

/-- `GetStakeModifierSelectionIntervalSection` (its assertion holds at every call, which passes a
round below 64). -/
def getStakeModifierSelectionIntervalSection (params : ConsensusParams) (nSection : Nat) : Int :=
  params.nModifierInterval * 63 / (63 + (63 - nSection) * ( MODIFIER_INTERVAL_RATIO - 1))

/-- `GetStakeModifierSelectionInterval`: the sum of the 64 sections. -/
def getStakeModifierSelectionInterval (params : ConsensusParams) : Int :=
  ((List.range 64).map (getStakeModifierSelectionIntervalSection params)).sum

end Emrals.Pos
