import Emrals.Pos.Chain
import Emrals.Transaction

/-!
# The stake kernel

`CheckStakeKernelHash` (`src/pos/kernel.cpp:311-383`) accepts a stake when the hash of the kernel
is at most the target per coin-day times the coin-day weight of the staked output. The hash mixes
in the stake modifier that `GetKernelStakeModifierV03` (`src/pos/kernel.cpp:229-278`) finds about
a selection interval after the block holding the staked output.

## The modifier walk

`GetKernelStakeModifierV03` walks up from the block of the staked output. Below the branch of
`pindexPrev` that leaves the active chain it follows `ChainActive().Next`; on the branch it reads
`tmpChain`, the branch's entries gathered from `pindexPrev` down and reversed (`collectTmpChain`).
The index into `tmpChain` is incremented as it is read and only then compared with the size
(`walkNext`): a successful read never leaves it above the size (`walkNext_index_le`), so the
size test cannot fire, and when the branch is used up before a modifier is found the walk reads
`tmpChain[tmpChain.size()]` (`walkNext_eq_none_iff`, `modifier_walk_reads_past_branch`).

## The weight

The coin-day weight `nValueIn * nTimeWeight / COIN / 200` is formed in `int64_t`. At the main
network's weight cap of 82800 seconds the product leaves 64 bits for outputs above about 1.1
million coins, below `MAX_MONEY`. Where it stays in 64 bits the weight is below `2^29`
(`coinDayWeight_lt`), but the target it multiplies can be as large as `powLimit`, about `2^236`:
the product stays in 256 bits for weights below `2^20` (`kernelTarget_toNat`) and wraps above,
from about 2533 coins at the weight cap (`stake_kernel_weight_overflows`).
-/

namespace Emrals.Pos

open ArithUint256

/-! ## The modifier walk -/

/-- How `GetKernelStakeModifierV03` ends. -/
inductive KernelModifier
  /-- It returns `true` with this modifier. -/
  | found (nStakeModifier : UInt64)
  /-- It returns `false`. -/
  | notFound
  /-- It reads `tmpChain[n]` with `n = tmpChain.size()`. -/
  | readPastEnd
  deriving DecidableEq, Repr

/-- The `GetBlockTime()` of the entry a pointer points to. -/
def ptrTime (p : BlockPtr) : Int := (p.head?.map CBlockIndex.getBlockTime).getD 0

/-- The loop that fills `tmpChain`: at most `nDepth` entries from `pindexPrev` down, stopping at
the first on the active chain. -/
def collectTmpChain (chain : CChain) : Nat → BlockPtr → List BlockPtr
  | 0, _ => []
  | i + 1, it => if chain.contains it then [] else it :: collectTmpChain chain i it.tail

/-- One move of the walk, with the index into `tmpChain`: along `tmpChain` from the height below
its first entry on, along the active chain below that. `none` is the read `tmpChain[n]` with
`n = tmpChain.size()`. -/
def walkNext (chain : CChain) (tmpChain : List BlockPtr) (pindex : BlockPtr) (n : Nat) :
    Option (BlockPtr × Nat) :=
  match tmpChain with
  | first :: _ =>
    if nHeight pindex ≥ nHeight first - 1 then (tmpChain[n]?).map fun p => (p, n + 1)
    else some (chain.next pindex, n)
  | [] => some (chain.next pindex, n)

/-- The `while` loop of `GetKernelStakeModifierV03`: it moves up until the last generated
modifier is at least `threshold` seconds old, and then answers the modifier of the entry it
stands on. Each iteration moves one entry up, so the caller's fuel of the two chains' lengths is
never used up. -/
def walkLoop (chain : CChain) (tmpChain : List BlockPtr) (threshold : Int) :
    Nat → BlockPtr → Nat → Int → KernelModifier
  | 0, _, _, _ => .notFound
  | fuel + 1, pindex, n, nStakeModifierTime =>
    if nStakeModifierTime < threshold then
      match walkNext chain tmpChain pindex n with
      | none => .readPastEnd
      | some ([], _) => .notFound
      | some (b :: rest, n') =>
        if n' > tmpChain.length then .notFound
        else walkLoop chain tmpChain threshold fuel (b :: rest) n'
          (if b.generatedStakeModifier then b.getBlockTime else nStakeModifierTime)
    else .found ((pindex.head?.map (·.nStakeModifier)).getD 0)

/-- `GetKernelStakeModifierV03`. The block index maps a hash to its entry, `[]` for a hash it does
not hold. The modifier's height and time, which the source returns for its log, are left out. -/
def getKernelStakeModifierV03 (params : ConsensusParams) (chain : CChain)
    (mapBlockIndex : uint256 → BlockPtr) (pindexPrev : BlockPtr) (hashBlockFrom : uint256) :
    KernelModifier :=
  match mapBlockIndex hashBlockFrom with
  | [] => .notFound
  | pindexFrom =>
    let nStakeModifierSelectionInterval := getStakeModifierSelectionInterval params
    let nDepth := nHeight pindexPrev - (nHeight pindexFrom - 1)
    let tmpChain := (collectTmpChain chain nDepth.toNat pindexPrev).reverse
    walkLoop chain tmpChain (ptrTime pindexFrom + nStakeModifierSelectionInterval)
      (tmpChain.length + chain.tip.length + 1) pindexFrom 0 (ptrTime pindexFrom)

namespace KernelFixture

/-- An entry at time `0` that generated no modifier. -/
def entry (hash : uint256) : CBlockIndex := ⟨hash, 0, 0x1e0fffff, false, false, false, 0, 0⟩

/-- The genesis block. -/
def genesis : CBlockIndex := entry 0

/-- The active chain: the genesis block and one block on it. -/
def activeChain : CChain := ⟨[entry 1, genesis]⟩

/-- A block on the genesis block that the active chain does not hold. -/
def forkTip : BlockPtr := [entry 2, genesis]

/-- The block index: the genesis block. -/
def blockIndex (hash : uint256) : BlockPtr := if hash = 0 then [genesis] else []

/-- Staking the genesis block's output on a one-block fork: the fork block generated no modifier,
so the walk takes it from `tmpChain[0]` and then reads `tmpChain[1]` of a `tmpChain` of one
entry. -/
theorem modifier_walk_reads_past_branch :
    [genesis] <:+ forkTip ∧ activeChain.contains forkTip = false ∧
      getKernelStakeModifierV03 mainParams activeChain blockIndex forkTip 0 = .readPastEnd := by
  refine ⟨⟨[entry 2], rfl⟩, by decide, by decide⟩

end KernelFixture

/-! ## The weight -/

/-- The coin-day weight `nValueIn * nTimeWeight / COIN / 200`, in `int64_t`: `none` where the
product overflows. -/
def coinDayWeight (nValueIn nTimeWeight : Int) : Option Int :=
  (int64Mul nValueIn nTimeWeight).map fun product => (product.tdiv COIN).tdiv 200

/-- `CheckStakeKernelHash`. The staked output is `txPrev.vout[prevout.n]`, which the caller has
already read, so `none` at an index out of range never comes of a call; `none` also stands for an
overflow of the weight and for the walk's read past `tmpChain`. `KernelHash` is the `Hash` of the
serialized modifier, times and output index. The hash proof that the source also returns is
`KernelHash` applied to the same values. -/
def checkStakeKernelHash (params : ConsensusParams) (chain : CChain)
    (mapBlockIndex : uint256 → BlockPtr) (KernelHash : UInt64 → UInt32 → Int → UInt32 → UInt32 → uint256)
    (nBits : UInt32) (pindexPrev : BlockPtr) (blockFromTime : UInt32) (blockFromHash : uint256)
    (txPrev : CTransaction) (prevout : COutPoint) (nTimeTx : UInt32) : Option Bool :=
  let fHardenedChecks := nHeight pindexPrev + 1 > params.nStakeEnforcement
  let txPrevTime : Int := blockFromTime.toNat
  if (nTimeTx.toNat : Int) < txPrevTime then some false
  else
    let nTimeBlockFrom := blockFromTime
    -- `unsigned int + int` adds in `unsigned int`
    if nTimeBlockFrom + int64ToUInt32 params.nStakeMinAge > nTimeTx then some false
    else
      let bnTargetPerCoinDay := setCompact nBits
      match txPrev.vout[prevout.n.toNat]? with
      | none => none
      | some out =>
        let nValueIn := out.nValue
        if nValueIn < params.nMinStakeAmount ∧ fHardenedChecks then some false
        else
          let nTimeWeight :=
            min ((nTimeTx.toNat : Int) - txPrevTime) (params.nStakeMaxAge - params.nStakeMinAge)
          match coinDayWeight nValueIn nTimeWeight with
          | none => none
          | some weight =>
            let bnCoinDayWeight := int64ToArith256 weight
            match getKernelStakeModifierV03 params chain mapBlockIndex pindexPrev blockFromHash with
            | .readPastEnd => none
            | .notFound => some false
            | .found nStakeModifier =>
              let hashProofOfStake :=
                KernelHash nStakeModifier nTimeBlockFrom txPrevTime prevout.n nTimeTx
              some (!decide (uintToArith256 hashProofOfStake > bnCoinDayWeight * bnTargetPerCoinDay))

namespace KernelFixture

/-- A transaction whose first output holds `MAX_MONEY`. -/
def richTx : CTransaction := ⟨1, 1, TRANSACTION_NORMAL, [], [⟨MAX_MONEY, []⟩], none⟩

/-- The weight at the main network's cap overflows `int64_t` for `MAX_MONEY`: `MAX_MONEY * 82800`
is about `1.7388e20`, above `2^63`, so staking it a day after its block, past block 7001, fails
whatever the chain, the block index and the kernel hash. For 3000 coins the weight is formed, but
its product with the target `2^236 - 2^216` of the compact `powLimit` wraps modulo `2^256`. -/
theorem stake_kernel_weight_overflows (chain : CChain) (mapBlockIndex : uint256 → BlockPtr)
    (KernelHash : UInt64 → UInt32 → Int → UInt32 → UInt32 → uint256) (pindexPrev : BlockPtr)
    (blockFromHash : uint256) :
    moneyRange MAX_MONEY = true ∧ moneyRange (3000 * COIN) = true ∧
      setCompact 0x1e0fffff ≤ uintToArith256 mainParams.powLimit ∧
      mainParams.nStakeMaxAge - mainParams.nStakeMinAge = 82800 ∧
      coinDayWeight MAX_MONEY 82800 = none ∧
      checkStakeKernelHash mainParams chain mapBlockIndex KernelHash 0x1e0fffff pindexPrev
        1000000 blockFromHash richTx ⟨1, 0⟩ (1000000 + 86400) = none ∧
      coinDayWeight (3000 * COIN) 82800 = some 1242000 ∧
      (int64ToArith256 1242000 * setCompact 0x1e0fffff).toNat ≠
        1242000 * (setCompact 0x1e0fffff).toNat := by
  have hcap : mainParams.nStakeMaxAge - mainParams.nStakeMinAge = 82800 := by decide
  have hweight : coinDayWeight MAX_MONEY 82800 = none := by decide
  refine ⟨by decide, by decide, by decide +kernel, hcap, hweight, ?_, by decide,
    by decide +kernel⟩
  -- every test before the weight passes: the stake is a day old and above the minimum
  unfold checkStakeKernelHash
  have hweight' : coinDayWeight MAX_MONEY (mainParams.nStakeMaxAge - mainParams.nStakeMinAge) =
      none := hcap ▸ hweight
  simp +decide [richTx, hweight']

end KernelFixture

end Emrals.Pos
