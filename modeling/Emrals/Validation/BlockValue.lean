import Mathlib
import Emrals.Coins.View
import Emrals.Special.BuildSpec
import Emrals.Special.CheckSpecialTx
import Emrals.Special.BlockAborts

/-!
# The value a block creates

`CChainState::ConnectBlock` (`src/validation.cpp:1874`) tallies, over the transactions of a block,
the fees of the ordinary transactions (`nFees`), the inputs of the coinstake (`nValueIn`) and the
outputs of the coinbase and the coinstake (`nValueOut`); the block mints
`nMint = nValueOut - nValueIn`. Two checks bound what it may mint:

* for a proof-of-work block, the coinbase may pay at most `nFees + GetBlockSubsidy(nHeight)`;
* `IsBlockValueValid` (`src/masternodes/payments.cpp:37`) measures *one* transaction, the coinbase
  of a proof-of-work block or the coinstake of a proof-of-stake block, net of the coinstake's
  inputs, against that reward and, at a superblock height, the superblock's payments limit.

The check of `nMint` itself for a proof-of-stake block is commented out, and `CheckBlock` asks of a
proof-of-stake coinbase only that its first output be empty. So every check is met by the
proof-of-work blocks, and by the proof-of-stake blocks up to the outputs of their coinbase
(`connectBlock_mint_bound`).

The model keeps the value accounting with every reject reason and assert of the loop, the UTXO set
as one map (`CoinsMap`), `CheckBlock`'s rules on the shape of a block and `CheckTransaction`'s on
types and amounts, and the subsidy schedule (`GetBlockSubsidy`), on the money supply of the tip.
The checks that read what the model does not hold (script verification, `SequenceLocks`, the
masternode payees, the special transactions and the governance state) are parameters
(`ConnectEnv`).
Checks that only reject a block and read nothing the value accounting reads (the proof of work of
the header, the merkle root, sizes, sigops, `BIP30`, chain locks and InstantSend conflicts) are
left out: they can only shrink the set of blocks the bound speaks of.
-/

namespace Emrals

/-- `CBlock`, by its transactions. -/
structure CBlock where
  vtx : List CTransaction

namespace CBlock

/-- `CBlock::IsProofOfStake`: the second transaction is a coinstake. -/
def isProofOfStake (b : CBlock) : Bool :=
  match b.vtx with
  | _ :: tx :: _ => tx.isCoinStake
  | _ => false

/-- `CBlock::IsProofOfWork`. -/
def isProofOfWork (b : CBlock) : Bool := !b.isProofOfStake

/-- `block.vtx[n]`. The code reads only the coinbase, and the coinstake of a proof-of-stake block,
which `CheckBlock` has made sure of; past the end the model reads a transaction with nothing in
it. -/
def txAt (b : CBlock) (n : Nat) : CTransaction :=
  b.vtx.getD n ⟨0, 0, 0, [], [], none⟩

end CBlock

/-- `COINBASE_MATURITY`. -/
def COINBASE_MATURITY : Int := 10

/-- What connecting a block reads besides the block and the UTXO set of the tip. -/
structure ConnectEnv where
  /-- `Params().NetworkIDString()`. -/
  strNetworkID : ChainNetwork
  nLastPoWBlock : Int
  nLastBlockReward : Int
  nBudgetPaymentsStartBlock : Int
  nSuperblockStartBlock : Int
  nSuperblockCycle : Int
  /-- `masternodeSync.IsSynced()`. -/
  IsSynced : Bool
  fLiteMode : Bool
  /-- `sporkManager.IsSporkActive(SPORK_1_SUPERBLOCKS_ENABLED)`. -/
  superblocksEnabled : Bool
  /-- `CSuperblockManager::IsSuperblockTriggered`: the governance state has a trigger. -/
  IsSuperblockTriggered : Int → Bool
  /-- `CSuperblockManager::IsValid`: the transaction pays the triggered superblock. -/
  IsValidSuperblock : CTransaction → Int → CAmount → Bool
  /-- `SequenceLocks` of a transaction (BIP68). -/
  SequenceLocks : CTransaction → Bool
  /-- `CheckInputs`: the scripts of the transaction's inputs; the reject reason on failure. -/
  CheckInputs : CTransaction → Option String
  /-- `IsBlockPayeeValid`: the coinstake pays the masternode and the superblock. -/
  IsBlockPayeeValid : CTransaction → Int → CAmount → Bool
  /-- `ProcessSpecialTxsInBlock`: the reject reason on failure. -/
  ProcessSpecialTxsInBlock : CBlock → Option String
  /-- `ChainActive().Tip()->nMoneySupply`: the supply of the tip the block connects on. -/
  nMoneySupply : CAmount

/-- The subsidy of the bands of `GetBlockSubsidy` above height 7500: up to each height, the
`double` of the source times `COIN`, each an exact number of satoshis (`2.8 * COIN` is
`280000000`). Above the last band the subsidy is `1.5 * COIN`. -/
def subsidyBands : List (Int × CAmount) :=
  [(291300, 280000000), (816900, 261000000), (1342500, 244000000), (1868100, 227000000),
    (2393700, 212000000), (2919300, 198000000), (3444900, 185000000), (3970500, 172000000),
    (4496100, 161000000)]

/-- `GetBlockSubsidy` (`src/validation.cpp:1070`). The reward ends at `nLastBlockReward`; regtest
pays 50 coins and height 1 the supply of the old chain, both whole even when only the superblock
part is asked for. Otherwise the band's subsidy is cut to what is left below `MAX_MONEY`, is
`0.0001 * COIN` once the supply has reached it, and loses a twentieth to the superblocks from
`nBudgetPaymentsStartBlock` on. -/
def ConnectEnv.getBlockSubsidy (cenv : ConnectEnv) (nHeight : Int) (fSuperblockPartOnly : Bool) :
    CAmount :=
  if nHeight ≥ cenv.nLastBlockReward then 0 * COIN
  else if cenv.strNetworkID = .regtest then 50 * COIN
  -- the supply on the old chain
  else if nHeight = 1 then 3093000 * COIN
  else if nHeight ≤ 7500 then 0 * COIN
  else
    let nSubsidy : CAmount :=
      ((subsidyBands.find? fun band => nHeight ≤ band.1).map (·.2)).getD 150000000
    let nMoneySupply := cenv.nMoneySupply
    let nSubsidy := if nMoneySupply + nSubsidy ≥ MAX_MONEY then MAX_MONEY - nMoneySupply else nSubsidy
    let nSubsidy := if nMoneySupply ≥ MAX_MONEY then 10000 else nSubsidy
    let nSuperblockPart := if nHeight ≥ cenv.nBudgetPaymentsStartBlock then nSubsidy.tdiv 20 else 0
    if fSuperblockPartOnly then nSuperblockPart else nSubsidy - nSuperblockPart

/-- The loop of `CheckTransaction` over the outputs: each in range, and the running total too. -/
def checkTxOutValue (nValueOut : CAmount) (txout : CTxOut) : Except BuildError CAmount := do
  rejectIf (txout.nValue < 0) "bad-txns-vout-negative"
  rejectIf (txout.nValue > MAX_MONEY) "bad-txns-vout-toolarge"
  let nValueOut := nValueOut + txout.nValue
  rejectIf (!moneyRange nValueOut) "bad-txns-txouttotal-toolarge"
  pure nValueOut

/-- `CheckTransaction` with `fCheckDuplicateInputs`, without the size limits and the coinbase's
script length. Its list of known types has no `TRANSACTION_PROVIDER_UPDATE_REGISTRAR`. -/
def checkTransaction (tx : CTransaction) : Except BuildError Unit := do
  let allowEmptyTxInOut := tx.nType == TRANSACTION_QUORUM_COMMITMENT
  rejectIf (!allowEmptyTxInOut && tx.vin.isEmpty) "bad-txns-vin-empty"
  rejectIf (!allowEmptyTxInOut && tx.vout.isEmpty) "bad-txns-vout-empty"
  rejectIf (2 ≤ tx.nVersion &&
    tx.nType != TRANSACTION_NORMAL &&
    tx.nType != TRANSACTION_COINBASE &&
    tx.nType != TRANSACTION_PROVIDER_REGISTER &&
    tx.nType != TRANSACTION_PROVIDER_UPDATE_SERVICE &&
    tx.nType != TRANSACTION_PROVIDER_UPDATE_REVOKE &&
    tx.nType != TRANSACTION_QUORUM_COMMITMENT &&
    tx.nType != TRANSACTION_STAKE) "bad-txns-type"
  rejectIf (tx.isCoinBase && 2 ≤ tx.nVersion && tx.nType != TRANSACTION_COINBASE) "bad-txns-cb-type"
  let _ ← tx.vout.foldlM checkTxOutValue 0
  rejectIf (!decide (tx.vin.map CTxIn.prevout).Nodup) "bad-txns-inputs-duplicate"
  rejectIf (!tx.isCoinBase && tx.vin.any fun txin => txin.prevout.isNull) "bad-txns-prevout-null"

/-- The one special type `CheckSpecialTx` and `BuildNewListFromBlock` handle that `CheckTransaction`
does not know: a block with a ProUpRegTx never reaches them. -/
theorem checkTransaction_proUpRegTx_ne_ok {tx : CTransaction} (hv : 2 ≤ tx.nVersion)
    (ht : tx.nType = TRANSACTION_PROVIDER_UPDATE_REGISTRAR) : checkTransaction tx ≠ .ok () := by
  intro h
  unfold checkTransaction at h
  obtain ⟨_, -, h⟩ := Fallible.except_bind_eq_ok h
  obtain ⟨_, -, h⟩ := Fallible.except_bind_eq_ok h
  obtain ⟨_, htype, -⟩ := Fallible.except_bind_eq_ok h
  rw [rejectIf_eq_ok, ht] at htype
  simp only [hv, decide_true, Bool.true_and] at htype
  exact absurd htype (by decide)

/-- `CheckBlock`'s rules on the transactions of a block: a coinbase first and nowhere else, a
coinstake nowhere after the second place, the first output of a proof-of-stake coinbase empty,
and every transaction passing `CheckTransaction`. -/
def checkBlock (block : CBlock) : Except BuildError Unit := do
  rejectIf block.vtx.isEmpty "bad-blk-length"
  rejectIf (!(block.txAt 0).isCoinBase) "bad-cb-missing"
  rejectIf ((block.vtx.drop 1).any CTransaction.isCoinBase) "bad-cb-multiple"
  rejectIf ((block.vtx.drop 2).any CTransaction.isCoinStake) "bad-cs-missing"
  rejectIf (block.isProofOfStake && !((block.txAt 0).vout.headD default).isEmpty) "bad-cb-notempty"
  block.vtx.forM checkTransaction

/-! ## `IsBlockValueValid` -/

section
variable (cenv : ConnectEnv)

/-- `CSuperblock::IsValidBlockHeight`: from the start block on, once a cycle. (`%` of the code
truncates, but a remainder is zero under both conventions.) -/
def isValidBlockHeight (nBlockHeight : Int) : Bool :=
  cenv.nSuperblockStartBlock ≤ nBlockHeight && nBlockHeight % cenv.nSuperblockCycle == 0

/-- `CSuperblock::GetPaymentsLimit`: the superblock part of the subsidy over a cycle. -/
def getPaymentsLimit (nBlockHeight : Int) : CAmount :=
  if !isValidBlockHeight cenv nBlockHeight then 0
  else cenv.getBlockSubsidy (nBlockHeight - 1) true * cenv.nSuperblockCycle

/-- The value `IsBlockValueValid` measures: the outputs of the coinbase of a proof-of-work block,
or of the coinstake of a proof-of-stake block net of its inputs, read in the UTXO set of the
tip. -/
def blockValue (coinsTip : CoinsMap) (block : CBlock) : CAmount :=
  let n := if block.isProofOfStake then 1 else 0
  let nValueIn := if block.isProofOfStake then coinsTip.getValueIn (block.txAt 1) else 0
  (block.txAt n).getValueOut - nValueIn

/-- The block-reward check of `IsBlockValueValid`, with the end of its message. -/
def blockRewardCheck (nBlockHeight : Int) (blockValue blockReward : CAmount) (why : String) :
    Bool × String :=
  if blockValue ≤ blockReward then (true, "")
  else (false, s!"coinbase pays too much at height {nBlockHeight} (actual={blockValue} vs limit={blockReward}), exceeded block reward, " ++ why)

/-- `IsBlockValueValid`: whether the block's value is met, and `strErrorRet`. -/
def isBlockValueValid (coinsTip : CoinsMap) (block : CBlock) (nBlockHeight : Int)
    (blockReward : CAmount) : Bool × String :=
  let n := if block.isProofOfStake then 1 else 0
  let blockValue := blockValue coinsTip block
  let nSuperblockMaxValue := blockReward + getPaymentsLimit cenv nBlockHeight
  if !isValidBlockHeight cenv nBlockHeight then
    -- can't possibly be a superblock
    blockRewardCheck nBlockHeight blockValue blockReward
      "only regular blocks are allowed at this height"
  else if !(blockValue ≤ nSuperblockMaxValue) then
    (false, s!"coinbase pays too much at height {nBlockHeight} (actual={blockValue} vs limit={nSuperblockMaxValue}), exceeded superblock max value")
  -- not enough data for full checks, but the superblock limits were honored
  else if !cenv.IsSynced || cenv.fLiteMode then (true, "")
  else if !cenv.superblocksEnabled then
    blockRewardCheck nBlockHeight blockValue blockReward "superblocks are disabled"
  else if !cenv.IsSuperblockTriggered nBlockHeight then
    blockRewardCheck nBlockHeight blockValue blockReward "no triggered superblock detected"
  else if !cenv.IsValidSuperblock (block.txAt n) nBlockHeight blockReward then
    (false, s!"invalid superblock detected at height {nBlockHeight}")
  else (true, "")

/-! ## The value accounting of `ConnectBlock` -/

/-- The loop of `Consensus::CheckTxInputs` over the inputs: each coin present, matured if it
comes from a coinbase or a coinstake, and its value and the running total in range. -/
def inputValueStep (view : CoinsMap) (nSpendHeight : Int) (nValueIn : CAmount) (txin : CTxIn) :
    Except BuildError CAmount := do
  -- assert(!coin.IsSpent())
  let coin ← orAbort (view txin.prevout)
  rejectIf ((coin.fCoinBase || coin.fCoinStake) && nSpendHeight - coin.nHeight < COINBASE_MATURITY)
    "bad-txns-premature-spend-of-coinbase"
  let nValueIn := nValueIn + coin.out.nValue
  rejectIf (!moneyRange coin.out.nValue || !moneyRange nValueIn) "bad-txns-inputvalues-outofrange"
  pure nValueIn

/-- The fee part of `Consensus::CheckTxInputs`: a coinstake may pay out more than its inputs and
leaves `txfee` at 0. -/
def txFee (tx : CTransaction) (nValueIn : CAmount) : Except BuildError CAmount :=
  if tx.isCoinStake then pure 0
  else do
    rejectIf (nValueIn < tx.getValueOut) "bad-txns-in-belowout"
    let txfee := nValueIn - tx.getValueOut
    rejectIf (!moneyRange txfee) "bad-txns-fee-outofrange"
    pure txfee

/-- `Consensus::CheckTxInputs`: the fee of the transaction. -/
def checkTxInputs (view : CoinsMap) (tx : CTransaction) (nSpendHeight : Int) :
    Except BuildError CAmount := do
  rejectIf (!view.haveInputs tx) "bad-txns-inputs-missingorspent"
  let nValueIn ← tx.vin.foldlM (inputValueStep view nSpendHeight) 0
  txFee tx nValueIn

/-- What the loop of `ConnectBlock` carries: the UTXO set and the three sums. -/
structure ConnectTally where
  view : CoinsMap
  nFees : CAmount
  nValueIn : CAmount
  nValueOut : CAmount

/-- The fee accounting of a transaction that is not a coinbase: the fees of the block so far. -/
def connectFees (nHeight : Int) (t : ConnectTally) (tx : CTransaction) :
    Except BuildError CAmount := do
  let txfee ← checkTxInputs t.view tx nHeight
  let nFees := if tx.isCoinStake then t.nFees else t.nFees + txfee
  rejectIf (!moneyRange nFees) "bad-txns-accumulated-fee-outofrange"
  rejectIf (!cenv.SequenceLocks tx) "bad-txns-nonfinal"
  pure nFees

/-- The fees of the block after a transaction: a coinbase adds none. -/
def feesAfter (nHeight : Int) (t : ConnectTally) (tx : CTransaction) :
    Except BuildError CAmount :=
  if tx.isCoinBase then pure t.nFees else connectFees cenv nHeight t tx

/-- One transaction of the loop of `ConnectBlock`. -/
def connectTx (nHeight : Int) (t : ConnectTally) (tx : CTransaction) :
    Except BuildError ConnectTally := do
  let nFees ← feesAfter cenv nHeight t tx
  rejectWith (if tx.isCoinBase then none else cenv.CheckInputs tx)
  let view ← orAbort (t.view.updateCoins tx nHeight)
  pure
    { view := view
      nFees := nFees
      nValueIn := if !tx.isCoinBase && tx.isCoinStake then t.nValueIn + t.view.getValueIn tx
        else t.nValueIn
      nValueOut := if tx.isCoinStake || tx.isCoinBase then t.nValueOut + tx.getValueOut
        else t.nValueOut }

/-- What `ConnectBlock` records of a connected block: `pindex->nMint`, and the fees. -/
structure ConnectedValue where
  nMint : CAmount
  nFees : CAmount
  deriving DecidableEq

/-- `ConnectBlock` on the UTXO set of the tip, at height `nHeight`, as far as the value of the
block goes. -/
def connectBlock (coinsTip : CoinsMap) (block : CBlock) (nHeight : Int) :
    Except BuildError ConnectedValue := do
  checkBlock block
  rejectIf (nHeight ≤ cenv.nLastPoWBlock && block.isProofOfStake) "pos-early"
  rejectIf (nHeight > cenv.nLastPoWBlock && block.isProofOfWork) "pow-ended"
  let t ← block.vtx.foldlM (connectTx cenv nHeight)
    { view := coinsTip, nFees := 0, nValueIn := 0, nValueOut := 0 }
  let blockReward := t.nFees + cenv.getBlockSubsidy nHeight false
  rejectIf (block.isProofOfWork && (block.txAt 0).getValueOut > blockReward) "bad-cb-amount"
  let nMint := t.nValueOut - t.nValueIn
  -- the check of `nMint` against `blockReward` for a proof-of-stake block is commented out
  rejectIf (!(isBlockValueValid cenv coinsTip block nHeight blockReward).1) "bad-cb-amount"
  rejectIf (block.isProofOfStake && !cenv.IsBlockPayeeValid (block.txAt 1) nHeight blockReward)
    "bad-cb-payee"
  rejectWith (cenv.ProcessSpecialTxsInBlock block)
  pure { nMint := nMint, nFees := t.nFees }

end

/-! ## What the checks bound -/

theorem CTransaction.isCoinStake_eq_false_of_isCoinBase {tx : CTransaction}
    (h : tx.isCoinBase = true) : tx.isCoinStake = false := by
  obtain ⟨hash, nVersion, nType, vin, vout, payload⟩ := tx
  rcases vin with _ | ⟨i, _ | ⟨j, rest⟩⟩
  · rfl
  · -- a coinbase's one input spends the null outpoint, a coinstake's first input does not
    have hnull : i.prevout.isNull = true := by
      simp only [CTransaction.isCoinBase, Bool.and_eq_true] at h
      exact h.1
    rcases vout with _ | ⟨o, _ | ⟨o', outs⟩⟩ <;> simp [CTransaction.isCoinStake, hnull]
  · simp [CTransaction.isCoinBase] at h

/-- What `CheckBlock` makes sure of the shape of a block. -/
theorem checkBlock_shape {block : CBlock} (h : checkBlock block = .ok ()) :
    ∃ cb rest, block.vtx = cb :: rest ∧ cb.isCoinBase = true ∧
      (∀ tx ∈ rest, tx.isCoinBase = false) ∧ (∀ tx ∈ rest.drop 1, tx.isCoinStake = false) := by
  unfold checkBlock at h
  obtain ⟨_, hlen, h⟩ := Fallible.except_bind_eq_ok h
  obtain ⟨_, hcb, h⟩ := Fallible.except_bind_eq_ok h
  obtain ⟨_, hmul, h⟩ := Fallible.except_bind_eq_ok h
  obtain ⟨_, hcs, -⟩ := Fallible.except_bind_eq_ok h
  rw [rejectIf_eq_ok] at hlen hcb hmul hcs
  cases hvtx : block.vtx with
  | nil => simp [hvtx] at hlen
  | cons cb rest =>
    refine ⟨cb, rest, rfl, ?_, ?_, ?_⟩
    · simpa [CBlock.txAt, hvtx] using hcb
    · simpa [hvtx] using hmul
    · simpa [hvtx, List.drop_drop] using hcs

section
variable (cenv : ConnectEnv)

theorem blockRewardCheck_fst {nBlockHeight : Int} {v r : CAmount} {why : String} :
    (blockRewardCheck nBlockHeight v r why).1 = true ↔ v ≤ r := by
  unfold blockRewardCheck
  split <;> simp_all

theorem getPaymentsLimit_eq_zero {nBlockHeight : Int}
    (h : isValidBlockHeight cenv nBlockHeight = false) : getPaymentsLimit cenv nBlockHeight = 0 := by
  simp [getPaymentsLimit, h]

/-- Every branch of `IsBlockValueValid` that accepts bounds the value it measures by the reward
and the payments limit. -/
theorem isBlockValueValid_bound {coinsTip : CoinsMap} {block : CBlock} {nBlockHeight : Int}
    {blockReward : CAmount}
    (h : (isBlockValueValid cenv coinsTip block nBlockHeight blockReward).1 = true) :
    blockValue coinsTip block ≤ blockReward + getPaymentsLimit cenv nBlockHeight := by
  unfold isBlockValueValid at h
  cases hvalid : isValidBlockHeight cenv nBlockHeight with
  | false =>
    -- no superblock here: the reward check, and the limit is 0
    simp only [hvalid, Bool.not_false, ↓reduceIte] at h
    rw [getPaymentsLimit_eq_zero cenv hvalid, add_zero]
    exact blockRewardCheck_fst.1 h
  | true =>
    -- a superblock height: every accepting branch has passed the superblock max value
    by_contra hgt
    simp [hvalid, hgt] at h

/-- What one transaction of the loop does to the UTXO set and to the sums. -/
theorem connectTx_eq_ok {nHeight : Int} {t t' : ConnectTally} {tx : CTransaction}
    (h : connectTx cenv nHeight t tx = .ok t') :
    t.view.updateCoins tx nHeight = some t'.view ∧
      (tx.isCoinBase = false → ∃ txfee, checkTxInputs t.view tx nHeight = .ok txfee) ∧
      t'.nValueIn = (if !tx.isCoinBase && tx.isCoinStake then t.nValueIn + t.view.getValueIn tx
        else t.nValueIn) ∧
      t'.nValueOut = (if tx.isCoinStake || tx.isCoinBase then t.nValueOut + tx.getValueOut
        else t.nValueOut) := by
  unfold connectTx at h
  obtain ⟨nFees, hfees, h⟩ := Fallible.except_bind_eq_ok h
  obtain ⟨_, -, h⟩ := Fallible.except_bind_eq_ok h
  obtain ⟨view, hview, h⟩ := Fallible.except_bind_eq_ok h
  cases h
  refine ⟨orAbort_eq_ok.1 hview, fun hcb => ?_, rfl, rfl⟩
  simp only [feesAfter, hcb, Bool.false_eq_true, ↓reduceIte] at hfees
  unfold connectFees at hfees
  obtain ⟨txfee, hfee, -⟩ := Fallible.except_bind_eq_ok hfees
  exact ⟨txfee, hfee⟩

/-- Transactions that are neither a coinbase nor a coinstake leave `nValueIn` and `nValueOut` as
they are. -/
theorem foldlM_connectTx_plain {nHeight : Int} {txs : List CTransaction} {t t' : ConnectTally}
    (hplain : ∀ tx ∈ txs, tx.isCoinBase = false ∧ tx.isCoinStake = false)
    (h : txs.foldlM (connectTx cenv nHeight) t = .ok t') :
    t'.nValueIn = t.nValueIn ∧ t'.nValueOut = t.nValueOut := by
  refine Fallible.foldlM_except_inv
    (P := fun s => s.nValueIn = t.nValueIn ∧ s.nValueOut = t.nValueOut) ?_ ⟨rfl, rfl⟩ h
  intro s tx s' hmem hs hstep
  obtain ⟨-, -, hin, hout⟩ := connectTx_eq_ok cenv hstep
  obtain ⟨hcb, hcs⟩ := hplain tx hmem
  simp only [hcb, hcs, Bool.not_false, Bool.and_false, Bool.or_false, Bool.false_eq_true,
    ↓reduceIte] at hin hout
  exact ⟨hin.trans hs.1, hout.trans hs.2⟩

end

/-- Every input a transaction may spend is in the UTXO set, and matured if a coinbase or a
coinstake made it. -/
theorem checkTxInputs_mature {view : CoinsMap} {tx : CTransaction} {nSpendHeight : Int}
    {txfee : CAmount} (h : checkTxInputs view tx nSpendHeight = .ok txfee) :
    ∀ txin ∈ tx.vin, ∃ coin, view txin.prevout = some coin ∧
      ((coin.fCoinBase || coin.fCoinStake) && nSpendHeight - coin.nHeight < COINBASE_MATURITY) =
        false := by
  intro txin hmem
  unfold checkTxInputs at h
  obtain ⟨_, -, h⟩ := Fallible.except_bind_eq_ok h
  obtain ⟨nValueIn, hfold, -⟩ := Fallible.except_bind_eq_ok h
  obtain ⟨s₁, s₂, hstep⟩ := Fallible.foldlM_except_mem_ok hfold txin hmem
  unfold inputValueStep at hstep
  obtain ⟨coin, hcoin, hstep⟩ := Fallible.except_bind_eq_ok hstep
  obtain ⟨_, hmature, -⟩ := Fallible.except_bind_eq_ok hstep
  exact ⟨coin, orAbort_eq_ok.1 hcoin, rejectIf_eq_ok.1 hmature⟩

/-- The coinstake reads its inputs as the UTXO set of the tip has them: the coinbase before it
adds only coins that are not matured at this height, which it may not spend. -/
theorem getValueIn_after_coinbase {coinsTip view : CoinsMap} {cb tx : CTransaction}
    {nHeight : Int} {txfee : CAmount} (hcb : cb.isCoinBase = true)
    (hview : coinsTip.updateCoins cb nHeight = some view)
    (hin : checkTxInputs view tx nHeight = .ok txfee) :
    view.getValueIn tx = coinsTip.getValueIn tx := by
  have hadd : CoinsMap.addCoinsFrom cb.hash nHeight cb.isCoinBase cb.isCoinStake 0 coinsTip cb.vout =
      some view := by
    simpa [CoinsMap.updateCoins, CoinsMap.addCoins, hcb] using hview
  unfold CoinsMap.getValueIn
  split
  · rfl
  · congr 1
    apply List.map_congr_left
    intro txin hmem
    obtain ⟨coin, hcoin, hmature⟩ := checkTxInputs_mature hin txin hmem
    rcases CoinsMap.addCoinsFrom_new_coin hadd hcoin with hold | ⟨hfcb, -, hh⟩
    · simp [CoinsMap.accessValue, hcoin, hold]
    · -- a coin of the coinbase, at the coinbase's own height: not matured
      simp [hfcb, hcb, hh, COINBASE_MATURITY] at hmature

section
variable (cenv : ConnectEnv)

/-- The sums of the loop over a block that passed `CheckBlock`: the outputs of the coinbase and,
for a proof-of-stake block, the outputs of the coinstake and its inputs in the UTXO set of the
tip. -/
theorem connectTx_loop_sums {coinsTip : CoinsMap} {block : CBlock} {nHeight : Int}
    {t : ConnectTally} (hcheck : checkBlock block = .ok ())
    (hfold : block.vtx.foldlM (connectTx cenv nHeight)
      { view := coinsTip, nFees := 0, nValueIn := 0, nValueOut := 0 } = .ok t) :
    t.nValueIn = (if block.isProofOfStake then coinsTip.getValueIn (block.txAt 1) else 0) ∧
      t.nValueOut = (block.txAt 0).getValueOut +
        (if block.isProofOfStake then (block.txAt 1).getValueOut else 0) := by
  obtain ⟨cb, rest, hvtx, hcb, hnocb, hnocs⟩ := checkBlock_shape hcheck
  rw [hvtx] at hfold
  obtain ⟨t₁, h₁, hrest⟩ := Fallible.foldlM_except_cons_eq_ok hfold
  obtain ⟨hview₁, -, hin₁, hout₁⟩ := connectTx_eq_ok cenv h₁
  have hcs := CTransaction.isCoinStake_eq_false_of_isCoinBase hcb
  simp only [hcb, hcs, Bool.not_true, Bool.false_and, Bool.or_true, Bool.false_eq_true,
    ↓reduceIte, zero_add] at hin₁ hout₁
  have htx₀ : block.txAt 0 = cb := by simp [CBlock.txAt, hvtx]
  cases rest with
  | nil =>
    -- the coinbase alone
    have hpos : block.isProofOfStake = false := by simp [CBlock.isProofOfStake, hvtx]
    cases hrest
    simp [hpos, htx₀, hin₁, hout₁]
  | cons tx₁ rest' =>
    have hpos : block.isProofOfStake = tx₁.isCoinStake := by simp [CBlock.isProofOfStake, hvtx]
    have htx₁ : block.txAt 1 = tx₁ := by simp [CBlock.txAt, hvtx]
    have hplain : ∀ tx ∈ rest', tx.isCoinBase = false ∧ tx.isCoinStake = false := fun tx hmem =>
      ⟨hnocb tx (List.mem_cons_of_mem _ hmem), hnocs tx (by simpa using hmem)⟩
    have hcb₁ : tx₁.isCoinBase = false := hnocb tx₁ List.mem_cons_self
    obtain ⟨t₂, h₂, hrest'⟩ := Fallible.foldlM_except_cons_eq_ok hrest
    obtain ⟨hin, hout⟩ := foldlM_connectTx_plain cenv hplain hrest'
    obtain ⟨-, hfee₁, hin₂, hout₂⟩ := connectTx_eq_ok cenv h₂
    rw [hin, hout, hin₂, hout₂, hpos, htx₀, htx₁, hin₁, hout₁]
    cases hstake : tx₁.isCoinStake with
    | false => simp [hcb₁]
    | true =>
      -- the coinstake's inputs, read after the coinbase, are those of the tip
      obtain ⟨txfee, hchk⟩ := hfee₁ hcb₁
      have hsame := getValueIn_after_coinbase hcb hview₁ hchk
      simp [hcb₁, hsame]

/-- The value a connected block creates beyond its fees, less the outputs of the coinbase when it
is a proof-of-stake block, is at most the subsidy and, at a superblock height, the superblock's
payments limit. -/
theorem connectBlock_mint_bound {coinsTip : CoinsMap} {block : CBlock} {nHeight : Int}
    {r : ConnectedValue} (h : connectBlock cenv coinsTip block nHeight = .ok r) :
    r.nMint - r.nFees - (if block.isProofOfStake then (block.txAt 0).getValueOut else 0) ≤
      cenv.getBlockSubsidy nHeight false +
        (if isValidBlockHeight cenv nHeight then getPaymentsLimit cenv nHeight else 0) := by
  unfold connectBlock at h
  obtain ⟨_, hcheck, h⟩ := Fallible.except_bind_eq_ok h
  obtain ⟨_, -, h⟩ := Fallible.except_bind_eq_ok h
  obtain ⟨_, -, h⟩ := Fallible.except_bind_eq_ok h
  obtain ⟨t, hfold, h⟩ := Fallible.except_bind_eq_ok h
  obtain ⟨_, -, h⟩ := Fallible.except_bind_eq_ok h
  obtain ⟨_, hvalue, h⟩ := Fallible.except_bind_eq_ok h
  obtain ⟨_, -, h⟩ := Fallible.except_bind_eq_ok h
  obtain ⟨_, -, h⟩ := Fallible.except_bind_eq_ok h
  cases h
  have hbound := isBlockValueValid_bound cenv (by simpa using rejectIf_eq_ok.1 hvalue)
  obtain ⟨hin, hout⟩ := connectTx_loop_sums cenv hcheck hfold
  have hlim : (if isValidBlockHeight cenv nHeight then getPaymentsLimit cenv nHeight else 0) =
      getPaymentsLimit cenv nHeight := by
    cases hv : isValidBlockHeight cenv nHeight
    · simp [getPaymentsLimit_eq_zero cenv hv]
    · rfl
  rw [hlim]
  simp only [blockValue] at hbound
  dsimp only
  cases hpos : block.isProofOfStake
  · -- proof of work: the measured value is the whole mint
    simp only [hpos, Bool.false_eq_true, ↓reduceIte] at hin hout hbound ⊢
    linarith
  · -- proof of stake: the measured value is the mint less the coinbase's outputs
    simp only [hpos, ↓reduceIte] at hin hout hbound ⊢
    linarith

end

/-! ## A proof-of-stake block whose coinbase pays -/

namespace BlockValueFixture

/-- The main network with a supply of ten million coins: synced, with superblocks enabled and
none triggered, and every check the model takes as a parameter passing. -/
def cenv : ConnectEnv where
  strNetworkID := .main
  nLastPoWBlock := 500000
  nLastBlockReward := 9999999
  nBudgetPaymentsStartBlock := 10000
  nSuperblockStartBlock := 12000
  nSuperblockCycle := 20571
  IsSynced := true
  fLiteMode := false
  superblocksEnabled := true
  IsSuperblockTriggered := fun _ => false
  IsValidSuperblock := fun _ _ _ => false
  SequenceLocks := fun _ => true
  CheckInputs := fun _ => none
  IsBlockPayeeValid := fun _ _ _ => true
  ProcessSpecialTxsInBlock := fun _ => none
  nMoneySupply := 10000000 * COIN

/-- The UTXO set of the tip: a matured output of 1000 coins at `(50, 0)`. -/
def coinsTip : CoinsMap := fun o =>
  if o = ⟨50, 0⟩ then some ⟨⟨1000 * COIN, [0x51]⟩, false, 1000, false⟩ else none

/-- A coinbase whose first output is empty and whose second pays a million coins. -/
def coinbase : CTransaction :=
  ⟨1, 1, TRANSACTION_COINBASE, [⟨⟨0, COutPoint.NULL_INDEX⟩⟩],
    [⟨0, []⟩, ⟨1000000 * COIN, [0x51]⟩], none⟩

/-- A coinstake that spends the 1000 coins and pays them back with the subsidy. -/
def coinstake : CTransaction :=
  ⟨2, 1, TRANSACTION_NORMAL, [⟨⟨50, 0⟩⟩], [⟨0, []⟩, ⟨1000 * COIN + 247950000, [0x51]⟩], none⟩

def block : CBlock := ⟨[coinbase, coinstake]⟩

/-- Failing input: the block connects at height 500001, minting a million coins more than the
subsidy, with no fees and no superblock at that height. -/
theorem pos_coinbase_outputs_unchecked :
    connectBlock cenv coinsTip block 500001 =
        .ok { nMint := 1000000 * COIN + 247950000, nFees := 0 } ∧
      cenv.getBlockSubsidy 500001 false +
          (if isValidBlockHeight cenv 500001 then getPaymentsLimit cenv 500001 else 0) <
        (1000000 * COIN + 247950000) - 0 :=
  ⟨by decide, by decide⟩

/-- The bound at the block: its mint, less the outputs of its proof-of-stake coinbase, is within
the subsidy. -/
theorem connectBlock_mint_bound_block :
    connectBlock cenv coinsTip block 500001 =
        .ok { nMint := 1000000 * COIN + 247950000, nFees := 0 } ∧
      (1000000 * COIN + 247950000) - 0 -
          (if block.isProofOfStake then (block.txAt 0).getValueOut else 0) ≤
        cenv.getBlockSubsidy 500001 false +
          (if isValidBlockHeight cenv 500001 then getPaymentsLimit cenv 500001 else 0) :=
  have h : connectBlock cenv coinsTip block 500001 =
      .ok { nMint := 1000000 * COIN + 247950000, nFees := 0 } := by decide
  ⟨h, connectBlock_mint_bound cenv h⟩

end BlockValueFixture

/-! ## A block that passes `CheckBlock` and aborts `BuildNewListFromBlock` -/

namespace ReceivableAbortFixture

open CDeterministicMNList CDeterministicMNManager BlockAbortsFixture

/-- A ProRegTx of `BlockAbortsFixture` with one output, as `CheckTransaction` asks of every
transaction but a quorum commitment. -/
def proRegTxOut (hash : uint256) (collateral : COutPoint) (host : Nat) (owner voting : CKeyID)
    (operator : BitVec 384) : CTransaction :=
  { proRegTx hash collateral host owner voting operator with vout := [⟨1, []⟩] }

/-- Block 1 registers the masternodes 1 and 2 on the external collaterals `(100, 0)` and
`(101, 0)`. -/
def blk₁ : List CTransaction :=
  [coinbase 10, proRegTxOut 1 ⟨100, 0⟩ 1 1 11 1, proRegTxOut 2 ⟨101, 0⟩ 2 2 12 2]

/-- The list of block 1: two masternodes. -/
def twoList : CDeterministicMNList :=
  (blockStep serializeHash cenv {} (env 0, blk₁)).getD {}

/-- Block 2 registers masternode 3 on the collateral of masternode 2, which replaces it, and then
spends that collateral in an ordinary transaction. -/
def blk₂ : List CTransaction :=
  [coinbase 20, proRegTxOut 3 ⟨101, 0⟩ 3 3 13 3, spendTx 4 ⟨101, 0⟩]

/-- Failing input: both blocks pass `CheckBlock`, with every transaction known to
`CheckTransaction`; the chain reaches the two-masternode list of block 1, every transaction of
block 2 passes `CheckSpecialTx` against it, and `BuildNewListFromBlock` aborts on block 2 when the
spend of the collateral removes masternode 2, already replaced by masternode 3. -/
theorem takeover_spend_two_masternodes_aborts :
    checkBlock ⟨blk₁⟩ = .ok () ∧ checkBlock ⟨blk₂⟩ = .ok () ∧
      ListReachable serializeHash cenv twoList ∧
      (∀ tx ∈ blk₂, checkSpecialTx (env 1) cenv twoList tx = .ok ()) ∧
      twoList.getAllMNsCount = 2 ∧
      buildNewListFromBlock (env 1) twoList blk₂ = .error .abort :=
  ⟨by decide, by decide, .step (env 0, blk₁) .init rfl, by decide, by decide, by decide⟩

end ReceivableAbortFixture

end Emrals
