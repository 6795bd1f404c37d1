import Emrals.Special.ListDiff

/-!
# Building the masternode list of a block

`CDeterministicMNManager::BuildNewListFromBlock` (`src/special/deterministicmns.cpp:595`) computes
the list of a block from the list of its parent in five passes: confirmations, the per-block
penalty decrease, the special transactions in block order, the spent collaterals, and the payee
of the block. Each pass is a fold whose step is a definition of its own, so that later proofs
reason about one step at a time.

A pass either returns the list, rejects the block through `CValidationState::Invalid` with a
reject reason, or aborts the node (`BuildError.abort`): a failed `assert`, a `std::out_of_range`
that nothing catches, or the dereference of a null pointer.
-/

namespace Emrals

/-- How a computation on a block stops early. -/
inductive BuildError
  /-- `state.Invalid(..., reason)`: the block is rejected. -/
  | invalid (reason : String)
  /-- The node aborts. -/
  | abort
  deriving DecidableEq, Repr

/-- An assertion of the source, lifted to the block computation. -/
def orAbort {α : Type} : Option α → Except BuildError α
  | some a => .ok a
  | none => .error .abort

/-- What `BuildNewListFromBlock` reads besides the parent's list and the block. -/
structure BuildEnv where
  /-- `::SerializeHash` of a unique property. -/
  SerializeHash : UniqueProperty → uint256
  /-- The single SHA-256 of two hashes, as `UpdateConfirmedHash` computes it. -/
  sha256 : uint256 → uint256 → uint256
  /-- `Params().GetConsensus().nMasternodeMinimumConfirmations`. -/
  nMasternodeMinimumConfirmations : Int
  /-- `pindexPrev->nHeight`. -/
  prevHeight : Int
  /-- `pindexPrev->GetBlockHash()`. -/
  prevBlockHash : uint256
  /-- The hash of `pindexPrev->GetAncestor(h)`, `none` for a null ancestor. -/
  ancestorHash : Int → Option uint256
  /-- The value of the coin `GetUTXOCoin` finds in the UTXO set of the chain tip. -/
  getUTXOCoinValue : COutPoint → Option CAmount
  /-- `llmqs.at(llmqType).dkgInterval`; `none` where `at` throws. -/
  dkgInterval : UInt8 → Option Nat
  /-- The ProTx hashes of `CLLMQUtils::GetAllQuorumMembers(llmqType, pindexQuorum)`, for the
  quorum block of the given hash. -/
  allQuorumMembers : UInt8 → uint256 → List uint256

/-- The height of the block being built, `pindexPrev->nHeight + 1`. -/
def BuildEnv.nHeight (env : BuildEnv) : Int := env.prevHeight + 1

namespace CDeterministicMNManager

variable (env : BuildEnv)

/-- One step of the confirmation loop over the parent's list: a masternode not yet confirmed
whose registration is `nMasternodeMinimumConfirmations` blocks deep gets the parent's hash as its
confirmed hash. -/
def confirmStep (newList : CDeterministicMNList) (dmn : CDeterministicMN) :
    Option CDeterministicMNList :=
  if !dmn.pdmnState.confirmedHash.isNull then some newList
  else if env.nMasternodeMinimumConfirmations ≤
      env.prevHeight - dmn.pdmnState.nRegisteredHeight then
    newList.updateMNByProTxHash env.SerializeHash dmn.proTxHash
      (dmn.pdmnState.updateConfirmedHash env.sha256 dmn.proTxHash env.prevBlockHash)
  else some newList

/-- `DecreasePoSePenalties`: collect the valid masternodes with a positive penalty, then lower
each penalty by one. -/
def decreasePoSePenalties (mnList : CDeterministicMNList) : Option CDeterministicMNList :=
  let toDecrease := ((mnList.allMNs.filter CDeterministicMNList.isMNValid).filter fun dmn =>
    0 < dmn.pdmnState.nPoSePenalty ∧ dmn.pdmnState.nPoSeBanHeight = -1).map (·.proTxHash)
  toDecrease.foldlM (fun l h => l.poSeDecrease env.SerializeHash h) mnList

/-- One member of the loop of `HandleQuorumCommitment`: a listed member the commitment does not
count as valid is punished with 66% of the maximum penalty. -/
def punishMember (qc : CFinalCommitment) (mnList : CDeterministicMNList)
    (member : uint256 × Nat) : Option CDeterministicMNList :=
  if !mnList.hasMN member.1 then some mnList else do
  let valid ← qc.validMembers[member.2]?
  if valid then some mnList else do
  let penalty ← mnList.calcPenalty 66
  mnList.poSePunish env.SerializeHash member.1 penalty

/-- `HandleQuorumCommitment`. -/
def handleQuorumCommitment (qc : CFinalCommitment) (mnList : CDeterministicMNList) :
    Option CDeterministicMNList :=
  (env.allQuorumMembers qc.llmqType qc.quorumHash).zipIdx.foldlM (punishMember env qc) mnList

end CDeterministicMNManager

/-! ## The special transactions -/

/-- `return _state.Invalid(..., reason)` when `c` holds: a guard of the transaction loop. -/
def rejectIf (c : Bool) (reason : String) : Except BuildError Unit :=
  if c then .error (.invalid reason) else .ok ()

/-- `GetMN`, rejecting the block with `bad-protx-hash` when there is no such masternode. -/
def getMNOrReject (newList : CDeterministicMNList) (proTxHash : uint256) :
    Except BuildError CDeterministicMN :=
  match newList.getMN proTxHash with
  | some dmn => .ok dmn
  | none => .error (.invalid "bad-protx-hash")

/-- The collateral of a ProRegTx: "either pointing to an external collateral or to the ProRegTx
itself", the latter when the payload's collateral hash is null. -/
def proRegCollateral (tx : CTransaction) (proTx : CProRegTx) : COutPoint :=
  if proTx.collateralOutpoint.hash.isNull then ⟨tx.hash, proTx.collateralOutpoint.n⟩
  else proTx.collateralOutpoint

/-- The state a ProRegTx registers at `nHeight`: the payload's keys, address and payout, banned
from the start when there is no address "as we need to wait for a ProUpServTx". -/
def proRegState (nHeight : Int) (proTx : CProRegTx) : CDeterministicMNState :=
  let dmnState := { CDeterministicMNState.ofProRegTx proTx with nRegisteredHeight := nHeight }
  if proTx.addr = default then { dmnState with nPoSeBanHeight := nHeight } else dmnState

/-- The state after a ProUpServTx at `nHeight`: the new address and operator payout, and a
banned masternode whose keys are all set is revived. -/
def proUpServState (nHeight : Int) (s : CDeterministicMNState) (proTx : CProUpServTx) :
    CDeterministicMNState :=
  let newState := { s with addr := proTx.addr, scriptOperatorPayout := proTx.scriptOperatorPayout }
  if newState.nPoSeBanHeight ≠ -1 ∧ newState.pubKeyOperator.isValid ∧
      !newState.keyIDVoting.isNull ∧ !newState.keyIDOwner.isNull then
    { newState with nPoSePenalty := 0, nPoSeBanHeight := -1, nPoSeRevivedHeight := nHeight }
  else newState

/-- The state after a ProUpRegTx at `nHeight`: a changed operator key resets the operator fields
and bans the masternode; the new operator key, voting key and payout are installed. -/
def proUpRegState (nHeight : Int) (s : CDeterministicMNState) (proTx : CProUpRegTx) :
    CDeterministicMNState :=
  let newState := if s.pubKeyOperator ≠ proTx.pubKeyOperator then
      s.resetOperatorFields.banIfNotBanned nHeight else s
  { newState with pubKeyOperator := proTx.pubKeyOperator, keyIDVoting := proTx.keyIDVoting,
                  scriptPayout := proTx.scriptPayout }

/-- The state after a ProUpRevTx at `nHeight`: operator fields reset, banned, and the reason
recorded. -/
def proUpRevState (nHeight : Int) (s : CDeterministicMNState) (proTx : CProUpRevTx) :
    CDeterministicMNState :=
  { s.resetOperatorFields.banIfNotBanned nHeight with nRevocationReason := proTx.nReason }

namespace CDeterministicMNManager

variable (env : BuildEnv)

/-- A ProRegTx whose collateral a masternode of the list already holds replaces it: "the old
one is removed and the new one is added like a completely fresh one". -/
def removeReplacedMN (newList : CDeterministicMNList) (collateralOutpoint : COutPoint) :
    Except BuildError CDeterministicMNList :=
  match newList.getMNByCollateral env.SerializeHash collateralOutpoint with
  | some replacedDmn => orAbort (newList.removeMN env.SerializeHash replacedDmn.proTxHash)
  | none => .ok newList

/-- The `TRANSACTION_PROVIDER_REGISTER` branch: the new masternode takes the next internal id,
replaces the masternode registered with the same collateral, and must not reuse an address or a
key of the list. -/
def processProRegTx (newList : CDeterministicMNList) (tx : CTransaction) :
    Except BuildError CDeterministicMNList := do
  let proTx ← orAbort tx.getProRegTx
  let internalId := newList.nTotalRegisteredCount.toUInt64
  let newList := { newList with nTotalRegisteredCount := newList.nTotalRegisteredCount + 1 }
  let collateralOutpoint := proRegCollateral tx proTx
  rejectIf (!proTx.collateralOutpoint.hash.isNull &&
    env.getUTXOCoinValue collateralOutpoint != some (1337 * COIN)) "bad-protx-collateral"
  let newList ← removeReplacedMN env newList collateralOutpoint
  rejectIf (newList.hasUniqueProperty env.SerializeHash (.addr proTx.addr)) "bad-protx-dup-addr"
  rejectIf (newList.hasUniqueProperty env.SerializeHash (.keyIDOwner proTx.keyIDOwner) ||
    newList.hasUniqueProperty env.SerializeHash (.pubKeyOperator proTx.pubKeyOperator))
    "bad-protx-dup-key"
  orAbort (newList.addMN env.SerializeHash
    { proTxHash := tx.hash, internalId := internalId, collateralOutpoint := collateralOutpoint,
      nOperatorReward := proTx.nOperatorReward, pdmnState := proRegState env.nHeight proTx })

/-- The address guard of a ProUpServTx: an address already in the list may only be held by the
masternode itself. The holder's pointer is dereferenced. -/
def checkProUpServAddr (newList : CDeterministicMNList) (proTx : CProUpServTx) :
    Except BuildError Unit :=
  if newList.hasUniqueProperty env.SerializeHash (.addr proTx.addr) then do
    let holder ← orAbort (newList.getUniquePropertyMN env.SerializeHash (.addr proTx.addr))
    rejectIf (holder.proTxHash ≠ proTx.proTxHash) "bad-protx-dup-addr"
  else .ok ()

/-- The `TRANSACTION_PROVIDER_UPDATE_SERVICE` branch. -/
def processProUpServTx (newList : CDeterministicMNList) (tx : CTransaction) :
    Except BuildError CDeterministicMNList := do
  let proTx ← orAbort tx.getProUpServTx
  checkProUpServAddr env newList proTx
  let dmn ← getMNOrReject newList proTx.proTxHash
  orAbort (newList.updateMNByProTxHash env.SerializeHash proTx.proTxHash
    (proUpServState env.nHeight dmn.pdmnState proTx))

/-- The `TRANSACTION_PROVIDER_UPDATE_REGISTRAR` branch. Unlike the two branches above, it checks
the new operator key against nothing. -/
def processProUpRegTx (newList : CDeterministicMNList) (tx : CTransaction) :
    Except BuildError CDeterministicMNList := do
  let proTx ← orAbort tx.getProUpRegTx
  let dmn ← getMNOrReject newList proTx.proTxHash
  orAbort (newList.updateMNByProTxHash env.SerializeHash proTx.proTxHash
    (proUpRegState env.nHeight dmn.pdmnState proTx))

/-- The `TRANSACTION_PROVIDER_UPDATE_REVOKE` branch. -/
def processProUpRevTx (newList : CDeterministicMNList) (tx : CTransaction) :
    Except BuildError CDeterministicMNList := do
  let proTx ← orAbort tx.getProUpRevTx
  let dmn ← getMNOrReject newList proTx.proTxHash
  orAbort (newList.updateMNByProTxHash env.SerializeHash proTx.proTxHash
    (proUpRevState env.nHeight dmn.pdmnState proTx))

/-- A non-null quorum commitment: its quorum hash must be the block at the start of its DKG
interval (`llmqs.at` throws for an unknown type), and the members it does not count as valid are
punished. -/
def processQcCommitment (newList : CDeterministicMNList) (qc : CFinalCommitmentTxPayload) :
    Except BuildError CDeterministicMNList := do
  let dkgInterval ← orAbort (env.dkgInterval qc.commitment.llmqType)
  let quorumHeight : Int := qc.nHeight.toNat - qc.nHeight.toNat % dkgInterval
  rejectIf (env.ancestorHash quorumHeight ≠ some qc.commitment.quorumHash) "bad-qc-quorum-hash"
  orAbort (handleQuorumCommitment env qc.commitment newList)

/-- The `TRANSACTION_QUORUM_COMMITMENT` branch: a null commitment changes nothing. -/
def processQcTx (newList : CDeterministicMNList) (tx : CTransaction) :
    Except BuildError CDeterministicMNList := do
  let qc ← orAbort tx.getQcTx
  if qc.commitment.isNull then .ok newList else processQcCommitment env newList qc

/-- One iteration of the special-transaction loop: only version-2 transactions are looked at. -/
def processSpecialTx (newList : CDeterministicMNList) (tx : CTransaction) :
    Except BuildError CDeterministicMNList :=
  if tx.nVersion ≠ 2 then .ok newList
  else if tx.nType = TRANSACTION_PROVIDER_REGISTER then processProRegTx env newList tx
  else if tx.nType = TRANSACTION_PROVIDER_UPDATE_SERVICE then processProUpServTx env newList tx
  else if tx.nType = TRANSACTION_PROVIDER_UPDATE_REGISTRAR then processProUpRegTx env newList tx
  else if tx.nType = TRANSACTION_PROVIDER_UPDATE_REVOKE then processProUpRevTx env newList tx
  else if tx.nType = TRANSACTION_QUORUM_COMMITMENT then processQcTx env newList tx
  else .ok newList

/-! ## Spent collaterals and the payee -/

/-- One input of the collateral-spend loop: the masternode of the new list whose collateral the
input spends is removed, by the ProTx hash of the masternode the *parent's* list has for that
collateral, or, when the parent has none, has its operator fields reset and is banned. -/
def spendCollateralStep (oldList newList : CDeterministicMNList) (txin : CTxIn) :
    Option CDeterministicMNList :=
  match newList.getMNByCollateral env.SerializeHash txin.prevout with
  | some dmn =>
    if dmn.collateralOutpoint = txin.prevout then
      match oldList.getMNByCollateral env.SerializeHash txin.prevout with
      | some oldDmn => newList.removeMN env.SerializeHash oldDmn.proTxHash
      | none =>
        newList.updateMNByProTxHash env.SerializeHash dmn.proTxHash
          { dmn.pdmnState.resetOperatorFields.banIfNotBanned env.nHeight with
            nRevocationReason := CProUpRevTx.REASON_NOT_SPECIFIED }
    else some newList
  | none => some newList

/-- The payee of the block, chosen from the parent's list, is paid one last time if it is still
in the list. -/
def payeeStep (payee : Option CDeterministicMN) (newList : CDeterministicMNList) :
    Option CDeterministicMNList :=
  match payee with
  | some p =>
    match newList.getMN p.proTxHash with
    | some dmn => newList.updateMNByProTxHash env.SerializeHash p.proTxHash
        { dmn.pdmnState with nLastPaidHeight := env.nHeight }
    | none => some newList
  | none => some newList

/-- `BuildNewListFromBlock`, from the parent's list `oldList` and the block's transactions. The
returned list has a null block hash: `ProcessBlock` sets it. -/
def buildNewListFromBlock (oldList : CDeterministicMNList) (vtx : List CTransaction) :
    Except BuildError CDeterministicMNList := do
  let newList := { oldList with blockHash := 0, nHeight := env.nHeight }
  let payee := oldList.getMNPayee
  let newList ← orAbort (oldList.allMNs.foldlM (confirmStep env) newList)
  let newList ← orAbort (decreasePoSePenalties env newList)
  -- both transaction loops skip the coinbase
  let newList ← (vtx.drop 1).foldlM (processSpecialTx env) newList
  let newList ← orAbort (((vtx.drop 1).flatMap (·.vin)).foldlM
    (spendCollateralStep env oldList) newList)
  orAbort (payeeStep env payee newList)

end CDeterministicMNManager

end Emrals
