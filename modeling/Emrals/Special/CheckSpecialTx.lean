import Emrals.Special.BuildSpec
import Emrals.Lib.Machine
import Emrals.Net.Address

/-!
# The validation of special transactions

`CheckSpecialTx` (`src/special/specialtx.cpp:23`) sends a special transaction to the validator of
its type: `CheckProRegTx`, `CheckProUpServTx`, `CheckProUpRegTx` and `CheckProUpRevTx`
(`src/special/providertx.cpp`) check the payload on its own and against the list of the previous
block. `ProcessSpecialTxsInBlock` runs it on every transaction of a block before
`BuildNewListFromBlock` sees the block.

The model embeds the checks of the payload's fields, of the address by the rules of the network
(`checkService`, on the chain parameters of `CheckEnv`), of the collateral and against the list.
The checks of scripts and their destinations, of the inputs hash and of the signatures are
parameters (`CheckEnv`), each saying whether the transaction passes it; the model runs them after
the others, which only changes the reason a rejected transaction reports. A block has a parent here, so `pindexPrev` is not null.

Over them, the chain as the masternode list sees it: a block passes the checks and gets its list
from `BuildNewListFromBlock` (`processSpecialTxsInBlock`), and the lists the chain can reach are
the reachable states of that step from the empty list (`ListReachable`). The quorum block
processor, which runs between the two, reads only commitment transactions and accepts every
block below `nLLMQActivationHeight` (50 on the main network); it is left out.
-/

namespace Emrals

/-- The chain parameters `CheckSpecialTx` reads, and the checks it makes that the model takes as
parameters: `none` when the transaction passes, else the reject reason. -/
structure CheckEnv where
  /-- `Params()`, for `CheckService`. -/
  params : CChainParams
  /-- The rest of `CheckProRegTx`: the payout script's type, destination and reuse, the
  collateral's destination, its wallet key and its reuse, `CheckInputsHash`, and the signature. -/
  proRegTxRest : CTransaction → CProRegTx → Option String
  /-- The rest of `CheckProUpServTx` for the masternode of the previous list: the operator payout,
  `CheckInputsHash` and the operator's signature. -/
  proUpServTxRest : CTransaction → CProUpServTx → CDeterministicMN → Option String
  /-- The rest of `CheckProUpRegTx`: the payout script and its reuse, the collateral's
  destination and its reuse, `CheckInputsHash` and the owner's signature. -/
  proUpRegTxRest : CTransaction → CProUpRegTx → CDeterministicMN → Option String
  /-- The rest of `CheckProUpRevTx`: `CheckInputsHash` and the operator's signature. -/
  proUpRevTxRest : CTransaction → CProUpRevTx → CDeterministicMN → Option String
  /-- `CheckCbTx`. -/
  CheckCbTx : CTransaction → Option String
  /-- `llmq::CheckLLMQCommitment`. -/
  CheckLLMQCommitment : CTransaction → Option String

/-- A check of the environment: its reason rejects the transaction. -/
def rejectWith : Option String → Except BuildError Unit
  | some reason => .error (.invalid reason)
  | none => .ok ()

@[simp] theorem rejectWith_eq_ok {r : Option String} {u : Unit} :
    rejectWith r = .ok u ↔ r = none := by
  cases r <;> simp [rejectWith]

/-- A payload or a masternode that must be there, else the transaction is rejected. -/
def orReject {α : Type} : Option α → String → Except BuildError α
  | some a, _ => .ok a
  | none, reason => .error (.invalid reason)

/-- `ptx.nVersion == 0 || ptx.nVersion > CProRegTx::CURRENT_VERSION`. -/
def badProTxVersion (nVersion : UInt16) : Bool :=
  nVersion == 0 || nVersion > CProRegTx.CURRENT_VERSION

section
variable (env : BuildEnv) (cenv : CheckEnv)

/-- The collateral check of `CheckProRegTx`: an external collateral must be an unspent output of
1337 coins, an internal one an output of the ProRegTx of that value. The collateral outpoint. -/
def checkProRegCollateral (tx : CTransaction) (ptx : CProRegTx) : Except BuildError COutPoint :=
  if !ptx.collateralOutpoint.hash.isNull then do
    rejectIf (env.getUTXOCoinValue ptx.collateralOutpoint != some (1337 * COIN))
      "bad-protx-collateral"
    pure ptx.collateralOutpoint
  else do
    let out ← orReject tx.vout[ptx.collateralOutpoint.n.toNat]? "bad-protx-collateral-index"
    rejectIf (out.nValue != 1337 * COIN) "bad-protx-collateral"
    pure ⟨tx.hash, ptx.collateralOutpoint.n⟩

/-- "Only allow reusing of addresses when it's for the same collateral (which replaces the old
MN)". The holder's pointer is dereferenced. -/
def checkProRegDupAddr (mnList : CDeterministicMNList) (ptx : CProRegTx)
    (collateralOutpoint : COutPoint) : Except BuildError Unit :=
  if mnList.hasUniqueProperty env.SerializeHash (.addr ptx.addr) then do
    let other ← orAbort (mnList.getUniquePropertyMN env.SerializeHash (.addr ptx.addr))
    rejectIf (other.collateralOutpoint != collateralOutpoint) "bad-protx-dup-addr"
  else .ok ()

/-- `CheckProRegTx` against the list `mnList` of the previous block. -/
def checkProRegTx (mnList : CDeterministicMNList) (tx : CTransaction) :
    Except BuildError Unit := do
  let ptx ← orReject tx.getProRegTx "bad-protx-payload"
  rejectIf (badProTxVersion ptx.nVersion) "bad-protx-version"
  rejectIf (ptx.nType != 0) "bad-protx-type"
  rejectIf (ptx.nMode != 0) "bad-protx-mode"
  rejectIf (ptx.keyIDOwner.isNull || !ptx.pubKeyOperator.isValid || ptx.keyIDVoting.isNull)
    "bad-protx-key-null"
  -- the address may be left unset, which bans the masternode until a ProUpServTx
  rejectWith (if ptx.addr != default then checkService cenv.params ptx.addr else none)
  rejectIf (ptx.nOperatorReward > 10000) "bad-protx-operator-reward"
  let collateralOutpoint ← checkProRegCollateral env tx ptx
  checkProRegDupAddr env mnList ptx collateralOutpoint
  -- never allow duplicate keys, even if this ProTx would replace an existing MN
  rejectIf (mnList.hasUniqueProperty env.SerializeHash (.keyIDOwner ptx.keyIDOwner) ||
    mnList.hasUniqueProperty env.SerializeHash (.pubKeyOperator ptx.pubKeyOperator))
    "bad-protx-dup-key"
  rejectWith (cenv.proRegTxRest tx ptx)

/-- `CheckProUpServTx` against the list `mnList` of the previous block. Its address check is the
one `BuildNewListFromBlock` repeats on the list being built. -/
def checkProUpServTx (mnList : CDeterministicMNList) (tx : CTransaction) :
    Except BuildError Unit := do
  let ptx ← orReject tx.getProUpServTx "bad-protx-payload"
  rejectIf (badProTxVersion ptx.nVersion) "bad-protx-version"
  rejectWith (checkService cenv.params ptx.addr)
  let mn ← orReject (mnList.getMN ptx.proTxHash) "bad-protx-hash"
  CDeterministicMNManager.checkProUpServAddr env mnList ptx
  rejectWith (cenv.proUpServTxRest tx ptx mn)

/-- The operator-key check of `CheckProUpRegTx`: a key already in the list must be the
masternode's own. The holder's pointer is dereferenced. -/
def checkProUpRegDupKey (mnList : CDeterministicMNList) (ptx : CProUpRegTx) :
    Except BuildError Unit :=
  if mnList.hasUniqueProperty env.SerializeHash (.pubKeyOperator ptx.pubKeyOperator) then do
    let otherDmn ← orAbort
      (mnList.getUniquePropertyMN env.SerializeHash (.pubKeyOperator ptx.pubKeyOperator))
    rejectIf (ptx.proTxHash != otherDmn.proTxHash) "bad-protx-dup-key"
  else .ok ()

/-- `CheckProUpRegTx` against the list `mnList` of the previous block. -/
def checkProUpRegTx (mnList : CDeterministicMNList) (tx : CTransaction) :
    Except BuildError Unit := do
  let ptx ← orReject tx.getProUpRegTx "bad-protx-payload"
  rejectIf (badProTxVersion ptx.nVersion) "bad-protx-version"
  rejectIf (ptx.nMode != 0) "bad-protx-mode"
  rejectIf (!ptx.pubKeyOperator.isValid || ptx.keyIDVoting.isNull) "bad-protx-key-null"
  let dmn ← orReject (mnList.getMN ptx.proTxHash) "bad-protx-hash"
  rejectIf (env.getUTXOCoinValue dmn.collateralOutpoint).isNone "bad-protx-collateral"
  checkProUpRegDupKey env mnList ptx
  rejectWith (cenv.proUpRegTxRest tx ptx dmn)

/-- `CheckProUpRevTx` against the list `mnList` of the previous block. -/
def checkProUpRevTx (mnList : CDeterministicMNList) (tx : CTransaction) :
    Except BuildError Unit := do
  let ptx ← orReject tx.getProUpRevTx "bad-protx-payload"
  rejectIf (badProTxVersion ptx.nVersion) "bad-protx-version"
  rejectIf (ptx.nReason > CProUpRevTx.REASON_LAST) "bad-protx-reason"
  let dmn ← orReject (mnList.getMN ptx.proTxHash) "bad-protx-hash"
  rejectWith (cenv.proUpRevTxRest tx ptx dmn)

/-- `CheckSpecialTx` against the list `mnList` of the previous block. -/
def checkSpecialTx (mnList : CDeterministicMNList) (tx : CTransaction) :
    Except BuildError Unit :=
  if tx.nVersion < 2 || tx.nType == TRANSACTION_NORMAL || tx.nType == TRANSACTION_STAKE then .ok ()
  else if tx.nType = TRANSACTION_COINBASE then rejectWith (cenv.CheckCbTx tx)
  else if tx.nType = TRANSACTION_PROVIDER_REGISTER then checkProRegTx env cenv mnList tx
  else if tx.nType = TRANSACTION_PROVIDER_UPDATE_SERVICE then checkProUpServTx env cenv mnList tx
  else if tx.nType = TRANSACTION_PROVIDER_UPDATE_REGISTRAR then checkProUpRegTx env cenv mnList tx
  else if tx.nType = TRANSACTION_PROVIDER_UPDATE_REVOKE then checkProUpRevTx cenv mnList tx
  else if tx.nType = TRANSACTION_QUORUM_COMMITMENT then rejectWith (cenv.CheckLLMQCommitment tx)
  else .error (.invalid "bad-tx-type-check")

end

/-! ## What a transaction that passes the checks satisfies -/

@[simp] theorem orReject_eq_ok {α : Type} {o : Option α} {reason : String} {a : α} :
    orReject o reason = .ok a ↔ o = some a := by
  cases o <;> simp [orReject]

section
variable {env : BuildEnv} {cenv : CheckEnv} {mnList : CDeterministicMNList} {tx : CTransaction}

/-- A ProRegTx that passes `CheckProRegTx` has its three keys set, and an address, if it has
one, that passes `CheckService`. -/
theorem checkProRegTx_payload (h : checkProRegTx env cenv mnList tx = .ok ()) :
    ∃ ptx, tx.getProRegTx = some ptx ∧ ptx.keyIDOwner.isNull = false ∧
      ptx.pubKeyOperator.isValid = true ∧ ptx.keyIDVoting.isNull = false ∧
      (ptx.addr ≠ default → checkService cenv.params ptx.addr = none) := by
  obtain ⟨ptx, hp, h⟩ := Fallible.except_bind_eq_ok h
  -- the version, type and mode guards come first
  obtain ⟨_, -, h⟩ := Fallible.except_bind_eq_ok h
  obtain ⟨_, -, h⟩ := Fallible.except_bind_eq_ok h
  obtain ⟨_, -, h⟩ := Fallible.except_bind_eq_ok h
  obtain ⟨_, hkeys, h⟩ := Fallible.except_bind_eq_ok h
  obtain ⟨_, hsvc, -⟩ := Fallible.except_bind_eq_ok h
  simp only [rejectIf_eq_ok, Bool.or_eq_false_iff, Bool.not_eq_false'] at hkeys
  refine ⟨ptx, orReject_eq_ok.1 hp, hkeys.1.1, hkeys.1.2, hkeys.2, fun haddr => ?_⟩
  simpa [haddr] using rejectWith_eq_ok.1 hsvc

/-- A ProUpServTx that passes `CheckProUpServTx` has an address that passes `CheckService`. -/
theorem checkProUpServTx_payload (h : checkProUpServTx env cenv mnList tx = .ok ()) :
    ∃ ptx, tx.getProUpServTx = some ptx ∧ checkService cenv.params ptx.addr = none := by
  obtain ⟨ptx, hp, h⟩ := Fallible.except_bind_eq_ok h
  obtain ⟨_, -, h⟩ := Fallible.except_bind_eq_ok h
  obtain ⟨_, hsvc, -⟩ := Fallible.except_bind_eq_ok h
  exact ⟨ptx, orReject_eq_ok.1 hp, rejectWith_eq_ok.1 hsvc⟩

/-- A ProUpRegTx that passes `CheckProUpRegTx` has a valid operator key and a voting key. -/
theorem checkProUpRegTx_payload (h : checkProUpRegTx env cenv mnList tx = .ok ()) :
    ∃ ptx, tx.getProUpRegTx = some ptx ∧ ptx.pubKeyOperator.isValid = true ∧
      ptx.keyIDVoting.isNull = false := by
  obtain ⟨ptx, hp, h⟩ := Fallible.except_bind_eq_ok h
  obtain ⟨_, -, h⟩ := Fallible.except_bind_eq_ok h
  obtain ⟨_, -, h⟩ := Fallible.except_bind_eq_ok h
  obtain ⟨_, hkeys, -⟩ := Fallible.except_bind_eq_ok h
  simp only [rejectIf_eq_ok, Bool.or_eq_false_iff, Bool.not_eq_false'] at hkeys
  exact ⟨ptx, orReject_eq_ok.1 hp, hkeys.1, hkeys.2⟩

/-! `CheckSpecialTx` sends a version-2 transaction of each provider type to its validator. -/

theorem checkSpecialTx_proRegTx (hv : tx.nVersion = 2)
    (ht : tx.nType = TRANSACTION_PROVIDER_REGISTER) :
    checkSpecialTx env cenv mnList tx = checkProRegTx env cenv mnList tx := by
  simp only [checkSpecialTx, hv, ht]
  rfl

theorem checkSpecialTx_proUpServTx (hv : tx.nVersion = 2)
    (ht : tx.nType = TRANSACTION_PROVIDER_UPDATE_SERVICE) :
    checkSpecialTx env cenv mnList tx = checkProUpServTx env cenv mnList tx := by
  simp only [checkSpecialTx, hv, ht]
  rfl

theorem checkSpecialTx_proUpRegTx (hv : tx.nVersion = 2)
    (ht : tx.nType = TRANSACTION_PROVIDER_UPDATE_REGISTRAR) :
    checkSpecialTx env cenv mnList tx = checkProUpRegTx env cenv mnList tx := by
  simp only [checkSpecialTx, hv, ht]
  rfl

end

/-! ## Blocks and the chain of lists -/

/-- `ProcessSpecialTxsInBlock` as far as the masternode list goes: every transaction of the block
passes `CheckSpecialTx` against the parent's list, then `BuildNewListFromBlock` builds the list
of the block. -/
def processSpecialTxsInBlock (env : BuildEnv) (cenv : CheckEnv) (mnList : CDeterministicMNList)
    (vtx : List CTransaction) : Except BuildError CDeterministicMNList := do
  vtx.forM (checkSpecialTx env cenv mnList)
  CDeterministicMNManager.buildNewListFromBlock env mnList vtx

/-- One block of the chain, given with the environment of its parent: the list of the block, or
`none` when the block is rejected or the node aborts. `SerializeHash` is the same for every
block. -/
def blockStep (SerializeHash : UniqueProperty → uint256) (cenv : CheckEnv)
    (mnList : CDeterministicMNList) (blk : BuildEnv × List CTransaction) :
    Option CDeterministicMNList :=
  (processSpecialTxsInBlock { blk.1 with SerializeHash := SerializeHash } cenv mnList blk.2).toOption

/-- The lists a chain of blocks reaches from the empty list, which `GetListForBlock` gives the
parent of the first block the manager processes. -/
def ListReachable (SerializeHash : UniqueProperty → uint256) (cenv : CheckEnv) :
    CDeterministicMNList → Prop :=
  Machine.Reachable (blockStep SerializeHash cenv) {}

/-- One block of a chain: its parent `pindexPrev` is a block of the chain, whose height is not
negative. -/
def chainStep (SerializeHash : UniqueProperty → uint256) (cenv : CheckEnv)
    (mnList : CDeterministicMNList) (blk : BuildEnv × List CTransaction) :
    Option CDeterministicMNList :=
  if 0 ≤ blk.1.prevHeight then blockStep SerializeHash cenv mnList blk else none

/-- The lists a chain of blocks reaches from the empty list. -/
def ChainReachable (SerializeHash : UniqueProperty → uint256) (cenv : CheckEnv) :
    CDeterministicMNList → Prop :=
  Machine.Reachable (chainStep SerializeHash cenv) {}

theorem except_toOption_eq_some {ε α : Type} {e : Except ε α} {a : α} :
    e.toOption = some a ↔ e = .ok a := by
  cases e <;> simp [Except.toOption]

/-- A block the chain accepts: its parent has a height, every transaction passes
`CheckSpecialTx` against the parent's list, and `BuildNewListFromBlock` gives the block's list. -/
theorem chainStep_eq_some {SerializeHash : UniqueProperty → uint256} {cenv : CheckEnv}
    {mnList l' : CDeterministicMNList} {blk : BuildEnv × List CTransaction}
    (h : chainStep SerializeHash cenv mnList blk = some l') :
    0 ≤ blk.1.prevHeight ∧
      (∀ tx ∈ blk.2, checkSpecialTx { blk.1 with SerializeHash := SerializeHash } cenv mnList tx
        = .ok ()) ∧
      CDeterministicMNManager.buildNewListFromBlock { blk.1 with SerializeHash := SerializeHash }
        mnList blk.2 = .ok l' := by
  unfold chainStep at h
  split at h
  · next hh =>
    obtain ⟨_, hchk, hbuild⟩ := Fallible.except_bind_eq_ok (except_toOption_eq_some.1 h)
    exact ⟨hh, Fallible.forM_except_eq_ok hchk, hbuild⟩
  · cases h

end Emrals
