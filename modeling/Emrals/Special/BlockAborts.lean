import Emrals.Special.BuildSpec
import Emrals.Special.CheckSpecialTx

/-!
# Valid blocks on which `BuildNewListFromBlock` aborts

Every transaction of a block is checked against the list of the *parent* block, while
`BuildNewListFromBlock` applies the transactions one after the other to the list being built.
The collateral-spend loop relies on a check against the parent's list that an earlier
transaction of the same block can invalidate: it finds the masternode of the spent collateral in
the list being built, but removes the masternode the parent's list has for it. When a ProRegTx of
the same block took the collateral over, that masternode is already gone, and `RemoveMN`
asserts.

The ProUpRegTx branch checks the new operator key against the parent's list only, but it never
runs on a valid chain: `CheckTransaction` does not know the ProUpRegTx type and rejects the block
first (`checkTransaction_proUpRegTx_ne_ok`).

The fixture is a chain from the empty list whose every block passes `CheckSpecialTx`, with every
check the model takes as a parameter passing.
-/

namespace Emrals

open CDeterministicMNList CDeterministicMNManager

/-! ## The fixtures -/

namespace BlockAbortsFixture

/-- A `SerializeHash` that is injective on the properties of the fixtures: each kind of property
is moved to its own range. -/
def serializeHash : UniqueProperty → uint256
  | .collateralOutpoint o => o.hash
  | .addr a => BitVec.ofNat 256 (a.ip.toNat + 1000)
  | .keyIDOwner k => BitVec.ofNat 256 (k.toNat + 2000)
  | .pubKeyOperator k => BitVec.ofNat 256 ((k.getD 0).toNat + 3000)

/-- The main network, on which every check the model takes as a parameter passes. -/
def cenv : CheckEnv where
  params := CChainParams.main
  proRegTxRest := fun _ _ => none
  proUpServTxRest := fun _ _ _ => none
  proUpRegTxRest := fun _ _ _ => none
  proUpRevTxRest := fun _ _ _ => none
  CheckCbTx := fun _ => none
  CheckLLMQCommitment := fun _ => none

/-- The UTXO set: unspent 1337-coin outputs at `(100, 0)` and `(101, 0)`. -/
def coins (o : COutPoint) : Option CAmount :=
  if o = ⟨100, 0⟩ ∨ o = ⟨101, 0⟩ then some (1337 * COIN) else none

/-- The environment of a block on a parent of height `prevHeight`. No masternode gets old
enough to be confirmed, and no block has a commitment. -/
def env (prevHeight : Int) : BuildEnv where
  SerializeHash := serializeHash
  sha256 := fun a _ => a
  nMasternodeMinimumConfirmations := 16
  prevHeight := prevHeight
  prevBlockHash := 0
  ancestorHash := fun _ => none
  getUTXOCoinValue := coins
  dkgInterval := fun _ => none
  allQuorumMembers := fun _ _ => []

/-- The coinbase of a block, which both transaction loops skip. -/
def coinbase (hash : uint256) : CTransaction :=
  ⟨hash, 1, TRANSACTION_COINBASE, [⟨⟨0, COutPoint.NULL_INDEX⟩⟩], [⟨0, []⟩], none⟩

/-- The IPv4 address `1.2.3.host`, mapped into IPv6: valid and routable. -/
def hostAddr (host : Nat) : BitVec 128 := BitVec.ofNat 128 (0xffff01020300 + host)

/-- A ProRegTx `hash` of the external collateral `collateral`, with the address `1.2.3.host` on
port 9999, the owner and voting keys `owner` and `voting` and the operator key `operator`. -/
def proRegTx (hash : uint256) (collateral : COutPoint) (host : Nat) (owner voting : CKeyID)
    (operator : BitVec 384) : CTransaction :=
  ⟨hash, 2, TRANSACTION_PROVIDER_REGISTER, [⟨⟨hash, 7⟩⟩], [], some (.proReg
    { collateralOutpoint := collateral, addr := ⟨hostAddr host, 9999⟩, keyIDOwner := owner,
      pubKeyOperator := some operator, keyIDVoting := voting, nOperatorReward := 0,
      scriptPayout := [] })⟩

/-- Block 1 registers the masternodes 1 and 2 on the collaterals `(100, 0)` and `(101, 0)`. -/
def vtx₁ : List CTransaction :=
  [coinbase 10, proRegTx 1 ⟨100, 0⟩ 1 1 11 1, proRegTx 2 ⟨101, 0⟩ 2 2 12 2]

/-- The list of block 1. -/
def list₁ : CDeterministicMNList :=
  ((blockStep serializeHash cenv {} (env 0, vtx₁)).getD {})

/-- A transaction spending the output `prevout`. -/
def spendTx (hash : uint256) (prevout : COutPoint) : CTransaction :=
  ⟨hash, 1, TRANSACTION_NORMAL, [⟨prevout⟩], [⟨1337 * COIN - 1, []⟩], none⟩

/-- Block 1' registers masternode 1 on the collateral `(100, 0)`. -/
def vtx₁' : List CTransaction :=
  [coinbase 10, proRegTx 1 ⟨100, 0⟩ 1 1 11 1]

/-- The list of block 1'. -/
def list₁' : CDeterministicMNList :=
  ((blockStep serializeHash cenv {} (env 0, vtx₁')).getD {})

/-- Block 2' registers masternode 3 on the same collateral, which replaces masternode 1, and
then spends the collateral. -/
def vtx₂' : List CTransaction :=
  [coinbase 20, proRegTx 3 ⟨100, 0⟩ 3 3 13 3, spendTx 4 ⟨100, 0⟩]

/-- Failing input: the chain reaches the list of block 1', every transaction of block 2' passes
`CheckSpecialTx` against it, and `BuildNewListFromBlock` aborts on block 2' when the spend of
the collateral removes masternode 1 a second time. -/
theorem collateral_spend_after_takeover_aborts :
    ListReachable serializeHash cenv list₁' ∧
      (∀ tx ∈ vtx₂', checkSpecialTx (env 1) cenv list₁' tx = .ok ()) ∧
      buildNewListFromBlock (env 1) list₁' vtx₂' = .error .abort :=
  ⟨.step (env 0, vtx₁') .init rfl, by decide, by decide⟩

end BlockAbortsFixture

end Emrals
