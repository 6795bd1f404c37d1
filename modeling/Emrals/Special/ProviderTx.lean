import Emrals.Primitives

/-!
# Special transaction payloads

The payloads of the provider transactions (`src/special/providertx.h`) and of the quorum
commitment transaction (`src/llmq/quorums_commitment.h`), with the fields that the masternode
list code, the mempool and the validators (`CheckProRegTx` and its siblings) read. The
replay-protection hashes and the signatures are read only by the signature and inputs-hash
checks, which the model of the validators takes as parameters, so they are left out.

`CTransaction` carries its extra payload already decoded (`Emrals.TxPayload`): `GetTxPayload` either
yields the payload object of the type it is asked for, or fails.
-/

namespace Emrals

/-- `CProRegTx`: registers a masternode. A null `collateralOutpoint.hash` refers to an output of
the ProRegTx itself. -/
structure CProRegTx where
  nVersion : UInt16 := 1
  nType : UInt16 := 0
  nMode : UInt16 := 0
  collateralOutpoint : COutPoint := ⟨0, COutPoint.NULL_INDEX⟩
  addr : CService
  keyIDOwner : CKeyID
  pubKeyOperator : CBLSPublicKey
  keyIDVoting : CKeyID
  nOperatorReward : UInt16
  scriptPayout : CScript
  deriving DecidableEq

/-- `CProUpServTx`: the operator updates the service address and the operator payout. -/
structure CProUpServTx where
  nVersion : UInt16 := 1
  proTxHash : uint256
  addr : CService
  scriptOperatorPayout : CScript
  deriving DecidableEq

/-- `CProUpRegTx`: the owner replaces the operator key, the voting key and the payout script. -/
structure CProUpRegTx where
  nVersion : UInt16 := 1
  proTxHash : uint256
  nMode : UInt16 := 0
  pubKeyOperator : CBLSPublicKey
  keyIDVoting : CKeyID
  scriptPayout : CScript
  deriving DecidableEq

/-- `CProUpRevTx`: the operator revokes its key, giving a reason. -/
structure CProUpRevTx where
  nVersion : UInt16 := 1
  proTxHash : uint256
  nReason : UInt16 := 0
  deriving DecidableEq

/-- `CProRegTx::CURRENT_VERSION`, which the three update payloads share. -/
def CProRegTx.CURRENT_VERSION : UInt16 := 1

/-- `CProUpRevTx::REASON_NOT_SPECIFIED`. -/
def CProUpRevTx.REASON_NOT_SPECIFIED : UInt16 := 0

/-- `CProUpRevTx::REASON_LAST`, that is `REASON_CHANGE_OF_KEYS`. -/
def CProUpRevTx.REASON_LAST : UInt16 := 3

/-- `CBLSSignature`: `none` is the invalid signature, `some b` a valid one with its encoding. -/
abbrev CBLSSignature := Option (BitVec 768)

/-- `CFinalCommitment`: the result of a DKG session, mined in a quorum commitment transaction. -/
structure CFinalCommitment where
  llmqType : UInt8
  quorumHash : uint256
  signers : List Bool
  validMembers : List Bool
  quorumPublicKey : CBLSPublicKey
  quorumVvecHash : uint256
  quorumSig : CBLSSignature
  membersSig : CBLSSignature
  deriving DecidableEq

/-- `CFinalCommitment::IsNull`: nobody signed, nobody is valid, and no key, hash or signature is
set. -/
def CFinalCommitment.isNull (qc : CFinalCommitment) : Bool :=
  !(qc.signers.contains true || qc.validMembers.contains true) &&
    !(qc.quorumPublicKey.isValid || !qc.quorumVvecHash.isNull || qc.membersSig.isSome ||
      qc.quorumSig.isSome)

/-- `CFinalCommitmentTxPayload`: a commitment together with the height of the block mining it. -/
structure CFinalCommitmentTxPayload where
  nHeight : UInt32
  commitment : CFinalCommitment
  deriving DecidableEq

/-- The decoded extra payload of a special transaction. -/
inductive TxPayload
  | proReg (p : CProRegTx)
  | proUpServ (p : CProUpServTx)
  | proUpReg (p : CProUpRegTx)
  | proUpRev (p : CProUpRevTx)
  | qc (p : CFinalCommitmentTxPayload)
  deriving DecidableEq

end Emrals
