import Emrals.Special.ProviderTx

/-!
# Transactions

`CTransaction` (`src/primitives/transaction.h`) with its version and special-transaction type, its
inputs and outputs, its (cached) hash, and its extra payload in decoded form. `GetTxPayload` for a
payload type returns the payload when the transaction carries one of that type.
-/

namespace Emrals

/-- `TRANSACTION_COINBASE`. -/
def TRANSACTION_COINBASE : Int16 := 0
/-- `TRANSACTION_NORMAL`. -/
def TRANSACTION_NORMAL : Int16 := 1
/-- `TRANSACTION_PROVIDER_REGISTER`. -/
def TRANSACTION_PROVIDER_REGISTER : Int16 := 2
/-- `TRANSACTION_PROVIDER_UPDATE_SERVICE`. -/
def TRANSACTION_PROVIDER_UPDATE_SERVICE : Int16 := 3
/-- `TRANSACTION_PROVIDER_UPDATE_REGISTRAR`. -/
def TRANSACTION_PROVIDER_UPDATE_REGISTRAR : Int16 := 4
/-- `TRANSACTION_PROVIDER_UPDATE_REVOKE`. -/
def TRANSACTION_PROVIDER_UPDATE_REVOKE : Int16 := 5
/-- `TRANSACTION_QUORUM_COMMITMENT`. -/
def TRANSACTION_QUORUM_COMMITMENT : Int16 := 6
/-- `TRANSACTION_STAKE`. -/
def TRANSACTION_STAKE : Int16 := 7

/-- `CTxIn`: the outpoint it spends. Signature scripts and sequence numbers are read by script
verification only. -/
structure CTxIn where
  prevout : COutPoint
  deriving DecidableEq

/-- `CTransaction`. `hash` is the cached `GetHash()`; `payload` is `vExtraPayload` decoded. -/
structure CTransaction where
  hash : uint256
  nVersion : Int16
  nType : Int16
  vin : List CTxIn
  vout : List CTxOut
  payload : Option TxPayload
  deriving DecidableEq

namespace CTransaction

/-- `CTransaction::IsCoinBase`: one input spending the null outpoint, at least one output. -/
def isCoinBase (tx : CTransaction) : Bool :=
  match tx.vin with
  | [i] => i.prevout.isNull && 1 ≤ tx.vout.length
  | _ => false

/-- `CTransaction::IsCoinStake`: a non-null first input, at least two outputs, the first one
empty. -/
def isCoinStake (tx : CTransaction) : Bool :=
  match tx.vin, tx.vout with
  | i :: _, o :: _ :: _ => !i.prevout.isNull && o.isEmpty
  | _, _ => false

/-- `CTransaction::GetValueOut`: the sum of the output values. (The code throws when an output or
a partial sum leaves `MoneyRange`; `CheckTransaction` rejects such transactions first.) -/
def getValueOut (tx : CTransaction) : CAmount := (tx.vout.map CTxOut.nValue).sum

/-- `GetTxPayload<CProRegTx>`. -/
def getProRegTx (tx : CTransaction) : Option CProRegTx :=
  match tx.payload with
  | some (.proReg p) => some p
  | _ => none

/-- `GetTxPayload<CProUpServTx>`. -/
def getProUpServTx (tx : CTransaction) : Option CProUpServTx :=
  match tx.payload with
  | some (.proUpServ p) => some p
  | _ => none

/-- `GetTxPayload<CProUpRegTx>`. -/
def getProUpRegTx (tx : CTransaction) : Option CProUpRegTx :=
  match tx.payload with
  | some (.proUpReg p) => some p
  | _ => none

/-- `GetTxPayload<CProUpRevTx>`. -/
def getProUpRevTx (tx : CTransaction) : Option CProUpRevTx :=
  match tx.payload with
  | some (.proUpRev p) => some p
  | _ => none

/-- `GetTxPayload<CFinalCommitmentTxPayload>`. -/
def getQcTx (tx : CTransaction) : Option CFinalCommitmentTxPayload :=
  match tx.payload with
  | some (.qc p) => some p
  | _ => none

end CTransaction

end Emrals
