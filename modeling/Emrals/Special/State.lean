import Emrals.Transaction

/-!
# Masternode state and state diffs

`CDeterministicMNState` (`src/special/deterministicmns.h:31`) and the field-wise diff
`CDeterministicMNStateDiff` (`:120`). The source spells the diff out by a macro,
`DMN_STATE_DIFF_LINE(f)`, applied to the fourteen fields in order; the model names the fields
(`StateField`), says once what one line does for one field (`StateField.eq`, `StateField.copy`),
and runs that line over `DMN_STATE_DIFF_ALL_FIELDS`.

Heights and the PoSe penalty are C++ `int`s; they hold block heights and penalties capped by
`CalcMaxPoSePenalty`, so the model uses `Int`.
-/

namespace Emrals

/-- `CDeterministicMNState`, with the default member initializers of the source. -/
structure CDeterministicMNState where
  nRegisteredHeight : Int := -1
  nLastPaidHeight : Int := 0
  nPoSePenalty : Int := 0
  nPoSeRevivedHeight : Int := -1
  nPoSeBanHeight : Int := -1
  nRevocationReason : UInt16 := CProUpRevTx.REASON_NOT_SPECIFIED
  confirmedHash : uint256 := 0
  confirmedHashWithProRegTxHash : uint256 := 0
  keyIDOwner : CKeyID := 0
  pubKeyOperator : CBLSPublicKey := none
  keyIDVoting : CKeyID := 0
  addr : CService := default
  scriptPayout : CScript := []
  scriptOperatorPayout : CScript := []
  deriving DecidableEq

instance : Inhabited CDeterministicMNState := ⟨{}⟩

namespace CDeterministicMNState

/-- `CDeterministicMNState(const CProRegTx&)`: the keys, address and payout of the payload. -/
def ofProRegTx (proTx : CProRegTx) : CDeterministicMNState :=
  { keyIDOwner := proTx.keyIDOwner, pubKeyOperator := proTx.pubKeyOperator,
    keyIDVoting := proTx.keyIDVoting, addr := proTx.addr, scriptPayout := proTx.scriptPayout }

/-- `ResetOperatorFields`: forget the operator key, the address, the operator payout and the
revocation reason. -/
def resetOperatorFields (s : CDeterministicMNState) : CDeterministicMNState :=
  { s with pubKeyOperator := none, addr := default, scriptOperatorPayout := [],
           nRevocationReason := CProUpRevTx.REASON_NOT_SPECIFIED }

/-- `BanIfNotBanned`. -/
def banIfNotBanned (s : CDeterministicMNState) (height : Int) : CDeterministicMNState :=
  if s.nPoSeBanHeight = -1 then { s with nPoSeBanHeight := height } else s

/-- `UpdateConfirmedHash`, with the single SHA-256 of the two hashes as a parameter. -/
def updateConfirmedHash (sha256 : uint256 → uint256 → uint256) (s : CDeterministicMNState)
    (proTxHash confirmedHash : uint256) : CDeterministicMNState :=
  { s with confirmedHash := confirmedHash,
           confirmedHashWithProRegTxHash := sha256 proTxHash confirmedHash }

end CDeterministicMNState

/-! ## Fields and diffs -/

/-- The fields of `CDeterministicMNState`, in the order of `DMN_STATE_DIFF_ALL_FIELDS`. -/
inductive StateField
  | nRegisteredHeight | nLastPaidHeight | nPoSePenalty | nPoSeRevivedHeight | nPoSeBanHeight
  | nRevocationReason | confirmedHash | confirmedHashWithProRegTxHash | keyIDOwner
  | pubKeyOperator | keyIDVoting | addr | scriptPayout | scriptOperatorPayout
  deriving DecidableEq, Repr

namespace StateField

/-- `CDeterministicMNStateDiff::Field`: the bit of each field in the mask. -/
def bit : StateField → UInt32
  | nRegisteredHeight => 0x0001
  | nLastPaidHeight => 0x0002
  | nPoSePenalty => 0x0004
  | nPoSeRevivedHeight => 0x0008
  | nPoSeBanHeight => 0x0010
  | nRevocationReason => 0x0020
  | confirmedHash => 0x0040
  | confirmedHashWithProRegTxHash => 0x0080
  | keyIDOwner => 0x0100
  | pubKeyOperator => 0x0200
  | keyIDVoting => 0x0400
  | addr => 0x0800
  | scriptPayout => 0x1000
  | scriptOperatorPayout => 0x2000

/-- `a.f == b.f`. -/
def eq : StateField → CDeterministicMNState → CDeterministicMNState → Bool
  | nRegisteredHeight, a, b => a.nRegisteredHeight == b.nRegisteredHeight
  | nLastPaidHeight, a, b => a.nLastPaidHeight == b.nLastPaidHeight
  | nPoSePenalty, a, b => a.nPoSePenalty == b.nPoSePenalty
  | nPoSeRevivedHeight, a, b => a.nPoSeRevivedHeight == b.nPoSeRevivedHeight
  | nPoSeBanHeight, a, b => a.nPoSeBanHeight == b.nPoSeBanHeight
  | nRevocationReason, a, b => a.nRevocationReason == b.nRevocationReason
  | confirmedHash, a, b => a.confirmedHash == b.confirmedHash
  | confirmedHashWithProRegTxHash, a, b =>
    a.confirmedHashWithProRegTxHash == b.confirmedHashWithProRegTxHash
  | keyIDOwner, a, b => a.keyIDOwner == b.keyIDOwner
  | pubKeyOperator, a, b => a.pubKeyOperator == b.pubKeyOperator
  | keyIDVoting, a, b => a.keyIDVoting == b.keyIDVoting
  | addr, a, b => a.addr == b.addr
  | scriptPayout, a, b => a.scriptPayout == b.scriptPayout
  | scriptOperatorPayout, a, b => a.scriptOperatorPayout == b.scriptOperatorPayout

/-- `dst.f = src.f`. -/
def copy : StateField → CDeterministicMNState → CDeterministicMNState → CDeterministicMNState
  | nRegisteredHeight, src, dst => { dst with nRegisteredHeight := src.nRegisteredHeight }
  | nLastPaidHeight, src, dst => { dst with nLastPaidHeight := src.nLastPaidHeight }
  | nPoSePenalty, src, dst => { dst with nPoSePenalty := src.nPoSePenalty }
  | nPoSeRevivedHeight, src, dst => { dst with nPoSeRevivedHeight := src.nPoSeRevivedHeight }
  | nPoSeBanHeight, src, dst => { dst with nPoSeBanHeight := src.nPoSeBanHeight }
  | nRevocationReason, src, dst => { dst with nRevocationReason := src.nRevocationReason }
  | confirmedHash, src, dst => { dst with confirmedHash := src.confirmedHash }
  | confirmedHashWithProRegTxHash, src, dst =>
    { dst with confirmedHashWithProRegTxHash := src.confirmedHashWithProRegTxHash }
  | keyIDOwner, src, dst => { dst with keyIDOwner := src.keyIDOwner }
  | pubKeyOperator, src, dst => { dst with pubKeyOperator := src.pubKeyOperator }
  | keyIDVoting, src, dst => { dst with keyIDVoting := src.keyIDVoting }
  | addr, src, dst => { dst with addr := src.addr }
  | scriptPayout, src, dst => { dst with scriptPayout := src.scriptPayout }
  | scriptOperatorPayout, src, dst => { dst with scriptOperatorPayout := src.scriptOperatorPayout }

end StateField

/-- `DMN_STATE_DIFF_ALL_FIELDS`. -/
def DMN_STATE_DIFF_ALL_FIELDS : List StateField :=
  [.nRegisteredHeight, .nLastPaidHeight, .nPoSePenalty, .nPoSeRevivedHeight, .nPoSeBanHeight,
   .nRevocationReason, .confirmedHash, .confirmedHashWithProRegTxHash, .keyIDOwner,
   .pubKeyOperator, .keyIDVoting, .addr, .scriptPayout, .scriptOperatorPayout]

/-- `CDeterministicMNStateDiff`: a mask of changed fields and a state whose masked fields hold the
new values. -/
structure CDeterministicMNStateDiff where
  fields : UInt32 := 0
  state : CDeterministicMNState := {}
  deriving DecidableEq

namespace CDeterministicMNStateDiff

/-- One `DMN_STATE_DIFF_LINE(f)` of the constructor: record `b.f` when it differs from `a.f`. -/
def diffLine (a b : CDeterministicMNState) (d : CDeterministicMNStateDiff) (f : StateField) :
    CDeterministicMNStateDiff :=
  if f.eq a b then d else { state := f.copy b d.state, fields := d.fields ||| f.bit }

/-- `CDeterministicMNStateDiff(a, b)`. -/
def ofStates (a b : CDeterministicMNState) : CDeterministicMNStateDiff :=
  DMN_STATE_DIFF_ALL_FIELDS.foldl (diffLine a b) {}

/-- One `DMN_STATE_DIFF_LINE(f)` of `ApplyToState`: copy a masked field into the target. -/
def applyLine (d : CDeterministicMNStateDiff) (target : CDeterministicMNState) (f : StateField) :
    CDeterministicMNState :=
  if d.fields &&& f.bit != 0 then f.copy d.state target else target

/-- `ApplyToState`. -/
def applyToState (d : CDeterministicMNStateDiff) (target : CDeterministicMNState) :
    CDeterministicMNState :=
  DMN_STATE_DIFF_ALL_FIELDS.foldl d.applyLine target

end CDeterministicMNStateDiff

end Emrals
