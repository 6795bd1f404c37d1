import Emrals.Special.State

/-!
# The deterministic masternode list

`CDeterministicMNList` (`src/special/deterministicmns.h:268`) holds three maps: the masternodes by
ProTx hash, the ProTx hash of every internal id, and the *unique properties*: for the hash of
every collateral outpoint, service address, owner key and operator key of a masternode, the ProTx
hash of its holder and the number of its properties with that hash. The source keeps the third
map by hand, property by property, and guards every step with an `assert`; the model returns
`none` where an `assert` fails, which aborts the node.

`SerializeHash`, the double SHA-256 of a property's serialization, is a parameter of every
operation that touches the third map. Nothing here assumes it is injective: a collision between
the properties of two masternodes is one more way for an `assert` to fail.

The immutable `immer::map`s are `AList`s. The list of entries fixes an iteration order
(`ForEachMN`); none of the loops of the source depends on it.
-/

namespace Emrals

/-- `CDeterministicMN`: a registered masternode. The source shares the immutable state object
through a pointer; the model holds it by value. -/
structure CDeterministicMN where
  proTxHash : uint256
  internalId : UInt64 := 0xFFFFFFFFFFFFFFFF
  collateralOutpoint : COutPoint
  nOperatorReward : UInt16
  pdmnState : CDeterministicMNState
  deriving DecidableEq

/-- The four kinds of unique property, as the template arguments of `AddUniqueProperty`. -/
inductive UniqueProperty
  | collateralOutpoint (o : COutPoint)
  | addr (a : CService)
  | keyIDOwner (k : CKeyID)
  | pubKeyOperator (k : CBLSPublicKey)
  deriving DecidableEq

/-- `v == nullValue`, for the default-constructed `static const T nullValue` of each type. -/
def UniqueProperty.isNullValue : UniqueProperty → Bool
  | .collateralOutpoint o => o == ⟨0, COutPoint.NULL_INDEX⟩
  | .addr a => a == default
  | .keyIDOwner k => k == 0
  | .pubKeyOperator k => k == none

/-- `CDeterministicMNList`, with the default constructor's values. -/
structure CDeterministicMNList where
  blockHash : uint256 := 0
  nHeight : Int := -1
  nTotalRegisteredCount : UInt32 := 0
  mnMap : AList (fun _ : uint256 => CDeterministicMN) := ∅
  mnInternalIdMap : AList (fun _ : UInt64 => uint256) := ∅
  mnUniquePropertyMap : AList (fun _ : uint256 => uint256 × UInt32) := ∅
  deriving DecidableEq

namespace CDeterministicMNList

/-! ## Queries -/

/-- `GetMN`. -/
def getMN (l : CDeterministicMNList) (proTxHash : uint256) : Option CDeterministicMN :=
  l.mnMap.lookup proTxHash

/-- `HasMN`. -/
def hasMN (l : CDeterministicMNList) (proTxHash : uint256) : Bool := (l.getMN proTxHash).isSome

/-- `GetMNByInternalId`. -/
def getMNByInternalId (l : CDeterministicMNList) (internalId : UInt64) :
    Option CDeterministicMN :=
  (l.mnInternalIdMap.lookup internalId).bind l.getMN

/-- `GetAllMNsCount`. -/
def getAllMNsCount (l : CDeterministicMNList) : Nat := l.mnMap.entries.length

/-- `IsMNPoSeBanned`. -/
def isMNPoSeBanned (dmn : CDeterministicMN) : Bool := dmn.pdmnState.nPoSeBanHeight != -1

/-- `IsMNValid`. -/
def isMNValid (dmn : CDeterministicMN) : Bool := !isMNPoSeBanned dmn

/-- The masternodes `ForEachMN(false, ...)` visits, in its order. -/
def allMNs (l : CDeterministicMNList) : List CDeterministicMN := l.mnMap.entries.map (·.2)

section
variable (SerializeHash : UniqueProperty → uint256)

/-- `HasUniqueProperty`. -/
def hasUniqueProperty (l : CDeterministicMNList) (v : UniqueProperty) : Bool :=
  (l.mnUniquePropertyMap.lookup (SerializeHash v)).isSome

/-- `GetUniquePropertyMN`: the masternode the property's entry names. -/
def getUniquePropertyMN (l : CDeterministicMNList) (v : UniqueProperty) :
    Option CDeterministicMN :=
  (l.mnUniquePropertyMap.lookup (SerializeHash v)).bind fun p => l.getMN p.1

/-- `GetMNByCollateral`. -/
def getMNByCollateral (l : CDeterministicMNList) (collateralOutpoint : COutPoint) :
    Option CDeterministicMN :=
  l.getUniquePropertyMN SerializeHash (.collateralOutpoint collateralOutpoint)

/-! ## The unique-property map -/

/-- `MnUniquePropertyMap`: for each property hash, its holder and how many of the holder's
properties have that hash. -/
abbrev MnUniquePropertyMap := AList (fun _ : uint256 => uint256 × UInt32)

/-- `AddUniqueProperty`: asserts that the property is not null and that its hash is free or
already held by the same masternode, then counts it. -/
def addUniqueProperty (m : MnUniquePropertyMap) (dmn : CDeterministicMN) (v : UniqueProperty) :
    Option MnUniquePropertyMap :=
  if v.isNullValue then none else
  match m.lookup (SerializeHash v) with
  | none => some (m.insert (SerializeHash v) (dmn.proTxHash, 1))
  | some (holder, count) =>
    if holder = dmn.proTxHash then some (m.insert (SerializeHash v) (dmn.proTxHash, count + 1))
    else none

/-- `DeleteUniqueProperty`: asserts that the property is not null and that its hash is held by
the masternode, then uncounts it, erasing the entry at the last count. -/
def deleteUniqueProperty (m : MnUniquePropertyMap) (dmn : CDeterministicMN)
    (oldValue : UniqueProperty) : Option MnUniquePropertyMap :=
  if oldValue.isNullValue then none else
  match m.lookup (SerializeHash oldValue) with
  | none => none
  | some (holder, count) =>
    if holder = dmn.proTxHash then
      if count = 1 then some (m.erase (SerializeHash oldValue))
      else some (m.insert (SerializeHash oldValue) (dmn.proTxHash, count - 1))
    else none

/-- `UpdateUniqueProperty`: nothing when the value is unchanged; otherwise delete the old value
unless null, then add the new one unless null. -/
def updateUniqueProperty (m : MnUniquePropertyMap) (dmn : CDeterministicMN)
    (oldValue newValue : UniqueProperty) : Option MnUniquePropertyMap :=
  if oldValue = newValue then some m else do
  let m ← if oldValue.isNullValue then some m else deleteUniqueProperty SerializeHash m dmn oldValue
  if newValue.isNullValue then some m else addUniqueProperty SerializeHash m dmn newValue

/-! ## Adding, updating and removing masternodes -/

/-- The unique-property half of `AddMN`: the collateral, the non-null address, the owner key
and the valid operator key. -/
def addMNProperties (m : MnUniquePropertyMap) (dmn : CDeterministicMN) :
    Option MnUniquePropertyMap := do
  let m ← addUniqueProperty SerializeHash m dmn (.collateralOutpoint dmn.collateralOutpoint)
  let m ← if dmn.pdmnState.addr != default then
      addUniqueProperty SerializeHash m dmn (.addr dmn.pdmnState.addr) else some m
  let m ← addUniqueProperty SerializeHash m dmn (.keyIDOwner dmn.pdmnState.keyIDOwner)
  if dmn.pdmnState.pubKeyOperator.isValid then
    addUniqueProperty SerializeHash m dmn (.pubKeyOperator dmn.pdmnState.pubKeyOperator)
  else some m

/-- `AddMN`: asserts that the ProTx hash is new, records the masternode under its hash and its
internal id, and adds its unique properties. -/
def addMN (l : CDeterministicMNList) (dmn : CDeterministicMN) : Option CDeterministicMNList :=
  if (l.mnMap.lookup dmn.proTxHash).isSome then none else do
  let m ← addMNProperties SerializeHash l.mnUniquePropertyMap dmn
  some { l with mnMap := l.mnMap.insert dmn.proTxHash dmn,
                mnInternalIdMap := l.mnInternalIdMap.insert dmn.internalId dmn.proTxHash,
                mnUniquePropertyMap := m }

/-- The unique-property half of `UpdateMN`: move the address, the owner key and the operator key
of `dmn` from their values in `oldState` to their values in its new state. -/
def updateMNProperties (m : MnUniquePropertyMap) (dmn : CDeterministicMN)
    (oldState : CDeterministicMNState) : Option MnUniquePropertyMap := do
  let m ← updateUniqueProperty SerializeHash m dmn (.addr oldState.addr) (.addr dmn.pdmnState.addr)
  let m ← updateUniqueProperty SerializeHash m dmn (.keyIDOwner oldState.keyIDOwner)
    (.keyIDOwner dmn.pdmnState.keyIDOwner)
  updateUniqueProperty SerializeHash m dmn (.pubKeyOperator oldState.pubKeyOperator)
    (.pubKeyOperator dmn.pdmnState.pubKeyOperator)

/-- `UpdateMN(const CDeterministicMNCPtr& oldDmn, const CDeterministicMNStateCPtr& pdmnState)`:
replace the state of `oldDmn` and move its properties in the unique-property map. -/
def updateMN (l : CDeterministicMNList) (oldDmn : CDeterministicMN)
    (pdmnState : CDeterministicMNState) : Option CDeterministicMNList := do
  let dmn := { oldDmn with pdmnState := pdmnState }
  let m ← updateMNProperties SerializeHash l.mnUniquePropertyMap dmn oldDmn.pdmnState
  some { l with mnMap := l.mnMap.insert oldDmn.proTxHash dmn, mnUniquePropertyMap := m }

/-- `UpdateMN(const uint256& proTxHash, const CDeterministicMNStateCPtr& pdmnState)`: asserts
that the masternode exists. -/
def updateMNByProTxHash (l : CDeterministicMNList) (proTxHash : uint256)
    (pdmnState : CDeterministicMNState) : Option CDeterministicMNList := do
  let oldDmn ← l.mnMap.lookup proTxHash
  l.updateMN SerializeHash oldDmn pdmnState

/-- `UpdateMN(const CDeterministicMNCPtr& oldDmn, const CDeterministicMNStateDiff& stateDiff)`:
asserts that the pointer is not null, then applies the diff to its state. -/
def updateMNByDiff (l : CDeterministicMNList) (oldDmn : Option CDeterministicMN)
    (stateDiff : CDeterministicMNStateDiff) : Option CDeterministicMNList := do
  let oldDmn ← oldDmn
  l.updateMN SerializeHash oldDmn (stateDiff.applyToState oldDmn.pdmnState)

/-- The unique-property half of `RemoveMN`: the properties `AddMN` added. -/
def removeMNProperties (m : MnUniquePropertyMap) (dmn : CDeterministicMN) :
    Option MnUniquePropertyMap := do
  let m ← deleteUniqueProperty SerializeHash m dmn (.collateralOutpoint dmn.collateralOutpoint)
  let m ← if dmn.pdmnState.addr != default then
      deleteUniqueProperty SerializeHash m dmn (.addr dmn.pdmnState.addr) else some m
  let m ← deleteUniqueProperty SerializeHash m dmn (.keyIDOwner dmn.pdmnState.keyIDOwner)
  if dmn.pdmnState.pubKeyOperator.isValid then
    deleteUniqueProperty SerializeHash m dmn (.pubKeyOperator dmn.pdmnState.pubKeyOperator)
  else some m

/-- `RemoveMN`: asserts that the masternode exists, deletes its unique properties, and erases it
from the two other maps. -/
def removeMN (l : CDeterministicMNList) (proTxHash : uint256) : Option CDeterministicMNList := do
  let dmn ← l.getMN proTxHash
  let m ← removeMNProperties SerializeHash l.mnUniquePropertyMap dmn
  some { l with mnMap := l.mnMap.erase proTxHash,
                mnInternalIdMap := l.mnInternalIdMap.erase dmn.internalId,
                mnUniquePropertyMap := m }

/-! ## What the operations on masternodes keep -/

/-- `l'` has the block hash, the height and the registration count of `l`. Only the code that
builds the list of a block sets them; no operation on masternodes changes them. -/
def SameHeader (l l' : CDeterministicMNList) : Prop :=
  l'.blockHash = l.blockHash ∧ l'.nHeight = l.nHeight ∧
    l'.nTotalRegisteredCount = l.nTotalRegisteredCount

theorem SameHeader.refl (l : CDeterministicMNList) : SameHeader l l := ⟨rfl, rfl, rfl⟩

theorem SameHeader.trans {l₁ l₂ l₃ : CDeterministicMNList} (h₁ : SameHeader l₁ l₂)
    (h₂ : SameHeader l₂ l₃) : SameHeader l₁ l₃ :=
  ⟨h₂.1.trans h₁.1, h₂.2.1.trans h₁.2.1, h₂.2.2.trans h₁.2.2⟩

variable {SerializeHash} {l l' : CDeterministicMNList}

theorem addMN_sameHeader {dmn : CDeterministicMN} (h : l.addMN SerializeHash dmn = some l') :
    SameHeader l l' := by
  unfold addMN at h
  split at h
  · cases h
  · obtain ⟨m, -, ⟨⟩⟩ := Option.bind_eq_some_iff.1 h
    exact SameHeader.refl _

theorem updateMN_sameHeader {oldDmn : CDeterministicMN} {pdmnState : CDeterministicMNState}
    (h : l.updateMN SerializeHash oldDmn pdmnState = some l') : SameHeader l l' := by
  obtain ⟨m, -, ⟨⟩⟩ := Option.bind_eq_some_iff.1 h
  exact SameHeader.refl _

theorem updateMNByProTxHash_sameHeader {proTxHash : uint256} {pdmnState : CDeterministicMNState}
    (h : l.updateMNByProTxHash SerializeHash proTxHash pdmnState = some l') :
    SameHeader l l' := by
  obtain ⟨oldDmn, -, h⟩ := Option.bind_eq_some_iff.1 h
  exact updateMN_sameHeader h

theorem updateMNByDiff_sameHeader {oldDmn : Option CDeterministicMN}
    {stateDiff : CDeterministicMNStateDiff}
    (h : l.updateMNByDiff SerializeHash oldDmn stateDiff = some l') : SameHeader l l' := by
  obtain ⟨dmn, -, h⟩ := Option.bind_eq_some_iff.1 h
  exact updateMN_sameHeader h

theorem removeMN_sameHeader {proTxHash : uint256}
    (h : l.removeMN SerializeHash proTxHash = some l') : SameHeader l l' := by
  obtain ⟨dmn, -, h⟩ := Option.bind_eq_some_iff.1 h
  obtain ⟨m, -, ⟨⟩⟩ := Option.bind_eq_some_iff.1 h
  exact SameHeader.refl _

variable (SerializeHash)

/-! ## Proof-of-service penalties -/

/-- `CalcMaxPoSePenalty`: the number of registered masternodes, and at least 100. -/
def calcMaxPoSePenalty (l : CDeterministicMNList) : Int := max 100 l.getAllMNsCount

/-- `CalcPenalty`: asserts a positive percentage, then takes that share of the maximum, rounding
toward zero as C++ integer division does. -/
def calcPenalty (l : CDeterministicMNList) (percent : Int) : Option Int :=
  if 0 < percent then some ((l.calcMaxPoSePenalty * percent).tdiv 100) else none

/-- `PoSePunish`: asserts a positive penalty and an existing masternode, adds the penalty up to
the maximum, and bans the masternode at the list's height when it reaches the maximum. -/
def poSePunish (l : CDeterministicMNList) (proTxHash : uint256) (penalty : Int) :
    Option CDeterministicMNList :=
  if penalty ≤ 0 then none else do
  let dmn ← l.getMN proTxHash
  let maxPenalty := l.calcMaxPoSePenalty
  let newPenalty := min maxPenalty (dmn.pdmnState.nPoSePenalty + penalty)
  let newState : CDeterministicMNState := { dmn.pdmnState with nPoSePenalty := newPenalty }
  let newState : CDeterministicMNState :=
    if maxPenalty ≤ newPenalty ∧ newState.nPoSeBanHeight = -1 then
      { newState with nPoSeBanHeight := l.nHeight } else newState
  l.updateMNByProTxHash SerializeHash proTxHash newState

/-- `PoSeDecrease`: asserts an existing, unbanned masternode with a positive penalty, and lowers
the penalty by one. -/
def poSeDecrease (l : CDeterministicMNList) (proTxHash : uint256) :
    Option CDeterministicMNList := do
  let dmn ← l.getMN proTxHash
  if 0 < dmn.pdmnState.nPoSePenalty ∧ dmn.pdmnState.nPoSeBanHeight = -1 then
    l.updateMNByProTxHash SerializeHash proTxHash
      { dmn.pdmnState with nPoSePenalty := dmn.pdmnState.nPoSePenalty - 1 }
  else none

variable {SerializeHash}

theorem poSePunish_sameHeader {proTxHash : uint256} {penalty : Int}
    (h : l.poSePunish SerializeHash proTxHash penalty = some l') : SameHeader l l' := by
  unfold poSePunish at h
  split at h
  · cases h
  · obtain ⟨dmn, -, h⟩ := Option.bind_eq_some_iff.1 h
    exact updateMNByProTxHash_sameHeader h

theorem poSeDecrease_sameHeader {proTxHash : uint256}
    (h : l.poSeDecrease SerializeHash proTxHash = some l') : SameHeader l l' := by
  obtain ⟨dmn, -, h⟩ := Option.bind_eq_some_iff.1 h
  split at h
  · exact updateMNByProTxHash_sameHeader h
  · cases h

end

/-! ## The payee -/

/-- `CompareByLastPaid_GetHeight`: the revival height when it is later than the last payment,
else the last payment, or the registration height for a masternode never paid. -/
def compareByLastPaidGetHeight (dmn : CDeterministicMN) : Int :=
  let s := dmn.pdmnState
  if s.nPoSeRevivedHeight ≠ -1 ∧ s.nPoSeRevivedHeight > s.nLastPaidHeight then s.nPoSeRevivedHeight
  else if s.nLastPaidHeight = 0 then s.nRegisteredHeight
  else s.nLastPaidHeight

/-- `CompareByLastPaid`: earlier height first, ties broken by ProTx hash. -/
def compareByLastPaid (a b : CDeterministicMN) : Bool :=
  if compareByLastPaidGetHeight a = compareByLastPaidGetHeight b then decide (a.proTxHash < b.proTxHash)
  else decide (compareByLastPaidGetHeight a < compareByLastPaidGetHeight b)

/-- `GetMNPayee`: the least valid masternode by `CompareByLastPaid`, found by the scan of
`ForEachMN(true, ...)`. -/
def getMNPayee (l : CDeterministicMNList) : Option CDeterministicMN :=
  if l.getAllMNsCount = 0 then none else
  (l.allMNs.filter isMNValid).foldl
    (fun best dmn => match best with
      | none => some dmn
      | some b => if compareByLastPaid dmn b then some dmn else best) none

end CDeterministicMNList

end Emrals
