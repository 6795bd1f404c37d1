import Mathlib
import Emrals.Special.MNList

/-!
# Masternode list diffs

`CDeterministicMNListDiff` (`src/special/deterministicmns.h:542`) records how one list becomes the
next: the masternodes added, the state diffs of the ones kept (keyed by internal id) and the
internal ids removed. `BuildDiff` computes it from two lists; `ApplyDiff` replays it on the first
one: removals, then additions, each of which must carry the next internal id of the running
counter, then updates (`src/special/deterministicmns.cpp:357-438`).

`std::set<uint64_t>` and `std::map<uint64_t, ·>` iterate in ascending key order and `emplace`
keeps an existing key; both are sorted lists here.
-/

namespace Emrals

/-- `std::set<uint64_t>::emplace`: insert in order unless present. -/
def setEmplace (x : UInt64) (s : List UInt64) : List UInt64 :=
  if x ∈ s then s else s.orderedInsert (· ≤ ·) x

/-- `std::map<uint64_t, V>::emplace`: insert in key order unless the key is present. -/
def mapEmplace {V : Type} (k : UInt64) (v : V) (m : List (UInt64 × V)) : List (UInt64 × V) :=
  if m.any (·.1 == k) then m else m.orderedInsert (fun a b => a.1 ≤ b.1) (k, v)

/-- `CDeterministicMNListDiff`. -/
structure CDeterministicMNListDiff where
  addedMNs : List CDeterministicMN := []
  updatedMNs : List (UInt64 × CDeterministicMNStateDiff) := []
  removedMns : List UInt64 := []
  deriving DecidableEq

/-- `HasChanges`. -/
def CDeterministicMNListDiff.hasChanges (d : CDeterministicMNListDiff) : Bool :=
  !d.addedMNs.isEmpty || !d.updatedMNs.isEmpty || !d.removedMns.isEmpty

namespace CDeterministicMNList

/-- One visit of the first `ForEachMN` of `BuildDiff`, over the masternodes of the target list
(`to`): a masternode unknown to `from` is added; a known one contributes its state diff unless
that is empty. (The source skips the diff when both pointers are equal; the diff of equal states
is empty.) -/
def buildDiffTo (l : CDeterministicMNList) (d : CDeterministicMNListDiff)
    (toDmn : CDeterministicMN) : CDeterministicMNListDiff :=
  match l.getMN toDmn.proTxHash with
  | none => { d with addedMNs := d.addedMNs ++ [toDmn] }
  | some fromDmn =>
    let stateDiff := CDeterministicMNStateDiff.ofStates fromDmn.pdmnState toDmn.pdmnState
    if stateDiff.fields != 0 then
      { d with updatedMNs := mapEmplace toDmn.internalId stateDiff d.updatedMNs }
    else d

/-- One visit of the second `ForEachMN` of `BuildDiff`, over the masternodes of `from`: a
masternode unknown to the target is removed. -/
def buildDiffFrom (target : CDeterministicMNList) (d : CDeterministicMNListDiff)
    (fromDmn : CDeterministicMN) : CDeterministicMNListDiff :=
  match target.getMN fromDmn.proTxHash with
  | none => { d with removedMns := setEmplace fromDmn.internalId d.removedMns }
  | some _ => d

/-- `BuildDiff`: the two scans, then the added masternodes sorted by internal id "so that these
are added in correct order when the diff is applied later". -/
def buildDiff (l target : CDeterministicMNList) : CDeterministicMNListDiff :=
  let d := target.allMNs.foldl l.buildDiffTo {}
  let d := l.allMNs.foldl target.buildDiffFrom d
  { d with addedMNs := d.addedMNs.insertionSort (fun a b => a.internalId ≤ b.internalId) }

section
variable (SerializeHash : UniqueProperty → uint256)

/-- One removal of `ApplyDiff`: asserts that the internal id names a masternode, then removes it. -/
def applyRemoval (l : CDeterministicMNList) (internalId : UInt64) :
    Option CDeterministicMNList := do
  let dmn ← l.getMNByInternalId internalId
  l.removeMN SerializeHash dmn.proTxHash

/-- One addition of `ApplyDiff`: asserts that the masternode carries the running count as its
internal id, adds it, and advances the count. -/
def applyAddition (l : CDeterministicMNList) (dmn : CDeterministicMN) :
    Option CDeterministicMNList :=
  if dmn.internalId = l.nTotalRegisteredCount.toUInt64 then do
    let l ← l.addMN SerializeHash dmn
    some { l with nTotalRegisteredCount := l.nTotalRegisteredCount + 1 }
  else none

/-- One update of `ApplyDiff`: the state diff applied to the masternode of that internal id
(`UpdateMN` asserts that there is one). -/
def applyUpdate (l : CDeterministicMNList) (p : UInt64 × CDeterministicMNStateDiff) :
    Option CDeterministicMNList :=
  l.updateMNByDiff SerializeHash (l.getMNByInternalId p.1) p.2

/-- `ApplyDiff`: the list of block `(blockHash, nHeight)`, replayed from this one. -/
def applyDiff (l : CDeterministicMNList) (blockHash : uint256) (nHeight : Int)
    (diff : CDeterministicMNListDiff) : Option CDeterministicMNList := do
  let result : CDeterministicMNList := { l with blockHash := blockHash, nHeight := nHeight }
  let result ← diff.removedMns.foldlM (applyRemoval SerializeHash) result
  let result ← diff.addedMNs.foldlM (applyAddition SerializeHash) result
  diff.updatedMNs.foldlM (applyUpdate SerializeHash) result

end

end CDeterministicMNList

end Emrals
