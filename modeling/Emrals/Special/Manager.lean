import Emrals.Special.BuildList
import Emrals.Lib.Machine

/-!
# The masternode list manager

`CDeterministicMNManager` (`src/special/deterministicmns.cpp:505-926`) does not keep the list of
every block: the special database holds the diff of each processed block against its parent
(`DB_LIST_DIFF`) and a full snapshot (`DB_LIST_SNAPSHOT`) at the first processed block and every
`SNAPSHOT_LIST_PERIOD` blocks. `GetListForBlock` walks back from a block to the nearest list it
has (in the cache, as a snapshot, or the empty list of a block without a diff) and replays the
diffs it passed with `ApplyDiff`. `ProcessBlock` builds the list of a new block with
`BuildNewListFromBlock` and stores its diff against the parent's list; `UndoBlock` erases what
`ProcessBlock` stored.

A `CBlockIndex` is read through its hash, its height and its `pprev` chain: the model passes a
block as the head of the list of its ancestors, parent first. The database holds the lists and
diffs themselves; their encodings are the subject of `Emrals.Special.Serialize`.
-/

namespace Emrals

/-- `CDeterministicMNManager::SNAPSHOT_LIST_PERIOD`. -/
def SNAPSHOT_LIST_PERIOD : Int := 576

/-- `CDeterministicMNManager::LISTS_CACHE_SIZE`. -/
def LISTS_CACHE_SIZE : Int := 576

/-- What the manager reads of a `CBlockIndex`: `GetBlockHash()` and `nHeight`. -/
structure BlockRef where
  hash : uint256
  nHeight : Int
  deriving DecidableEq

/-- The state of `CDeterministicMNManager`: the two tables it keeps in the special database and
`mnListsCache`. -/
structure CDeterministicMNManager where
  /-- The `DB_LIST_DIFF` entries, by block hash. -/
  listDiffs : AList (fun _ : uint256 => CDeterministicMNListDiff) := ∅
  /-- The `DB_LIST_SNAPSHOT` entries, by block hash. -/
  listSnapshots : AList (fun _ : uint256 => CDeterministicMNList) := ∅
  mnListsCache : AList (fun _ : uint256 => CDeterministicMNList) := ∅
  deriving DecidableEq

namespace CDeterministicMNManager

/-- `mnListsCache.emplace`: an entry already cached is kept. -/
def cacheEmplace (m : CDeterministicMNManager) (blockHash : uint256)
    (l : CDeterministicMNList) : CDeterministicMNManager :=
  if (m.mnListsCache.lookup blockHash).isSome then m
  else { m with mnListsCache := m.mnListsCache.insert blockHash l }

/-- The walk of `GetListForBlock` from `pindex` down its `pprev` chain, collecting the diffs it
passes in `listDiff` (oldest first, as `emplace_front` orders them): the list the replay starts
from, and the manager with that list cached. `none` where the walk dereferences the `pprev` of
a block without one. -/
def findBase (m : CDeterministicMNManager) :
    List BlockRef → List (BlockRef × CDeterministicMNListDiff) →
      Option (CDeterministicMNList × CDeterministicMNManager ×
        List (BlockRef × CDeterministicMNListDiff))
  | [], _ => none
  | pindex :: pprev, listDiff =>
    match m.mnListsCache.lookup pindex.hash with
    | some snapshot => some (snapshot, m, listDiff)
    | none =>
      match m.listSnapshots.lookup pindex.hash with
      | some snapshot => some (snapshot, m.cacheEmplace pindex.hash snapshot, listDiff)
      | none =>
        match m.listDiffs.lookup pindex.hash with
        | none =>
          -- a block the manager never processed: the empty list of that block
          let snapshot : CDeterministicMNList :=
            { blockHash := pindex.hash, nHeight := -1, nTotalRegisteredCount := 0 }
          some (snapshot, m.cacheEmplace pindex.hash snapshot, listDiff)
        | some diff => findBase m pprev ((pindex, diff) :: listDiff)

section
variable (SerializeHash : UniqueProperty → uint256)

/-- One iteration of the replay loop of `GetListForBlock`: a diff with changes is applied, an
empty one only moves the block hash and height; the result is cached. -/
def replayDiff (acc : CDeterministicMNList × CDeterministicMNManager)
    (p : BlockRef × CDeterministicMNListDiff) :
    Option (CDeterministicMNList × CDeterministicMNManager) := do
  let (diffIndex, diff) := p
  let snapshot ← if diff.hasChanges then
      acc.1.applyDiff SerializeHash diffIndex.hash diffIndex.nHeight diff
    else some { acc.1 with blockHash := diffIndex.hash, nHeight := diffIndex.nHeight }
  some (snapshot, acc.2.cacheEmplace diffIndex.hash snapshot)

/-- `GetListForBlock`: the list of the block at the head of `chain`, and the manager with the
lists it rebuilt cached. `none` where an `ApplyDiff` asserts. -/
def getListForBlock (m : CDeterministicMNManager) (chain : List BlockRef) :
    Option (CDeterministicMNList × CDeterministicMNManager) := do
  let (snapshot, m, listDiff) ← m.findBase chain []
  listDiff.foldlM (replayDiff SerializeHash) (snapshot, m)

end

/-- `CleanupCache`: drop the cached lists more than `LISTS_CACHE_SIZE` blocks below `nHeight`. -/
def cleanupCache (m : CDeterministicMNManager) (nHeight : Int) : CDeterministicMNManager :=
  let toDelete := (m.mnListsCache.entries.filter fun p =>
    p.2.nHeight + LISTS_CACHE_SIZE < nHeight).map (·.1)
  { m with mnListsCache := toDelete.foldl (fun c h => c.erase h) m.mnListsCache }

/-- The environment `BuildNewListFromBlock` sees for a block whose ancestors are `pprev`, parent
first: the parent's height and hash, and the ancestors by height. -/
def envForParent (env : BuildEnv) (pindexPrev : BlockRef) (pprev : List BlockRef) : BuildEnv :=
  { env with prevHeight := pindexPrev.nHeight, prevBlockHash := pindexPrev.hash,
             ancestorHash := fun h => (pprev.find? (·.nHeight = h)).map (·.hash) }

/-- `ProcessBlock` for the block `pindex` with transactions `vtx` over the ancestors `pprev`:
whether the block is valid, and the manager after it. `BuildNewListFromBlock` takes the
parent's list from `GetListForBlock`, which caches what it rebuilds even when the block turns
out invalid. `none` where the node aborts. -/
def processBlock (env : BuildEnv) (m : CDeterministicMNManager) (pindex : BlockRef)
    (pprev : List BlockRef) (vtx : List CTransaction) (fJustCheck : Bool) :
    Option (Bool × CDeterministicMNManager) := do
  let nHeight := pindex.nHeight
  -- `BuildNewListFromBlock` dereferences `pindexPrev`
  let pindexPrev ← pprev.head?
  let (oldList, m) ← m.getListForBlock env.SerializeHash pprev
  match buildNewListFromBlock (envForParent env pindexPrev pprev) oldList vtx with
  | .error .abort => none
  | .error (.invalid _) => some (false, m)
  | .ok newList =>
    if fJustCheck then some (true, m) else do
    let newList := if newList.nHeight = -1 then { newList with nHeight := nHeight } else newList
    let newList := { newList with blockHash := pindex.hash }
    let (oldList, m) ← m.getListForBlock env.SerializeHash pprev
    let diff := oldList.buildDiff newList
    let m := { m with listDiffs := m.listDiffs.insert newList.blockHash diff }
    let m := if nHeight % SNAPSHOT_LIST_PERIOD = 0 ∨ oldList.nHeight = -1 then
        { m with listSnapshots := m.listSnapshots.insert newList.blockHash newList }
      else m
    some (true, m.cleanupCache nHeight)

/-- `UndoBlock` for the block `pindex` over the ancestors `pprev`: before erasing its diff, a
block whose diff has changes has its list and its parent's list rebuilt (for the notification
of the inverse diff). `none` where the node aborts. -/
def undoBlock (SerializeHash : UniqueProperty → uint256) (m : CDeterministicMNManager)
    (pindex : BlockRef) (pprev : List BlockRef) : Option CDeterministicMNManager := do
  let blockHash := pindex.hash
  let diff := (m.listDiffs.lookup blockHash).getD {}
  let m ← if diff.hasChanges then do
      let (_, m) ← m.getListForBlock SerializeHash (pindex :: pprev)
      let (_, m) ← m.getListForBlock SerializeHash pprev
      some m
    else some m
  some { m with listDiffs := m.listDiffs.erase blockHash,
                listSnapshots := m.listSnapshots.erase blockHash,
                mnListsCache := m.mnListsCache.erase blockHash }

/-! ## The manager as a machine -/

/-- What the node asks of the manager: connect a block (`ProcessBlock` from `ConnectBlock`, with
the coins `GetUTXOCoin` sees), disconnect one (`UndoBlock`), or ask for a block's list. Each
block comes with its ancestors, parent first. -/
inductive Event
  | connect (pindex : BlockRef) (pprev : List BlockRef) (vtx : List CTransaction)
      (getUTXOCoinValue : COutPoint → Option CAmount)
  | disconnect (pindex : BlockRef) (pprev : List BlockRef)
  | getList (chain : List BlockRef)

/-- One step of the manager: `none` when the node aborts. A block `ProcessBlock` finds invalid
is not connected, and only the lists cached on the way remain. -/
def step (env : BuildEnv) (m : CDeterministicMNManager) : Event → Option CDeterministicMNManager
  | .connect pindex pprev vtx coins =>
    (processBlock { env with getUTXOCoinValue := coins } m pindex pprev vtx false).map (·.2)
  | .disconnect pindex pprev => undoBlock env.SerializeHash m pindex pprev
  | .getList chain => (m.getListForBlock env.SerializeHash chain).map (·.2)

end CDeterministicMNManager

end Emrals
