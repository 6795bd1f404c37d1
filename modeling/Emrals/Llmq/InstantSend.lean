import Emrals.Primitives
import Emrals.Lib.Codec
import Emrals.Lib.Loop
import Emrals.Lib.OrdMap
import Emrals.DB.Transaction

/-!
# The InstantSend lock store

`CInstantSendDb` (`src/llmq/quorums_instantsend.cpp`) keeps each lock under its hash (`is_i`)
and indexes it by its transaction (`is_tx`) and by each input (`is_in`), with an entry `is_m`
per lock mined at a height, and archive entries `is_a1`/`is_a2` for removed locks. Three
write-through caches sit in front of the lookups: `islockCache` (which also remembers misses),
`txidCache` and `outpointCache` (which remember misses as the null hash).

An index entry is written under the key of the lock being written and erased under the keys of the
lock being removed, whatever lock the entry names at that time. `ProcessInstantSendLock` logs a
second lock for a transaction or an input as a duplicate or a conflict, and then writes it, so
its index entries replace those of the first; removing the second lock then erases the only
entries through which the first could be found (`InstantSendFixture.duplicate_islock_unindexed`).

The removals run against a `CDBBatch` that is written at the end, while the loops keep reading
the database as it was and filling the caches; the model keeps the tables and the batch apart
for that reason. The caches truncate only past twice their capacity of 10000 entries, and are
modelled without truncation, as they behave below that size. Tables that are looked up by key are
functions; those that are iterated are lists in the key order of the database.
-/

namespace Emrals

open Codec OrdMap

/-- `CInstantSendLock`: the inputs it locks, the transaction, and the recovered signature. -/
structure CInstantSendLock where
  inputs : List COutPoint
  txid : uint256
  sig : List UInt8
  deriving DecidableEq

/-- The `is_in` key of an outpoint. The database orders it by its serialization: the hash, then the
four little-endian bytes of the index, which is not the order of `COutPoint::operator<`. -/
structure ISInputKey where
  outpoint : COutPoint
  deriving DecidableEq

instance : LT ISInputKey :=
  ⟨fun a b => a.outpoint.hash < b.outpoint.hash ∨ a.outpoint.hash = b.outpoint.hash ∧
    DataStreamCmp.less (encLE 4 a.outpoint.n.toNat) (encLE 4 b.outpoint.n.toNat) = true⟩

instance (a b : ISInputKey) : Decidable (a < b) :=
  inferInstanceAs (Decidable (a.outpoint.hash < b.outpoint.hash ∨
    a.outpoint.hash = b.outpoint.hash ∧
      DataStreamCmp.less (encLE 4 a.outpoint.n.toNat) (encLE 4 b.outpoint.n.toNat) = true))

/-- `BuildInversedISLockKey`: a height and a lock hash, keyed by `UINT32_MAX - nHeight` in big
endian, so that the database orders the greater height first. -/
structure InversedISLockKey where
  nHeight : Int
  islockHash : uint256
  deriving DecidableEq

instance : LT InversedISLockKey :=
  ⟨fun a b => b.nHeight < a.nHeight ∨ a.nHeight = b.nHeight ∧ a.islockHash < b.islockHash⟩

instance (a b : InversedISLockKey) : Decidable (a < b) :=
  inferInstanceAs (Decidable (b.nHeight < a.nHeight ∨
    a.nHeight = b.nHeight ∧ a.islockHash < b.islockHash))

/-- The lock store: its tables in the database, and its caches. -/
structure CInstantSendDb where
  is_i : uint256 → Option CInstantSendLock
  is_tx : uint256 → Option uint256
  is_in : List (ISInputKey × uint256)
  is_m : List (InversedISLockKey × Bool)
  is_a1 : List (InversedISLockKey × Bool)
  is_a2 : uint256 → Bool
  islockCache : uint256 → Option (Option CInstantSendLock)
  txidCache : uint256 → Option uint256
  outpointCache : COutPoint → Option uint256

/-- An operation a `CDBBatch` holds until `WriteBatch`. -/
inductive ISDbOp
  | eraseIslock (hash : uint256)
  | eraseTxid (txid : uint256)
  | eraseInput (outpoint : COutPoint)
  | eraseMined (key : InversedISLockKey)
  | writeArchived1 (key : InversedISLockKey)
  | writeArchived2 (hash : uint256)
  | eraseArchived1 (key : InversedISLockKey)
  | eraseArchived2 (hash : uint256)

namespace CInstantSendDb

/-- One operation of a batch, applied to the tables. -/
def applyOp (db : CInstantSendDb) : ISDbOp → CInstantSendDb
  | .eraseIslock hash => { db with is_i := Function.update db.is_i hash none }
  | .eraseTxid txid => { db with is_tx := Function.update db.is_tx txid none }
  | .eraseInput outpoint => { db with is_in := erase ⟨outpoint⟩ db.is_in }
  | .eraseMined key => { db with is_m := erase key db.is_m }
  | .writeArchived1 key => { db with is_a1 := assign key true db.is_a1 }
  | .writeArchived2 hash => { db with is_a2 := Function.update db.is_a2 hash true }
  | .eraseArchived1 key => { db with is_a1 := erase key db.is_a1 }
  | .eraseArchived2 hash => { db with is_a2 := Function.update db.is_a2 hash false }

/-- `CDBWrapper::WriteBatch`. -/
def writeBatch (db : CInstantSendDb) (batch : List ISDbOp) : CInstantSendDb :=
  batch.foldl applyOp db

/-! ## Lookups -/

/-- `GetInstantSendLockByHash`: the cache, or the table, whose answer (a miss included) is then
cached. -/
def getInstantSendLockByHash (db : CInstantSendDb) (hash : uint256) :
    Option CInstantSendLock × CInstantSendDb :=
  match db.islockCache hash with
  | some ret => (ret, db)
  | none => (db.is_i hash, { db with islockCache := Function.update db.islockCache hash (some (db.is_i hash)) })

/-- `GetInstantSendLockHashByTxid`: the null hash when there is no lock. -/
def getInstantSendLockHashByTxid (db : CInstantSendDb) (txid : uint256) : uint256 × CInstantSendDb :=
  match db.txidCache txid with
  | some islockHash => if islockHash.isNull then (0, db) else (islockHash, db)
  | none =>
    match db.is_tx txid with
    | some islockHash =>
      (islockHash, { db with txidCache := Function.update db.txidCache txid (some islockHash) })
    | none => (0, { db with txidCache := Function.update db.txidCache txid (some 0) })

/-- `GetInstantSendLockByTxid`. -/
def getInstantSendLockByTxid (db : CInstantSendDb) (txid : uint256) :
    Option CInstantSendLock × CInstantSendDb :=
  let (islockHash, db) := db.getInstantSendLockHashByTxid txid
  if islockHash.isNull then (none, db) else db.getInstantSendLockByHash islockHash

/-- `GetInstantSendLockByInput`. -/
def getInstantSendLockByInput (db : CInstantSendDb) (outpoint : COutPoint) :
    Option CInstantSendLock × CInstantSendDb :=
  match db.outpointCache outpoint with
  | some islockHash => if islockHash.isNull then (none, db) else db.getInstantSendLockByHash islockHash
  | none =>
    match db.is_in.lookup ⟨outpoint⟩ with
    | some islockHash =>
      { db with outpointCache := Function.update db.outpointCache outpoint (some islockHash) }
        |>.getInstantSendLockByHash islockHash
    | none => (none, { db with outpointCache := Function.update db.outpointCache outpoint (some 0) })

/-- `GetInstantSendLocksByParent`: the locks on the outputs of `parent`, from the table. -/
def getInstantSendLocksByParent (db : CInstantSendDb) (parent : uint256) : List uint256 :=
  (db.is_in.filter fun e => e.1.outpoint.hash = parent).map (·.2)

/-! ## Writes and removals -/

/-- `WriteNewInstantSendLock`: the lock and its index entries, written at once and cached. -/
def writeNewInstantSendLock (db : CInstantSendDb) (hash : uint256) (islock : CInstantSendLock) :
    CInstantSendDb :=
  { db with
    is_i := Function.update db.is_i hash (some islock)
    is_tx := Function.update db.is_tx islock.txid (some hash)
    is_in := islock.inputs.foldl (fun m input => assign ⟨input⟩ hash m) db.is_in
    islockCache := Function.update db.islockCache hash (some (some islock))
    txidCache := Function.update db.txidCache islock.txid (some hash)
    outpointCache := islock.inputs.foldl (fun c input => Function.update c input (some hash))
      db.outpointCache }

/-- `RemoveInstantSendLock`: erases from the batch the lock and the index entries under its keys,
and from the caches the same keys; without a lock given, it looks the lock up first. -/
def removeInstantSendLock (db : CInstantSendDb) (batch : List ISDbOp) (hash : uint256)
    (islock : Option CInstantSendLock) : CInstantSendDb × List ISDbOp :=
  let (islock, db) := match islock with
    | some islock => (some islock, db)
    | none => db.getInstantSendLockByHash hash
  match islock with
  | none => (db, batch)
  | some islock =>
    ({ db with
        islockCache := Function.update db.islockCache hash none
        txidCache := Function.update db.txidCache islock.txid none
        outpointCache := islock.inputs.foldl (fun c input => Function.update c input none)
          db.outpointCache },
      batch ++ [.eraseIslock hash, .eraseTxid islock.txid] ++ islock.inputs.map .eraseInput)

/-- `WriteInstantSendLockMined`. -/
def writeInstantSendLockMined (db : CInstantSendDb) (hash : uint256) (nHeight : Int) :
    CInstantSendDb :=
  { db with is_m := assign ⟨nHeight, hash⟩ true db.is_m }

/-- `RemoveInstantSendLockMined`. -/
def removeInstantSendLockMined (db : CInstantSendDb) (hash : uint256) (nHeight : Int) :
    CInstantSendDb :=
  { db with is_m := erase ⟨nHeight, hash⟩ db.is_m }

/-- `WriteInstantSendLockArchived`. -/
def writeInstantSendLockArchived (batch : List ISDbOp) (hash : uint256) (nHeight : Int) :
    List ISDbOp :=
  batch ++ [.writeArchived1 ⟨nHeight, hash⟩, .writeArchived2 hash]

/-- A round of the loop of `RemoveConfirmedInstantSendLocks` at one `is_m` key: the lock is removed
if there is one, archived, and the key erased. -/
def removeConfirmedStep (st : CInstantSendDb × List ISDbOp × List (uint256 × CInstantSendLock))
    (key : InversedISLockKey) : CInstantSendDb × List ISDbOp × List (uint256 × CInstantSendLock) :=
  let (db, batch, ret) := st
  let (islock, db) := db.getInstantSendLockByHash key.islockHash
  let (db, batch, ret) := match islock with
    | some islock =>
      let (db, batch) := db.removeInstantSendLock batch key.islockHash (some islock)
      (db, batch, if ret.any (·.1 == key.islockHash) then ret else ret ++ [(key.islockHash, islock)])
    | none => (db, batch, ret)
  (db, writeInstantSendLockArchived batch key.islockHash key.nHeight ++ [.eraseMined key], ret)

/-- `RemoveConfirmedInstantSendLocks`: the locks mined at or below `nUntilHeight`, in the order the
iterator visits their `is_m` keys, greater heights first. -/
def removeConfirmedInstantSendLocks (db : CInstantSendDb) (nUntilHeight : Int) :
    List (uint256 × CInstantSendLock) × CInstantSendDb :=
  let keys := (db.is_m.filter fun e => e.1.nHeight ≤ nUntilHeight).map (·.1)
  let (db, batch, ret) := keys.foldl removeConfirmedStep (db, [], [])
  (ret, db.writeBatch batch)

/-- `RemoveArchivedInstantSendLocks`. -/
def removeArchivedInstantSendLocks (db : CInstantSendDb) (nUntilHeight : Int) : CInstantSendDb :=
  let keys := (db.is_a1.filter fun e => e.1.nHeight ≤ nUntilHeight).map (·.1)
  db.writeBatch (keys.flatMap fun key => [.eraseArchived2 key.islockHash, .eraseArchived1 key])

/-- The state of the loop of `RemoveChainedInstantSendLocks`: the caches, the transactions still
to visit, those already added, the batch and the hashes removed. -/
structure ChainedLoop where
  db : CInstantSendDb
  stack : List uint256
  added : List uint256
  batch : List ISDbOp
  result : List uint256

/-- The loop over one parent's children in `RemoveChainedInstantSendLocks`. -/
def removeChildStep (nHeight : Int) (st : ChainedLoop) (childIslockHash : uint256) : ChainedLoop :=
  match st.db.getInstantSendLockByHash childIslockHash with
  | (none, db) => { st with db := db }
  | (some childIsLock, db) =>
    let (db, batch) := db.removeInstantSendLock st.batch childIslockHash (some childIsLock)
    let batch := writeInstantSendLockArchived batch childIslockHash nHeight
    let result := st.result ++ [childIslockHash]
    if childIsLock.txid ∈ st.added then { st with db := db, batch := batch, result := result }
    else
      { db := db, stack := st.stack ++ [childIsLock.txid], added := st.added ++ [childIsLock.txid],
        batch := batch, result := result }

/-- A round of the `while (!stack.empty())` loop: the children of the last transaction, read
from the table as it was before the batch. -/
def removeChainedRound (nHeight : Int) (st : ChainedLoop) : Option (ChainedLoop ⊕ ChainedLoop) :=
  match st.stack.getLast? with
  | none => some (.inr st)
  | some parent =>
    let children := st.db.getInstantSendLocksByParent parent
    some (.inl (children.foldl (removeChildStep nHeight) { st with stack := st.stack.dropLast }))

/-- `RemoveChainedInstantSendLocks`, its loop running at most `fuel` rounds. -/
def removeChainedInstantSendLocks (fuel : Nat) (db : CInstantSendDb) (islockHash txid : uint256)
    (nHeight : Int) : Option (List uint256 × CInstantSendDb) := do
  let st ← Loop.loop (removeChainedRound nHeight) fuel ⟨db, [txid], [], [], []⟩
  let (db, batch) := st.db.removeInstantSendLock st.batch islockHash none
  let batch := writeInstantSendLockArchived batch islockHash nHeight
  some (st.result ++ [islockHash], db.writeBatch batch)

end CInstantSendDb

/-! ## The manager's calls -/

/-- The database part of `CInstantSendManager::ProcessInstantSendLock`: the height of the block
the transaction is mined in, if the node has it (`pindexMined`), and whether that block has a
ChainLock. A known lock is skipped; a lock for a transaction or input that another lock has is
only logged, and written. -/
def processInstantSendLock (db : CInstantSendDb) (hash : uint256) (islock : CInstantSendLock)
    (pindexMined : Option Int) (hasChainLock : Bool) : CInstantSendDb :=
  if pindexMined.isSome && hasChainLock then db
  else
    let (known, db) := db.getInstantSendLockByHash hash
    if known.isSome then db
    else
      let (_, db) := db.getInstantSendLockByTxid islock.txid
      let db := islock.inputs.foldl (fun db input => (db.getInstantSendLockByInput input).2) db
      let db := db.writeNewInstantSendLock hash islock
      match pindexMined with
      | some nHeight => db.writeInstantSendLockMined hash nHeight
      | none => db

/-- The database part of `CInstantSendManager::SyncTransaction` for a transaction in the block at
`nHeight` (connected) or above it (disconnected): the mined entry of its lock. -/
def syncTransaction (db : CInstantSendDb) (txid : uint256) (nHeight : Int) (isDisconnect : Bool) :
    CInstantSendDb :=
  let (islockHash, db) := db.getInstantSendLockHashByTxid txid
  if islockHash.isNull then db
  else if isDisconnect then db.removeInstantSendLockMined islockHash (nHeight + 1)
  else db.writeInstantSendLockMined islockHash nHeight

/-- The database part of `CInstantSendManager::HandleFullyConfirmedBlock`. -/
def handleFullyConfirmedBlock (db : CInstantSendDb) (nHeight : Int) : CInstantSendDb :=
  let db := (db.removeConfirmedInstantSendLocks nHeight).2
  if nHeight > 100 then db.removeArchivedInstantSendLocks (nHeight - 100) else db

namespace InstantSendFixture

/-- A store with nothing in its tables or caches. -/
def emptyDb : CInstantSendDb :=
  ⟨fun _ => none, fun _ => none, [], [], [], fun _ => false, fun _ => none, fun _ => none,
    fun _ => none⟩

/-- Two locks for transaction 5 spending output 0 of transaction 7, with different signatures. -/
def lockA : CInstantSendLock := ⟨[⟨7, 0⟩], 5, [1]⟩
def lockB : CInstantSendLock := ⟨[⟨7, 0⟩], 5, [2]⟩

/-- Lock A (hash 1) arrives, then lock B (hash 2) for the same transaction; the transaction is
mined at height 10 and that block is fully confirmed. -/
def afterConfirmation : CInstantSendDb :=
  handleFullyConfirmedBlock
    (syncTransaction
      (processInstantSendLock (processInstantSendLock emptyDb 1 lockA none false) 2 lockB none false)
      5 10 false) 10

/-- Lock A stays stored, but neither the transaction nor its input finds it any more. -/
theorem duplicate_islock_unindexed :
    afterConfirmation.is_i 1 = some lockA ∧
      (afterConfirmation.getInstantSendLockByTxid lockA.txid).1 = none ∧
      (afterConfirmation.getInstantSendLockByInput ⟨7, 0⟩).1 = none := by
  decide

end InstantSendFixture

end Emrals
