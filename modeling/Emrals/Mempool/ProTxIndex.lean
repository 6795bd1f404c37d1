import Emrals.Special.BlockAborts
import Emrals.Lib.Machine

/-!
# The mempool's ProTx indexes

`CTxMemPool` indexes its provider transactions by what they claim
(`src/txmempool.cpp:404-516`). The indexes are the service address, the owner key, the operator
key's hash and the external collateral, each mapped to the claiming transaction, plus the
multimap `mapProTxRefs` of the transactions that refer to a masternode. `vTxHashes` lists every
entry once. `existsProviderTxConflict` reads the indexes to refuse a ProTx that claims what a
mempool transaction already claims. `addUnchecked` writes the indexes with `emplace`, and
`removeUnchecked` erases a removed transaction's keys.

`_clear`, which `BlockAssembler::CreateNewBlock` reaches through `mempool.clear()` when
`TestBlockValidity` fails, empties `mapTx` but only two of the indexes. The operator-key hashes,
the collaterals, `mapProTxRefs` and `vTxHashes` survive with no transaction behind them. So after a
clear the mempool refuses every ProRegTx whose operator key a cleared ProRegTx had
(`clear_keeps_operator_key`).
-/

namespace Emrals

/-- `std::map::emplace`: a key keeps the value it has. -/
def emplaceKey {K V : Type} [DecidableEq K] (k : K) (v : V) (m : AList (fun _ : K => V)) :
    AList (fun _ : K => V) :=
  if k ∈ m then m else m.insert k v

theorem mem_emplaceKey {K V : Type} [DecidableEq K] (k : K) (v : V) (m : AList (fun _ : K => V)) :
    k ∈ emplaceKey k v m := by
  unfold emplaceKey
  split
  · assumption
  · exact (AList.mem_insert _).2 (.inl rfl)

/-- A mempool entry: the transaction, its slot in `vTxHashes`, and what `addUnchecked` records
for a ProUpRegTx. -/
structure CTxMemPoolEntry where
  tx : CTransaction
  vTxHashesIdx : Nat
  validForProTxKey : uint256 := 0
  isKeyChangeProTx : Bool := false

/-- The part of `CTxMemPool` that the ProTx indexes read and write. `vTxHashes` holds the hashes
of the entries (the model has no witness data, so `GetWitnessHash` is the hash). -/
structure CTxMemPool where
  mapTx : AList (fun _ : uint256 => CTxMemPoolEntry) := ∅
  mapNextTx : AList (fun _ : COutPoint => uint256) := ∅
  vTxHashes : List uint256 := []
  mapProTxRefs : List (uint256 × uint256) := []
  mapProTxAddresses : AList (fun _ : CService => uint256) := ∅
  mapProTxPubKeyIDs : AList (fun _ : CKeyID => uint256) := ∅
  mapProTxBlsPubKeyHashes : AList (fun _ : uint256 => uint256) := ∅
  mapProTxCollaterals : AList (fun _ : COutPoint => uint256) := ∅

namespace CTxMemPool

section
variable (KeyHash : CBLSPublicKey → uint256) (tipList : CDeterministicMNList)

/-- The ProTx part of `addUnchecked`; the payload was checked, so a missing one fails
`assert(ok)`, and a ProUpRegTx's masternode must be in the tip's list (`assert(dmn)`). -/
def addProTxIndexes (pool : CTxMemPool) (tx : CTransaction) : Option CTxMemPool :=
  if tx.nType = TRANSACTION_PROVIDER_REGISTER then do
    let proTx ← tx.getProRegTx
    let external := !proTx.collateralOutpoint.hash.isNull
    some { pool with
      mapProTxRefs := if external then pool.mapProTxRefs ++ [(tx.hash, proTx.collateralOutpoint.hash)]
        else pool.mapProTxRefs
      mapProTxAddresses := emplaceKey proTx.addr tx.hash pool.mapProTxAddresses
      mapProTxPubKeyIDs := emplaceKey proTx.keyIDOwner tx.hash pool.mapProTxPubKeyIDs
      mapProTxBlsPubKeyHashes :=
        emplaceKey (KeyHash proTx.pubKeyOperator) tx.hash pool.mapProTxBlsPubKeyHashes
      mapProTxCollaterals := if external then
          emplaceKey proTx.collateralOutpoint tx.hash pool.mapProTxCollaterals
        else pool.mapProTxCollaterals }
  else if tx.nType = TRANSACTION_PROVIDER_UPDATE_SERVICE then do
    let proTx ← tx.getProUpServTx
    some { pool with
      mapProTxRefs := pool.mapProTxRefs ++ [(proTx.proTxHash, tx.hash)]
      mapProTxAddresses := emplaceKey proTx.addr tx.hash pool.mapProTxAddresses }
  else if tx.nType = TRANSACTION_PROVIDER_UPDATE_REGISTRAR then do
    let proTx ← tx.getProUpRegTx
    let dmn ← tipList.getMN proTx.proTxHash
    let entry ← pool.mapTx.lookup tx.hash
    some { pool with
      mapProTxRefs := pool.mapProTxRefs ++ [(proTx.proTxHash, tx.hash)]
      mapProTxBlsPubKeyHashes :=
        emplaceKey (KeyHash proTx.pubKeyOperator) tx.hash pool.mapProTxBlsPubKeyHashes
      mapTx := pool.mapTx.insert tx.hash { entry with
        validForProTxKey := KeyHash dmn.pdmnState.pubKeyOperator
        isKeyChangeProTx := entry.isKeyChangeProTx ||
          decide (dmn.pdmnState.pubKeyOperator ≠ proTx.pubKeyOperator) } }
  else some pool

/-- `addUnchecked`: the entry, the spent outpoints, its slot in `vTxHashes`, then the ProTx
indexes. -/
def addUnchecked (pool : CTxMemPool) (tx : CTransaction) : Option CTxMemPool :=
  addProTxIndexes KeyHash tipList
    { pool with
      mapTx := pool.mapTx.insert tx.hash { tx, vTxHashesIdx := pool.vTxHashes.length }
      mapNextTx := tx.vin.foldl (fun m txin => emplaceKey txin.prevout tx.hash m) pool.mapNextTx
      vTxHashes := pool.vTxHashes ++ [tx.hash] } tx

end

/-- `eraseProTxRef`: every `(proTxHash, txHash)` pair of the multimap. -/
def eraseProTxRef (refs : List (uint256 × uint256)) (proTxHash txHash : uint256) :
    List (uint256 × uint256) :=
  refs.filter fun p => !(p.1 == proTxHash && p.2 == txHash)

section
variable (KeyHash : CBLSPublicKey → uint256)

/-- The ProTx part of `removeUnchecked`: the keys of the removed transaction are erased. -/
def removeProTxIndexes (pool : CTxMemPool) (tx : CTransaction) : Option CTxMemPool :=
  if tx.nType = TRANSACTION_PROVIDER_REGISTER then do
    let proTx ← tx.getProRegTx
    some { pool with
      mapProTxRefs := if !proTx.collateralOutpoint.isNull then
          eraseProTxRef pool.mapProTxRefs tx.hash proTx.collateralOutpoint.hash
        else pool.mapProTxRefs
      mapProTxAddresses := pool.mapProTxAddresses.erase proTx.addr
      mapProTxPubKeyIDs := pool.mapProTxPubKeyIDs.erase proTx.keyIDOwner
      mapProTxBlsPubKeyHashes := pool.mapProTxBlsPubKeyHashes.erase (KeyHash proTx.pubKeyOperator)
      mapProTxCollaterals := pool.mapProTxCollaterals.erase proTx.collateralOutpoint }
  else if tx.nType = TRANSACTION_PROVIDER_UPDATE_SERVICE then do
    let proTx ← tx.getProUpServTx
    some { pool with
      mapProTxRefs := eraseProTxRef pool.mapProTxRefs proTx.proTxHash tx.hash
      mapProTxAddresses := pool.mapProTxAddresses.erase proTx.addr }
  else if tx.nType = TRANSACTION_PROVIDER_UPDATE_REGISTRAR then do
    let proTx ← tx.getProUpRegTx
    some { pool with
      mapProTxRefs := eraseProTxRef pool.mapProTxRefs proTx.proTxHash tx.hash
      mapProTxBlsPubKeyHashes := pool.mapProTxBlsPubKeyHashes.erase (KeyHash proTx.pubKeyOperator) }
  else if tx.nType = TRANSACTION_PROVIDER_UPDATE_REVOKE then do
    let proTx ← tx.getProUpRevTx
    some { pool with mapProTxRefs := eraseProTxRef pool.mapProTxRefs proTx.proTxHash tx.hash }
  else some pool

/-- The `vTxHashes` half of `removeUnchecked`: the last slot moves into the removed one, and the
moved entry learns its new slot. -/
def removeVTxHash (pool : CTxMemPool) (idx : Nat) : CTxMemPool :=
  if 1 < pool.vTxHashes.length then
    let last := pool.vTxHashes.getLast?.getD 0
    { pool with
      vTxHashes := (pool.vTxHashes.set idx last).dropLast
      mapTx := match pool.mapTx.lookup last with
        | some e => pool.mapTx.insert last { e with vTxHashesIdx := idx }
        | none => pool.mapTx }
  else { pool with vTxHashes := [] }

/-- `removeUnchecked` of the entry of `hash`. -/
def removeUnchecked (pool : CTxMemPool) (hash : uint256) : Option CTxMemPool := do
  let entry ← pool.mapTx.lookup hash
  let pool := { pool with
    mapNextTx := entry.tx.vin.foldl (fun m txin => m.erase txin.prevout) pool.mapNextTx }
  let pool := removeVTxHash pool entry.vTxHashesIdx
  let pool ← removeProTxIndexes KeyHash pool entry.tx
  some { pool with mapTx := pool.mapTx.erase hash }

end

/-- `_clear`: `mapLinks`, `mapTx`, `mapNextTx`, `mapProTxAddresses` and `mapProTxPubKeyIDs` are
cleared; the other indexes and `vTxHashes` are left as they are. -/
def clear (pool : CTxMemPool) : CTxMemPool :=
  { pool with
    mapTx := ∅
    mapNextTx := ∅
    mapProTxAddresses := ∅
    mapProTxPubKeyIDs := ∅ }

section
variable (KeyHash : CBLSPublicKey → uint256) (tipList : CDeterministicMNList)

/-- `hasKeyChangeInMempool`: a transaction that refers to the masternode and changes its operator
key is in `mapTx`. -/
def hasKeyChangeInMempool (pool : CTxMemPool) (proTxHash : uint256) : Bool :=
  pool.mapProTxRefs.any fun p => p.1 == proTxHash &&
    match pool.mapTx.lookup p.2 with
    | some e => e.isKeyChangeProTx
    | none => false

/-- `existsProviderTxConflict`; a payload that does not decode, and a masternode missing from the
tip's list, count as conflicts. -/
def existsProviderTxConflict (pool : CTxMemPool) (tx : CTransaction) : Bool :=
  if tx.nType = TRANSACTION_PROVIDER_REGISTER then
    match tx.getProRegTx with
    | none => true
    | some proTx =>
      if proTx.addr ∈ pool.mapProTxAddresses ∨ proTx.keyIDOwner ∈ pool.mapProTxPubKeyIDs ∨
          KeyHash proTx.pubKeyOperator ∈ pool.mapProTxBlsPubKeyHashes then true
      else if !proTx.collateralOutpoint.hash.isNull then
        decide (proTx.collateralOutpoint ∈ pool.mapProTxCollaterals) ||
          decide (proTx.collateralOutpoint ∈ pool.mapNextTx)
      else false
  else if tx.nType = TRANSACTION_PROVIDER_UPDATE_SERVICE then
    match tx.getProUpServTx with
    | none => true
    | some proTx =>
      match pool.mapProTxAddresses.lookup proTx.addr with
      | some h => h != proTx.proTxHash
      | none => false
  else if tx.nType = TRANSACTION_PROVIDER_UPDATE_REGISTRAR then
    match tx.getProUpRegTx with
    | none => true
    | some proTx =>
      match tipList.getMN proTx.proTxHash with
      | none => true
      | some dmn =>
        if dmn.pdmnState.pubKeyOperator ≠ proTx.pubKeyOperator ∧
            hasKeyChangeInMempool pool proTx.proTxHash then true
        else match pool.mapProTxBlsPubKeyHashes.lookup (KeyHash proTx.pubKeyOperator) with
          | some h => h != proTx.proTxHash
          | none => false
  else if tx.nType = TRANSACTION_PROVIDER_UPDATE_REVOKE then
    match tx.getProUpRevTx with
    | none => true
    | some proTx =>
      match tipList.getMN proTx.proTxHash with
      | none => true
      | some dmn => dmn.pdmnState.pubKeyOperator ≠ none && hasKeyChangeInMempool pool proTx.proTxHash
  else false

/-- `AcceptToMemoryPool`'s guard: a transaction already in the pool, or a ProTx that conflicts
with one, is refused and leaves the pool as it is. -/
def accept (pool : CTxMemPool) (tx : CTransaction) : Option CTxMemPool :=
  if tx.hash ∈ pool.mapTx ∨ existsProviderTxConflict KeyHash tipList pool tx then some pool
  else addUnchecked KeyHash tipList pool tx

end

/-- The mempool operations that touch the ProTx indexes. -/
inductive MempoolEvent where
  | accept (tx : CTransaction)
  | removeUnchecked (hash : uint256)
  | clear

/-- One operation on the mempool. -/
def step (KeyHash : CBLSPublicKey → uint256) (tipList : CDeterministicMNList) (pool : CTxMemPool) :
    MempoolEvent → Option CTxMemPool
  | .accept tx => accept KeyHash tipList pool tx
  | .removeUnchecked hash => removeUnchecked KeyHash pool hash
  | .clear => some (clear pool)

section
variable {KeyHash : CBLSPublicKey → uint256} {tipList : CDeterministicMNList}

/-- `addUnchecked` of a ProRegTx succeeds and records its operator key's hash. -/
theorem addUnchecked_register {pool : CTxMemPool} {tx : CTransaction} {p : CProRegTx}
    (htype : tx.nType = TRANSACTION_PROVIDER_REGISTER) (hp : tx.getProRegTx = some p) :
    ∃ pool', addUnchecked KeyHash tipList pool tx = some pool' ∧
      KeyHash p.pubKeyOperator ∈ pool'.mapProTxBlsPubKeyHashes ∧
      pool'.vTxHashes = pool.vTxHashes ++ [tx.hash] := by
  refine ⟨_, by simp [addUnchecked, addProTxIndexes, htype, hp]; rfl, ?_, rfl⟩
  exact mem_emplaceKey _ _ _

/-- A ProRegTx whose operator key's hash is indexed conflicts with the pool, whatever `mapTx`
holds. -/
theorem existsProviderTxConflict_of_keyHash_mem {pool : CTxMemPool} {tx : CTransaction}
    {p : CProRegTx} (htype : tx.nType = TRANSACTION_PROVIDER_REGISTER)
    (hp : tx.getProRegTx = some p) (hmem : KeyHash p.pubKeyOperator ∈ pool.mapProTxBlsPubKeyHashes) :
    existsProviderTxConflict KeyHash tipList pool tx = true := by
  simp [existsProviderTxConflict, htype, hp, hmem]

/-- After a ProRegTx was added, `clear` empties `mapTx` but keeps the transaction's slot in
`vTxHashes`, and every ProRegTx with the same operator key conflicts with the empty pool. -/
theorem clear_keeps_operator_key {pool pool' : CTxMemPool} {tx : CTransaction} {p : CProRegTx}
    (htype : tx.nType = TRANSACTION_PROVIDER_REGISTER) (hp : tx.getProRegTx = some p)
    (hadd : addUnchecked KeyHash tipList pool tx = some pool') :
    (clear pool').mapTx = ∅ ∧ tx.hash ∈ (clear pool').vTxHashes ∧
      ∀ tx' p', tx'.nType = TRANSACTION_PROVIDER_REGISTER → tx'.getProRegTx = some p' →
        KeyHash p'.pubKeyOperator = KeyHash p.pubKeyOperator →
        existsProviderTxConflict KeyHash tipList (clear pool') tx' = true := by
  obtain ⟨pool'', hadd', hkey, hv⟩ := @addUnchecked_register KeyHash tipList pool tx p htype hp
  obtain rfl : pool'' = pool' := Option.some.inj (hadd'.symm.trans hadd)
  refine ⟨rfl, by simp [clear, hv], ?_⟩
  intro tx' p' htype' hp' hsame
  apply existsProviderTxConflict_of_keyHash_mem htype' hp'
  rw [hsame]
  exact hkey

end

end CTxMemPool

namespace MempoolFixture

open CTxMemPool

/-- A ProRegTx with the external collateral `100:0` and the operator key `1`. -/
def regTx : CTransaction := BlockAbortsFixture.proRegTx 1 ⟨100, 0⟩ 1 1 11 1

/-- The empty mempool accepts `regTx`. A failed `TestBlockValidity` then clears the pool, which
leaves `mapTx` empty but keeps `regTx`'s slot in `vTxHashes` and its operator key's hash; the
empty pool now refuses `regTx` itself, and every ProRegTx with that operator key, as a conflict. -/
theorem clear_leaves_stale_indexes (KeyHash : CBLSPublicKey → uint256)
    (tipList : CDeterministicMNList) :
    existsProviderTxConflict KeyHash tipList {} regTx = false ∧
    ∃ pool, Machine.run (step KeyHash tipList) {} [.accept regTx, .clear] = some pool ∧
      pool.mapTx = ∅ ∧ regTx.hash ∈ pool.vTxHashes ∧
      existsProviderTxConflict KeyHash tipList pool regTx = true := by
  have htype : regTx.nType = TRANSACTION_PROVIDER_REGISTER := rfl
  have hp : regTx.getProRegTx = some _ := rfl
  have hfree : existsProviderTxConflict KeyHash tipList {} regTx = false := by
    simp [existsProviderTxConflict, htype, hp]
  obtain ⟨pool, hadd, -, -⟩ := @addUnchecked_register KeyHash tipList {} regTx _ htype hp
  obtain ⟨hmapTx, hslot, hconflict⟩ := clear_keeps_operator_key htype hp hadd
  refine ⟨hfree, clear pool, ?_, hmapTx, hslot, hconflict regTx _ htype hp rfl⟩
  simp [step, accept, hfree, hadd]

end MempoolFixture

end Emrals
