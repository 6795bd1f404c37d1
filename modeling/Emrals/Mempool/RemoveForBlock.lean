import Emrals.Mempool.ProTxIndex

/-!
# Removing a connected block's transactions and conflicts from the mempool

`CTxMemPool::removeForBlock` (`src/txmempool.cpp:774-802`) runs when `ConnectTip` has connected a
block. For every transaction of the block it removes the transaction itself, the mempool
transactions that spend one of its inputs (`removeConflicts`), and the provider transactions it
invalidates (`removeProTxConflicts`):

- for every input, the references to the masternode whose collateral it spends, looked up in
  `mapProTxCollaterals` for a ProRegTx of the pool and in the tip's list for a mined masternode
  (`removeProTxSpentCollateralConflicts`);
- for a ProRegTx, ProUpServTx or ProUpRegTx, the pool's transaction that claims the same address,
  owner key, operator key or collateral (`removeIndexConflict`);
- for a ProUpRegTx or ProUpRevTx, the pool's updates of its masternode that were made for another
  operator key (`removeProTxKeyChangedConflicts`).

A removal takes the transaction's descendants with it (`removeRecursive`). The descendants are the
closure of the transaction under `GetMemPoolChildren`, which the model reads off `mapNextTx`.

`addUnchecked` records a ProRegTx with an external collateral in `mapProTxRefs` under its own
hash, with the collateral's transaction as the referring one. When a block spends that
collateral, the loop over the references finds that entry, does not find the collateral's
transaction in the pool, and only drops the entry: the ProRegTx stays
(`MempoolFixture.spent_collateral_keeps_proRegTx`).
-/

namespace Emrals

namespace CTxMemPool

section
variable (KeyHash : CBLSPublicKey → uint256)

/-- `GetMemPoolChildren`: the pool's transactions that spend an output of the transaction
`hash`. -/
def children (pool : CTxMemPool) (hash : uint256) : List uint256 :=
  pool.mapNextTx.entries.filterMap fun e => if e.1.hash = hash then some e.2 else none

/-- One round of `CalculateDescendants`: the children of the set join it. -/
def addChildren (pool : CTxMemPool) (s : List uint256) : List uint256 :=
  (s.flatMap (children pool)).foldl (fun acc h => if h ∈ acc then acc else acc ++ [h]) s

/-- `CalculateDescendants` of a set of the pool's transactions: the closure under children.
Every round that does not close the set adds a transaction of the pool to it, so as many rounds
as the pool has transactions close it. -/
def calculateDescendants (pool : CTxMemPool) (s : List uint256) : List uint256 :=
  (addChildren pool)^[pool.mapTx.entries.length] s

/-- `RemoveStaged`: `removeUnchecked` of every transaction of the set. -/
def removeStaged (pool : CTxMemPool) (stage : List uint256) : Option CTxMemPool :=
  stage.foldlM (removeUnchecked KeyHash) pool

/-- `removeRecursive`: the transaction and its descendants, or, for a transaction not in the pool,
the pool's transactions that spend its outputs and their descendants. -/
def removeRecursive (pool : CTxMemPool) (origTx : CTransaction) : Option CTxMemPool :=
  let txToRemove := if origTx.hash ∈ pool.mapTx then [origTx.hash]
    else (List.range origTx.vout.length).filterMap fun i =>
      pool.mapNextTx.lookup ⟨origTx.hash, i.toUInt32⟩
  removeStaged KeyHash pool (calculateDescendants pool txToRemove.dedup)

/-- `removeConflicts`: the pool's transactions that spend an input of `tx`, other than `tx`. -/
def removeConflicts (pool : CTxMemPool) (tx : CTransaction) : Option CTxMemPool :=
  tx.vin.foldlM (fun pool txin =>
    match pool.mapNextTx.lookup txin.prevout with
    | none => some pool
    | some conflictHash =>
      if conflictHash = tx.hash then some pool else do
        let conflict ← pool.mapTx.lookup conflictHash
        removeRecursive KeyHash pool conflict.tx) pool

/-- The loop of `removeSpentCollateralConflict` over the references to the masternode
`proTxHash`: a reference to a transaction of the pool removes it and its descendants, and a
reference to a transaction that is not in the pool is dropped. Every round drops a reference or
removes a transaction of the pool, after which its reference is dropped, so twice the number of
references, and one, is fuel enough. -/
def removeSpentCollateralConflict (proTxHash : uint256) : Nat → CTxMemPool → Option CTxMemPool
  | 0, pool => some pool
  | fuel + 1, pool =>
    match pool.mapProTxRefs.find? (·.1 == proTxHash) with
    | none => some pool
    | some ref =>
      match pool.mapTx.lookup ref.2 with
      | some conflict => do
        let pool ← removeRecursive KeyHash pool conflict.tx
        removeSpentCollateralConflict proTxHash fuel pool
      | none =>
        -- "Should not happen as we track referencing TXs": the reference alone is dropped
        removeSpentCollateralConflict proTxHash fuel
          { pool with mapProTxRefs := pool.mapProTxRefs.erase ref }

/-- `removeSpentCollateralConflict` with its fuel. -/
def removeSpentCollateralConflicts (pool : CTxMemPool) (proTxHash : uint256) :
    Option CTxMemPool :=
  removeSpentCollateralConflict KeyHash proTxHash (2 * pool.mapProTxRefs.length + 1) pool

/-- The loop of `removeSpentCollateralConflict` over the references to the masternode found, if
one is. -/
def removeSpentCollateralConflictsOf (pool : CTxMemPool) : Option uint256 → Option CTxMemPool
  | some proTxHash => removeSpentCollateralConflicts KeyHash pool proTxHash
  | none => some pool

/-- The pools that differ from `pool` only by references it had and they dropped. -/
def DropsRefs (pool s : CTxMemPool) : Prop :=
  ∃ refs, refs ⊆ pool.mapProTxRefs ∧ s = { pool with mapProTxRefs := refs }

theorem DropsRefs.refl (pool : CTxMemPool) : DropsRefs pool pool :=
  ⟨pool.mapProTxRefs, List.Subset.refl _, rfl⟩

theorem DropsRefs.trans {pool s t : CTxMemPool} (hs : DropsRefs pool s) (ht : DropsRefs s t) :
    DropsRefs pool t := by
  obtain ⟨refs, hsub, rfl⟩ := hs
  obtain ⟨refs', hsub', rfl⟩ := ht
  exact ⟨refs', fun r hr => hsub (hsub' hr), rfl⟩

/-- Dropping references keeps the pool's references pointing outside it. -/
theorem DropsRefs.stale {pool s : CTxMemPool} (hs : DropsRefs pool s)
    (hstale : ∀ ref ∈ pool.mapProTxRefs, ref.2 ∉ pool.mapTx) :
    ∀ ref ∈ s.mapProTxRefs, ref.2 ∉ s.mapTx := by
  obtain ⟨refs, hsub, rfl⟩ := hs
  exact fun ref hr => hstale ref (hsub hr)

/-- A reference to a transaction that is not in the pool is only dropped: when no reference of the
pool points to one of its transactions, the loop drops references and changes nothing else. -/
theorem removeSpentCollateralConflict_stale (proTxHash : uint256) :
    ∀ (fuel : Nat) (pool : CTxMemPool), (∀ ref ∈ pool.mapProTxRefs, ref.2 ∉ pool.mapTx) →
      ∃ s, removeSpentCollateralConflict KeyHash proTxHash fuel pool = some s ∧ DropsRefs pool s
  | 0, pool, _ => ⟨pool, rfl, .refl pool⟩
  | fuel + 1, pool, hstale => by
    rw [removeSpentCollateralConflict]
    cases hf : pool.mapProTxRefs.find? (·.1 == proTxHash) with
    | none => exact ⟨pool, rfl, .refl pool⟩
    | some ref =>
      have hlookup : pool.mapTx.lookup ref.2 = none :=
        AList.lookup_eq_none.2 (hstale ref (List.mem_of_find?_eq_some hf))
      simp only [hlookup]
      have herase : DropsRefs pool { pool with mapProTxRefs := pool.mapProTxRefs.erase ref } :=
        ⟨_, fun _ => List.mem_of_mem_erase, rfl⟩
      obtain ⟨s, hs, hdrop⟩ := removeSpentCollateralConflict_stale proTxHash fuel _
        (herase.stale hstale)
      exact ⟨s, hs, herase.trans hdrop⟩

/-- `removeSpentCollateralConflicts` of a pool whose references all point outside it. -/
theorem removeSpentCollateralConflicts_stale {pool : CTxMemPool} (proTxHash : uint256)
    (hstale : ∀ ref ∈ pool.mapProTxRefs, ref.2 ∉ pool.mapTx) :
    ∃ s, removeSpentCollateralConflicts KeyHash pool proTxHash = some s ∧ DropsRefs pool s :=
  removeSpentCollateralConflict_stale KeyHash proTxHash _ pool hstale

theorem removeSpentCollateralConflictsOf_stale {pool : CTxMemPool}
    (hstale : ∀ ref ∈ pool.mapProTxRefs, ref.2 ∉ pool.mapTx) :
    ∀ o, ∃ s, removeSpentCollateralConflictsOf KeyHash pool o = some s ∧ DropsRefs pool s
  | some proTxHash => removeSpentCollateralConflicts_stale KeyHash proTxHash hstale
  | none => ⟨pool, rfl, .refl pool⟩

/-- `removeConflicts` of a transaction whose inputs no transaction of the pool spends. -/
theorem removeConflicts_of_unspent {pool : CTxMemPool} {tx : CTransaction}
    (h : ∀ txin ∈ tx.vin, pool.mapNextTx.lookup txin.prevout = none) :
    removeConflicts KeyHash pool tx = some pool :=
  Fallible.foldlM_option_of_fixed fun txin htxin => by simp only [h txin htxin]

variable (SerializeHash : UniqueProperty → uint256) (tipList : CDeterministicMNList)

/-- `removeProTxSpentCollateralConflicts`: for every input of `tx`, the references to the
not yet mined ProRegTx of the pool whose collateral it spends, and to the mined masternode of the
tip's list whose collateral it spends. -/
def removeProTxSpentCollateralConflicts (pool : CTxMemPool) (tx : CTransaction) :
    Option CTxMemPool :=
  tx.vin.foldlM (fun pool txin => do
    let pool ← removeSpentCollateralConflictsOf KeyHash pool
      (pool.mapProTxCollaterals.lookup txin.prevout)
    removeSpentCollateralConflictsOf KeyHash pool
      ((tipList.getMNByCollateral SerializeHash txin.prevout).map (·.proTxHash))) pool

/-- When no reference of the pool points to one of its transactions, the collateral loops of a
transaction remove none of them. -/
theorem removeProTxSpentCollateralConflicts_stale {pool : CTxMemPool} (tx : CTransaction)
    (hstale : ∀ ref ∈ pool.mapProTxRefs, ref.2 ∉ pool.mapTx) :
    ∃ s, removeProTxSpentCollateralConflicts KeyHash SerializeHash tipList pool tx = some s ∧
      DropsRefs pool s := by
  apply Fallible.foldlM_option_isSome _ (.refl pool)
  intro s txin _ hs
  -- the input's not yet mined ProRegTx, then its mined masternode
  obtain ⟨s₁, hs₁, hdrop₁⟩ :=
    removeSpentCollateralConflictsOf_stale KeyHash (hs.stale hstale)
      (s.mapProTxCollaterals.lookup txin.prevout)
  obtain ⟨s₂, hs₂, hdrop₂⟩ :=
    removeSpentCollateralConflictsOf_stale KeyHash ((hs.trans hdrop₁).stale hstale)
      ((tipList.getMNByCollateral SerializeHash txin.prevout).map (·.proTxHash))
  exact ⟨s₂, by simp only [hs₁, Option.bind_eq_bind, Option.bind_some, hs₂],
    hs.trans (hdrop₁.trans hdrop₂)⟩

/-- The conflict removal that the index maps share: the transaction that the index `index` of
the pool holds for `k`, when it is another transaction of the pool, goes with its descendants. -/
def removeIndexConflict {K : Type} [DecidableEq K]
    (index : CTxMemPool → AList (fun _ : K => uint256)) (pool : CTxMemPool) (tx : CTransaction)
    (k : K) : Option CTxMemPool :=
  match (index pool).lookup k with
  | none => some pool
  | some conflictHash =>
    if conflictHash = tx.hash then some pool
    else match pool.mapTx.lookup conflictHash with
      | some conflict => removeRecursive KeyHash pool conflict.tx
      | none => some pool

/-- The address conflict of `removeProTxConflicts`. -/
def removeProTxAddressConflicts (pool : CTxMemPool) (tx : CTransaction) (addr : CService) :
    Option CTxMemPool :=
  removeIndexConflict KeyHash (·.mapProTxAddresses) pool tx addr

/-- `removeProTxPubKeyConflicts` of an owner key. -/
def removeProTxPubKeyIDConflicts (pool : CTxMemPool) (tx : CTransaction) (keyId : CKeyID) :
    Option CTxMemPool :=
  removeIndexConflict KeyHash (·.mapProTxPubKeyIDs) pool tx keyId

/-- `removeProTxPubKeyConflicts` of an operator key, by its hash. -/
def removeProTxBlsPubKeyConflicts (pool : CTxMemPool) (tx : CTransaction)
    (pubKey : CBLSPublicKey) : Option CTxMemPool :=
  removeIndexConflict KeyHash (·.mapProTxBlsPubKeyHashes) pool tx (KeyHash pubKey)

/-- `removeProTxCollateralConflicts`. -/
def removeProTxCollateralConflicts (pool : CTxMemPool) (tx : CTransaction)
    (collateralOutpoint : COutPoint) : Option CTxMemPool :=
  removeIndexConflict KeyHash (·.mapProTxCollaterals) pool tx collateralOutpoint

/-- `removeProTxKeyChangedConflicts`: the pool's transactions that refer to the masternode and
were made for another operator key, in the order of their hashes. `none` where one of them is no
longer in the pool when its turn comes. -/
def removeProTxKeyChangedConflicts (pool : CTxMemPool) (proTxHash newKeyHash : uint256) :
    Option CTxMemPool :=
  let conflictingTxs := ((pool.mapProTxRefs.filter (·.1 == proTxHash)).filterMap fun ref =>
      match pool.mapTx.lookup ref.2 with
      | some e => if e.validForProTxKey ≠ newKeyHash then some e.tx.hash else none
      | none => none).dedup.insertionSort fun a b => ¬b < a
  conflictingTxs.foldlM (fun pool txHash => do
    let conflict ← pool.mapTx.lookup txHash
    removeRecursive KeyHash pool conflict.tx) pool

/-- `removeProTxConflicts`. A payload that does not decode ends it. -/
def removeProTxConflicts (pool : CTxMemPool) (tx : CTransaction) : Option CTxMemPool := do
  let pool ← removeProTxSpentCollateralConflicts KeyHash SerializeHash tipList pool tx
  if tx.nType = TRANSACTION_PROVIDER_REGISTER then
    match tx.getProRegTx with
    | none => some pool
    | some proTx => do
      let pool ← removeProTxAddressConflicts KeyHash pool tx proTx.addr
      let pool ← removeProTxPubKeyIDConflicts KeyHash pool tx proTx.keyIDOwner
      let pool ← removeProTxBlsPubKeyConflicts KeyHash pool tx proTx.pubKeyOperator
      if !proTx.collateralOutpoint.hash.isNull then
        removeProTxCollateralConflicts KeyHash pool tx proTx.collateralOutpoint
      else some pool
  else if tx.nType = TRANSACTION_PROVIDER_UPDATE_SERVICE then
    match tx.getProUpServTx with
    | none => some pool
    | some proTx => removeProTxAddressConflicts KeyHash pool tx proTx.addr
  else if tx.nType = TRANSACTION_PROVIDER_UPDATE_REGISTRAR then
    match tx.getProUpRegTx with
    | none => some pool
    | some proTx => do
      let pool ← removeProTxBlsPubKeyConflicts KeyHash pool tx proTx.pubKeyOperator
      removeProTxKeyChangedConflicts KeyHash pool proTx.proTxHash (KeyHash proTx.pubKeyOperator)
  else if tx.nType = TRANSACTION_PROVIDER_UPDATE_REVOKE then
    match tx.getProUpRevTx with
    | none => some pool
    -- the revoked masternode has the null operator key `CBLSPublicKey()`
    | some proTx => removeProTxKeyChangedConflicts KeyHash pool proTx.proTxHash (KeyHash none)
  else some pool

/-- `removeForBlock` of the block's transactions `vtx`: each leaves the pool, then its conflicts
and the provider transactions it invalidates do. -/
def removeForBlock (pool : CTxMemPool) (vtx : List CTransaction) : Option CTxMemPool :=
  vtx.foldlM (fun pool tx => do
    let pool ← if tx.hash ∈ pool.mapTx then removeStaged KeyHash pool [tx.hash] else some pool
    let pool ← removeConflicts KeyHash pool tx
    removeProTxConflicts KeyHash SerializeHash tipList pool tx) pool

/-- `removeProTxConflicts` of a normal transaction is its collateral loops. -/
theorem removeProTxConflicts_normal {pool : CTxMemPool} {tx : CTransaction}
    (h : tx.nType = TRANSACTION_NORMAL) :
    removeProTxConflicts KeyHash SerializeHash tipList pool tx =
      removeProTxSpentCollateralConflicts KeyHash SerializeHash tipList pool tx := by
  simp [removeProTxConflicts, h, TRANSACTION_NORMAL, TRANSACTION_PROVIDER_REGISTER,
    TRANSACTION_PROVIDER_UPDATE_SERVICE, TRANSACTION_PROVIDER_UPDATE_REGISTRAR,
    TRANSACTION_PROVIDER_UPDATE_REVOKE]

end

end CTxMemPool

namespace MempoolFixture

open CTxMemPool

/-- A normal transaction that spends `regTx`'s collateral `100:0`. -/
def collateralSpend : CTransaction := BlockAbortsFixture.spendTx 5 ⟨100, 0⟩

/-- The pool that has accepted `regTx`. -/
def regPool (KeyHash : CBLSPublicKey → uint256) (tipList : CDeterministicMNList) : CTxMemPool :=
  (Machine.run (step KeyHash tipList) {} [.accept regTx]).getD {}

/-- Failing input: the empty pool accepts the ProRegTx `regTx`, whose collateral `100:0` lies
outside the pool; a block then spends the collateral. `removeForBlock` finds `regTx` through
`mapProTxCollaterals`, but its only reference points to the collateral's transaction, so the
loop drops the reference and `regTx` stays in the pool, whatever the tip's list. -/
theorem spent_collateral_keeps_proRegTx (KeyHash : CBLSPublicKey → uint256)
    (SerializeHash : UniqueProperty → uint256) (tipList : CDeterministicMNList) :
    Machine.run (step KeyHash tipList) {} [.accept regTx] = some (regPool KeyHash tipList) ∧
      (regTx.nType = TRANSACTION_PROVIDER_REGISTER ∧ ∃ p, regTx.getProRegTx = some p ∧
        p.collateralOutpoint.hash.isNull = false ∧
        ∃ txin ∈ collateralSpend.vin, txin.prevout = p.collateralOutpoint) ∧
      ∃ pool', removeForBlock KeyHash SerializeHash tipList (regPool KeyHash tipList)
        [collateralSpend] = some pool' ∧ regTx.hash ∈ pool'.mapTx := by
  refine ⟨rfl, ⟨rfl, _, rfl, rfl, _, List.mem_singleton_self _, rfl⟩, ?_⟩
  have hkeys : (regPool KeyHash tipList).mapTx.keys = [1] := rfl
  have hspend : collateralSpend.hash ∉ (regPool KeyHash tipList).mapTx := by
    rw [AList.mem_keys, hkeys]
    decide
  -- `regTx`'s reference points to the collateral's transaction `100`, which is not in the pool
  have hstale : ∀ ref ∈ (regPool KeyHash tipList).mapProTxRefs,
      ref.2 ∉ (regPool KeyHash tipList).mapTx := by
    rw [show (regPool KeyHash tipList).mapProTxRefs = [(1, 100)] from rfl]
    simp only [List.mem_singleton, forall_eq]
    rw [AList.mem_keys, hkeys]
    decide
  have hunspent : removeConflicts KeyHash (regPool KeyHash tipList) collateralSpend =
      some (regPool KeyHash tipList) :=
    removeConflicts_of_unspent KeyHash fun txin htxin => by
      rw [List.mem_singleton.1 htxin]
      rfl
  obtain ⟨pool', hpool', refs, -, rfl⟩ :=
    removeProTxSpentCollateralConflicts_stale KeyHash SerializeHash tipList collateralSpend hstale
  have hnormal := @removeProTxConflicts_normal KeyHash SerializeHash tipList
    (regPool KeyHash tipList) collateralSpend rfl
  refine ⟨{ regPool KeyHash tipList with mapProTxRefs := refs }, ?_, ?_⟩
  · simp [removeForBlock, hspend, hunspent, hnormal, hpool']
  · rw [AList.mem_keys]
    exact hkeys ▸ List.mem_singleton_self _

end MempoolFixture

end Emrals
