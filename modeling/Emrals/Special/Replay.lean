import Emrals.Special.BuildSpec
import Emrals.Special.Manager

/-!
# Replaying the diff of a block

`ProcessBlock` stores `oldList.BuildDiff(newList)` for every block, and `GetListForBlock`
rebuilds lists by `ApplyDiff` of the stored diffs. `ApplyDiff` gives each added masternode the
running counter as its internal id, and asserts that the masternode already carries that id
(`applyAddition`): a replay reproduces the counter of a block's list only if every ProRegTx of
the block is still in that list as an added masternode.

That fails for a block in which a ProRegTx takes over the external collateral of a ProRegTx
earlier in the same block: `BuildNewListFromBlock` removes the first masternode and keeps the
internal id it consumed, so the added masternodes of the diff skip an id, which a successful
replay never does (`applyDiff_eq_some`). On a concrete chain the manager accepts such a block, and the
next `GetListForBlock` of it, which the next block's `ProcessBlock` makes, fails the assertion
(`ReplayFixture.processBlock_aborts_after_collateral_takeover`).
-/

namespace Emrals

open CDeterministicMNList CDeterministicMNManager

namespace CDeterministicMNList

variable {SerializeHash : UniqueProperty → uint256} {l l' : CDeterministicMNList}

theorem applyRemoval_sameHeader {internalId : UInt64}
    (h : l.applyRemoval SerializeHash internalId = some l') : SameHeader l l' := by
  obtain ⟨dmn, -, h⟩ := Option.bind_eq_some_iff.1 h
  exact removeMN_sameHeader h

theorem applyUpdate_sameHeader {p : UInt64 × CDeterministicMNStateDiff}
    (h : l.applyUpdate SerializeHash p = some l') : SameHeader l l' :=
  updateMNByDiff_sameHeader h

/-- An addition is replayed only for the masternode that carries the running counter as its
internal id, and advances the counter. -/
theorem applyAddition_eq_some {dmn : CDeterministicMN}
    (h : l.applyAddition SerializeHash dmn = some l') :
    dmn.internalId = l.nTotalRegisteredCount.toUInt64 ∧
      SameHeader { l with nTotalRegisteredCount := l.nTotalRegisteredCount + 1 } l' := by
  unfold applyAddition at h
  split at h
  · next hid =>
    obtain ⟨l₁, h₁, h⟩ := Option.bind_eq_some_iff.1 h
    cases h
    obtain ⟨hb, hh, hc⟩ := addMN_sameHeader h₁
    exact ⟨hid, hb, hh, by simp [hc]⟩
  · cases h

/-- The counter one past `c` and then advanced by `i` is `c` advanced by `i + 1`. -/
theorem uint32_add_one_add_ofNat (c : UInt32) (i : Nat) :
    c + 1 + UInt32.ofNat i = c + UInt32.ofNat (i + 1) := by
  rw [UInt32.ofNat_add, UInt32.ofNat_one, UInt32.add_assoc, UInt32.add_comm 1]

/-- The additions of a diff replay only in the order of their internal ids, which must run
through the counter upwards; the counter advances by their number. -/
theorem applyAdditions_eq_some : ∀ {dmns : List CDeterministicMN} {l l' : CDeterministicMNList},
    dmns.foldlM (applyAddition SerializeHash) l = some l' →
    (∀ (i : Nat) (hi : i < dmns.length),
      dmns[i].internalId = (l.nTotalRegisteredCount + UInt32.ofNat i).toUInt64) ∧
    SameHeader { l with nTotalRegisteredCount :=
      l.nTotalRegisteredCount + UInt32.ofNat dmns.length } l'
  | [], l, l', h => by
    cases h
    exact ⟨fun i hi => absurd hi (Nat.not_lt_zero i), rfl, rfl, by simp⟩
  | dmn :: dmns, l, l', h => by
    obtain ⟨l₁, h₁, hrest⟩ := Fallible.foldlM_option_cons_eq_some h
    obtain ⟨hid, hb₁, hh₁, hc₁⟩ := applyAddition_eq_some h₁
    obtain ⟨hids, hb, hh, hc⟩ := applyAdditions_eq_some hrest
    -- the counter after the first addition is one more than before
    have hc₁' : l₁.nTotalRegisteredCount = l.nTotalRegisteredCount + 1 := hc₁
    refine ⟨fun i hi => ?_, hb.trans hb₁, hh.trans hh₁, ?_⟩
    · cases i with
      | zero => simpa using hid
      | succ i =>
        rw [List.getElem_cons_succ, hids i (by simpa using hi), hc₁', uint32_add_one_add_ofNat]
    · rw [hc, hc₁', List.length_cons, uint32_add_one_add_ofNat]

/-- A successful `ApplyDiff` found every added masternode carrying the running counter as its
internal id, in the order of the diff, so that the ids run from the counter upwards without a gap;
it moves the list to the given block and advances the counter by the number of additions. -/
theorem applyDiff_eq_some {blockHash : uint256} {nHeight : Int} {diff : CDeterministicMNListDiff}
    {r : CDeterministicMNList} (h : l.applyDiff SerializeHash blockHash nHeight diff = some r) :
    (∀ (i : Nat) (hi : i < diff.addedMNs.length),
      diff.addedMNs[i].internalId = (l.nTotalRegisteredCount + UInt32.ofNat i).toUInt64) ∧
    r.blockHash = blockHash ∧ r.nHeight = nHeight ∧
      r.nTotalRegisteredCount = l.nTotalRegisteredCount + UInt32.ofNat diff.addedMNs.length := by
  obtain ⟨r₁, h₁, h⟩ := Option.bind_eq_some_iff.1 h
  obtain ⟨r₂, h₂, h₃⟩ := Option.bind_eq_some_iff.1 h
  -- the removals and the updates keep the header, the additions advance the counter
  have hrem : SameHeader { l with blockHash := blockHash, nHeight := nHeight } r₁ :=
    Fallible.foldlM_option_inv
      (P := SameHeader { l with blockHash := blockHash, nHeight := nHeight })
      (fun _ _ _ hs hstep => hs.trans (applyRemoval_sameHeader hstep)) (.refl _) h₁
  have hupd : SameHeader r₂ r :=
    Fallible.foldlM_option_inv (P := SameHeader r₂)
      (fun _ _ _ hs hstep => hs.trans (applyUpdate_sameHeader hstep)) (.refl _) h₃
  obtain ⟨hids, hb, hh, hc⟩ := applyAdditions_eq_some h₂
  refine ⟨fun i hi => by rw [hids i hi, ← hrem.2.2], hupd.1.trans (hb.trans hrem.1),
    hupd.2.1.trans (hh.trans hrem.2.1), hupd.2.2.trans (hc.trans (by rw [hrem.2.2]))⟩

end CDeterministicMNList

/-! ## A block that takes over a collateral twice -/

namespace ReplayFixture

/-- A `SerializeHash` that is injective on the properties of this run: each kind of property is
moved to its own range. -/
def serializeHash : UniqueProperty → uint256
  | .collateralOutpoint o => o.hash
  | .addr a => BitVec.ofNat 256 (a.ip.toNat + 1000)
  | .keyIDOwner k => BitVec.ofNat 256 (k.toNat + 2000)
  | .pubKeyOperator k => BitVec.ofNat 256 ((k.getD 0).toNat + 3000)

/-- The UTXO set: an unspent 1337-coin output at `(100, 0)`, the external collateral. -/
def coins (o : COutPoint) : Option CAmount :=
  if o = ⟨100, 0⟩ then some (1337 * COIN) else none

/-- The environment of the run. Confirmations, quorums and the SHA-256 of confirmed hashes play
no part in it: no masternode is old enough, and no block has a commitment. -/
def env : BuildEnv where
  SerializeHash := serializeHash
  sha256 := fun a _ => a
  nMasternodeMinimumConfirmations := 16
  prevHeight := 0
  prevBlockHash := 0
  ancestorHash := fun _ => none
  getUTXOCoinValue := coins
  dkgInterval := fun _ => none
  allQuorumMembers := fun _ _ => []

/-- The coinbase of a block, which both transaction loops skip. -/
def coinbase (hash : uint256) : CTransaction :=
  ⟨hash, 1, TRANSACTION_COINBASE, [⟨⟨0, COutPoint.NULL_INDEX⟩⟩], [⟨0, []⟩], none⟩

/-- A ProRegTx `hash` with the external collateral `(100, 0)`, its own address and keys, paying
its fee from `feeInput`. -/
def proRegTx (hash : uint256) (feeInput : COutPoint) (ip : BitVec 128) (owner voting : CKeyID)
    (operator : BitVec 384) : CTransaction :=
  ⟨hash, 2, TRANSACTION_PROVIDER_REGISTER, [⟨feeInput⟩], [], some (.proReg
    { collateralOutpoint := ⟨100, 0⟩, addr := ⟨ip, 9999⟩, keyIDOwner := owner,
      pubKeyOperator := some operator, keyIDVoting := voting, nOperatorReward := 0,
      scriptPayout := [] })⟩

def b0 : BlockRef := ⟨50, 0⟩
def b1 : BlockRef := ⟨51, 1⟩
def b2 : BlockRef := ⟨52, 2⟩
def b3 : BlockRef := ⟨53, 3⟩

/-- Block 2: two ProRegTxs for the same external collateral; the second replaces the first. -/
def vtx2 : List CTransaction :=
  [coinbase 2, proRegTx 1 ⟨201, 0⟩ 1 1 11 1, proRegTx 2 ⟨202, 0⟩ 2 2 12 2]

/-- Failing input: the manager connects block 1 and block 2, both valid; the list of block 2
cannot be rebuilt from the database, and connecting any block 3 on top of it aborts the node. -/
theorem processBlock_aborts_after_collateral_takeover :
    ∃ m₁ m₂, processBlock env {} b1 [b0] [coinbase 1] false = some (true, m₁) ∧
      processBlock env m₁ b2 [b1, b0] vtx2 false = some (true, m₂) ∧
      m₂.getListForBlock serializeHash [b2, b1, b0] = none ∧
      processBlock env m₂ b3 [b2, b1, b0] [coinbase 3] false = none :=
  ⟨_, _, rfl, rfl, by decide, by decide⟩

/-- The list of a block that registers one masternode, on the empty list. -/
def list₁ : CDeterministicMNList :=
  match buildNewListFromBlock env {} [coinbase 1, proRegTx 1 ⟨201, 0⟩ 1 1 11 1] with
  | .ok l => l
  | .error _ => {}

/-- The replay of that block's diff on the empty list. -/
def replayed₁ : CDeterministicMNList :=
  (({} : CDeterministicMNList).applyDiff serializeHash 51 1
    (({} : CDeterministicMNList).buildDiff list₁)).getD {}

/-- The diff of a block that loses no registration replays: its one masternode carries the id `0`
of the empty list's counter, which the replay advances to `1`. -/
theorem applyDiff_one_registration :
    ({} : CDeterministicMNList).applyDiff serializeHash 51 1
        (({} : CDeterministicMNList).buildDiff list₁) = some replayed₁ ∧
      (({} : CDeterministicMNList).buildDiff list₁).addedMNs.length = 1 ∧
      replayed₁.nTotalRegisteredCount = 1 :=
  have hr : ({} : CDeterministicMNList).applyDiff serializeHash 51 1
      (({} : CDeterministicMNList).buildDiff list₁) = some replayed₁ := rfl
  ⟨hr, by decide, (applyDiff_eq_some hr).2.2.2.trans (by decide)⟩

end ReplayFixture

end Emrals
