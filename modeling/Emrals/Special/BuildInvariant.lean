import Emrals.Special.MNListSpec
import Emrals.Special.BuildSpec

/-!
# Properties of every masternode that a block keeps

`BuildNewListFromBlock` changes a masternode in a few ways only: it confirms it, lowers or raises
its penalty, registers it, applies a ProUpServTx, a ProUpRegTx or a ProUpRevTx to it, resets it
when its collateral is spent in the block that registered it, or pays it; or it removes it.
`KeepsMNProperty` says that a property of masternodes survives each of these; under it, every
masternode of the block's list has the property when every masternode of the parent's list has
it (`buildNewListFromBlock_keeps`). The passes are walked once here, and each invariant of the
masternode list is then an instance that checks the transitions, not the code.
-/

namespace Emrals

open CDeterministicMNList

namespace CDeterministicMNManager

/-- A property `Q` of masternodes survives every way the block with transactions `vtx` and
environment `env` replaces the state of a masternode, and holds of every masternode it
registers. -/
structure KeepsMNProperty (env : BuildEnv) (vtx : List CTransaction)
    (Q : CDeterministicMN → Prop) : Prop where
  /-- The confirmation pass, with the state of the parent's masternode `dmn`. -/
  confirm : ∀ dmn old : CDeterministicMN, Q dmn → old.proTxHash = dmn.proTxHash →
    Q { old with pdmnState :=
      dmn.pdmnState.updateConfirmedHash env.sha256 dmn.proTxHash env.prevBlockHash }
  /-- `PoSeDecrease`. -/
  decrease : ∀ old : CDeterministicMN, Q old → 0 < old.pdmnState.nPoSePenalty →
    old.pdmnState.nPoSeBanHeight = -1 →
    Q { old with pdmnState :=
      { old.pdmnState with nPoSePenalty := old.pdmnState.nPoSePenalty - 1 } }
  /-- `PoSePunish`, from a quorum commitment. -/
  punish : ∀ (old : CDeterministicMN) (maxPenalty penalty banHeight : Int), 100 ≤ maxPenalty →
    0 < penalty →
    (banHeight = old.pdmnState.nPoSeBanHeight ∨
      (old.pdmnState.nPoSeBanHeight = -1 ∧ banHeight = env.nHeight)) → Q old →
    Q { old with pdmnState :=
      { old.pdmnState with
        nPoSePenalty := min maxPenalty (old.pdmnState.nPoSePenalty + penalty),
        nPoSeBanHeight := banHeight } }
  /-- A ProRegTx of the block. -/
  register : ∀ tx ∈ vtx.drop 1, tx.nVersion = 2 → tx.nType = TRANSACTION_PROVIDER_REGISTER →
    ∀ proTx, tx.getProRegTx = some proTx → ∀ internalId,
    Q { proTxHash := tx.hash, internalId := internalId,
        collateralOutpoint := proRegCollateral tx proTx, nOperatorReward := proTx.nOperatorReward,
        pdmnState := proRegState env.nHeight proTx }
  /-- A ProUpServTx of the block, on the masternode it names. -/
  updateService : ∀ tx ∈ vtx.drop 1, tx.nVersion = 2 →
    tx.nType = TRANSACTION_PROVIDER_UPDATE_SERVICE → ∀ proTx, tx.getProUpServTx = some proTx →
    ∀ old : CDeterministicMN, old.proTxHash = proTx.proTxHash → Q old →
    Q { old with pdmnState := proUpServState env.nHeight old.pdmnState proTx }
  /-- A ProUpRegTx of the block, on the masternode it names. -/
  updateRegistrar : ∀ tx ∈ vtx.drop 1, tx.nVersion = 2 →
    tx.nType = TRANSACTION_PROVIDER_UPDATE_REGISTRAR → ∀ proTx, tx.getProUpRegTx = some proTx →
    ∀ old : CDeterministicMN, old.proTxHash = proTx.proTxHash → Q old →
    Q { old with pdmnState := proUpRegState env.nHeight old.pdmnState proTx }
  /-- A ProUpRevTx of the block, on the masternode it names. -/
  revoke : ∀ tx ∈ vtx.drop 1, tx.nVersion = 2 → tx.nType = TRANSACTION_PROVIDER_UPDATE_REVOKE →
    ∀ proTx, tx.getProUpRevTx = some proTx →
    ∀ old : CDeterministicMN, old.proTxHash = proTx.proTxHash → Q old →
    Q { old with pdmnState := proUpRevState env.nHeight old.pdmnState proTx }
  /-- A collateral spent in the block that registered it. -/
  spendReset : ∀ old : CDeterministicMN, Q old →
    Q { old with pdmnState :=
      { old.pdmnState.resetOperatorFields.banIfNotBanned env.nHeight with
        nRevocationReason := CProUpRevTx.REASON_NOT_SPECIFIED } }
  /-- The payee of the block. -/
  paid : ∀ old : CDeterministicMN, Q old →
    Q { old with pdmnState := { old.pdmnState with nLastPaidHeight := env.nHeight } }

/-- What the passes carry: every masternode under its own hash, `Q` of every masternode, and the
height of the block. -/
structure PassInv (env : BuildEnv) (Q : CDeterministicMN → Prop) (l : CDeterministicMNList) :
    Prop where
  keys : l.KeysMatch
  all : AllMNs Q l
  height : l.nHeight = env.nHeight

section
variable {env : BuildEnv} {Q : CDeterministicMN → Prop} {l l' : CDeterministicMNList}

/-! ## The list operations -/

theorem PassInv.of_mnMap_eq (hl : PassInv env Q l) (hm : l'.mnMap = l.mnMap)
    (hh : l'.nHeight = l.nHeight) : PassInv env Q l' :=
  ⟨hl.keys.of_mnMap_eq hm, hl.all.of_mnMap_eq hm, hh.trans hl.height⟩

theorem PassInv.addMN {dmn : CDeterministicMN} (hl : PassInv env Q l)
    (h : l.addMN env.SerializeHash dmn = some l') (hq : Q dmn) : PassInv env Q l' :=
  ⟨hl.keys.addMN h, hl.all.addMN h hq, (addMN_sameHeader h).2.1.trans hl.height⟩

theorem PassInv.removeMN {proTxHash : uint256} (hl : PassInv env Q l)
    (h : l.removeMN env.SerializeHash proTxHash = some l') : PassInv env Q l' :=
  ⟨hl.keys.removeMN h, hl.all.removeMN h, (removeMN_sameHeader h).2.1.trans hl.height⟩

/-- `UpdateMN` by ProTx hash keeps the invariant when the masternode of that hash, with its new
state, has `Q`. -/
theorem PassInv.updateMNByProTxHash {proTxHash : uint256} {pdmnState : CDeterministicMNState}
    (hl : PassInv env Q l)
    (h : l.updateMNByProTxHash env.SerializeHash proTxHash pdmnState = some l')
    (hq : ∀ old, l.getMN proTxHash = some old → Q { old with pdmnState := pdmnState }) :
    PassInv env Q l' :=
  ⟨hl.keys.updateMNByProTxHash h, hl.all.updateMNByProTxHash h hq,
    (updateMNByProTxHash_sameHeader h).2.1.trans hl.height⟩

theorem PassInv.removeReplacedMN {collateralOutpoint : COutPoint} (hl : PassInv env Q l)
    (h : removeReplacedMN env l collateralOutpoint = .ok l') : PassInv env Q l' := by
  rcases removeReplacedMN_eq_ok h with ⟨_, -, hr⟩ | ⟨-, rfl⟩
  · exact hl.removeMN hr
  · exact hl

/-! ## One step of each pass -/

variable {vtx : List CTransaction} (hQ : KeepsMNProperty env vtx Q)
include hQ

theorem PassInv.confirmStep {oldList : CDeterministicMNList} {dmn : CDeterministicMN}
    (hold : AllMNs Q oldList) (hd : dmn ∈ oldList.allMNs) (hl : PassInv env Q l)
    (h : confirmStep env l dmn = some l') : PassInv env Q l' := by
  unfold CDeterministicMNManager.confirmStep at h
  split at h
  · cases h; exact hl
  · split at h
    · exact hl.updateMNByProTxHash h fun old hget =>
        hQ.confirm dmn old (hold.of_mem_allMNs hd) (hl.keys _ _ hget)
    · cases h; exact hl

theorem PassInv.poSeDecrease {proTxHash : uint256} (hl : PassInv env Q l)
    (h : l.poSeDecrease env.SerializeHash proTxHash = some l') : PassInv env Q l' := by
  obtain ⟨dmn, hd, hpos, hban, hu⟩ := poSeDecrease_eq_some h
  refine hl.updateMNByProTxHash hu fun old hget => ?_
  rw [hd] at hget
  cases hget
  exact hQ.decrease dmn (hl.all _ _ hd) hpos hban

theorem PassInv.decreasePoSePenalties (hl : PassInv env Q l)
    (h : decreasePoSePenalties env l = some l') : PassInv env Q l' :=
  Fallible.foldlM_option_inv (fun _ _ _ hs hstep => hs.poSeDecrease hQ hstep) hl h

theorem PassInv.poSePunish {proTxHash : uint256} {penalty : Int} (hl : PassInv env Q l)
    (h : l.poSePunish env.SerializeHash proTxHash penalty = some l') : PassInv env Q l' := by
  obtain ⟨hpen, dmn, banHeight, hd, hban, hu⟩ := poSePunish_eq_some h
  refine hl.updateMNByProTxHash hu fun old hget => ?_
  rw [hd] at hget
  cases hget
  -- the list being built has the block's height, at which `PoSePunish` bans
  rw [hl.height] at hban
  exact hQ.punish dmn _ penalty banHeight (calcMaxPoSePenalty_ge l) hpen hban (hl.all _ _ hd)

theorem PassInv.punishMember {qc : CFinalCommitment} {member : uint256 × Nat}
    (hl : PassInv env Q l) (h : punishMember env qc l member = some l') : PassInv env Q l' := by
  unfold CDeterministicMNManager.punishMember at h
  split at h
  · cases h; exact hl
  · obtain ⟨valid, -, h⟩ := Option.bind_eq_some_iff.1 h
    split at h
    · cases h; exact hl
    · obtain ⟨penalty, -, h⟩ := Option.bind_eq_some_iff.1 h
      exact hl.poSePunish hQ h

theorem PassInv.handleQuorumCommitment {qc : CFinalCommitment} (hl : PassInv env Q l)
    (h : handleQuorumCommitment env qc l = some l') : PassInv env Q l' :=
  Fallible.foldlM_option_inv (fun _ _ _ hs hstep => hs.punishMember hQ hstep) hl h

/-- One transaction of the loop: each branch is one of the transitions of `KeepsMNProperty`. -/
theorem PassInv.processSpecialTx {tx : CTransaction} (htx : tx ∈ vtx.drop 1)
    (hl : PassInv env Q l) (h : processSpecialTx env l tx = .ok l') : PassInv env Q l' := by
  unfold CDeterministicMNManager.processSpecialTx at h
  split at h
  · cases h; exact hl
  · next hv =>
    have hv2 : tx.nVersion = 2 := not_not.1 hv
    split at h
    · next ht =>
      -- a registration: the counter moves, the replaced masternode goes, the new one comes
      obtain ⟨proTx, l₁, hp, -, hr, -, -, ha⟩ := processProRegTx_eq_ok h
      have h₀ : PassInv env Q { l with nTotalRegisteredCount := l.nTotalRegisteredCount + 1 } :=
        hl.of_mnMap_eq rfl rfl
      exact (h₀.removeReplacedMN hr).addMN ha (hQ.register tx htx hv2 ht proTx hp _)
    split at h
    · next ht =>
      obtain ⟨proTx, dmn, hp, -, hd, hu⟩ := processProUpServTx_eq_ok h
      refine hl.updateMNByProTxHash hu fun old hget => ?_
      rw [hd] at hget
      cases hget
      exact hQ.updateService tx htx hv2 ht proTx hp dmn (hl.keys _ _ hd) (hl.all _ _ hd)
    split at h
    · next ht =>
      obtain ⟨proTx, dmn, hp, hd, hu⟩ := processProUpRegTx_eq_ok h
      refine hl.updateMNByProTxHash hu fun old hget => ?_
      rw [hd] at hget
      cases hget
      exact hQ.updateRegistrar tx htx hv2 ht proTx hp dmn (hl.keys _ _ hd) (hl.all _ _ hd)
    split at h
    · next ht =>
      obtain ⟨proTx, dmn, hp, hd, hu⟩ := processProUpRevTx_eq_ok h
      refine hl.updateMNByProTxHash hu fun old hget => ?_
      rw [hd] at hget
      cases hget
      exact hQ.revoke tx htx hv2 ht proTx hp dmn (hl.keys _ _ hd) (hl.all _ _ hd)
    split at h
    · obtain ⟨qc, -, ⟨-, rfl⟩ | hq⟩ := processQcTx_eq_ok h
      · exact hl
      · exact hl.handleQuorumCommitment hQ hq
    · cases h; exact hl

theorem PassInv.spendCollateralStep {oldList : CDeterministicMNList} {txin : CTxIn}
    (hl : PassInv env Q l) (h : spendCollateralStep env oldList l txin = some l') :
    PassInv env Q l' := by
  unfold CDeterministicMNManager.spendCollateralStep at h
  split at h
  · next dmn hdmn =>
    split at h
    · split at h
      · exact hl.removeMN h
      · -- the masternode on the collateral is the one of its hash
        obtain ⟨k, hk⟩ := getMN_of_getMNByCollateral hdmn
        have hself : l.getMN dmn.proTxHash = some dmn := by rw [hl.keys k dmn hk]; exact hk
        refine hl.updateMNByProTxHash h fun old hget => ?_
        rw [hself] at hget
        cases hget
        exact hQ.spendReset dmn (hl.all _ _ hself)
    · cases h; exact hl
  · cases h; exact hl

theorem PassInv.payeeStep {payee : Option CDeterministicMN} (hl : PassInv env Q l)
    (h : payeeStep env payee l = some l') : PassInv env Q l' := by
  unfold CDeterministicMNManager.payeeStep at h
  split at h
  · split at h
    · next dmn hd =>
      refine hl.updateMNByProTxHash h fun old hget => ?_
      rw [hd] at hget
      cases hget
      exact hQ.paid dmn (hl.all _ _ hd)
    · cases h; exact hl
  · cases h; exact hl

end

/-! ## The block -/

/-- A property of masternodes that every transition of a block keeps holds of every masternode
of the block's list when it holds of every masternode of the parent's list; and every masternode
stays under its own hash. -/
theorem buildNewListFromBlock_keeps {env : BuildEnv} {vtx : List CTransaction}
    {Q : CDeterministicMN → Prop} {oldList l' : CDeterministicMNList}
    (hQ : KeepsMNProperty env vtx Q) (hkeys : oldList.KeysMatch) (hall : AllMNs Q oldList)
    (h : buildNewListFromBlock env oldList vtx = .ok l') : l'.KeysMatch ∧ AllMNs Q l' := by
  unfold buildNewListFromBlock at h
  obtain ⟨l₁, h₁, h⟩ := Fallible.except_bind_eq_ok h
  obtain ⟨l₂, h₂, h⟩ := Fallible.except_bind_eq_ok h
  obtain ⟨l₃, h₃, h⟩ := Fallible.except_bind_eq_ok h
  obtain ⟨l₄, h₄, h₅⟩ := Fallible.except_bind_eq_ok h
  have h₀ : PassInv env Q { oldList with blockHash := 0, nHeight := env.nHeight } :=
    ⟨hkeys.of_mnMap_eq rfl, hall.of_mnMap_eq rfl, rfl⟩
  -- the confirmations read the parent's masternodes, which all have `Q`
  have hi₁ : PassInv env Q l₁ :=
    Fallible.foldlM_option_inv_mem (fun _ _ _ hd hs hstep => hs.confirmStep hQ hall hd hstep)
      h₀ (orAbort_eq_ok.1 h₁)
  have hi₂ : PassInv env Q l₂ := hi₁.decreasePoSePenalties hQ (orAbort_eq_ok.1 h₂)
  have hi₃ : PassInv env Q l₃ :=
    Fallible.foldlM_except_inv (fun _ _ _ htx hs hstep => hs.processSpecialTx hQ htx hstep) hi₂ h₃
  have hi₄ : PassInv env Q l₄ :=
    Fallible.foldlM_option_inv (fun _ _ _ hs hstep => hs.spendCollateralStep hQ hstep) hi₃
      (orAbort_eq_ok.1 h₄)
  have hi₅ : PassInv env Q l' := hi₄.payeeStep hQ (orAbort_eq_ok.1 h₅)
  exact ⟨hi₅.keys, hi₅.all⟩

end CDeterministicMNManager

end Emrals
