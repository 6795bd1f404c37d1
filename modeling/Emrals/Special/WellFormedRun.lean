import Emrals.Special.ListWellFormed
import Emrals.Special.CheckSpecialTx

/-!
# Every list of the chain is well formed

A block changes the masternode list by `AddMN`, `UpdateMN` and `RemoveMN` only, and each of them
keeps the list well formed when the added masternode has a new internal id and the new states
keep an owner key (`ListWellFormed`). No state a block installs changes the owner key, and a
registration takes the count of registrations so far as its internal id, above the internal id of
every masternode of the list, as long as the `uint32_t` counter does not wrap.

So the passes carry `WFInv` with a *budget*, the registrations still to come: every list of a run
from the empty list is well formed when the run registers fewer than `2 ^ 32` masternodes
(`run_wellFormed`).
-/

namespace Emrals

open CDeterministicMNList

/-! ## The owner key of the states a block installs -/

namespace CDeterministicMNState

@[simp] theorem updateConfirmedHash_keyIDOwner (sha256 : uint256 → uint256 → uint256)
    (s : CDeterministicMNState) (proTxHash confirmedHash : uint256) :
    (s.updateConfirmedHash sha256 proTxHash confirmedHash).keyIDOwner = s.keyIDOwner := rfl

@[simp] theorem resetOperatorFields_keyIDOwner (s : CDeterministicMNState) :
    s.resetOperatorFields.keyIDOwner = s.keyIDOwner := rfl

@[simp] theorem banIfNotBanned_keyIDOwner (s : CDeterministicMNState) (height : Int) :
    (s.banIfNotBanned height).keyIDOwner = s.keyIDOwner := by
  unfold banIfNotBanned
  split <;> rfl

end CDeterministicMNState

@[simp] theorem proUpServState_keyIDOwner (nHeight : Int) (s : CDeterministicMNState)
    (proTx : CProUpServTx) : (proUpServState nHeight s proTx).keyIDOwner = s.keyIDOwner := by
  unfold proUpServState
  dsimp only
  split <;> rfl

@[simp] theorem proUpRegState_keyIDOwner (nHeight : Int) (s : CDeterministicMNState)
    (proTx : CProUpRegTx) : (proUpRegState nHeight s proTx).keyIDOwner = s.keyIDOwner := by
  unfold proUpRegState
  split <;> simp

@[simp] theorem proUpRevState_keyIDOwner (nHeight : Int) (s : CDeterministicMNState)
    (proTx : CProUpRevTx) : (proUpRevState nHeight s proTx).keyIDOwner = s.keyIDOwner := by
  simp [proUpRevState]

theorem CDeterministicMNList.AllMNs.imp {Q Q' : CDeterministicMN → Prop} {l : CDeterministicMNList}
    (hl : AllMNs Q l) (h : ∀ dmn, Q dmn → Q' dmn) : AllMNs Q' l :=
  fun k dmn hd => h dmn (hl k dmn hd)

/-- The ProRegTxs of a list of transactions. -/
def registrations (txs : List CTransaction) : Nat := (txs.filter CTransaction.registersMN).length

theorem registrations_cons (tx : CTransaction) (txs : List CTransaction) :
    registrations (tx :: txs) = registrations txs + if tx.registersMN then 1 else 0 := by
  unfold registrations
  rw [List.filter_cons]
  split <;> simp

theorem registrations_le_cons (tx : CTransaction) (txs : List CTransaction) :
    registrations txs ≤ registrations (tx :: txs) := by
  rw [registrations_cons]
  omega

/-- The ProRegTxs of a block, whose coinbase the transaction loop skips. -/
def blockRegistrations (blk : BuildEnv × List CTransaction) : Nat := registrations (blk.2.drop 1)

namespace CDeterministicMNManager

/-- What the passes carry, with `budget` registrations still to come: the list is well formed,
every internal id is below the count of registrations, and the registrations to come do not wrap
the count. -/
structure WFInv (SerializeHash : UniqueProperty → uint256) (budget : Nat)
    (l : CDeterministicMNList) : Prop where
  wf : l.WellFormed SerializeHash
  idsBelow : AllMNs (fun dmn => dmn.internalId.toNat < l.nTotalRegisteredCount.toNat) l
  noWrap : l.nTotalRegisteredCount.toNat + budget < 2 ^ 32

section
variable {SerializeHash : UniqueProperty → uint256} {b : Nat} {l l' : CDeterministicMNList}

theorem wfInv_empty (hb : b < 2 ^ 32) : WFInv SerializeHash b {} :=
  ⟨.empty, allMNs_empty, by simpa using hb⟩

theorem WFInv.of_maps_eq (hl : WFInv SerializeHash b l) (hm : l'.mnMap = l.mnMap)
    (hi : l'.mnInternalIdMap = l.mnInternalIdMap)
    (hu : l'.mnUniquePropertyMap = l.mnUniquePropertyMap)
    (hc : l'.nTotalRegisteredCount = l.nTotalRegisteredCount) : WFInv SerializeHash b l' :=
  ⟨hl.wf.of_maps_eq hm hi hu, by rw [hc]; exact hl.idsBelow.of_mnMap_eq hm, by rw [hc]; exact hl.noWrap⟩

theorem WFInv.weaken {b' : Nat} (hl : WFInv SerializeHash b l) (hb : b' ≤ b) :
    WFInv SerializeHash b' l :=
  ⟨hl.wf, hl.idsBelow, by have := hl.noWrap; omega⟩

/-- `UpdateMN` by ProTx hash with a state that has an owner key. -/
theorem WFInv.updateMN (hl : WFInv SerializeHash b l) {proTxHash : uint256}
    {pdmnState : CDeterministicMNState}
    (h : l.updateMNByProTxHash SerializeHash proTxHash pdmnState = some l')
    (howner : (UniqueProperty.keyIDOwner pdmnState.keyIDOwner).isNullValue = false) :
    WFInv SerializeHash b l' := by
  have hc := (updateMNByProTxHash_sameHeader h).2.2
  refine ⟨hl.wf.updateMN h howner, ?_, by rw [hc]; exact hl.noWrap⟩
  rw [hc]
  exact hl.idsBelow.updateMNByProTxHash h fun old hold => hl.idsBelow _ old hold

/-- `UpdateMN` by ProTx hash with a state that keeps the owner key of the masternode. -/
theorem WFInv.updateMN_of_owner (hl : WFInv SerializeHash b l) {proTxHash : uint256}
    {dmn : CDeterministicMN} {pdmnState : CDeterministicMNState}
    (hd : l.getMN proTxHash = some dmn)
    (h : l.updateMNByProTxHash SerializeHash proTxHash pdmnState = some l')
    (howner : pdmnState.keyIDOwner = dmn.pdmnState.keyIDOwner) : WFInv SerializeHash b l' :=
  hl.updateMN h (by rw [howner]; exact (hl.wf.required _ _ hd).2)

theorem WFInv.removeMN (hl : WFInv SerializeHash b l) {proTxHash : uint256}
    (h : l.removeMN SerializeHash proTxHash = some l') : WFInv SerializeHash b l' := by
  have hc := (removeMN_sameHeader h).2.2
  refine ⟨hl.wf.removeMN h, ?_, by rw [hc]; exact hl.noWrap⟩
  rw [hc]
  exact hl.idsBelow.removeMN h

end

/-! ## The passes of a block -/

section
variable {env : BuildEnv} {b : Nat} {l l' : CDeterministicMNList}

theorem WFInv.confirmStep {oldList : CDeterministicMNList} {dmn : CDeterministicMN}
    (hold : AllMNs CDeterministicMN.Required oldList) (hd : dmn ∈ oldList.allMNs)
    (hl : WFInv env.SerializeHash b l) (h : confirmStep env l dmn = some l') :
    WFInv env.SerializeHash b l' := by
  unfold CDeterministicMNManager.confirmStep at h
  split at h
  · cases h; exact hl
  · split at h
    · -- the confirmed state is the parent's, whose owner key is set
      refine hl.updateMN h ?_
      rw [CDeterministicMNState.updateConfirmedHash_keyIDOwner]
      exact (hold.of_mem_allMNs hd).2
    · cases h; exact hl

theorem WFInv.poSeDecrease {proTxHash : uint256} (hl : WFInv env.SerializeHash b l)
    (h : l.poSeDecrease env.SerializeHash proTxHash = some l') : WFInv env.SerializeHash b l' := by
  obtain ⟨dmn, hd, -, -, hu⟩ := poSeDecrease_eq_some h
  exact hl.updateMN_of_owner hd hu rfl

theorem WFInv.decreasePoSePenalties (hl : WFInv env.SerializeHash b l)
    (h : decreasePoSePenalties env l = some l') : WFInv env.SerializeHash b l' :=
  Fallible.foldlM_option_inv (fun _ _ _ hs hstep => hs.poSeDecrease hstep) hl h

theorem WFInv.poSePunish {proTxHash : uint256} {penalty : Int} (hl : WFInv env.SerializeHash b l)
    (h : l.poSePunish env.SerializeHash proTxHash penalty = some l') :
    WFInv env.SerializeHash b l' := by
  obtain ⟨-, dmn, banHeight, hd, -, hu⟩ := poSePunish_eq_some h
  exact hl.updateMN_of_owner hd hu rfl

theorem WFInv.punishMember {qc : CFinalCommitment} {member : uint256 × Nat}
    (hl : WFInv env.SerializeHash b l) (h : punishMember env qc l member = some l') :
    WFInv env.SerializeHash b l' := by
  unfold CDeterministicMNManager.punishMember at h
  split at h
  · cases h; exact hl
  · obtain ⟨valid, -, h⟩ := Option.bind_eq_some_iff.1 h
    split at h
    · cases h; exact hl
    · obtain ⟨penalty, -, h⟩ := Option.bind_eq_some_iff.1 h
      exact hl.poSePunish h

theorem WFInv.handleQuorumCommitment {qc : CFinalCommitment} (hl : WFInv env.SerializeHash b l)
    (h : handleQuorumCommitment env qc l = some l') : WFInv env.SerializeHash b l' :=
  Fallible.foldlM_option_inv (fun _ _ _ hs hstep => hs.punishMember hstep) hl h

theorem WFInv.removeReplacedMN {collateralOutpoint : COutPoint}
    (hl : WFInv env.SerializeHash b l) (h : removeReplacedMN env l collateralOutpoint = .ok l') :
    WFInv env.SerializeHash b l' := by
  rcases removeReplacedMN_eq_ok h with ⟨_, -, hr⟩ | ⟨-, rfl⟩
  · exact hl.removeMN hr
  · exact hl

/-- A registration: the counter moves, the replaced masternode goes, and the new one comes with
the count before the move as its internal id, which no masternode of the list has. -/
theorem WFInv.register {collateralOutpoint : COutPoint} {l₁ : CDeterministicMNList}
    {dmn : CDeterministicMN} (hl : WFInv env.SerializeHash (b + 1) l)
    (hr : CDeterministicMNManager.removeReplacedMN env
      { l with nTotalRegisteredCount := l.nTotalRegisteredCount + 1 } collateralOutpoint = .ok l₁)
    (ha : l₁.addMN env.SerializeHash dmn = some l')
    (hid : dmn.internalId = l.nTotalRegisteredCount.toUInt64) : WFInv env.SerializeHash b l' := by
  have hnoWrap := hl.noWrap
  have hc : (l.nTotalRegisteredCount + 1).toNat = l.nTotalRegisteredCount.toNat + 1 := by
    rw [UInt32.toNat_add, UInt32.toNat_one]
    omega
  have hid' : dmn.internalId.toNat = l.nTotalRegisteredCount.toNat := by rw [hid]; simp
  -- the bumped list, and the list after the replaced masternode is gone
  have hbelow₀ : AllMNs (fun d => d.internalId.toNat < l.nTotalRegisteredCount.toNat)
      { l with nTotalRegisteredCount := l.nTotalRegisteredCount + 1 } :=
    hl.idsBelow.of_mnMap_eq rfl
  have h₀ : WFInv env.SerializeHash b
      { l with nTotalRegisteredCount := l.nTotalRegisteredCount + 1 } := by
    refine ⟨hl.wf.of_maps_eq rfl rfl rfl, hbelow₀.imp fun _ h => ?_, ?_⟩
    · dsimp only
      rw [hc]
      omega
    · dsimp only
      rw [hc]
      omega
  have hbelow₁ : AllMNs (fun d => d.internalId.toNat < l.nTotalRegisteredCount.toNat) l₁ := by
    rcases removeReplacedMN_eq_ok hr with ⟨_, -, hrm⟩ | ⟨-, rfl⟩
    · exact hbelow₀.removeMN hrm
    · exact hbelow₀
  have h₁ := h₀.removeReplacedMN hr
  have hc₁ := (removeReplacedMN_sameHeader hr).2.2
  have hc' : l'.nTotalRegisteredCount = l.nTotalRegisteredCount + 1 :=
    (addMN_sameHeader ha).2.2.trans hc₁
  -- the new internal id names no masternode of the list
  have hfresh : l₁.mnInternalIdMap.lookup dmn.internalId = none := by
    cases hlook : l₁.mnInternalIdMap.lookup dmn.internalId with
    | none => rfl
    | some p =>
      obtain ⟨d, hd, hdid⟩ := (h₁.wf.ids _ p).1 hlook
      have hlt : d.internalId.toNat < l.nTotalRegisteredCount.toNat := hbelow₁ _ _ hd
      rw [hdid, hid'] at hlt
      omega
  refine ⟨h₁.wf.addMN ha hfresh, ?_, by rw [hc', hc]; omega⟩
  rw [hc', hc]
  exact (hbelow₁.imp fun _ h => by omega).addMN ha (by rw [hid']; omega)

/-- One transaction of the loop, spending its registration from the budget. -/
theorem WFInv.processSpecialTx {tx : CTransaction} {txs : List CTransaction}
    (hl : WFInv env.SerializeHash (registrations (tx :: txs) + b) l)
    (h : processSpecialTx env l tx = .ok l') :
    WFInv env.SerializeHash (registrations txs + b) l' := by
  unfold CDeterministicMNManager.processSpecialTx at h
  split at h
  · cases h; exact hl.weaken (by have := registrations_le_cons tx txs; omega)
  · next hv =>
    have hv2 : tx.nVersion = 2 := not_not.1 hv
    split at h
    · next ht =>
      have hreg : registrations (tx :: txs) = registrations txs + 1 := by
        rw [registrations_cons, if_pos (by simp [CTransaction.registersMN, hv2, ht])]
      obtain ⟨proTx, l₁, -, -, hr, -, -, ha⟩ := processProRegTx_eq_ok h
      rw [hreg, Nat.add_right_comm] at hl
      exact hl.register hr ha rfl
    -- every other branch leaves the budget as it is
    have hkeep : WFInv env.SerializeHash (registrations txs + b) l :=
      hl.weaken (by have := registrations_le_cons tx txs; omega)
    split at h
    · obtain ⟨proTx, dmn, -, -, hd, hu⟩ := processProUpServTx_eq_ok h
      exact hkeep.updateMN_of_owner hd hu (proUpServState_keyIDOwner _ _ _)
    split at h
    · obtain ⟨proTx, dmn, -, hd, hu⟩ := processProUpRegTx_eq_ok h
      exact hkeep.updateMN_of_owner hd hu (proUpRegState_keyIDOwner _ _ _)
    split at h
    · obtain ⟨proTx, dmn, -, hd, hu⟩ := processProUpRevTx_eq_ok h
      exact hkeep.updateMN_of_owner hd hu (proUpRevState_keyIDOwner _ _ _)
    split at h
    · obtain ⟨qc, -, ⟨-, rfl⟩ | hq⟩ := processQcTx_eq_ok h
      · exact hkeep
      · exact hkeep.handleQuorumCommitment hq
    · cases h; exact hkeep

theorem WFInv.spendCollateralStep {oldList : CDeterministicMNList} {txin : CTxIn}
    (hl : WFInv env.SerializeHash b l) (h : spendCollateralStep env oldList l txin = some l') :
    WFInv env.SerializeHash b l' := by
  unfold CDeterministicMNManager.spendCollateralStep at h
  split at h
  · next dmn hdmn =>
    split at h
    · split at h
      · exact hl.removeMN h
      · -- the reset keeps the owner key of the masternode on the collateral
        obtain ⟨k, hk⟩ := getMN_of_getMNByCollateral hdmn
        refine hl.updateMN h ?_
        simp only [CDeterministicMNState.banIfNotBanned_keyIDOwner,
          CDeterministicMNState.resetOperatorFields_keyIDOwner]
        exact (hl.wf.required _ _ hk).2
    · cases h; exact hl
  · cases h; exact hl

theorem WFInv.payeeStep {payee : Option CDeterministicMN} (hl : WFInv env.SerializeHash b l)
    (h : payeeStep env payee l = some l') : WFInv env.SerializeHash b l' := by
  unfold CDeterministicMNManager.payeeStep at h
  split at h
  · split at h
    · next dmn hd => exact hl.updateMN_of_owner hd h rfl
    · cases h; exact hl
  · cases h; exact hl

/-- A block spends its registrations from the budget and keeps the list well formed. -/
theorem WFInv.buildNewListFromBlock {vtx : List CTransaction} {oldList : CDeterministicMNList}
    (hl : WFInv env.SerializeHash (registrations (vtx.drop 1) + b) oldList)
    (h : buildNewListFromBlock env oldList vtx = .ok l') : WFInv env.SerializeHash b l' := by
  unfold CDeterministicMNManager.buildNewListFromBlock at h
  dsimp only at h
  obtain ⟨l₁, h₁, h⟩ := Fallible.except_bind_eq_ok h
  obtain ⟨l₂, h₂, h⟩ := Fallible.except_bind_eq_ok h
  obtain ⟨l₃, h₃, h⟩ := Fallible.except_bind_eq_ok h
  obtain ⟨l₄, h₄, h₅⟩ := Fallible.except_bind_eq_ok h
  have h₀ : WFInv env.SerializeHash (registrations (vtx.drop 1) + b)
      { oldList with blockHash := 0, nHeight := env.nHeight } := hl.of_maps_eq rfl rfl rfl rfl
  have hi₁ := Fallible.foldlM_option_inv_mem
    (fun _ _ _ hd hs hstep => hs.confirmStep hl.wf.required hd hstep) h₀ (orAbort_eq_ok.1 h₁)
  have hi₂ := hi₁.decreasePoSePenalties (orAbort_eq_ok.1 h₂)
  -- the transaction loop spends the block's registrations one by one
  have hi₃ : WFInv env.SerializeHash (registrations [] + b) l₃ :=
    Fallible.foldlM_except_inv_suffix (Q := fun txs s => WFInv env.SerializeHash
      (registrations txs + b) s) (fun _ _ _ _ hs hstep => hs.processSpecialTx hstep) hi₂ h₃
  rw [show registrations [] = 0 from rfl, Nat.zero_add] at hi₃
  have hi₄ := Fallible.foldlM_option_inv (fun _ _ _ hs hstep => hs.spendCollateralStep hstep)
    hi₃ (orAbort_eq_ok.1 h₄)
  exact hi₄.payeeStep (orAbort_eq_ok.1 h₅)

end

end CDeterministicMNManager

open CDeterministicMNManager

section
variable {SerializeHash : UniqueProperty → uint256} {cenv : CheckEnv}

theorem CDeterministicMNManager.WFInv.chainStep {b : Nat} {l l' : CDeterministicMNList}
    {blk : BuildEnv × List CTransaction}
    (hl : WFInv SerializeHash (blockRegistrations blk + b) l)
    (h : chainStep SerializeHash cenv l blk = some l') : WFInv SerializeHash b l' := by
  obtain ⟨-, -, hbuild⟩ := chainStep_eq_some h
  exact WFInv.buildNewListFromBlock hl hbuild

/-- Every list of a run from the empty list that registers fewer than `2 ^ 32` masternodes is
well formed, with every internal id below the count of registrations. -/
theorem run_wfInv {blocks : List (BuildEnv × List CTransaction)} {l : CDeterministicMNList}
    (hregs : (blocks.map blockRegistrations).sum < 2 ^ 32)
    (h : Machine.run (chainStep SerializeHash cenv) {} blocks = some l) :
    WFInv SerializeHash 0 l := by
  have hrun := Machine.run_inv_suffix
    (Q := fun bs s => WFInv SerializeHash (bs.map blockRegistrations).sum s)
    (fun blk bs s s' hs hstep => by
      rw [List.map_cons, List.sum_cons] at hs
      exact hs.chainStep hstep)
    (wfInv_empty hregs) h
  simpa using hrun

end

end Emrals
