import Emrals.Special.BuildList
import Emrals.Lib.Fallible

/-!
# What each pass of `BuildNewListFromBlock` does

One inversion lemma per branch of the transaction loop says everything a successful branch did
(which guards passed, which list operations ran), so that the invariant proofs never unfold the
branches. Over them, the frame facts of the whole computation: every pass but the registrations
keeps the block hash, the height and the registration counter of the list (`SameHeader`), and a
block advances the counter by the number of its ProRegTxs (`buildNewListFromBlock_header`).
-/

namespace Emrals

open CDeterministicMNList

@[simp] theorem orAbort_eq_ok {α : Type} {o : Option α} {a : α} :
    orAbort o = .ok a ↔ o = some a := by
  cases o <;> simp [orAbort]

@[simp] theorem rejectIf_eq_ok {c : Bool} {reason : String} {u : Unit} :
    rejectIf c reason = .ok u ↔ c = false := by
  cases c <;> simp [rejectIf]

@[simp] theorem getMNOrReject_eq_ok {l : CDeterministicMNList} {proTxHash : uint256}
    {dmn : CDeterministicMN} : getMNOrReject l proTxHash = .ok dmn ↔ l.getMN proTxHash = some dmn := by
  unfold getMNOrReject
  split <;> simp_all

/-- The special transactions that register a masternode, and so take an internal id. -/
def CTransaction.registersMN (tx : CTransaction) : Bool :=
  tx.nVersion == 2 && tx.nType == TRANSACTION_PROVIDER_REGISTER

namespace CDeterministicMNManager

variable {env : BuildEnv} {l l' : CDeterministicMNList} {tx : CTransaction}

/-! ## The branches of the transaction loop -/

theorem removeReplacedMN_eq_ok {collateralOutpoint : COutPoint}
    (h : removeReplacedMN env l collateralOutpoint = .ok l') :
    (∃ replacedDmn, l.getMNByCollateral env.SerializeHash collateralOutpoint = some replacedDmn ∧
      l.removeMN env.SerializeHash replacedDmn.proTxHash = some l') ∨
    (l.getMNByCollateral env.SerializeHash collateralOutpoint = none ∧ l' = l) := by
  unfold removeReplacedMN at h
  split at h
  · next replacedDmn hr => exact .inl ⟨replacedDmn, hr, orAbort_eq_ok.1 h⟩
  · next hr => cases h; exact .inr ⟨hr, rfl⟩

/-- What a successful ProRegTx did: its collateral passed the UTXO check, the masternode holding
the collateral was removed, the address and keys were free, and the new masternode was added
with the next internal id. -/
theorem processProRegTx_eq_ok (h : processProRegTx env l tx = .ok l') :
    ∃ proTx l₁, tx.getProRegTx = some proTx ∧
      (!proTx.collateralOutpoint.hash.isNull &&
        env.getUTXOCoinValue (proRegCollateral tx proTx) != some (1337 * COIN)) = false ∧
      removeReplacedMN env { l with nTotalRegisteredCount := l.nTotalRegisteredCount + 1 }
        (proRegCollateral tx proTx) = .ok l₁ ∧
      l₁.hasUniqueProperty env.SerializeHash (.addr proTx.addr) = false ∧
      (l₁.hasUniqueProperty env.SerializeHash (.keyIDOwner proTx.keyIDOwner) ||
        l₁.hasUniqueProperty env.SerializeHash (.pubKeyOperator proTx.pubKeyOperator)) = false ∧
      l₁.addMN env.SerializeHash
        { proTxHash := tx.hash, internalId := l.nTotalRegisteredCount.toUInt64,
          collateralOutpoint := proRegCollateral tx proTx, nOperatorReward := proTx.nOperatorReward,
          pdmnState := proRegState env.nHeight proTx } = some l' := by
  obtain ⟨proTx, hp, h⟩ := Fallible.except_bind_eq_ok h
  obtain ⟨u₁, hc, h⟩ := Fallible.except_bind_eq_ok h
  obtain ⟨l₁, hr, h⟩ := Fallible.except_bind_eq_ok h
  obtain ⟨u₂, ha, h⟩ := Fallible.except_bind_eq_ok h
  obtain ⟨u₃, hk, h⟩ := Fallible.except_bind_eq_ok h
  exact ⟨proTx, l₁, orAbort_eq_ok.1 hp, rejectIf_eq_ok.1 hc, hr, rejectIf_eq_ok.1 ha,
    rejectIf_eq_ok.1 hk, orAbort_eq_ok.1 h⟩

/-- What a successful ProUpServTx did: the address guard passed and the masternode took the
state `proUpServState`. -/
theorem processProUpServTx_eq_ok (h : processProUpServTx env l tx = .ok l') :
    ∃ proTx dmn, tx.getProUpServTx = some proTx ∧ checkProUpServAddr env l proTx = .ok () ∧
      l.getMN proTx.proTxHash = some dmn ∧
      l.updateMNByProTxHash env.SerializeHash proTx.proTxHash
        (proUpServState env.nHeight dmn.pdmnState proTx) = some l' := by
  obtain ⟨proTx, hp, h⟩ := Fallible.except_bind_eq_ok h
  obtain ⟨u, hc, h⟩ := Fallible.except_bind_eq_ok h
  obtain ⟨dmn, hd, h⟩ := Fallible.except_bind_eq_ok h
  exact ⟨proTx, dmn, orAbort_eq_ok.1 hp, hc, getMNOrReject_eq_ok.1 hd, orAbort_eq_ok.1 h⟩

/-- What a successful ProUpRegTx did: the masternode took the state `proUpRegState`. -/
theorem processProUpRegTx_eq_ok (h : processProUpRegTx env l tx = .ok l') :
    ∃ proTx dmn, tx.getProUpRegTx = some proTx ∧ l.getMN proTx.proTxHash = some dmn ∧
      l.updateMNByProTxHash env.SerializeHash proTx.proTxHash
        (proUpRegState env.nHeight dmn.pdmnState proTx) = some l' := by
  obtain ⟨proTx, hp, h⟩ := Fallible.except_bind_eq_ok h
  obtain ⟨dmn, hd, h⟩ := Fallible.except_bind_eq_ok h
  exact ⟨proTx, dmn, orAbort_eq_ok.1 hp, getMNOrReject_eq_ok.1 hd, orAbort_eq_ok.1 h⟩

/-- What a successful ProUpRevTx did: the masternode took the state `proUpRevState`. -/
theorem processProUpRevTx_eq_ok (h : processProUpRevTx env l tx = .ok l') :
    ∃ proTx dmn, tx.getProUpRevTx = some proTx ∧ l.getMN proTx.proTxHash = some dmn ∧
      l.updateMNByProTxHash env.SerializeHash proTx.proTxHash
        (proUpRevState env.nHeight dmn.pdmnState proTx) = some l' := by
  obtain ⟨proTx, hp, h⟩ := Fallible.except_bind_eq_ok h
  obtain ⟨dmn, hd, h⟩ := Fallible.except_bind_eq_ok h
  exact ⟨proTx, dmn, orAbort_eq_ok.1 hp, getMNOrReject_eq_ok.1 hd, orAbort_eq_ok.1 h⟩

/-- What a successful quorum commitment did: nothing for a null commitment, else the
punishments of `HandleQuorumCommitment`. -/
theorem processQcTx_eq_ok (h : processQcTx env l tx = .ok l') :
    ∃ qc, tx.getQcTx = some qc ∧
      ((qc.commitment.isNull = true ∧ l' = l) ∨
        handleQuorumCommitment env qc.commitment l = some l') := by
  obtain ⟨qc, hq, h⟩ := Fallible.except_bind_eq_ok h
  refine ⟨qc, orAbort_eq_ok.1 hq, ?_⟩
  split at h
  · next hnull => cases h; exact .inl ⟨hnull, rfl⟩
  · obtain ⟨dkgInterval, -, h⟩ := Fallible.except_bind_eq_ok h
    obtain ⟨u, -, h⟩ := Fallible.except_bind_eq_ok h
    exact .inr (orAbort_eq_ok.1 h)

/-! ## The frame of each pass -/

theorem confirmStep_sameHeader {dmn : CDeterministicMN} (h : confirmStep env l dmn = some l') :
    SameHeader l l' := by
  unfold confirmStep at h
  split at h
  · cases h; exact .refl _
  · split at h
    · exact updateMNByProTxHash_sameHeader h
    · cases h; exact .refl _

theorem decreasePoSePenalties_sameHeader (h : decreasePoSePenalties env l = some l') :
    SameHeader l l' :=
  Fallible.foldlM_option_inv (P := SameHeader l)
    (fun _ _ _ hs hstep => hs.trans (poSeDecrease_sameHeader hstep)) (.refl l) h

theorem punishMember_sameHeader {qc : CFinalCommitment} {member : uint256 × Nat}
    (h : punishMember env qc l member = some l') : SameHeader l l' := by
  unfold punishMember at h
  split at h
  · cases h; exact .refl _
  · obtain ⟨valid, -, h⟩ := Option.bind_eq_some_iff.1 h
    split at h
    · cases h; exact .refl _
    · obtain ⟨penalty, -, h⟩ := Option.bind_eq_some_iff.1 h
      exact poSePunish_sameHeader h

theorem handleQuorumCommitment_sameHeader {qc : CFinalCommitment}
    (h : handleQuorumCommitment env qc l = some l') : SameHeader l l' :=
  Fallible.foldlM_option_inv (P := SameHeader l)
    (fun _ _ _ hs hstep => hs.trans (punishMember_sameHeader hstep)) (.refl l) h

theorem removeReplacedMN_sameHeader {collateralOutpoint : COutPoint}
    (h : removeReplacedMN env l collateralOutpoint = .ok l') : SameHeader l l' := by
  rcases removeReplacedMN_eq_ok h with ⟨_, -, hr⟩ | ⟨-, rfl⟩
  · exact removeMN_sameHeader hr
  · exact .refl _

/-- A registration advances the counter by one and keeps the block hash and height. -/
theorem processProRegTx_sameHeader (h : processProRegTx env l tx = .ok l') :
    SameHeader { l with nTotalRegisteredCount := l.nTotalRegisteredCount + 1 } l' := by
  obtain ⟨proTx, l₁, -, -, hr, -, -, ha⟩ := processProRegTx_eq_ok h
  exact (removeReplacedMN_sameHeader hr).trans (addMN_sameHeader ha)

theorem processQcTx_sameHeader (h : processQcTx env l tx = .ok l') : SameHeader l l' := by
  obtain ⟨qc, -, ⟨-, rfl⟩ | hq⟩ := processQcTx_eq_ok h
  · exact .refl _
  · exact handleQuorumCommitment_sameHeader hq

/-- One iteration of the transaction loop advances the counter exactly for a registration. -/
theorem processSpecialTx_sameHeader (h : processSpecialTx env l tx = .ok l') :
    SameHeader (if tx.registersMN then
      { l with nTotalRegisteredCount := l.nTotalRegisteredCount + 1 } else l) l' := by
  unfold processSpecialTx at h
  by_cases hv : tx.nVersion = 2
  · rw [if_neg (not_not.2 hv)] at h
    by_cases hr : tx.nType = TRANSACTION_PROVIDER_REGISTER
    · rw [if_pos hr] at h
      have hreg : tx.registersMN = true := by simp [CTransaction.registersMN, hv, hr]
      rw [hreg, if_pos rfl]
      exact processProRegTx_sameHeader h
    · rw [if_neg hr] at h
      have hreg : tx.registersMN = false := by simp [CTransaction.registersMN, hr]
      rw [hreg, if_neg Bool.false_ne_true]
      -- every other branch only updates one masternode
      split at h
      · obtain ⟨_, _, -, -, -, hu⟩ := processProUpServTx_eq_ok h
        exact updateMNByProTxHash_sameHeader hu
      split at h
      · obtain ⟨_, _, -, -, hu⟩ := processProUpRegTx_eq_ok h
        exact updateMNByProTxHash_sameHeader hu
      split at h
      · obtain ⟨_, _, -, -, hu⟩ := processProUpRevTx_eq_ok h
        exact updateMNByProTxHash_sameHeader hu
      split at h
      · exact processQcTx_sameHeader h
      · cases h; exact .refl l
  · rw [if_pos hv] at h
    cases h
    have hreg : tx.registersMN = false := by simp [CTransaction.registersMN, hv]
    rw [hreg, if_neg Bool.false_ne_true]
    exact .refl l

/-- The transaction loop advances the counter by the number of registrations in it (modulo
`2^32`, as the `uint32_t` counter wraps) and keeps the block hash and the height. -/
theorem processSpecialTxs_header : ∀ {txs : List CTransaction} {l l' : CDeterministicMNList},
    txs.foldlM (processSpecialTx env) l = .ok l' →
    l'.blockHash = l.blockHash ∧ l'.nHeight = l.nHeight ∧
      l'.nTotalRegisteredCount =
        l.nTotalRegisteredCount + UInt32.ofNat (txs.filter CTransaction.registersMN).length
  | [], l, l', h => by
    cases h
    exact ⟨rfl, rfl, by simp⟩
  | tx :: txs, l, l', h => by
    obtain ⟨l₁, h₁, hrest⟩ := Fallible.foldlM_except_cons_eq_ok h
    have hstep := processSpecialTx_sameHeader h₁
    obtain ⟨hb, hh, hc⟩ := processSpecialTxs_header hrest
    cases hreg : tx.registersMN
    · rw [hreg, if_neg Bool.false_ne_true] at hstep
      obtain ⟨hb₁, hh₁, hc₁⟩ := hstep
      refine ⟨hb.trans hb₁, hh.trans hh₁, ?_⟩
      rw [hc, hc₁, List.filter_cons_of_neg (by simp [hreg])]
    · rw [hreg, if_pos rfl] at hstep
      obtain ⟨hb₁, hh₁, hc₁⟩ := hstep
      refine ⟨hb.trans hb₁, hh.trans hh₁, ?_⟩
      rw [hc, hc₁, List.filter_cons_of_pos hreg, List.length_cons, UInt32.ofNat_add,
        UInt32.ofNat_one]
      simp only [UInt32.add_assoc, UInt32.add_comm]

theorem spendCollateralStep_sameHeader {oldList : CDeterministicMNList} {txin : CTxIn}
    (h : spendCollateralStep env oldList l txin = some l') : SameHeader l l' := by
  unfold spendCollateralStep at h
  split at h
  · split at h
    · split at h
      · exact removeMN_sameHeader h
      · exact updateMNByProTxHash_sameHeader h
    · cases h; exact .refl l
  · cases h; exact .refl l

theorem payeeStep_sameHeader {payee : Option CDeterministicMN}
    (h : payeeStep env payee l = some l') : SameHeader l l' := by
  unfold payeeStep at h
  split at h
  · split at h
    · exact updateMNByProTxHash_sameHeader h
    · cases h; exact .refl l
  · cases h; exact .refl l

/-- The list a block builds has a null block hash and the block's height, and its counter has
advanced by the number of ProRegTxs of the block. -/
theorem buildNewListFromBlock_header {vtx : List CTransaction}
    (h : buildNewListFromBlock env l vtx = .ok l') :
    l'.blockHash = 0 ∧ l'.nHeight = env.nHeight ∧
      l'.nTotalRegisteredCount = l.nTotalRegisteredCount +
        UInt32.ofNat ((vtx.drop 1).filter CTransaction.registersMN).length := by
  obtain ⟨l₁, h₁, h⟩ := Fallible.except_bind_eq_ok h
  obtain ⟨l₂, h₂, h⟩ := Fallible.except_bind_eq_ok h
  obtain ⟨l₃, h₃, h⟩ := Fallible.except_bind_eq_ok h
  obtain ⟨l₄, h₄, h₅⟩ := Fallible.except_bind_eq_ok h
  -- the confirmations, the penalty decrease, the spent collaterals and the payee keep the header
  have hconf : SameHeader { l with blockHash := 0, nHeight := env.nHeight } l₁ :=
    Fallible.foldlM_option_inv (P := SameHeader { l with blockHash := 0, nHeight := env.nHeight })
      (fun _ _ _ hs hstep => hs.trans (confirmStep_sameHeader hstep)) (.refl _)
      (orAbort_eq_ok.1 h₁)
  have hdec : SameHeader l₁ l₂ := decreasePoSePenalties_sameHeader (orAbort_eq_ok.1 h₂)
  have hspend : SameHeader l₃ l₄ :=
    Fallible.foldlM_option_inv (P := SameHeader l₃)
      (fun _ _ _ hs hstep => hs.trans (spendCollateralStep_sameHeader hstep)) (.refl _)
      (orAbort_eq_ok.1 h₄)
  have hpay : SameHeader l₄ l' := payeeStep_sameHeader (orAbort_eq_ok.1 h₅)
  obtain ⟨hb, hh, hc⟩ := processSpecialTxs_header h₃
  have hpre := hconf.trans hdec
  have hpost := hspend.trans hpay
  exact ⟨hpost.1.trans (hb.trans hpre.1), hpost.2.1.trans (hh.trans hpre.2.1),
    hpost.2.2.trans (hc.trans (by rw [hpre.2.2]))⟩

end CDeterministicMNManager

end Emrals
