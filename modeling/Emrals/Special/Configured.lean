import Emrals.Special.BuildInvariant
import Emrals.Special.CheckSpecialTx
import Emrals.Special.BlockAborts

/-!
# Valid masternodes are configured

A masternode that is not PoSe-banned (`IsMNValid`, `nPoSeBanHeight == -1`) is one the list pays
and that quorums count on: it must have a service address, a valid operator key, and owner and
voting keys. Nothing checks this when the list is read; it holds because every way
`BuildNewListFromBlock` changes a masternode (`src/special/deterministicmns.cpp:637-829`) either
keeps the fields or bans the masternode:

* a ProRegTx without an address registers the masternode banned, "as we need to wait for a
  ProUpServTx", and `CheckProRegTx` rejects null keys;
* a ProUpServTx revives a banned masternode only when its keys are all set, and `CheckProUpServTx`
  rejects the unset address (`CheckService`: `CService()` is not a valid address);
* a ProUpRegTx that changes the operator key, a ProUpRevTx, and a collateral spent in the block
  that registered it reset the operator fields (`ResetOperatorFields`) and ban
  (`BanIfNotBanned`), at the height of the block, which is never `-1`;
* punishment bans or keeps the ban, and the penalty only drops while it is positive.

`ValidConfigured` is this invariant of one state, and `chainReachable_validConfigured` carries it
over every list a chain reaches. A ban, once set, stays through every block that has no
ProUpServTx for the masternode (`run_keeps_ban`).
-/

namespace Emrals

namespace CDeterministicMNState

/-- The fields a masternode serves with: an address other than `CService()`, a valid operator
key, and owner and voting keys. -/
def isConfigured (s : CDeterministicMNState) : Bool :=
  s.addr != default && s.pubKeyOperator.isValid && !s.keyIDOwner.isNull && !s.keyIDVoting.isNull

/-- The invariant of a masternode's state: its penalty is not negative, and when it is not banned
it is configured. -/
structure ValidConfigured (s : CDeterministicMNState) : Prop where
  penalty_nonneg : 0 ≤ s.nPoSePenalty
  configured : s.nPoSeBanHeight = -1 → s.isConfigured = true

instance (s : CDeterministicMNState) : Decidable s.ValidConfigured :=
  decidable_of_iff (0 ≤ s.nPoSePenalty ∧ (s.nPoSeBanHeight = -1 → s.isConfigured = true))
    ⟨fun h => ⟨h.1, h.2⟩, fun h => ⟨h.1, h.2⟩⟩

/-! ## `BanIfNotBanned` -/

@[simp] theorem banIfNotBanned_nPoSePenalty (s : CDeterministicMNState) (height : Int) :
    (s.banIfNotBanned height).nPoSePenalty = s.nPoSePenalty := by
  unfold banIfNotBanned
  split <;> rfl

@[simp] theorem resetOperatorFields_nPoSePenalty (s : CDeterministicMNState) :
    s.resetOperatorFields.nPoSePenalty = s.nPoSePenalty := rfl

@[simp] theorem resetOperatorFields_nPoSeBanHeight (s : CDeterministicMNState) :
    s.resetOperatorFields.nPoSeBanHeight = s.nPoSeBanHeight := rfl

/-- After `BanIfNotBanned` the masternode is banned, when it was banned before or the height is
not `-1`. -/
theorem banIfNotBanned_banned {s : CDeterministicMNState} {height : Int}
    (h : s.nPoSeBanHeight ≠ -1 ∨ height ≠ -1) :
    (s.banIfNotBanned height).nPoSeBanHeight ≠ -1 := by
  unfold banIfNotBanned
  split
  · next hs => exact h.resolve_left (not_not.2 hs)
  · next hs => exact hs

/-- A ProUpRegTx bans a banned masternode, and one whose operator key it changes at a height
other than `-1`. -/
theorem proUpRegState_banned {s : CDeterministicMNState} {nHeight : Int} {proTx : CProUpRegTx}
    (h : s.nPoSeBanHeight ≠ -1 ∨ (nHeight ≠ -1 ∧ s.pubKeyOperator ≠ proTx.pubKeyOperator)) :
    (proUpRegState nHeight s proTx).nPoSeBanHeight ≠ -1 := by
  unfold proUpRegState
  dsimp only
  split
  · exact banIfNotBanned_banned (h.imp id And.left)
  · next hsame => exact h.resolve_right fun h' => hsame h'.2

theorem proUpRevState_banned {s : CDeterministicMNState} {nHeight : Int} {proTx : CProUpRevTx}
    (h : s.nPoSeBanHeight ≠ -1 ∨ nHeight ≠ -1) :
    (proUpRevState nHeight s proTx).nPoSeBanHeight ≠ -1 :=
  banIfNotBanned_banned h

/-! ## The transitions keep the invariant -/

section
variable {s : CDeterministicMNState} {nHeight : Int}

/-- A banned state with a penalty that is not negative is valid whatever its fields. -/
theorem ValidConfigured.of_banned (hp : 0 ≤ s.nPoSePenalty) (hb : s.nPoSeBanHeight ≠ -1) :
    s.ValidConfigured :=
  ⟨hp, fun h => absurd h hb⟩

theorem ValidConfigured.updateConfirmedHash (hs : s.ValidConfigured)
    (sha256 : uint256 → uint256 → uint256) (proTxHash confirmedHash : uint256) :
    (s.updateConfirmedHash sha256 proTxHash confirmedHash).ValidConfigured :=
  ⟨hs.1, hs.2⟩

theorem ValidConfigured.poSeDecrease (hs : s.ValidConfigured) (hpos : 0 < s.nPoSePenalty) :
    ({ s with nPoSePenalty := s.nPoSePenalty - 1 } : CDeterministicMNState).ValidConfigured :=
  ⟨by dsimp only; omega, hs.2⟩

/-- `PoSePunish` adds a positive penalty under a positive cap, and sets the ban height only from
`-1`: an unbanned result was an unbanned, so configured, masternode. -/
theorem ValidConfigured.poSePunish (hs : s.ValidConfigured) {maxPenalty penalty banHeight : Int}
    (hmax : 100 ≤ maxPenalty) (hpos : 0 < penalty)
    (hban : banHeight = s.nPoSeBanHeight ∨ (s.nPoSeBanHeight = -1 ∧ banHeight = nHeight)) :
    ({ s with nPoSePenalty := min maxPenalty (s.nPoSePenalty + penalty),
              nPoSeBanHeight := banHeight } : CDeterministicMNState).ValidConfigured := by
  have hp := hs.penalty_nonneg
  refine ⟨by dsimp only; omega, fun hb => hs.configured ?_⟩
  rcases hban with rfl | ⟨hold, -⟩
  · exact hb
  · exact hold

theorem ValidConfigured.paid (hs : s.ValidConfigured) :
    ({ s with nLastPaidHeight := nHeight } : CDeterministicMNState).ValidConfigured :=
  ⟨hs.1, hs.2⟩

/-- The reset of a masternode whose collateral is spent in the block that registered it. -/
theorem ValidConfigured.spendReset (hs : s.ValidConfigured) (hh : nHeight ≠ -1) :
    ({ s.resetOperatorFields.banIfNotBanned nHeight with
        nRevocationReason := CProUpRevTx.REASON_NOT_SPECIFIED } :
      CDeterministicMNState).ValidConfigured :=
  .of_banned (by simpa using hs.1) (banIfNotBanned_banned (.inr hh))

/-- A registration with set keys: banned when it has no address, configured when it has one. -/
theorem validConfigured_proRegState {proTx : CProRegTx} (hh : nHeight ≠ -1)
    (howner : proTx.keyIDOwner.isNull = false) (hop : proTx.pubKeyOperator.isValid = true)
    (hvoting : proTx.keyIDVoting.isNull = false) : (proRegState nHeight proTx).ValidConfigured := by
  unfold Emrals.proRegState
  split
  · exact .of_banned (le_refl 0) hh
  · next haddr =>
    refine ⟨le_refl 0, fun _ => ?_⟩
    simp [isConfigured, ofProRegTx, haddr, hop, howner, hvoting]

/-- A ProUpServTx with a set address: a revival checks the keys, and an unbanned masternode had
them already. -/
theorem ValidConfigured.proUpServState (hs : s.ValidConfigured) {proTx : CProUpServTx}
    (haddr : proTx.addr ≠ default) : (proUpServState nHeight s proTx).ValidConfigured := by
  unfold Emrals.proUpServState
  dsimp only
  split
  · next hrev =>
    obtain ⟨-, hop, hvoting, howner⟩ := hrev
    refine ⟨le_refl 0, fun _ => ?_⟩
    simp_all [isConfigured]
  · refine ⟨hs.1, fun hb => ?_⟩
    have hc := hs.2 hb
    simp only [isConfigured, Bool.and_eq_true, bne_iff_ne] at hc ⊢
    exact ⟨⟨⟨haddr, hc.1.1.2⟩, hc.1.2⟩, hc.2⟩

/-- A ProUpRegTx with a valid operator key and a voting key: a new operator key bans, the same
key keeps the address and the owner key. -/
theorem ValidConfigured.proUpRegState (hs : s.ValidConfigured) {proTx : CProUpRegTx}
    (hh : nHeight ≠ -1) (hop : proTx.pubKeyOperator.isValid = true)
    (hvoting : proTx.keyIDVoting.isNull = false) :
    (proUpRegState nHeight s proTx).ValidConfigured := by
  unfold Emrals.proUpRegState
  dsimp only
  split
  · exact .of_banned (by simpa using hs.1) (banIfNotBanned_banned (.inr hh))
  · refine ⟨hs.1, fun hb => ?_⟩
    have hc := hs.2 hb
    simp only [isConfigured, Bool.and_eq_true, bne_iff_ne, Bool.not_eq_true'] at hc ⊢
    exact ⟨⟨⟨hc.1.1.1, hop⟩, hc.1.2⟩, hvoting⟩

theorem ValidConfigured.proUpRevState (hs : s.ValidConfigured) {proTx : CProUpRevTx}
    (hh : nHeight ≠ -1) : (proUpRevState nHeight s proTx).ValidConfigured :=
  .of_banned (by simpa [Emrals.proUpRevState] using hs.1) (proUpRevState_banned (.inr hh))

end

end CDeterministicMNState

open CDeterministicMNState CDeterministicMNList

/-! ## The blocks of a chain keep the invariant -/

namespace CDeterministicMNManager

/-- Every transition of a block keeps `ValidConfigured`, when the block's height is not `-1` and
its transactions pass `CheckSpecialTx`. -/
theorem keepsMNProperty_validConfigured {env : BuildEnv} {cenv : CheckEnv}
    {mnList : CDeterministicMNList} {vtx : List CTransaction} (hh : env.nHeight ≠ -1)
    (hchk : ∀ tx ∈ vtx, checkSpecialTx env cenv mnList tx = .ok ()) :
    KeepsMNProperty env vtx fun dmn => dmn.pdmnState.ValidConfigured where
  confirm dmn _ hq _ := hq.updateConfirmedHash _ _ _
  decrease _ hq hpos _ := hq.poSeDecrease hpos
  punish _ _ _ _ hmax hpos hban hq := hq.poSePunish hmax hpos hban
  register tx htx hv ht proTx hp _ := by
    have hc := hchk tx (List.mem_of_mem_drop htx)
    rw [checkSpecialTx_proRegTx hv ht] at hc
    obtain ⟨ptx, hp', howner, hop, hvoting, -⟩ := checkProRegTx_payload hc
    rw [hp] at hp'
    cases hp'
    exact validConfigured_proRegState hh howner hop hvoting
  updateService tx htx hv ht proTx hp _ _ hq := by
    have hc := hchk tx (List.mem_of_mem_drop htx)
    rw [checkSpecialTx_proUpServTx hv ht] at hc
    obtain ⟨ptx, hp', hok⟩ := checkProUpServTx_payload hc
    obtain rfl : proTx = ptx := Option.some.inj (hp.symm.trans hp')
    -- `CheckService` passed the new address and rejects `CService()`
    have haddr : proTx.addr ≠ default := fun h => by
      have hsvc := checkService_default_isSome cenv.params
      rw [← h, hok] at hsvc
      cases hsvc
    exact hq.proUpServState haddr
  updateRegistrar tx htx hv ht proTx hp _ _ hq := by
    have hc := hchk tx (List.mem_of_mem_drop htx)
    rw [checkSpecialTx_proUpRegTx hv ht] at hc
    obtain ⟨ptx, hp', hop, hvoting⟩ := checkProUpRegTx_payload hc
    rw [hp] at hp'
    cases hp'
    exact hq.proUpRegState hh hop hvoting
  revoke _ _ _ _ _ _ _ _ hq := hq.proUpRevState hh
  spendReset _ hq := hq.spendReset hh
  paid _ hq := hq.paid

end CDeterministicMNManager

section
variable {SerializeHash : UniqueProperty → uint256} {cenv : CheckEnv}
  {l l' : CDeterministicMNList}

/-- A block of a chain keeps the invariant of every masternode: its parent has a height, so its
own height is not `-1`. -/
theorem chainStep_validConfigured {blk : BuildEnv × List CTransaction}
    (hl : l.KeysMatch ∧ AllMNs (fun dmn => dmn.pdmnState.ValidConfigured) l)
    (h : chainStep SerializeHash cenv l blk = some l') :
    l'.KeysMatch ∧ AllMNs (fun dmn => dmn.pdmnState.ValidConfigured) l' := by
  obtain ⟨hprev, hchk, hbuild⟩ := chainStep_eq_some h
  have hh : ({ blk.1 with SerializeHash := SerializeHash } : BuildEnv).nHeight ≠ -1 := by
    unfold BuildEnv.nHeight
    dsimp only
    omega
  exact CDeterministicMNManager.buildNewListFromBlock_keeps
    (CDeterministicMNManager.keepsMNProperty_validConfigured hh hchk) hl.1 hl.2 hbuild

/-- Every list a chain reaches files its masternodes under their hashes, and every masternode of
it is `ValidConfigured`. -/
theorem chainReachable_validConfigured (h : ChainReachable SerializeHash cenv l) :
    l.KeysMatch ∧ AllMNs (fun dmn => dmn.pdmnState.ValidConfigured) l :=
  Machine.Reachable.induction_on_inv
    (P := fun l => l.KeysMatch ∧ AllMNs (fun dmn => dmn.pdmnState.ValidConfigured) l) h
    ⟨keysMatch_empty, allMNs_empty⟩
    fun _ _ _ hs hstep => chainStep_validConfigured hs hstep

end

/-! ## The resets ban -/

/-- `IsMNPoSeBanned`. -/
@[simp] theorem isMNPoSeBanned_eq_true {dmn : CDeterministicMN} :
    isMNPoSeBanned dmn = true ↔ dmn.pdmnState.nPoSeBanHeight ≠ -1 := by
  simp [isMNPoSeBanned]

namespace CDeterministicMNManager

section
variable {env : BuildEnv} {l l' : CDeterministicMNList} {tx : CTransaction}

/-- A ProUpRevTx leaves the masternode it revokes banned. -/
theorem processProUpRevTx_banned (hkeys : l.KeysMatch) (hh : env.nHeight ≠ -1)
    (h : processProUpRevTx env l tx = .ok l') :
    ∃ proTx dmn, tx.getProUpRevTx = some proTx ∧ l'.getMN proTx.proTxHash = some dmn ∧
      isMNPoSeBanned dmn = true := by
  obtain ⟨proTx, dmn, hp, -, hu⟩ := processProUpRevTx_eq_ok h
  obtain ⟨old, -, hget⟩ := getMN_updateMNByProTxHash hkeys hu
  refine ⟨proTx, _, hp, by rw [hget, if_pos rfl], ?_⟩
  exact isMNPoSeBanned_eq_true.2 (proUpRevState_banned (.inr hh))

/-- A ProUpRegTx that changes the operator key of a masternode leaves it banned. -/
theorem processProUpRegTx_banned (hkeys : l.KeysMatch) (hh : env.nHeight ≠ -1)
    (h : processProUpRegTx env l tx = .ok l') :
    ∃ proTx dmn dmn', tx.getProUpRegTx = some proTx ∧ l.getMN proTx.proTxHash = some dmn ∧
      l'.getMN proTx.proTxHash = some dmn' ∧
      (dmn.pdmnState.pubKeyOperator ≠ proTx.pubKeyOperator → isMNPoSeBanned dmn' = true) := by
  obtain ⟨proTx, dmn, hp, hd, hu⟩ := processProUpRegTx_eq_ok h
  obtain ⟨old, -, hget⟩ := getMN_updateMNByProTxHash hkeys hu
  refine ⟨proTx, dmn, _, hp, hd, by rw [hget, if_pos rfl], fun hnew => ?_⟩
  exact isMNPoSeBanned_eq_true.2 (proUpRegState_banned (.inr ⟨hh, hnew⟩))

/-- A collateral spent in the block that registered its masternode, which the parent's list does
not hold, leaves the masternode reset and banned. -/
theorem spendCollateralStep_reset_banned {oldList newList : CDeterministicMNList} {txin : CTxIn}
    {dmn : CDeterministicMN} (hkeys : newList.KeysMatch) (hh : env.nHeight ≠ -1)
    (hnew : newList.getMNByCollateral env.SerializeHash txin.prevout = some dmn)
    (hcol : dmn.collateralOutpoint = txin.prevout)
    (hold : oldList.getMNByCollateral env.SerializeHash txin.prevout = none)
    (h : spendCollateralStep env oldList newList txin = some l') :
    ∃ dmn', l'.getMN dmn.proTxHash = some dmn' ∧ isMNPoSeBanned dmn' = true := by
  simp only [spendCollateralStep, hnew, hcol, hold, if_true] at h
  obtain ⟨old, -, hget⟩ := getMN_updateMNByProTxHash hkeys h
  refine ⟨_, by rw [hget, if_pos rfl], ?_⟩
  exact isMNPoSeBanned_eq_true.2 (banIfNotBanned_banned (.inr hh))

end

end CDeterministicMNManager

/-! ## A ban stays until a ProUpServTx -/

/-- A transaction that may leave the masternode of `proTxHash` unbanned: a ProUpServTx for it,
which revives it, or a ProRegTx of that hash, which registers it anew (transaction hashes are
unique, so no transaction after the masternode's own registration is one). -/
def CTransaction.MayUnban (tx : CTransaction) (proTxHash : uint256) : Prop :=
  (tx.nType = TRANSACTION_PROVIDER_REGISTER ∧ tx.hash = proTxHash) ∨
    (tx.nType = TRANSACTION_PROVIDER_UPDATE_SERVICE ∧
      tx.getProUpServTx.map (·.proTxHash) = some proTxHash)

instance (tx : CTransaction) (proTxHash : uint256) : Decidable (tx.MayUnban proTxHash) :=
  inferInstanceAs (Decidable (_ ∨ _))

namespace CDeterministicMNManager

/-- In a block with no transaction that may unban the masternode of `proTxHash`, every transition
keeps it banned. -/
theorem keepsMNProperty_banned {env : BuildEnv} {vtx : List CTransaction} {proTxHash : uint256}
    (hno : ∀ tx ∈ vtx, ¬ tx.MayUnban proTxHash) :
    KeepsMNProperty env vtx fun dmn =>
      dmn.proTxHash = proTxHash → dmn.pdmnState.nPoSeBanHeight ≠ -1 where
  confirm _ _ hq hkey hself := hq (hkey.symm.trans hself)
  decrease _ hq _ _ := hq
  punish _ _ _ _ _ _ hban hq hself := by
    have hb := hq hself
    rcases hban with rfl | ⟨hold, -⟩
    · exact hb
    · exact absurd hold hb
  register tx htx _ ht _ _ _ hself :=
    absurd (.inl ⟨ht, hself⟩) (hno tx (List.mem_of_mem_drop htx))
  updateService tx htx _ ht proTx hp _ hkey _ hself := by
    -- a ProUpServTx for the masternode is excluded
    have hmay : tx.MayUnban proTxHash :=
      .inr ⟨ht, by rw [hp]; exact congrArg some (hkey.symm.trans hself)⟩
    exact absurd hmay (hno tx (List.mem_of_mem_drop htx))
  updateRegistrar _ _ _ _ _ _ _ _ hq hself := proUpRegState_banned (.inl (hq hself))
  revoke _ _ _ _ _ _ _ _ hq hself := proUpRevState_banned (.inl (hq hself))
  spendReset _ hq hself := banIfNotBanned_banned (.inl (hq hself))
  paid _ hq := hq

end CDeterministicMNManager

section
variable {SerializeHash : UniqueProperty → uint256} {cenv : CheckEnv}
  {l l' : CDeterministicMNList} {proTxHash : uint256}

theorem chainStep_keeps_ban {blk : BuildEnv × List CTransaction}
    (hno : ∀ tx ∈ blk.2, ¬ tx.MayUnban proTxHash)
    (hl : l.KeysMatch ∧
      AllMNs (fun dmn => dmn.proTxHash = proTxHash → dmn.pdmnState.nPoSeBanHeight ≠ -1) l)
    (h : chainStep SerializeHash cenv l blk = some l') :
    l'.KeysMatch ∧
      AllMNs (fun dmn => dmn.proTxHash = proTxHash → dmn.pdmnState.nPoSeBanHeight ≠ -1) l' := by
  obtain ⟨-, -, hbuild⟩ := chainStep_eq_some h
  exact CDeterministicMNManager.buildNewListFromBlock_keeps
    (CDeterministicMNManager.keepsMNProperty_banned hno) hl.1 hl.2 hbuild

/-- Over blocks none of which may unban the masternode of `proTxHash`, a banned (or absent)
masternode stays banned (or absent). -/
theorem run_keeps_ban {blocks : List (BuildEnv × List CTransaction)} (hkeys : l.KeysMatch)
    (hno : ∀ blk ∈ blocks, ∀ tx ∈ blk.2, ¬ tx.MayUnban proTxHash)
    (hrun : Machine.run (chainStep SerializeHash cenv) l blocks = some l')
    (hban : ∀ dmn, l.getMN proTxHash = some dmn → isMNPoSeBanned dmn = true) :
    ∀ dmn, l'.getMN proTxHash = some dmn → isMNPoSeBanned dmn = true := by
  have h₀ : l.KeysMatch ∧
      AllMNs (fun dmn => dmn.proTxHash = proTxHash → dmn.pdmnState.nPoSeBanHeight ≠ -1) l :=
    ⟨hkeys, hkeys.allMNs_hash_iff.2 fun dmn hd => isMNPoSeBanned_eq_true.1 (hban dmn hd)⟩
  have h₁ :=
    Machine.run_inv (fun _ _ _ hR hs hstep => chainStep_keeps_ban hR hs hstep) hno h₀ hrun
  exact fun dmn hd => isMNPoSeBanned_eq_true.2 (h₁.1.allMNs_hash_iff.1 h₁.2 dmn hd)

end

/-! ## Valid masternodes are configured, and a reset bans until a ProUpServTx -/

/-- On every list a chain of checked blocks reaches from the empty list, a masternode has a
penalty that is not negative and, unless banned, an address, a valid operator key, an owner key
and a voting key. A ProUpRevTx, a ProUpRegTx that changes the operator key, and a collateral spent
in the block that registered it each leave the masternode banned; and a banned masternode stays
banned through every block that has no ProUpServTx for it (nor a registration of its hash). -/
theorem validMNs_configured_resets_banned {SerializeHash : UniqueProperty → uint256}
    {cenv : CheckEnv} :
    (∀ l, ChainReachable SerializeHash cenv l →
      AllMNs (fun dmn => dmn.pdmnState.ValidConfigured) l) ∧
    (∀ (env : BuildEnv) (l l' : CDeterministicMNList) (tx : CTransaction), l.KeysMatch →
      env.nHeight ≠ -1 →
      (CDeterministicMNManager.processProUpRevTx env l tx = .ok l' →
        ∃ proTx dmn, tx.getProUpRevTx = some proTx ∧ l'.getMN proTx.proTxHash = some dmn ∧
          isMNPoSeBanned dmn = true) ∧
      (CDeterministicMNManager.processProUpRegTx env l tx = .ok l' →
        ∃ proTx dmn dmn', tx.getProUpRegTx = some proTx ∧ l.getMN proTx.proTxHash = some dmn ∧
          l'.getMN proTx.proTxHash = some dmn' ∧
          (dmn.pdmnState.pubKeyOperator ≠ proTx.pubKeyOperator → isMNPoSeBanned dmn' = true))) ∧
    (∀ (env : BuildEnv) (oldList newList l' : CDeterministicMNList) (txin : CTxIn)
      (dmn : CDeterministicMN), newList.KeysMatch → env.nHeight ≠ -1 →
      newList.getMNByCollateral env.SerializeHash txin.prevout = some dmn →
      dmn.collateralOutpoint = txin.prevout →
      oldList.getMNByCollateral env.SerializeHash txin.prevout = none →
      CDeterministicMNManager.spendCollateralStep env oldList newList txin = some l' →
      ∃ dmn', l'.getMN dmn.proTxHash = some dmn' ∧ isMNPoSeBanned dmn' = true) ∧
    (∀ (l l' : CDeterministicMNList) (blocks : List (BuildEnv × List CTransaction))
      (proTxHash : uint256), ChainReachable SerializeHash cenv l →
      Machine.run (chainStep SerializeHash cenv) l blocks = some l' →
      (∀ blk ∈ blocks, ∀ tx ∈ blk.2, ¬ tx.MayUnban proTxHash) →
      (∀ dmn, l.getMN proTxHash = some dmn → isMNPoSeBanned dmn = true) →
      ∀ dmn, l'.getMN proTxHash = some dmn → isMNPoSeBanned dmn = true) := by
  refine ⟨fun l hl => (chainReachable_validConfigured hl).2, ?_, ?_, ?_⟩
  · intro env l l' tx hkeys hh
    exact ⟨CDeterministicMNManager.processProUpRevTx_banned hkeys hh,
      CDeterministicMNManager.processProUpRegTx_banned hkeys hh⟩
  · intro env oldList newList l' txin dmn hkeys hh hnew hcol hold hstep
    exact CDeterministicMNManager.spendCollateralStep_reset_banned hkeys hh hnew hcol hold hstep
  · intro l l' blocks proTxHash hl hrun hno hban
    exact run_keeps_ban (chainReachable_validConfigured hl).1 hno hrun hban

namespace ConfiguredFixture

open BlockAbortsFixture

/-- The list of a block that registers two masternodes, with their addresses and keys. -/
theorem chainReachable_cenv_validConfigured :
    ChainReachable serializeHash cenv list₁ ∧ list₁.getAllMNsCount = 2 ∧
      AllMNs (fun dmn => dmn.pdmnState.ValidConfigured) list₁ :=
  have hl : ChainReachable serializeHash cenv list₁ := .step (env 0, vtx₁) .init rfl
  ⟨hl, by decide, (@validMNs_configured_resets_banned serializeHash cenv).1 list₁ hl⟩

end ConfiguredFixture

end Emrals
