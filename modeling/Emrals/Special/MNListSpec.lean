import Emrals.Special.MNList

/-!
# What the list operations do to the masternodes

One lemma per operation of `CDeterministicMNList` says what `GetMN` sees after it: `AddMN` adds
the masternode under its ProTx hash, `UpdateMN` replaces the state of one masternode, `RemoveMN`
removes one, and every other masternode is as it was. The invariants of the masternodes of a
list are then stated once (`AllMNs`) with one rule per operation, and the proofs about whole
blocks never unfold an operation again.

`KeysMatch` is the invariant that every masternode is filed under its own ProTx hash; every
operation keeps it, so the masternode that `UpdateMN(proTxHash, ...)` changes is the one of that
hash.
-/

namespace Emrals

namespace CDeterministicMNList

variable {SerializeHash : UniqueProperty → uint256} {l l' : CDeterministicMNList}

/-! ## `GetMN` after each operation -/

theorem getMN_addMN {dmn : CDeterministicMN} (h : l.addMN SerializeHash dmn = some l')
    (k : uint256) : l'.getMN k = if k = dmn.proTxHash then some dmn else l.getMN k := by
  unfold addMN at h
  split at h
  · cases h
  · obtain ⟨m, -, ⟨⟩⟩ := Option.bind_eq_some_iff.1 h
    split
    · next hk => subst hk; exact AList.lookup_insert _
    · next hk => exact AList.lookup_insert_ne hk

theorem getMN_updateMN {oldDmn : CDeterministicMN} {pdmnState : CDeterministicMNState}
    (h : l.updateMN SerializeHash oldDmn pdmnState = some l') (k : uint256) :
    l'.getMN k =
      if k = oldDmn.proTxHash then some { oldDmn with pdmnState := pdmnState } else l.getMN k := by
  obtain ⟨m, -, ⟨⟩⟩ := Option.bind_eq_some_iff.1 h
  split
  · next hk => subst hk; exact AList.lookup_insert _
  · next hk => exact AList.lookup_insert_ne hk

/-- `UpdateMN` by ProTx hash is `UpdateMN` of the masternode `GetMN` finds. -/
theorem updateMNByProTxHash_eq_some {proTxHash : uint256} {pdmnState : CDeterministicMNState}
    (h : l.updateMNByProTxHash SerializeHash proTxHash pdmnState = some l') :
    ∃ oldDmn, l.getMN proTxHash = some oldDmn ∧
      l.updateMN SerializeHash oldDmn pdmnState = some l' :=
  Option.bind_eq_some_iff.1 h

theorem getMN_removeMN {proTxHash : uint256} (h : l.removeMN SerializeHash proTxHash = some l')
    (k : uint256) : l'.getMN k = if k = proTxHash then none else l.getMN k := by
  obtain ⟨dmn, -, h⟩ := Option.bind_eq_some_iff.1 h
  obtain ⟨m, -, ⟨⟩⟩ := Option.bind_eq_some_iff.1 h
  split
  · next hk => subst hk; exact AList.lookup_erase _ _
  · next hk => exact AList.lookup_erase_ne hk

/-- `PoSePunish` sets the penalty, capped at the maximum, and may set the ban height, which it
does only for a masternode not yet banned, at the list's height. -/
theorem poSePunish_eq_some {proTxHash : uint256} {penalty : Int}
    (h : l.poSePunish SerializeHash proTxHash penalty = some l') :
    0 < penalty ∧ ∃ dmn banHeight, l.getMN proTxHash = some dmn ∧
      (banHeight = dmn.pdmnState.nPoSeBanHeight ∨
        (dmn.pdmnState.nPoSeBanHeight = -1 ∧ banHeight = l.nHeight)) ∧
      l.updateMNByProTxHash SerializeHash proTxHash
        { dmn.pdmnState with
          nPoSePenalty := min l.calcMaxPoSePenalty (dmn.pdmnState.nPoSePenalty + penalty),
          nPoSeBanHeight := banHeight } = some l' := by
  unfold poSePunish at h
  split at h
  · cases h
  · next hpos =>
    obtain ⟨dmn, hd, h⟩ := Option.bind_eq_some_iff.1 h
    refine ⟨by omega, dmn, ?_⟩
    dsimp only at h
    split at h
    · next hban => exact ⟨l.nHeight, hd, .inr ⟨hban.2, rfl⟩, h⟩
    · exact ⟨dmn.pdmnState.nPoSeBanHeight, hd, .inl rfl, h⟩

/-- `PoSeDecrease` lowers by one the positive penalty of a masternode that is not banned. -/
theorem poSeDecrease_eq_some {proTxHash : uint256}
    (h : l.poSeDecrease SerializeHash proTxHash = some l') :
    ∃ dmn, l.getMN proTxHash = some dmn ∧ 0 < dmn.pdmnState.nPoSePenalty ∧
      dmn.pdmnState.nPoSeBanHeight = -1 ∧
      l.updateMNByProTxHash SerializeHash proTxHash
        { dmn.pdmnState with nPoSePenalty := dmn.pdmnState.nPoSePenalty - 1 } = some l' := by
  obtain ⟨dmn, hd, h⟩ := Option.bind_eq_some_iff.1 h
  split at h
  · next hc => exact ⟨dmn, hd, hc.1, hc.2, h⟩
  · cases h

/-- The masternode `GetMNByCollateral` finds is one of the list. -/
theorem getMN_of_getMNByCollateral {collateralOutpoint : COutPoint} {dmn : CDeterministicMN}
    (h : l.getMNByCollateral SerializeHash collateralOutpoint = some dmn) :
    ∃ k, l.getMN k = some dmn := by
  obtain ⟨p, -, hp⟩ := Option.bind_eq_some_iff.1 h
  exact ⟨p.1, hp⟩

/-- The maximum penalty is at least 100. -/
theorem calcMaxPoSePenalty_ge (l : CDeterministicMNList) : 100 ≤ l.calcMaxPoSePenalty := by
  unfold calcMaxPoSePenalty
  exact Int.le_max_left _ _

/-! ## Every masternode is filed under its own hash -/

/-- `mnMap` files every masternode under its ProTx hash. -/
def KeysMatch (l : CDeterministicMNList) : Prop :=
  ∀ k dmn, l.getMN k = some dmn → dmn.proTxHash = k

theorem keysMatch_empty : KeysMatch {} := fun _ _ h => nomatch h

theorem KeysMatch.addMN {dmn : CDeterministicMN} (hl : l.KeysMatch)
    (h : l.addMN SerializeHash dmn = some l') : l'.KeysMatch := by
  intro k d hd
  rw [getMN_addMN h] at hd
  split at hd
  · next hk => cases hd; exact hk.symm
  · exact hl k d hd

theorem KeysMatch.updateMN {oldDmn : CDeterministicMN} {pdmnState : CDeterministicMNState}
    (hl : l.KeysMatch) (h : l.updateMN SerializeHash oldDmn pdmnState = some l') :
    l'.KeysMatch := by
  intro k d hd
  rw [getMN_updateMN h] at hd
  split at hd
  · next hk => cases hd; exact hk.symm
  · exact hl k d hd

theorem KeysMatch.updateMNByProTxHash {proTxHash : uint256} {pdmnState : CDeterministicMNState}
    (hl : l.KeysMatch) (h : l.updateMNByProTxHash SerializeHash proTxHash pdmnState = some l') :
    l'.KeysMatch := by
  obtain ⟨oldDmn, -, hu⟩ := updateMNByProTxHash_eq_some h
  exact hl.updateMN hu

theorem KeysMatch.removeMN {proTxHash : uint256} (hl : l.KeysMatch)
    (h : l.removeMN SerializeHash proTxHash = some l') : l'.KeysMatch := by
  intro k d hd
  rw [getMN_removeMN h] at hd
  split at hd
  · cases hd
  · exact hl k d hd

/-- With every masternode under its own hash, `UpdateMN` by ProTx hash changes the state of the
masternode of that hash and nothing else. -/
theorem getMN_updateMNByProTxHash {proTxHash : uint256} {pdmnState : CDeterministicMNState}
    (hl : l.KeysMatch) (h : l.updateMNByProTxHash SerializeHash proTxHash pdmnState = some l') :
    ∃ oldDmn, l.getMN proTxHash = some oldDmn ∧ ∀ k, l'.getMN k =
      if k = proTxHash then some { oldDmn with pdmnState := pdmnState } else l.getMN k := by
  obtain ⟨oldDmn, hd, hu⟩ := updateMNByProTxHash_eq_some h
  have hkey : oldDmn.proTxHash = proTxHash := hl _ _ hd
  refine ⟨oldDmn, hd, fun k => ?_⟩
  rw [getMN_updateMN hu, hkey]

/-! ## Properties of every masternode -/

/-- Every masternode of the list satisfies `Q`. -/
def AllMNs (Q : CDeterministicMN → Prop) (l : CDeterministicMNList) : Prop :=
  ∀ k dmn, l.getMN k = some dmn → Q dmn

section
variable {Q : CDeterministicMN → Prop}

theorem allMNs_empty : AllMNs Q {} := fun _ _ h => nomatch h

theorem AllMNs.of_mem_allMNs (hl : AllMNs Q l) {dmn : CDeterministicMN}
    (hd : dmn ∈ l.allMNs) : Q dmn := by
  obtain ⟨e, he, rfl⟩ := List.mem_map.1 hd
  exact hl e.1 e.2 (Option.mem_def.1 (AList.mem_lookup_iff.2 he))

/-- `AllMNs` reads the masternodes `allMNs` lists. -/
theorem allMNs_iff_forall_mem : AllMNs Q l ↔ ∀ dmn ∈ l.allMNs, Q dmn := by
  refine ⟨fun hl _ hd => hl.of_mem_allMNs hd, fun h k dmn hk => h dmn ?_⟩
  exact List.mem_map.2 ⟨⟨k, dmn⟩, AList.mem_lookup_iff.1 (Option.mem_def.2 hk), rfl⟩

instance [DecidablePred Q] (l : CDeterministicMNList) : Decidable (AllMNs Q l) :=
  decidable_of_iff _ allMNs_iff_forall_mem.symm

theorem AllMNs.addMN {dmn : CDeterministicMN} (hl : AllMNs Q l)
    (h : l.addMN SerializeHash dmn = some l') (hq : Q dmn) : AllMNs Q l' := by
  intro k d hd
  rw [getMN_addMN h] at hd
  split at hd
  · cases hd; exact hq
  · exact hl k d hd

theorem AllMNs.updateMN {oldDmn : CDeterministicMN} {pdmnState : CDeterministicMNState}
    (hl : AllMNs Q l) (h : l.updateMN SerializeHash oldDmn pdmnState = some l')
    (hq : Q { oldDmn with pdmnState := pdmnState }) : AllMNs Q l' := by
  intro k d hd
  rw [getMN_updateMN h] at hd
  split at hd
  · cases hd; exact hq
  · exact hl k d hd

/-- `UpdateMN` by ProTx hash keeps a property of every masternode when the masternode of that
hash, with its new state, has it. -/
theorem AllMNs.updateMNByProTxHash {proTxHash : uint256} {pdmnState : CDeterministicMNState}
    (hl : AllMNs Q l) (h : l.updateMNByProTxHash SerializeHash proTxHash pdmnState = some l')
    (hq : ∀ oldDmn, l.getMN proTxHash = some oldDmn →
      Q { oldDmn with pdmnState := pdmnState }) : AllMNs Q l' := by
  obtain ⟨oldDmn, hd, hu⟩ := updateMNByProTxHash_eq_some h
  exact hl.updateMN hu (hq oldDmn hd)

theorem AllMNs.removeMN {proTxHash : uint256} (hl : AllMNs Q l)
    (h : l.removeMN SerializeHash proTxHash = some l') : AllMNs Q l' := by
  intro k d hd
  rw [getMN_removeMN h] at hd
  split at hd
  · cases hd
  · exact hl k d hd

/-- `AllMNs` reads only the masternode map. -/
theorem AllMNs.of_mnMap_eq (hl : AllMNs Q l) (h : l'.mnMap = l.mnMap) : AllMNs Q l' := by
  intro k d hd
  exact hl k d (by rw [getMN, h] at hd; exact hd)

/-- With every masternode under its own hash, a property of the masternode of one hash, if it is
there, is a property of every masternode that carries that hash. -/
theorem KeysMatch.allMNs_hash_iff (hk : l.KeysMatch) {proTxHash : uint256}
    {P : CDeterministicMN → Prop} :
    AllMNs (fun dmn => dmn.proTxHash = proTxHash → P dmn) l ↔
      ∀ dmn, l.getMN proTxHash = some dmn → P dmn := by
  constructor
  · intro hall dmn hd
    exact hall proTxHash dmn hd (hk _ _ hd)
  · intro hP k dmn hd hhash
    have hk' : k = proTxHash := (hk k dmn hd).symm.trans hhash
    subst hk'
    exact hP dmn hd

end

theorem KeysMatch.of_mnMap_eq (hl : l.KeysMatch) (h : l'.mnMap = l.mnMap) : l'.KeysMatch := by
  intro k d hd
  exact hl k d (by rw [getMN, h] at hd; exact hd)

/-- With every masternode under its own hash, the masternodes `ForEachMN` visits are those `GetMN`
finds by their hashes. -/
theorem KeysMatch.mem_allMNs_iff (hk : l.KeysMatch) {dmn : CDeterministicMN} :
    dmn ∈ l.allMNs ↔ l.getMN dmn.proTxHash = some dmn := by
  constructor
  · intro hd
    obtain ⟨e, he, rfl⟩ := List.mem_map.1 hd
    have h : l.getMN e.1 = some e.2 := Option.mem_def.1 (AList.mem_lookup_iff.2 he)
    rw [hk _ _ h]
    exact h
  · intro h
    exact List.mem_map.2 ⟨⟨_, dmn⟩, AList.mem_lookup_iff.1 (Option.mem_def.2 h), rfl⟩

/-- With every masternode under its own hash, the hashes `ForEachMN` visits are the keys of the
map, so they are distinct. -/
theorem KeysMatch.nodup_hashes (hk : l.KeysMatch) : (l.allMNs.map (·.proTxHash)).Nodup := by
  have hkeys : l.allMNs.map (·.proTxHash) = l.mnMap.keys := by
    unfold allMNs AList.keys List.keys
    rw [List.map_map]
    exact List.map_congr_left fun e he => hk e.1 e.2 (AList.mem_lookup_iff.2 he)
  exact hkeys ▸ l.mnMap.keys_nodup

end CDeterministicMNList

end Emrals
