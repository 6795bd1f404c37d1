import Emrals.Special.ListWellFormed
import Emrals.Lib.Fallible

/-!
# A well-formed list is rebuilt by adding its masternodes

`CDeterministicMNList::Unserialize` reads the header and then calls `AddMN` on every masternode
it reads (`src/special/deterministicmns.h:322-332`): the two auxiliary maps are not read but
rebuilt from the masternodes. This module shows that the rebuild gives the list back when the
list is well formed. `AddMN` of its masternodes, in any order and from its header, succeeds and
ends with the same masternodes (`foldlM_addMN_of_sub`), and then with the same three maps
(`rebuild`).

Each `AddMN` succeeds because the masternodes added so far are masternodes of the list. The one
added next has a new hash and a new internal id, and no masternode added so far claims a unique
property it claims: in the whole list every property hash has one holder
(`RefCount.Represents.eq_of_mem`), so `AddMNProperties` finds every hash it adds free
(`addMNProperties_isSome`). The two other maps of the result are the ones the invariant
determines from the masternodes (`RefCount.Represents.lookup_eq`).
-/

namespace Emrals

open CDeterministicMNList RefCount

/-! ## `AddMNProperties` on free hashes -/

theorem isNullValue_addr_of_ne {a : CService} (h : (a != default) = true) :
    (UniqueProperty.addr a).isNullValue = false := by
  simpa [UniqueProperty.isNullValue] using h

theorem isNullValue_pubKeyOperator_of_isValid {k : CBLSPublicKey} (h : k.isValid = true) :
    (UniqueProperty.pubKeyOperator k).isNullValue = false := by
  simpa [UniqueProperty.isNullValue, CBLSPublicKey.isValid, Option.isSome_iff_ne_none] using h

section
variable {SerializeHash : UniqueProperty → uint256} {m : MnUniquePropertyMap}
  {X Y : uint256 → Multiset uint256} {dmn : CDeterministicMN}

theorem mem_propClaims_self {v : UniqueProperty} (hv : v.isNullValue = false) :
    dmn.proTxHash ∈ propClaims SerializeHash dmn v (SerializeHash v) := by
  rw [propClaims, if_neg (by simp [hv]), ofKeys_singleton_apply, if_pos rfl]
  exact Multiset.mem_singleton_self _

theorem card_mnClaims_le (k : uint256) : (mnClaims SerializeHash dmn k).card ≤ 4 := by
  have hb := @card_propClaims_le SerializeHash dmn
  simp only [mnClaims, Pi.add_apply, Multiset.card_add]
  have := hb (.collateralOutpoint dmn.collateralOutpoint) k
  have := hb (.addr dmn.pdmnState.addr) k
  have := hb (.keyIDOwner dmn.pdmnState.keyIDOwner) k
  have := hb (.pubKeyOperator dmn.pdmnState.pubKeyOperator) k
  omega

/-- One `AddUniqueProperty` of a masternode that has made some of its claims `Y`, on a hash that no
other masternode claims: it succeeds and adds the claim. -/
theorem addUniqueProperty_some (h : Represents m (X + Y)) (hX : ∀ k, dmn.proTxHash ∉ X k)
    (hY : ∀ k, Y k ≤ mnClaims SerializeHash dmn k) {v : UniqueProperty}
    (hv : v.isNullValue = false) (hfree : X (SerializeHash v) = 0) :
    ∃ m', addUniqueProperty SerializeHash m dmn v = some m' ∧
      Represents m' (X + (Y + propClaims SerializeHash dmn v)) := by
  have hown : ∀ o ∈ (X + Y) (SerializeHash v), o = dmn.proTxHash := by
    intro o ho
    rw [Pi.add_apply, hfree, zero_add] at ho
    exact eq_of_mem_mnClaims (Multiset.mem_of_le (hY _) ho)
  obtain ⟨m', ha⟩ := h.acquire_isSome hown
  have ha' : addUniqueProperty SerializeHash m dmn v = some m' := by
    rw [addUniqueProperty_eq, if_neg (by simp [hv]), ha]
  have hcard : ∀ k, (Y k).card ≤ 4 := fun k =>
    (Multiset.card_le_card (hY k)).trans (card_mnClaims_le k)
  exact ⟨m', ha', represents_addUniqueProperty h hX hcard ha'⟩

/-- `AddMNProperties` succeeds for a masternode with the collateral and owner key `AddMN` asserts,
on a map of claims none of which is by its hash, when no other masternode claims a hash it
claims. -/
theorem addMNProperties_isSome (h : Represents m X) (hX : ∀ k, dmn.proTxHash ∉ X k)
    (hfree : ∀ k, dmn.proTxHash ∈ mnClaims SerializeHash dmn k → X k = 0) (hreq : dmn.Required) :
    ∃ m', addMNProperties SerializeHash m dmn = some m' := by
  -- the hash of each property the masternode adds is its own claim, so no other claims it
  have hfc : X (SerializeHash (.collateralOutpoint dmn.collateralOutpoint)) = 0 :=
    hfree _ (by simp [mnClaims, mem_propClaims_self hreq.1])
  have hfa : (dmn.pdmnState.addr != default) = true →
      X (SerializeHash (.addr dmn.pdmnState.addr)) = 0 := fun ha =>
    hfree _ (by simp [mnClaims, mem_propClaims_self (isNullValue_addr_of_ne ha)])
  have hfo : X (SerializeHash (.keyIDOwner dmn.pdmnState.keyIDOwner)) = 0 :=
    hfree _ (by simp [mnClaims, mem_propClaims_self hreq.2])
  have hfk : dmn.pdmnState.pubKeyOperator.isValid = true →
      X (SerializeHash (.pubKeyOperator dmn.pdmnState.pubKeyOperator)) = 0 := fun hk =>
    hfree _ (by simp [mnClaims, mem_propClaims_self (isNullValue_pubKeyOperator_of_isValid hk)])
  set pc := propClaims SerializeHash dmn (.collateralOutpoint dmn.collateralOutpoint)
  set pa := propClaims SerializeHash dmn (.addr dmn.pdmnState.addr)
  set po := propClaims SerializeHash dmn (.keyIDOwner dmn.pdmnState.keyIDOwner)
  set pk := propClaims SerializeHash dmn (.pubKeyOperator dmn.pdmnState.pubKeyOperator)
  have hmn : mnClaims SerializeHash dmn = pc + pa + po + pk := rfl
  obtain ⟨m₁, h₁, r₁⟩ := addUniqueProperty_some (Y := 0) (by rwa [add_zero]) hX
    (fun _ => Multiset.zero_le _) hreq.1 hfc
  -- the owner key and the operator key, after either branch of the address
  have hrest : ∀ m₂, Represents m₂ (X + (0 + pc + pa)) → ∃ m',
      ((addUniqueProperty SerializeHash m₂ dmn (.keyIDOwner dmn.pdmnState.keyIDOwner)).bind
        fun m => if dmn.pdmnState.pubKeyOperator.isValid = true then
          addUniqueProperty SerializeHash m dmn (.pubKeyOperator dmn.pdmnState.pubKeyOperator)
        else some m) = some m' := by
    intro m₂ r₂
    obtain ⟨m₃, h₃, r₃⟩ := addUniqueProperty_some r₂ hX
      (fun k => by simp [hmn, pc, pa, po, pk, add_assoc])
      hreq.2 hfo
    rw [h₃, Option.bind_some]
    split
    · next hk =>
      obtain ⟨m₄, h₄, -⟩ := addUniqueProperty_some r₃ hX
        (fun k => by simp [hmn, pc, pa, po, pk, add_assoc])
        (isNullValue_pubKeyOperator_of_isValid hk) (hfk hk)
      exact ⟨m₄, h₄⟩
    · exact ⟨m₃, rfl⟩
  unfold CDeterministicMNList.addMNProperties
  rw [h₁, Option.bind_eq_bind, Option.bind_some]
  dsimp only
  split
  · next ha =>
    obtain ⟨m₂, h₂, r₂⟩ := addUniqueProperty_some r₁ hX
      (fun k => by simp [hmn, pc, pa, po, pk, add_assoc])
      (isNullValue_addr_of_ne ha) (hfa ha)
    rw [h₂, Option.bind_some]
    exact hrest m₂ r₂
  · next ha =>
    rw [Option.bind_some]
    refine hrest m₁ ?_
    rwa [show pa = 0 from propClaims_addr_of_eq_default (by simpa using ha), add_zero]

end

/-! ## Adding the masternodes of a list -/

/-- The three maps of `l'` agree with those of `l` on every key. -/
structure CDeterministicMNList.SameMaps (l l' : CDeterministicMNList) : Prop where
  mnMap : ∀ k, l'.mnMap.lookup k = l.mnMap.lookup k
  mnInternalIdMap : ∀ i, l'.mnInternalIdMap.lookup i = l.mnInternalIdMap.lookup i
  mnUniquePropertyMap : ∀ h, l'.mnUniquePropertyMap.lookup h = l.mnUniquePropertyMap.lookup h

/-- `CDeterministicMNList(_blockHash, _height, _totalRegisteredCount)`: a list with no
masternodes. -/
def CDeterministicMNList.ofHeader (blockHash : uint256) (nHeight : Int)
    (nTotalRegisteredCount : UInt32) : CDeterministicMNList :=
  { blockHash, nHeight, nTotalRegisteredCount }

section
variable {SerializeHash : UniqueProperty → uint256} {l p : CDeterministicMNList}

/-- A claim of a masternode of the list is a claim of the list. -/
theorem mem_claims_of_getMN {q k o : uint256} {d : CDeterministicMN} (h : l.getMN q = some d)
    (ho : o ∈ mnClaims SerializeHash d k) : o ∈ l.claims SerializeHash k := by
  unfold CDeterministicMNList.claims
  rw [AListFold.sumEntries_eq_add_erase _ h, Pi.add_apply]
  exact Multiset.mem_add.2 (.inl ho)

/-- A claim of the list is a claim of one of its masternodes. -/
theorem exists_getMN_of_mem_claims {k o : uint256} (h : o ∈ l.claims SerializeHash k) :
    ∃ q d, l.getMN q = some d ∧ o ∈ mnClaims SerializeHash d k := by
  unfold CDeterministicMNList.claims AListFold.sumEntries at h
  obtain ⟨f, hf, hmem⟩ := mem_list_sum_apply h
  obtain ⟨e, he, rfl⟩ := List.mem_map.1 hf
  exact ⟨e.1, e.2, AList.mem_lookup_iff.2 he, hmem⟩

/-- `AddMN`, on a well-formed list of masternodes of `l`, of another masternode of `l`. -/
theorem CDeterministicMNList.WellFormed.addMN_of_sub (hl : l.WellFormed SerializeHash)
    (hp : p.WellFormed SerializeHash) (hsub : ∀ k d, p.getMN k = some d → l.getMN k = some d)
    {dmn : CDeterministicMN} (hd : l.getMN dmn.proTxHash = some dmn)
    (hnew : p.getMN dmn.proTxHash = none) :
    ∃ p', p.addMN SerializeHash dmn = some p' ∧ p'.WellFormed SerializeHash := by
  have hX : ∀ k, dmn.proTxHash ∉ p.claims SerializeHash k := fun k hmem => by
    obtain ⟨d, hd'⟩ := hp.keys.getMN_of_mem_claims hmem
    rw [hnew] at hd'
    cases hd'
  -- no masternode of `p` claims a hash `dmn` claims: in `l` the two claims have one holder
  have hfree : ∀ k, dmn.proTxHash ∈ mnClaims SerializeHash dmn k →
      p.claims SerializeHash k = 0 := by
    intro k hself
    refine Multiset.eq_zero_of_forall_notMem fun o ho => ?_
    obtain ⟨q, d, hq, hod⟩ := exists_getMN_of_mem_claims ho
    have heq : o = dmn.proTxHash :=
      hl.props.eq_of_mem (mem_claims_of_getMN (hsub q d hq) hod) (mem_claims_of_getMN hd hself)
    have hqd : q = dmn.proTxHash := (hp.keys q d hq).symm.trans ((eq_of_mem_mnClaims hod).symm.trans heq)
    rw [hqd, hnew] at hq
    cases hq
  obtain ⟨m', hm'⟩ := addMNProperties_isSome hp.props hX hfree (hl.required _ _ hd)
  have hadd : p.addMN SerializeHash dmn = some { p with
      mnMap := p.mnMap.insert dmn.proTxHash dmn
      mnInternalIdMap := p.mnInternalIdMap.insert dmn.internalId dmn.proTxHash
      mnUniquePropertyMap := m' } := by
    have hlookup : p.mnMap.lookup dmn.proTxHash = none := hnew
    unfold CDeterministicMNList.addMN
    rw [hlookup, hm']
    rfl
  refine ⟨_, hadd, hp.addMN hadd ?_⟩
  -- the internal id of `dmn` is its own in `l`, so no masternode of `p` has it
  cases hi : p.mnInternalIdMap.lookup dmn.internalId with
  | none => rfl
  | some q =>
    obtain ⟨d, hq, hid⟩ := (hp.ids _ q).1 hi
    have h₁ := (hl.ids _ q).2 ⟨d, hsub q d hq, hid⟩
    have h₂ := (hl.ids _ dmn.proTxHash).2 ⟨dmn, hd, rfl⟩
    have hqd : q = dmn.proTxHash := Option.some.inj (h₁.symm.trans h₂)
    rw [hqd, hnew] at hq
    cases hq

/-- `AddMN` of masternodes of `l` with distinct hashes, none of them in `p`, on a well-formed list
`p` of masternodes of `l`: it succeeds, and adds exactly those masternodes. The induction is on
the masternodes, with the list they are added to generalised. -/
theorem foldlM_addMN_of_sub (hl : l.WellFormed SerializeHash) :
    ∀ (ds : List CDeterministicMN) (p : CDeterministicMNList), p.WellFormed SerializeHash →
      (∀ k d, p.getMN k = some d → l.getMN k = some d) →
      (∀ d ∈ ds, l.getMN d.proTxHash = some d) → (ds.map (·.proTxHash)).Nodup →
      (∀ d ∈ ds, p.getMN d.proTxHash = none) →
      ∃ p', ds.foldlM (addMN SerializeHash) p = some p' ∧ p'.WellFormed SerializeHash ∧
        ∀ k, p'.getMN k = if k ∈ ds.map (·.proTxHash) then l.getMN k else p.getMN k
  | [], p, hp, _, _, _, _ => ⟨p, rfl, hp, fun k => by simp⟩
  | d :: ds, p, hp, hsub, hin, hnd, hnew => by
    rw [List.map_cons, List.nodup_cons] at hnd
    have hd := hin d List.mem_cons_self
    obtain ⟨p₁, ha, hp₁⟩ := hl.addMN_of_sub hp hsub hd (hnew d List.mem_cons_self)
    have hget := getMN_addMN ha
    have hsub₁ : ∀ k d', p₁.getMN k = some d' → l.getMN k = some d' := by
      intro k d' hk
      rw [hget] at hk
      split at hk
      · next hkd => cases hk; rw [hkd]; exact hd
      · exact hsub k d' hk
    have hnew₁ : ∀ d' ∈ ds, p₁.getMN d'.proTxHash = none := by
      intro d' hd'
      have hne : d'.proTxHash ≠ d.proTxHash := fun he =>
        hnd.1 (he ▸ List.mem_map_of_mem hd')
      rw [hget, if_neg hne]
      exact hnew d' (List.mem_cons_of_mem d hd')
    obtain ⟨p', hfold, hp', hget'⟩ := foldlM_addMN_of_sub hl ds p₁ hp₁ hsub₁
      (fun d' hd' => hin d' (List.mem_cons_of_mem d hd')) hnd.2 hnew₁
    refine ⟨p', by rw [List.foldlM_cons, ha]; exact hfold, hp', fun k => ?_⟩
    rw [hget', hget]
    by_cases hk : k = d.proTxHash
    · subst hk
      simp [hd]
    · simp [hk]

/-- `CDeterministicMNList::Unserialize`'s rebuild: `AddMN` of the masternodes of a well-formed
list, from its header, succeeds and gives the list back, map by map. -/
theorem CDeterministicMNList.WellFormed.rebuild (hl : l.WellFormed SerializeHash) :
    ∃ l', l.allMNs.foldlM (CDeterministicMNList.addMN SerializeHash)
        (ofHeader l.blockHash l.nHeight l.nTotalRegisteredCount) = some l' ∧
      SameHeader l l' ∧ SameMaps l l' := by
  have hin : AllMNs (fun d => l.getMN d.proTxHash = some d) l := fun k d hd => by
    show l.getMN d.proTxHash = some d
    rw [hl.keys k d hd]
    exact hd
  -- the hashes of the masternodes are the keys of the map, which are distinct
  have hkeys : l.allMNs.map (·.proTxHash) = l.mnMap.keys := by
    unfold allMNs AList.keys List.keys
    rw [List.map_map]
    exact List.map_congr_left fun e he => hl.keys e.1 e.2 (AList.mem_lookup_iff.2 he)
  have h₀ : (ofHeader l.blockHash l.nHeight l.nTotalRegisteredCount).WellFormed SerializeHash :=
    WellFormed.empty.of_maps_eq rfl rfl rfl
  obtain ⟨l', hfold, hl', hget⟩ := foldlM_addMN_of_sub hl l.allMNs _ h₀
    (fun _ _ h => (nomatch h)) (fun d hd => hin.of_mem_allMNs hd)
    (hkeys ▸ l.mnMap.keys_nodup) (fun _ _ => rfl)
  have hmn : ∀ k, l'.mnMap.lookup k = l.mnMap.lookup k := by
    intro k
    change l'.getMN k = l.getMN k
    rw [hget k]
    split
    · rfl
    · next hk =>
      -- a hash of no masternode of the list has no masternode in it
      cases hlk : l.getMN k with
      | none => rfl
      | some d =>
        have hmem : d ∈ l.allMNs := List.mem_map_of_mem (f := Sigma.snd) (AList.mem_lookup_iff.1 hlk)
        have hk' : k ∈ l.allMNs.map (·.proTxHash) := by
          rw [← hl.keys k d hlk]
          exact List.mem_map_of_mem hmem
        exact absurd hk' hk
  have hclaims : l'.claims SerializeHash = l.claims SerializeHash :=
    AListFold.sumEntries_congr _ hmn
  refine ⟨l', hfold, ?_, ⟨hmn, fun i => ?_, fun h => ?_⟩⟩
  · exact Fallible.foldlM_option_inv (P := SameHeader l) (f := CDeterministicMNList.addMN SerializeHash)
      (fun _ _ _ hs ha => hs.trans (addMN_sameHeader ha)) (by exact ⟨rfl, rfl, rfl⟩) hfold
  · apply Option.ext
    intro q
    rw [hl'.ids, hl.ids]
    simp only [getMN, hmn]
  · have hprops := hl.props
    rw [← hclaims] at hprops
    exact hl'.props.lookup_eq hprops h

end

end Emrals
