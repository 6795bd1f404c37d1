import Mathlib
import Emrals.Special.MNListSpec
import Emrals.Lib.RefCount
import Emrals.Lib.AListFold

/-!
# Well-formed masternode lists

The two auxiliary maps of `CDeterministicMNList` are functions of its masternodes when the list is
*well formed* (`WellFormed`): every masternode is filed under its own hash, the internal-id map
names exactly the masternode of each internal id, and the unique-property map is the reference
count of the *claims* of the masternodes, one for each non-null collateral, address, owner key and
operator key (`claims`), in the sense of `RefCount.Represents`. The collateral and the owner key of
every masternode are also not null, as `AddMN` asserts.

`AddMN` of a masternode with a new internal id, `UpdateMN` to a state with an owner key, and
`RemoveMN` keep a list well formed (`WellFormed.addMN`, `WellFormed.updateMN`,
`WellFormed.removeMN`). The unique-property half of each is a sequence of `RefCount.acquire` and
`RefCount.release` (`addUniqueProperty_eq`, `deleteUniqueProperty_eq`) on the claims of one
masternode, whose count at a key never exceeds four, so no count wraps.
-/

namespace Emrals

open CDeterministicMNList RefCount

section
variable (SerializeHash : UniqueProperty → uint256)

/-- The claim of `dmn` on the hash of a unique property; a null value is not recorded. -/
def propClaims (dmn : CDeterministicMN) (v : UniqueProperty) : uint256 → Multiset uint256 :=
  if v.isNullValue then 0 else ofKeys dmn.proTxHash [SerializeHash v]

/-- The claims of a masternode: its collateral, address, owner key and operator key. -/
def mnClaims (dmn : CDeterministicMN) : uint256 → Multiset uint256 :=
  propClaims SerializeHash dmn (.collateralOutpoint dmn.collateralOutpoint) +
    propClaims SerializeHash dmn (.addr dmn.pdmnState.addr) +
    propClaims SerializeHash dmn (.keyIDOwner dmn.pdmnState.keyIDOwner) +
    propClaims SerializeHash dmn (.pubKeyOperator dmn.pdmnState.pubKeyOperator)

/-- The claims of the masternodes of a list. -/
def CDeterministicMNList.claims (l : CDeterministicMNList) : uint256 → Multiset uint256 :=
  AListFold.sumEntries (fun _ dmn => mnClaims SerializeHash dmn) l.mnMap

/-- The collateral and the owner key are not null, as `AddMN` asserts. -/
def CDeterministicMN.Required (dmn : CDeterministicMN) : Prop :=
  (UniqueProperty.collateralOutpoint dmn.collateralOutpoint).isNullValue = false ∧
    (UniqueProperty.keyIDOwner dmn.pdmnState.keyIDOwner).isNullValue = false

/-- The invariant of the masternode list: the two auxiliary maps are those of its masternodes. -/
structure CDeterministicMNList.WellFormed (l : CDeterministicMNList) : Prop where
  keys : l.KeysMatch
  ids : ∀ internalId proTxHash, l.mnInternalIdMap.lookup internalId = some proTxHash ↔
    ∃ dmn, l.getMN proTxHash = some dmn ∧ dmn.internalId = internalId
  props : Represents l.mnUniquePropertyMap (l.claims SerializeHash)
  required : AllMNs CDeterministicMN.Required l

end

/-! ## The unique-property map as a reference count -/

section
variable {SerializeHash : UniqueProperty → uint256}

theorem addUniqueProperty_eq (m : MnUniquePropertyMap) (dmn : CDeterministicMN)
    (v : UniqueProperty) : addUniqueProperty SerializeHash m dmn v =
      if v.isNullValue then none else acquire m dmn.proTxHash (SerializeHash v) := by
  unfold addUniqueProperty acquire
  split
  · rfl
  · cases AList.lookup (SerializeHash v) m with
    | none => rfl
    | some e => rfl

theorem deleteUniqueProperty_eq (m : MnUniquePropertyMap) (dmn : CDeterministicMN)
    (v : UniqueProperty) : deleteUniqueProperty SerializeHash m dmn v =
      if v.isNullValue then none else release m dmn.proTxHash (SerializeHash v) := by
  unfold deleteUniqueProperty release
  split
  · rfl
  · cases AList.lookup (SerializeHash v) m with
    | none => rfl
    | some e => rfl

theorem propClaims_of_isNullValue {dmn : CDeterministicMN} {v : UniqueProperty}
    (h : v.isNullValue = true) : propClaims SerializeHash dmn v = 0 := by
  rw [propClaims, if_pos h]

theorem card_propClaims_le (dmn : CDeterministicMN) (v : UniqueProperty) (k : uint256) :
    (propClaims SerializeHash dmn v k).card ≤ 1 := by
  unfold propClaims
  split
  · simp
  · rw [ofKeys_singleton_apply]
    split <;> simp

/-- Every claim of a masternode is by its hash. -/
theorem eq_of_mem_propClaims {dmn : CDeterministicMN} {v : UniqueProperty} {k o : uint256}
    (h : o ∈ propClaims SerializeHash dmn v k) : o = dmn.proTxHash := by
  unfold propClaims at h
  split at h
  · simp at h
  · rw [ofKeys_singleton_apply] at h
    split at h
    · exact Multiset.mem_singleton.1 h
    · simp at h

theorem eq_of_mem_mnClaims {dmn : CDeterministicMN} {k o : uint256}
    (h : o ∈ mnClaims SerializeHash dmn k) : o = dmn.proTxHash := by
  simp only [mnClaims, Pi.add_apply, Multiset.mem_add] at h
  rcases h with ((h | h) | h) | h <;> exact eq_of_mem_propClaims h

/-- A key that only `o` claims is claimed by `o`'s own claims `Y`, and so at most four times. -/
theorem card_add_lt {X Y : uint256 → Multiset uint256} {o k : uint256}
    (hX : ∀ k, o ∉ X k) (hY : ∀ k, (Y k).card ≤ 4) (hown : ∀ o' ∈ (X + Y) k, o' = o) :
    ((X + Y) k).card + 1 < 2 ^ 32 := by
  have hXk : X k = 0 := Multiset.eq_zero_of_forall_notMem fun x hx => by
    have hxo := hown x (Multiset.mem_add.2 (.inl hx))
    subst hxo
    exact hX k hx
  have := hY k
  rw [Pi.add_apply, hXk, zero_add]
  omega

variable {m m' : MnUniquePropertyMap} {X Y : uint256 → Multiset uint256} {dmn : CDeterministicMN}

/-- `AddUniqueProperty` adds one reference of the masternode to the value. -/
theorem represents_addUniqueProperty {v : UniqueProperty} (h : Represents m (X + Y))
    (hX : ∀ k, dmn.proTxHash ∉ X k) (hY : ∀ k, (Y k).card ≤ 4)
    (ha : addUniqueProperty SerializeHash m dmn v = some m') :
    Represents m' (X + (Y + propClaims SerializeHash dmn v)) := by
  rw [addUniqueProperty_eq] at ha
  split at ha
  · cases ha
  · next hv =>
    rw [propClaims, if_neg hv, ← add_assoc]
    exact h.acquire (card_add_lt hX hY) ha

/-- `DeleteUniqueProperty` removes one reference of the masternode to the value. -/
theorem represents_deleteUniqueProperty {v : UniqueProperty}
    (h : Represents m (X + propClaims SerializeHash dmn v))
    (hd : deleteUniqueProperty SerializeHash m dmn v = some m') : Represents m' X := by
  rw [deleteUniqueProperty_eq] at hd
  split at hd
  · cases hd
  · next hv =>
    rw [propClaims, if_neg hv] at h
    have h' := (h.release hd).2
    rwa [show X + ofKeys dmn.proTxHash [SerializeHash v] - ofKeys dmn.proTxHash [SerializeHash v] = X
      from funext fun k => by simp] at h'

/-- `UpdateUniqueProperty` moves one reference of the masternode from the old value to the new one. -/
theorem represents_updateUniqueProperty {old new : UniqueProperty}
    (h : Represents m (X + (Y + propClaims SerializeHash dmn old)))
    (hX : ∀ k, dmn.proTxHash ∉ X k) (hY : ∀ k, (Y k).card ≤ 4)
    (hu : updateUniqueProperty SerializeHash m dmn old new = some m') :
    Represents m' (X + (Y + propClaims SerializeHash dmn new)) := by
  unfold CDeterministicMNList.updateUniqueProperty at hu
  split at hu
  · next heq => cases hu; subst heq; exact h
  · dsimp only at hu
    -- after the old value is gone, the claims are those of the other values
    have hadd : ∀ m₁, Represents m₁ (X + Y) →
        (if new.isNullValue then some m₁ else addUniqueProperty SerializeHash m₁ dmn new) =
          some m' → Represents m' (X + (Y + propClaims SerializeHash dmn new)) := by
      intro m₁ hm₁ ha
      split at ha
      · next hnull =>
        cases ha
        rwa [propClaims_of_isNullValue hnull, add_zero]
      · exact represents_addUniqueProperty hm₁ hX hY ha
    split at hu
    · next hnull =>
      rw [propClaims_of_isNullValue hnull, add_zero] at h
      exact hadd m h hu
    · obtain ⟨m₁, h₁, hu⟩ := Option.bind_eq_some_iff.1 hu
      rw [← add_assoc] at h
      exact hadd m₁ (represents_deleteUniqueProperty h h₁) hu

theorem propClaims_addr_of_eq_default {a : CService} (h : (a != default) = false) :
    propClaims SerializeHash dmn (.addr a) = 0 :=
  propClaims_of_isNullValue (by simpa [UniqueProperty.isNullValue] using h)

theorem propClaims_pubKeyOperator_of_not_isValid {k : CBLSPublicKey} (h : k.isValid = false) :
    propClaims SerializeHash dmn (.pubKeyOperator k) = 0 :=
  propClaims_of_isNullValue (by
    simpa [UniqueProperty.isNullValue, CBLSPublicKey.isValid, Option.isNone_iff_eq_none] using h)

/-- The unique-property half of `AddMN` adds the claims of the masternode. -/
theorem represents_addMNProperties (h : Represents m X) (hX : ∀ k, dmn.proTxHash ∉ X k)
    (ha : addMNProperties SerializeHash m dmn = some m') :
    Represents m' (X + mnClaims SerializeHash dmn) := by
  have hb := @card_propClaims_le SerializeHash dmn
  set pc := propClaims SerializeHash dmn (.collateralOutpoint dmn.collateralOutpoint)
  set pa := propClaims SerializeHash dmn (.addr dmn.pdmnState.addr)
  set po := propClaims SerializeHash dmn (.keyIDOwner dmn.pdmnState.keyIDOwner)
  set pk := propClaims SerializeHash dmn (.pubKeyOperator dmn.pdmnState.pubKeyOperator)
  have hpc : ∀ k, (pc k).card ≤ 1 := hb _
  have hpa : ∀ k, (pa k).card ≤ 1 := hb _
  have hpo : ∀ k, (po k).card ≤ 1 := hb _
  unfold CDeterministicMNList.addMNProperties at ha
  obtain ⟨m₁, h₁, ha⟩ := Option.bind_eq_some_iff.1 ha
  dsimp only at ha
  -- the claims of the masternode so far, one property after another; each is at most one more
  have r₁ : Represents m₁ (X + (0 + pc)) :=
    represents_addUniqueProperty (by rwa [add_zero]) hX (by simp) h₁
  have hrest : ∀ m₂, Represents m₂ (X + (0 + pc + pa)) →
      (do
        let m ← addUniqueProperty SerializeHash m₂ dmn (.keyIDOwner dmn.pdmnState.keyIDOwner)
        if dmn.pdmnState.pubKeyOperator.isValid then
          addUniqueProperty SerializeHash m dmn (.pubKeyOperator dmn.pdmnState.pubKeyOperator)
        else some m) = some m' →
      Represents m' (X + mnClaims SerializeHash dmn) := by
    intro m₂ r₂ ha
    obtain ⟨m₃, h₃, ha⟩ := Option.bind_eq_some_iff.1 ha
    have r₃ := represents_addUniqueProperty r₂ hX (fun k => by
      have := hpc k
      have := hpa k
      simp only [Pi.add_apply, zero_add, Multiset.card_add]
      omega) h₃
    have hmn : mnClaims SerializeHash dmn = 0 + pc + pa + po + pk := by
      rw [zero_add]
      rfl
    rw [hmn]
    split at ha
    · refine represents_addUniqueProperty r₃ hX (fun k => ?_) ha
      have := hpc k
      have := hpa k
      have := hpo k
      simp only [Pi.add_apply, zero_add, Multiset.card_add]
      omega
    · next hnull =>
      cases ha
      rwa [show pk = 0 from propClaims_pubKeyOperator_of_not_isValid
        (by simpa using hnull), add_zero]
  split at ha
  · obtain ⟨m₂, h₂, ha⟩ := Option.bind_eq_some_iff.1 ha
    exact hrest m₂ (represents_addUniqueProperty r₁ hX (fun k => by
      have := hpc k
      simp only [Pi.add_apply, Pi.zero_apply, zero_add]
      omega) h₂) ha
  · next hnull =>
    refine hrest m₁ ?_ ha
    rwa [show pa = 0 from propClaims_addr_of_eq_default (by simpa using hnull), add_zero]

/-- The unique-property half of `UpdateMN` moves the claims of the address, the owner key and
the operator key from their values in the old state to their values in the new one. -/
theorem represents_updateMNProperties {oldState : CDeterministicMNState}
    (h : Represents m (mnClaims SerializeHash { dmn with pdmnState := oldState } + X))
    (hX : ∀ k, dmn.proTxHash ∉ X k)
    (hu : updateMNProperties SerializeHash m dmn oldState = some m') :
    Represents m' (mnClaims SerializeHash dmn + X) := by
  have hb := @card_propClaims_le SerializeHash dmn
  set pc := propClaims SerializeHash dmn (.collateralOutpoint dmn.collateralOutpoint)
  set pao := propClaims SerializeHash dmn (.addr oldState.addr)
  set pan := propClaims SerializeHash dmn (.addr dmn.pdmnState.addr)
  set poo := propClaims SerializeHash dmn (.keyIDOwner oldState.keyIDOwner)
  set pon := propClaims SerializeHash dmn (.keyIDOwner dmn.pdmnState.keyIDOwner)
  set pko := propClaims SerializeHash dmn (.pubKeyOperator oldState.pubKeyOperator)
  have hold : mnClaims SerializeHash { dmn with pdmnState := oldState } = pc + pao + poo + pko :=
    rfl
  have hnew : mnClaims SerializeHash dmn = pc + pan + pon +
      propClaims SerializeHash dmn (.pubKeyOperator dmn.pdmnState.pubKeyOperator) := rfl
  -- every other property of the masternode claims a key at most once
  have hY : ∀ (a b c : uint256 → Multiset uint256), (∀ k, (a k).card ≤ 1) →
      (∀ k, (b k).card ≤ 1) → (∀ k, (c k).card ≤ 1) → ∀ k, ((a + b + c) k).card ≤ 4 := by
    intro a b c ha hb hc k
    have := ha k
    have := hb k
    have := hc k
    simp only [Pi.add_apply, Multiset.card_add]
    omega
  unfold CDeterministicMNList.updateMNProperties at hu
  obtain ⟨m₁, h₁, hu⟩ := Option.bind_eq_some_iff.1 hu
  obtain ⟨m₂, h₂, h₃⟩ := Option.bind_eq_some_iff.1 hu
  have r₀ : Represents m (X + (pc + poo + pko + pao)) := by
    rw [show X + (pc + poo + pko + pao) = pc + pao + poo + pko + X by abel, ← hold]
    exact h
  have r₁ := represents_updateUniqueProperty r₀ hX (hY _ _ _ (hb _) (hb _) (hb _)) h₁
  have r₁' : Represents m₁ (X + (pc + pan + pko + poo)) := by
    rw [show X + (pc + pan + pko + poo) = X + (pc + poo + pko + pan) by abel]
    exact r₁
  have r₂ := represents_updateUniqueProperty r₁' hX (hY _ _ _ (hb _) (hb _) (hb _)) h₂
  have r₂' : Represents m₂ (X + (pc + pan + pon + pko)) := by
    rw [show X + (pc + pan + pon + pko) = X + (pc + pan + pko + pon) by abel]
    exact r₂
  have r₃ := represents_updateUniqueProperty r₂' hX (hY _ _ _ (hb _) (hb _) (hb _)) h₃
  rw [hnew, show pc + pan + pon + propClaims SerializeHash dmn
    (.pubKeyOperator dmn.pdmnState.pubKeyOperator) + X = X + (pc + pan + pon +
      propClaims SerializeHash dmn (.pubKeyOperator dmn.pdmnState.pubKeyOperator)) by abel]
  exact r₃

/-- The unique-property half of `RemoveMN` removes the claims of the masternode. -/
theorem represents_removeMNProperties (h : Represents m (X + mnClaims SerializeHash dmn))
    (hr : removeMNProperties SerializeHash m dmn = some m') : Represents m' X := by
  set pc := propClaims SerializeHash dmn (.collateralOutpoint dmn.collateralOutpoint)
  set pa := propClaims SerializeHash dmn (.addr dmn.pdmnState.addr)
  set po := propClaims SerializeHash dmn (.keyIDOwner dmn.pdmnState.keyIDOwner)
  set pk := propClaims SerializeHash dmn (.pubKeyOperator dmn.pdmnState.pubKeyOperator)
  unfold CDeterministicMNList.removeMNProperties at hr
  obtain ⟨m₁, h₁, hr⟩ := Option.bind_eq_some_iff.1 hr
  dsimp only at hr
  -- the properties are released in the order they were added
  have r₁ : Represents m₁ (X + pk + po + pa) := by
    have h' : Represents m (X + pk + po + pa + pc) := by
      rw [show X + pk + po + pa + pc = X + (pc + pa + po + pk) by abel]
      exact h
    exact represents_deleteUniqueProperty h' h₁
  have hrest : ∀ m₂, Represents m₂ (X + pk + po) →
      (do
        let m ← deleteUniqueProperty SerializeHash m₂ dmn (.keyIDOwner dmn.pdmnState.keyIDOwner)
        if dmn.pdmnState.pubKeyOperator.isValid then
          deleteUniqueProperty SerializeHash m dmn (.pubKeyOperator dmn.pdmnState.pubKeyOperator)
        else some m) = some m' → Represents m' X := by
    intro m₂ r₂ hr
    obtain ⟨m₃, h₃, hr⟩ := Option.bind_eq_some_iff.1 hr
    have r₃ : Represents m₃ (X + pk) := represents_deleteUniqueProperty r₂ h₃
    split at hr
    · exact represents_deleteUniqueProperty r₃ hr
    · next hnull =>
      cases hr
      rwa [show pk = 0 from propClaims_pubKeyOperator_of_not_isValid
        (by simpa using hnull), add_zero] at r₃
  split at hr
  · obtain ⟨m₂, h₂, hr⟩ := Option.bind_eq_some_iff.1 hr
    exact hrest m₂ (represents_deleteUniqueProperty r₁ h₂) hr
  · next hnull =>
    refine hrest m₁ ?_ hr
    rwa [show pa = 0 from propClaims_addr_of_eq_default (by simpa using hnull), add_zero] at r₁

/-- A successful `AddUniqueProperty` had a value that is not null. -/
theorem isNullValue_eq_false_of_addUniqueProperty {v : UniqueProperty}
    (ha : addUniqueProperty SerializeHash m dmn v = some m') : v.isNullValue = false := by
  rw [addUniqueProperty_eq] at ha
  split at ha
  · cases ha
  · next hv => simpa using hv

/-- The masternode of a successful `AddMN` has the collateral and owner key it asserts. -/
theorem required_of_addMNProperties (ha : addMNProperties SerializeHash m dmn = some m') :
    dmn.Required := by
  unfold CDeterministicMNList.addMNProperties at ha
  obtain ⟨m₁, h₁, ha⟩ := Option.bind_eq_some_iff.1 ha
  refine ⟨isNullValue_eq_false_of_addUniqueProperty h₁, ?_⟩
  dsimp only at ha
  -- the owner key is added on either branch of the address
  have howner : ∀ m₂, (do
      let m ← addUniqueProperty SerializeHash m₂ dmn (.keyIDOwner dmn.pdmnState.keyIDOwner)
      if dmn.pdmnState.pubKeyOperator.isValid then
        addUniqueProperty SerializeHash m dmn (.pubKeyOperator dmn.pdmnState.pubKeyOperator)
      else some m) = some m' →
      (UniqueProperty.keyIDOwner dmn.pdmnState.keyIDOwner).isNullValue = false := by
    intro m₂ ha
    obtain ⟨m₃, h₃, -⟩ := Option.bind_eq_some_iff.1 ha
    exact isNullValue_eq_false_of_addUniqueProperty h₃
  split at ha
  · obtain ⟨m₂, -, ha⟩ := Option.bind_eq_some_iff.1 ha
    exact howner m₂ ha
  · exact howner m₁ ha

end

/-! ## The claims of a list -/

section
variable {SerializeHash : UniqueProperty → uint256} {l l' : CDeterministicMNList}

theorem mem_list_sum_apply {L : List (uint256 → Multiset uint256)} {k o : uint256}
    (h : o ∈ L.sum k) : ∃ f ∈ L, o ∈ f k := by
  induction L with
  | nil => simp at h
  | cons f L ih =>
    rw [List.sum_cons, Pi.add_apply, Multiset.mem_add] at h
    rcases h with h | h
    · exact ⟨f, List.mem_cons_self, h⟩
    · obtain ⟨g, hg, hmem⟩ := ih h
      exact ⟨g, List.mem_cons_of_mem f hg, hmem⟩

/-- A claim on a key is by the hash of a masternode that the map holds. -/
theorem exists_of_mem_sumEntries {s : AList (fun _ : uint256 => CDeterministicMN)} {k o : uint256}
    (h : o ∈ AListFold.sumEntries (fun _ dmn => mnClaims SerializeHash dmn) s k) :
    ∃ p dmn, s.lookup p = some dmn ∧ o = dmn.proTxHash := by
  obtain ⟨f, hf, hmem⟩ := mem_list_sum_apply h
  obtain ⟨e, he, rfl⟩ := List.mem_map.1 hf
  exact ⟨e.1, e.2, AList.mem_lookup_iff.2 he, eq_of_mem_mnClaims hmem⟩

/-- With every masternode under its own hash, every claim is by a masternode of the list. -/
theorem CDeterministicMNList.KeysMatch.getMN_of_mem_claims (hk : l.KeysMatch) {k o : uint256}
    (h : o ∈ l.claims SerializeHash k) : ∃ dmn, l.getMN o = some dmn := by
  obtain ⟨p, dmn, hp, rfl⟩ := exists_of_mem_sumEntries h
  rw [hk p dmn hp]
  exact ⟨dmn, hp⟩

/-- Without the masternode of a hash, no claim is by that hash. -/
theorem CDeterministicMNList.KeysMatch.not_mem_sumEntries_erase (hk : l.KeysMatch) (proTxHash k : uint256) :
    proTxHash ∉ AListFold.sumEntries (fun _ dmn => mnClaims SerializeHash dmn)
      (l.mnMap.erase proTxHash) k := by
  intro h
  obtain ⟨p, dmn, hp, hhash⟩ := exists_of_mem_sumEntries h
  by_cases hpk : p = proTxHash
  · subst hpk
    rw [AList.lookup_erase] at hp
    cases hp
  · rw [AList.lookup_erase_ne hpk] at hp
    exact hpk ((hk p dmn hp).symm.trans hhash.symm)

theorem addMN_eq_some {dmn : CDeterministicMN} (h : l.addMN SerializeHash dmn = some l') :
    l.getMN dmn.proTxHash = none ∧ ∃ m, addMNProperties SerializeHash l.mnUniquePropertyMap dmn =
      some m ∧ l' = { l with
        mnMap := l.mnMap.insert dmn.proTxHash dmn
        mnInternalIdMap := l.mnInternalIdMap.insert dmn.internalId dmn.proTxHash
        mnUniquePropertyMap := m } := by
  unfold CDeterministicMNList.addMN at h
  split at h
  · cases h
  · next hnone =>
    obtain ⟨m, hm, ⟨⟩⟩ := Option.bind_eq_some_iff.1 h
    exact ⟨Option.not_isSome_iff_eq_none.1 hnone, m, hm, rfl⟩

theorem updateMN_eq_some {oldDmn : CDeterministicMN} {pdmnState : CDeterministicMNState}
    (h : l.updateMN SerializeHash oldDmn pdmnState = some l') :
    ∃ m, updateMNProperties SerializeHash l.mnUniquePropertyMap
      { oldDmn with pdmnState := pdmnState } oldDmn.pdmnState = some m ∧
      l' = { l with
        mnMap := l.mnMap.insert oldDmn.proTxHash { oldDmn with pdmnState := pdmnState }
        mnUniquePropertyMap := m } := by
  obtain ⟨m, hm, ⟨⟩⟩ := Option.bind_eq_some_iff.1 h
  exact ⟨m, hm, rfl⟩

theorem removeMN_eq_some {proTxHash : uint256} (h : l.removeMN SerializeHash proTxHash = some l') :
    ∃ dmn, l.getMN proTxHash = some dmn ∧ ∃ m,
      removeMNProperties SerializeHash l.mnUniquePropertyMap dmn = some m ∧
      l' = { l with
        mnMap := l.mnMap.erase proTxHash
        mnInternalIdMap := l.mnInternalIdMap.erase dmn.internalId
        mnUniquePropertyMap := m } := by
  obtain ⟨dmn, hd, h⟩ := Option.bind_eq_some_iff.1 h
  obtain ⟨m, hm, ⟨⟩⟩ := Option.bind_eq_some_iff.1 h
  exact ⟨dmn, hd, m, hm, rfl⟩

end

/-! ## The operations keep a list well formed -/

namespace CDeterministicMNList.WellFormed

variable {SerializeHash : UniqueProperty → uint256} {l l' : CDeterministicMNList}

theorem empty : ({} : CDeterministicMNList).WellFormed SerializeHash where
  keys := keysMatch_empty
  ids _ _ := ⟨fun h => (nomatch h), fun ⟨_, h, _⟩ => (nomatch h)⟩
  props := represents_empty
  required := allMNs_empty

/-- The invariant reads the three maps only. -/
theorem of_maps_eq (hl : l.WellFormed SerializeHash) (hm : l'.mnMap = l.mnMap)
    (hi : l'.mnInternalIdMap = l.mnInternalIdMap)
    (hu : l'.mnUniquePropertyMap = l.mnUniquePropertyMap) : l'.WellFormed SerializeHash where
  keys := hl.keys.of_mnMap_eq hm
  ids id p := by
    rw [hi, getMN, hm]
    exact hl.ids id p
  props := by
    rw [hu, CDeterministicMNList.claims, hm]
    exact hl.props
  required := hl.required.of_mnMap_eq hm

/-- `AddMN` of a masternode whose internal id no masternode of the list has. -/
theorem addMN (hl : l.WellFormed SerializeHash) {dmn : CDeterministicMN}
    (h : l.addMN SerializeHash dmn = some l')
    (hfresh : l.mnInternalIdMap.lookup dmn.internalId = none) : l'.WellFormed SerializeHash := by
  have hget := getMN_addMN h
  obtain ⟨hnone, m, hm, rfl⟩ := addMN_eq_some h
  refine ⟨hl.keys.addMN h, fun id p => ?_, ?_, hl.required.addMN h (required_of_addMNProperties hm)⟩
  · dsimp only
    rw [hget]
    by_cases hid : id = dmn.internalId
    · -- the new internal id names the new masternode, which no other masternode shares
      subst hid
      rw [AList.lookup_insert]
      constructor
      · rintro ⟨⟩
        exact ⟨dmn, if_pos rfl, rfl⟩
      · rintro ⟨d, hd, hid⟩
        split at hd
        · next hp => exact congrArg some hp.symm
        · obtain ⟨⟩ := hfresh ▸ (hl.ids _ p).2 ⟨d, hd, hid⟩
    · rw [AList.lookup_insert_ne hid, hl.ids]
      constructor
      · rintro ⟨d, hd, hid'⟩
        have hp : p ≠ dmn.proTxHash := fun hp => by rw [hp, hnone] at hd; cases hd
        exact ⟨d, by rw [if_neg hp]; exact hd, hid'⟩
      · rintro ⟨d, hd, hid'⟩
        split at hd
        · cases hd
          exact absurd hid'.symm hid
        · exact ⟨d, hd, hid'⟩
  · -- the new masternode's claims join those of the list, none of which is by its hash
    have hX : ∀ k, dmn.proTxHash ∉ l.claims SerializeHash k := fun k hmem => by
      obtain ⟨d, hd⟩ := hl.keys.getMN_of_mem_claims hmem
      rw [hnone] at hd
      cases hd
    have hclaims : CDeterministicMNList.claims SerializeHash
        { l with
          mnMap := l.mnMap.insert dmn.proTxHash dmn
          mnInternalIdMap := l.mnInternalIdMap.insert dmn.internalId dmn.proTxHash
          mnUniquePropertyMap := m } = l.claims SerializeHash + mnClaims SerializeHash dmn := by
      unfold CDeterministicMNList.claims
      rw [AListFold.sumEntries_insert, AListFold.erase_of_lookup_eq_none hnone, add_comm]
    rw [hclaims]
    exact represents_addMNProperties hl.props hX hm

/-- `UpdateMN` by ProTx hash with a state whose owner key is not null. -/
theorem updateMN (hl : l.WellFormed SerializeHash) {proTxHash : uint256}
    {pdmnState : CDeterministicMNState}
    (h : l.updateMNByProTxHash SerializeHash proTxHash pdmnState = some l')
    (howner : (UniqueProperty.keyIDOwner pdmnState.keyIDOwner).isNullValue = false) :
    l'.WellFormed SerializeHash := by
  obtain ⟨old, hold, hu⟩ := updateMNByProTxHash_eq_some h
  have hkey : old.proTxHash = proTxHash := hl.keys _ _ hold
  have hget := getMN_updateMN hu
  obtain ⟨m, hm, rfl⟩ := updateMN_eq_some hu
  refine ⟨hl.keys.updateMN hu, fun id p => ?_, ?_, ?_⟩
  · -- the internal id of the masternode does not change
    dsimp only
    rw [hget, hl.ids id p]
    constructor
    · rintro ⟨d, hd, rfl⟩
      split
      · next hp =>
        rw [hp, hkey, hold] at hd
        cases hd
        exact ⟨_, rfl, rfl⟩
      · exact ⟨d, hd, rfl⟩
    · rintro ⟨d, hd, rfl⟩
      split at hd
      · next hp =>
        cases hd
        exact ⟨old, by rw [hp, hkey]; exact hold, rfl⟩
      · exact ⟨d, hd, rfl⟩
  · -- the claims of the other masternodes stay, and the masternode's claims move
    set Z := AListFold.sumEntries (fun _ dmn => mnClaims SerializeHash dmn) (l.mnMap.erase old.proTxHash)
    have hZ : ∀ k, old.proTxHash ∉ Z k := hl.keys.not_mem_sumEntries_erase _
    have hold' : l.mnMap.lookup old.proTxHash = some old := by rw [hkey]; exact hold
    have hbefore : l.claims SerializeHash = mnClaims SerializeHash old + Z :=
      AListFold.sumEntries_eq_add_erase _ hold'
    have hafter : CDeterministicMNList.claims SerializeHash
        { l with
          mnMap := l.mnMap.insert old.proTxHash { old with pdmnState := pdmnState }
          mnUniquePropertyMap := m } =
        mnClaims SerializeHash { old with pdmnState := pdmnState } + Z :=
      AListFold.sumEntries_insert _ _ _ _
    rw [hafter]
    exact represents_updateMNProperties (hbefore ▸ hl.props) hZ hm
  · intro k d hd
    rw [hget] at hd
    split at hd
    · cases hd
      exact ⟨(hl.required _ _ hold).1, howner⟩
    · exact hl.required k d hd

/-- `RemoveMN`. -/
theorem removeMN (hl : l.WellFormed SerializeHash) {proTxHash : uint256}
    (h : l.removeMN SerializeHash proTxHash = some l') : l'.WellFormed SerializeHash := by
  have hget := getMN_removeMN h
  obtain ⟨dmn, hd, m, hm, rfl⟩ := removeMN_eq_some h
  have hkey : dmn.proTxHash = proTxHash := hl.keys _ _ hd
  refine ⟨hl.keys.removeMN h, fun id p => ?_, ?_, hl.required.removeMN h⟩
  · dsimp only
    rw [hget]
    by_cases hid : id = dmn.internalId
    · -- the removed masternode's internal id was its own
      subst hid
      rw [AList.lookup_erase]
      constructor
      · rintro ⟨⟩
      · rintro ⟨d, hd', hid⟩
        split at hd'
        · cases hd'
        · next hp =>
          have h₁ := (hl.ids _ p).2 ⟨d, hd', hid⟩
          have h₂ := (hl.ids _ proTxHash).2 ⟨dmn, hd, rfl⟩
          rw [h₁] at h₂
          exact absurd (Option.some.inj h₂) hp
    · rw [AList.lookup_erase_ne hid, hl.ids]
      constructor
      · rintro ⟨d, hd', rfl⟩
        split
        · next hp => subst hp; rw [hd] at hd'; cases hd'; exact absurd rfl hid
        · exact ⟨d, hd', rfl⟩
      · rintro ⟨d, hd', hid'⟩
        split at hd'
        · cases hd'
        · exact ⟨d, hd', hid'⟩
  · have hbefore : l.claims SerializeHash =
        mnClaims SerializeHash dmn + AListFold.sumEntries (fun _ dmn => mnClaims SerializeHash dmn)
          (l.mnMap.erase proTxHash) :=
      AListFold.sumEntries_eq_add_erase _ hd
    have hprops := hl.props
    rw [hbefore, add_comm] at hprops
    exact represents_removeMNProperties hprops hm

end CDeterministicMNList.WellFormed

end Emrals
