import Mathlib
import Emrals.Special.BuildInvariant
import Emrals.Special.BlockAborts
import Emrals.Lib.SortKey

/-!
# The payee of a block and the projected payees

`GetMNPayee` (`src/special/deterministicmns.cpp:219`) picks the valid masternode least by
`CompareByLastPaid`, and `BuildNewListFromBlock` pays it, setting its last-paid height to the
block's height (`:831`). `GetProjectedMNPayees` (`:234`) predicts the next payees by sorting the
valid masternodes with the same comparator; `GetRequiredPaymentsStrings`
(`src/masternodes/payments.cpp:203`) shows the prediction beyond the chain tip, and the payee of
each list below it.

The comparator is the lexicographic order of the payment height and the ProTx hash
(`compareByLastPaid_iff`), a strict total order on masternodes with distinct hashes. In a list
that a chain reaches, no payment height is above the list's height (`HeightReachable.inv`), so a
block pays its payee at a height above every other payment height, which moves the payee from
the head of the sorted order to its end (`SortKey.sortByKey_serve`). Over blocks that leave the
masternodes alone otherwise (no special transactions, no collateral spends) the sorted order is
rotated by one at each block (`plainBlock_order`), and the payees of `k` blocks are the first `k`
projected payees (`projectedMNPayees_eq_payees`).
-/

namespace Emrals

open CDeterministicMNList CDeterministicMNManager SortKey

namespace CDeterministicMNList

/-- `GetValidMNsCount`. -/
def getValidMNsCount (l : CDeterministicMNList) : Nat := (l.allMNs.filter isMNValid).length

/-- `GetProjectedMNPayees`: the valid masternodes sorted by `CompareByLastPaid`, cut to `nCount`,
which is first lowered to the number of valid masternodes. `std::sort` gives the one sorted order
of the comparator, which the model computes by insertion sort; a negative count makes `reserve`
throw. -/
def getProjectedMNPayees (l : CDeterministicMNList) (nCount : Int) :
    Option (List CDeterministicMN) :=
  let nCount : Int := if nCount > l.getValidMNsCount then l.getValidMNsCount else nCount
  if nCount < 0 then none
  else some (((l.allMNs.filter isMNValid).insertionSort
    fun a b => compareByLastPaid b a = false).take nCount.toNat)

/-- The key `CompareByLastPaid` compares: the payment height, then the ProTx hash. -/
def payOrderKey (dmn : CDeterministicMN) : Lex (Int × Nat) :=
  toLex (compareByLastPaidGetHeight dmn, dmn.proTxHash.cmpKey)

/-- `CompareByLastPaid` is the lexicographic order of the payment height and the ProTx hash. -/
theorem compareByLastPaid_iff {a b : CDeterministicMN} :
    compareByLastPaid a b = true ↔ payOrderKey a < payOrderKey b := by
  unfold compareByLastPaid payOrderKey
  rw [Prod.Lex.toLex_lt_toLex]
  split
  · next h => simp [h, uint256.lt_iff_cmpKey]
  · next h => simp [h]

/-- Masternodes with distinct ProTx hashes have distinct keys. -/
theorem payOrderKey_injective {a b : CDeterministicMN} (h : payOrderKey a = payOrderKey b) :
    a.proTxHash = b.proTxHash := by
  exact uint256.cmpKey_injective (congrArg (fun k => (ofLex k).2) h)

/-- `CompareByLastPaid` reads the comparison of the keys. -/
theorem compareByLastPaid_eq_false_iff {a b : CDeterministicMN} :
    compareByLastPaid a b = false ↔ payOrderKey b ≤ payOrderKey a := by
  rw [← not_lt, ← compareByLastPaid_iff, Bool.not_eq_true]

/-! ## `CompareByLastPaid` is a strict total order -/

theorem compareByLastPaid_irrefl (a : CDeterministicMN) : compareByLastPaid a a = false :=
  compareByLastPaid_eq_false_iff.2 le_rfl

theorem compareByLastPaid_trans {a b c : CDeterministicMN} (hab : compareByLastPaid a b = true)
    (hbc : compareByLastPaid b c = true) : compareByLastPaid a c = true :=
  compareByLastPaid_iff.2 ((compareByLastPaid_iff.1 hab).trans (compareByLastPaid_iff.1 hbc))

/-- Of two masternodes with distinct ProTx hashes, one comes first. -/
theorem compareByLastPaid_total {a b : CDeterministicMN} (h : a.proTxHash ≠ b.proTxHash) :
    compareByLastPaid a b = true ∨ compareByLastPaid b a = true := by
  rw [compareByLastPaid_iff, compareByLastPaid_iff]
  rcases lt_trichotomy (payOrderKey a) (payOrderKey b) with hlt | heq | hgt
  · exact .inl hlt
  · exact absurd (payOrderKey_injective heq) h
  · exact .inr hgt

/-! ## The payment order of a list -/

/-- The ProTx hashes of the valid masternodes, in the order of the scan. -/
def validIds (l : CDeterministicMNList) : List uint256 :=
  (l.allMNs.filter isMNValid).map (·.proTxHash)

/-- The key of the masternode filed under a hash. -/
def hashKey (l : CDeterministicMNList) (h : uint256) : Lex (Int × Nat) :=
  toLex ((l.getMN h).elim 0 compareByLastPaidGetHeight, h.cmpKey)

/-- The hashes of the valid masternodes in payment order. -/
def payOrder (l : CDeterministicMNList) : List uint256 := sortByKey (hashKey l) (validIds l)

variable {l l' : CDeterministicMNList}

/-- The key of a hash ends in the hash, so it tells hashes apart. -/
theorem hashKey_injOn (l : CDeterministicMNList) (hs : List uint256) : InjOn (hashKey l) hs :=
  fun _ _ _ _ h => uint256.cmpKey_injective (congrArg (fun k => (ofLex k).2) h)

theorem hashKey_of_getMN {h : uint256} {dmn : CDeterministicMN} (hk : l.KeysMatch)
    (hd : l.getMN h = some dmn) : hashKey l h = payOrderKey dmn := by
  simp [hashKey, payOrderKey, hd, hk h dmn hd]

theorem mem_validIds (hk : l.KeysMatch) {h : uint256} :
    h ∈ l.validIds ↔ ∃ dmn, l.getMN h = some dmn ∧ isMNValid dmn = true := by
  simp only [validIds, List.mem_map, List.mem_filter]
  constructor
  · rintro ⟨dmn, ⟨hd, hv⟩, rfl⟩
    exact ⟨dmn, hk.mem_allMNs_iff.1 hd, hv⟩
  · rintro ⟨dmn, hd, hv⟩
    have hkey : dmn.proTxHash = h := hk h dmn hd
    subst hkey
    exact ⟨dmn, ⟨hk.mem_allMNs_iff.2 hd, hv⟩, rfl⟩

theorem nodup_validIds (hk : l.KeysMatch) : l.validIds.Nodup := by
  have hsub : l.validIds.Sublist (l.allMNs.map (·.proTxHash)) :=
    List.filter_sublist.map _
  exact hsub.nodup hk.nodup_hashes

/-- `payOrderKey` tells the masternodes of a list apart. -/
theorem payOrderKey_injOn (hk : l.KeysMatch) (ds : List CDeterministicMN)
    (hds : ∀ d ∈ ds, d ∈ l.allMNs) : InjOn payOrderKey ds := by
  intro a ha b hb hab
  have ha' := hk.mem_allMNs_iff.1 (hds a ha)
  have hb' := hk.mem_allMNs_iff.1 (hds b hb)
  rw [payOrderKey_injective hab, hb'] at ha'
  exact (Option.some.inj ha').symm

/-- The valid masternodes sorted by their keys, as hashes, are the payment order. -/
theorem map_sortByKey_validMNs (hk : l.KeysMatch) :
    (sortByKey payOrderKey (l.allMNs.filter isMNValid)).map (·.proTxHash) = l.payOrder :=
  map_sortByKey (payOrderKey_injOn hk _ fun _ hd => List.mem_of_mem_filter hd)
    fun _ hd => hashKey_of_getMN hk (hk.mem_allMNs_iff.1 (List.mem_of_mem_filter hd))

/-- `GetProjectedMNPayees`'s sort, by the comparator, is the sort by the key. -/
theorem insertionSort_compareByLastPaid (hk : l.KeysMatch) :
    (l.allMNs.filter isMNValid).insertionSort (fun a b => compareByLastPaid b a = false) =
      sortByKey payOrderKey (l.allMNs.filter isMNValid) := by
  have : Std.Total fun a b : CDeterministicMN => compareByLastPaid b a = false :=
    ⟨fun a b => by simp only [compareByLastPaid_eq_false_iff]; exact le_total _ _⟩
  have : IsTrans CDeterministicMN fun a b => compareByLastPaid b a = false :=
    ⟨fun a b c hab hbc => by
      simp only [compareByLastPaid_eq_false_iff] at hab hbc ⊢
      exact hab.trans hbc⟩
  refine eq_sortByKey (payOrderKey_injOn hk _ fun _ hd => List.mem_of_mem_filter hd)
    (List.perm_insertionSort _ _) ?_
  exact (List.pairwise_insertionSort _ _).imp fun h => compareByLastPaid_eq_false_iff.1 h

/-- The projected payees are the first `nCount` hashes of the payment order. -/
theorem getProjectedMNPayees_eq (hk : l.KeysMatch) {nCount : Int} (h0 : 0 ≤ nCount)
    (hn : nCount ≤ l.getValidMNsCount) :
    l.getProjectedMNPayees nCount =
      some ((sortByKey payOrderKey (l.allMNs.filter isMNValid)).take nCount.toNat) := by
  have hcount : ¬ nCount > l.getValidMNsCount := not_lt.2 hn
  simp only [getProjectedMNPayees, hcount, ↓reduceIte, not_lt.2 h0,
    insertionSort_compareByLastPaid hk]

theorem getProjectedMNPayees_hashes (hk : l.KeysMatch) {nCount : Int} (h0 : 0 ≤ nCount)
    (hn : nCount ≤ l.getValidMNsCount) :
    (l.getProjectedMNPayees nCount).map (List.map (·.proTxHash)) =
      some (l.payOrder.take nCount.toNat) := by
  rw [getProjectedMNPayees_eq hk h0 hn, Option.map_some, List.map_take, map_sortByKey_validMNs hk]

/-- `GetMNPayee`'s scan finds the least valid masternode by the key. -/
theorem getMNPayee_eq (hk : l.KeysMatch) :
    l.getMNPayee = (sortByKey payOrderKey (l.allMNs.filter isMNValid)).head? := by
  rw [← argminBy_eq_head? (payOrderKey_injOn hk _ fun _ hd => List.mem_of_mem_filter hd)]
  unfold getMNPayee
  split
  · next h =>
    -- an empty map has no valid masternode
    have hnil : l.mnMap.entries = [] := List.eq_nil_of_length_eq_zero h
    simp [allMNs, hnil, argminBy]
  · unfold argminBy
    congr 1
    funext best x
    cases best <;> simp [compareByLastPaid_iff]

/-- `GetMNPayee` pays the head of the payment order. -/
theorem getMNPayee_hash (hk : l.KeysMatch) :
    l.getMNPayee.map (·.proTxHash) = l.payOrder.head? := by
  rw [← map_sortByKey_validMNs hk, List.head?_map, getMNPayee_eq hk]

end CDeterministicMNList

/-! ## Payment heights stay below the list's height -/

/-- The heights `CompareByLastPaid` reads are at most `H`. -/
structure PaidHeightsBelow (H : Int) (dmn : CDeterministicMN) : Prop where
  registered : dmn.pdmnState.nRegisteredHeight ≤ H
  lastPaid : dmn.pdmnState.nLastPaidHeight ≤ H
  revived : dmn.pdmnState.nPoSeRevivedHeight ≤ H

theorem PaidHeightsBelow.mono {H H' : Int} {dmn : CDeterministicMN} (h : PaidHeightsBelow H dmn)
    (hH : H ≤ H') : PaidHeightsBelow H' dmn :=
  ⟨h.1.trans hH, h.2.trans hH, h.3.trans hH⟩

theorem compareByLastPaidGetHeight_le {H : Int} {dmn : CDeterministicMN}
    (h : PaidHeightsBelow H dmn) : compareByLastPaidGetHeight dmn ≤ H := by
  unfold compareByLastPaidGetHeight
  dsimp only
  split
  · exact h.revived
  · split
    · exact h.registered
    · exact h.lastPaid

/-- Every way a block changes a masternode keeps its payment heights at most the block's height:
a registration, a revival and a payment happen at that height, and nothing else sets them. -/
theorem keepsMNProperty_paidHeightsBelow {env : BuildEnv} {vtx : List CTransaction}
    (h0 : 0 ≤ env.nHeight) : KeepsMNProperty env vtx (PaidHeightsBelow env.nHeight) where
  confirm _ _ h _ := ⟨h.1, h.2, h.3⟩
  decrease _ h _ _ := ⟨h.1, h.2, h.3⟩
  punish _ _ _ _ _ _ _ h := ⟨h.1, h.2, h.3⟩
  register _ _ _ _ proTx _ _ := by
    unfold proRegState
    split
    · exact ⟨le_rfl, h0, by simp [CDeterministicMNState.ofProRegTx]; omega⟩
    · exact ⟨le_rfl, h0, by simp [CDeterministicMNState.ofProRegTx]; omega⟩
  updateService _ _ _ _ proTx _ old _ h := by
    unfold proUpServState
    dsimp only
    split
    · exact ⟨h.1, h.2, le_rfl⟩
    · exact ⟨h.1, h.2, h.3⟩
  updateRegistrar _ _ _ _ proTx _ old _ h := by
    unfold proUpRegState CDeterministicMNState.banIfNotBanned
    split
    · split <;> exact ⟨h.1, h.2, h.3⟩
    · exact ⟨h.1, h.2, h.3⟩
  revoke _ _ _ _ proTx _ old _ h := by
    unfold proUpRevState CDeterministicMNState.banIfNotBanned
    split <;> exact ⟨h.1, h.2, h.3⟩
  spendReset old h := by
    unfold CDeterministicMNState.banIfNotBanned
    split <;> exact ⟨h.1, h.2, h.3⟩
  paid _ h := ⟨h.1, le_rfl, h.3⟩

/-- A block on top of a list whose payment heights are at most its height gives a list whose
payment heights are at most the block's height. -/
theorem buildNewListFromBlock_paidHeights {env : BuildEnv} {vtx : List CTransaction}
    {l l' : CDeterministicMNList} (hk : l.KeysMatch)
    (hH : AllMNs (PaidHeightsBelow l.nHeight) l) (hprev : l.nHeight ≤ env.prevHeight)
    (h0 : 0 ≤ env.prevHeight) (h : buildNewListFromBlock env l vtx = .ok l') :
    l'.KeysMatch ∧ AllMNs (PaidHeightsBelow l'.nHeight) l' := by
  have hlt : l.nHeight ≤ env.nHeight := by unfold BuildEnv.nHeight; omega
  obtain ⟨hk', hall⟩ := buildNewListFromBlock_keeps
    (keepsMNProperty_paidHeightsBelow (by unfold BuildEnv.nHeight; omega)) hk
    (fun k d hd => (hH k d hd).mono hlt) h
  rw [(buildNewListFromBlock_header h).2.1]
  exact ⟨hk', hall⟩

/-- One block of a chain on top of the list it extends: its parent is not below the list. In a
chain the parent's height is the list's height. -/
def heightStep (SerializeHash : UniqueProperty → uint256) (cenv : CheckEnv)
    (mnList : CDeterministicMNList) (blk : BuildEnv × List CTransaction) :
    Option CDeterministicMNList :=
  if mnList.nHeight ≤ blk.1.prevHeight then chainStep SerializeHash cenv mnList blk else none

/-- The lists a chain of blocks, each on top of the last, reaches from the empty list. -/
def HeightReachable (SerializeHash : UniqueProperty → uint256) (cenv : CheckEnv) :
    CDeterministicMNList → Prop :=
  Machine.Reachable (heightStep SerializeHash cenv) {}

/-- In a list a chain reaches, every masternode is under its own hash and no payment height is
above the list's height. -/
theorem HeightReachable.inv {SerializeHash : UniqueProperty → uint256} {cenv : CheckEnv}
    {l : CDeterministicMNList} (h : HeightReachable SerializeHash cenv l) :
    l.KeysMatch ∧ AllMNs (PaidHeightsBelow l.nHeight) l := by
  unfold HeightReachable at h
  refine Machine.Reachable.induction_on_inv
    (P := fun l => l.KeysMatch ∧ AllMNs (PaidHeightsBelow l.nHeight) l) h
    ⟨keysMatch_empty, allMNs_empty⟩ ?_
  intro s blk s' ⟨hk, hH⟩ hstep
  unfold heightStep at hstep
  split at hstep
  · next hprev =>
    obtain ⟨h0, -, hbuild⟩ := chainStep_eq_some hstep
    exact buildNewListFromBlock_paidHeights hk hH (by exact hprev) (by exact h0) hbuild
  · cases hstep

/-! ## Blocks that leave the masternodes alone -/

/-- A transaction the special-transaction loop of `BuildNewListFromBlock` passes over. -/
def CTransaction.skippedBySpecialLoop (tx : CTransaction) : Bool :=
  tx.nVersion != 2 ||
    (tx.nType != TRANSACTION_PROVIDER_REGISTER && tx.nType != TRANSACTION_PROVIDER_UPDATE_SERVICE &&
      tx.nType != TRANSACTION_PROVIDER_UPDATE_REGISTRAR &&
      tx.nType != TRANSACTION_PROVIDER_UPDATE_REVOKE && tx.nType != TRANSACTION_QUORUM_COMMITMENT)

/-- A block that changes no masternode of `l` but by the confirmations, the penalty decrease and
the payment: the special-transaction loop passes over every transaction after the coinbase, and
no input spends the collateral of a masternode of `l`. -/
structure PlainBlock (SerializeHash : UniqueProperty → uint256) (l : CDeterministicMNList)
    (vtx : List CTransaction) : Prop where
  skipped : ∀ tx ∈ vtx.drop 1, tx.skippedBySpecialLoop = true
  noSpend : ∀ tx ∈ vtx.drop 1, ∀ txin ∈ tx.vin,
    l.getMNByCollateral SerializeHash txin.prevout = none

/-- What the validity and the unique properties read of a masternode's state. -/
def CDeterministicMNState.keyFields (s : CDeterministicMNState) :
    Int × CService × CKeyID × CBLSPublicKey :=
  (s.nPoSeBanHeight, s.addr, s.keyIDOwner, s.pubKeyOperator)

/-- What the payee choice reads of a masternode's state besides: the heights of
`CompareByLastPaid_GetHeight`. -/
def CDeterministicMNState.payFields (s : CDeterministicMNState) :
    (Int × CService × CKeyID × CBLSPublicKey) × Int × Int × Int :=
  (s.keyFields, s.nRegisteredHeight, s.nLastPaidHeight, s.nPoSeRevivedHeight)

theorem compareByLastPaidGetHeight_of_payFields {a b : CDeterministicMN}
    (h : a.pdmnState.payFields = b.pdmnState.payFields) :
    compareByLastPaidGetHeight a = compareByLastPaidGetHeight b := by
  simp only [CDeterministicMNState.payFields, Prod.mk.injEq] at h
  obtain ⟨-, hreg, hpaid, hrev⟩ := h
  simp only [compareByLastPaidGetHeight, hreg, hpaid, hrev]

namespace CDeterministicMNList

variable {SerializeHash : UniqueProperty → uint256} {l₀ l l' : CDeterministicMNList}

/-- `l` has the unique-property map of `l₀` and the masternodes of `l₀`, which agree on `F`. -/
structure AgreeOn {β : Type} (F : CDeterministicMNState → β) (l₀ l : CDeterministicMNList) :
    Prop where
  props : l.mnUniquePropertyMap = l₀.mnUniquePropertyMap
  fields : ∀ k, (l.getMN k).map (F ·.pdmnState) = (l₀.getMN k).map (F ·.pdmnState)

section AgreeOn

variable {β γ : Type} {F : CDeterministicMNState → β}

theorem AgreeOn.refl (F : CDeterministicMNState → β) (l : CDeterministicMNList) :
    AgreeOn F l l :=
  ⟨rfl, fun _ => rfl⟩

theorem AgreeOn.symm (h : AgreeOn F l₀ l) : AgreeOn F l l₀ :=
  ⟨h.props.symm, fun k => (h.fields k).symm⟩

theorem AgreeOn.trans {l₁ l₂ : CDeterministicMNList} (h₁ : AgreeOn F l₀ l₁)
    (h₂ : AgreeOn F l₁ l₂) : AgreeOn F l₀ l₂ :=
  ⟨h₂.props.trans h₁.props, fun k => (h₂.fields k).trans (h₁.fields k)⟩

theorem AgreeOn.getMN {k : uint256} {dmn₀ : CDeterministicMN} (h : AgreeOn F l₀ l)
    (hd : l₀.getMN k = some dmn₀) :
    ∃ dmn, l.getMN k = some dmn ∧ F dmn.pdmnState = F dmn₀.pdmnState := by
  have hf := h.fields k
  rw [hd] at hf
  cases hl : l.getMN k with
  | none => simp [hl] at hf
  | some dmn => exact ⟨dmn, rfl, by simpa [hl] using hf⟩

theorem AgreeOn.getMN_eq_none {k : uint256} (h : AgreeOn F l₀ l) (hd : l₀.getMN k = none) :
    l.getMN k = none := by
  have hf := h.fields k
  rwa [hd, Option.map_none, Option.map_eq_none_iff] at hf

/-- Agreement on `F` is agreement on what `F` determines. -/
theorem AgreeOn.mono {G : CDeterministicMNState → γ} (h : AgreeOn F l₀ l)
    (hG : ∀ s t, F s = F t → G s = G t) : AgreeOn G l₀ l := by
  refine ⟨h.props, fun k => ?_⟩
  cases hl₀ : l₀.getMN k with
  | none => rw [h.getMN_eq_none hl₀]
  | some dmn₀ =>
    obtain ⟨dmn, hd, hf⟩ := h.getMN hl₀
    rw [hd, Option.map_some, Option.map_some, hG _ _ hf]

/-- Replacing the state of one masternode by a state that agrees with the old one on `F`, and
keeping the unique-property map, keeps the agreement. -/
theorem AgreeOn.update {h : uint256} {old : CDeterministicMN} {s : CDeterministicMNState}
    (hl : AgreeOn F l₀ l) (hprops : l'.mnUniquePropertyMap = l.mnUniquePropertyMap)
    (hget : ∀ k, l'.getMN k = if k = h then some { old with pdmnState := s } else l.getMN k)
    (hd : l.getMN h = some old) (hs : F s = F old.pdmnState) : AgreeOn F l₀ l' := by
  refine ⟨hprops.trans hl.props, fun k => ?_⟩
  rw [hget k, ← hl.fields k]
  split
  · next hk =>
    subst hk
    simp [hd, hs]
  · rfl

/-- A list with the masternodes and the unique-property map of `l₀` finds no collateral that
`l₀` does not find. -/
theorem AgreeOn.getMNByCollateral_eq_none {o : COutPoint} (h : AgreeOn F l₀ l)
    (h₀ : l₀.getMNByCollateral SerializeHash o = none) :
    l.getMNByCollateral SerializeHash o = none := by
  unfold getMNByCollateral getUniquePropertyMN at *
  rw [h.props]
  cases hp : l₀.mnUniquePropertyMap.lookup (SerializeHash (.collateralOutpoint o)) with
  | none => rfl
  | some p =>
    rw [hp, Option.bind_some] at h₀
    rw [Option.bind_some, h.getMN_eq_none h₀]

end AgreeOn

/-- `UpdateMN` by ProTx hash with a state that keeps the unique properties succeeds, keeps the
unique-property map, and changes only the masternode of that hash. -/
theorem updateMNByProTxHash_of_keyFields {h : uint256} {old : CDeterministicMN}
    {s : CDeterministicMNState} (hk : l.KeysMatch) (hd : l.getMN h = some old)
    (hs : s.addr = old.pdmnState.addr ∧ s.keyIDOwner = old.pdmnState.keyIDOwner ∧
      s.pubKeyOperator = old.pdmnState.pubKeyOperator) :
    ∃ l', l.updateMNByProTxHash SerializeHash h s = some l' ∧
      l'.mnUniquePropertyMap = l.mnUniquePropertyMap ∧ l'.KeysMatch ∧
      ∀ k, l'.getMN k = if k = h then some { old with pdmnState := s } else l.getMN k := by
  obtain ⟨ha, ho, hp⟩ := hs
  have hlk : l.mnMap.lookup h = some old := hd
  -- every moved property keeps its value, so the property map is untouched
  have hupd : l.updateMNByProTxHash SerializeHash h s =
      some { l with mnMap := l.mnMap.insert old.proTxHash { old with pdmnState := s } } := by
    simp [updateMNByProTxHash, updateMN, updateMNProperties, updateUniqueProperty, hlk, ha, ho, hp]
  refine ⟨_, hupd, rfl, hk.updateMNByProTxHash hupd, fun k => ?_⟩
  obtain ⟨old', hd', hget⟩ := getMN_updateMNByProTxHash hk hupd
  rw [hd] at hd'
  cases hd'
  exact hget k

theorem keyFields_addr {s t : CDeterministicMNState} (h : s.keyFields = t.keyFields) :
    s.addr = t.addr ∧ s.keyIDOwner = t.keyIDOwner ∧ s.pubKeyOperator = t.pubKeyOperator := by
  simp only [CDeterministicMNState.keyFields, Prod.mk.injEq] at h
  exact h.2

theorem keyFields_of_payFields {s t : CDeterministicMNState} (h : s.payFields = t.payFields) :
    s.keyFields = t.keyFields :=
  congrArg Prod.fst h

/-! ## Agreement fixes the payment order -/

/-- Lists with the same masternodes, which agree on their ban heights, have the same valid
hashes, in some order. -/
theorem AgreeOn.validIds_perm (hk₀ : l₀.KeysMatch) (hk : l.KeysMatch)
    (h : AgreeOn CDeterministicMNState.keyFields l₀ l) : l.validIds.Perm l₀.validIds := by
  have hvalid : ∀ a b : CDeterministicMN, a.pdmnState.keyFields = b.pdmnState.keyFields →
      isMNValid a = isMNValid b := by
    intro a b hab
    simp only [CDeterministicMNState.keyFields, Prod.mk.injEq] at hab
    simp [isMNValid, isMNPoSeBanned, hab.1]
  refine (List.perm_ext_iff_of_nodup (nodup_validIds hk) (nodup_validIds hk₀)).2 fun k => ?_
  rw [mem_validIds hk, mem_validIds hk₀]
  constructor
  · rintro ⟨dmn, hd, hv⟩
    obtain ⟨dmn₀, hd₀, hf⟩ := h.symm.getMN hd
    exact ⟨dmn₀, hd₀, (hvalid _ _ hf).trans hv⟩
  · rintro ⟨dmn₀, hd₀, hv⟩
    obtain ⟨dmn, hd, hf⟩ := h.getMN hd₀
    exact ⟨dmn, hd, (hvalid _ _ hf).trans hv⟩

/-- The key of a hash reads the payment fields only. -/
theorem AgreeOn.hashKey_eq (h : AgreeOn CDeterministicMNState.payFields l₀ l) :
    hashKey l = hashKey l₀ := by
  funext k
  unfold hashKey
  cases hl₀ : l₀.getMN k with
  | none => rw [h.getMN_eq_none hl₀]
  | some dmn₀ =>
    obtain ⟨dmn, hd, hf⟩ := h.getMN hl₀
    rw [hd, Option.elim_some, Option.elim_some, compareByLastPaidGetHeight_of_payFields hf]

/-- Lists that agree on the payment fields have the same payment order. -/
theorem AgreeOn.payOrder_eq (hk₀ : l₀.KeysMatch) (hk : l.KeysMatch)
    (h : AgreeOn CDeterministicMNState.payFields l₀ l) : l.payOrder = l₀.payOrder := by
  unfold payOrder
  rw [h.hashKey_eq]
  exact sortByKey_eq_of_perm (hashKey_injOn _ _)
    ((h.mono fun _ _ => keyFields_of_payFields).validIds_perm hk₀ hk)

end CDeterministicMNList

/-! ## The passes of a block that leaves the masternodes alone -/

namespace CDeterministicMNManager

open CDeterministicMNState (keyFields payFields)

variable {env : BuildEnv} {L l : CDeterministicMNList}

/-- A confirmation changes the confirmed hashes only. -/
theorem confirmStep_agree {dmn : CDeterministicMN} (hkL : L.KeysMatch) (hd : dmn ∈ L.allMNs)
    (hk : l.KeysMatch) (hl : AgreeOn payFields L l) :
    ∃ l', confirmStep env l dmn = some l' ∧ l'.KeysMatch ∧ AgreeOn payFields L l' := by
  unfold confirmStep
  split
  · exact ⟨l, rfl, hk, hl⟩
  split
  · -- the state written is the parent's, which agrees with the one it replaces
    obtain ⟨old, hold, hf⟩ := hl.getMN (hkL.mem_allMNs_iff.1 hd)
    have hs : (dmn.pdmnState.updateConfirmedHash env.sha256 dmn.proTxHash
        env.prevBlockHash).payFields = old.pdmnState.payFields := hf.symm
    obtain ⟨l', hu, hprops, hk', hget⟩ :=
      updateMNByProTxHash_of_keyFields hk hold (keyFields_addr (keyFields_of_payFields hs))
    exact ⟨l', hu, hk', hl.update hprops hget hold hs⟩
  · exact ⟨l, rfl, hk, hl⟩

/-- The confirmation pass succeeds and keeps the payment fields. -/
theorem confirmPass_agree (hkL : L.KeysMatch) :
    ∃ l', L.allMNs.foldlM (confirmStep env) { L with blockHash := 0, nHeight := env.nHeight } =
      some l' ∧ l'.KeysMatch ∧ AgreeOn payFields L l' :=
  Fallible.foldlM_option_isSome (P := fun l => l.KeysMatch ∧ AgreeOn payFields L l)
    (f := confirmStep env) (s := { L with blockHash := 0, nHeight := env.nHeight })
    (fun _ _ hd hl => confirmStep_agree hkL hd hl.1 hl.2)
    ⟨hkL.of_mnMap_eq rfl, ⟨rfl, fun _ => rfl⟩⟩

/-- A penalty decrease changes the penalty only. -/
theorem poSeDecrease_agree {h : uint256} {dmn : CDeterministicMN} (hk : l.KeysMatch)
    (hl : AgreeOn payFields L l) (hd : l.getMN h = some dmn) (hpos : 0 < dmn.pdmnState.nPoSePenalty)
    (hban : dmn.pdmnState.nPoSeBanHeight = -1) :
    ∃ l', l.poSeDecrease env.SerializeHash h = some l' ∧ l'.KeysMatch ∧ AgreeOn payFields L l' ∧
      ∀ k, k ≠ h → l'.getMN k = l.getMN k := by
  obtain ⟨l', hu, hprops, hk', hget⟩ := @updateMNByProTxHash_of_keyFields env.SerializeHash _ _ _
    { dmn.pdmnState with nPoSePenalty := dmn.pdmnState.nPoSePenalty - 1 } hk hd ⟨rfl, rfl, rfl⟩
  refine ⟨l', ?_, hk', hl.update hprops hget hd rfl, fun k hkh => by rw [hget k, if_neg hkh]⟩
  simpa [poSeDecrease, hd, hpos, hban] using hu

/-- The penalty decrease succeeds and keeps the payment fields: the masternodes it lowers are
distinct, so each still has the positive penalty it was collected with when its turn comes. -/
theorem decreasePoSePenalties_agree (hk : l.KeysMatch) (hl : AgreeOn payFields L l) :
    ∃ l', decreasePoSePenalties env l = some l' ∧ l'.KeysMatch ∧ AgreeOn payFields L l' := by
  unfold decreasePoSePenalties
  dsimp only
  -- the invariant over the hashes still to come
  let Q : List uint256 → CDeterministicMNList → Prop := fun rest l' =>
    l'.KeysMatch ∧ AgreeOn payFields L l' ∧ rest.Nodup ∧ ∀ h ∈ rest, ∃ dmn,
      l'.getMN h = some dmn ∧ 0 < dmn.pdmnState.nPoSePenalty ∧ dmn.pdmnState.nPoSeBanHeight = -1
  have hstep : ∀ a rest l', Q (a :: rest) l' → ∃ l'', l'.poSeDecrease env.SerializeHash a =
      some l'' ∧ Q rest l'' := by
    rintro a rest l' ⟨hk', hl', hnd, hpen⟩
    obtain ⟨dmn, hd, hpos, hban⟩ := hpen a List.mem_cons_self
    obtain ⟨l'', hdec, hk'', hl'', hframe⟩ := poSeDecrease_agree hk' hl' hd hpos hban
    have hnotin := (List.nodup_cons.1 hnd).1
    refine ⟨l'', hdec, hk'', hl'', (List.nodup_cons.1 hnd).2, fun h hh => ?_⟩
    rw [hframe h (fun he => hnotin (he ▸ hh))]
    exact hpen h (List.mem_cons_of_mem a hh)
  have hinit : Q (((l.allMNs.filter isMNValid).filter fun dmn =>
      0 < dmn.pdmnState.nPoSePenalty ∧ dmn.pdmnState.nPoSeBanHeight = -1).map (·.proTxHash)) l := by
    refine ⟨hk, hl, ?_, fun h hh => ?_⟩
    · exact ((List.filter_sublist.trans List.filter_sublist).map _).nodup hk.nodup_hashes
    · obtain ⟨dmn, hmem, rfl⟩ := List.mem_map.1 hh
      have hc := (List.mem_filter.1 hmem).2
      simp only [decide_eq_true_eq] at hc
      exact ⟨dmn, hk.mem_allMNs_iff.1 (List.mem_of_mem_filter (List.mem_of_mem_filter hmem)), hc⟩
  obtain ⟨l', hfold, hk', hl', -⟩ := Fallible.foldlM_option_isSome_suffix hstep hinit
  exact ⟨l', hfold, hk', hl'⟩

/-- A transaction the special-transaction loop passes over leaves the list as it is. -/
theorem processSpecialTx_of_skipped {tx : CTransaction} (h : tx.skippedBySpecialLoop = true) :
    processSpecialTx env l tx = .ok l := by
  simp only [CTransaction.skippedBySpecialLoop, Bool.or_eq_true, Bool.and_eq_true, bne_iff_ne,
    ne_eq] at h
  unfold processSpecialTx
  rcases h with hv | ⟨⟨⟨⟨h₁, h₂⟩, h₃⟩, h₄⟩, h₅⟩
  · rw [if_pos hv]
  · simp [h₁, h₂, h₃, h₄, h₅]

/-- An input that spends no collateral of the list leaves the list as it is. -/
theorem spendCollateralStep_of_none {oldList : CDeterministicMNList} {txin : CTxIn}
    (h : l.getMNByCollateral env.SerializeHash txin.prevout = none) :
    spendCollateralStep env oldList l txin = some l := by
  unfold spendCollateralStep
  rw [h]

/-- A masternode paid at a height other than 0 and above its revival height has that height as
its payment height. -/
theorem compareByLastPaidGetHeight_paid {dmn : CDeterministicMN} {H : Int}
    (hrev : dmn.pdmnState.nPoSeRevivedHeight < H) (h0 : H ≠ 0) :
    compareByLastPaidGetHeight
      { dmn with pdmnState := { dmn.pdmnState with nLastPaidHeight := H } } = H := by
  unfold compareByLastPaidGetHeight
  dsimp only
  rw [if_neg (by omega), if_neg h0]

/-- The payee step sets the last-paid height of the payee, which the list holds, and leaves
every other masternode and the unique-property map as they are. -/
theorem payeeStep_pays {p dmn : CDeterministicMN} (hk : l.KeysMatch)
    (hd : l.getMN p.proTxHash = some dmn) :
    ∃ l', payeeStep env (some p) l = some l' ∧ l'.mnUniquePropertyMap = l.mnUniquePropertyMap ∧
      l'.KeysMatch ∧ ∀ k, l'.getMN k = if k = p.proTxHash then
        some { dmn with pdmnState := { dmn.pdmnState with nLastPaidHeight := env.nHeight } }
      else l.getMN k := by
  simp only [payeeStep, hd]
  exact updateMNByProTxHash_of_keyFields hk hd ⟨rfl, rfl, rfl⟩

/-- Paying the head `m` of the payment order of the parent's list, at a height above every
payment height of that list, moves `m` to the end of the order. -/
theorem payeeStep_order {m : uint256} {rest : List uint256} (hkL : L.KeysMatch)
    (hH : AllMNs (PaidHeightsBelow L.nHeight) L) (hlt : L.nHeight < env.nHeight)
    (h0 : env.nHeight ≠ 0) (hk : l.KeysMatch) (hl : AgreeOn payFields L l)
    (hpo : L.payOrder = m :: rest) :
    ∃ l', payeeStep env L.getMNPayee l = some l' ∧ l'.KeysMatch ∧ AgreeOn keyFields L l' ∧
      l'.payOrder = rest ++ [m] := by
  -- the payee is the masternode of `L` at the head of the order
  have hm : m ∈ L.validIds := mem_sortByKey.1 (hpo ▸ List.mem_cons_self : m ∈ L.payOrder)
  obtain ⟨dmn₀, hd₀, -⟩ := (mem_validIds hkL).1 hm
  obtain ⟨p, hp, rfl⟩ : ∃ p, L.getMNPayee = some p ∧ p.proTxHash = m := by
    have hpayee := getMNPayee_hash hkL
    rwa [hpo, List.head?_cons, Option.map_eq_some_iff] at hpayee
  obtain ⟨dmn, hd, hf⟩ := hl.getMN hd₀
  obtain ⟨l', hpay, hprops, hk', hget⟩ := @payeeStep_pays env _ _ _ hk hd
  have hagree : AgreeOn keyFields L l' :=
    (hl.mono fun _ _ => keyFields_of_payFields).update hprops hget hd rfl
  refine ⟨l', by rw [hp]; exact hpay, hk', hagree, ?_⟩
  unfold payOrder
  rw [sortByKey_eq_of_perm (hashKey_injOn _ _) (hagree.validIds_perm hkL hk')]
  -- off the payee the keys are those of `L`; the payee's key is above them all
  have hoff : ∀ x, x ≠ p.proTxHash → hashKey l' x = hashKey L x := by
    intro x hx
    rw [← hl.hashKey_eq]
    simp only [hashKey, hget x, if_neg hx]
  have hrev : dmn.pdmnState.nPoSeRevivedHeight < env.nHeight := by
    have hrev₀ : dmn.pdmnState.nPoSeRevivedHeight = dmn₀.pdmnState.nPoSeRevivedHeight :=
      congrArg (fun t => t.2.2.2) hf
    exact hrev₀ ▸ (hH _ _ hd₀).revived.trans_lt hlt
  have hpaid : hashKey l' p.proTxHash =
      toLex (env.nHeight, p.proTxHash.cmpKey) := by
    rw [hashKey, hget, if_pos rfl, Option.elim_some, compareByLastPaidGetHeight_paid hrev h0]
  refine sortByKey_serve (nodup_validIds hkL) (hashKey_injOn _ _) hpo (fun x _ hx => hoff x hx)
    fun x hx hxm => ?_
  obtain ⟨d, hdx, -⟩ := (mem_validIds hkL).1 hx
  rw [hoff x hxm, hpaid, hashKey_of_getMN hkL hdx, payOrderKey, Prod.Lex.toLex_lt_toLex]
  exact .inl ((compareByLastPaidGetHeight_le (hH x d hdx)).trans_lt hlt)

/-- A block that leaves the masternodes alone, on top of a list whose payment heights are at most
its height: the block's list has the masternodes and the unique properties of its parent, and the
parent's payment order rotated by one. -/
theorem plainBlock_order {vtx : List CTransaction} (hkL : L.KeysMatch)
    (hH : AllMNs (PaidHeightsBelow L.nHeight) L) (hprev : L.nHeight ≤ env.prevHeight)
    (h0 : 0 ≤ env.prevHeight) (hplain : PlainBlock env.SerializeHash L vtx) :
    ∃ l', buildNewListFromBlock env L vtx = .ok l' ∧ l'.KeysMatch ∧ AgreeOn keyFields L l' ∧
      l'.payOrder = L.payOrder.rotate 1 := by
  obtain ⟨l₁, h₁, hk₁, hl₁⟩ := @confirmPass_agree env _ hkL
  obtain ⟨l₂, h₂, hk₂, hl₂⟩ := @decreasePoSePenalties_agree env _ _ hk₁ hl₁
  have h₃ : (vtx.drop 1).foldlM (processSpecialTx env) l₂ = .ok l₂ :=
    Fallible.foldlM_except_of_fixed fun tx htx =>
      processSpecialTx_of_skipped (hplain.skipped tx htx)
  have h₄ : ((vtx.drop 1).flatMap (·.vin)).foldlM (spendCollateralStep env L) l₂ = some l₂ := by
    refine Fallible.foldlM_option_of_fixed fun txin hin => spendCollateralStep_of_none ?_
    obtain ⟨tx, htx, hin⟩ := List.mem_flatMap.1 hin
    exact hl₂.getMNByCollateral_eq_none (hplain.noSpend tx htx txin hin)
  have hbuild : buildNewListFromBlock env L vtx = orAbort (payeeStep env L.getMNPayee l₂) := by
    simp only [buildNewListFromBlock, h₁, h₂, h₃, h₄, orAbort, Fallible.except_bind_ok]
  have hlt : L.nHeight < env.nHeight := by unfold BuildEnv.nHeight; omega
  have hne : env.nHeight ≠ 0 := by unfold BuildEnv.nHeight; omega
  cases hpo : L.payOrder with
  | nil =>
    -- no valid masternode: no payee, and nothing moves
    have hnone : L.getMNPayee = none := by
      have hpayee := getMNPayee_hash hkL
      rwa [hpo, List.head?_nil, Option.map_eq_none_iff] at hpayee
    refine ⟨l₂, by rw [hbuild, hnone]; rfl, hk₂, hl₂.mono fun _ _ => keyFields_of_payFields, ?_⟩
    rw [hl₂.payOrder_eq hkL hk₂, hpo, List.rotate_nil]
  | cons m rest =>
    obtain ⟨l', hpay, hk', hl', hord⟩ := payeeStep_order hkL hH hlt hne hk₂ hl₂ hpo
    refine ⟨l', by rw [hbuild, hpay]; rfl, hk', hl', ?_⟩
    rw [hord, List.rotate_cons_succ, List.rotate_zero]

end CDeterministicMNManager

/-! ## The payees of a run of blocks -/

/-- The payees `GetMNPayee` chooses from the lists of a run of blocks, each built on the list of
the last, and the last list. -/
def buildRun : CDeterministicMNList → List (BuildEnv × List CTransaction) →
    Except BuildError (List (Option CDeterministicMN) × CDeterministicMNList)
  | l, [] => .ok ([], l)
  | l, (env, vtx) :: blocks => do
    let l' ← buildNewListFromBlock env l vtx
    let (payees, last) ← buildRun l' blocks
    .ok (l.getMNPayee :: payees, last)

/-- Blocks, each on top of the last from a list of height `h`, that leave the masternodes of `L`
alone. -/
def PlainRun (L : CDeterministicMNList) : Int → List (BuildEnv × List CTransaction) → Prop
  | _, [] => True
  | h, (env, vtx) :: blocks => 0 ≤ env.prevHeight ∧ h ≤ env.prevHeight ∧
      PlainBlock env.SerializeHash L vtx ∧ PlainRun L env.nHeight blocks

open CDeterministicMNState (keyFields)

/-- A block that leaves the masternodes of `L` alone leaves those of a list with the same
masternodes alone. -/
theorem PlainBlock.of_agree {β : Type} {F : CDeterministicMNState → β}
    {SerializeHash : UniqueProperty → uint256} {L l : CDeterministicMNList}
    {vtx : List CTransaction} (hp : PlainBlock SerializeHash L vtx) (h : AgreeOn F L l) :
    PlainBlock SerializeHash l vtx :=
  ⟨hp.skipped, fun tx htx txin hin => h.getMNByCollateral_eq_none (hp.noSpend tx htx txin hin)⟩

/-- Over a run of blocks that leave the masternodes of `L` alone, from a list with the masternodes
of `L`: every block is accepted, and the `i`-th block pays the head of the payment order turned
`i` times. -/
theorem buildRun_plain {L : CDeterministicMNList} :
    ∀ {blocks : List (BuildEnv × List CTransaction)} {l : CDeterministicMNList},
      l.KeysMatch → AllMNs (PaidHeightsBelow l.nHeight) l → AgreeOn keyFields L l →
      PlainRun L l.nHeight blocks →
      ∃ payees last, buildRun l blocks = .ok (payees, last) ∧
        payees.map (Option.map (·.proTxHash)) =
          (List.range blocks.length).map fun i => (l.payOrder.rotate i).head?
  | [], l, _, _, _, _ => ⟨[], l, rfl, rfl⟩
  | (env, vtx) :: blocks, l, hk, hH, hL, ⟨h0, hprev, hplain, hrest⟩ => by
    obtain ⟨l', hbuild, hk', hl', hord⟩ := plainBlock_order hk hH hprev h0 (hplain.of_agree hL)
    obtain ⟨-, hH'⟩ := buildNewListFromBlock_paidHeights hk hH hprev h0 hbuild
    have hheight : l'.nHeight = env.nHeight := (buildNewListFromBlock_header hbuild).2.1
    obtain ⟨payees, last, hrun, hpayees⟩ :=
      buildRun_plain hk' hH' (hL.trans hl') (hheight ▸ hrest)
    refine ⟨l.getMNPayee :: payees, last, by simp [buildRun, hbuild, hrun], ?_⟩
    rw [List.map_cons, getMNPayee_hash hk, hpayees, List.length_cons, List.range_succ_eq_map,
      List.map_cons, List.map_map, List.rotate_zero]
    congr 1
    -- the order of the block's list is the parent's turned once more
    refine List.map_congr_left fun i _ => ?_
    rw [Function.comp_apply, hord, List.rotate_rotate, Nat.add_comm]

/-- `GetProjectedMNPayees` predicts the payees: on a list a chain reaches, with at least `k`
valid masternodes, the `k` projected payees are, by ProTx hash, the payees of the next `k` blocks
when these leave the masternodes alone. The first is `GetMNPayee`'s, no masternode is projected
twice, and `CompareByLastPaid` is a strict total order on masternodes with distinct ProTx
hashes. -/
theorem projectedMNPayees_eq_payees {SerializeHash : UniqueProperty → uint256}
    {cenv : CheckEnv} {L : CDeterministicMNList} (hL : HeightReachable SerializeHash cenv L)
    {k : Nat} (hk1 : 1 ≤ k) (hkv : k ≤ L.getValidMNsCount)
    {blocks : List (BuildEnv × List CTransaction)} (hlen : blocks.length = k)
    (hplain : PlainRun L L.nHeight blocks) :
    ∃ projected payees last, L.getProjectedMNPayees k = some projected ∧
      buildRun L blocks = .ok (payees, last) ∧
      payees.map (Option.map (·.proTxHash)) = projected.map (fun dmn => some dmn.proTxHash) ∧
      projected.head? = L.getMNPayee ∧ (projected.map (·.proTxHash)).Nodup ∧
      (∀ a, compareByLastPaid a a = false) ∧
      (∀ a b c, compareByLastPaid a b = true → compareByLastPaid b c = true →
        compareByLastPaid a c = true) ∧
      (∀ a b : CDeterministicMN, a.proTxHash ≠ b.proTxHash →
        compareByLastPaid a b = true ∨ compareByLastPaid b a = true) := by
  obtain ⟨hk, hH⟩ := hL.inv
  have hproj := getProjectedMNPayees_eq hk (Int.natCast_nonneg k) (by exact_mod_cast hkv)
  rw [Int.toNat_natCast] at hproj
  have hhash := map_sortByKey_validMNs hk
  have hnodup : L.payOrder.Nodup := (sortByKey_perm _).nodup_iff.2 (nodup_validIds hk)
  have hlen' : k ≤ L.payOrder.length := by
    rwa [payOrder, (sortByKey_perm _).length_eq, validIds, List.length_map]
  obtain ⟨payees, last, hrun, hpayees⟩ := buildRun_plain hk hH (AgreeOn.refl _ L) hplain
  refine ⟨_, payees, last, hproj, hrun, ?_, ?_, ?_, compareByLastPaid_irrefl,
    fun _ _ _ => compareByLastPaid_trans, fun _ _ => compareByLastPaid_total⟩
  · rw [hpayees, hlen, map_range_head?_rotate hlen', ← hhash, List.map_take, List.map_take,
      List.map_map]
    rfl
  · rw [List.head?_take, if_neg (by omega), getMNPayee_eq hk]
  · rw [List.map_take, hhash]
    exact (List.take_sublist _ _).nodup hnodup

namespace PayeeFixture

open BlockAbortsFixture

/-- Two blocks with nothing but their coinbase, on top of the list of block 1. -/
def plainBlocks : List (BuildEnv × List CTransaction) :=
  [(env 1, [coinbase 20]), (env 2, [coinbase 30])]

theorem list₁_heightReachable : HeightReachable serializeHash cenv list₁ :=
  .step (env 0, vtx₁) .init rfl

theorem plainBlocks_plainRun : PlainRun list₁ list₁.nHeight plainBlocks :=
  ⟨by decide, by decide, ⟨by simp, by simp⟩, by decide, by decide, ⟨by simp, by simp⟩, trivial⟩

/-- The two masternodes of block 1 are projected and paid in the order of their hashes. -/
theorem projectedMNPayees_eq_payees_list₁ :
    HeightReachable serializeHash cenv list₁ ∧ 1 ≤ 2 ∧ 2 ≤ list₁.getValidMNsCount ∧
      plainBlocks.length = 2 ∧ PlainRun list₁ list₁.nHeight plainBlocks ∧
      ∃ projected payees last, list₁.getProjectedMNPayees (2 : Nat) = some projected ∧
        buildRun list₁ plainBlocks = .ok (payees, last) ∧
        payees.map (Option.map (·.proTxHash)) = projected.map (fun dmn => some dmn.proTxHash) ∧
        projected.head? = list₁.getMNPayee ∧ (projected.map (·.proTxHash)).Nodup ∧
        (∀ a, compareByLastPaid a a = false) ∧
        (∀ a b c, compareByLastPaid a b = true → compareByLastPaid b c = true →
          compareByLastPaid a c = true) ∧
        (∀ a b : CDeterministicMN, a.proTxHash ≠ b.proTxHash →
          compareByLastPaid a b = true ∨ compareByLastPaid b a = true) :=
  ⟨list₁_heightReachable, by decide, by decide, rfl, plainBlocks_plainRun,
    projectedMNPayees_eq_payees list₁_heightReachable (by decide) (by decide) rfl
      plainBlocks_plainRun⟩

end PayeeFixture

end Emrals
