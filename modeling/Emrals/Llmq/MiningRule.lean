import Emrals.Llmq.BlockProcessor

/-!
# The mining rule of quorum commitments

Every state the node reaches keeps an invariant (`QuorumNode.Inv`) with four parts:

- the hashes of the active chain are distinct and not null;
- every block of the chain at or above the activation height passed the checks of
  `ProcessBlock` on top of the blocks below it, against a store holding what they mined
  (`ChainRule`);
- the store holds exactly the non-null commitments those blocks mined (`StoreMatches`);
- the cache answers as the store does.

Connecting a block extends the chain and the store by the same commitments (`Inv.connect`), and
disconnecting the tip removes them from both (`Inv.disconnect`), because a key is mined once
(`ChainRule.minedAt_unique`). A transaction of `specialDb` that is rolled back keeps the invariant
too, because the processors keep their cache sound for the store a transaction started from
(`Inv.of_specialDb`).

The mining rule of a session follows from the invariant (`reachable_miningRule`). It holds only
at or above the activation height: `ProcessBlock` checks nothing below it.
-/

namespace Emrals

namespace QuorumNode

open CQuorumBlockProcessor

/-! ## What the chain mined -/

/-- The block at height `h` of `chain`, at or above the activation height `act`, mined a non-null
commitment of key `k`, which the store keeps as `v`. -/
def MinedAt (act : Nat) (chain : ActiveChain) (h : Nat) (k : UInt8 × uint256)
    (v : CFinalCommitment × uint256) : Prop :=
  ∃ bh block, chain[h]? = some (bh, block) ∧ act ≤ h ∧
    ∃ qc ∈ block.commitments, qc.isNull = false ∧ (qc.llmqType, qc.quorumHash) = k ∧ v = (qc, bh)

/-- The store `db` holds exactly the commitments the blocks of `chain` mined. -/
def StoreMatches (act : Nat) (chain : ActiveChain) (db : QuorumDB) : Prop :=
  ∀ k v, db.minedCommitments.lookup k = some v ↔ ∃ h, MinedAt act chain h k v

section
variable {act : Nat} {chain : ActiveChain} {h : Nat} {k : UInt8 × uint256}
  {v : CFinalCommitment × uint256} {bh : uint256} {block : CBlock}

theorem MinedAt.lt_length (hm : MinedAt act chain h k v) : h < chain.length := by
  obtain ⟨bh, block, hb, -⟩ := hm
  exact (List.getElem?_eq_some_iff.1 hb).1

/-- The first `n` blocks mined what the chain mined below `n`. -/
theorem minedAt_take {n : Nat} :
    MinedAt act (chain.take n) h k v ↔ h < n ∧ MinedAt act chain h k v := by
  unfold MinedAt
  rw [List.getElem?_take]
  by_cases hh : h < n <;> simp [hh]

/-- A block on top of the chain mines at its own height only. -/
theorem minedAt_append :
    MinedAt act (chain ++ [(bh, block)]) h k v ↔ MinedAt act chain h k v ∨
      (h = chain.length ∧ act ≤ h ∧ ∃ qc ∈ block.commitments, qc.isNull = false ∧
        (qc.llmqType, qc.quorumHash) = k ∧ v = (qc, bh)) := by
  unfold MinedAt
  rcases lt_trichotomy h chain.length with hh | rfl | hh
  · rw [List.getElem?_append_left hh]
    simp [hh.ne]
  · rw [List.getElem?_concat_length, List.getElem?_eq_none le_rfl]
    simp
  · rw [List.getElem?_eq_none hh.le, List.getElem?_eq_none (by simp; omega)]
    simp [hh.ne']

/-- A block below the activation height mines nothing. -/
theorem StoreMatches.append_below {db : QuorumDB} (hs : StoreMatches act chain db)
    (hlt : chain.length < act) : StoreMatches act (chain ++ [(bh, block)]) db := by
  intro k v
  rw [hs k v]
  refine exists_congr fun h => ?_
  rw [minedAt_append]
  constructor
  · exact .inl
  · rintro (hm | ⟨rfl, hle, -⟩)
    · exact hm
    · omega

/-- A block at or above the activation height adds what it mined to the store. -/
theorem StoreMatches.append {db db' : QuorumDB} (hs : StoreMatches act chain db)
    (hle : act ≤ chain.length)
    (hdb : ∀ k v, db'.minedCommitments.lookup k = some v ↔
      db.minedCommitments.lookup k = some v ∨
        ∃ qc ∈ block.commitments, qc.isNull = false ∧ (qc.llmqType, qc.quorumHash) = k ∧
          v = (qc, bh)) :
    StoreMatches act (chain ++ [(bh, block)]) db' := by
  intro k v
  rw [hdb, hs]
  simp only [minedAt_append, exists_or, exists_eq_left, hle, true_and]

end

/-- What `ProcessBlock` checked of a block at or above the activation height, on top of `chain`,
against a store `db` of that chain (`processBlock_ok`). -/
structure BlockAccepted (env : QuorumEnv) (chain : ActiveChain) (db : QuorumDB) (block : CBlock) :
    Prop where
  distinct : DistinctTypes block.commitments
  required : ∀ params ∈ env.consensus.llmqs,
    block.commitments.any (·.llmqType == params.type) = RequiredIn chain db params chain.length
  accepted : ∀ qc ∈ block.commitments, CommitmentAccepted env chain chain.length db qc

/-- Every block of the chain at or above the activation height was accepted on top of the blocks
below it, against a store holding what they mined. -/
def ChainRule (env : QuorumEnv) (chain : ActiveChain) : Prop :=
  ∀ h bh block, chain[h]? = some (bh, block) → env.consensus.nLLMQActivationHeight ≤ h →
    ∃ db, StoreMatches env.consensus.nLLMQActivationHeight (chain.take h) db ∧
      BlockAccepted env (chain.take h) db block

section
variable {env : QuorumEnv} {chain : ActiveChain} {k : UInt8 × uint256}
  {v w : CFinalCommitment × uint256} {bh : uint256} {block : CBlock}

theorem ChainRule.append (hr : ChainRule env chain)
    (hnew : env.consensus.nLLMQActivationHeight ≤ chain.length →
      ∃ db, StoreMatches env.consensus.nLLMQActivationHeight chain db ∧
        BlockAccepted env chain db block) :
    ChainRule env (chain ++ [(bh, block)]) := by
  intro h bh' block' hb hle
  rcases lt_trichotomy h chain.length with hh | rfl | hh
  · rw [List.getElem?_append_left hh] at hb
    rw [List.take_append_of_le_length hh.le]
    exact hr h bh' block' hb hle
  · rw [List.getElem?_concat_length] at hb
    cases hb
    rw [List.take_left' rfl]
    exact hnew hle
  · rw [List.getElem?_eq_none (by simp; omega)] at hb
    cases hb

theorem ChainRule.take (hr : ChainRule env chain) (n : Nat) : ChainRule env (chain.take n) := by
  intro h bh block hb hle
  rw [List.getElem?_take] at hb
  split at hb
  · next hh =>
    rw [List.take_take, min_eq_left hh.le]
    exact hr h bh block hb hle
  · cases hb

/-- A block that mines a key was accepted against a store without it, which holds what every
block below mined: so no block below mined the key. -/
theorem ChainRule.not_minedAt_lt (hr : ChainRule env chain) {i j : Nat}
    (hj : MinedAt env.consensus.nLLMQActivationHeight chain j k w) (hij : i < j) :
    ¬MinedAt env.consensus.nLLMQActivationHeight chain i k v := by
  intro hi
  obtain ⟨bh, block, hb, hle, qc, hqc, hnull, rfl, rfl⟩ := hj
  obtain ⟨db, hs, ha⟩ := hr j bh block hb hle
  obtain ⟨params, -, -, -, hfirst⟩ := ha.accepted qc hqc
  have hsome : db.minedCommitments.lookup (qc.llmqType, qc.quorumHash) = some v :=
    (hs _ _).2 ⟨i, minedAt_take.2 ⟨hij, hi⟩⟩
  rw [(hfirst hnull).1] at hsome
  cases hsome

/-- A key is mined once, by one commitment of one block. -/
theorem ChainRule.minedAt_unique (hr : ChainRule env chain) {i j : Nat}
    (hi : MinedAt env.consensus.nLLMQActivationHeight chain i k v)
    (hj : MinedAt env.consensus.nLLMQActivationHeight chain j k w) : i = j ∧ v = w := by
  rcases lt_trichotomy i j with hij | rfl | hij
  · exact absurd hi (hr.not_minedAt_lt hj hij)
  · refine ⟨rfl, ?_⟩
    obtain ⟨bh, block, hb, hle, qc, hqc, -, hk, rfl⟩ := hi
    obtain ⟨bh', block', hb', -, qc', hqc', -, hk', rfl⟩ := hj
    rw [hb] at hb'
    cases hb'
    obtain ⟨db, -, ha⟩ := hr _ _ _ hb hle
    -- the block's commitments of one type are one commitment
    have htype : qc.llmqType = qc'.llmqType := congrArg Prod.fst (hk.trans hk'.symm)
    rw [DistinctTypes.eq_of_llmqType_eq ha.distinct hqc hqc' htype]
  · exact absurd hj (hr.not_minedAt_lt hi hij)

/-- Undoing the tip: a store that drops what the tip mined holds what the blocks below it
mined, since no block below mined a key of the tip. -/
theorem StoreMatches.undo {db db' : QuorumDB} (hr : ChainRule env (chain ++ [(bh, block)]))
    (hs : StoreMatches env.consensus.nLLMQActivationHeight (chain ++ [(bh, block)]) db)
    (hdb : ∀ k, db'.minedCommitments.lookup k =
      if env.consensus.nLLMQActivationHeight ≤ chain.length ∧
        ∃ qc ∈ block.commitments, qc.isNull = false ∧ (qc.llmqType, qc.quorumHash) = k then none
      else db.minedCommitments.lookup k) :
    StoreMatches env.consensus.nLLMQActivationHeight chain db' := by
  intro k v
  rw [hdb k]
  split
  · next htip =>
    obtain ⟨hle, qc, hqc, hnull, hk⟩ := htip
    have htip : MinedAt env.consensus.nLLMQActivationHeight (chain ++ [(bh, block)]) chain.length
        k (qc, bh) := minedAt_append.2 (.inr ⟨rfl, hle, qc, hqc, hnull, hk, rfl⟩)
    refine ⟨fun h => (nomatch h), fun ⟨i, hi⟩ => ?_⟩
    have hi' : MinedAt env.consensus.nLLMQActivationHeight (chain ++ [(bh, block)]) i k v :=
      minedAt_append.2 (.inl hi)
    exact (hr.not_minedAt_lt htip hi.lt_length hi').elim
  · next htip =>
    rw [hs k v]
    refine exists_congr fun i => ?_
    rw [minedAt_append]
    refine ⟨fun hm => hm.resolve_right ?_, .inl⟩
    rintro ⟨rfl, hle, qc, hqc, hnull, hk, -⟩
    exact htip ⟨hle, qc, hqc, hnull, hk⟩

end

/-! ## The invariant -/

/-- The invariant of the node. -/
structure Inv (env : QuorumEnv) (n : QuorumNode) : Prop where
  hashes_nodup : (n.chain.map (·.1)).Nodup
  hashes_nonnull : ∀ x ∈ n.chain, x.1.isNull = false
  rule : ChainRule env n.chain
  store : StoreMatches env.consensus.nLLMQActivationHeight n.chain n.processor.specialDb
  cache : CacheSound n.processor n.processor.specialDb

section
variable {env : QuorumEnv} {n n' : QuorumNode} {p : CQuorumBlockProcessor} {bh : uint256}
  {block : CBlock}

theorem inv_init : Inv env {} := by
  refine ⟨List.nodup_nil, fun _ h => (nomatch h), fun h _ _ hb => by simp at hb, fun k v => ?_,
    fun k b hb => by simp at hb⟩
  simp [MinedAt]

/-- A processor with the node's store, whose cache is sound for it, keeps the invariant. That is
the processor after a rolled back transaction, or after a message or a miner's request. -/
theorem Inv.of_specialDb (hi : Inv env n) (hdb : p.specialDb = n.processor.specialDb)
    (hc : CacheSound p n.processor.specialDb) : Inv env { n with processor := p } := by
  refine ⟨hi.hashes_nodup, hi.hashes_nonnull, hi.rule, ?_, ?_⟩
  · show StoreMatches _ n.chain p.specialDb
    rw [hdb]
    exact hi.store
  · show CacheSound p p.specialDb
    rw [hdb]
    exact hc

/-- Connecting a block, with the transaction committed. -/
theorem Inv.connect (hi : Inv env n) (hfresh : ¬(bh.isNull = true ∨ bh ∈ n.chain.map (·.1)))
    (hok : processBlock env n.chain n.processor bh block = (.ok (), p)) :
    Inv env { chain := n.chain ++ [(bh, block)], processor := p } := by
  obtain ⟨hnull, hnew⟩ := not_or.1 hfresh
  obtain ⟨hs, -, -, -⟩ := processBlock_sound hok hi.cache
  obtain ⟨hbelow, habove⟩ := processBlock_ok hok hi.cache
  refine ⟨?_, ?_, ?_, ?_, hs⟩
  · rw [List.map_append, List.nodup_append]
    refine ⟨hi.hashes_nodup, List.nodup_singleton _, fun a ha b hb hab => hnew ?_⟩
    rw [List.map_singleton, List.mem_singleton] at hb
    rwa [hab, hb] at ha
  · intro x hx
    rcases List.mem_append.1 hx with hx | hx
    · exact hi.hashes_nonnull x hx
    · rw [List.mem_singleton] at hx
      subst hx
      simpa using hnull
  · refine hi.rule.append fun hle => ⟨n.processor.specialDb, hi.store, ?_⟩
    obtain ⟨hd, hreq, hacc, -⟩ := habove hle
    exact ⟨hd, hreq, hacc⟩
  · by_cases hle : env.consensus.nLLMQActivationHeight ≤ n.chain.length
    · exact hi.store.append hle (habove hle).2.2.2
    · -- below activation the store keeps its commitments
      intro k v
      rw [hbelow (Nat.lt_of_not_le hle)]
      exact hi.store.append_below (Nat.lt_of_not_le hle) k v

/-- Disconnecting the tip, with the transaction committed. -/
theorem Inv.disconnect {prevHash : uint256} (hi : Inv env n)
    (hlast : n.chain.getLast? = some (bh, block))
    (hundo : undoBlock env n.processor block (n.chain.length - 1) prevHash = .ok p) :
    Inv env { chain := n.chain.dropLast, processor := p } := by
  obtain ⟨c, hc⟩ := List.getLast?_eq_some_iff.1 hlast
  obtain ⟨chain, proc⟩ := n
  dsimp only at hc hundo ⊢
  subst hc
  rw [List.dropLast_concat]
  rw [List.length_append, List.length_singleton, Nat.add_sub_cancel] at hundo
  obtain ⟨hdb, hcache, -⟩ := undoBlock_ok hundo
  refine ⟨?_, fun x hx => hi.hashes_nonnull x (List.mem_append_left _ hx), ?_,
    hi.store.undo hi.rule hdb, hcache hi.cache⟩
  · have hnd := hi.hashes_nodup
    rw [List.map_append] at hnd
    exact (List.nodup_append.1 hnd).1
  · have hr := hi.rule.take c.length
    rwa [List.take_left' rfl] at hr

/-- Every event keeps the invariant. -/
theorem step_inv {e : QuorumEvent} (hi : Inv env n) (h : step env n e = some n') : Inv env n' := by
  cases e with
  | connect blockHash block committed =>
    rw [step] at h
    split at h
    · cases h
    · next hfresh =>
      split at h
      · cases h
      · next p hpb =>
        -- a rolled back connection leaves the store as it was
        cases h
        exact hi.of_specialDb rfl (processBlock_sound hpb hi.cache).2.1
      · next p hpb =>
        split at h
        · cases h
          exact hi.connect hfresh hpb
        · cases h
          exact hi.of_specialDb rfl (processBlock_sound hpb hi.cache).2.1
  | disconnect committed =>
    rw [step] at h
    split at h
    · next bh block prevHash b' hlast hprev =>
      split at h
      · cases h
      · cases h
        exact hi
      · next p hundo =>
        split at h
        · cases h
          exact hi.disconnect hlast hundo
        · cases h
          exact hi.of_specialDb rfl ((undoBlock_ok hundo).2.2 _ hi.cache)
    · cases h
  | receive qc =>
    rw [step] at h
    obtain ⟨⟨res, p⟩, hpm, rfl⟩ := Option.map_eq_some_iff.1 h
    obtain ⟨hdb, hcache⟩ := processMessage_stores hpm
    exact hi.of_specialDb hdb (hi.cache.of_cache_eq hcache)
  | mine llmqType =>
    rw [step] at h
    split at h
    · cases h
    · next params hparams =>
      obtain ⟨⟨qc, p⟩, hgm, rfl⟩ := Option.map_eq_some_iff.1 h
      rw [getMinableCommitment_processor hgm]
      exact hi.of_specialDb (isCommitmentRequired_sameStores _ _ _).specialDb
        (hi.cache.isCommitmentRequired _ _ _ fun _ => rfl)

/-- Every state the node reaches keeps the invariant. -/
theorem reachable_inv (hn : Reachable env n) : Inv env n :=
  hn.induction_on_inv inv_init fun _ _ _ hi h => step_inv hi h

end

/-! ## Sessions -/

section
variable {chain : ActiveChain} {params : LLMQParams} {i s : Nat} {qh : uint256}

theorem getBlockHash_take (j : Nat) :
    getBlockHash (chain.take i) j = if j < i then getBlockHash chain j else none := by
  unfold getBlockHash
  rw [List.getElem?_take]
  split <;> rfl

/-- On top of the first `i` blocks, the session of height `i` is null when `i` is its first
block, and is otherwise named by the hash of its first block. -/
theorem getQuorumBlockHash_take :
    getQuorumBlockHash (chain.take i) params i =
      if i % params.dkgInterval = 0 then 0
      else (getBlockHash chain (i - i % params.dkgInterval)).getD 0 := by
  unfold getQuorumBlockHash
  dsimp only
  rw [getBlockHash_take]
  by_cases h : i % params.dkgInterval = 0
  · simp [h]
  · have hlt : i - i % params.dkgInterval < i := by
      have := Nat.mod_le i params.dkgInterval
      omega
    simp [h, hlt]

/-- The offset of a height in the session that starts at `s`, a multiple of the interval. -/
theorem mod_of_session (hs : s % params.dkgInterval = 0) (h₁ : s ≤ i)
    (h₂ : i < s + params.dkgInterval) : i % params.dkgInterval = i - s := by
  obtain ⟨q, rfl⟩ : ∃ q, s = params.dkgInterval * q :=
    ⟨s / params.dkgInterval, (Nat.mul_div_cancel' (Nat.dvd_of_mod_eq_zero hs)).symm⟩
  have hi : i = params.dkgInterval * q + (i - params.dkgInterval * q) := by omega
  rw [hi, Nat.mul_add_mod, Nat.mod_eq_of_lt (by omega)]
  omega

/-- Distinct hashes name distinct heights. -/
theorem getBlockHash_inj (hnd : (chain.map (·.1)).Nodup) {a b : Nat} {x : uint256}
    (ha : getBlockHash chain a = some x) (hb : getBlockHash chain b = some x) : a = b := by
  unfold getBlockHash at ha hb
  rw [← List.getElem?_map] at ha hb
  have hlt : a < (chain.map (·.1)).length := (List.getElem?_eq_some_iff.1 ha).1
  exact (List.getElem?_inj hlt hnd).1 (ha.trans hb.symm)

theorem isNull_of_getBlockHash (hnn : ∀ x ∈ chain, x.1.isNull = false)
    (hqh : getBlockHash chain s = some qh) : qh.isNull = false := by
  unfold getBlockHash at hqh
  obtain ⟨x, hx, rfl⟩ := Option.map_eq_some_iff.1 hqh
  exact hnn x (List.mem_of_getElem? hx)

/-- The blocks of a session after its first one name it by the hash of its first block. -/
theorem getQuorumBlockHash_take_session (hs : s % params.dkgInterval = 0)
    (hqh : getBlockHash chain s = some qh) (h₁ : s < i) (h₂ : i < s + params.dkgInterval) :
    getQuorumBlockHash (chain.take i) params i = qh := by
  have hmod := mod_of_session hs h₁.le h₂
  rw [getQuorumBlockHash_take, if_neg (by omega), show i - i % params.dkgInterval = s by omega,
    hqh]
  rfl

/-- A block that names a session by a non-null hash of the chain lies in that session, after its
first block. -/
theorem session_of_getQuorumBlockHash_take (hnd : (chain.map (·.1)).Nodup)
    (hqh : getBlockHash chain s = some qh) (h : getQuorumBlockHash (chain.take i) params i = qh)
    (hnn : qh.isNull = false) : s < i ∧ i < s + params.dkgInterval := by
  rw [getQuorumBlockHash_take] at h
  split at h
  · subst h
    cases hnn
  · next hmod =>
    cases hg : getBlockHash chain (i - i % params.dkgInterval) with
    | none =>
      rw [hg] at h
      subst h
      cases hnn
    | some x =>
      rw [hg] at h
      cases h
      have hs := getBlockHash_inj hnd hg hqh
      have hlt := Nat.mod_lt i params.dkgInterval_pos
      have hle := Nat.mod_le i params.dkgInterval
      omega

/-- `IsCommitmentRequired` of a block of a session, against a store of the blocks below it: the
block is past the session's first one, in the window, and no block below mined a commitment of
the session. -/
theorem requiredIn_session {act : Nat} {db : QuorumDB} (hsm : StoreMatches act (chain.take i) db)
    (hnn : ∀ x ∈ chain, x.1.isNull = false) (hs : s % params.dkgInterval = 0)
    (hqh : getBlockHash chain s = some qh) (h₁ : s ≤ i) (h₂ : i < s + params.dkgInterval) :
    RequiredIn (chain.take i) db params i = true ↔
      s < i ∧ isMiningPhase params i = true ∧
        ∀ j < i, ∀ v, ¬MinedAt act chain j (params.type, qh) v := by
  unfold RequiredIn
  rcases h₁.lt_or_eq with hlt | rfl
  · rw [getQuorumBlockHash_take_session hs hqh hlt h₂]
    -- the store has the session exactly when a block below mined it
    have hmined : db.minedCommitments.lookup (params.type, qh) = none ↔
        ∀ j < i, ∀ v, ¬MinedAt act chain j (params.type, qh) v := by
      rw [Option.eq_none_iff_forall_ne_some]
      refine ⟨fun h j hj v hm => h v ((hsm _ v).2 ⟨j, minedAt_take.2 ⟨hj, hm⟩⟩), fun h v hv => ?_⟩
      obtain ⟨j, hm⟩ := (hsm _ v).1 hv
      obtain ⟨hj, hm⟩ := minedAt_take.1 hm
      exact h j hj v hm
    rw [← hmined]
    simp [isNull_of_getBlockHash hnn hqh, hlt]
  · -- the session's first block names it by the null hash
    rw [getQuorumBlockHash_take, if_pos hs]
    simp [uint256.isNull]

end

/-! ## The mining rule -/

/-- The mining rule of the session of type `params` whose first block, at the height `s`, has the
hash `qh`, over the blocks at or above the activation height. -/
structure SessionRule (env : QuorumEnv) (n : QuorumNode) (params : LLMQParams) (s : Nat)
    (qh : uint256) : Prop where
  /-- At most one non-null commitment of the session is mined. -/
  unique : ∀ i j v w, MinedAt env.consensus.nLLMQActivationHeight n.chain i (params.type, qh) v →
    MinedAt env.consensus.nLLMQActivationHeight n.chain j (params.type, qh) w → i = j ∧ v = w
  /-- The store holds it. -/
  stored : ∀ v, n.processor.specialDb.minedCommitments.lookup (params.type, qh) = some v ↔
    ∃ i, MinedAt env.consensus.nLLMQActivationHeight n.chain i (params.type, qh) v
  /-- It is mined in the window of the session, past its first block. -/
  window : ∀ i v, MinedAt env.consensus.nLLMQActivationHeight n.chain i (params.type, qh) v →
    s < i ∧ i < s + params.dkgInterval ∧ isMiningPhase params i = true
  /-- A block of the session carries one commitment of the type, null or not, while the window is
  open and no commitment of the session has been mined below it, and none otherwise. -/
  one_commitment : ∀ i bh block, n.chain[i]? = some (bh, block) →
    env.consensus.nLLMQActivationHeight ≤ i → s ≤ i → i < s + params.dkgInterval →
    (block.commitments.filter (·.llmqType == params.type)).length ≤ 1 ∧
    ((block.commitments.filter (·.llmqType == params.type)).length = 1 ↔
      s < i ∧ isMiningPhase params i = true ∧
        ∀ j < i, ∀ v, ¬MinedAt env.consensus.nLLMQActivationHeight n.chain j (params.type, qh) v)

section
variable {env : QuorumEnv} {n : QuorumNode} {params : LLMQParams} {i s : Nat} {qh : uint256}
  {v : CFinalCommitment × uint256}

/-- The block at height `i` was accepted on top of the `i` blocks below it. -/
theorem length_take_of_getElem? {chain : ActiveChain} {x : uint256 × CBlock}
    (hb : chain[i]? = some x) : (chain.take i).length = i := by
  have := (List.getElem?_eq_some_iff.1 hb).1
  simp only [List.length_take]
  omega

/-- A non-null commitment of a configured type is mined in the window of its session, past the
session's first block. -/
theorem Inv.minedAt_window (hi : Inv env n) (hp : params ∈ env.consensus.llmqs)
    (hqh : getBlockHash n.chain s = some qh)
    (hm : MinedAt env.consensus.nLLMQActivationHeight n.chain i (params.type, qh) v) :
    s < i ∧ i < s + params.dkgInterval ∧ isMiningPhase params i = true := by
  obtain ⟨bh, block, hb, hle, qc, hqc, hnull, hk, -⟩ := hm
  obtain ⟨db, -, ha⟩ := hi.rule i bh block hb hle
  obtain ⟨params', hparams', hq, hnn, hfirst⟩ := ha.accepted qc hqc
  rw [length_take_of_getElem? hb] at hq hfirst
  obtain ⟨htype, rfl⟩ := Prod.mk.inj hk
  -- the commitment's type is configured with `params`
  rw [htype, LLMQConsensus.llmqsAt_of_mem hp] at hparams'
  cases hparams'
  obtain ⟨hs₁, hs₂⟩ := session_of_getQuorumBlockHash_take hi.hashes_nodup hqh hq hnn
  exact ⟨hs₁, hs₂, (hfirst hnull).2⟩

/-- The commitments of the type in a block of the session. -/
theorem Inv.length_filter_session (hi : Inv env n) (hp : params ∈ env.consensus.llmqs)
    (hs : s % params.dkgInterval = 0) (hqh : getBlockHash n.chain s = some qh) {bh : uint256}
    {block : CBlock} (hb : n.chain[i]? = some (bh, block))
    (hle : env.consensus.nLLMQActivationHeight ≤ i) (h₁ : s ≤ i)
    (h₂ : i < s + params.dkgInterval) :
    (block.commitments.filter (·.llmqType == params.type)).length ≤ 1 ∧
    ((block.commitments.filter (·.llmqType == params.type)).length = 1 ↔
      s < i ∧ isMiningPhase params i = true ∧
        ∀ j < i, ∀ v, ¬MinedAt env.consensus.nLLMQActivationHeight n.chain j (params.type, qh) v) := by
  obtain ⟨db, hsm, ha⟩ := hi.rule i bh block hb hle
  have hreq := ha.required params hp
  rw [length_take_of_getElem? hb] at hreq
  rw [DistinctTypes.length_filter ha.distinct, hreq,
    ← requiredIn_session hsm hi.hashes_nonnull hs hqh h₁ h₂]
  cases RequiredIn (n.chain.take i) db params i <;> simp

/-- The mining rule of quorum commitments, in every state the node reaches, for every session of
a configured type whose first block is on the chain. -/
theorem reachable_miningRule (hn : Reachable env n) (hp : params ∈ env.consensus.llmqs)
    (hs : s % params.dkgInterval = 0) (hqh : getBlockHash n.chain s = some qh) :
    SessionRule env n params s qh := by
  have hi := reachable_inv hn
  exact ⟨fun _ _ _ _ hv hw => hi.rule.minedAt_unique hv hw, fun v => hi.store _ v,
    fun _ _ hm => hi.minedAt_window hp hqh hm,
    fun _ _ _ hb hle h₁ h₂ => hi.length_filter_session hp hs hqh hb hle h₁ h₂⟩

end

/-! ## The commitments a miner may include -/

/-- Every commitment a miner may include is the known one of its quorum. -/
def MinableIndexed (p : CQuorumBlockProcessor) : Prop :=
  ∀ h, h ∈ p.minableCommitments ↔ ∃ k, p.minableCommitmentsByQuorum.lookup k = some h

/-! ## Runs -/

namespace QuorumFixture

/-- A quorum type of two members whose sessions last four blocks, with the window `[1, 2]`. -/
def params : LLMQParams where
  type := 1
  size := 2
  dkgInterval := 4
  dkgMiningWindowStart := 1
  dkgMiningWindowEnd := 2
  dkgInterval_pos := by decide

/-- The node with the activation height `act`: every commitment verifies, a commitment's hash is
its number of signers, and the block index knows the genesis block, of hash 10. -/
def env (act : Nat) : QuorumEnv where
  consensus := ⟨[params], act, List.pairwise_singleton _ _⟩
  SerializeHash qc := BitVec.ofNat 256 qc.countSigners
  Verify _ := true
  blockIndexHeight h := if h = 10 then some 0 else none

/-- A commitment of the session of the genesis block, signed by `signers`. -/
def commitment (signers : List Bool) : CFinalCommitment where
  llmqType := 1
  quorumHash := 10
  signers := signers
  validMembers := [true, true]
  quorumPublicKey := some 1
  quorumVvecHash := 1
  quorumSig := some 1
  membersSig := some 1

/-- The quorum commitment transaction of `qc`. -/
def qcTx (qc : CFinalCommitment) : CTransaction where
  hash := 20
  nVersion := 3
  nType := TRANSACTION_QUORUM_COMMITMENT
  vin := []
  vout := []
  payload := some (.qc ⟨1, qc⟩)

/-- Two empty blocks below the activation height 2. -/
def prematureRun : List QuorumEvent := [.connect 10 ⟨[]⟩ true, .connect 11 ⟨[]⟩ true]

def premature : QuorumNode := (Machine.run (step (env 2)) {} prematureRun).getD {}

theorem premature_reachable : Reachable (env 2) premature :=
  Machine.Reachable.of_run .init (show Machine.run (step (env 2)) {} prematureRun = some premature
    from rfl)

/-- Below the activation height the rule does not hold: the block at height 1 is in the window
of the genesis block's session, no commitment of the session is mined, and it carries none. -/
theorem windowBlock_without_commitment :
    Reachable (env 2) premature ∧ premature.chain = [(10, ⟨[]⟩), (11, ⟨[]⟩)] ∧
      isMiningPhase params 1 = true ∧ premature.processor.specialDb.minedCommitments = ∅ ∧
      (CBlock.commitments ⟨[]⟩).filter (·.llmqType == params.type) = [] :=
  ⟨premature_reachable, rfl, rfl, rfl, rfl⟩

/-- A peer sends a commitment of one signer for the genesis block's session, and the block at
height 1 mines one of two signers. -/
def minedRun : List QuorumEvent :=
  [.connect 10 ⟨[]⟩ true, .receive (commitment [true, false]),
    .connect 11 ⟨[qcTx (commitment [true, true])]⟩ true]

def mined : QuorumNode := (Machine.run (step (env 0)) {} minedRun).getD {}

theorem mined_reachable : Reachable (env 0) mined :=
  Machine.Reachable.of_run .init (show Machine.run (step (env 0)) {} minedRun = some mined from rfl)

theorem mined_sessionRule : SessionRule (env 0) mined params 0 10 :=
  reachable_miningRule mined_reachable (List.mem_singleton_self _) rfl rfl

/-- The block at height 1 is disconnected again. -/
def undone : QuorumNode := ((step (env 0) mined (.disconnect true))).getD {}

/-- `UndoBlock` gives the mined commitment back to `AddMinableCommitment`, which replaces the
known commitment of one signer by it, and then erases the new commitment's hash: the commitment
of one signer stays, and no quorum names it. -/
theorem undoBlock_keeps_replaced_commitment :
    Reachable (env 0) undone ∧ ¬MinableIndexed undone.processor := by
  have hreach : Reachable (env 0) undone := mined_reachable.step (.disconnect true)
    (show step (env 0) mined (.disconnect true) = some undone from rfl)
  refine ⟨hreach, fun hidx => ?_⟩
  have hkept : (BitVec.ofNat 256 1 : uint256) ∈ undone.processor.minableCommitments :=
    AList.lookup_isSome.1 rfl
  have hindex : undone.processor.minableCommitmentsByQuorum.entries =
      [⟨(1, 10), BitVec.ofNat 256 2⟩] := rfl
  obtain ⟨k, hk⟩ := (hidx _).1 hkept
  have hmem := AList.mem_lookup_iff.1 hk
  rw [hindex, List.mem_singleton] at hmem
  -- the only quorum names the commitment of two signers
  obtain ⟨-, hval⟩ := Sigma.mk.inj_iff.1 hmem
  exact absurd (eq_of_heq hval) (show BitVec.ofNat 256 1 ≠ BitVec.ofNat 256 2 by decide)

end QuorumFixture

end QuorumNode

end Emrals
