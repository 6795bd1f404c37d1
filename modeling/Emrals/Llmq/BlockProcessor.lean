import Emrals.Special.BuildList
import Emrals.Validation.BlockValue
import Emrals.Lib.Machine

/-!
# The quorum block processor

`CQuorumBlockProcessor` (`src/llmq/quorums_blockprocessor.cpp`) enforces the mining rule of
quorum commitments and keeps two stores. In `specialDb` it keeps the mined commitments, by
quorum type and quorum hash, each with the hash of the block that mined it (`q_mc`), and an index
of them by mined height (`q_mcih`). In memory it keeps the commitments received from peers that a
miner may include (`minableCommitmentsByQuorum`, `minableCommitments`) and a cache of
`HasMinedCommitment` (`hasMinedCommitmentCache`).

The node drives it through the events of `QuorumEvent`: `ConnectTip` and `TestBlockValidity`
connect a block on top of the active chain (`ProcessBlock`), `DisconnectTip` disconnects the tip
(`UndoBlock`), a peer sends a `QFCOMMITMENT` (`ProcessMessage`), and the miner asks for the
commitment of the next block (`GetMinableCommitment`). A connection or disconnection runs in a
transaction of `specialDb` that is committed only when the whole of `ConnectBlock` or
`DisconnectBlock` succeeds; the in-memory state keeps what the processor did either way.

Heights are `Nat`: the processor reads the heights of blocks of the active chain only, which are
never negative, and the configured windows and intervals are positive.
-/

namespace Emrals

/-- `Consensus::LLMQParams`: what the block processor reads of the parameters of a quorum
type. The interval is positive in every configured type. -/
structure LLMQParams where
  type : UInt8
  size : Nat
  dkgInterval : Nat
  dkgMiningWindowStart : Nat
  dkgMiningWindowEnd : Nat
  dkgInterval_pos : 0 < dkgInterval

/-- The quorum part of `Consensus::Params`: `llmqs`, a `std::map` by type, as its values in key
order, and `nLLMQActivationHeight`. -/
structure LLMQConsensus where
  llmqs : List LLMQParams
  nLLMQActivationHeight : Nat
  sorted : llmqs.Pairwise fun a b => a.type < b.type

/-- `llmqs.at(llmqType)`; `none` where `at` throws. -/
def LLMQConsensus.llmqsAt (c : LLMQConsensus) (llmqType : UInt8) : Option LLMQParams :=
  c.llmqs.find? (·.type == llmqType)

theorem LLMQConsensus.llmqsAt_eq_some {c : LLMQConsensus} {llmqType : UInt8}
    {params : LLMQParams} (h : c.llmqsAt llmqType = some params) :
    params.type = llmqType ∧ params ∈ c.llmqs :=
  ⟨by simpa using List.find?_some h, List.mem_of_find?_eq_some h⟩

/-- The types of the configured parameters are distinct, so `at` finds each by its type. -/
theorem LLMQConsensus.llmqsAt_of_mem {c : LLMQConsensus} {params : LLMQParams}
    (h : params ∈ c.llmqs) : c.llmqsAt params.type = some params := by
  obtain ⟨llmqs, _, sorted⟩ := c
  unfold llmqsAt
  dsimp only at h ⊢
  induction llmqs with
  | nil => cases h
  | cons a l ih =>
    obtain ⟨hlt, hl⟩ := List.pairwise_cons.1 sorted
    rcases List.mem_cons.1 h with rfl | hmem
    · simp
    · have hne : a.type ≠ params.type := by
        intro he
        exact UInt8.lt_irrefl _ (he ▸ hlt params hmem)
      rw [List.find?_cons_of_neg (by simpa using hne)]
      exact ih hl hmem

namespace CFinalCommitment

/-- `CFinalCommitment::CountSigners`. -/
def countSigners (qc : CFinalCommitment) : Nat := qc.signers.count true

/-- `CFinalCommitment::VerifySizes`. -/
def verifySizes (qc : CFinalCommitment) (params : LLMQParams) : Bool :=
  qc.signers.length == params.size && qc.validMembers.length == params.size

/-- `CFinalCommitment::VerifyNull`. -/
def verifyNull (c : LLMQConsensus) (qc : CFinalCommitment) : Bool :=
  match c.llmqsAt qc.llmqType with
  | none => false
  | some params => qc.isNull && qc.verifySizes params

/-- `CFinalCommitment(params, quorumHash)`: the null commitment of a session. -/
def ofParams (params : LLMQParams) (quorumHash : uint256) : CFinalCommitment where
  llmqType := params.type
  quorumHash := quorumHash
  signers := List.replicate params.size false
  validMembers := List.replicate params.size false
  quorumPublicKey := none
  quorumVvecHash := 0
  quorumSig := none
  membersSig := none

end CFinalCommitment

/-- What the processor asks of the rest of the node. -/
structure QuorumEnv where
  consensus : LLMQConsensus
  /-- `::SerializeHash` of a commitment. -/
  SerializeHash : CFinalCommitment → uint256
  /-- `qc.Verify(members, true)` against `CLLMQUtils::GetAllQuorumMembers` of its quorum. -/
  Verify : CFinalCommitment → Bool
  /-- The height of the block of a hash in `::BlockIndex()`, if the node knows it. -/
  blockIndexHeight : uint256 → Option Nat

/-- The active chain: the hash and the block of each height, from the genesis block. -/
abbrev ActiveChain := List (uint256 × CBlock)

/-- `GetBlockHash` on the active chain. -/
def getBlockHash (chain : ActiveChain) (nBlockHeight : Nat) : Option uint256 :=
  chain[nBlockHeight]?.map (·.1)

/-- What `CQuorumBlockProcessor` keeps in `specialDb`. -/
structure QuorumDB where
  /-- `q_mc`: the mined commitment of a type and quorum hash, and the hash of its block. -/
  minedCommitments : AList (fun _ : UInt8 × uint256 => CFinalCommitment × uint256) := ∅
  /-- `q_mcih`: the quorum height of the commitment of a type mined at a height. The key of the
  source, `htobe32(UINT32_MAX - nMinedHeight)`, is a bijective image of the height. -/
  minedByHeight : AList (fun _ : UInt8 × Nat => Nat) := ∅
  /-- `q_bbu2`. -/
  bestBlockUpgrade : uint256 := 0
  deriving DecidableEq

/-- `CQuorumBlockProcessor`: its part of `specialDb` and its memory. -/
structure CQuorumBlockProcessor where
  specialDb : QuorumDB := {}
  minableCommitmentsByQuorum : AList (fun _ : UInt8 × uint256 => uint256) := ∅
  minableCommitments : AList (fun _ : uint256 => CFinalCommitment) := ∅
  hasMinedCommitmentCache : AList (fun _ : UInt8 × uint256 => Bool) := ∅
  deriving DecidableEq

namespace CQuorumBlockProcessor

/-! ## The mining rule -/

/-- `IsMiningPhase`. -/
def isMiningPhase (params : LLMQParams) (nHeight : Nat) : Bool :=
  let phaseIndex := nHeight % params.dkgInterval
  decide (params.dkgMiningWindowStart ≤ phaseIndex ∧ phaseIndex ≤ params.dkgMiningWindowEnd)

/-- `GetQuorumBlockHash`: the hash of the session's first block, null while the chain does not
have it, which is when the block at `nHeight` is that first block. Its callers hold the
parameters that its `llmqs.at` looks up. -/
def getQuorumBlockHash (chain : ActiveChain) (params : LLMQParams) (nHeight : Nat) : uint256 :=
  let quorumStartHeight := nHeight - nHeight % params.dkgInterval
  (getBlockHash chain quorumStartHeight).getD 0

/-- `HasMinedCommitment`: the cached answer, or else the store's, which is then cached. -/
def hasMinedCommitment (p : CQuorumBlockProcessor) (llmqType : UInt8) (quorumHash : uint256) :
    Bool × CQuorumBlockProcessor :=
  let cacheKey := (llmqType, quorumHash)
  match p.hasMinedCommitmentCache.lookup cacheKey with
  | some ret => (ret, p)
  | none =>
    let ret := (p.specialDb.minedCommitments.lookup cacheKey).isSome
    -- `emplace` into a cache without the key
    (ret, { p with hasMinedCommitmentCache := p.hasMinedCommitmentCache.insert cacheKey ret })

/-- `IsCommitmentRequired`: the block at `nHeight` is in the session's mining window, and no
non-null commitment of the session has been mined. -/
def isCommitmentRequired (chain : ActiveChain) (p : CQuorumBlockProcessor) (params : LLMQParams)
    (nHeight : Nat) : Bool × CQuorumBlockProcessor :=
  let quorumHash := getQuorumBlockHash chain params nHeight
  let isMiningPhase := !quorumHash.isNull && isMiningPhase params nHeight
  -- `&&` asks the store only for a session whose first block is known
  let (hasMinedCommitment, p) :=
    if quorumHash.isNull then (false, p) else p.hasMinedCommitment params.type quorumHash
  (isMiningPhase && !hasMinedCommitment, p)

/-! ## Blocks -/

/-- One transaction of `GetCommitmentsFromBlock`: a quorum commitment transaction must carry a
payload, and at most one commitment of each type is kept, in the key order of the `std::map`. -/
def addCommitmentOfTx (ret : List CFinalCommitment) (tx : CTransaction) :
    Except BuildError (List CFinalCommitment) :=
  if tx.nType = TRANSACTION_QUORUM_COMMITMENT then
    match tx.getQcTx with
    | none => .error (.invalid "bad-tx-payload")
    | some qc =>
      if ret.any (·.llmqType == qc.commitment.llmqType) then .error (.invalid "bad-qc-dup")
      else .ok (ret.orderedInsert (fun a b => a.llmqType ≤ b.llmqType) qc.commitment)
  else .ok ret

/-- `GetCommitmentsFromBlock`: the commitments of a block by type; none below the activation
height. -/
def getCommitmentsFromBlock (c : LLMQConsensus) (block : CBlock) (nHeight : Nat) :
    Except BuildError (List CFinalCommitment) := do
  let ret ← block.vtx.foldlM addCommitmentOfTx []
  if nHeight < c.nLLMQActivationHeight ∧ ret ≠ [] then .error (.invalid "bad-qc-premature")
  else .ok ret

variable (env : QuorumEnv) (chain : ActiveChain)

/-- `ProcessCommitment` of a commitment of the block at `nHeight`: it belongs to the session of
the block, a null one passes `VerifyNull`, and a non-null one is the session's first, mined in the
window and valid; the processor then stores it with the block's hash and drops its cache entry. -/
def processCommitment (p : CQuorumBlockProcessor) (nHeight : Nat) (blockHash : uint256)
    (qc : CFinalCommitment) : Except BuildError Unit × CQuorumBlockProcessor :=
  match env.consensus.llmqsAt qc.llmqType with
  | none => (.error .abort, p)
  | some params =>
    let quorumHash := getQuorumBlockHash chain params nHeight
    if quorumHash.isNull then (.error (.invalid "bad-qc-block"), p)
    else if quorumHash ≠ qc.quorumHash then (.error (.invalid "bad-qc-block"), p)
    else if qc.isNull then
      if !qc.verifyNull env.consensus then (.error (.invalid "bad-qc-invalid-null"), p)
      else (.ok (), p)
    else
      let (hasMined, p) := p.hasMinedCommitment params.type quorumHash
      if hasMined then (.error (.invalid "bad-qc-dup"), p)
      else if !isMiningPhase params nHeight then (.error (.invalid "bad-qc-height"), p)
      else if !env.Verify qc then (.error (.invalid "bad-qc-invalid"), p)
      else
        -- `quorumIndex` is the session's first block
        let quorumHeight := nHeight - nHeight % params.dkgInterval
        (.ok (), { p with
          specialDb := { p.specialDb with
            minedCommitments :=
              p.specialDb.minedCommitments.insert (params.type, quorumHash) (qc, blockHash),
            minedByHeight := p.specialDb.minedByHeight.insert (params.type, nHeight) quorumHeight }
          hasMinedCommitmentCache := p.hasMinedCommitmentCache.erase (params.type, quorumHash) })

/-- The loop of `ProcessBlock` over the configured types: the block carries a commitment of a
type exactly when one is required. -/
def checkCommitmentsRequired (qcs : List CFinalCommitment) (nHeight : Nat) :
    CQuorumBlockProcessor → List LLMQParams → Except BuildError Unit × CQuorumBlockProcessor
  | p, [] => (.ok (), p)
  | p, params :: llmqs =>
    let hasCommitmentInNewBlock := qcs.any (·.llmqType == params.type)
    let (isCommitmentRequired, p) := isCommitmentRequired chain p params nHeight
    if hasCommitmentInNewBlock && !isCommitmentRequired then
      (.error (.invalid "bad-qc-not-allowed"), p)
    else if !hasCommitmentInNewBlock && isCommitmentRequired then
      (.error (.invalid "bad-qc-missing"), p)
    else checkCommitmentsRequired qcs nHeight p llmqs

/-- The loop of `ProcessBlock` over the block's commitments, in type order. -/
def processCommitments (nHeight : Nat) (blockHash : uint256) :
    CQuorumBlockProcessor → List CFinalCommitment → Except BuildError Unit × CQuorumBlockProcessor
  | p, [] => (.ok (), p)
  | p, qc :: qcs =>
    match processCommitment env chain p nHeight blockHash qc with
    | (.ok (), p) => processCommitments nHeight blockHash p qcs
    | (.error e, p) => (.error e, p)

/-- `ProcessBlock` of the block `blockHash`, `block` at the height `chain.length`, on top of the
active chain `chain`. Below the activation height it only records the block. -/
def processBlock (p : CQuorumBlockProcessor) (blockHash : uint256) (block : CBlock) :
    Except BuildError Unit × CQuorumBlockProcessor :=
  let nHeight := chain.length
  let recordBest (p : CQuorumBlockProcessor) : CQuorumBlockProcessor :=
    { p with specialDb := { p.specialDb with bestBlockUpgrade := blockHash } }
  if nHeight < env.consensus.nLLMQActivationHeight then (.ok (), recordBest p)
  else match getCommitmentsFromBlock env.consensus block nHeight with
    | .error e => (.error e, p)
    | .ok qcs =>
      match checkCommitmentsRequired chain qcs nHeight p env.consensus.llmqs with
      | (.error e, p) => (.error e, p)
      | (.ok (), p) =>
        match processCommitments env chain nHeight blockHash p qcs with
        | (.error e, p) => (.error e, p)
        | (.ok (), p) => (.ok (), recordBest p)

/-! ## The commitments a miner may include -/

/-- `AddMinableCommitment`, and whether the commitment is relayed. A commitment with more signers
than the known one of its quorum replaces it in `minableCommitmentsByQuorum`; the source then
erases from `minableCommitments` by the entry it has just overwritten, which holds the new hash,
so the old commitment stays. `none` where `minableCommitments.at` throws. -/
def addMinableCommitment (p : CQuorumBlockProcessor) (fqc : CFinalCommitment) :
    Option (CQuorumBlockProcessor × Bool) :=
  let commitmentHash := env.SerializeHash fqc
  let k := (fqc.llmqType, fqc.quorumHash)
  -- `emplace` into `minableCommitments` keeps an entry already there
  let emplaceMinable (m : AList (fun _ : uint256 => CFinalCommitment)) :=
    if commitmentHash ∈ m then m else m.insert commitmentHash fqc
  match p.minableCommitmentsByQuorum.lookup k with
  | none =>
    some ({ p with
      minableCommitmentsByQuorum := p.minableCommitmentsByQuorum.insert k commitmentHash,
      minableCommitments := emplaceMinable p.minableCommitments }, true)
  | some oldHash =>
    match p.minableCommitments.lookup oldHash with
    | none => none
    | some oldFqc =>
      if fqc.countSigners > oldFqc.countSigners then
        -- `ins.first->second = commitmentHash`, then `erase(ins.first->second)`
        some ({ p with
          minableCommitmentsByQuorum := p.minableCommitmentsByQuorum.insert k commitmentHash,
          minableCommitments := emplaceMinable (p.minableCommitments.erase commitmentHash) }, true)
      else some (p, false)

/-- The loop of `UndoBlock` over the block's commitments: each non-null one leaves the store and
the cache, and may be mined again. -/
def undoCommitments (nHeight : Nat) :
    CQuorumBlockProcessor → List CFinalCommitment → Option CQuorumBlockProcessor
  | p, [] => some p
  | p, qc :: qcs =>
    if qc.isNull then undoCommitments nHeight p qcs
    else
      let p := { p with
        specialDb := { p.specialDb with
          minedCommitments := p.specialDb.minedCommitments.erase (qc.llmqType, qc.quorumHash),
          minedByHeight := p.specialDb.minedByHeight.erase (qc.llmqType, nHeight) }
        hasMinedCommitmentCache := p.hasMinedCommitmentCache.erase (qc.llmqType, qc.quorumHash) }
      match addMinableCommitment env p qc with
      | none => none
      | some (p, _) => undoCommitments nHeight p qcs

/-- `UndoBlock` of the block `block` at `nHeight`, whose parent is `prevHash`: `false`, and no
change, when `GetCommitmentsFromBlock` fails. -/
def undoBlock (p : CQuorumBlockProcessor) (block : CBlock) (nHeight : Nat) (prevHash : uint256) :
    Except BuildError CQuorumBlockProcessor :=
  match getCommitmentsFromBlock env.consensus block nHeight with
  | .error e => .error e
  | .ok qcs =>
    match undoCommitments env nHeight p qcs with
    | none => .error .abort
    | some p => .ok { p with specialDb := { p.specialDb with bestBlockUpgrade := prevHash } }

/-- `GetMinableCommitment` for the block at `nHeight`: nothing when no commitment is required,
the best known commitment of the session, or else its null commitment. -/
def getMinableCommitment (p : CQuorumBlockProcessor) (params : LLMQParams) (nHeight : Nat) :
    Option (Option CFinalCommitment × CQuorumBlockProcessor) :=
  let (isCommitmentRequired, p) := isCommitmentRequired chain p params nHeight
  if !isCommitmentRequired then some (none, p) else
  let quorumHash := getQuorumBlockHash chain params nHeight
  if quorumHash.isNull then some (none, p) else
  match p.minableCommitmentsByQuorum.lookup (params.type, quorumHash) with
  | none => some (some (CFinalCommitment.ofParams params quorumHash), p)
  | some h =>
    match p.minableCommitments.lookup h with
    | none => none
    | some qc => some (some qc, p)

/-- How `ProcessMessage` handles a `QFCOMMITMENT`: the score the peer is punished with, and whether
the commitment reached `AddMinableCommitment`. -/
inductive QfcommitmentResult
  | misbehaving (score : Nat)
  | ignored
  | added (relay : Bool)
  deriving DecidableEq, Repr

/-- `ProcessMessage` of a `QFCOMMITMENT`. The check for a better known commitment drops the
received one when the known one has at most as many signers. `none` where an `at` throws. -/
def processMessage (p : CQuorumBlockProcessor) (qc : CFinalCommitment) :
    Option (QfcommitmentResult × CQuorumBlockProcessor) :=
  if qc.isNull then some (.misbehaving 100, p) else
  match env.consensus.llmqsAt qc.llmqType with
  | none => some (.misbehaving 100, p)
  | some params =>
    match env.blockIndexHeight qc.quorumHash with
    | none => some (.ignored, p)
    | some quorumHeight =>
      if getBlockHash chain quorumHeight ≠ some qc.quorumHash then some (.ignored, p)
      else if quorumHeight - quorumHeight % params.dkgInterval ≠ quorumHeight then
        some (.misbehaving 100, p)
      else
        let betterKnown :=
          match p.minableCommitmentsByQuorum.lookup (params.type, qc.quorumHash) with
          | none => false
          | some h =>
            match p.minableCommitments.lookup h with
            | none => false
            | some known => decide (known.countSigners ≤ qc.countSigners)
        if betterKnown then some (.ignored, p)
        else if !env.Verify qc then some (.misbehaving 100, p)
        else (addMinableCommitment env p qc).map fun (p, relay) => (.added relay, p)

/-! ## The cache -/

/-- Every answer the cache holds is the answer of the store `db`. -/
def CacheSound (p : CQuorumBlockProcessor) (db : QuorumDB) : Prop :=
  ∀ k b, p.hasMinedCommitmentCache.lookup k = some b → b = (db.minedCommitments.lookup k).isSome

/-- `p'` has the stores of `p`: it differs from `p` in the cache at most. -/
structure SameStores (p p' : CQuorumBlockProcessor) : Prop where
  specialDb : p'.specialDb = p.specialDb
  byQuorum : p'.minableCommitmentsByQuorum = p.minableCommitmentsByQuorum
  minable : p'.minableCommitments = p.minableCommitments

theorem SameStores.refl (p : CQuorumBlockProcessor) : SameStores p p := ⟨rfl, rfl, rfl⟩

theorem SameStores.trans {p₁ p₂ p₃ : CQuorumBlockProcessor} (h₁ : SameStores p₁ p₂)
    (h₂ : SameStores p₂ p₃) : SameStores p₁ p₃ :=
  ⟨h₂.specialDb.trans h₁.specialDb, h₂.byQuorum.trans h₁.byQuorum, h₂.minable.trans h₁.minable⟩

variable {p p' : CQuorumBlockProcessor} {db : QuorumDB} {llmqType : UInt8} {quorumHash : uint256}

/-- A sound cache answers as the store does. -/
theorem hasMinedCommitment_fst (hc : CacheSound p p.specialDb) :
    (p.hasMinedCommitment llmqType quorumHash).1 =
      (p.specialDb.minedCommitments.lookup (llmqType, quorumHash)).isSome := by
  unfold hasMinedCommitment
  dsimp only
  split
  · next b hb => exact hc _ _ hb
  · rfl

theorem hasMinedCommitment_sameStores :
    SameStores p (p.hasMinedCommitment llmqType quorumHash).2 := by
  unfold hasMinedCommitment
  dsimp only
  split <;> exact ⟨rfl, rfl, rfl⟩

/-- The answer `HasMinedCommitment` caches is the store's, so the cache stays sound for any store
that agrees with it on the key. -/
theorem CacheSound.hasMinedCommitment (hc : CacheSound p db)
    (hk : (p.specialDb.minedCommitments.lookup (llmqType, quorumHash)).isSome =
      (db.minedCommitments.lookup (llmqType, quorumHash)).isSome) :
    CacheSound (p.hasMinedCommitment llmqType quorumHash).2 db := by
  unfold CQuorumBlockProcessor.hasMinedCommitment
  dsimp only
  split
  · exact hc
  · intro k b hb
    by_cases hkey : k = (llmqType, quorumHash)
    · subst hkey
      rw [AList.lookup_insert, Option.some.injEq] at hb
      rw [← hb, hk]
    · rw [AList.lookup_insert_ne hkey] at hb
      exact hc k b hb

/-- `IsCommitmentRequired` asks the cache only for a session whose first block is known. -/
theorem isCommitmentRequired_eq (chain : ActiveChain) (params : LLMQParams) (nHeight : Nat) :
    isCommitmentRequired chain p params nHeight =
      if (getQuorumBlockHash chain params nHeight).isNull then (false, p)
      else (isMiningPhase params nHeight &&
        !(p.hasMinedCommitment params.type (getQuorumBlockHash chain params nHeight)).1,
        (p.hasMinedCommitment params.type (getQuorumBlockHash chain params nHeight)).2) := by
  unfold isCommitmentRequired
  by_cases hnull : (getQuorumBlockHash chain params nHeight).isNull = true
  · simp [hnull]
  · simp [hnull]

/-- `IsCommitmentRequired` against a sound cache: the session's first block is known, the block
is in the mining window, and the store has no commitment of the session. -/
theorem isCommitmentRequired_fst (chain : ActiveChain) (params : LLMQParams) (nHeight : Nat)
    (hc : CacheSound p p.specialDb) :
    (isCommitmentRequired chain p params nHeight).1 =
      (!(getQuorumBlockHash chain params nHeight).isNull && isMiningPhase params nHeight &&
        !(p.specialDb.minedCommitments.lookup
          (params.type, getQuorumBlockHash chain params nHeight)).isSome) := by
  rw [isCommitmentRequired_eq]
  split
  · next hnull => simp [hnull]
  · next hnull => simp [hnull, hasMinedCommitment_fst hc]

theorem isCommitmentRequired_sameStores (chain : ActiveChain) (params : LLMQParams)
    (nHeight : Nat) : SameStores p (isCommitmentRequired chain p params nHeight).2 := by
  rw [isCommitmentRequired_eq]
  split
  · exact SameStores.refl _
  · exact hasMinedCommitment_sameStores

theorem CacheSound.isCommitmentRequired (chain : ActiveChain) (params : LLMQParams)
    (nHeight : Nat) (hc : CacheSound p db)
    (hk : ∀ qh, (p.specialDb.minedCommitments.lookup (params.type, qh)).isSome =
      (db.minedCommitments.lookup (params.type, qh)).isSome) :
    CacheSound (isCommitmentRequired chain p params nHeight).2 db := by
  rw [isCommitmentRequired_eq]
  split
  · exact hc
  · exact hc.hasMinedCommitment (hk _)

/-! ## The commitments of a block -/

/-- The commitment a quorum commitment transaction carries. -/
def commitmentOfTx (tx : CTransaction) : Option CFinalCommitment :=
  if tx.nType = TRANSACTION_QUORUM_COMMITMENT then tx.getQcTx.map (·.commitment) else none

/-- Commitments of distinct types. -/
def DistinctTypes (qcs : List CFinalCommitment) : Prop :=
  qcs.Pairwise fun a b => a.llmqType ≠ b.llmqType

theorem DistinctTypes.perm {qcs qcs' : List CFinalCommitment} (h : DistinctTypes qcs)
    (hp : qcs'.Perm qcs) : DistinctTypes qcs' :=
  (hp.pairwise_iff fun hab => Ne.symm hab).2 h

/-- Two commitments of a list of distinct types are one when their types are. -/
theorem DistinctTypes.eq_of_llmqType_eq {qcs : List CFinalCommitment} (hd : DistinctTypes qcs)
    {a b : CFinalCommitment} (ha : a ∈ qcs) (hb : b ∈ qcs) (h : a.llmqType = b.llmqType) :
    a = b :=
  List.inj_on_of_nodup_map (List.pairwise_map.2 hd) ha hb h

/-- A list of distinct types has one commitment of a type it has, and none of another. -/
theorem DistinctTypes.length_filter {qcs : List CFinalCommitment} (hd : DistinctTypes qcs)
    (t : UInt8) :
    (qcs.filter (·.llmqType == t)).length = if qcs.any (·.llmqType == t) then 1 else 0 := by
  have hf : DistinctTypes (qcs.filter (·.llmqType == t)) := List.Pairwise.sublist List.filter_sublist hd
  have ht : ∀ qc ∈ qcs.filter (·.llmqType == t), qc.llmqType = t := fun qc h => by
    simpa using (List.mem_filter.1 h).2
  have hany : qcs.any (·.llmqType == t) = !(qcs.filter (·.llmqType == t)).isEmpty := by
    rw [Bool.eq_iff_iff]
    simp [List.filter_eq_nil_iff]
  rw [hany]
  generalize qcs.filter (·.llmqType == t) = f at hf ht
  match f, hf, ht with
  | [], _, _ => rfl
  | [_], _, _ => rfl
  | a :: b :: _, hf, ht =>
    -- two commitments of the type would be of distinct types
    exact absurd ((ht a (by simp)).trans (ht b (by simp)).symm)
      (List.rel_of_pairwise_cons hf (by simp))

/-- One transaction of `GetCommitmentsFromBlock` adds the commitment it carries, of a type not
yet seen. -/
theorem addCommitmentOfTx_ok {ret r : List CFinalCommitment} {tx : CTransaction}
    (hd : DistinctTypes ret) (h : addCommitmentOfTx ret tx = .ok r) :
    r.Perm (ret ++ (commitmentOfTx tx).toList) ∧ DistinctTypes r := by
  unfold addCommitmentOfTx at h
  unfold commitmentOfTx
  split at h
  · next htype =>
    rw [if_pos htype]
    split at h
    · cases h
    · next qc hqc =>
      split at h
      · cases h
      · next hany =>
        cases h
        rw [hqc]
        -- the new commitment's type is not among the kept ones
        have hnew : ∀ b ∈ ret, qc.commitment.llmqType ≠ b.llmqType := by
          intro b hb hab
          exact hany (List.any_eq_true.2 ⟨b, hb, by simp [hab]⟩)
        have hperm := (List.perm_orderedInsert (fun a b : CFinalCommitment =>
          a.llmqType ≤ b.llmqType) qc.commitment ret).trans
          (List.perm_append_singleton qc.commitment ret).symm
        exact ⟨hperm, DistinctTypes.perm (List.pairwise_cons.2 ⟨hnew, hd⟩)
          (List.perm_orderedInsert _ _ _)⟩
  · next htype =>
    cases h
    rw [if_neg htype]
    exact ⟨by simp, hd⟩

theorem foldlM_addCommitmentOfTx :
    ∀ {vtx : List CTransaction} {ret r : List CFinalCommitment}, DistinctTypes ret →
      vtx.foldlM addCommitmentOfTx ret = .ok r →
      r.Perm (ret ++ vtx.filterMap commitmentOfTx) ∧ DistinctTypes r
  | [], ret, r, hd, h => by
    cases h
    exact ⟨by simp, hd⟩
  | tx :: vtx, ret, r, hd, h => by
    obtain ⟨ret', h₁, hrest⟩ := Fallible.foldlM_except_cons_eq_ok h
    obtain ⟨hp₁, hd₁⟩ := addCommitmentOfTx_ok hd h₁
    obtain ⟨hp, hd'⟩ := foldlM_addCommitmentOfTx hd₁ hrest
    refine ⟨hp.trans ?_, hd'⟩
    rw [List.filterMap_cons]
    cases hc : commitmentOfTx tx with
    | none =>
      rw [hc, Option.toList_none, List.append_nil] at hp₁
      exact hp₁.append_right _
    | some qc =>
      rw [hc, Option.toList_some] at hp₁
      exact (hp₁.append_right _).trans (by simp)

end CQuorumBlockProcessor

/-- The commitments a block carries: those of its quorum commitment transactions, in block
order. -/
def CBlock.commitments (block : CBlock) : List CFinalCommitment :=
  block.vtx.filterMap CQuorumBlockProcessor.commitmentOfTx

namespace CQuorumBlockProcessor

/-- `GetCommitmentsFromBlock` keeps every commitment of the block, of distinct types, and finds
none below the activation height. -/
theorem getCommitmentsFromBlock_ok {c : LLMQConsensus} {block : CBlock} {nHeight : Nat}
    {qcs : List CFinalCommitment} (h : getCommitmentsFromBlock c block nHeight = .ok qcs) :
    qcs.Perm block.commitments ∧ DistinctTypes qcs ∧
      (nHeight < c.nLLMQActivationHeight → block.commitments = []) := by
  obtain ⟨ret, hfold, h⟩ := Fallible.except_bind_eq_ok h
  obtain ⟨hp, hd⟩ := foldlM_addCommitmentOfTx List.Pairwise.nil hfold
  rw [List.nil_append] at hp
  split at h
  · cases h
  · next hc =>
    cases h
    refine ⟨hp, hd, fun hlt => ?_⟩
    have hnil : qcs = [] := by
      by_contra hne
      exact hc ⟨hlt, hne⟩
    rw [hnil] at hp
    exact List.Perm.nil_eq hp |>.symm

/-- An entry dropped from the cache, and a store that changes only there, keep the cache sound. -/
theorem CacheSound.erase {db' : QuorumDB} {k₀ : UInt8 × uint256} (hc : CacheSound p db)
    (hcache : p'.hasMinedCommitmentCache = p.hasMinedCommitmentCache.erase k₀)
    (hdb : ∀ k, k ≠ k₀ → db'.minedCommitments.lookup k = db.minedCommitments.lookup k) :
    CacheSound p' db' := by
  intro k b hb
  rw [hcache] at hb
  by_cases hk : k = k₀
  · subst hk
    rw [AList.lookup_erase] at hb
    cases hb
  · rw [AList.lookup_erase_ne hk] at hb
    rw [hdb k hk]
    exact hc k b hb

/-! ## `ProcessCommitment` -/

section
variable {env : QuorumEnv} {chain : ActiveChain} {nHeight : Nat} {blockHash : uint256}
  {qc : CFinalCommitment}

/-- The processor after `ProcessCommitment` has stored the non-null commitment `qc` of a type with
parameters `params`, once `HasMinedCommitment` has left `p`. -/
def storeCommitment (p : CQuorumBlockProcessor) (params : LLMQParams) (nHeight : Nat)
    (blockHash : uint256) (qc : CFinalCommitment) : CQuorumBlockProcessor :=
  { p with
    specialDb := { p.specialDb with
      minedCommitments :=
        p.specialDb.minedCommitments.insert (qc.llmqType, qc.quorumHash) (qc, blockHash),
      minedByHeight := p.specialDb.minedByHeight.insert (qc.llmqType, nHeight)
        (nHeight - nHeight % params.dkgInterval) }
    hasMinedCommitmentCache := p.hasMinedCommitmentCache.erase (qc.llmqType, qc.quorumHash) }

/-- What `ProcessCommitment` can do: reject the commitment, leaving the processor as it was or
with one more cached answer; accept a null commitment of the block's session; or store a
non-null one, the first of its session, mined in the window and valid. -/
theorem processCommitment_cases {r : Except BuildError Unit}
    (h : processCommitment env chain p nHeight blockHash qc = (r, p')) :
    (r ≠ .ok () ∧ (p' = p ∨ p' = (p.hasMinedCommitment qc.llmqType qc.quorumHash).2)) ∨
    (r = .ok () ∧ ∃ params, env.consensus.llmqsAt qc.llmqType = some params ∧
      getQuorumBlockHash chain params nHeight = qc.quorumHash ∧ qc.quorumHash.isNull = false ∧
      ((qc.isNull = true ∧ qc.verifyNull env.consensus = true ∧ p' = p) ∨
       (qc.isNull = false ∧ (p.hasMinedCommitment qc.llmqType qc.quorumHash).1 = false ∧
         isMiningPhase params nHeight = true ∧ env.Verify qc = true ∧
         p' = storeCommitment (p.hasMinedCommitment qc.llmqType qc.quorumHash).2 params nHeight
           blockHash qc))) := by
  unfold processCommitment at h
  split at h
  · cases h
    exact .inl ⟨by simp, .inl rfl⟩
  · next params hparams =>
    have htype := (LLMQConsensus.llmqsAt_eq_some hparams).1
    dsimp only at h
    split at h
    · cases h
      exact .inl ⟨by simp, .inl rfl⟩
    · next hnn =>
      split at h
      · cases h
        exact .inl ⟨by simp, .inl rfl⟩
      · next hq =>
        have hq : getQuorumBlockHash chain params nHeight = qc.quorumHash := not_not.1 hq
        have hnn : qc.quorumHash.isNull = false := by simpa [hq] using hnn
        split at h
        · next hnull =>
          split at h
          · cases h
            exact .inl ⟨by simp, .inl rfl⟩
          · next hv =>
            cases h
            exact .inr ⟨rfl, params, hparams, hq, hnn, .inl ⟨hnull, by simpa using hv, rfl⟩⟩
        · next hnull =>
          rw [htype, hq] at h
          -- the rest reads the cache once
          generalize hm : p.hasMinedCommitment qc.llmqType qc.quorumHash = m at h
          obtain ⟨b, p₁⟩ := m
          dsimp only at h
          split at h
          · cases h
            exact .inl ⟨by simp, .inr rfl⟩
          split at h
          · cases h
            exact .inl ⟨by simp, .inr rfl⟩
          split at h
          · cases h
            exact .inl ⟨by simp, .inr rfl⟩
          · next hb hmine hv =>
            cases h
            exact .inr ⟨rfl, params, hparams, hq, hnn, .inr ⟨by simpa using hnull, by simpa using hb,
              by simpa using hmine, by simpa using hv, rfl⟩⟩

theorem storeCommitment_lookup (params : LLMQParams) (k : UInt8 × uint256) :
    (storeCommitment p params nHeight blockHash qc).specialDb.minedCommitments.lookup k =
      if k = (qc.llmqType, qc.quorumHash) then some (qc, blockHash)
      else p.specialDb.minedCommitments.lookup k := by
  unfold storeCommitment
  split
  · next hk => rw [hk, AList.lookup_insert]
  · next hk => exact AList.lookup_insert_ne hk

/-- Storing a commitment drops its cache entry, so the cache stays sound for the new store, and
for any store it was sound for that agrees off the commitment's key. -/
theorem CacheSound.storeCommitment (params : LLMQParams) (hc : CacheSound p db)
    {db' : QuorumDB} (hdb : ∀ k, k ≠ (qc.llmqType, qc.quorumHash) →
      db'.minedCommitments.lookup k = db.minedCommitments.lookup k) :
    CacheSound (p.storeCommitment params nHeight blockHash qc) db' :=
  hc.erase rfl hdb

/-- `ProcessCommitment` leaves the commitments a miner may include as they are. -/
theorem processCommitment_minable {r : Except BuildError Unit}
    (h : processCommitment env chain p nHeight blockHash qc = (r, p')) :
    p'.minableCommitmentsByQuorum = p.minableCommitmentsByQuorum ∧
      p'.minableCommitments = p.minableCommitments ∧
      p'.specialDb.bestBlockUpgrade = p.specialDb.bestBlockUpgrade := by
  have hm := @hasMinedCommitment_sameStores p qc.llmqType qc.quorumHash
  rcases processCommitment_cases h with ⟨-, rfl | rfl⟩ | ⟨-, params, -, -, -, ⟨-, -, rfl⟩ | ⟨-, -, -, -, rfl⟩⟩
  · exact ⟨rfl, rfl, rfl⟩
  · exact ⟨hm.byQuorum, hm.minable, by rw [hm.specialDb]⟩
  · exact ⟨rfl, rfl, rfl⟩
  · exact ⟨hm.byQuorum, hm.minable, by simp [storeCommitment, hm.specialDb]⟩

/-- `ProcessCommitment` changes the store at the commitment's type only. -/
theorem processCommitment_lookup_ne {r : Except BuildError Unit}
    (h : processCommitment env chain p nHeight blockHash qc = (r, p')) {k : UInt8 × uint256}
    (hk : k.1 ≠ qc.llmqType) :
    p'.specialDb.minedCommitments.lookup k = p.specialDb.minedCommitments.lookup k := by
  have hm := @hasMinedCommitment_sameStores p qc.llmqType qc.quorumHash
  rcases processCommitment_cases h with ⟨-, rfl | rfl⟩ | ⟨-, params, -, -, -, ⟨-, -, rfl⟩ | ⟨-, -, -, -, rfl⟩⟩
  · rfl
  · rw [hm.specialDb]
  · rfl
  · rw [storeCommitment_lookup, if_neg (fun he => hk (by rw [he])), hm.specialDb]

/-- `ProcessCommitment` keeps the cache sound for the store and for the store `d₀` it started
the block from, as long as the store has not changed at the commitment's type. -/
theorem processCommitment_sound {r : Except BuildError Unit} {d₀ : QuorumDB}
    (h : processCommitment env chain p nHeight blockHash qc = (r, p'))
    (hc : CacheSound p p.specialDb) (hc₀ : CacheSound p d₀)
    (hk : ∀ qh, p.specialDb.minedCommitments.lookup (qc.llmqType, qh) =
      d₀.minedCommitments.lookup (qc.llmqType, qh)) :
    CacheSound p' p'.specialDb ∧ CacheSound p' d₀ := by
  have hm := @hasMinedCommitment_sameStores p qc.llmqType qc.quorumHash
  -- the answer `HasMinedCommitment` caches is the same in both stores
  have hc₁ : CacheSound (p.hasMinedCommitment qc.llmqType qc.quorumHash).2 p.specialDb :=
    hc.hasMinedCommitment rfl
  have hc₁₀ : CacheSound (p.hasMinedCommitment qc.llmqType qc.quorumHash).2 d₀ :=
    hc₀.hasMinedCommitment (by rw [hk])
  rcases processCommitment_cases h with ⟨-, rfl | rfl⟩ | ⟨-, params, -, -, -, ⟨-, -, rfl⟩ | ⟨-, -, -, -, rfl⟩⟩
  · exact ⟨hc, hc₀⟩
  · exact ⟨hm.specialDb ▸ hc₁, hc₁₀⟩
  · exact ⟨hc, hc₀⟩
  · refine ⟨hc₁.storeCommitment params fun k hne => ?_, hc₁₀.storeCommitment params fun _ _ => rfl⟩
    rw [storeCommitment_lookup, if_neg hne, hm.specialDb]

/-- What a block's commitment passed: it belongs to the block's session, and a non-null one is
the first of its session in the store `d₀` and is mined in the window. -/
def CommitmentAccepted (env : QuorumEnv) (chain : ActiveChain) (nHeight : Nat) (d₀ : QuorumDB)
    (qc : CFinalCommitment) : Prop :=
  ∃ params, env.consensus.llmqsAt qc.llmqType = some params ∧
    getQuorumBlockHash chain params nHeight = qc.quorumHash ∧ qc.quorumHash.isNull = false ∧
    (qc.isNull = false → d₀.minedCommitments.lookup (qc.llmqType, qc.quorumHash) = none ∧
      isMiningPhase params nHeight = true)

/-- An accepted commitment, and the store after it: the store has the commitment, if non-null,
with the block's hash, and is otherwise as it was. -/
theorem processCommitment_ok {d₀ : QuorumDB}
    (h : processCommitment env chain p nHeight blockHash qc = (.ok (), p'))
    (hc : CacheSound p p.specialDb)
    (hk : ∀ qh, p.specialDb.minedCommitments.lookup (qc.llmqType, qh) =
      d₀.minedCommitments.lookup (qc.llmqType, qh)) :
    CommitmentAccepted env chain nHeight d₀ qc ∧
      ∀ k v, p'.specialDb.minedCommitments.lookup k = some v ↔
        p.specialDb.minedCommitments.lookup k = some v ∨
          (qc.isNull = false ∧ (qc.llmqType, qc.quorumHash) = k ∧ v = (qc, blockHash)) := by
  rcases processCommitment_cases h with ⟨hne, -⟩ | ⟨-, params, hparams, hq, hnn, hcase⟩
  · exact absurd rfl hne
  rcases hcase with ⟨hnull, -, rfl⟩ | ⟨hnull, hmined, hmine, -, rfl⟩
  · refine ⟨⟨params, hparams, hq, hnn, fun h => by simp [hnull] at h⟩, fun k v => ?_⟩
    simp [hnull]
  · -- the store had no commitment of the session
    have hnone : p.specialDb.minedCommitments.lookup (qc.llmqType, qc.quorumHash) = none := by
      rw [hasMinedCommitment_fst hc] at hmined
      simpa using hmined
    refine ⟨⟨params, hparams, hq, hnn, fun _ => ⟨by rw [← hk]; exact hnone, hmine⟩⟩, fun k v => ?_⟩
    have hdb := @hasMinedCommitment_sameStores p qc.llmqType qc.quorumHash
    rw [storeCommitment_lookup, hdb.specialDb]
    split
    · next hkey =>
      subst hkey
      rw [hnone]
      simp [hnull, eq_comm]
    · next hkey =>
      simp [Ne.symm hkey]

/-- The loop over a block's commitments, of distinct types: every commitment reads the store at
its own type, which the commitments before it left alone. So the cache stays sound for the store
and for the store `d₀` the loop started from, and when the loop succeeds every commitment was
accepted against `d₀` and the store has gained the non-null ones. -/
theorem processCommitments_spec {d₀ : QuorumDB} :
    ∀ {qcs : List CFinalCommitment} {p p' : CQuorumBlockProcessor} {r : Except BuildError Unit},
      processCommitments env chain nHeight blockHash p qcs = (r, p') → DistinctTypes qcs →
      CacheSound p p.specialDb → CacheSound p d₀ →
      (∀ qc ∈ qcs, ∀ qh, p.specialDb.minedCommitments.lookup (qc.llmqType, qh) =
        d₀.minedCommitments.lookup (qc.llmqType, qh)) →
      (CacheSound p' p'.specialDb ∧ CacheSound p' d₀) ∧
      (p'.minableCommitmentsByQuorum = p.minableCommitmentsByQuorum ∧
        p'.minableCommitments = p.minableCommitments ∧
        p'.specialDb.bestBlockUpgrade = p.specialDb.bestBlockUpgrade) ∧
      (r = .ok () → (∀ qc ∈ qcs, CommitmentAccepted env chain nHeight d₀ qc) ∧
        ∀ k v, p'.specialDb.minedCommitments.lookup k = some v ↔
          p.specialDb.minedCommitments.lookup k = some v ∨
            ∃ qc ∈ qcs, qc.isNull = false ∧ (qc.llmqType, qc.quorumHash) = k ∧ v = (qc, blockHash))
  | [], p, p', r, h, _, hc, hc₀, _ => by
    cases h
    exact ⟨⟨hc, hc₀⟩, ⟨rfl, rfl, rfl⟩, fun _ => ⟨fun _ h => (nomatch h), fun k v => by simp⟩⟩
  | qc :: qcs, p, p', r, h, hd, hc, hc₀, hk => by
    obtain ⟨hqc, hd'⟩ := List.pairwise_cons.1 hd
    rw [processCommitments] at h
    generalize hpc : processCommitment env chain p nHeight blockHash qc = x at h
    obtain ⟨r₁, p₁⟩ := x
    have hk₁ := hk qc List.mem_cons_self
    obtain ⟨hs₁, hs₁₀⟩ := processCommitment_sound hpc hc hc₀ hk₁
    obtain ⟨hq₁, hm₁, hb₁⟩ := processCommitment_minable hpc
    cases r₁ with
    | error e =>
      cases h
      exact ⟨⟨hs₁, hs₁₀⟩, ⟨hq₁, hm₁, hb₁⟩, fun h => nomatch h⟩
    | ok u =>
      cases u
      -- the later commitments are of other types, which this one left alone
      have hk' : ∀ qc' ∈ qcs, ∀ qh, p₁.specialDb.minedCommitments.lookup (qc'.llmqType, qh) =
          d₀.minedCommitments.lookup (qc'.llmqType, qh) := fun qc' hqc' qh =>
        (processCommitment_lookup_ne hpc (Ne.symm (hqc qc' hqc'))).trans
          (hk qc' (List.mem_cons_of_mem _ hqc') qh)
      obtain ⟨hs, ⟨hq, hm, hb⟩, hok⟩ := processCommitments_spec h hd' hs₁ hs₁₀ hk'
      refine ⟨hs, ⟨hq.trans hq₁, hm.trans hm₁, hb.trans hb₁⟩, fun hr => ?_⟩
      obtain ⟨hacc, hdb⟩ := hok hr
      obtain ⟨hacc₁, hdb₁⟩ := processCommitment_ok hpc hc hk₁
      refine ⟨fun qc' hqc' => ?_, fun k v => ?_⟩
      · rcases List.mem_cons.1 hqc' with rfl | hqc'
        · exact hacc₁
        · exact hacc qc' hqc'
      · rw [hdb, hdb₁]
        simp only [List.mem_cons, exists_eq_or_imp, or_assoc]

end

/-! ## `ProcessBlock` -/

section
variable {chain : ActiveChain} {nHeight : Nat}

/-- `IsCommitmentRequired` of a type, against a sound cache, in terms of the store `db`. -/
def RequiredIn (chain : ActiveChain) (db : QuorumDB) (params : LLMQParams) (nHeight : Nat) :
    Bool :=
  !(getQuorumBlockHash chain params nHeight).isNull && isMiningPhase params nHeight &&
    !(db.minedCommitments.lookup (params.type, getQuorumBlockHash chain params nHeight)).isSome

/-- The loop over the configured types asks only the cache and the store: it changes the cache
at most, keeps it sound, and succeeds when the block carries a commitment of exactly the
required types. -/
theorem checkCommitmentsRequired_spec {qcs : List CFinalCommitment} :
    ∀ {llmqs : List LLMQParams} {p p' : CQuorumBlockProcessor} {r : Except BuildError Unit},
      checkCommitmentsRequired chain qcs nHeight p llmqs = (r, p') →
      CacheSound p p.specialDb →
      SameStores p p' ∧ CacheSound p' p.specialDb ∧
      (r = .ok () → ∀ params ∈ llmqs,
        qcs.any (·.llmqType == params.type) = RequiredIn chain p.specialDb params nHeight)
  | [], p, p', r, h, hc => by
    cases h
    exact ⟨SameStores.refl p, hc, fun _ _ h => nomatch h⟩
  | params :: llmqs, p, p', r, h, hc => by
    rw [checkCommitmentsRequired] at h
    have hfst := isCommitmentRequired_fst chain params nHeight hc
    have hsame := @isCommitmentRequired_sameStores p chain params nHeight
    have hc₁ : CacheSound (isCommitmentRequired chain p params nHeight).2 p.specialDb :=
      hc.isCommitmentRequired chain params nHeight fun _ => rfl
    generalize isCommitmentRequired chain p params nHeight = x at h hfst hsame hc₁
    obtain ⟨req, p₁⟩ := x
    dsimp only at h hfst hsame hc₁
    split at h
    · cases h
      exact ⟨hsame, hc₁, fun h => nomatch h⟩
    split at h
    · cases h
      exact ⟨hsame, hc₁, fun h => nomatch h⟩
    · next hno hmiss =>
      obtain ⟨hsame', hc', hok⟩ := checkCommitmentsRequired_spec h (hsame.specialDb ▸ hc₁)
      refine ⟨hsame.trans hsame', hsame.specialDb ▸ hc', fun hr params' hp' => ?_⟩
      rcases List.mem_cons.1 hp' with rfl | hp'
      · -- the block has a commitment of the type exactly when one is required
        have hreq : qcs.any (·.llmqType == params'.type) = req := by
          generalize qcs.any (·.llmqType == params'.type) = has at hno hmiss ⊢
          cases has <;> cases req <;> simp at hno hmiss ⊢
        exact hreq.trans hfst
      · rw [hok hr params' hp', hsame.specialDb]

variable {env : QuorumEnv} {p p' : CQuorumBlockProcessor} {blockHash : uint256} {block : CBlock}
  {r : Except BuildError Unit}

/-- `ProcessBlock`, whatever its outcome, changes the store and the cache only, and keeps the
cache sound for the new store and for the store it started from, which is the store a rolled
back transaction returns to. -/
theorem processBlock_sound (h : processBlock env chain p blockHash block = (r, p'))
    (hc : CacheSound p p.specialDb) :
    CacheSound p' p'.specialDb ∧ CacheSound p' p.specialDb ∧
      p'.minableCommitmentsByQuorum = p.minableCommitmentsByQuorum ∧
      p'.minableCommitments = p.minableCommitments := by
  unfold processBlock at h
  dsimp only at h
  split at h
  · cases h
    exact ⟨hc, hc, rfl, rfl⟩
  split at h
  · cases h
    exact ⟨hc, hc, rfl, rfl⟩
  · next qcs hqcs =>
    generalize hchk : checkCommitmentsRequired chain qcs chain.length p env.consensus.llmqs = x
      at h
    obtain ⟨r₁, p₁⟩ := x
    obtain ⟨hsame, hc₁, -⟩ := checkCommitmentsRequired_spec hchk hc
    cases r₁ with
    | error e =>
      cases h
      exact ⟨hsame.specialDb ▸ hc₁, hc₁, hsame.byQuorum, hsame.minable⟩
    | ok u =>
      cases u
      dsimp only at h
      generalize hpcs : processCommitments env chain chain.length blockHash p₁ qcs = y at h
      obtain ⟨r₂, p₂⟩ := y
      obtain ⟨⟨hs, hs₀⟩, ⟨hq, hm, -⟩, -⟩ := processCommitments_spec hpcs
        (getCommitmentsFromBlock_ok hqcs).2.1 (hsame.specialDb ▸ hc₁) hc₁
        fun _ _ _ => by rw [hsame.specialDb]
      cases r₂ with
      | error e =>
        cases h
        exact ⟨hs, hs₀, hq.trans hsame.byQuorum, hm.trans hsame.minable⟩
      | ok u =>
        cases u
        cases h
        exact ⟨hs, hs₀, hq.trans hsame.byQuorum, hm.trans hsame.minable⟩

/-- A block `ProcessBlock` accepts. Below the activation height the store keeps its commitments.
At or above it, the block's commitments are of distinct types, it carries one of a configured
type exactly when one is required, every commitment was accepted against the store it started
from, and the store has gained the non-null ones with the block's hash. -/
theorem processBlock_ok (h : processBlock env chain p blockHash block = (.ok (), p'))
    (hc : CacheSound p p.specialDb) :
    (chain.length < env.consensus.nLLMQActivationHeight →
      p'.specialDb.minedCommitments = p.specialDb.minedCommitments) ∧
    (env.consensus.nLLMQActivationHeight ≤ chain.length →
      DistinctTypes block.commitments ∧
      (∀ params ∈ env.consensus.llmqs, block.commitments.any (·.llmqType == params.type) =
        RequiredIn chain p.specialDb params chain.length) ∧
      (∀ qc ∈ block.commitments, CommitmentAccepted env chain chain.length p.specialDb qc) ∧
      ∀ k v, p'.specialDb.minedCommitments.lookup k = some v ↔
        p.specialDb.minedCommitments.lookup k = some v ∨
          ∃ qc ∈ block.commitments, qc.isNull = false ∧ (qc.llmqType, qc.quorumHash) = k ∧
            v = (qc, blockHash)) := by
  unfold processBlock at h
  dsimp only at h
  split at h
  · next hlt =>
    cases h
    exact ⟨fun _ => rfl, fun hle => absurd hlt (not_lt.2 hle)⟩
  · next hle =>
    refine ⟨fun hlt => absurd hlt hle, fun _ => ?_⟩
    split at h
    · cases h
    · next qcs hqcs =>
      obtain ⟨hperm, hd, -⟩ := getCommitmentsFromBlock_ok hqcs
      generalize hchk : checkCommitmentsRequired chain qcs chain.length p env.consensus.llmqs = x
        at h
      obtain ⟨r₁, p₁⟩ := x
      obtain ⟨hsame, hc₁, hreq⟩ := checkCommitmentsRequired_spec hchk hc
      cases r₁ with
      | error e => cases h
      | ok u =>
        cases u
        dsimp only at h
        generalize hpcs : processCommitments env chain chain.length blockHash p₁ qcs = y at h
        obtain ⟨r₂, p₂⟩ := y
        obtain ⟨-, -, hok⟩ := processCommitments_spec hpcs hd (hsame.specialDb ▸ hc₁) hc₁
          fun _ _ _ => by rw [hsame.specialDb]
        cases r₂ with
        | error e => cases h
        | ok u =>
          cases u
          cases h
          obtain ⟨hacc, hdb⟩ := hok rfl
          -- the kept commitments are the block's, in another order
          refine ⟨hd.perm hperm.symm, fun params hp => ?_, fun qc hqc => hacc qc
            (hperm.mem_iff.2 hqc), fun k v => ?_⟩
          · rw [← hreq rfl params hp]
            exact List.Perm.any_eq hperm.symm
          · rw [hdb, hsame.specialDb]
            simp only [hperm.mem_iff]

end

/-! ## `UndoBlock` -/

section
variable {env : QuorumEnv} {p p' : CQuorumBlockProcessor} {nHeight : Nat}

/-- A processor with the cache of a processor whose cache is sound has a sound cache. -/
theorem CacheSound.of_cache_eq {db : QuorumDB} (hc : CacheSound p db)
    (h : p'.hasMinedCommitmentCache = p.hasMinedCommitmentCache) : CacheSound p' db := by
  intro k b hb
  rw [h] at hb
  exact hc k b hb

/-- `AddMinableCommitment` changes the commitments a miner may include only. -/
theorem addMinableCommitment_stores {fqc : CFinalCommitment} {relay : Bool}
    (h : addMinableCommitment env p fqc = some (p', relay)) :
    p'.specialDb = p.specialDb ∧ p'.hasMinedCommitmentCache = p.hasMinedCommitmentCache := by
  unfold addMinableCommitment at h
  dsimp only at h
  split at h
  · cases h
    exact ⟨rfl, rfl⟩
  split at h
  · cases h
  split at h
  · cases h
    exact ⟨rfl, rfl⟩
  · cases h
    exact ⟨rfl, rfl⟩

/-- The loop of `UndoBlock` drops the non-null commitments from the store and their answers from
the cache: the store is otherwise as it was, and the cache stays sound for it and for every store
it was sound for. -/
theorem undoCommitments_spec :
    ∀ {qcs : List CFinalCommitment} {p p' : CQuorumBlockProcessor},
      undoCommitments env nHeight p qcs = some p' →
      (∀ k, p'.specialDb.minedCommitments.lookup k =
        if ∃ qc ∈ qcs, qc.isNull = false ∧ (qc.llmqType, qc.quorumHash) = k then none
        else p.specialDb.minedCommitments.lookup k) ∧
      (CacheSound p p.specialDb → CacheSound p' p'.specialDb) ∧
      (∀ db, CacheSound p db → CacheSound p' db)
  | [], p, p', h => by
    cases h
    exact ⟨fun k => by simp, id, fun _ => id⟩
  | qc :: qcs, p, p', h => by
    rw [undoCommitments] at h
    split at h
    · next hnull =>
      obtain ⟨hdb, hc, hc₀⟩ := undoCommitments_spec h
      refine ⟨fun k => ?_, hc, hc₀⟩
      rw [hdb k]
      simp [hnull]
    · next hnull =>
      dsimp only at h
      split at h
      · cases h
      · next p₂ relay hadd =>
        obtain ⟨hdb₂, hcache₂⟩ := addMinableCommitment_stores hadd
        obtain ⟨hdb, hc, hc₀⟩ := undoCommitments_spec h
        refine ⟨fun k => ?_, fun hcp => hc ?_, fun db hcp => hc₀ db ?_⟩
        · -- the head leaves the store here, the rest in the loop
          rw [hdb k, hdb₂]
          by_cases hk : (qc.llmqType, qc.quorumHash) = k
          · subst hk
            simp [hnull]
          · rw [AList.lookup_erase_ne (Ne.symm hk)]
            simp [hk]
        · rw [hdb₂]
          exact (hcp.erase rfl fun k hk => AList.lookup_erase_ne hk).of_cache_eq hcache₂
        · exact (hcp.erase rfl fun _ _ => rfl).of_cache_eq hcache₂

/-- What `UndoBlock` does when it succeeds: at or above the activation height it drops the
block's non-null commitments from the store, and the store is otherwise as it was. The cache
stays sound for the new store and for every store it was sound for. -/
theorem undoBlock_ok {block : CBlock} {prevHash : uint256}
    (h : undoBlock env p block nHeight prevHash = .ok p') :
    (∀ k, p'.specialDb.minedCommitments.lookup k =
      if env.consensus.nLLMQActivationHeight ≤ nHeight ∧
        ∃ qc ∈ block.commitments, qc.isNull = false ∧ (qc.llmqType, qc.quorumHash) = k then none
      else p.specialDb.minedCommitments.lookup k) ∧
    (CacheSound p p.specialDb → CacheSound p' p'.specialDb) ∧
    (∀ db, CacheSound p db → CacheSound p' db) := by
  unfold undoBlock at h
  split at h
  · cases h
  · next qcs hqcs =>
    obtain ⟨hperm, -, hpre⟩ := getCommitmentsFromBlock_ok hqcs
    split at h
    · cases h
    · next p₁ hundo =>
      cases h
      obtain ⟨hdb, hc, hc₀⟩ := undoCommitments_spec hundo
      refine ⟨fun k => ?_, hc, hc₀⟩
      show p₁.specialDb.minedCommitments.lookup k = _
      rw [hdb k]
      -- below activation the block has no commitments to undo
      by_cases hle : env.consensus.nLLMQActivationHeight ≤ nHeight
      · simp only [hle, true_and, hperm.mem_iff]
      · have hnil : block.commitments = [] := hpre (Nat.lt_of_not_le hle)
        simp [hle, hperm.mem_iff, hnil]

end

/-! ## Messages and mining -/

section
variable {env : QuorumEnv} {chain : ActiveChain} {p p' : CQuorumBlockProcessor}

/-- `ProcessMessage` changes the commitments a miner may include only. -/
theorem processMessage_stores {qc : CFinalCommitment} {res : QfcommitmentResult}
    (h : processMessage env chain p qc = some (res, p')) :
    p'.specialDb = p.specialDb ∧ p'.hasMinedCommitmentCache = p.hasMinedCommitmentCache := by
  unfold processMessage at h
  dsimp only at h
  split at h
  · cases h
    exact ⟨rfl, rfl⟩
  split at h
  · cases h
    exact ⟨rfl, rfl⟩
  split at h
  · cases h
    exact ⟨rfl, rfl⟩
  split at h
  · cases h
    exact ⟨rfl, rfl⟩
  split at h
  · cases h
    exact ⟨rfl, rfl⟩
  -- a better known commitment, or a commitment that does not verify, is dropped
  split_ifs at h
  · cases h
    exact ⟨rfl, rfl⟩
  · cases h
    exact ⟨rfl, rfl⟩
  · obtain ⟨⟨p₁, relay⟩, hadd, hres⟩ := Option.map_eq_some_iff.1 h
    cases hres
    exact addMinableCommitment_stores hadd

/-- `GetMinableCommitment` changes the processor as `IsCommitmentRequired` does. -/
theorem getMinableCommitment_processor {params : LLMQParams} {nHeight : Nat}
    {qc : Option CFinalCommitment} (h : getMinableCommitment chain p params nHeight = some (qc, p')) :
    p' = (isCommitmentRequired chain p params nHeight).2 := by
  unfold getMinableCommitment at h
  generalize isCommitmentRequired chain p params nHeight = x at h ⊢
  obtain ⟨req, p₁⟩ := x
  dsimp only at h ⊢
  split at h
  · cases h
    rfl
  split at h
  · cases h
    rfl
  split at h
  · cases h
    rfl
  split at h
  · cases h
  · cases h
    rfl

end

end CQuorumBlockProcessor

/-! ## The node -/

/-- The active chain and the quorum block processor. -/
structure QuorumNode where
  chain : ActiveChain := []
  processor : CQuorumBlockProcessor := {}

/-- What the node asks of the quorum block processor. -/
inductive QuorumEvent
  /-- `ConnectTip` (`committed`) or `TestBlockValidity` connects a block on the tip; the
  transaction of `specialDb` is committed only when `committed` and the whole of `ConnectBlock`
  succeeds. -/
  | connect (blockHash : uint256) (block : CBlock) (committed : Bool)
  /-- `DisconnectTip`; `committed` when the rest of `DisconnectBlock` succeeds. -/
  | disconnect (committed : Bool)
  /-- A peer sends a `QFCOMMITMENT`. -/
  | receive (qc : CFinalCommitment)
  /-- The miner asks for the commitment of the given type for the next block. -/
  | mine (llmqType : UInt8)

namespace QuorumNode

open CQuorumBlockProcessor

variable (env : QuorumEnv)

/-- The processor after a transaction of `specialDb` that is not committed: the store as it was,
the memory as the processor left it. -/
def rollback (before after : CQuorumBlockProcessor) : CQuorumBlockProcessor :=
  { after with specialDb := before.specialDb }

/-- One event. A block is connected only on top of the tip, so its hash is not null and is not
the hash of a block of the active chain. The node stops (`none`) where the processor aborts. -/
def step (n : QuorumNode) : QuorumEvent → Option QuorumNode
  | .connect blockHash block committed =>
    if blockHash.isNull ∨ blockHash ∈ n.chain.map (·.1) then none else
    match processBlock env n.chain n.processor blockHash block with
    | (.error .abort, _) => none
    | (.error (.invalid _), p) => some { n with processor := rollback n.processor p }
    | (.ok (), p) =>
      if committed then some { chain := n.chain ++ [(blockHash, block)], processor := p }
      else some { n with processor := rollback n.processor p }
  | .disconnect committed =>
    match n.chain.getLast?, n.chain.dropLast.getLast? with
    | some (_, block), some (prevHash, _) =>
      match undoBlock env n.processor block (n.chain.length - 1) prevHash with
      | .error .abort => none
      | .error (.invalid _) => some n
      | .ok p =>
        if committed then some { chain := n.chain.dropLast, processor := p }
        else some { n with processor := rollback n.processor p }
    -- the genesis block has no parent to return to
    | _, _ => none
  | .receive qc =>
    (processMessage env n.chain n.processor qc).map fun (_, p) => { n with processor := p }
  | .mine llmqType =>
    match env.consensus.llmqsAt llmqType with
    | none => none
    | some params =>
      (getMinableCommitment n.chain n.processor params n.chain.length).map
        fun (_, p) => { n with processor := p }

/-- The states the node reaches from an empty chain and an empty processor. -/
def Reachable : QuorumNode → Prop := Machine.Reachable (step env) {}

end QuorumNode

end Emrals
