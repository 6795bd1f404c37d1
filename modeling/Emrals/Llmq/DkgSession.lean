import Emrals.Llmq.BlockProcessor

/-!
# The DKG session

`CDKGSession` (`src/llmq/quorums_dkgsession.cpp`) runs one distributed key generation of a quorum
for one member, or for an observer. This module models what it does with two of the messages the
members exchange, and how it builds the final commitments from them:

- a justification (`CDKGJustification`): a member answers the complaints about the secret key
  shares it sent, with the shares themselves (`PreVerifyMessage`, `ReceiveMessage`);
- a premature commitment (`CDKGPrematureCommitment`): a member commits to the set of valid members
  and to the quorum's public key, with its share of the quorum's signature (`PreVerifyMessage`,
  `ReceiveMessage`);
- `FinalizeCommitments`: the premature commitments are grouped by their set of valid members, and
  every group of at least `minSize` becomes a `CFinalCommitment`, signed by the members whose
  commitment agrees with the group's first one.

The session handler checks a message with `PreVerifyMessage`, verifies its signature, and passes
it to `ReceiveMessage` (`CDKGSession.step`). The BLS operations are parameters of the model
(`DKGEnv`). A member's `CBLSId` is its ProTx hash (`CBLSId::FromHash`).

`ReceiveMessage` reads `members` and `receivedVvecs` at indices it takes from the message; the
model returns `none` where such a read is out of bounds.
-/

namespace Emrals

/-- What the DKG session reads of `Consensus::LLMQParams`. -/
structure DKGParams extends LLMQParams where
  minSize : Nat
  threshold : Nat

/-- `CBLSSecretKey`: `none` is the invalid key. -/
abbrev CBLSSecretKey := Option (BitVec 256)

/-- `CBLSId`. -/
abbrev CBLSId := uint256

/-- `BLSVerificationVector`. -/
abbrev BLSVerificationVector := List CBLSPublicKey

/-- `CDKGJustification`. -/
structure CDKGJustification where
  llmqType : UInt8
  quorumHash : uint256
  proTxHash : uint256
  contributions : List (UInt32 × CBLSSecretKey)
  sig : CBLSSignature
  deriving DecidableEq

/-- `CDKGPrematureCommitment`. -/
structure CDKGPrematureCommitment where
  llmqType : UInt8
  quorumHash : uint256
  proTxHash : uint256
  validMembers : List Bool
  quorumPublicKey : CBLSPublicKey
  quorumVvecHash : uint256
  quorumSig : CBLSSignature
  sig : CBLSSignature
  deriving DecidableEq

/-- `CDKGPrematureCommitment::CountValidMembers`. -/
def CDKGPrematureCommitment.countValidMembers (qc : CDKGPrematureCommitment) : Nat :=
  qc.validMembers.count true

/-- `CDKGMember`: what the session reads and writes of a member. -/
structure CDKGMember where
  /-- `dmn->proTxHash`. -/
  proTxHash : uint256
  /-- `dmn->pdmnState->pubKeyOperator`. -/
  pubKeyOperator : CBLSPublicKey
  justifications : List uint256 := []
  prematureCommitments : List uint256 := []
  complaintsFromOthers : List uint256 := []
  bad : Bool := false
  weComplain : Bool := false
  deriving DecidableEq

/-- `CDKGMember::id`. -/
def CDKGMember.id (m : CDKGMember) : CBLSId := m.proTxHash

/-- What the session asks of the BLS library and of the node. -/
structure DKGEnv where
  params : DKGParams
  /-- `::SerializeHash` of a justification, the hash the handler passes to `ReceiveMessage`. -/
  hashJustification : CDKGJustification → uint256
  /-- `::SerializeHash` of a premature commitment. -/
  hashPrematureCommitment : CDKGPrematureCommitment → uint256
  /-- The handler's batched check of a justification's signature by its member. -/
  verifyJustificationSig : CDKGJustification → Bool
  /-- The handler's batched check of a premature commitment's signature by its member. -/
  verifyPrematureCommitmentSig : CDKGPrematureCommitment → Bool
  /-- `blsWorker.AsyncVerifyContributionShare(id, vvec, skContribution)`. -/
  verifyContributionShare : CBLSId → Option BLSVerificationVector → CBLSSecretKey → Bool
  /-- `GetVerifiedContributions` and `BuildQuorumVerificationVector` for a set of valid members:
  the vector's first key and its hash, when the node has every contribution of the set. -/
  quorumVvec : List Bool → Option (CBLSPublicKey × uint256)
  /-- `BuildPubKeyShare` of a member from the quorum's vector, and `quorumSig.VerifyInsecure`
  of its premature commitment against it. -/
  verifyQuorumSigShare : List Bool → CBLSId → CDKGPrematureCommitment → Bool
  /-- `CLLMQUtils::BuildCommitmentHash`. -/
  buildCommitmentHash : UInt8 → uint256 → List Bool → CBLSPublicKey → uint256 → uint256
  /-- `CBLSSignature::AggregateSecure`. -/
  aggregateSecure : List CBLSSignature → List CBLSPublicKey → uint256 → CBLSSignature
  /-- `CBLSSignature::Recover` of the quorum's signature from shares and their ids. -/
  recover : List CBLSSignature → List CBLSId → Option CBLSSignature

/-- `std::map<uint256, V>::emplace`: the map in key order, a present key keeps its value. -/
def hashMapEmplace {V : Type} (k : uint256) (v : V) (m : List (uint256 × V)) :
    List (uint256 × V) :=
  if m.any (·.1 == k) then m else m.orderedInsert (fun a b => ¬b.1 < a.1) (k, v)

/-- `CDKGSession`: the session's state that the modelled messages read and write. -/
structure CDKGSession where
  /-- `pindexQuorum->GetBlockHash()`. -/
  quorumHash : uint256
  members : List CDKGMember
  /-- Null for an observer. -/
  myProTxHash : uint256
  myId : CBLSId
  receivedVvecs : List (Option BLSVerificationVector)
  receivedSkContributions : List CBLSSecretKey
  justifications : List (uint256 × CDKGJustification) := []
  prematureCommitments : List (uint256 × CDKGPrematureCommitment) := []
  validCommitments : List uint256 := []
  deriving DecidableEq

namespace CDKGSession

/-- `Init` with the quorum's masternodes, their ProTx hashes and operator keys: `none` when they
are fewer than `minSize`. -/
def init (params : DKGParams) (quorumHash : uint256) (mns : List (uint256 × CBLSPublicKey))
    (myProTxHash : uint256) : Option CDKGSession :=
  if mns.length < params.minSize then none else
  let me := if !myProTxHash.isNull ∧ mns.any (·.1 == myProTxHash) then myProTxHash else 0
  some {
    quorumHash := quorumHash
    members := mns.map fun (proTxHash, pubKeyOperator) => { proTxHash, pubKeyOperator }
    myProTxHash := me
    myId := me
    receivedVvecs := List.replicate mns.length none
    receivedSkContributions := List.replicate mns.length none }

/-- `AreWeMember`. -/
def areWeMember (s : CDKGSession) : Bool := !s.myProTxHash.isNull

/-- `GetMember`, as the member's index: `membersMap` keeps a member's first index. -/
def getMember (s : CDKGSession) (proTxHash : uint256) : Option Nat :=
  s.members.findIdx? (·.proTxHash == proTxHash)

/-- `MarkBadMember`. -/
def markBadMember (s : CDKGSession) (idx : Nat) : CDKGSession :=
  { s with members := s.members.modify idx fun m => { m with bad := true } }

/-! ## Justifications -/

/-- The loop of `PreVerifyMessage` over a justification's contributions: every index is at most
the number of members, no index repeats, and every secret key share is valid. -/
def contributionsValid (n : Nat) : List Nat → List (UInt32 × CBLSSecretKey) → Bool
  | _, [] => true
  | seen, (i, skShare) :: ps =>
    if i.toNat > n then false
    else if i.toNat ∈ seen then false
    else if !skShare.isSome then false
    else contributionsValid n (i.toNat :: seen) ps

/-- `PreVerifyMessage` of a justification: whether it is accepted, and whether its sender is
banned. -/
def preVerifyJustification (s : CDKGSession) (qj : CDKGJustification) : Bool × Bool :=
  if qj.quorumHash ≠ s.quorumHash then (false, false) else
  match s.getMember qj.proTxHash with
  | none => (false, true)
  | some idx =>
    if qj.contributions.isEmpty then (false, true)
    else if !contributionsValid s.members.length [] qj.contributions then (false, true)
    -- at most two justifications of a member are processed
    else if 2 ≤ ((s.members[idx]?.map (·.justifications.length)).getD 0) then (false, false)
    else (true, false)

/-- The first loop of `ReceiveMessage` over a justification's contributions: a share for a
member that did not complain about the justifier marks the justifier bad. -/
def checkComplaints (idx : Nat) :
    CDKGSession → List (UInt32 × CBLSSecretKey) → Option CDKGSession
  | s, [] => some s
  | s, (i, _) :: ps => do
    let member2 ← s.members[i.toNat]?
    let member ← s.members[idx]?
    let s := if member.complaintsFromOthers.contains member2.proTxHash then s
      else s.markBadMember idx
    checkComplaints idx s ps

/-- The second loop of `ReceiveMessage`: every share is verified against the justifier's
verification vector; an invalid one marks the justifier bad, and a valid one answers the
complaint, and is kept when it is for this member. -/
def verifyContributions (env : DKGEnv) (idx : Nat) :
    CDKGSession → List (UInt32 × CBLSSecretKey) → Option CDKGSession
  | s, [] => some s
  | s, (i, skContribution) :: ps => do
    let member2 ← s.members[i.toNat]?
    let vvec ← s.receivedVvecs[idx]?
    if !env.verifyContributionShare member2.id vvec skContribution then
      verifyContributions env idx (s.markBadMember idx) ps
    else
      let s := if s.areWeMember && member2.id == s.myId then
          { s with
            receivedSkContributions := s.receivedSkContributions.set idx skContribution
            members := s.members.modify idx fun m => { m with weComplain := false } }
        else s
      let s := { s with members := s.members.modify idx fun m =>
        { m with complaintsFromOthers := m.complaintsFromOthers.erase member2.proTxHash } }
      verifyContributions env idx s ps

/-- `ReceiveMessage` of a justification with the hash `hash`, which `PreVerifyMessage` accepted.
`none` where it reads `members` or `receivedVvecs` out of bounds. -/
def receiveJustification (env : DKGEnv) (s : CDKGSession) (hash : uint256)
    (qj : CDKGJustification) : Option CDKGSession := do
  let idx ← s.getMember qj.proTxHash
  let member ← s.members[idx]?
  if 2 ≤ member.justifications.length then return s
  let member := { member with justifications := member.justifications.insert hash }
  let s := { s with
    justifications := hashMapEmplace hash qj s.justifications
    members := s.members.set idx member }
  if 1 < member.justifications.length then return s.markBadMember idx
  if member.bad then return s
  let s ← checkComplaints idx s qj.contributions
  if (s.members[idx]?.map (·.bad)).getD false then return s
  verifyContributions env idx s qj.contributions

/-! ## Premature commitments -/

/-- `PreVerifyMessage` of a premature commitment: whether it is accepted, and whether its sender
is banned. -/
def preVerifyPrematureCommitment (env : DKGEnv) (s : CDKGSession) (qc : CDKGPrematureCommitment) :
    Bool × Bool :=
  if qc.quorumHash ≠ s.quorumHash then (false, false) else
  match s.getMember qc.proTxHash with
  | none => (false, true)
  | some idx =>
    if qc.validMembers.length ≠ env.params.size then (false, true)
    else if qc.countValidMembers < env.params.minSize then (false, true)
    else if !qc.sig.isSome then (false, true)
    else if !qc.quorumSig.isSome then (false, true)
    -- no member beyond the quorum's members is valid
    else if (List.range' s.members.length (env.params.size - s.members.length)).any
        (qc.validMembers.getD · false) then (false, true)
    else if 2 ≤ ((s.members[idx]?.map (·.prematureCommitments.length)).getD 0) then
      (false, false)
    else (true, false)

/-- `ReceiveMessage` of a premature commitment with the hash `hash`, which `PreVerifyMessage`
accepted. It is kept, and it is valid when the node cannot build the quorum's verification
vector for its valid members, or when it agrees with that vector and its signature share
verifies. -/
def receivePrematureCommitment (env : DKGEnv) (s : CDKGSession) (hash : uint256)
    (qc : CDKGPrematureCommitment) : Option CDKGSession := do
  let idx ← s.getMember qc.proTxHash
  let member ← s.members[idx]?
  let s := { s with
    prematureCommitments := hashMapEmplace hash qc s.prematureCommitments
    members := s.members.set idx
      { member with prematureCommitments := member.prematureCommitments.insert hash } }
  let valid := match env.quorumVvec qc.validMembers with
    -- the node lacks a contribution: the commitment is relayed unverified
    | none => true
    | some (quorumPublicKey, vvecHash) =>
      quorumPublicKey == qc.quorumPublicKey && qc.quorumVvecHash == vvecHash &&
        env.verifyQuorumSigShare qc.validMembers member.id qc
  if valid then some { s with validCommitments := s.validCommitments.insert hash } else some s

/-! ## Final commitments -/

/-- `std::lexicographical_compare` of two `std::vector<bool>`, the key order of
`commitmentsMap`. -/
def lexLt : List Bool → List Bool → Bool
  | [], [] => false
  | [], _ :: _ => true
  | _ :: _, [] => false
  | a :: as, b :: bs => if a = b then lexLt as bs else !a && b

/-- `commitmentsMap[qc.validMembers].emplace_back(qc)`, the map in key order. -/
def addToGroup (qc : CDKGPrematureCommitment) :
    List (List Bool × List CDKGPrematureCommitment) →
      List (List Bool × List CDKGPrematureCommitment)
  | [] => [(qc.validMembers, [qc])]
  | (k, cvec) :: rest =>
    if k = qc.validMembers then (k, cvec ++ [qc]) :: rest
    else if lexLt qc.validMembers k then (qc.validMembers, [qc]) :: (k, cvec) :: rest
    else (k, cvec) :: addToGroup qc rest

/-- The final commitment of a group of at least `minSize` premature commitments with the same
valid members. The commitments that agree with the group's first one on the quorum's public key
and verification vector sign it; it is built when the quorum's signature is recovered from their
shares. -/
def finalizeGroup (env : DKGEnv) (s : CDKGSession) (cvec : List CDKGPrematureCommitment) :
    Option CFinalCommitment :=
  match cvec with
  | [] => none
  | first :: _ =>
    if cvec.length < env.params.minSize then none else
    let fqc : CFinalCommitment := { CFinalCommitment.ofParams env.params.toLLMQParams first.quorumHash with
      validMembers := first.validMembers
      quorumPublicKey := first.quorumPublicKey
      quorumVvecHash := first.quorumVvecHash }
    let commitmentHash := env.buildCommitmentHash fqc.llmqType fqc.quorumHash fqc.validMembers
      fqc.quorumPublicKey fqc.quorumVvecHash
    let signing := cvec.filter fun qc =>
      qc.quorumPublicKey == first.quorumPublicKey && qc.quorumVvecHash == first.quorumVvecHash
    -- `membersMap[qc.proTxHash]`: every premature commitment is of a member
    let signerIndexes := signing.map fun qc => (s.getMember qc.proTxHash).getD 0
    let signerMembers := signerIndexes.filterMap (s.members[·]?)
    let fqc := { fqc with signers := signerIndexes.foldl (fun sg i => sg.set i true) fqc.signers }
    let membersSig := env.aggregateSecure (signing.map (·.sig))
      (signerMembers.map (·.pubKeyOperator)) commitmentHash
    match env.recover (signing.map (·.quorumSig)) (signerMembers.map (·.id)) with
    | none => none
    | some quorumSig => some { fqc with membersSig := membersSig, quorumSig := quorumSig }

/-- `FinalizeCommitments`: the valid premature commitments, in the order of their hashes, grouped
by their valid members; `none` where the assertion that each has at least `minSize` valid members
fails. -/
def finalizeCommitments (env : DKGEnv) (s : CDKGSession) : Option (List CFinalCommitment) := do
  if !s.areWeMember then return []
  let commitmentsMap ← s.prematureCommitments.foldlM (fun m (hash, qc) =>
    if hash ∉ s.validCommitments then some m
    else if qc.countValidMembers < env.params.minSize then none
    else some (addToGroup qc m)) []
  return commitmentsMap.filterMap fun (_, cvec) => finalizeGroup env s cvec

/-! ## The session handler -/

/-- A message from a member. -/
inductive DKGMessage
  | justification (qj : CDKGJustification)
  | prematureCommitment (qc : CDKGPrematureCommitment)

/-- The handler passes a message that `PreVerifyMessage` accepts and whose signature verifies to
`ReceiveMessage`, and drops the others. -/
def step (env : DKGEnv) (s : CDKGSession) : DKGMessage → Option CDKGSession
  | .justification qj =>
    if (preVerifyJustification s qj).1 && env.verifyJustificationSig qj then
      receiveJustification env s (env.hashJustification qj) qj
    else some s
  | .prematureCommitment qc =>
    if (preVerifyPrematureCommitment env s qc).1 && env.verifyPrematureCommitmentSig qc then
      receivePrematureCommitment env s (env.hashPrematureCommitment qc) qc
    else some s

/-! ## Bounds of a justification's indices -/

section
variable {env : DKGEnv} {s : CDKGSession} {idx : Nat}

@[simp] theorem markBadMember_members_length :
    (s.markBadMember idx).members.length = s.members.length :=
  List.length_modify _ _ _

@[simp] theorem markBadMember_receivedVvecs : (s.markBadMember idx).receivedVvecs = s.receivedVvecs :=
  rfl

/-- `PreVerifyMessage` bounds every index of an accepted justification by the number of members,
and admits that number itself. -/
theorem contributionsValid_le {n : Nat} :
    ∀ {seen : List Nat} {ps : List (UInt32 × CBLSSecretKey)},
      contributionsValid n seen ps = true → ∀ p ∈ ps, p.1.toNat ≤ n
  | _, [], _ => fun _ h => nomatch h
  | seen, (i, skShare) :: ps, h => by
    unfold contributionsValid at h
    split at h
    · cases h
    split at h
    · cases h
    split at h
    · cases h
    · next hle _ _ =>
      intro p hp
      rcases List.mem_cons.1 hp with rfl | hp
      · exact Nat.le_of_not_lt hle
      · exact contributionsValid_le h p hp

theorem preVerifyJustification_index_le {qj : CDKGJustification}
    (h : (preVerifyJustification s qj).1 = true) :
    ∀ p ∈ qj.contributions, p.1.toNat ≤ s.members.length := by
  unfold preVerifyJustification at h
  split at h
  · cases h
  split at h
  · cases h
  split at h
  · cases h
  split at h
  · cases h
  · next hvalid =>
    exact contributionsValid_le (by simpa using hvalid)

/-- The first loop reads `members` only at the indices of the contributions and at the
justifier's index; with those in bounds it reads nothing out of bounds, and it keeps the number
of members and the verification vectors. -/
theorem checkComplaints_eq_some :
    ∀ {s : CDKGSession} {ps : List (UInt32 × CBLSSecretKey)},
      (∀ p ∈ ps, p.1.toNat < s.members.length) → idx < s.members.length →
      ∃ s', checkComplaints idx s ps = some s' ∧ s'.members.length = s.members.length ∧
        s'.receivedVvecs = s.receivedVvecs
  | s, [], _, _ => ⟨s, rfl, rfl, rfl⟩
  | s, (i, sk) :: ps, hps, hidx => by
    have hi : i.toNat < s.members.length := hps (i, sk) List.mem_cons_self
    -- the loop goes on from a state with as many members
    have hnext : ∀ s₁ : CDKGSession, s₁.members.length = s.members.length →
        s₁.receivedVvecs = s.receivedVvecs →
        ∃ s', checkComplaints idx s₁ ps = some s' ∧ s'.members.length = s.members.length ∧
          s'.receivedVvecs = s.receivedVvecs := by
      intro s₁ hlen hvv
      obtain ⟨s', h, hlen', hvv'⟩ := checkComplaints_eq_some (s := s₁)
        (fun p hp => hlen ▸ hps p (List.mem_cons_of_mem _ hp)) (hlen ▸ hidx)
      exact ⟨s', h, hlen'.trans hlen, hvv'.trans hvv⟩
    simp only [checkComplaints, List.getElem?_eq_getElem hi, List.getElem?_eq_getElem hidx,
      Option.bind_eq_bind, Option.bind_some]
    split
    · exact hnext s rfl rfl
    · exact hnext _ markBadMember_members_length rfl

/-- The second loop reads `members` at the indices of the contributions and `receivedVvecs` at
the justifier's index; with those in bounds it reads nothing out of bounds. -/
theorem verifyContributions_isSome :
    ∀ {s : CDKGSession} {ps : List (UInt32 × CBLSSecretKey)},
      (∀ p ∈ ps, p.1.toNat < s.members.length) → idx < s.receivedVvecs.length →
      (verifyContributions env idx s ps).isSome
  | s, [], _, _ => rfl
  | s, (i, sk) :: ps, hps, hidx => by
    have hi : i.toNat < s.members.length := hps (i, sk) List.mem_cons_self
    have hps' : ∀ p ∈ ps, p.1.toNat < s.members.length := fun p hp =>
      hps p (List.mem_cons_of_mem _ hp)
    simp only [verifyContributions, List.getElem?_eq_getElem hi, List.getElem?_eq_getElem hidx,
      Option.bind_eq_bind, Option.bind_some]
    split
    · exact verifyContributions_isSome (by simpa using hps') (by simpa using hidx)
    · split <;> exact verifyContributions_isSome (by simpa using hps') (by simpa using hidx)

/-- `ReceiveMessage` of a justification from a member reads nothing out of bounds when every
index it carries is below the number of members, and the session has a verification vector slot
for every member, as `Init` gives it. -/
theorem receiveJustification_isSome {qj : CDKGJustification} {hash : uint256}
    (hm : (s.getMember qj.proTxHash).isSome)
    (hps : ∀ p ∈ qj.contributions, p.1.toNat < s.members.length)
    (hvv : s.members.length ≤ s.receivedVvecs.length) :
    (receiveJustification env s hash qj).isSome := by
  obtain ⟨idx, hidx⟩ := Option.isSome_iff_exists.1 hm
  have hlt : idx < s.members.length := (List.findIdx?_eq_some_iff_getElem.1 hidx).1
  unfold receiveJustification
  simp only [hidx, List.getElem?_eq_getElem hlt, Option.bind_eq_bind, Option.bind_some]
  split
  · rfl
  split
  · rfl
  split
  · rfl
  -- the justifier's entry is replaced, so the number of members stays
  obtain ⟨s', hck, hlen, hvv'⟩ := @checkComplaints_eq_some idx
    ({ s with
      justifications := hashMapEmplace hash qj s.justifications
      members := s.members.set idx
        { s.members[idx] with justifications := s.members[idx].justifications.insert hash } })
    _ (by simpa using hps) (by simpa using hlt)
  simp only [hck, Option.bind_some]
  split
  · rfl
  · refine verifyContributions_isSome (fun p hp => ?_) ?_
    · rw [hlen]
      simpa using hps p hp
    · rw [hvv']
      exact lt_of_lt_of_le hlt hvv

end

end CDKGSession

namespace DkgFixture

open CDKGSession

/-- A quorum type of `size` members, of which `minSize` must be valid and `threshold` must sign. -/
def params (size minSize threshold : Nat) : DKGParams where
  type := 1
  size := size
  dkgInterval := 24
  dkgMiningWindowStart := 10
  dkgMiningWindowEnd := 18
  dkgInterval_pos := by decide
  minSize := minSize
  threshold := threshold

/-- Every signature verifies, a message's hash is its sender's ProTx hash, this node has none of
the contributions it would need to check a premature commitment, and the quorum's signature is
recovered from at least `threshold` shares. -/
def env (size minSize threshold : Nat) : DKGEnv where
  params := params size minSize threshold
  hashJustification qj := qj.proTxHash
  hashPrematureCommitment qc := qc.proTxHash
  verifyJustificationSig _ := true
  verifyPrematureCommitmentSig _ := true
  verifyContributionShare _ _ _ := true
  quorumVvec _ := none
  verifyQuorumSigShare _ _ _ := true
  buildCommitmentHash _ _ _ _ _ := 0
  aggregateSecure _ _ _ := some 0
  recover sigs _ := if threshold ≤ sigs.length then some (some 0) else none

/-- A session of one member, ProTx hash 1, seen by an observer. -/
def single : CDKGSession where
  quorumHash := 10
  members := [{ proTxHash := 1, pubKeyOperator := some 1 }]
  myProTxHash := 0
  myId := 0
  receivedVvecs := [none]
  receivedSkContributions := [none]

/-- The justification of member 1 for the member of index 1. -/
def justification : CDKGJustification where
  llmqType := 1
  quorumHash := 10
  proTxHash := 1
  contributions := [(1, some 5)]
  sig := some 1

/-- `PreVerifyMessage` accepts the index 1 in a session of one member, since `1 > 1` is false,
and `ReceiveMessage` then reads `members[1]`, past the end. -/
theorem justification_index_out_of_bounds :
    init (params 1 1 1) 10 [(1, some 1)] 0 = some single ∧
      preVerifyJustification single justification = (true, false) ∧
      step (env 1 1 1) single (.justification justification) = none :=
  ⟨rfl, rfl, rfl⟩

/-- A premature commitment of the member `proTxHash` that all three members are valid, with the
quorum's public key `quorumPublicKey`. -/
def prematureCommitment (proTxHash : uint256) (quorumPublicKey : BitVec 384) :
    CDKGPrematureCommitment where
  llmqType := 1
  quorumHash := 10
  proTxHash := proTxHash
  validMembers := [true, true, true]
  quorumPublicKey := some quorumPublicKey
  quorumVvecHash := 9
  quorumSig := some 1
  sig := some 1

/-- A session of three members, ProTx hashes 1, 2 and 3, run by member 3. -/
def triple : CDKGSession where
  quorumHash := 10
  members := [{ proTxHash := 1, pubKeyOperator := some 1 }, { proTxHash := 2, pubKeyOperator := some 2 },
    { proTxHash := 3, pubKeyOperator := some 3 }]
  myProTxHash := 3
  myId := 3
  receivedVvecs := [none, none, none]
  receivedSkContributions := [none, none, none]

/-- Member 1's commitment disagrees with those of members 2 and 3 on the quorum's key. -/
def disagreeingFirst : List DKGMessage :=
  [.prematureCommitment (prematureCommitment 1 7), .prematureCommitment (prematureCommitment 2 5),
    .prematureCommitment (prematureCommitment 3 5)]

/-- Member 3's commitment disagrees with those of members 1 and 2. -/
def disagreeingLast : List DKGMessage :=
  [.prematureCommitment (prematureCommitment 1 5), .prematureCommitment (prematureCommitment 2 5),
    .prematureCommitment (prematureCommitment 3 7)]

/-- On a node that cannot check premature commitments, one member derails `FinalizeCommitments`.
With `minSize` 2, members 2 and 3 agree on the quorum's key 5, but member 1's commitment, with the
key 7, comes first in hash order: theirs are skipped for disagreeing with it, one share recovers
no signature, and there is no final commitment. With `minSize` 3, member 3's commitment is
skipped, and the final commitment has two signers. -/
theorem finalizeCommitments_derailed_by_one_member :
    init (params 3 2 2) 10 [(1, some 1), (2, some 2), (3, some 3)] 3 = some triple ∧
    ((Machine.run (step (env 3 2 2)) triple disagreeingFirst).map fun s =>
      (s.validCommitments, finalizeCommitments (env 3 2 2) s)) = some ([3, 2, 1], some []) ∧
    ((Machine.run (step (env 3 3 2)) triple disagreeingLast).map fun s =>
      (finalizeCommitments (env 3 3 2) s).map (·.map (·.countSigners))) = some (some [2]) := by
  refine ⟨rfl, ?_, ?_⟩
  · decide +kernel
  · decide +kernel

end DkgFixture

end Emrals
