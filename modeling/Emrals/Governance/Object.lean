import Mathlib
import Emrals.Primitives
import Emrals.Lib.OrdMap

/-!
# Votes on a governance object

`CGovernanceObject::ProcessVote` (`src/governance/governance-object.cpp:100-217`) keeps, for each
masternode and signal, the instance of the vote that counts (`mapCurrentMNVotes`), and the votes
themselves in a file (`fileVotes`). A vote is accepted when it is not in the file, its masternode is
known, its signal is supported, it is not older than the instance (or as old, with a smaller
outcome), and its signature is valid; the record of the masternode and the instance of the signal
are created before those checks.

With rate checks disabled, the instance of a masternode and a signal is therefore the greatest of
the default instance and the accepted votes by timestamp, then outcome. `Tallied` says so of a
state reached by a list of votes, with the two maps sorted and the file holding accepted votes
only; `tallied_processVotes` carries it along the list, one vote at a time (`tallied_processVote`).
Since what `Tallied` fixes depends only on which votes were fed in, two nodes fed the same votes
in any order end with the same map (`mapCurrentMNVotes_eq_of_tallied`). The default instance has
creation time `0` and outcome `VOTE_OUTCOME_NONE`, so a vote with a negative timestamp never
counts, as the fixture at the end shows.

A vote's hash covers its masternode, object, signal, outcome and time, not its signature; the
model takes `GetHash` as a parameter, and the results hold for votes whose hashes differ when those
fields differ. The messages of the exceptions are not modelled, only their type and penalty; nor
are `CGovernanceManager::AddInvalidVote` and the count `nMemoryVotes`.
-/

namespace Emrals

open OrdMap

/-- `VOTE_SIGNAL_NONE`. -/
def VOTE_SIGNAL_NONE : Int := 0
/-- `VOTE_SIGNAL_FUNDING`. -/
def VOTE_SIGNAL_FUNDING : Int := 1
/-- `VOTE_SIGNAL_VALID`. -/
def VOTE_SIGNAL_VALID : Int := 2
/-- `VOTE_SIGNAL_DELETE`. -/
def VOTE_SIGNAL_DELETE : Int := 3
/-- `VOTE_SIGNAL_ENDORSED`. -/
def VOTE_SIGNAL_ENDORSED : Int := 4
/-- `MAX_SUPPORTED_VOTE_SIGNAL`. -/
def MAX_SUPPORTED_VOTE_SIGNAL : Int := VOTE_SIGNAL_ENDORSED

/-- `VOTE_OUTCOME_NONE`. -/
def VOTE_OUTCOME_NONE : Int := 0
/-- `VOTE_OUTCOME_YES`. -/
def VOTE_OUTCOME_YES : Int := 1
/-- `VOTE_OUTCOME_NO`. -/
def VOTE_OUTCOME_NO : Int := 2

/-- `GOVERNANCE_OBJECT_PROPOSAL`. -/
def GOVERNANCE_OBJECT_PROPOSAL : Int := 1
/-- `GOVERNANCE_UPDATE_MIN`, in seconds. -/
def GOVERNANCE_UPDATE_MIN : Int := 60 * 60

/-- `CGovernanceVote`, with the signal and outcome as the `int`s the vote carries. -/
structure CGovernanceVote where
  nVoteSignal : Int
  masternodeOutpoint : COutPoint
  nParentHash : uint256
  nVoteOutcome : Int
  nTime : Int
  vchSig : List UInt8
  deriving DecidableEq

/-- The fields `CGovernanceVote::UpdateHash` hashes: all but the signature. -/
def CGovernanceVote.hashedFields (vote : CGovernanceVote) : COutPoint × uint256 × Int × Int × Int :=
  (vote.masternodeOutpoint, vote.nParentHash, vote.nVoteSignal, vote.nVoteOutcome, vote.nTime)

/-- `vote_instance_t`; the default is the outcome `VOTE_OUTCOME_NONE` at time `0`. -/
structure vote_instance_t where
  eOutcome : Int := VOTE_OUTCOME_NONE
  nTime : Int := 0
  nCreationTime : Int := 0
  deriving DecidableEq

/-- `vote_rec_t`: the instances of one masternode's votes, by signal. -/
structure vote_rec_t where
  mapInstances : List (Int × vote_instance_t) := []
  deriving DecidableEq

/-- `governance_exception_type_enum_t`. -/
inductive governance_exception_type_enum_t
  | GOVERNANCE_EXCEPTION_NONE
  | GOVERNANCE_EXCEPTION_WARNING
  | GOVERNANCE_EXCEPTION_PERMANENT_ERROR
  | GOVERNANCE_EXCEPTION_TEMPORARY_ERROR
  | GOVERNANCE_EXCEPTION_INTERNAL_ERROR
  deriving DecidableEq

open governance_exception_type_enum_t

/-- `CGovernanceException`, by its type and the penalty for the peer. -/
structure CGovernanceException where
  eType : governance_exception_type_enum_t
  nNodePenalty : Int := 0
  deriving DecidableEq

/-- `CGovernanceObjectVoteFile`, by its list of votes, newest first; `mapVoteIndex` indexes the
same votes by hash. -/
structure CGovernanceObjectVoteFile where
  listVotes : List CGovernanceVote := []

/-- The vote state of a `CGovernanceObject`, and the sentinel flags computed from it. -/
structure CGovernanceObject where
  nObjectType : Int
  mapCurrentMNVotes : List (COutPoint × vote_rec_t)
  fileVotes : CGovernanceObjectVoteFile
  fDirtyCache : Bool
  fCachedFunding : Bool
  fCachedValid : Bool
  fCachedDelete : Bool
  fCachedEndorsed : Bool
  nDeletionTime : Int

section
variable (GetHash : CGovernanceVote → uint256)

namespace CGovernanceObjectVoteFile

/-- `HasVote`. -/
def hasVote (file : CGovernanceObjectVoteFile) (nHash : uint256) : Bool :=
  file.listVotes.any fun it => GetHash it == nHash

/-- `RemoveOldVotes`: drops the votes of the same masternode, object and signal that are older. -/
def removeOldVotes (vote : CGovernanceVote) (listVotes : List CGovernanceVote) :
    List CGovernanceVote :=
  listVotes.filter fun it =>
    !(it.masternodeOutpoint == vote.masternodeOutpoint && it.nParentHash == vote.nParentHash &&
      it.nVoteSignal == vote.nVoteSignal && decide (it.nTime < vote.nTime))

/-- `AddVote`. -/
def addVote (file : CGovernanceObjectVoteFile) (vote : CGovernanceVote) : CGovernanceObjectVoteFile :=
  if file.hasVote GetHash (GetHash vote) then file
  else ⟨removeOldVotes vote (vote :: file.listVotes)⟩

end CGovernanceObjectVoteFile

variable (GetMNByCollateral : COutPoint → Option uint256)
  (CheckSignature : CGovernanceVote → Bool → Bool) (nAdjustedTime : Int)

/-- `CGovernanceVote::IsValid`: not too far ahead of the adjusted time, a supported signal and
outcome, a known masternode, and a valid signature (by the voting key or the operator key). -/
def CGovernanceVote.isValid (vote : CGovernanceVote) (useVotingKey : Bool) : Bool :=
  if vote.nTime > nAdjustedTime + 60 * 60 then false
  else if vote.nVoteSignal > MAX_SUPPORTED_VOTE_SIGNAL then false
  else if vote.nVoteOutcome > 3 then false
  else
    match GetMNByCollateral vote.masternodeOutpoint with
    | none => false
    | some _ => CheckSignature vote useVotingKey

/-- Whether `ProcessVote` checks the vote against the voting key. -/
def onlyVotingKeyAllowed (nObjectType : Int) (vote : CGovernanceVote) : Bool :=
  nObjectType == GOVERNANCE_OBJECT_PROPOSAL && vote.nVoteSignal == VOTE_SIGNAL_FUNDING

variable (fRateChecksEnabled : Bool)

/-- `CGovernanceObject::ProcessVote`: the object afterwards, and the exception of a rejected
vote. `mmetaman.AddGovernanceVote` always succeeds. -/
def CGovernanceObject.processVote (obj : CGovernanceObject) (vote : CGovernanceVote) :
    CGovernanceObject × Except CGovernanceException Unit :=
  if obj.fileVotes.hasVote GetHash (GetHash vote) then (obj, .error ⟨GOVERNANCE_EXCEPTION_NONE, 0⟩)
  else
  match GetMNByCollateral vote.masternodeOutpoint with
  | none => (obj, .error ⟨GOVERNANCE_EXCEPTION_PERMANENT_ERROR, 20⟩)
  | some _ =>
    let outpoint := vote.masternodeOutpoint
    let voteRecord := (obj.mapCurrentMNVotes.lookup outpoint).getD {}
    let eSignal := vote.nVoteSignal
    if eSignal = VOTE_SIGNAL_NONE then
      ({ obj with mapCurrentMNVotes := emplace outpoint {} obj.mapCurrentMNVotes },
        .error ⟨GOVERNANCE_EXCEPTION_WARNING, 0⟩)
    else if eSignal > MAX_SUPPORTED_VOTE_SIGNAL then
      ({ obj with mapCurrentMNVotes := emplace outpoint {} obj.mapCurrentMNVotes },
        .error ⟨GOVERNANCE_EXCEPTION_PERMANENT_ERROR, 20⟩)
    else
      let voteInstance := (voteRecord.mapInstances.lookup eSignal).getD {}
      let mapInstances := emplace eSignal {} voteRecord.mapInstances
      let rejected := { obj with
        mapCurrentMNVotes := assign outpoint ⟨mapInstances⟩ obj.mapCurrentMNVotes }
      if vote.nTime < voteInstance.nCreationTime then
        (rejected, .error ⟨GOVERNANCE_EXCEPTION_NONE, 0⟩)
      else if vote.nTime = voteInstance.nCreationTime ∧ vote.nVoteOutcome < voteInstance.eOutcome then
        (rejected, .error ⟨GOVERNANCE_EXCEPTION_NONE, 0⟩)
      else if fRateChecksEnabled ∧ nAdjustedTime - voteInstance.nTime < GOVERNANCE_UPDATE_MIN then
        (rejected, .error ⟨GOVERNANCE_EXCEPTION_TEMPORARY_ERROR, 0⟩)
      else
        let nVoteTimeUpdate := if fRateChecksEnabled then nAdjustedTime else voteInstance.nTime
        if !vote.isValid GetMNByCollateral CheckSignature nAdjustedTime
            (onlyVotingKeyAllowed obj.nObjectType vote) then
          (rejected, .error ⟨GOVERNANCE_EXCEPTION_PERMANENT_ERROR, 20⟩)
        else
          let newInstance : vote_instance_t := ⟨vote.nVoteOutcome, nVoteTimeUpdate, vote.nTime⟩
          ({ obj with
              mapCurrentMNVotes :=
                assign outpoint ⟨assign eSignal newInstance mapInstances⟩ obj.mapCurrentMNVotes
              fileVotes := obj.fileVotes.addVote GetHash vote
              fDirtyCache := true },
            .ok ())

/-- A node fed `votes` one after another. -/
def CGovernanceObject.processVotes (obj : CGovernanceObject) (votes : List CGovernanceVote) :
    CGovernanceObject :=
  votes.foldl (fun obj vote =>
    (obj.processVote GetHash GetMNByCollateral CheckSignature nAdjustedTime fRateChecksEnabled
      vote).1) obj

theorem CGovernanceObject.processVotes_cons (obj : CGovernanceObject) (vote : CGovernanceVote)
    (votes : List CGovernanceVote) :
    obj.processVotes GetHash GetMNByCollateral CheckSignature nAdjustedTime fRateChecksEnabled
        (vote :: votes) =
      (obj.processVote GetHash GetMNByCollateral CheckSignature nAdjustedTime fRateChecksEnabled
        vote).1.processVotes GetHash GetMNByCollateral CheckSignature nAdjustedTime
          fRateChecksEnabled votes :=
  rfl

end

namespace CGovernanceObject

/-- `CountMatchingVotes`. -/
def countMatchingVotes (obj : CGovernanceObject) (eVoteSignalIn eVoteOutcomeIn : Int) : Nat :=
  obj.mapCurrentMNVotes.countP fun votepair =>
    match votepair.2.mapInstances.lookup eVoteSignalIn with
    | some voteInstance => voteInstance.eOutcome == eVoteOutcomeIn
    | none => false

/-- `GetAbsoluteYesCount`. -/
def getAbsoluteYesCount (obj : CGovernanceObject) (eVoteSignalIn : Int) : Int :=
  obj.countMatchingVotes eVoteSignalIn VOTE_OUTCOME_YES -
    obj.countMatchingVotes eVoteSignalIn VOTE_OUTCOME_NO

/-- `GetAbsoluteNoCount`. -/
def getAbsoluteNoCount (obj : CGovernanceObject) (eVoteSignalIn : Int) : Int :=
  obj.countMatchingVotes eVoteSignalIn VOTE_OUTCOME_NO -
    obj.countMatchingVotes eVoteSignalIn VOTE_OUTCOME_YES

/-- `UpdateSentinelVariables`, with the number of valid masternodes, the consensus minimum quorum
and the adjusted time. -/
def updateSentinelVariables (obj : CGovernanceObject) (nMnCount nGovernanceMinQuorum nNow : Int) :
    CGovernanceObject :=
  if nMnCount = 0 then obj
  else
    let nAbsVoteReq := max nGovernanceMinQuorum (nMnCount / 10)
    let nAbsDeleteReq := max nGovernanceMinQuorum (2 * nMnCount / 3)
    let setDelete := obj.getAbsoluteYesCount VOTE_SIGNAL_DELETE ≥ nAbsDeleteReq && !obj.fCachedDelete
    { obj with
      fCachedFunding := decide (obj.getAbsoluteYesCount VOTE_SIGNAL_FUNDING ≥ nAbsVoteReq)
      fCachedValid := !decide (obj.getAbsoluteNoCount VOTE_SIGNAL_VALID ≥ nAbsVoteReq)
      fCachedEndorsed := decide (obj.getAbsoluteYesCount VOTE_SIGNAL_ENDORSED ≥ nAbsVoteReq)
      fDirtyCache := false
      fCachedDelete := obj.fCachedDelete || setDelete
      nDeletionTime := if setDelete && obj.nDeletionTime = 0 then nNow else obj.nDeletionTime }

end CGovernanceObject

/-! ## One vote -/

/-- Votes rank by timestamp, then outcome. -/
def CGovernanceVote.rank (vote : CGovernanceVote) : Int ×ₗ Int := toLex (vote.nTime, vote.nVoteOutcome)

/-- An instance ranks as the vote it records. -/
def vote_instance_t.rank (voteInstance : vote_instance_t) : Int ×ₗ Int :=
  toLex (voteInstance.nCreationTime, voteInstance.eOutcome)

section Step
variable (GetHash : CGovernanceVote → uint256) (GetMNByCollateral : COutPoint → Option uint256)
  (CheckSignature : CGovernanceVote → Bool → Bool) (nAdjustedTime : Int)

/-- What `ProcessVote` does with rate checks disabled: nothing (a known vote, or an unknown
masternode); create the record (no supported signal); create the record and the instance (an
older vote, or an invalid one); or record and file the vote. -/
theorem processVote_cases (obj : CGovernanceObject) (vote : CGovernanceVote) :
    let outpoint := vote.masternodeOutpoint
    let eSignal := vote.nVoteSignal
    let voteRecord := (obj.mapCurrentMNVotes.lookup outpoint).getD {}
    let voteInstance := (voteRecord.mapInstances.lookup eSignal).getD {}
    let mapInstances := emplace eSignal {} voteRecord.mapInstances
    let valid := vote.isValid GetMNByCollateral CheckSignature nAdjustedTime
      (onlyVotingKeyAllowed obj.nObjectType vote)
    let obj' := (obj.processVote GetHash GetMNByCollateral CheckSignature nAdjustedTime false vote).1
    obj' = obj ∧
        (obj.fileVotes.hasVote GetHash (GetHash vote) = true ∨ GetMNByCollateral outpoint = none) ∨
      obj.fileVotes.hasVote GetHash (GetHash vote) = false ∧ (GetMNByCollateral outpoint).isSome ∧
        (obj' = { obj with mapCurrentMNVotes := emplace outpoint {} obj.mapCurrentMNVotes } ∧
            (eSignal = VOTE_SIGNAL_NONE ∨ eSignal > MAX_SUPPORTED_VOTE_SIGNAL) ∨
          eSignal ≠ VOTE_SIGNAL_NONE ∧ ¬eSignal > MAX_SUPPORTED_VOTE_SIGNAL ∧
            (obj' = { obj with
                mapCurrentMNVotes := assign outpoint ⟨mapInstances⟩ obj.mapCurrentMNVotes } ∧
                (vote.rank < voteInstance.rank ∨ valid = false) ∨
              obj' = { obj with
                mapCurrentMNVotes := assign outpoint
                  ⟨assign eSignal ⟨vote.nVoteOutcome, voteInstance.nTime, vote.nTime⟩ mapInstances⟩
                  obj.mapCurrentMNVotes
                fileVotes := obj.fileVotes.addVote GetHash vote
                fDirtyCache := true } ∧
                voteInstance.rank ≤ vote.rank ∧ valid = true)) := by
  intro outpoint eSignal voteRecord voteInstance mapInstances valid obj'
  have hobj' : obj' = (obj.processVote GetHash GetMNByCollateral CheckSignature nAdjustedTime false
    vote).1 := rfl
  rw [hobj']
  unfold CGovernanceObject.processVote
  by_cases hv : obj.fileVotes.hasVote GetHash (GetHash vote) = true
  · exact .inl ⟨by rw [if_pos hv], .inl hv⟩
  rw [if_neg hv, Bool.not_eq_true] at *
  cases hmn : GetMNByCollateral vote.masternodeOutpoint with
  | none => exact .inl ⟨rfl, .inr rfl⟩
  | some _ =>
    refine .inr ⟨hv, rfl, ?_⟩
    dsimp only
    by_cases h0 : vote.nVoteSignal = VOTE_SIGNAL_NONE
    · exact .inl ⟨by rw [if_pos h0], .inl h0⟩
    by_cases hmax : vote.nVoteSignal > MAX_SUPPORTED_VOTE_SIGNAL
    · exact .inl ⟨by rw [if_neg h0, if_pos hmax], .inr hmax⟩
    refine .inr ⟨h0, hmax, ?_⟩
    rw [if_neg h0, if_neg hmax]
    -- the two rejections by rank are `vote.rank < voteInstance.rank`
    have hrank : vote.rank < voteInstance.rank ↔ vote.nTime < voteInstance.nCreationTime ∨
        vote.nTime = voteInstance.nCreationTime ∧ vote.nVoteOutcome < voteInstance.eOutcome :=
      Prod.Lex.toLex_lt_toLex
    by_cases hlt : vote.rank < voteInstance.rank
    · refine .inl ⟨?_, .inl hlt⟩
      rcases hrank.mp hlt with h | h
      · rw [if_pos h]
      · rw [if_neg (not_lt.mpr h.1.ge), if_pos h]
    have hold : ¬vote.nTime < voteInstance.nCreationTime := fun h => hlt (hrank.mpr (.inl h))
    have htie : ¬(vote.nTime = voteInstance.nCreationTime ∧
        vote.nVoteOutcome < voteInstance.eOutcome) := fun h => hlt (hrank.mpr (.inr h))
    rw [if_neg hold, if_neg htie, if_neg (by simp)]
    cases hvalid : valid with
    | false => exact .inl ⟨by rw [if_pos (by simpa [valid] using hvalid)], .inr rfl⟩
    | true => exact .inr ⟨by rw [if_neg (by simpa [valid] using hvalid)]; rfl, not_lt.mp hlt, rfl⟩

end Step

/-! ## The tally -/

theorem le_foldl_max_init {α : Type*} [LinearOrder α] (b : α) :
    ∀ l : List α, b ≤ l.foldl max b
  | [] => le_rfl
  | x :: l => (le_max_left b x).trans (le_foldl_max_init (max b x) l)

theorem le_foldl_max_of_mem {α : Type*} [LinearOrder α] {x : α} :
    ∀ {l : List α}, x ∈ l → ∀ b, x ≤ l.foldl max b
  | y :: l, h, b => by
    rcases List.mem_cons.mp h with rfl | h
    · exact (le_max_right b x).trans (le_foldl_max_init _ l)
    · exact le_foldl_max_of_mem h (max b y)

section Tally
variable (GetMNByCollateral : COutPoint → Option uint256)
  (CheckSignature : CGovernanceVote → Bool → Bool) (nAdjustedTime : Int) (nObjectType : Int)

theorem isValid_known {vote : CGovernanceVote} {useVotingKey : Bool}
    (h : vote.isValid GetMNByCollateral CheckSignature nAdjustedTime useVotingKey = true) :
    (GetMNByCollateral vote.masternodeOutpoint).isSome := by
  unfold CGovernanceVote.isValid at h
  split_ifs at h
  split at h
  · cases h
  · next hmn => rw [hmn]; rfl

theorem isValid_signal {vote : CGovernanceVote} {useVotingKey : Bool}
    (h : vote.isValid GetMNByCollateral CheckSignature nAdjustedTime useVotingKey = true) :
    ¬vote.nVoteSignal > MAX_SUPPORTED_VOTE_SIGNAL := by
  unfold CGovernanceVote.isValid at h
  split_ifs at h with h₁ h₂
  exact h₂

/-- A vote that counts when it is the newest: it has a signal and is valid. -/
def admitted (vote : CGovernanceVote) : Bool :=
  vote.nVoteSignal != VOTE_SIGNAL_NONE &&
    vote.isValid GetMNByCollateral CheckSignature nAdjustedTime
      (onlyVotingKeyAllowed nObjectType vote)

/-- An admitted vote of `outpoint` for `eSignal`. -/
def counted (outpoint : COutPoint) (eSignal : Int) (vote : CGovernanceVote) : Bool :=
  admitted GetMNByCollateral CheckSignature nAdjustedTime nObjectType vote &&
    vote.masternodeOutpoint == outpoint && vote.nVoteSignal == eSignal

/-- The greatest rank among the default instance and the admitted votes of `outpoint` for
`eSignal`. -/
def maxRank (votes : List CGovernanceVote) (outpoint : COutPoint) (eSignal : Int) : Int ×ₗ Int :=
  ((votes.filter (counted GetMNByCollateral CheckSignature nAdjustedTime nObjectType outpoint
    eSignal)).map CGovernanceVote.rank).foldl max ({} : vote_instance_t).rank

/-- The instance `votes` leave for `outpoint` and `eSignal`: that of the greatest rank, at the
time `0` nothing updates with rate checks disabled. -/
def tallyInstance (votes : List CGovernanceVote) (outpoint : COutPoint) (eSignal : Int) :
    vote_instance_t :=
  let rank := ofLex (maxRank GetMNByCollateral CheckSignature nAdjustedTime nObjectType votes
    outpoint eSignal)
  ⟨rank.2, 0, rank.1⟩

/-- `outpoint` has voted: it has a record. -/
def HasRecord (votes : List CGovernanceVote) (outpoint : COutPoint) : Prop :=
  (GetMNByCollateral outpoint).isSome ∧ ∃ v ∈ votes, v.masternodeOutpoint = outpoint

/-- `outpoint` has voted for a supported signal `eSignal`: it has an instance for it. -/
def HasInstance (votes : List CGovernanceVote) (outpoint : COutPoint) (eSignal : Int) : Prop :=
  (GetMNByCollateral outpoint).isSome ∧ eSignal ≠ VOTE_SIGNAL_NONE ∧
    ¬eSignal > MAX_SUPPORTED_VOTE_SIGNAL ∧
    ∃ v ∈ votes, v.masternodeOutpoint = outpoint ∧ v.nVoteSignal = eSignal

theorem admitted_eq_true {vote : CGovernanceVote}
    (h : admitted GetMNByCollateral CheckSignature nAdjustedTime nObjectType vote = true) :
    vote.nVoteSignal ≠ VOTE_SIGNAL_NONE ∧ vote.isValid GetMNByCollateral CheckSignature
      nAdjustedTime (onlyVotingKeyAllowed nObjectType vote) = true := by
  simpa [admitted] using h

theorem counted_iff {outpoint : COutPoint} {eSignal : Int} {vote : CGovernanceVote} :
    counted GetMNByCollateral CheckSignature nAdjustedTime nObjectType outpoint eSignal vote =
        true ↔
      admitted GetMNByCollateral CheckSignature nAdjustedTime nObjectType vote = true ∧
        vote.masternodeOutpoint = outpoint ∧ vote.nVoteSignal = eSignal := by
  simp [counted, and_assoc]

theorem maxRank_append (votes : List CGovernanceVote) (vote : CGovernanceVote)
    (outpoint : COutPoint) (eSignal : Int) :
    maxRank GetMNByCollateral CheckSignature nAdjustedTime nObjectType (votes ++ [vote]) outpoint
        eSignal =
      if counted GetMNByCollateral CheckSignature nAdjustedTime nObjectType outpoint eSignal vote
      then max (maxRank GetMNByCollateral CheckSignature nAdjustedTime nObjectType votes outpoint
        eSignal) vote.rank
      else maxRank GetMNByCollateral CheckSignature nAdjustedTime nObjectType votes outpoint
        eSignal := by
  unfold maxRank
  rw [List.filter_append, List.map_append, List.foldl_append]
  split <;> simp [*]

/-- A vote that does not outrank what counts leaves every greatest rank as it is. -/
theorem maxRank_append_of_le {votes : List CGovernanceVote} {vote : CGovernanceVote}
    (hle : counted GetMNByCollateral CheckSignature nAdjustedTime nObjectType
      vote.masternodeOutpoint vote.nVoteSignal vote = true →
      vote.rank ≤ maxRank GetMNByCollateral CheckSignature nAdjustedTime nObjectType votes
        vote.masternodeOutpoint vote.nVoteSignal)
    (outpoint : COutPoint) (eSignal : Int) :
    maxRank GetMNByCollateral CheckSignature nAdjustedTime nObjectType (votes ++ [vote]) outpoint
        eSignal =
      maxRank GetMNByCollateral CheckSignature nAdjustedTime nObjectType votes outpoint eSignal := by
  rw [maxRank_append]
  split
  · next hc =>
    obtain ⟨-, rfl, rfl⟩ := (counted_iff ..).mp hc
    exact max_eq_left (hle hc)
  · rfl

theorem le_maxRank {votes : List CGovernanceVote} {vote : CGovernanceVote} (hv : vote ∈ votes)
    (hc : counted GetMNByCollateral CheckSignature nAdjustedTime nObjectType
      vote.masternodeOutpoint vote.nVoteSignal vote = true) :
    vote.rank ≤ maxRank GetMNByCollateral CheckSignature nAdjustedTime nObjectType votes
      vote.masternodeOutpoint vote.nVoteSignal :=
  le_foldl_max_of_mem (List.mem_map_of_mem (List.mem_filter.mpr ⟨hv, hc⟩)) _

theorem maxRank_perm {votes₁ votes₂ : List CGovernanceVote} (h : votes₁.Perm votes₂)
    (outpoint : COutPoint) (eSignal : Int) :
    maxRank GetMNByCollateral CheckSignature nAdjustedTime nObjectType votes₁ outpoint eSignal =
      maxRank GetMNByCollateral CheckSignature nAdjustedTime nObjectType votes₂ outpoint
        eSignal :=
  ((h.filter _).map _).foldl_eq' (fun _ _ _ _ _ => max_right_comm _ _ _) _

theorem hasRecord_append {votes : List CGovernanceVote} {vote : CGovernanceVote}
    {outpoint : COutPoint} :
    HasRecord GetMNByCollateral (votes ++ [vote]) outpoint ↔
      HasRecord GetMNByCollateral votes outpoint ∨
        (GetMNByCollateral outpoint).isSome ∧ vote.masternodeOutpoint = outpoint := by
  simp only [HasRecord, List.mem_append, List.mem_singleton, or_and_right, exists_or,
    exists_eq_left, and_or_left]

theorem hasInstance_append {votes : List CGovernanceVote} {vote : CGovernanceVote}
    {outpoint : COutPoint} {eSignal : Int} :
    HasInstance GetMNByCollateral (votes ++ [vote]) outpoint eSignal ↔
      HasInstance GetMNByCollateral votes outpoint eSignal ∨
        (GetMNByCollateral outpoint).isSome ∧ eSignal ≠ VOTE_SIGNAL_NONE ∧
          ¬eSignal > MAX_SUPPORTED_VOTE_SIGNAL ∧ vote.masternodeOutpoint = outpoint ∧
          vote.nVoteSignal = eSignal := by
  simp only [HasInstance, List.mem_append, List.mem_singleton, or_and_right, exists_or,
    exists_eq_left, and_or_left]

theorem tallyInstance_rank (votes : List CGovernanceVote) (outpoint : COutPoint) (eSignal : Int) :
    (tallyInstance GetMNByCollateral CheckSignature nAdjustedTime nObjectType votes outpoint
      eSignal).rank =
      maxRank GetMNByCollateral CheckSignature nAdjustedTime nObjectType votes outpoint eSignal :=
  rfl

theorem tallyInstance_append_of_le {votes : List CGovernanceVote} {vote : CGovernanceVote}
    (hle : counted GetMNByCollateral CheckSignature nAdjustedTime nObjectType
      vote.masternodeOutpoint vote.nVoteSignal vote = true →
      vote.rank ≤ maxRank GetMNByCollateral CheckSignature nAdjustedTime nObjectType votes
        vote.masternodeOutpoint vote.nVoteSignal)
    (outpoint : COutPoint) (eSignal : Int) :
    tallyInstance GetMNByCollateral CheckSignature nAdjustedTime nObjectType (votes ++ [vote])
        outpoint eSignal =
      tallyInstance GetMNByCollateral CheckSignature nAdjustedTime nObjectType votes outpoint
        eSignal := by
  unfold tallyInstance
  rw [maxRank_append_of_le _ _ _ _ hle]

end Tally

/-- The instance of `outpoint`'s votes for `eSignal`, if there is one. -/
def CGovernanceObject.instanceOf (obj : CGovernanceObject) (outpoint : COutPoint) (eSignal : Int) :
    Option vote_instance_t :=
  (obj.mapCurrentMNVotes.lookup outpoint).bind fun voteRecord => voteRecord.mapInstances.lookup eSignal

namespace CGovernanceObject

theorem lookup_getD_mapInstances (obj : CGovernanceObject) (outpoint : COutPoint) (eSignal : Int) :
    ((obj.mapCurrentMNVotes.lookup outpoint).getD {}).mapInstances.lookup eSignal =
      obj.instanceOf outpoint eSignal := by
  unfold instanceOf
  cases obj.mapCurrentMNVotes.lookup outpoint <;> rfl

theorem instanceOf_emplace (obj : CGovernanceObject) (outpoint outpoint' : COutPoint)
    (eSignal : Int) :
    instanceOf { obj with mapCurrentMNVotes := emplace outpoint {} obj.mapCurrentMNVotes }
      outpoint' eSignal = obj.instanceOf outpoint' eSignal := by
  by_cases h : outpoint' = outpoint
  · subst h
    unfold instanceOf
    dsimp only
    rw [lookup_emplace_self, Option.bind_some]
    exact lookup_getD_mapInstances obj outpoint' eSignal
  · unfold instanceOf
    dsimp only
    rw [lookup_emplace_ne _ _ h]

theorem instanceOf_assign_self (obj : CGovernanceObject) (outpoint : COutPoint)
    (voteRecord : vote_rec_t) (eSignal : Int) :
    instanceOf { obj with mapCurrentMNVotes := assign outpoint voteRecord obj.mapCurrentMNVotes }
      outpoint eSignal = voteRecord.mapInstances.lookup eSignal := by
  unfold instanceOf
  dsimp only
  rw [lookup_assign_self]
  rfl

theorem instanceOf_assign_ne (obj : CGovernanceObject) {outpoint outpoint' : COutPoint}
    (voteRecord : vote_rec_t) (eSignal : Int) (h : outpoint' ≠ outpoint) :
    instanceOf { obj with mapCurrentMNVotes := assign outpoint voteRecord obj.mapCurrentMNVotes }
      outpoint' eSignal = obj.instanceOf outpoint' eSignal := by
  unfold instanceOf
  dsimp only
  rw [lookup_assign_ne _ h]

theorem instanceOf_of_map {obj obj' : CGovernanceObject} {outpoint : COutPoint}
    {mapInstances : List (Int × vote_instance_t)}
    (hmap : obj'.mapCurrentMNVotes = assign outpoint ⟨mapInstances⟩ obj.mapCurrentMNVotes)
    (outpoint' : COutPoint) (eSignal : Int) :
    obj'.instanceOf outpoint' eSignal =
      if outpoint' = outpoint then mapInstances.lookup eSignal else obj.instanceOf outpoint' eSignal := by
  split
  · next ho =>
    subst ho
    unfold instanceOf
    rw [hmap, lookup_assign_self]
    rfl
  · next ho =>
    unfold instanceOf
    rw [hmap, lookup_assign_ne _ ho]

/-- The instances of the record `ProcessVote` writes for a masternode: those it had, and one for
`eSignal`. -/
theorem instanceOf_emplace_instance (obj : CGovernanceObject) (outpoint : COutPoint)
    (eSignal eSignal' : Int) :
    (emplace eSignal {} ((obj.mapCurrentMNVotes.lookup outpoint).getD {}).mapInstances).lookup
        eSignal' =
      if eSignal' = eSignal then some ((obj.instanceOf outpoint eSignal).getD {})
      else obj.instanceOf outpoint eSignal' := by
  split
  · next hs =>
    subst hs
    rw [lookup_emplace_self, lookup_getD_mapInstances]
  · next hs =>
    rw [lookup_emplace_ne _ _ hs, lookup_getD_mapInstances]

end CGovernanceObject

/-! ## A run of votes -/

section Run
variable (GetHash : CGovernanceVote → uint256) (GetMNByCollateral : COutPoint → Option uint256)
  (CheckSignature : CGovernanceVote → Bool → Bool) (nAdjustedTime : Int)

/-- What a list of votes leaves in an object with rate checks disabled: sorted maps; a record for
each known masternode that voted, and an instance for each supported signal it voted for; each
instance that of the greatest rank; and only admitted votes in the file. -/
structure Tallied (votes : List CGovernanceVote) (obj : CGovernanceObject) : Prop where
  sorted : Sorted obj.mapCurrentMNVotes
  sorted_instances : ∀ outpoint voteRecord,
    obj.mapCurrentMNVotes.lookup outpoint = some voteRecord → Sorted voteRecord.mapInstances
  record_isSome : ∀ outpoint,
    (obj.mapCurrentMNVotes.lookup outpoint).isSome ↔ HasRecord GetMNByCollateral votes outpoint
  instance_isSome : ∀ outpoint eSignal,
    (obj.instanceOf outpoint eSignal).isSome ↔
      HasInstance GetMNByCollateral votes outpoint eSignal
  instance_eq : ∀ outpoint eSignal,
    (obj.instanceOf outpoint eSignal).getD {} =
      tallyInstance GetMNByCollateral CheckSignature nAdjustedTime obj.nObjectType votes outpoint
        eSignal
  file_admitted : ∀ w ∈ obj.fileVotes.listVotes,
    w ∈ votes ∧ admitted GetMNByCollateral CheckSignature nAdjustedTime obj.nObjectType w = true

/-- An object with no votes is tallied by no votes. -/
theorem tallied_nil {obj : CGovernanceObject} (hmap : obj.mapCurrentMNVotes = [])
    (hfile : obj.fileVotes.listVotes = []) :
    Tallied GetMNByCollateral CheckSignature nAdjustedTime [] obj where
  sorted := by rw [hmap]; exact List.Pairwise.nil
  sorted_instances outpoint voteRecord h := by simp [hmap] at h
  record_isSome outpoint := by simp [hmap, HasRecord]
  instance_isSome outpoint eSignal := by
    simp [CGovernanceObject.instanceOf, hmap, HasInstance]
  instance_eq outpoint eSignal := by
    simp only [CGovernanceObject.instanceOf, hmap, List.lookup_nil, Option.bind_none]
    rfl
  file_admitted w hw := by simp [hfile] at hw

variable {GetMNByCollateral CheckSignature nAdjustedTime}
variable {votes : List CGovernanceVote} {obj : CGovernanceObject} {vote : CGovernanceVote}

theorem Tallied.sorted_record
    (h : Tallied GetMNByCollateral CheckSignature nAdjustedTime votes obj) (outpoint : COutPoint) :
    Sorted ((obj.mapCurrentMNVotes.lookup outpoint).getD {}).mapInstances := by
  cases hl : obj.mapCurrentMNVotes.lookup outpoint with
  | none => exact List.Pairwise.nil
  | some voteRecord => exact h.sorted_instances outpoint voteRecord hl

/-- A vote that adds no masternode, no signal and no greater rank leaves the object tallied. -/
theorem Tallied.append_of_redundant
    (h : Tallied GetMNByCollateral CheckSignature nAdjustedTime votes obj)
    (hrec : (GetMNByCollateral vote.masternodeOutpoint).isSome →
      ∃ w ∈ votes, w.masternodeOutpoint = vote.masternodeOutpoint)
    (hinst : (GetMNByCollateral vote.masternodeOutpoint).isSome →
      vote.nVoteSignal ≠ VOTE_SIGNAL_NONE → ¬vote.nVoteSignal > MAX_SUPPORTED_VOTE_SIGNAL →
      ∃ w ∈ votes, w.masternodeOutpoint = vote.masternodeOutpoint ∧
        w.nVoteSignal = vote.nVoteSignal)
    (hle : counted GetMNByCollateral CheckSignature nAdjustedTime obj.nObjectType
      vote.masternodeOutpoint vote.nVoteSignal vote = true →
      vote.rank ≤ maxRank GetMNByCollateral CheckSignature nAdjustedTime obj.nObjectType votes
        vote.masternodeOutpoint vote.nVoteSignal) :
    Tallied GetMNByCollateral CheckSignature nAdjustedTime (votes ++ [vote]) obj where
  sorted := h.sorted
  sorted_instances := h.sorted_instances
  record_isSome outpoint := by
    rw [hasRecord_append, h.record_isSome]
    refine ⟨.inl, ?_⟩
    rintro (hr | ⟨hk, rfl⟩)
    · exact hr
    · exact ⟨hk, hrec hk⟩
  instance_isSome outpoint eSignal := by
    rw [hasInstance_append, h.instance_isSome]
    refine ⟨.inl, ?_⟩
    rintro (hi | ⟨hk, h0, hmax, rfl, rfl⟩)
    · exact hi
    · exact ⟨hk, h0, hmax, hinst hk h0 hmax⟩
  instance_eq outpoint eSignal := by
    rw [h.instance_eq, tallyInstance_append_of_le _ _ _ _ hle]
  file_admitted w hw :=
    ⟨List.mem_append_left _ (h.file_admitted w hw).1, (h.file_admitted w hw).2⟩

theorem counted_signal {outpoint : COutPoint} {eSignal : Int}
    (hc : counted GetMNByCollateral CheckSignature nAdjustedTime obj.nObjectType outpoint eSignal
      vote = true) :
    vote.nVoteSignal ≠ VOTE_SIGNAL_NONE ∧ ¬vote.nVoteSignal > MAX_SUPPORTED_VOTE_SIGNAL := by
  obtain ⟨hadm, -, -⟩ := (counted_iff ..).mp hc
  obtain ⟨h0, hvalid⟩ := admitted_eq_true _ _ _ _ hadm
  exact ⟨h0, isValid_signal _ _ _ hvalid⟩

/-- A map that has a record for the voter and is unchanged elsewhere has the records of the
votes with the new one. -/
theorem Tallied.record_isSome_of_add
    (h : Tallied GetMNByCollateral CheckSignature nAdjustedTime votes obj)
    (hknown : (GetMNByCollateral vote.masternodeOutpoint).isSome)
    {m : List (COutPoint × vote_rec_t)} (hself : (m.lookup vote.masternodeOutpoint).isSome)
    (hne : ∀ outpoint, outpoint ≠ vote.masternodeOutpoint →
      m.lookup outpoint = obj.mapCurrentMNVotes.lookup outpoint)
    (outpoint : COutPoint) :
    (m.lookup outpoint).isSome ↔ HasRecord GetMNByCollateral (votes ++ [vote]) outpoint := by
  rw [hasRecord_append]
  by_cases ho : outpoint = vote.masternodeOutpoint
  · subst ho
    exact ⟨fun _ => .inr ⟨hknown, rfl⟩, fun _ => hself⟩
  · rw [hne outpoint ho, h.record_isSome]
    exact ⟨.inl, fun hr => hr.resolve_right fun hr => ho hr.2.symm⟩

theorem Tallied.sorted_instances_assign
    (h : Tallied GetMNByCollateral CheckSignature nAdjustedTime votes obj)
    {outpoint : COutPoint} {voteRecord : vote_rec_t} (hr : Sorted voteRecord.mapInstances) :
    ∀ outpoint' voteRecord',
      (assign outpoint voteRecord obj.mapCurrentMNVotes).lookup outpoint' = some voteRecord' →
        Sorted voteRecord'.mapInstances := by
  intro outpoint' voteRecord' hl
  by_cases ho : outpoint' = outpoint
  · subst ho
    rw [lookup_assign_self] at hl
    cases hl
    exact hr
  · rw [lookup_assign_ne _ ho] at hl
    exact h.sorted_instances outpoint' voteRecord' hl

/-- A vote without a supported signal creates the record of its masternode and nothing else. -/
theorem Tallied.append_emplace
    (h : Tallied GetMNByCollateral CheckSignature nAdjustedTime votes obj)
    (hknown : (GetMNByCollateral vote.masternodeOutpoint).isSome)
    (hsig : vote.nVoteSignal = VOTE_SIGNAL_NONE ∨ vote.nVoteSignal > MAX_SUPPORTED_VOTE_SIGNAL) :
    Tallied GetMNByCollateral CheckSignature nAdjustedTime (votes ++ [vote])
      { obj with mapCurrentMNVotes := emplace vote.masternodeOutpoint {} obj.mapCurrentMNVotes } where
  sorted := sorted_emplace _ _ h.sorted
  sorted_instances outpoint voteRecord hl := by
    by_cases ho : outpoint = vote.masternodeOutpoint
    · subst ho
      rw [lookup_emplace_self] at hl
      cases hl
      exact h.sorted_record _
    · rw [lookup_emplace_ne _ _ ho] at hl
      exact h.sorted_instances outpoint voteRecord hl
  record_isSome := h.record_isSome_of_add hknown (by rw [lookup_emplace_self]; rfl)
    fun _ ho => lookup_emplace_ne _ _ ho
  instance_isSome outpoint eSignal := by
    rw [CGovernanceObject.instanceOf_emplace, hasInstance_append, h.instance_isSome]
    refine ⟨.inl, fun hi => hi.resolve_right ?_⟩
    rintro ⟨-, h0, hmax, -, rfl⟩
    exact hsig.elim h0 hmax
  instance_eq outpoint eSignal := by
    rw [CGovernanceObject.instanceOf_emplace, h.instance_eq]
    refine (tallyInstance_append_of_le _ _ _ _ (fun hc => ?_) _ _).symm
    obtain ⟨h0, hmax⟩ := counted_signal hc
    exact absurd hsig (not_or.mpr ⟨h0, hmax⟩)
  file_admitted w hw :=
    ⟨List.mem_append_left _ (h.file_admitted w hw).1, (h.file_admitted w hw).2⟩

theorem CGovernanceObjectVoteFile.mem_addVote {file : CGovernanceObjectVoteFile}
    {w : CGovernanceVote} (hw : w ∈ (file.addVote GetHash vote).listVotes) :
    w = vote ∨ w ∈ file.listVotes := by
  unfold CGovernanceObjectVoteFile.addVote at hw
  split at hw
  · exact .inr hw
  · exact List.mem_cons.mp (List.mem_filter.mp hw).1

theorem tallyInstance_append_of_not_counted {outpoint : COutPoint} {eSignal : Int}
    (hc : counted GetMNByCollateral CheckSignature nAdjustedTime obj.nObjectType outpoint eSignal
      vote = false) :
    tallyInstance GetMNByCollateral CheckSignature nAdjustedTime obj.nObjectType (votes ++ [vote])
        outpoint eSignal =
      tallyInstance GetMNByCollateral CheckSignature nAdjustedTime obj.nObjectType votes outpoint
        eSignal := by
  unfold tallyInstance
  rw [maxRank_append, if_neg (by simp [hc])]

/-- A vote older than what counts, or invalid, creates the record and the instance, if they are
missing, and changes no instance. -/
theorem Tallied.append_reject
    (h : Tallied GetMNByCollateral CheckSignature nAdjustedTime votes obj) {obj' : CGovernanceObject}
    (hmap : obj'.mapCurrentMNVotes = assign vote.masternodeOutpoint
      ⟨emplace vote.nVoteSignal {}
        ((obj.mapCurrentMNVotes.lookup vote.masternodeOutpoint).getD {}).mapInstances⟩
      obj.mapCurrentMNVotes)
    (htype : obj'.nObjectType = obj.nObjectType) (hfile : obj'.fileVotes = obj.fileVotes)
    (hknown : (GetMNByCollateral vote.masternodeOutpoint).isSome)
    (h0 : vote.nVoteSignal ≠ VOTE_SIGNAL_NONE) (hmax : ¬vote.nVoteSignal > MAX_SUPPORTED_VOTE_SIGNAL)
    (hrej : vote.rank < ((obj.instanceOf vote.masternodeOutpoint vote.nVoteSignal).getD {}).rank ∨
      vote.isValid GetMNByCollateral CheckSignature nAdjustedTime
        (onlyVotingKeyAllowed obj.nObjectType vote) = false) :
    Tallied GetMNByCollateral CheckSignature nAdjustedTime (votes ++ [vote]) obj' := by
  have hle : counted GetMNByCollateral CheckSignature nAdjustedTime obj.nObjectType
      vote.masternodeOutpoint vote.nVoteSignal vote = true →
      vote.rank ≤ maxRank GetMNByCollateral CheckSignature nAdjustedTime obj.nObjectType votes
        vote.masternodeOutpoint vote.nVoteSignal := by
    intro hc
    rcases hrej with hlt | hinvalid
    · rw [h.instance_eq, tallyInstance_rank] at hlt
      exact hlt.le
    · obtain ⟨hadm, -, -⟩ := (counted_iff ..).mp hc
      rw [(admitted_eq_true _ _ _ _ hadm).2] at hinvalid
      cases hinvalid
  refine ⟨?_, ?_, ?_, fun outpoint eSignal => ?_, fun outpoint eSignal => ?_, ?_⟩
  · rw [hmap]
    exact sorted_assign _ _ h.sorted
  · rw [hmap]
    exact h.sorted_instances_assign (sorted_emplace _ _ (h.sorted_record _))
  · rw [hmap]
    exact h.record_isSome_of_add hknown (by rw [lookup_assign_self]; rfl)
      fun _ ho => lookup_assign_ne _ ho _
  · rw [CGovernanceObject.instanceOf_of_map hmap, hasInstance_append]
    split
    · next ho =>
      subst ho
      rw [CGovernanceObject.instanceOf_emplace_instance]
      split
      · next hs =>
        subst hs
        exact ⟨fun _ => .inr ⟨hknown, h0, hmax, rfl, rfl⟩, fun _ => rfl⟩
      · next hs =>
        rw [h.instance_isSome]
        exact ⟨.inl, fun hi => hi.resolve_right fun hi => hs hi.2.2.2.2.symm⟩
    · next ho =>
      rw [h.instance_isSome]
      exact ⟨.inl, fun hi => hi.resolve_right fun hi => ho hi.2.2.2.1.symm⟩
  · -- no instance changes its value, and no greatest rank changes
    rw [htype, tallyInstance_append_of_le _ _ _ _ hle, ← h.instance_eq,
      CGovernanceObject.instanceOf_of_map hmap]
    split
    · next ho =>
      subst ho
      rw [CGovernanceObject.instanceOf_emplace_instance]
      split
      · next hs =>
        subst hs
        rfl
      · rfl
    · rfl
  · intro w hw
    rw [hfile] at hw
    rw [htype]
    exact ⟨List.mem_append_left _ (h.file_admitted w hw).1, (h.file_admitted w hw).2⟩

/-- An accepted vote becomes the instance of its masternode and signal, which is then that of
the greatest rank, and is filed. -/
theorem Tallied.append_record
    (h : Tallied GetMNByCollateral CheckSignature nAdjustedTime votes obj) {obj' : CGovernanceObject}
    (hmap : obj'.mapCurrentMNVotes = assign vote.masternodeOutpoint
      ⟨assign vote.nVoteSignal ⟨vote.nVoteOutcome,
          ((obj.instanceOf vote.masternodeOutpoint vote.nVoteSignal).getD {}).nTime, vote.nTime⟩
        (emplace vote.nVoteSignal {}
          ((obj.mapCurrentMNVotes.lookup vote.masternodeOutpoint).getD {}).mapInstances)⟩
      obj.mapCurrentMNVotes)
    (htype : obj'.nObjectType = obj.nObjectType)
    (hfile : obj'.fileVotes = obj.fileVotes.addVote GetHash vote)
    (hknown : (GetMNByCollateral vote.masternodeOutpoint).isSome)
    (h0 : vote.nVoteSignal ≠ VOTE_SIGNAL_NONE) (hmax : ¬vote.nVoteSignal > MAX_SUPPORTED_VOTE_SIGNAL)
    (hle : ((obj.instanceOf vote.masternodeOutpoint vote.nVoteSignal).getD {}).rank ≤ vote.rank)
    (hvalid : vote.isValid GetMNByCollateral CheckSignature nAdjustedTime
      (onlyVotingKeyAllowed obj.nObjectType vote) = true) :
    Tallied GetMNByCollateral CheckSignature nAdjustedTime (votes ++ [vote]) obj' := by
  have hadm : admitted GetMNByCollateral CheckSignature nAdjustedTime obj.nObjectType vote = true := by
    simp [admitted, h0, hvalid]
  have hlookup : ∀ eSignal, eSignal ≠ vote.nVoteSignal →
      (assign vote.nVoteSignal ⟨vote.nVoteOutcome,
          ((obj.instanceOf vote.masternodeOutpoint vote.nVoteSignal).getD {}).nTime, vote.nTime⟩
        (emplace vote.nVoteSignal {}
          ((obj.mapCurrentMNVotes.lookup vote.masternodeOutpoint).getD {}).mapInstances)).lookup
        eSignal = obj.instanceOf vote.masternodeOutpoint eSignal := by
    intro eSignal hs
    rw [lookup_assign_ne _ hs, CGovernanceObject.instanceOf_emplace_instance, if_neg hs]
  refine ⟨?_, ?_, ?_, fun outpoint eSignal => ?_, fun outpoint eSignal => ?_, ?_⟩
  · rw [hmap]
    exact sorted_assign _ _ h.sorted
  · rw [hmap]
    exact h.sorted_instances_assign (sorted_assign _ _ (sorted_emplace _ _ (h.sorted_record _)))
  · rw [hmap]
    exact h.record_isSome_of_add hknown (by rw [lookup_assign_self]; rfl)
      fun _ ho => lookup_assign_ne _ ho _
  · rw [CGovernanceObject.instanceOf_of_map hmap, hasInstance_append]
    split
    · next ho =>
      subst ho
      by_cases hs : eSignal = vote.nVoteSignal
      · subst hs
        rw [lookup_assign_self]
        exact ⟨fun _ => .inr ⟨hknown, h0, hmax, rfl, rfl⟩, fun _ => rfl⟩
      · rw [hlookup eSignal hs, h.instance_isSome]
        exact ⟨.inl, fun hi => hi.resolve_right fun hi => hs hi.2.2.2.2.symm⟩
    · next ho =>
      rw [h.instance_isSome]
      exact ⟨.inl, fun hi => hi.resolve_right fun hi => ho hi.2.2.2.1.symm⟩
  · rw [htype, CGovernanceObject.instanceOf_of_map hmap]
    split
    · next ho =>
      subst ho
      by_cases hs : eSignal = vote.nVoteSignal
      · -- the vote's rank is now the greatest, and the time of the instance stays `0`
        subst hs
        have hc : counted GetMNByCollateral CheckSignature nAdjustedTime obj.nObjectType
            vote.masternodeOutpoint vote.nVoteSignal vote = true := (counted_iff ..).mpr
          ⟨hadm, rfl, rfl⟩
        rw [h.instance_eq, tallyInstance_rank] at hle
        rw [lookup_assign_self, Option.getD_some, h.instance_eq]
        unfold tallyInstance
        rw [maxRank_append, if_pos hc, max_eq_right hle]
        rfl
      · rw [hlookup eSignal hs, h.instance_eq]
        exact (tallyInstance_append_of_not_counted (by simp [counted, Ne.symm hs])).symm
    · next ho =>
      rw [h.instance_eq]
      exact (tallyInstance_append_of_not_counted (by simp [counted, Ne.symm ho])).symm
  · intro w hw
    rw [hfile] at hw
    rw [htype]
    rcases CGovernanceObjectVoteFile.mem_addVote GetHash hw with rfl | hw
    · exact ⟨List.mem_append_right _ (List.mem_singleton_self _), hadm⟩
    · exact ⟨List.mem_append_left _ (h.file_admitted w hw).1, (h.file_admitted w hw).2⟩

variable (GetMNByCollateral CheckSignature nAdjustedTime) in
/-- One vote keeps the object tallied by the votes so far and the new one, when the new one's hash
differs from theirs unless its hashed fields are theirs. -/
theorem tallied_processVote (h : Tallied GetMNByCollateral CheckSignature nAdjustedTime votes obj)
    (hhash : ∀ w ∈ votes, GetHash w = GetHash vote → w.hashedFields = vote.hashedFields) :
    Tallied GetMNByCollateral CheckSignature nAdjustedTime (votes ++ [vote])
      (obj.processVote GetHash GetMNByCollateral CheckSignature nAdjustedTime false vote).1 := by
  rcases processVote_cases GetHash GetMNByCollateral CheckSignature nAdjustedTime obj vote with
    ⟨heq, hv | hmn⟩ | ⟨-, hknown, ⟨heq, hsig⟩ | ⟨h0, hmax, ⟨heq, hrej⟩ | ⟨heq, hle, hvalid⟩⟩⟩
  · -- a vote with the hash of a filed vote has that vote's fields, so it adds nothing
    obtain ⟨w, hw, hwh⟩ := List.any_eq_true.mp hv
    obtain ⟨hwmem, hwadm⟩ := h.file_admitted w hw
    have hfields := hhash w hwmem (beq_iff_eq.mp hwh)
    simp only [CGovernanceVote.hashedFields, Prod.mk.injEq] at hfields
    obtain ⟨hmn, -, hsig, hout, htime⟩ := hfields
    have hrank : vote.rank = w.rank := by
      unfold CGovernanceVote.rank
      rw [hout, htime]
    have hwc : counted GetMNByCollateral CheckSignature nAdjustedTime obj.nObjectType
        w.masternodeOutpoint w.nVoteSignal w = true := (counted_iff ..).mpr ⟨hwadm, rfl, rfl⟩
    rw [heq]
    refine h.append_of_redundant (fun _ => ⟨w, hwmem, hmn⟩) (fun _ _ _ => ⟨w, hwmem, hmn, hsig⟩)
      fun _ => ?_
    rw [hrank, ← hmn, ← hsig]
    exact le_maxRank _ _ _ _ hwmem hwc
  · -- an unknown masternode has no record, and none of its votes is valid
    have hunknown : ¬(GetMNByCollateral vote.masternodeOutpoint).isSome := by simp [hmn]
    rw [heq]
    refine h.append_of_redundant (fun hk => absurd hk hunknown) (fun hk => absurd hk hunknown)
      fun hc => absurd ?_ hunknown
    obtain ⟨hadm, -, -⟩ := (counted_iff ..).mp hc
    exact isValid_known _ _ _ (admitted_eq_true _ _ _ _ hadm).2
  · rw [heq]
    exact h.append_emplace hknown hsig
  · rw [CGovernanceObject.lookup_getD_mapInstances] at hrej
    rw [heq]
    exact h.append_reject rfl rfl rfl hknown h0 hmax hrej
  · rw [CGovernanceObject.lookup_getD_mapInstances] at heq hle
    rw [heq]
    exact h.append_record GetHash rfl rfl rfl hknown h0 hmax hle hvalid

variable (GetMNByCollateral CheckSignature nAdjustedTime) in
/-- The run lemma: votes fed one after another keep the object tallied, when no two of them share
a hash without sharing their hashed fields. -/
theorem tallied_processVotes :
    ∀ (vs : List CGovernanceVote) {votes : List CGovernanceVote} {obj : CGovernanceObject},
      Tallied GetMNByCollateral CheckSignature nAdjustedTime votes obj →
      (∀ v ∈ votes ++ vs, ∀ w ∈ votes ++ vs, GetHash v = GetHash w →
        v.hashedFields = w.hashedFields) →
      Tallied GetMNByCollateral CheckSignature nAdjustedTime (votes ++ vs)
        (obj.processVotes GetHash GetMNByCollateral CheckSignature nAdjustedTime false vs)
  | [], votes, obj, h, _ => by simpa [CGovernanceObject.processVotes] using h
  | v :: vs, votes, obj, h, hhash => by
    have hv : v ∈ votes ++ v :: vs := List.mem_append_right _ List.mem_cons_self
    have h' := tallied_processVote GetHash GetMNByCollateral CheckSignature nAdjustedTime h
      fun w hw hwh => hhash w (List.mem_append_left _ hw) v hv hwh
    have hhash' : ∀ v' ∈ votes ++ [v] ++ vs, ∀ w ∈ votes ++ [v] ++ vs, GetHash v' = GetHash w →
        v'.hashedFields = w.hashedFields := by
      simpa only [List.append_assoc, List.singleton_append] using hhash
    rw [CGovernanceObject.processVotes_cons]
    simpa only [List.append_assoc, List.singleton_append] using
      tallied_processVotes vs h' hhash'

variable (GetMNByCollateral CheckSignature nAdjustedTime) in
/-- `ProcessVote` changes the map, the file and the dirty flag, and nothing else. -/
theorem processVote_frame (obj : CGovernanceObject) (vote : CGovernanceVote) :
    ∃ m f d, (obj.processVote GetHash GetMNByCollateral CheckSignature nAdjustedTime false vote).1 =
      { obj with mapCurrentMNVotes := m, fileVotes := f, fDirtyCache := d } := by
  rcases processVote_cases GetHash GetMNByCollateral CheckSignature nAdjustedTime obj vote with
    ⟨heq, -⟩ | ⟨-, -, ⟨heq, -⟩ | ⟨-, -, ⟨heq, -⟩ | ⟨heq, -, -⟩⟩⟩ <;>
  exact ⟨_, _, _, heq⟩

variable (GetMNByCollateral CheckSignature nAdjustedTime) in
theorem processVotes_frame :
    ∀ (votes : List CGovernanceVote) (obj : CGovernanceObject), ∃ m f d,
      obj.processVotes GetHash GetMNByCollateral CheckSignature nAdjustedTime false votes =
        { obj with mapCurrentMNVotes := m, fileVotes := f, fDirtyCache := d }
  | [], obj => ⟨_, _, _, rfl⟩
  | vote :: votes, obj => by
    obtain ⟨m, f, d, h⟩ := processVote_frame GetHash GetMNByCollateral CheckSignature
      nAdjustedTime obj vote
    obtain ⟨m', f', d', h'⟩ := processVotes_frame votes
      (obj.processVote GetHash GetMNByCollateral CheckSignature nAdjustedTime false vote).1
    rw [CGovernanceObject.processVotes_cons, h', h]
    exact ⟨m', f', d', rfl⟩

theorem option_eq_of_isSome_iff_of_getD {α : Type*} {a b : Option α} {d : α}
    (hs : a.isSome ↔ b.isSome) (hv : a.getD d = b.getD d) : a = b := by
  cases a <;> cases b <;> simp_all

/-- What `Tallied` fixes depends only on which votes were fed in: two objects tallied by the same
votes in two orders have the same map. -/
theorem mapCurrentMNVotes_eq_of_tallied {votes₁ votes₂ : List CGovernanceVote}
    {obj₁ obj₂ : CGovernanceObject}
    (h₁ : Tallied GetMNByCollateral CheckSignature nAdjustedTime votes₁ obj₁)
    (h₂ : Tallied GetMNByCollateral CheckSignature nAdjustedTime votes₂ obj₂)
    (hperm : votes₁.Perm votes₂) (htype : obj₁.nObjectType = obj₂.nObjectType) :
    obj₁.mapCurrentMNVotes = obj₂.mapCurrentMNVotes := by
  have hrec : ∀ outpoint, (obj₁.mapCurrentMNVotes.lookup outpoint).isSome ↔
      (obj₂.mapCurrentMNVotes.lookup outpoint).isSome := by
    intro outpoint
    rw [h₁.record_isSome, h₂.record_isSome]
    simp only [HasRecord, hperm.mem_iff]
  have hinst : ∀ outpoint eSignal,
      obj₁.instanceOf outpoint eSignal = obj₂.instanceOf outpoint eSignal := by
    intro outpoint eSignal
    refine option_eq_of_isSome_iff_of_getD (d := {}) ?_ ?_
    · rw [h₁.instance_isSome, h₂.instance_isSome]
      simp only [HasInstance, hperm.mem_iff]
    · rw [h₁.instance_eq, h₂.instance_eq, htype]
      unfold tallyInstance
      rw [maxRank_perm _ _ _ _ hperm]
  refine Sorted.ext h₁.sorted h₂.sorted fun outpoint => ?_
  cases hl₁ : obj₁.mapCurrentMNVotes.lookup outpoint with
  | none =>
    cases hl₂ : obj₂.mapCurrentMNVotes.lookup outpoint with
    | none => rfl
    | some voteRecord₂ => simpa [hl₁, hl₂] using hrec outpoint
  | some voteRecord₁ =>
    cases hl₂ : obj₂.mapCurrentMNVotes.lookup outpoint with
    | none => simpa [hl₁, hl₂] using hrec outpoint
    | some voteRecord₂ =>
      -- the two records have the same instances
      have hinstances : voteRecord₁.mapInstances = voteRecord₂.mapInstances := by
        refine Sorted.ext (h₁.sorted_instances _ _ hl₁) (h₂.sorted_instances _ _ hl₂)
          fun eSignal => ?_
        simpa [CGovernanceObject.instanceOf, hl₁, hl₂] using hinst outpoint eSignal
      rw [show voteRecord₁ = voteRecord₂ from by cases voteRecord₁; cases voteRecord₂; congr]

end Run


/-! ## Convergence -/

/-- Two nodes that feed the same votes to one object with no votes, in any two orders, with rate
checks disabled, end with the same records: for each masternode and signal, the instance of the
greatest of the default instance and the admitted votes by timestamp, then outcome. So they count
the same votes and set the same sentinel flags. -/
theorem governance_votes_converge (GetHash : CGovernanceVote → uint256)
    (GetMNByCollateral : COutPoint → Option uint256)
    (CheckSignature : CGovernanceVote → Bool → Bool) (nAdjustedTime : Int)
    {obj : CGovernanceObject} (hmap : obj.mapCurrentMNVotes = [])
    (hfile : obj.fileVotes.listVotes = []) {votes₁ votes₂ : List CGovernanceVote}
    (hperm : votes₁.Perm votes₂)
    (hhash : ∀ v ∈ votes₁, ∀ w ∈ votes₁, GetHash v = GetHash w → v.hashedFields = w.hashedFields) :
    let obj₁ := obj.processVotes GetHash GetMNByCollateral CheckSignature nAdjustedTime false votes₁
    let obj₂ := obj.processVotes GetHash GetMNByCollateral CheckSignature nAdjustedTime false votes₂
    obj₁.mapCurrentMNVotes = obj₂.mapCurrentMNVotes ∧
      (∀ outpoint eSignal, (obj₁.instanceOf outpoint eSignal).getD {} =
        tallyInstance GetMNByCollateral CheckSignature nAdjustedTime obj.nObjectType votes₁
          outpoint eSignal) ∧
      (∀ eSignal eOutcome,
        obj₁.countMatchingVotes eSignal eOutcome = obj₂.countMatchingVotes eSignal eOutcome) ∧
      ∀ nMnCount nGovernanceMinQuorum nNow,
        let u₁ := obj₁.updateSentinelVariables nMnCount nGovernanceMinQuorum nNow
        let u₂ := obj₂.updateSentinelVariables nMnCount nGovernanceMinQuorum nNow
        u₁.fCachedFunding = u₂.fCachedFunding ∧ u₁.fCachedValid = u₂.fCachedValid ∧
          u₁.fCachedEndorsed = u₂.fCachedEndorsed ∧ u₁.fCachedDelete = u₂.fCachedDelete := by
  intro obj₁ obj₂
  have hhash₂ : ∀ v ∈ votes₂, ∀ w ∈ votes₂, GetHash v = GetHash w →
      v.hashedFields = w.hashedFields := by
    simpa only [hperm.mem_iff] using hhash
  have h₀ := tallied_nil GetMNByCollateral CheckSignature nAdjustedTime hmap hfile
  have h₁ := tallied_processVotes GetHash GetMNByCollateral CheckSignature nAdjustedTime votes₁ h₀
    hhash
  have h₂ := tallied_processVotes GetHash GetMNByCollateral CheckSignature nAdjustedTime votes₂ h₀
    hhash₂
  rw [List.nil_append] at h₁ h₂
  -- both runs change only the map, the file and the dirty flag
  obtain ⟨m₁, f₁, d₁, hobj₁⟩ :=
    processVotes_frame GetHash GetMNByCollateral CheckSignature nAdjustedTime votes₁ obj
  obtain ⟨m₂, f₂, d₂, hobj₂⟩ :=
    processVotes_frame GetHash GetMNByCollateral CheckSignature nAdjustedTime votes₂ obj
  replace hobj₁ : obj₁ = { obj with mapCurrentMNVotes := m₁, fileVotes := f₁, fDirtyCache := d₁ } :=
    hobj₁
  replace hobj₂ : obj₂ = { obj with mapCurrentMNVotes := m₂, fileVotes := f₂, fDirtyCache := d₂ } :=
    hobj₂
  have hmap₁₂ : obj₁.mapCurrentMNVotes = obj₂.mapCurrentMNVotes :=
    mapCurrentMNVotes_eq_of_tallied h₁ h₂ hperm (by rw [hobj₁, hobj₂])
  refine ⟨hmap₁₂, fun outpoint eSignal => ?_, fun eSignal eOutcome => ?_, ?_⟩
  · have htype : obj₁.nObjectType = obj.nObjectType := by rw [hobj₁]
    rw [h₁.instance_eq]
    exact congrArg (tallyInstance GetMNByCollateral CheckSignature nAdjustedTime · votes₁ outpoint
      eSignal) htype
  · unfold CGovernanceObject.countMatchingVotes
    rw [hmap₁₂]
  · intro nMnCount nGovernanceMinQuorum nNow
    dsimp only
    rw [hobj₁, hobj₂] at hmap₁₂ ⊢
    dsimp only at hmap₁₂
    subst hmap₁₂
    unfold CGovernanceObject.updateSentinelVariables
    split <;> exact ⟨rfl, rfl, rfl, rfl⟩

namespace GovernanceFixture

/-- A hash that tells apart votes of one masternode and signal at small times. -/
def voteHash (vote : CGovernanceVote) : uint256 := BitVec.ofInt 256 (4 * vote.nTime + vote.nVoteOutcome)

/-- A proposal with no votes. -/
def proposal : CGovernanceObject :=
  ⟨GOVERNANCE_OBJECT_PROPOSAL, [], {}, false, false, true, false, false, 0⟩

/-- A masternode's `yes` and `no` on funding, at the same time. -/
def yesVote : CGovernanceVote := ⟨VOTE_SIGNAL_FUNDING, ⟨3, 0⟩, 9, VOTE_OUTCOME_YES, 5, []⟩
def noVote : CGovernanceVote := ⟨VOTE_SIGNAL_FUNDING, ⟨3, 0⟩, 9, VOTE_OUTCOME_NO, 5, []⟩

theorem governance_votes_converge_tie :
    (proposal.processVotes voteHash (fun _ => some 0) (fun _ _ => true) 100 false
        [yesVote, noVote]).mapCurrentMNVotes =
      (proposal.processVotes voteHash (fun _ => some 0) (fun _ _ => true) 100 false
        [noVote, yesVote]).mapCurrentMNVotes :=
  (governance_votes_converge voteHash (fun _ => some 0) (fun _ _ => true) 100 rfl rfl
    (List.Perm.swap _ _ _) (by decide)).1

/-- A valid `yes` on funding signed at time `-1`. -/
def earlyVote : CGovernanceVote := ⟨VOTE_SIGNAL_FUNDING, ⟨3, 0⟩, 9, VOTE_OUTCOME_YES, -1, []⟩

/-- The proposal after the early vote. -/
def afterEarlyVote : CGovernanceObject :=
  proposal.processVotes voteHash (fun _ => some 0) (fun _ _ => true) 100 false [earlyVote]

/-- The only vote of the masternode, valid, does not count: the instance stays the default one,
with outcome `VOTE_OUTCOME_NONE`, and no `yes` is counted. -/
theorem negative_time_vote_uncounted :
    afterEarlyVote.instanceOf ⟨3, 0⟩ VOTE_SIGNAL_FUNDING = some {} ∧
      afterEarlyVote.countMatchingVotes VOTE_SIGNAL_FUNDING VOTE_OUTCOME_YES = 0 := by
  decide

end GovernanceFixture

end Emrals
