import Emrals.Primitives
import Emrals.Lib.Machine

/-!
# The chain-lock handler

`CChainLocksHandler` (`src/llmq/quorums_chainlocks.cpp`) keeps the best chain lock it has seen, and
the block index of the best one whose block it knows. `HasChainLock` and `HasConflictingChainLock`
read that block index: they say whether a block is on the locked chain, or conflicts with it, so
that `ConnectBlock` and header acceptance reject conflicting blocks.

The handler is a machine over the events of its interface (`ChainLocksEvent`): a new `CLSIG`, a
block header, the scheduled `CheckActiveState` and `EnforceBestChainLock`. Everything the handler
asks of the rest of the node (the quorum signature check, the block index, the chain tip) comes in
the event.

Every event but `CheckActiveState` keeps a chain lock once one is set: the best height never goes
down and the block index is never cleared (`step_keeps_best`, `run_keeps_best`). `CheckActiveState`
does not. In the source the `TODO` of Dash's spork check stands in its place, and the function
resets the best chain lock, the one with a known block and the block index on every call
(`checkActiveState_resets`). The scheduler calls it every five seconds, and after every new chain
lock, before `EnforceBestChainLock`, so every lock is dropped within seconds of being set.
-/

namespace Emrals

/-- `CChainLockSig`: the height and hash of the locked block. The model reads the signature only
through `VerifyRecoveredSig`, whose answer comes with the event. -/
structure CChainLockSig where
  nHeight : Int := -1
  blockHash : uint256 := 0
  deriving DecidableEq

/-- A `CBlockIndex`: the block's hash and the hashes of its ancestors, its parent first, down to
the genesis block (the `pprev` chain). -/
structure CBlockIndex where
  hash : uint256
  prevHashes : List uint256
  deriving DecidableEq

namespace CBlockIndex

/-- `nHeight`: the number of ancestors. -/
def nHeight (b : CBlockIndex) : Int := b.prevHashes.length

/-- `GetAncestor(height)`, by its hash: none below zero or above the block. -/
def getAncestor (b : CBlockIndex) (height : Int) : Option uint256 :=
  if height < 0 ∨ b.nHeight < height then none
  else if height = b.nHeight then some b.hash
  else b.prevHashes[(b.nHeight - 1 - height).toNat]?

end CBlockIndex

/-- The state of `CChainLocksHandler` that its chain-lock logic reads and writes. -/
structure CChainLocksHandler where
  isEnforced : Bool := false
  isSporkActive : Bool := false
  bestChainLockHash : uint256 := 0
  bestChainLock : CChainLockSig := {}
  bestChainLockWithKnownBlock : CChainLockSig := {}
  bestChainLockBlockIndex : Option CBlockIndex := none
  lastNotifyChainLockBlockIndex : Option CBlockIndex := none
  seenChainLocks : List uint256 := []
  deriving DecidableEq

namespace CChainLocksHandler

/-- `InternalHasChainLock`. -/
def internalHasChainLock (s : CChainLocksHandler) (nHeight : Int) (blockHash : uint256) : Bool :=
  if !s.isEnforced then false else
  match s.bestChainLockBlockIndex with
  | none => false
  | some b =>
    if nHeight > b.nHeight then false
    else if nHeight = b.nHeight then blockHash == b.hash
    else match b.getAncestor nHeight with
      | some a => a == blockHash
      | none => false

/-- `InternalHasConflictingChainLock`; `assert(pAncestor)` fails below height zero. -/
def internalHasConflictingChainLock (s : CChainLocksHandler) (nHeight : Int)
    (blockHash : uint256) : Option Bool :=
  if !s.isEnforced then some false else
  match s.bestChainLockBlockIndex with
  | none => some false
  | some b =>
    if nHeight > b.nHeight then some false
    else if nHeight = b.nHeight then some (blockHash != b.hash)
    else (b.getAncestor nHeight).map (· != blockHash)

/-- The part of `ProcessNewChainLock` after the signature check: a lock that conflicts with the
best one is dropped; otherwise it becomes the best one, and, when its block is known at its height,
the best one with a known block. `blockIt` is what `BlockIndex().find(clsig.blockHash)` finds. -/
def acceptChainLock (s : CChainLocksHandler) (clsig : CChainLockSig) (hash : uint256)
    (blockIt : Option CBlockIndex) : Option CChainLocksHandler := do
  let conflicting ← s.internalHasConflictingChainLock clsig.nHeight clsig.blockHash
  if conflicting then return s
  let s := { s with bestChainLockHash := hash, bestChainLock := clsig }
  match blockIt with
  | none => return s
  | some b =>
    if b.nHeight ≠ clsig.nHeight then return s
    return { s with bestChainLockWithKnownBlock := clsig, bestChainLockBlockIndex := some b }

/-- `ProcessNewChainLock`: a lock seen before, or not higher than the best one, is dropped, and so
is one whose recovered signature `VerifyRecoveredSig` rejects (`sigValid`). -/
def processNewChainLock (s : CChainLocksHandler) (clsig : CChainLockSig) (hash : uint256)
    (sigValid : Bool) (blockIt : Option CBlockIndex) : Option CChainLocksHandler :=
  if hash ∈ s.seenChainLocks then some s else
  let s := { s with seenChainLocks := hash :: s.seenChainLocks }
  if s.bestChainLock.nHeight ≠ -1 ∧ clsig.nHeight ≤ s.bestChainLock.nHeight then some s
  else if !sigValid then some s
  else s.acceptChainLock clsig hash blockIt

/-- `AcceptedBlockHeader`: the header of the best lock's block, at its height, becomes the best
lock's block index. -/
def acceptedBlockHeader (s : CChainLocksHandler) (pindexNew : CBlockIndex) : CChainLocksHandler :=
  if pindexNew.hash = s.bestChainLock.blockHash ∧ s.bestChainLock.nHeight = pindexNew.nHeight then
    { s with bestChainLockWithKnownBlock := s.bestChainLock,
             bestChainLockBlockIndex := some pindexNew }
  else s

/-- `CheckActiveState`: enforcement follows the tip's height alone, and the best chain lock, the
one with a known block and both block indexes are reset. -/
def checkActiveState (s : CChainLocksHandler) (tipHeight nLLMQActivationHeight : Int)
    (sporkActive : Bool) : CChainLocksHandler :=
  { s with
    isEnforced := decide (tipHeight > nLLMQActivationHeight)
    isSporkActive := sporkActive
    bestChainLockHash := 0
    bestChainLock := {}
    bestChainLockWithKnownBlock := {}
    bestChainLockBlockIndex := none
    lastNotifyChainLockBlockIndex := none }

/-- What `EnforceBestChainLock` writes in the handler: after the chain is switched to the locked
block, the block index is recorded as notified once the tip descends from it (`tipAncestor` is
`ChainActive().Tip()->GetAncestor` by hash). -/
def enforceBestChainLock (s : CChainLocksHandler) (tipAncestor : Int → Option uint256) :
    CChainLocksHandler :=
  if !s.isEnforced then s else
  match s.bestChainLockBlockIndex with
  | none => s
  | some b =>
    if s.lastNotifyChainLockBlockIndex ≠ some b ∧ tipAncestor b.nHeight = some b.hash then
      { s with lastNotifyChainLockBlockIndex := some b }
    else s

end CChainLocksHandler

/-- The events of the handler, each with what the rest of the node answers it. -/
inductive ChainLocksEvent
  /-- A `CLSIG` from a peer or from a recovered signature. -/
  | processNewChainLock (clsig : CChainLockSig) (hash : uint256) (sigValid : Bool)
      (blockIt : Option CBlockIndex)
  | acceptedBlockHeader (pindexNew : CBlockIndex)
  /-- The scheduled `CheckActiveState`, at the chain tip's height. -/
  | checkActiveState (tipHeight : Int) (sporkActive : Bool)
  | enforceBestChainLock (tipAncestor : Int → Option uint256)

namespace ChainLocksEvent

/-- The event is a `CheckActiveState`. -/
def isCheckActiveState : ChainLocksEvent → Bool
  | checkActiveState _ _ => true
  | _ => false

end ChainLocksEvent

namespace CChainLocksHandler

/-- One event of the handler, with the network's `nLLMQActivationHeight`. -/
def step (nLLMQActivationHeight : Int) (s : CChainLocksHandler) :
    ChainLocksEvent → Option CChainLocksHandler
  | .processNewChainLock clsig hash sigValid blockIt =>
    s.processNewChainLock clsig hash sigValid blockIt
  | .acceptedBlockHeader pindexNew => some (s.acceptedBlockHeader pindexNew)
  | .checkActiveState tipHeight sporkActive =>
    some (s.checkActiveState tipHeight nLLMQActivationHeight sporkActive)
  | .enforceBestChainLock tipAncestor => some (s.enforceBestChainLock tipAncestor)

/-! ## What the events keep -/

/-- From `s` to `s'`, a chain lock once set is kept: the best height does not go down, and the
block index is not cleared. -/
def KeepsBest (s s' : CChainLocksHandler) : Prop :=
  (0 ≤ s.bestChainLock.nHeight → s.bestChainLock.nHeight ≤ s'.bestChainLock.nHeight) ∧
    (s.bestChainLockBlockIndex.isSome → s'.bestChainLockBlockIndex.isSome)

theorem KeepsBest.refl (s : CChainLocksHandler) : KeepsBest s s :=
  ⟨fun _ => Int.le_refl _, id⟩

theorem KeepsBest.trans {s₁ s₂ s₃ : CChainLocksHandler} (h₁ : KeepsBest s₁ s₂)
    (h₂ : KeepsBest s₂ s₃) : KeepsBest s₁ s₃ :=
  ⟨fun h => Int.le_trans (h₁.1 h) (h₂.1 (Int.le_trans h (h₁.1 h))), fun h => h₂.2 (h₁.2 h)⟩

/-- A lock the handler accepts becomes the best one, and its block index, if set, is set. -/
theorem acceptChainLock_eq_some {s s' : CChainLocksHandler} {clsig : CChainLockSig}
    {hash : uint256} {blockIt : Option CBlockIndex}
    (h : s.acceptChainLock clsig hash blockIt = some s') :
    s' = s ∨ s'.bestChainLock = clsig ∧
      (s'.bestChainLockBlockIndex = s.bestChainLockBlockIndex ∨
        s'.bestChainLockBlockIndex.isSome) := by
  unfold acceptChainLock at h
  obtain ⟨conflicting, -, h⟩ := Option.bind_eq_some_iff.1 h
  split at h
  · exact .inl (Option.some.inj h).symm
  · split at h
    · exact .inr ⟨by cases h; rfl, .inl (by cases h; rfl)⟩
    · split at h
      · exact .inr ⟨by cases h; rfl, .inl (by cases h; rfl)⟩
      · exact .inr ⟨by cases h; rfl, .inr (by cases h; rfl)⟩

theorem keepsBest_processNewChainLock {s s' : CChainLocksHandler} {clsig : CChainLockSig}
    {hash : uint256} {sigValid : Bool} {blockIt : Option CBlockIndex}
    (h : s.processNewChainLock clsig hash sigValid blockIt = some s') : KeepsBest s s' := by
  unfold processNewChainLock at h
  split at h
  · cases h
    exact KeepsBest.refl s
  dsimp only at h
  split at h
  · cases h
    exact KeepsBest.refl _
  · next hold =>
    split at h
    · cases h
      exact KeepsBest.refl _
    · -- a lock above the best one, or the first one
      rcases acceptChainLock_eq_some h with rfl | ⟨hbest, hidx⟩
      · exact KeepsBest.refl _
      · refine ⟨fun hn => ?_, fun hs => ?_⟩
        · rw [hbest]
          omega
        · rcases hidx with hidx | hidx
          · rw [hidx]
            exact hs
          · exact hidx

theorem keepsBest_acceptedBlockHeader (s : CChainLocksHandler) (pindexNew : CBlockIndex) :
    KeepsBest s (s.acceptedBlockHeader pindexNew) := by
  unfold acceptedBlockHeader
  split
  · exact ⟨fun _ => Int.le_refl _, fun _ => rfl⟩
  · exact KeepsBest.refl s

theorem keepsBest_enforceBestChainLock (s : CChainLocksHandler)
    (tipAncestor : Int → Option uint256) : KeepsBest s (s.enforceBestChainLock tipAncestor) := by
  unfold enforceBestChainLock
  split
  · exact KeepsBest.refl s
  · split
    · exact KeepsBest.refl s
    · split
      · exact ⟨fun _ => Int.le_refl _, id⟩
      · exact KeepsBest.refl s

/-- Every event but `CheckActiveState` keeps a chain lock once set. -/
theorem step_keeps_best {nLLMQActivationHeight : Int} {s s' : CChainLocksHandler}
    {e : ChainLocksEvent} (he : e.isCheckActiveState = false)
    (h : step nLLMQActivationHeight s e = some s') : KeepsBest s s' := by
  cases e with
  | processNewChainLock clsig hash sigValid blockIt => exact keepsBest_processNewChainLock h
  | acceptedBlockHeader pindexNew =>
    cases h
    exact keepsBest_acceptedBlockHeader s pindexNew
  | checkActiveState tipHeight sporkActive => cases he
  | enforceBestChainLock tipAncestor =>
    cases h
    exact keepsBest_enforceBestChainLock s tipAncestor

/-- Over a run with no `CheckActiveState`, a chain lock once set is kept. -/
theorem run_keeps_best {nLLMQActivationHeight : Int} {es : List ChainLocksEvent}
    {s t : CChainLocksHandler} (hes : ∀ e ∈ es, e.isCheckActiveState = false)
    (h : Machine.run (step nLLMQActivationHeight) s es = some t) : KeepsBest s t :=
  Machine.run_inv (P := KeepsBest s) (fun _ _ _ he hs hstep => hs.trans (step_keeps_best he hstep))
    hes (KeepsBest.refl s) h

end CChainLocksHandler

/-! ## A chain lock dropped by the scheduled `CheckActiveState` -/

namespace ChainLocksFixture

open CChainLocksHandler

/-- A block at height 5, hash 7, on the chain 2, 3, 4, 5, 6 below it. -/
def blockB : CBlockIndex := { hash := 7, prevHashes := [6, 5, 4, 3, 2] }

/-- A handler enforcing chain locks, with none yet. -/
def enforced : CChainLocksHandler := { isEnforced := true, isSporkActive := true }

/-- A validly signed `CLSIG` for `blockB`, whose header is known. -/
def clsigEvent : ChainLocksEvent :=
  .processNewChainLock { nHeight := 5, blockHash := 7 } 70 true (some blockB)

/-- The task `ProcessNewChainLock` schedules, at a tip of height 100 past activation at 10. -/
def scheduledTask : List ChainLocksEvent :=
  [.checkActiveState 100 true, .enforceBestChainLock fun h => blockB.getAncestor h]

/-- The lock on `blockB` is set, so block 8 at height 5 conflicts with it; after the task the
handler still enforces chain locks, but holds none: the best height went from 5 to -1 and the block
index to null, `blockB` has no chain lock and block 8 no conflicting one. -/
theorem scheduled_check_drops_chain_lock :
    ∃ s₁ s₂, Machine.run (step 10) enforced [clsigEvent] = some s₁ ∧
      Machine.run (step 10) s₁ scheduledTask = some s₂ ∧
      s₁.bestChainLock.nHeight = 5 ∧ s₁.internalHasChainLock 5 7 = true ∧
      s₁.internalHasConflictingChainLock 5 8 = some true ∧
      s₂.isEnforced = true ∧ s₂.bestChainLock.nHeight = -1 ∧ s₂.bestChainLockBlockIndex = none ∧
      s₂.internalHasChainLock 5 7 = false ∧ s₂.internalHasConflictingChainLock 5 8 = some false :=
  ⟨_, _, rfl, rfl, by decide, by decide, by decide, by decide, by decide, by decide, by decide,
    by decide⟩

/-- A run that enforces the lock on `blockB` and receives its `CLSIG` again. -/
def enforceRun : List ChainLocksEvent :=
  [.enforceBestChainLock fun h => blockB.getAncestor h, clsigEvent]

/-- After the lock on `blockB`, the run, with no `CheckActiveState`, keeps it. -/
theorem enforce_run_keeps_lock :
    ∃ s₁ t, Machine.run (step 10) enforced [clsigEvent] = some s₁ ∧
      Machine.run (step 10) s₁ enforceRun = some t ∧ s₁.bestChainLock.nHeight = 5 ∧
      KeepsBest s₁ t :=
  ⟨_, _, rfl, rfl, by decide, @run_keeps_best 10 enforceRun _ _ (by decide) rfl⟩

end ChainLocksFixture

end Emrals
