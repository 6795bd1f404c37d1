import Mathlib
import Emrals.Chain.VersionBits

/-!
# Deployments and the block version

`VersionBitsConditionChecker` (`src/versionbits.cpp:168-186`) is the threshold checker of a BIP9
deployment of `Consensus::Params`: it reads the deployment's start time and timeout, the miner
confirmation window and the activation threshold, and a block signals the deployment when its
version has the top bits `001` and the deployment's bit set. `ComputeBlockVersion`
(`src/validation.cpp:1699-1712`) builds the version of a new block from the top bits and the bits of
the deployments that are `STARTED` or `LOCKED_IN`, querying each state through `versionbitscache`.

Two properties carry what versionbits is for. A deployment is locked in only by signals
(`getStateFor_lockedIn`): `GetStateFor` answers `LOCKED_IN` or `ACTIVE` only where an earlier period
of the chain, ended before the timeout, had the threshold of signalling blocks. And the version
`ComputeBlockVersion` gives signals exactly the deployments in their signalling states
(`computeBlockVersion_signals`), when the deployments' bits are distinct and below the top bits.

`UpdateTip` (`src/validation.cpp:2433-2470`) warns of unknown rules through a
`WarningBitsConditionChecker` for each bit, whose blocks signal a bit that the version expected
after their parent does not set, and of the recent blocks with unexpected versions. On a chain
whose blocks carry the versions `ComputeBlockVersion` gives, as `CreateNewBlock` sets them, neither
warning is ever raised (`updateTip_no_warnings`): lock-in needs signals, and there are none.
-/

namespace Emrals

open ThresholdState

/-! ## Lock-in needs a period of signals -/

namespace ThresholdConditionChecker

section LockIn
variable {B : Type*} {c : ThresholdConditionChecker B} {T : BlockTree B} {nTime : B → Int}

/-- From a state below `LOCKED_IN`, BIP9's transition reaches `LOCKED_IN` or `ACTIVE` only from
`STARTED`, before the timeout, with the threshold of signalling blocks in the period. -/
theorem bip9Step_lockedIn {b : B} {s : ThresholdState} (hs : ¬ LOCKED_IN ≤ s)
    (h : LOCKED_IN ≤ c.bip9Step T nTime b s) :
    s = STARTED ∧ T.getMedianTimePast nTime b < c.EndTime ∧
      c.Threshold ≤ ((T.lastBlocks b c.Period.toNat).countP c.Condition : Int) := by
  cases s with
  | DEFINED =>
    rw [bip9Step] at h
    split_ifs at h <;> exact absurd h (by decide)
  | STARTED =>
    rw [bip9Step] at h
    split_ifs at h with hend hthr
    · exact absurd h (by decide)
    · exact ⟨rfl, by omega, hthr⟩
    · exact absurd h (by decide)
  | LOCKED_IN | ACTIVE => exact absurd (by decide) hs
  | FAILED =>
    rw [bip9Step] at h
    exact absurd h (by decide)

/-- BIP9's state reaches `LOCKED_IN` only through a period, whole periods down, that ended before
the timeout with the threshold of signalling blocks: by induction on the height, as `ACTIVE` comes
only from `LOCKED_IN`. -/
theorem bip9State_lockedIn : ∀ n (b : B), T.nHeight b = n →
    LOCKED_IN ≤ c.bip9State T nTime (some b) →
    ∃ e j, T.ancestorAt b (j * c.Period.toNat) = some e ∧
      T.getMedianTimePast nTime e < c.EndTime ∧
      c.Threshold ≤ ((T.lastBlocks e c.Period.toNat).countP c.Condition : Int) := by
  intro n
  induction n using Nat.strong_induction_on with
  | _ n ih =>
    intro b hb h
    rw [bip9State_some] at h
    by_cases hprev : LOCKED_IN ≤ c.bip9State T nTime (T.ancestorAt b c.Period.toNat)
    · -- locked in already a period down
      cases ha : T.ancestorAt b c.Period.toNat with
      | none =>
        rw [ha, bip9State_none] at hprev
        exact absurd hprev (by decide)
      | some a =>
        rw [ha] at hprev
        have hh := BlockTree.nHeight_ancestorAt ha
        have := c.one_le_period
        obtain ⟨e, j, he, hmtp, hthr⟩ := ih (T.nHeight a) (by omega) a rfl hprev
        refine ⟨e, j + 1, ?_, hmtp, hthr⟩
        rw [Nat.succ_mul, Nat.add_comm, BlockTree.ancestorAt_add, ha, Option.bind_some, he]
    · -- the transition at `b` itself locks in
      obtain ⟨-, hmtp, hthr⟩ := bip9Step_lockedIn hprev h
      exact ⟨b, 0, by rw [Nat.zero_mul]; rfl, hmtp, hthr⟩

variable [DecidableEq B] {cache : ThresholdConditionCache B}

/-- With skip pointers set by `BuildSkip`, block times above the median time past, a start not
after the timeout and a deployment not always active, `GetStateFor` on a sound cache answers
`LOCKED_IN` or `ACTIVE` only where an earlier period, ending at the last block of a period below
`pindexPrev` and before the timeout, had the threshold of signalling blocks. -/
theorem getStateFor_lockedIn (hT : T.SkipsBuilt) (hmtp : T.TimeAboveMedian nTime)
    (hbegin : c.BeginTime ≤ c.EndTime) (hactive : c.BeginTime ≠ ALWAYS_ACTIVE)
    (hc : c.CacheSound T nTime cache) (pindexPrev : Option B) :
    ∃ s cache', c.getStateFor T nTime pindexPrev cache = some (s, cache') ∧
      c.CacheSound T nTime cache' ∧
      (LOCKED_IN ≤ s → ∃ p e k, pindexPrev = some p ∧ T.ancestorAt p k = some e ∧
        (T.nHeight e + 1) % c.Period.toNat = 0 ∧ T.getMedianTimePast nTime e < c.EndTime ∧
        c.Threshold ≤ ((T.lastBlocks e c.Period.toNat).countP c.Condition : Int)) := by
  obtain ⟨cache', hget, hc'⟩ := getStateFor_spec hT hmtp hbegin hactive hc pindexPrev
  refine ⟨_, cache', hget, hc', fun h => ?_⟩
  rw [bip9StateFor] at h
  cases pindexPrev with
  | none =>
    rw [Option.bind_none, bip9State_none] at h
    exact absurd h (by decide)
  | some p =>
    rw [Option.bind_some] at h
    cases hq : T.ancestorAt p ((T.nHeight p + 1) % c.Period.toNat) with
    | none =>
      rw [hq, bip9State_none] at h
      exact absurd h (by decide)
    | some b =>
      rw [hq] at h
      obtain ⟨e, j, he, hmtp', hthr⟩ := bip9State_lockedIn _ b rfl h
      have hend : (T.nHeight b + 1) % c.Period.toNat = 0 := isPeriodEnd_endOfPrevPeriod p b hq
      refine ⟨p, e, (T.nHeight p + 1) % c.Period.toNat + j * c.Period.toNat, rfl, ?_,
        isPeriodEnd_ancestorAt_mul hend j e he, hmtp', hthr⟩
      rw [BlockTree.ancestorAt_add, hq, Option.bind_some, he]

end LockIn

end ThresholdConditionChecker

/-! ## Deployments -/

/-- `VERSIONBITS_LAST_OLD_BLOCK_VERSION`. -/
def VERSIONBITS_LAST_OLD_BLOCK_VERSION : BitVec 32 := 4#32

/-- `VERSIONBITS_TOP_BITS`. -/
def VERSIONBITS_TOP_BITS : BitVec 32 := 0x20000000#32

/-- `VERSIONBITS_TOP_MASK`. -/
def VERSIONBITS_TOP_MASK : BitVec 32 := 0xE0000000#32

/-- `VERSIONBITS_NUM_BITS`. -/
def VERSIONBITS_NUM_BITS : Nat := 29

/-- `Consensus::DeploymentPos`, below `MAX_VERSION_BITS_DEPLOYMENTS`. -/
inductive DeploymentPos
  | DEPLOYMENT_TESTDUMMY
  | DEPLOYMENT_CSV
  | DEPLOYMENT_SEGWIT
  deriving DecidableEq, Repr

/-- The positions `0 … MAX_VERSION_BITS_DEPLOYMENTS - 1`, in order. -/
def DeploymentPos.all : List DeploymentPos :=
  [.DEPLOYMENT_TESTDUMMY, .DEPLOYMENT_CSV, .DEPLOYMENT_SEGWIT]

theorem DeploymentPos.mem_all (pos : DeploymentPos) : pos ∈ DeploymentPos.all := by
  cases pos <;> decide

/-- `Consensus::BIP9Deployment`. -/
structure BIP9Deployment where
  bit : Nat
  nStartTime : Int
  nTimeout : Int

/-- `Consensus::BIP9Deployment::NO_TIMEOUT`, the greatest `int64_t`. -/
def NO_TIMEOUT : Int := 9223372036854775807

/-- The fields of `Consensus::Params` that versionbits reads; the window is positive on every
chain. -/
structure VersionBitsParams where
  vDeployments : DeploymentPos → BIP9Deployment
  nRuleChangeActivationThreshold : Nat
  nMinerConfirmationWindow : Nat
  nMinerConfirmationWindow_pos : 0 < nMinerConfirmationWindow

section Checker
variable (params : VersionBitsParams)

/-- `VersionBitsMask` and `VersionBitsConditionChecker::Mask`: `((uint32_t)1) << bit`. -/
def versionBitsMask (pos : DeploymentPos) : BitVec 32 := 1#32 <<< (params.vDeployments pos).bit

/-- `VersionBitsConditionChecker::Condition`, of a block's version. -/
def versionBitsCondition (pos : DeploymentPos) (nVersion : BitVec 32) : Bool :=
  (nVersion &&& VERSIONBITS_TOP_MASK) == VERSIONBITS_TOP_BITS &&
    (nVersion &&& versionBitsMask params pos) != 0#32

/-- `VersionBitsConditionChecker(pos)`, the blocks' versions read through `blockVersion`. -/
def versionBitsConditionChecker {B : Type*} (blockVersion : B → BitVec 32) (pos : DeploymentPos) :
    ThresholdConditionChecker B where
  Condition b := versionBitsCondition params pos (blockVersion b)
  BeginTime := (params.vDeployments pos).nStartTime
  EndTime := (params.vDeployments pos).nTimeout
  Period := params.nMinerConfirmationWindow
  Threshold := params.nRuleChangeActivationThreshold
  Period_pos := by
    have := params.nMinerConfirmationWindow_pos
    omega

end Checker

/-- `VersionBitsCache`: a threshold cache for each deployment. -/
structure VersionBitsCache (B : Type*) where
  caches : DeploymentPos → ThresholdConditionCache B

/-- `VersionBitsCache::Clear`. -/
def VersionBitsCache.clear {B : Type*} : VersionBitsCache B := ⟨fun _ _ => none⟩

section Model
variable {B : Type*} [DecidableEq B] (T : BlockTree B) (nTime : B → Int)
  (blockVersion : B → BitVec 32) (params : VersionBitsParams)

/-- `VersionBitsState`, with the cache it leaves. -/
def versionBitsState (pindexPrev : Option B) (pos : DeploymentPos) (cache : VersionBitsCache B) :
    Option (ThresholdState × VersionBitsCache B) :=
  ((versionBitsConditionChecker params blockVersion pos).getStateFor T nTime pindexPrev
    (cache.caches pos)).map fun (state, c) => (state, ⟨Function.update cache.caches pos c⟩)

/-- `VersionBitsStatistics`. -/
def versionBitsStatistics (pindexPrev : Option B) (pos : DeploymentPos) :
    Option ThresholdConditionChecker.BIP9Stats :=
  (versionBitsConditionChecker params blockVersion pos).getStateStatisticsFor T pindexPrev

/-- `VersionBitsStateSinceHeight`, with the cache it leaves. -/
def versionBitsStateSinceHeight (pindexPrev : Option B) (pos : DeploymentPos)
    (cache : VersionBitsCache B) : Option (Int × VersionBitsCache B) :=
  ((versionBitsConditionChecker params blockVersion pos).getStateSinceHeightFor T nTime pindexPrev
    (cache.caches pos)).map fun (height, c) => (height, ⟨Function.update cache.caches pos c⟩)

/-- The loop `for (int i = 0; i < MAX_VERSION_BITS_DEPLOYMENTS; i++)` of `ComputeBlockVersion`
over the deployments still to query. -/
def computeBlockVersionLoop (pindexPrev : Option B) :
    List DeploymentPos → BitVec 32 → VersionBitsCache B → Option (BitVec 32 × VersionBitsCache B)
  | [], nVersion, cache => some (nVersion, cache)
  | i :: positions, nVersion, cache =>
    (versionBitsState T nTime blockVersion params pindexPrev i cache).bind fun (state, cache) =>
      computeBlockVersionLoop pindexPrev positions
        (if state = LOCKED_IN ∨ state = STARTED then nVersion ||| versionBitsMask params i
          else nVersion) cache

/-- `ComputeBlockVersion`, with the `versionbitscache` it leaves. -/
def computeBlockVersion (pindexPrev : Option B) (cache : VersionBitsCache B) :
    Option (BitVec 32 × VersionBitsCache B) :=
  computeBlockVersionLoop T nTime blockVersion params pindexPrev DeploymentPos.all
    VERSIONBITS_TOP_BITS cache

/-- The version `ComputeBlockVersion` gives after `pindexPrev`, read at a cleared cache: on sound
caches it gives the same (`computeBlockVersion_eq_expected`). -/
def expectedVersion (pindexPrev : Option B) : BitVec 32 :=
  ((computeBlockVersion T nTime blockVersion params pindexPrev VersionBitsCache.clear).map
    Prod.fst).getD 0#32

/-- `WarningBitsConditionChecker(bit)`: a block signals an unknown rule at `bit` when its version has
the top bits and sets `bit`, and the version `ComputeBlockVersion` gives after its parent does not.
`EndTime` is `std::numeric_limits<int64_t>::max()`. -/
def warningBitsConditionChecker (bit : Nat) : ThresholdConditionChecker B where
  Condition pindex := (blockVersion pindex &&& VERSIONBITS_TOP_MASK) == VERSIONBITS_TOP_BITS &&
    ((blockVersion pindex >>> bit) &&& 1#32) != 0#32 &&
    ((expectedVersion T nTime blockVersion params (T.pprev pindex) >>> bit) &&& 1#32) == 0#32
  BeginTime := 0
  EndTime := NO_TIMEOUT
  Period := params.nMinerConfirmationWindow
  Threshold := params.nRuleChangeActivationThreshold
  Period_pos := by
    have := params.nMinerConfirmationWindow_pos
    omega

/-- The loop `for (int bit = 0; bit < VERSIONBITS_NUM_BITS; bit++)` of `UpdateTip`: the bits whose
warning state is `ACTIVE` or `LOCKED_IN` (unknown new rules activated), with their states. -/
def unknownRulesLoop (pindex : B) : List Nat → (Nat → ThresholdConditionCache B) →
    Option (List (Nat × ThresholdState) × (Nat → ThresholdConditionCache B))
  | [], warningcache => some ([], warningcache)
  | bit :: bits, warningcache =>
    ((warningBitsConditionChecker T nTime blockVersion params bit).getStateFor T nTime (some pindex)
      (warningcache bit)).bind fun (state, c) =>
      (unknownRulesLoop pindex bits (Function.update warningcache bit c)).map
        fun (warnings, warningcache) =>
          (if state = ACTIVE ∨ state = LOCKED_IN then (bit, state) :: warnings else warnings,
            warningcache)

/-- The loop `for (int i = 0; i < 100 && pindex != nullptr; i++)` of `UpdateTip`: the count of
blocks whose version is past `VERSIONBITS_LAST_OLD_BLOCK_VERSION` and sets a bit that the version
expected after their parent does not. -/
def countUpgradedLoop :
    Nat → Option B → Nat → VersionBitsCache B → Option (Nat × VersionBitsCache B)
  | 0, _, nUpgraded, cache => some (nUpgraded, cache)
  | _ + 1, none, nUpgraded, cache => some (nUpgraded, cache)
  | i + 1, some pindex, nUpgraded, cache =>
    (computeBlockVersion T nTime blockVersion params (T.pprev pindex) cache).bind
      fun (nExpectedVersion, cache) =>
        countUpgradedLoop i (T.pprev pindex)
          (if VERSIONBITS_LAST_OLD_BLOCK_VERSION.slt (blockVersion pindex) &&
              (blockVersion pindex &&& ~~~nExpectedVersion) != 0#32
            then nUpgraded + 1 else nUpgraded) cache

/-- The warning checks of `UpdateTip` at a new tip out of initial block download: the unknown rules
activated or locked in, and the count of unexpected versions among the last 100 blocks. -/
def updateTip (pindexNew : B) (warningcache : Nat → ThresholdConditionCache B)
    (cache : VersionBitsCache B) :
    Option (List (Nat × ThresholdState) × Nat × (Nat → ThresholdConditionCache B) ×
      VersionBitsCache B) :=
  (unknownRulesLoop T nTime blockVersion params pindexNew (List.range VERSIONBITS_NUM_BITS)
      warningcache).bind fun (warnings, warningcache) =>
    (countUpgradedLoop T nTime blockVersion params 100 (some pindexNew) 0 cache).map
      fun (nUpgraded, cache) => (warnings, nUpgraded, warningcache, cache)

end Model

/-! ## The state of a deployment -/

section Spec
variable {B : Type*} (T : BlockTree B) (nTime : B → Int) (blockVersion : B → BitVec 32)
  (params : VersionBitsParams)

/-- BIP9's state of a deployment for the block after `pindexPrev`; an always active deployment is
`ACTIVE` throughout. -/
def deploymentState (pindexPrev : Option B) (pos : DeploymentPos) : ThresholdState :=
  if (params.vDeployments pos).nStartTime = ALWAYS_ACTIVE then ACTIVE
  else (versionBitsConditionChecker params blockVersion pos).bip9StateFor T nTime pindexPrev

/-- Every deployment's cache holds BIP9's states. -/
def VersionBitsCache.Sound (cache : VersionBitsCache B) : Prop :=
  ∀ pos, (versionBitsConditionChecker params blockVersion pos).CacheSound T nTime (cache.caches pos)

end Spec

section Queries
variable {B : Type*} [DecidableEq B] {T : BlockTree B} {nTime : B → Int}
  {blockVersion : B → BitVec 32} {params : VersionBitsParams}

omit [DecidableEq B] in
theorem VersionBitsCache.sound_clear :
    VersionBitsCache.clear.Sound T nTime blockVersion params :=
  fun _ => ThresholdConditionChecker.cacheSound_empty

/-- With skip pointers set by `BuildSkip`, block times above the median time past and every start
not after its timeout, `VersionBitsState` on sound caches answers the deployment's state and keeps
the caches sound. -/
theorem versionBitsState_spec (hT : T.SkipsBuilt) (hmtp : T.TimeAboveMedian nTime)
    (hstart : ∀ pos, (params.vDeployments pos).nStartTime ≤ (params.vDeployments pos).nTimeout)
    {cache : VersionBitsCache B} (hc : cache.Sound T nTime blockVersion params)
    (pindexPrev : Option B) (pos : DeploymentPos) :
    ∃ cache', versionBitsState T nTime blockVersion params pindexPrev pos cache =
      some (deploymentState T nTime blockVersion params pindexPrev pos, cache') ∧
      cache'.Sound T nTime blockVersion params := by
  by_cases hactive : (params.vDeployments pos).nStartTime = ALWAYS_ACTIVE
  · -- an always active deployment is answered without the cache
    refine ⟨cache, ?_, hc⟩
    have hget : (versionBitsConditionChecker params blockVersion pos).getStateFor T nTime
        pindexPrev (cache.caches pos) = some (ACTIVE, cache.caches pos) := by
      rw [ThresholdConditionChecker.getStateFor,
        if_pos (show (versionBitsConditionChecker params blockVersion pos).BeginTime = ALWAYS_ACTIVE
          from hactive)]
    rw [versionBitsState, hget, Option.map_some, deploymentState, if_pos hactive]
    dsimp only
    rw [Function.update_eq_self]
  · obtain ⟨c', hget, hc'⟩ := ThresholdConditionChecker.getStateFor_spec hT hmtp (hstart pos)
      hactive (hc pos) pindexPrev
    refine ⟨⟨Function.update cache.caches pos c'⟩, ?_, fun pos' => ?_⟩
    · rw [versionBitsState, hget, Option.map_some, deploymentState, if_neg hactive]
    · -- only the queried deployment's cache changes
      dsimp only
      by_cases hpos : pos' = pos
      · subst hpos
        rw [Function.update_self]
        exact hc'
      · rw [Function.update_of_ne hpos]
        exact hc pos'

end Queries

/-! ## The version of a new block -/

section Bits

theorem versionBitsMask_eq_twoPow (params : VersionBitsParams) (pos : DeploymentPos) :
    versionBitsMask params pos = BitVec.twoPow 32 (params.vDeployments pos).bit := by
  rw [versionBitsMask, BitVec.twoPow_eq]

theorem getLsbD_versionBitsMask (params : VersionBitsParams) (pos : DeploymentPos) (i : Nat) :
    (versionBitsMask params pos).getLsbD i =
      (decide ((params.vDeployments pos).bit < 32) && decide ((params.vDeployments pos).bit = i)) := by
  rw [versionBitsMask_eq_twoPow, BitVec.getLsbD_twoPow]

theorem getLsbD_TOP_BITS (i : Nat) : VERSIONBITS_TOP_BITS.getLsbD i = decide (29 = i) := by
  rw [show VERSIONBITS_TOP_BITS = BitVec.twoPow 32 29 by decide, BitVec.getLsbD_twoPow]
  simp

theorem getLsbD_TOP_MASK {i : Nat} (hi : i < 32) : VERSIONBITS_TOP_MASK.getLsbD i = decide (29 ≤ i) := by
  rw [show VERSIONBITS_TOP_MASK =
      BitVec.twoPow 32 29 ||| BitVec.twoPow 32 30 ||| BitVec.twoPow 32 31 by decide]
  simp only [BitVec.getLsbD_or, BitVec.getLsbD_twoPow]
  by_cases h : 29 ≤ i <;> simp [h] <;> omega

/-- A version signals a bit below `32` exactly when the bit is set. -/
theorem and_versionBitsMask_ne_zero (params : VersionBitsParams) (pos : DeploymentPos)
    (hbit : (params.vDeployments pos).bit < 32) (nVersion : BitVec 32) :
    ((nVersion &&& versionBitsMask params pos) != 0#32) =
      nVersion.getLsbD (params.vDeployments pos).bit := by
  rw [versionBitsMask_eq_twoPow, BitVec.and_twoPow]
  have hne : BitVec.twoPow 32 (params.vDeployments pos).bit ≠ 0#32 := by
    intro hzero
    have := congrArg (fun v => v.getLsbD (params.vDeployments pos).bit) hzero
    simp [hbit] at this
  cases nVersion.getLsbD (params.vDeployments pos).bit <;> simp [hne]

end Bits

section Version
variable {B : Type*} [DecidableEq B] {T : BlockTree B} {nTime : B → Int}
  {blockVersion : B → BitVec 32} {params : VersionBitsParams}

/-- Each round of `ComputeBlockVersion` sets the bit of a deployment in a signalling state: the
version's bits are those it started with and the bits of the signalling deployments queried. -/
theorem computeBlockVersionLoop_spec (hT : T.SkipsBuilt) (hmtp : T.TimeAboveMedian nTime)
    (hstart : ∀ pos, (params.vDeployments pos).nStartTime ≤ (params.vDeployments pos).nTimeout)
    (pindexPrev : Option B) :
    ∀ (positions : List DeploymentPos) (nVersion : BitVec 32) (cache : VersionBitsCache B),
      cache.Sound T nTime blockVersion params →
      ∃ v cache', computeBlockVersionLoop T nTime blockVersion params pindexPrev positions nVersion
          cache = some (v, cache') ∧ cache'.Sound T nTime blockVersion params ∧
        ∀ i, v.getLsbD i = (nVersion.getLsbD i || positions.any fun pos =>
          decide (deploymentState T nTime blockVersion params pindexPrev pos = LOCKED_IN ∨
              deploymentState T nTime blockVersion params pindexPrev pos = STARTED) &&
            (versionBitsMask params pos).getLsbD i)
  | [], nVersion, cache, hc => ⟨nVersion, cache, rfl, hc, fun i => by simp⟩
  | pos :: positions, nVersion, cache, hc => by
    obtain ⟨cache₁, hstate, hc₁⟩ := versionBitsState_spec hT hmtp hstart hc pindexPrev pos
    obtain ⟨v, cache', hloop, hc', hbits⟩ := computeBlockVersionLoop_spec hT hmtp hstart pindexPrev
      positions (if deploymentState T nTime blockVersion params pindexPrev pos = LOCKED_IN ∨
          deploymentState T nTime blockVersion params pindexPrev pos = STARTED
        then nVersion ||| versionBitsMask params pos else nVersion) cache₁ hc₁
    refine ⟨v, cache', ?_, hc', fun i => ?_⟩
    · rw [computeBlockVersionLoop, hstate, Option.bind_some]
      exact hloop
    · rw [hbits i, List.any_cons, ← Bool.or_assoc]
      congr 1
      split
      · next hsig => rw [BitVec.getLsbD_or, decide_eq_true hsig, Bool.true_and]
      · next hsig => rw [decide_eq_false hsig, Bool.false_and, Bool.or_false]

/-- With skip pointers set by `BuildSkip`, block times above the median time past, every start not
after its timeout, and the deployments' bits distinct and below `VERSIONBITS_NUM_BITS`,
`ComputeBlockVersion` on sound caches returns a version whose bits are the top bits `001` and the
bits of the deployments that are `STARTED` or `LOCKED_IN`; so it signals a deployment
(`VersionBitsConditionChecker::Condition`) exactly when the deployment is in one of these states,
and the caches stay sound. -/
theorem computeBlockVersion_signals (hT : T.SkipsBuilt) (hmtp : T.TimeAboveMedian nTime)
    (hstart : ∀ pos, (params.vDeployments pos).nStartTime ≤ (params.vDeployments pos).nTimeout)
    (hbits : ∀ pos, (params.vDeployments pos).bit < VERSIONBITS_NUM_BITS)
    (hinj : ∀ pos pos', (params.vDeployments pos).bit = (params.vDeployments pos').bit → pos = pos')
    {cache : VersionBitsCache B} (hc : cache.Sound T nTime blockVersion params)
    (pindexPrev : Option B) :
    ∃ nVersion cache', computeBlockVersion T nTime blockVersion params pindexPrev cache =
        some (nVersion, cache') ∧ cache'.Sound T nTime blockVersion params ∧
      (∀ i, nVersion.getLsbD i = true →
        i = 29 ∨ ∃ pos, (params.vDeployments pos).bit = i ∧
          (deploymentState T nTime blockVersion params pindexPrev pos = LOCKED_IN ∨
            deploymentState T nTime blockVersion params pindexPrev pos = STARTED)) ∧
      ∀ pos, versionBitsCondition params pos nVersion = true ↔
        (deploymentState T nTime blockVersion params pindexPrev pos = LOCKED_IN ∨
          deploymentState T nTime blockVersion params pindexPrev pos = STARTED) := by
  obtain ⟨v, cache', hrun, hc', hv⟩ := computeBlockVersionLoop_spec hT hmtp hstart pindexPrev
    DeploymentPos.all VERSIONBITS_TOP_BITS cache hc
  have hbit32 : ∀ pos, (params.vDeployments pos).bit < 32 := fun pos => by
    have := hbits pos
    unfold VERSIONBITS_NUM_BITS at this
    omega
  -- the version's bits: the top bit of `001`, and the bits of the signalling deployments
  have hget : ∀ i, v.getLsbD i = true ↔ i = 29 ∨ ∃ pos, (params.vDeployments pos).bit = i ∧
      (deploymentState T nTime blockVersion params pindexPrev pos = LOCKED_IN ∨
        deploymentState T nTime blockVersion params pindexPrev pos = STARTED) := by
    intro i
    rw [hv i, getLsbD_TOP_BITS]
    simp only [Bool.or_eq_true, decide_eq_true_eq, List.any_eq_true, Bool.and_eq_true,
      getLsbD_versionBitsMask]
    constructor
    · rintro (h | ⟨pos, -, hsig, -, hbit⟩)
      · exact .inl h.symm
      · exact .inr ⟨pos, hbit, hsig⟩
    · rintro (h | ⟨pos, hbit, hsig⟩)
      · exact .inl h.symm
      · exact .inr ⟨pos, DeploymentPos.mem_all pos, hsig, hbit32 pos, hbit⟩
  have htop : v &&& VERSIONBITS_TOP_MASK = VERSIONBITS_TOP_BITS := by
    apply BitVec.eq_of_getLsbD_eq
    intro i hi
    rw [BitVec.getLsbD_and, getLsbD_TOP_MASK hi, getLsbD_TOP_BITS]
    by_cases h29 : 29 ≤ i
    · -- no deployment bit is this high
      have hvi : v.getLsbD i = decide (29 = i) := by
        rw [Bool.eq_iff_iff, hget i, decide_eq_true_iff]
        constructor
        · rintro (h | ⟨pos, hbit, -⟩)
          · exact h.symm
          · have := hbits pos
            unfold VERSIONBITS_NUM_BITS at this
            omega
        · intro h
          exact .inl h.symm
      rw [hvi, decide_eq_true h29, Bool.and_true]
    · rw [decide_eq_false h29, Bool.and_false, decide_eq_false (by omega)]
  refine ⟨v, cache', hrun, hc', fun i hi => (hget i).mp hi, fun pos => ?_⟩
  rw [versionBitsCondition, htop, beq_self_eq_true, Bool.true_and,
    and_versionBitsMask_ne_zero params pos (hbit32 pos), hget]
  constructor
  · rintro (h | ⟨pos', hbit, hsig⟩)
    · have := hbits pos
      unfold VERSIONBITS_NUM_BITS at this
      omega
    · rwa [← hinj pos' pos hbit]
  · intro hsig
    exact .inr ⟨pos, rfl, hsig⟩

/-- On sound caches, `ComputeBlockVersion` gives the same version whatever they hold: the version's
bits are read off the deployments' states alone. -/
theorem computeBlockVersion_eq_expected (hT : T.SkipsBuilt) (hmtp : T.TimeAboveMedian nTime)
    (hstart : ∀ pos, (params.vDeployments pos).nStartTime ≤ (params.vDeployments pos).nTimeout)
    {cache : VersionBitsCache B} (hc : cache.Sound T nTime blockVersion params)
    (pindexPrev : Option B) :
    ∃ cache', computeBlockVersion T nTime blockVersion params pindexPrev cache =
      some (expectedVersion T nTime blockVersion params pindexPrev, cache') ∧
      cache'.Sound T nTime blockVersion params := by
  obtain ⟨v, cache', hrun, hc', hv⟩ := computeBlockVersionLoop_spec hT hmtp hstart pindexPrev
    DeploymentPos.all VERSIONBITS_TOP_BITS cache hc
  obtain ⟨v₀, cache₀, hrun₀, -, hv₀⟩ := computeBlockVersionLoop_spec hT hmtp hstart pindexPrev
    DeploymentPos.all VERSIONBITS_TOP_BITS VersionBitsCache.clear VersionBitsCache.sound_clear
  have hsame : v = v₀ := BitVec.eq_of_getLsbD_eq fun i _ => by rw [hv, hv₀]
  refine ⟨cache', ?_, hc'⟩
  rw [expectedVersion]
  unfold computeBlockVersion
  rw [hrun₀, hrun, hsame]
  rfl

end Version

/-! ## The warnings of `UpdateTip` -/

section WarningSpec
variable {B : Type*} [DecidableEq B] {T : BlockTree B} {nTime : B → Int}
  {blockVersion : B → BitVec 32} {params : VersionBitsParams}

/-- A block that carries the version expected after its parent signals no unknown rule. -/
theorem warningCondition_of_expected {x : B}
    (hx : expectedVersion T nTime blockVersion params (T.pprev x) = blockVersion x) (bit : Nat) :
    (warningBitsConditionChecker T nTime blockVersion params bit).Condition x = false := by
  show ((blockVersion x &&& VERSIONBITS_TOP_MASK) == VERSIONBITS_TOP_BITS &&
    ((blockVersion x >>> bit) &&& 1#32) != 0#32 &&
    ((expectedVersion T nTime blockVersion params (T.pprev x) >>> bit) &&& 1#32) == 0#32) = false
  rw [hx]
  simp only [bne]
  cases ((blockVersion x >>> bit) &&& 1#32) == 0#32 <;> simp

/-- A warning bit is never `LOCKED_IN` or `ACTIVE` at a block whose chain signals it nowhere: its
lock-in needs a period with the threshold of signals. -/
theorem warningState_of_expected (hT : T.SkipsBuilt) (hmtp : T.TimeAboveMedian nTime)
    (hthr : 0 < params.nRuleChangeActivationThreshold) (bit : Nat)
    {wc : ThresholdConditionCache B}
    (hw : (warningBitsConditionChecker T nTime blockVersion params bit).CacheSound T nTime wc)
    (pindex : B) (hmined : ∀ x, T.IsAncestorOrSelf x pindex →
      expectedVersion T nTime blockVersion params (T.pprev x) = blockVersion x) :
    ∃ s wc', (warningBitsConditionChecker T nTime blockVersion params bit).getStateFor T nTime
        (some pindex) wc = some (s, wc') ∧
      (warningBitsConditionChecker T nTime blockVersion params bit).CacheSound T nTime wc' ∧
      ¬ (s = ACTIVE ∨ s = LOCKED_IN) := by
  obtain ⟨s, wc', hget, hw', himpl⟩ := ThresholdConditionChecker.getStateFor_lockedIn hT hmtp
    (show (0 : Int) ≤ NO_TIMEOUT by decide) (show (0 : Int) ≠ ALWAYS_ACTIVE by decide) hw
    (some pindex)
  refine ⟨s, wc', hget, hw', fun hs => ?_⟩
  have hle : LOCKED_IN ≤ s := by rcases hs with rfl | rfl <;> decide
  obtain ⟨p, e, k, hp, he, -, -, hcount⟩ := himpl hle
  cases hp
  -- a period with the threshold of signals has a signalling block, below `pindex`
  have hpos : 0 < (T.lastBlocks e
      (warningBitsConditionChecker T nTime blockVersion params bit).Period.toNat).countP
      (warningBitsConditionChecker T nTime blockVersion params bit).Condition := by
    have : (0 : Int) < params.nRuleChangeActivationThreshold := by exact_mod_cast hthr
    change (params.nRuleChangeActivationThreshold : Int) ≤ _ at hcount
    omega
  obtain ⟨x, hx, hsig⟩ := List.countP_pos_iff.mp hpos
  have hxp := BlockTree.isAncestorOrSelf_trans (BlockTree.isAncestorOrSelf_of_mem_lastBlocks hx)
    ⟨k, he⟩
  rw [warningCondition_of_expected (hmined x hxp) bit] at hsig
  cases hsig

/-- The loop over the warning bits keeps their caches sound, and warns of nothing on a chain
whose blocks carry the expected versions. -/
theorem unknownRulesLoop_spec (hT : T.SkipsBuilt) (hmtp : T.TimeAboveMedian nTime)
    (hthr : 0 < params.nRuleChangeActivationThreshold) (pindex : B)
    (hmined : ∀ x, T.IsAncestorOrSelf x pindex →
      expectedVersion T nTime blockVersion params (T.pprev x) = blockVersion x) :
    ∀ (bits : List Nat) (warningcache : Nat → ThresholdConditionCache B),
      (∀ bit, (warningBitsConditionChecker T nTime blockVersion params bit).CacheSound T nTime
        (warningcache bit)) →
      ∃ warningcache', unknownRulesLoop T nTime blockVersion params pindex bits warningcache =
          some ([], warningcache') ∧
        ∀ bit, (warningBitsConditionChecker T nTime blockVersion params bit).CacheSound T nTime
          (warningcache' bit)
  | [], warningcache, hw => ⟨warningcache, rfl, hw⟩
  | bit :: bits, warningcache, hw => by
    obtain ⟨s, wc', hget, hw', hs⟩ := warningState_of_expected hT hmtp hthr bit (hw bit) pindex
      hmined
    have hupd : ∀ bit', (warningBitsConditionChecker T nTime blockVersion params bit').CacheSound
        T nTime (Function.update warningcache bit wc' bit') := by
      intro bit'
      by_cases hb : bit' = bit
      · subst hb
        rw [Function.update_self]
        exact hw'
      · rw [Function.update_of_ne hb]
        exact hw bit'
    obtain ⟨warningcache', hrest, hw''⟩ := unknownRulesLoop_spec hT hmtp hthr pindex hmined bits
      (Function.update warningcache bit wc') hupd
    refine ⟨warningcache', ?_, hw''⟩
    rw [unknownRulesLoop, hget, Option.bind_some]
    dsimp only
    rw [hrest, Option.map_some, if_neg hs]

/-- The count of unexpected versions stays `0` down a chain whose blocks carry the expected
versions, and the caches stay sound. -/
theorem countUpgradedLoop_spec (hT : T.SkipsBuilt) (hmtp : T.TimeAboveMedian nTime)
    (hstart : ∀ pos, (params.vDeployments pos).nStartTime ≤ (params.vDeployments pos).nTimeout)
    (pindexNew : B) (hmined : ∀ x, T.IsAncestorOrSelf x pindexNew →
      expectedVersion T nTime blockVersion params (T.pprev x) = blockVersion x) :
    ∀ (i : Nat) (pindex : Option B) (cache : VersionBitsCache B),
      cache.Sound T nTime blockVersion params →
      (∀ x, pindex = some x → T.IsAncestorOrSelf x pindexNew) →
      ∃ cache', countUpgradedLoop T nTime blockVersion params i pindex 0 cache = some (0, cache') ∧
        cache'.Sound T nTime blockVersion params
  | 0, _, cache, hc, _ => ⟨cache, rfl, hc⟩
  | _ + 1, none, cache, hc, _ => ⟨cache, rfl, hc⟩
  | i + 1, some x, cache, hc, hx => by
    obtain ⟨cache₁, hrun, hc₁⟩ := computeBlockVersion_eq_expected hT hmtp hstart hc (T.pprev x)
    have hxa := hx x rfl
    -- the parent is below `pindexNew` as well
    have hpa : ∀ y, T.pprev x = some y → T.IsAncestorOrSelf y pindexNew := by
      intro y hy
      exact BlockTree.isAncestorOrSelf_trans ⟨1, by rw [BlockTree.ancestorAt_succ, hy]; rfl⟩ hxa
    obtain ⟨cache', hrest, hc'⟩ := countUpgradedLoop_spec hT hmtp hstart pindexNew hmined i
      (T.pprev x) cache₁ hc₁ hpa
    refine ⟨cache', ?_, hc'⟩
    rw [countUpgradedLoop, hrun, Option.bind_some]
    dsimp only
    -- a block with the expected version sets no bit the expected version does not
    rw [hmined x hxa, BitVec.and_not_self]
    simpa using hrest

/-- Out of initial block download, on a chain whose every block carries the version
`ComputeBlockVersion` gives after its parent (as `CreateNewBlock` sets it), `UpdateTip` raises no
warning: no version bit is `LOCKED_IN` or `ACTIVE` as an unknown rule, and none of the last 100
blocks has an unexpected version. This needs skip pointers set by `BuildSkip`, block times above the
median time past, every start not after its timeout, a positive activation threshold, and sound
caches; the caches stay sound. -/
theorem updateTip_no_warnings (hT : T.SkipsBuilt) (hmtp : T.TimeAboveMedian nTime)
    (hstart : ∀ pos, (params.vDeployments pos).nStartTime ≤ (params.vDeployments pos).nTimeout)
    (hthr : 0 < params.nRuleChangeActivationThreshold)
    {warningcache : Nat → ThresholdConditionCache B}
    (hw : ∀ bit, (warningBitsConditionChecker T nTime blockVersion params bit).CacheSound T nTime
      (warningcache bit))
    {cache : VersionBitsCache B} (hc : cache.Sound T nTime blockVersion params) (pindexNew : B)
    (hmined : ∀ x, T.IsAncestorOrSelf x pindexNew →
      expectedVersion T nTime blockVersion params (T.pprev x) = blockVersion x) :
    ∃ warningcache' cache',
      updateTip T nTime blockVersion params pindexNew warningcache cache =
        some ([], 0, warningcache', cache') ∧
      (∀ bit, (warningBitsConditionChecker T nTime blockVersion params bit).CacheSound T nTime
        (warningcache' bit)) ∧ cache'.Sound T nTime blockVersion params := by
  obtain ⟨warningcache', hbits, hw'⟩ := unknownRulesLoop_spec hT hmtp hthr pindexNew hmined
    (List.range VERSIONBITS_NUM_BITS) warningcache hw
  obtain ⟨cache', hcount, hc'⟩ := countUpgradedLoop_spec hT hmtp hstart pindexNew hmined 100
    (some pindexNew) cache hc fun x hx => by cases hx; exact ⟨0, rfl⟩
  refine ⟨warningcache', cache', ?_, hw', hc'⟩
  rw [updateTip, hbits, Option.bind_some]
  dsimp only
  rw [hcount, Option.map_some]

end WarningSpec

namespace DeploymentsFixture

open BlockTreeFixture VersionBitsFixture ThresholdConditionChecker

/-- The deployments of `CMainParams` (`src/chainparams.cpp:164-194`). -/
def mainParams : VersionBitsParams where
  vDeployments
    | .DEPLOYMENT_TESTDUMMY => ⟨28, 1199145601, 1230767999⟩
    | .DEPLOYMENT_CSV => ⟨0, 1486252800, 1517788800⟩
    | .DEPLOYMENT_SEGWIT => ⟨1, ALWAYS_ACTIVE, NO_TIMEOUT⟩
  nRuleChangeActivationThreshold := 1916
  nMinerConfirmationWindow := 2016
  nMinerConfirmationWindow_pos := by decide

/-- Versions of the blocks of `forkTree`: block `3` signals nothing, the others bit `28`. -/
def forkVersion (b : Fin 6) : BitVec 32 := if b.val = 3 then 0x20000000#32 else 0x30000000#32

theorem getStateFor_lockedIn_fork :
    ∃ s cache', forkChecker.getStateFor forkTree forkTime (some 5) (fun _ => none) =
        some (s, cache') ∧ forkChecker.CacheSound forkTree forkTime cache' ∧
      (LOCKED_IN ≤ s → ∃ p e k, some 5 = some p ∧ forkTree.ancestorAt p k = some e ∧
        (forkTree.nHeight e + 1) % forkChecker.Period.toNat = 0 ∧
        forkTree.getMedianTimePast forkTime e < forkChecker.EndTime ∧
        forkChecker.Threshold ≤
          ((forkTree.lastBlocks e forkChecker.Period.toNat).countP forkChecker.Condition : Int)) :=
  getStateFor_lockedIn (by decide) (by decide) (by decide) (by decide) cacheSound_empty (some 5)

theorem computeBlockVersion_signals_main :
    ∃ nVersion cache', computeBlockVersion forkTree forkTime forkVersion mainParams (some 5)
        VersionBitsCache.clear = some (nVersion, cache') ∧
      cache'.Sound forkTree forkTime forkVersion mainParams ∧
      (∀ i, nVersion.getLsbD i = true →
        i = 29 ∨ ∃ pos, (mainParams.vDeployments pos).bit = i ∧
          (deploymentState forkTree forkTime forkVersion mainParams (some 5) pos = LOCKED_IN ∨
            deploymentState forkTree forkTime forkVersion mainParams (some 5) pos = STARTED)) ∧
      ∀ pos, versionBitsCondition mainParams pos nVersion = true ↔
        (deploymentState forkTree forkTime forkVersion mainParams (some 5) pos = LOCKED_IN ∨
          deploymentState forkTree forkTime forkVersion mainParams (some 5) pos = STARTED) :=
  computeBlockVersion_signals (by decide) (by decide) (fun pos => by cases pos <;> decide)
    (fun pos => by cases pos <;> decide)
    (fun pos pos' => by cases pos <;> cases pos' <;> decide) VersionBitsCache.sound_clear (some 5)

/-- Every block of `forkTree` with the top bits alone, the version expected on it at `mainParams`. -/
def topVersion (_ : Fin 6) : BitVec 32 := VERSIONBITS_TOP_BITS

theorem updateTip_no_warnings_main :
    ∃ warningcache' cache',
      updateTip forkTree forkTime topVersion mainParams 5 (fun _ _ => none) VersionBitsCache.clear =
        some ([], 0, warningcache', cache') ∧
      (∀ bit, (warningBitsConditionChecker forkTree forkTime topVersion mainParams bit).CacheSound
        forkTree forkTime (warningcache' bit)) ∧ cache'.Sound forkTree forkTime topVersion mainParams :=
  updateTip_no_warnings (by decide) (by decide) (fun pos => by cases pos <;> decide) (by decide)
    (fun _ => cacheSound_empty) VersionBitsCache.sound_clear 5
    (fun x _ => (show ∀ y : Fin 6, expectedVersion forkTree forkTime topVersion mainParams
      (forkTree.pprev y) = topVersion y by decide) x)

end DeploymentsFixture

end Emrals
