import Emrals.Chain.BlockIndex
import Emrals.Lib.Median

/-!
# BIP9 deployment states

`AbstractThresholdConditionChecker::GetStateFor` (`src/versionbits.cpp:9-96`) gives the state of a
deployment for the block after `pindexPrev`. A block's state is that of the first block of its
period, so the walk starts from the last block of the previous period. It walks down a period at
a time, pushing each block on `vToCompute`, until it meets a key of the cache, the genesis
block's parent (`DEFINED`), or a block whose median time past is before the start time
(`DEFINED` too). From there it walks back up, taking each period's transition and storing the
state under the period's last block.

The specification is BIP9's definition period by period (`bip9State`): `DEFINED` for the genesis
block's parent, and one `bip9Step` from the state of the period before. The shortcut agrees with
it because the median time past never goes down along a chain of blocks whose times are above
their parents' median (`getMedianTimePast_ancestorAt_le`, from the window lemma of `Median`),
and the start time is at most the timeout (`bip9State_of_lt_beginTime`). The cache is sound when
every key is the last block of a period, or `nullptr`, and holds BIP9's state
(`CacheSound`). Every query from a sound cache answers BIP9's state and leaves the cache
sound (`getStateFor_spec`), so does every sequence of queries on one cache.

`GetStateSinceHeightFor` walks down with `GetStateFor` while the state stays the same, and
`GetStateStatisticsFor` counts the signalling blocks of the current period; both are read back
against `bip9State`.
-/

namespace Emrals

namespace BlockTree

variable {B : Type*} (T : BlockTree B)

/-- The blocks met walking down `pprev` from `b`, at most `n` of them, as the loops
`for (int i = 0; i < n && pindex; i++, pindex = pindex->pprev)` meet them. -/
def lastBlocks : B → Nat → List B
  | _, 0 => []
  | b, n + 1 => b :: match T.pprev b with
    | none => []
    | some p => lastBlocks p n

/-- `CBlockIndex::nMedianTimeSpan`. -/
def nMedianTimeSpan : Nat := 11

/-- `CBlockIndex::GetMedianTimePast`: the times `GetBlockTime` of the block and of up to ten blocks
below it, written into `pmedian` from its end, sorted, and the one at half their count. -/
def getMedianTimePast (nTime : B → Int) (b : B) : Int :=
  Median.median 0 ((T.lastBlocks b nMedianTimeSpan).map nTime).reverse

/-- The rule `time-too-old` of `ContextualCheckBlockHeader` (`src/validation.cpp:3626`): every
block's time is above the median time past of its parent. -/
def TimeAboveMedian (nTime : B → Int) : Prop :=
  ∀ b p, T.pprev b = some p → T.getMedianTimePast nTime p < nTime b

instance [Fintype B] (nTime : B → Int) : Decidable (T.TimeAboveMedian nTime) :=
  inferInstanceAs (Decidable (∀ b p, T.pprev b = some p → T.getMedianTimePast nTime p < nTime b))

variable {T} {b p : B}

theorem lastBlocks_succ_of_pprev (hp : T.pprev b = some p) (n : Nat) :
    T.lastBlocks b (n + 1) = b :: T.lastBlocks p n := by
  rw [lastBlocks, hp]

theorem lastBlocks_succ_of_genesis (hp : T.pprev b = none) (n : Nat) :
    T.lastBlocks b (n + 1) = [b] := by
  rw [lastBlocks, hp]

/-- A shorter walk is the start of a longer one. -/
theorem lastBlocks_take : ∀ (b : B) (n : Nat), T.lastBlocks b n = (T.lastBlocks b (n + 1)).take n
  | _, 0 => rfl
  | b, n + 1 => by
    cases hp : T.pprev b with
    | none => rw [lastBlocks_succ_of_genesis hp, lastBlocks_succ_of_genesis hp, List.take_succ_cons,
        List.take_nil]
    | some p =>
      rw [lastBlocks_succ_of_pprev hp, lastBlocks_succ_of_pprev hp, List.take_succ_cons,
        ← lastBlocks_take p n]

theorem length_lastBlocks_le : ∀ (b : B) (n : Nat), (T.lastBlocks b n).length ≤ n
  | _, 0 => le_rfl
  | b, n + 1 => by
    cases hp : T.pprev b with
    | none => rw [lastBlocks_succ_of_genesis hp]; simp
    | some p =>
      rw [lastBlocks_succ_of_pprev hp, List.length_cons]
      exact Nat.succ_le_succ (length_lastBlocks_le p n)

/-- A walk of `k + l` blocks is the walk of `k` blocks and the walk of `l` blocks from the block
`k` steps down. -/
theorem lastBlocks_add {a : B} : ∀ {b : B} {k : Nat}, T.ancestorAt b k = some a →
    ∀ l, T.lastBlocks b (k + l) = T.lastBlocks b k ++ T.lastBlocks a l
  | b, 0, h, l => by cases h; rw [Nat.zero_add]; rfl
  | b, k + 1, h, l => by
    rw [ancestorAt_succ] at h
    cases hp : T.pprev b with
    | none => rw [hp] at h; cases h
    | some p =>
      rw [hp, Option.bind_some] at h
      rw [Nat.add_right_comm, lastBlocks_succ_of_pprev hp, lastBlocks_succ_of_pprev hp,
        lastBlocks_add h l, List.cons_append]

/-- A walk that does not reach below the genesis block meets as many blocks as it asks for. -/
theorem length_lastBlocks : ∀ {b : B} {n : Nat}, n ≤ T.nHeight b + 1 → (T.lastBlocks b n).length = n
  | _, 0, _ => rfl
  | b, n + 1, h => by
    cases hp : T.pprev b with
    | none =>
      have := T.nHeight_genesis b hp
      rw [lastBlocks_succ_of_genesis hp]
      simp only [List.length_singleton]
      omega
    | some p =>
      have := T.nHeight_pprev b p hp
      rw [lastBlocks_succ_of_pprev hp, List.length_cons, length_lastBlocks (by omega)]

/-- No block is found further down than the genesis block. -/
theorem ancestorAt_eq_none : ∀ {b : B} {k : Nat}, T.nHeight b < k → T.ancestorAt b k = none
  | _, 0, h => absurd h (Nat.not_lt_zero _)
  | b, k + 1, h => by
    rw [ancestorAt_succ]
    cases hp : T.pprev b with
    | none => rfl
    | some p =>
      have := T.nHeight_pprev b p hp
      exact ancestorAt_eq_none (by omega)

theorem isAncestorOrSelf_trans {a c : B} (hab : T.IsAncestorOrSelf a b)
    (hbc : T.IsAncestorOrSelf b c) : T.IsAncestorOrSelf a c := by
  obtain ⟨k, hk⟩ := hab
  obtain ⟨j, hj⟩ := hbc
  exact ⟨j + k, by rw [ancestorAt_add, hj, Option.bind_some, hk]⟩

/-- The blocks a walk down meets are below or at its start. -/
theorem isAncestorOrSelf_of_mem_lastBlocks : ∀ {b : B} {n : Nat} {x : B},
    x ∈ T.lastBlocks b n → T.IsAncestorOrSelf x b
  | _, 0, _, h => nomatch h
  | b, n + 1, x, h => by
    cases hp : T.pprev b with
    | none =>
      rw [lastBlocks_succ_of_genesis hp, List.mem_singleton] at h
      exact ⟨0, by rw [h]; rfl⟩
    | some p =>
      rw [lastBlocks_succ_of_pprev hp, List.mem_cons] at h
      rcases h with rfl | h
      · exact ⟨0, rfl⟩
      · obtain ⟨k, hk⟩ := isAncestorOrSelf_of_mem_lastBlocks h
        exact ⟨k + 1, by rw [ancestorAt_succ, hp, Option.bind_some, hk]⟩

/-- With skip pointers set by `BuildSkip`, `GetAncestor(nHeight - k)` is the block `k` steps down,
`nullptr` below the genesis block included. -/
theorem getAncestor_sub (hT : T.SkipsBuilt) (x : B) (k : Nat) :
    T.getAncestor x ((T.nHeight x : Int) - k) = T.ancestorAt x k := by
  by_cases hk : k ≤ T.nHeight x
  · have h : T.getAncestor x ((T.nHeight x - k : Nat) : Int) =
        T.ancestorAt x (T.nHeight x - (T.nHeight x - k)) :=
      getAncestor_of_skipCorrect (fun c _ => skipCorrect_of_skipsBuilt hT _ c rfl) (Nat.sub_le _ _)
    rw [show ((T.nHeight x - k : Nat) : Int) = (T.nHeight x : Int) - k by omega,
      show T.nHeight x - (T.nHeight x - k) = k by omega] at h
    exact h
  · rw [ancestorAt_eq_none (by omega), getAncestor, if_pos (by omega)]

/-! ## The median time past along a chain -/

variable {nTime : B → Int}

/-- A block whose time is at least its parent's median time past has a median time past at least
its parent's: its window is the parent's, the oldest time dropped, with its own time added. -/
theorem getMedianTimePast_le_of_pprev (hp : T.pprev b = some p)
    (ht : T.getMedianTimePast nTime p ≤ nTime b) :
    T.getMedianTimePast nTime p ≤ T.getMedianTimePast nTime b := by
  have hspan : nMedianTimeSpan = 10 + 1 := rfl
  have hwin : T.lastBlocks b nMedianTimeSpan = b :: (T.lastBlocks p nMedianTimeSpan).take 10 := by
    rw [hspan, lastBlocks_succ_of_pprev hp, ← lastBlocks_take p 10]
  unfold getMedianTimePast at ht ⊢
  rw [Median.median_perm (List.reverse_perm _)] at ht ⊢
  rw [Median.median_perm (List.reverse_perm _), hwin, List.map_cons, List.map_take]
  have hne : (T.lastBlocks p nMedianTimeSpan).map nTime ≠ [] := by
    rw [hspan, lastBlocks]
    exact List.cons_ne_nil _ _
  have hlen : ((T.lastBlocks p nMedianTimeSpan).map nTime).length ≤ 10 + 1 := by
    rw [List.length_map, ← hspan]
    exact length_lastBlocks_le p _
  exact Median.median_le_median_cons_take hne hlen 0 ht

/-- Along a chain that keeps the rule `time-too-old`, the median time past never goes down. -/
theorem getMedianTimePast_ancestorAt_le (h : T.TimeAboveMedian nTime) :
    ∀ {b a : B} {k : Nat}, T.ancestorAt b k = some a →
      T.getMedianTimePast nTime a ≤ T.getMedianTimePast nTime b
  | b, a, 0, hk => by cases hk; exact le_rfl
  | b, a, k + 1, hk => by
    rw [ancestorAt_succ] at hk
    cases hp : T.pprev b with
    | none => rw [hp] at hk; cases hk
    | some p =>
      rw [hp, Option.bind_some] at hk
      exact le_trans (getMedianTimePast_ancestorAt_le h hk)
        (getMedianTimePast_le_of_pprev hp (le_of_lt (h b p hp)))

end BlockTree

/-! ## The states and their order -/

/-- `ThresholdState`. -/
inductive ThresholdState
  | DEFINED
  | STARTED
  | LOCKED_IN
  | ACTIVE
  | FAILED
  deriving DecidableEq, Repr

namespace ThresholdState

/-- The states BIP9's transitions reach from a state, in any number of periods. -/
def Reaches : ThresholdState → ThresholdState → Bool
  | DEFINED, _ => true
  | STARTED, s => s != DEFINED
  | LOCKED_IN, s => s == LOCKED_IN || s == ACTIVE
  | ACTIVE, s => s == ACTIVE
  | FAILED, s => s == FAILED

theorem reaches_refl (s : ThresholdState) : Reaches s s = true := by
  cases s <;> rfl

theorem reaches_trans (s t u : ThresholdState) :
    Reaches s t = true → Reaches t u = true → Reaches s u = true := by
  cases s <;> cases t <;> cases u <;> decide

theorem reaches_antisymm (s t : ThresholdState) : Reaches s t = true → Reaches t s = true → s = t := by
  cases s <;> cases t <;> decide

/-- States ordered by reachability: `DEFINED` first, then `STARTED`, which goes on to `FAILED` or
to `LOCKED_IN` and `ACTIVE`. -/
instance : PartialOrder ThresholdState where
  le s t := Reaches s t = true
  le_refl := reaches_refl
  le_trans := reaches_trans
  le_antisymm := reaches_antisymm

theorem le_iff_reaches {s t : ThresholdState} : s ≤ t ↔ Reaches s t = true := Iff.rfl

instance (s t : ThresholdState) : Decidable (s ≤ t) :=
  inferInstanceAs (Decidable (Reaches s t = true))

theorem DEFINED_le (s : ThresholdState) : DEFINED ≤ s := rfl

end ThresholdState

/-! ## `AbstractThresholdConditionChecker` -/

/-- `Consensus::BIP9Deployment::ALWAYS_ACTIVE`. -/
def ALWAYS_ACTIVE : Int := -1

/-- An `AbstractThresholdConditionChecker` at the consensus parameters: its five virtual functions.
`Period` is `nMinerConfirmationWindow`, positive on every chain. -/
structure ThresholdConditionChecker (B : Type*) where
  Condition : B → Bool
  BeginTime : Int
  EndTime : Int
  Period : Int
  Threshold : Int
  Period_pos : 0 < Period

/-- `ThresholdConditionCache`: the state stored under each key, `nullptr` being `none`. -/
abbrev ThresholdConditionCache (B : Type*) := Option B → Option ThresholdState

namespace ThresholdConditionChecker

open ThresholdState

variable {B : Type*} (c : ThresholdConditionChecker B) (T : BlockTree B) (nTime : B → Int)

/-- The last block of the previous period, `GetAncestor(nHeight - ((nHeight + 1) % nPeriod))`. -/
def endOfPrevPeriod (p : B) : Option B :=
  T.getAncestor p ((T.nHeight p : Int) - ((T.nHeight p : Int) + 1) % c.Period)

section Model
variable [DecidableEq B]

/-- A round of `while (cache.count(pindexPrev) == 0)` in `GetStateFor`: the walk's state is
`pindexPrev`, the cache and `vToCompute`, whose last element is its head here. -/
def walkBackRound (s : Option B × ThresholdConditionCache B × List B) :
    Option ((Option B × ThresholdConditionCache B × List B) ⊕
      (Option B × ThresholdConditionCache B × List B)) :=
  let (pindexPrev, cache, vToCompute) := s
  if (cache pindexPrev).isSome then some (.inr s)
  else match pindexPrev with
    -- the genesis block is by definition defined
    | none => some (.inr (none, Function.update cache none (some DEFINED), vToCompute))
    | some p =>
      if T.getMedianTimePast nTime p < c.BeginTime then
        some (.inr (some p, Function.update cache (some p) (some DEFINED), vToCompute))
      else some (.inl (T.getAncestor p ((T.nHeight p : Int) - c.Period), cache, p :: vToCompute))

/-- Rounds enough for the walk down from `pindexPrev`: one for each block below it, and one. -/
def walkFuel : Option B → Nat
  | none => 1
  | some p => T.nHeight p + 2

/-- The count of the `STARTED` case: `Condition` over `nPeriod` blocks down from `pindexCount`,
`none` where it would read `nullptr`. -/
def countCondition : Option B → Nat → Option Nat
  | _, 0 => some 0
  | none, _ + 1 => none
  | some b, i + 1 =>
    (countCondition (T.pprev b) i).map fun count => count + if c.Condition b then 1 else 0

/-- The `switch (state)` of the walk back up, at the last block `pindexPrev` of a period. -/
def nextState (pindexPrev : B) : ThresholdState → Option ThresholdState
  | DEFINED =>
    if T.getMedianTimePast nTime pindexPrev ≥ c.EndTime then some FAILED
    else if T.getMedianTimePast nTime pindexPrev ≥ c.BeginTime then some STARTED
    else some DEFINED
  | STARTED =>
    if T.getMedianTimePast nTime pindexPrev ≥ c.EndTime then some FAILED
    else (c.countCondition T (some pindexPrev) c.Period.toNat).map fun (count : Nat) =>
      if (count : Int) ≥ c.Threshold then LOCKED_IN else STARTED
  | LOCKED_IN => some ACTIVE
  | FAILED => some FAILED
  | ACTIVE => some ACTIVE

/-- `while (!vToCompute.empty())`: each block taken from the back of `vToCompute`, its state computed
from the one before and stored under it. -/
def walkForward : ThresholdState → ThresholdConditionCache B → List B →
    Option (ThresholdState × ThresholdConditionCache B)
  | state, cache, [] => some (state, cache)
  | state, cache, pindexPrev :: vToCompute =>
    (c.nextState T nTime pindexPrev state).bind fun stateNext =>
      walkForward stateNext (Function.update cache (some pindexPrev) (some stateNext)) vToCompute

/-- `GetStateFor`, with the cache it leaves; `none` where `assert(cache.count(pindexPrev))` fails or
a `nullptr` is read. -/
def getStateFor (pindexPrev : Option B) (cache : ThresholdConditionCache B) :
    Option (ThresholdState × ThresholdConditionCache B) :=
  if c.BeginTime = ALWAYS_ACTIVE then some (ACTIVE, cache)
  else
    let pindexPrev := pindexPrev.bind (c.endOfPrevPeriod T)
    (Loop.loop (c.walkBackRound T nTime) (walkFuel T pindexPrev) (pindexPrev, cache, [])).bind
      fun (pindexPrev, cache, vToCompute) =>
        (cache pindexPrev).bind fun state => c.walkForward T nTime state cache vToCompute

/-- Queries of `GetStateFor` one after another on one cache, as `versionbitscache` is used. -/
def getStatesFor : ThresholdConditionCache B → List (Option B) →
    Option (List ThresholdState × ThresholdConditionCache B)
  | cache, [] => some ([], cache)
  | cache, pindexPrev :: queries =>
    (c.getStateFor T nTime pindexPrev cache).bind fun (state, cache) =>
      (getStatesFor cache queries).map fun (states, cache) => (state :: states, cache)

/-- A round of `while (previousPeriodParent != nullptr && GetStateFor(previousPeriodParent) ==
initialState)` in `GetStateSinceHeightFor`: the loop's state is `pindexPrev`,
`previousPeriodParent` and the cache, and it leaves with `pindexPrev` and the cache. -/
def sinceHeightRound (initialState : ThresholdState)
    (s : B × Option B × ThresholdConditionCache B) :
    Option ((B × Option B × ThresholdConditionCache B) ⊕ (B × ThresholdConditionCache B)) :=
  let (pindexPrev, previousPeriodParent, cache) := s
  match previousPeriodParent with
  | none => some (.inr (pindexPrev, cache))
  | some q => (c.getStateFor T nTime (some q) cache).map fun (state, cache) =>
    if state = initialState then .inl (q, T.getAncestor q ((T.nHeight q : Int) - c.Period), cache)
    else .inr (pindexPrev, cache)

/-- `GetStateSinceHeightFor`, with the cache it leaves; `none` where `GetStateFor` fails or a
`nullptr` is read. -/
def getStateSinceHeightFor (pindexPrev : Option B) (cache : ThresholdConditionCache B) :
    Option (Int × ThresholdConditionCache B) :=
  if c.BeginTime = ALWAYS_ACTIVE then some (0, cache)
  else (c.getStateFor T nTime pindexPrev cache).bind fun (initialState, cache) =>
    -- the genesis block is by definition `DEFINED`
    if initialState = DEFINED then some (0, cache)
    else (pindexPrev.bind (c.endOfPrevPeriod T)).bind fun pindexPrev =>
      (Loop.loop (c.sinceHeightRound T nTime initialState) (T.nHeight pindexPrev + 1)
        (pindexPrev, T.getAncestor pindexPrev ((T.nHeight pindexPrev : Int) - c.Period), cache)).map
        fun (pindexPrev, cache) => ((T.nHeight pindexPrev : Int) + 1, cache)

end Model

/-- `BIP9Stats`. -/
structure BIP9Stats where
  period : Int
  threshold : Int
  elapsed : Int
  count : Int
  possible : Bool
  deriving DecidableEq, Repr

/-- A round of `while (pindexEndOfPrevPeriod->nHeight != currentIndex->nHeight)` in
`GetStateStatisticsFor`: the state is `currentIndex` and `count`; `none` where `currentIndex`
becomes `nullptr`. -/
def statsCountRound (heightEnd : Nat) (s : B × Nat) : Option ((B × Nat) ⊕ Nat) :=
  let (currentIndex, count) := s
  if heightEnd ≠ T.nHeight currentIndex then
    (T.pprev currentIndex).map fun p => .inl (p, count + if c.Condition currentIndex then 1 else 0)
  else some (.inr count)

/-- `GetStateStatisticsFor`; `none` where a `nullptr` is read. -/
def getStateStatisticsFor : Option B → Option BIP9Stats
  | none => some ⟨c.Period, c.Threshold, 0, 0, false⟩
  | some pindex => (c.endOfPrevPeriod T pindex).bind fun pindexEndOfPrevPeriod =>
    let elapsed := (T.nHeight pindex : Int) - T.nHeight pindexEndOfPrevPeriod
    (Loop.loop (c.statsCountRound T (T.nHeight pindexEndOfPrevPeriod)) (T.nHeight pindex + 1)
      (pindex, 0)).map fun (count : Nat) =>
        ⟨c.Period, c.Threshold, elapsed, count, decide (c.Period - c.Threshold ≥ elapsed - count)⟩

/-! ## BIP9's definition -/

theorem one_le_period : 1 ≤ c.Period.toNat := by
  have := c.Period_pos
  omega

/-- BIP9's transition at the last block `b` of a period, from the state of the period before; the
period's blocks are the `nPeriod` blocks down from `b`. -/
def bip9Step (b : B) : ThresholdState → ThresholdState
  | DEFINED =>
    if c.EndTime ≤ T.getMedianTimePast nTime b then FAILED
    else if c.BeginTime ≤ T.getMedianTimePast nTime b then STARTED
    else DEFINED
  | STARTED =>
    if c.EndTime ≤ T.getMedianTimePast nTime b then FAILED
    else if c.Threshold ≤ ((T.lastBlocks b c.Period.toNat).countP c.Condition : Int) then LOCKED_IN
    else STARTED
  | LOCKED_IN => ACTIVE
  | ACTIVE => ACTIVE
  | FAILED => FAILED

theorem elim_ancestorAt_lt {k : Nat} (hk : 1 ≤ k) (b : B) :
    (T.ancestorAt b k).elim 0 (fun a => T.nHeight a + 1) < T.nHeight b + 1 := by
  cases h : T.ancestorAt b k with
  | none => exact Nat.succ_pos _
  | some a =>
    have := BlockTree.nHeight_ancestorAt h
    show T.nHeight a + 1 < T.nHeight b + 1
    omega

/-- BIP9's state of the blocks of the period after the one ending at `q`: `DEFINED` after the
genesis block's parent, and one `bip9Step` from the period before. -/
def bip9State (q : Option B) : ThresholdState :=
  match q with
  | none => DEFINED
  | some b => c.bip9Step T nTime b (bip9State (T.ancestorAt b c.Period.toNat))
termination_by q.elim 0 fun b => T.nHeight b + 1
decreasing_by exact elim_ancestorAt_lt T c.one_le_period b

/-- BIP9's state of the block after `pindexPrev`: that of the period ending `(nHeight + 1) % nPeriod`
blocks down. -/
def bip9StateFor (pindexPrev : Option B) : ThresholdState :=
  c.bip9State T nTime (pindexPrev.bind fun p => T.ancestorAt p ((T.nHeight p + 1) % c.Period.toNat))

/-- A key the cache may hold: `nullptr`, or the last block of a period. -/
def IsPeriodEnd (q : Option B) : Prop :=
  ∀ b, q = some b → (T.nHeight b + 1) % c.Period.toNat = 0

/-- Every key of the cache is `nullptr` or the last block of a period, and holds BIP9's state. -/
def CacheSound (cache : ThresholdConditionCache B) : Prop :=
  ∀ q s, cache q = some s → c.IsPeriodEnd T q ∧ c.bip9State T nTime q = s

/-- `vToCompute` leads up from `q` to `t`: its head is the last block of the period after `q`'s, and
so on up to `t`. -/
def Leads : Option B → List B → Option B → Prop
  | q, [], t => q = t
  | q, b :: v, t => T.ancestorAt b c.Period.toNat = q ∧ (T.nHeight b + 1) % c.Period.toNat = 0 ∧
    Leads (some b) v t

/-- What the walk down keeps: the cache is sound, `pindexPrev` is a key, and `vToCompute` leads up
from it to `t`. -/
def WalkInv [DecidableEq B] (t : Option B) :
    Option B × ThresholdConditionCache B × List B → Prop
  | (q, cache, v) => c.CacheSound T nTime cache ∧ c.IsPeriodEnd T q ∧ c.Leads T q v t

/-- Where the walk down stops: the cache is sound and holds BIP9's state of `pindexPrev`, and
`vToCompute` leads up from it to `t`. -/
def WalkDone [DecidableEq B] (t : Option B) :
    Option B × ThresholdConditionCache B × List B → Prop
  | (q, cache, v) =>
    c.CacheSound T nTime cache ∧ c.Leads T q v t ∧ cache q = some (c.bip9State T nTime q)

/-- What the walk down of `GetStateSinceHeightFor` keeps: `pindexPrev` is `j` periods below `e`,
`previousPeriodParent` is a period below it, the cache is sound, and each of these periods has the
state `s`. -/
def SinceInv [DecidableEq B] (e : B) (s : ThresholdState) :
    B × Option B × ThresholdConditionCache B → Prop
  | (q, previousPeriodParent, cache) => ∃ j, T.ancestorAt e (j * c.Period.toNat) = some q ∧
    previousPeriodParent = T.ancestorAt q c.Period.toNat ∧ c.CacheSound T nTime cache ∧
    ∀ i ≤ j, c.bip9State T nTime (T.ancestorAt e (i * c.Period.toNat)) = s

/-- Where it stops: the run of periods with the state `s` goes down to `pindexPrev`'s, and the period
below has another state. -/
def SinceDone [DecidableEq B] (e : B) (s : ThresholdState) :
    B × ThresholdConditionCache B → Prop
  | (q, cache) => ∃ j, T.ancestorAt e (j * c.Period.toNat) = some q ∧ c.CacheSound T nTime cache ∧
    (∀ i ≤ j, c.bip9State T nTime (T.ancestorAt e (i * c.Period.toNat)) = s) ∧
    c.bip9State T nTime (T.ancestorAt q c.Period.toNat) ≠ s

/-- What the count of `GetStateStatisticsFor` keeps: `currentIndex` is `i` blocks down from
`pindex`, not below the end `r` blocks down of the previous period, and `count` counts the
signalling blocks above it. -/
def StatsInv (pindex : B) (r : Nat) : B × Nat → Prop
  | (currentIndex, count) => ∃ i ≤ r, T.ancestorAt pindex i = some currentIndex ∧
    count = (T.lastBlocks pindex i).countP c.Condition

/-! ## The walks against BIP9's definition -/

section Walk
variable {c T nTime}

theorem bip9State_none : c.bip9State T nTime none = DEFINED := by
  rw [bip9State]

theorem bip9State_some (b : B) :
    c.bip9State T nTime (some b) =
      c.bip9Step T nTime b (c.bip9State T nTime (T.ancestorAt b c.Period.toNat)) := by
  rw [bip9State]

theorem period_eq : c.Period = (c.Period.toNat : Int) :=
  (Int.toNat_of_nonneg (le_of_lt c.Period_pos)).symm

/-- Before the start time, BIP9's state stays `DEFINED`: by induction on the height, as the median
time past does not go down along the chain and the timeout is not before the start. -/
theorem bip9State_of_lt_beginTime (hmtp : T.TimeAboveMedian nTime)
    (hbegin : c.BeginTime ≤ c.EndTime) : ∀ n (b : B), T.nHeight b = n →
      T.getMedianTimePast nTime b < c.BeginTime → c.bip9State T nTime (some b) = DEFINED := by
  intro n
  induction n using Nat.strong_induction_on with
  | _ n ih =>
    intro b hb hlt
    have hprev : c.bip9State T nTime (T.ancestorAt b c.Period.toNat) = DEFINED := by
      cases ha : T.ancestorAt b c.Period.toNat with
      | none => exact bip9State_none
      | some a =>
        have hh := BlockTree.nHeight_ancestorAt ha
        have := c.one_le_period
        exact ih (T.nHeight a) (by omega) a rfl
          (lt_of_le_of_lt (BlockTree.getMedianTimePast_ancestorAt_le hmtp ha) hlt)
    rw [bip9State_some, hprev, bip9Step, if_neg (by omega), if_neg (by omega)]

/-- The last block of a period, `nPeriod` blocks down, is the last block of a period. -/
theorem isPeriodEnd_ancestorAt {b : B} (hb : (T.nHeight b + 1) % c.Period.toNat = 0) :
    c.IsPeriodEnd T (T.ancestorAt b c.Period.toNat) := by
  intro a ha
  have hh := BlockTree.nHeight_ancestorAt ha
  rwa [show T.nHeight b + 1 = T.nHeight a + 1 + c.Period.toNat by omega, Nat.add_mod_right] at hb

/-- The block `(nHeight + 1) % nPeriod` steps down is the last block of a period. -/
theorem isPeriodEnd_endOfPrevPeriod (p : B) :
    c.IsPeriodEnd T (T.ancestorAt p ((T.nHeight p + 1) % c.Period.toNat)) := by
  intro a ha
  have hh := BlockTree.nHeight_ancestorAt ha
  have hdm := Nat.div_add_mod (T.nHeight p + 1) c.Period.toNat
  rw [show T.nHeight a + 1 = c.Period.toNat * ((T.nHeight p + 1) / c.Period.toNat) by omega,
    Nat.mul_mod_right]

/-- A block ending a period has a whole period below it. -/
theorem period_le_of_isPeriodEnd {b : B} (hb : (T.nHeight b + 1) % c.Period.toNat = 0) :
    c.Period.toNat ≤ T.nHeight b + 1 :=
  Nat.le_of_dvd (Nat.succ_pos _) (Nat.dvd_of_mod_eq_zero hb)

theorem endOfPrevPeriod_eq (hT : T.SkipsBuilt) (p : B) :
    c.endOfPrevPeriod T p = T.ancestorAt p ((T.nHeight p + 1) % c.Period.toNat) := by
  rw [endOfPrevPeriod, period_eq, show ((T.nHeight p : Int) + 1) = ((T.nHeight p + 1 : Nat) : Int) by
    push_cast; rfl, ← Int.natCast_emod, BlockTree.getAncestor_sub hT, Int.toNat_natCast]

theorem getAncestor_sub_period (hT : T.SkipsBuilt) (p : B) :
    T.getAncestor p ((T.nHeight p : Int) - c.Period) = T.ancestorAt p c.Period.toNat := by
  rw [period_eq, BlockTree.getAncestor_sub hT, Int.toNat_natCast]

/-- The count of the `STARTED` case is the number of signalling blocks of the period, when the
period does not reach below the genesis block. -/
theorem countCondition_eq : ∀ {n : Nat} {b : B}, n ≤ T.nHeight b + 1 →
    c.countCondition T (some b) n = some ((T.lastBlocks b n).countP c.Condition)
  | 0, _, _ => rfl
  | n + 1, b, h => by
    cases hp : T.pprev b with
    | none =>
      have := T.nHeight_genesis b hp
      obtain rfl : n = 0 := by omega
      rw [BlockTree.lastBlocks_succ_of_genesis hp]
      simp [countCondition]
    | some p =>
      have := T.nHeight_pprev b p hp
      rw [countCondition, hp, countCondition_eq (by omega), BlockTree.lastBlocks_succ_of_pprev hp,
        Option.map_some, List.countP_cons]

/-- At the last block of a period, the `switch` of the walk up is BIP9's transition. -/
theorem nextState_eq [DecidableEq B] {b : B} (hb : (T.nHeight b + 1) % c.Period.toNat = 0)
    (s : ThresholdState) : c.nextState T nTime b s = some (c.bip9Step T nTime b s) := by
  cases s with
  | STARTED =>
    rw [nextState, bip9Step, countCondition_eq (period_le_of_isPeriodEnd hb), Option.map_some]
    split_ifs <;> rfl
  | DEFINED =>
    rw [nextState, bip9Step]
    split_ifs <;> rfl
  | LOCKED_IN | ACTIVE | FAILED => rfl

/-- Going down whole periods from the last block of a period stays on last blocks of periods. -/
theorem isPeriodEnd_ancestorAt_mul {e : B} (he : (T.nHeight e + 1) % c.Period.toNat = 0) :
    ∀ j, c.IsPeriodEnd T (T.ancestorAt e (j * c.Period.toNat))
  | 0 => by
    rw [Nat.zero_mul]
    rintro b ⟨⟩
    exact he
  | j + 1 => by
    rw [Nat.succ_mul, BlockTree.ancestorAt_add]
    intro b hb
    cases ha : T.ancestorAt e (j * c.Period.toNat) with
    | none => rw [ha] at hb; cases hb
    | some a =>
      rw [ha, Option.bind_some] at hb
      exact isPeriodEnd_ancestorAt (isPeriodEnd_ancestorAt_mul he j a ha) b hb

/-- At the last block of a period, BIP9's state for the next block is the state stored under it. -/
theorem bip9StateFor_of_isPeriodEnd {b : B} (hb : (T.nHeight b + 1) % c.Period.toNat = 0) :
    c.bip9StateFor T nTime (some b) = c.bip9State T nTime (some b) := by
  rw [bip9StateFor, Option.bind_some, hb, BlockTree.ancestorAt_zero]

theorem cacheSound_empty : c.CacheSound T nTime fun _ => none :=
  fun _ _ h => nomatch h

variable [DecidableEq B] {cache : ThresholdConditionCache B}

theorem CacheSound.update (hc : c.CacheSound T nTime cache) {q : Option B}
    (hq : c.IsPeriodEnd T q) :
    c.CacheSound T nTime (Function.update cache q (some (c.bip9State T nTime q))) := by
  intro q' s hs
  by_cases h : q' = q
  · subst h
    rw [Function.update_self] at hs
    cases hs
    exact ⟨hq, rfl⟩
  · rw [Function.update_of_ne h] at hs
    exact hc q' s hs

/-- The walk up from the state of `q` along `vToCompute` ends with the state of `t`, each state
stored under its block. -/
theorem walkForward_spec : ∀ {q : Option B} {v : List B} {t : Option B}
    {cache : ThresholdConditionCache B}, c.CacheSound T nTime cache → c.Leads T q v t →
    ∃ cache', c.walkForward T nTime (c.bip9State T nTime q) cache v =
      some (c.bip9State T nTime t, cache') ∧ c.CacheSound T nTime cache'
  | _, [], _, cache, hc, hv => ⟨cache, by cases hv; rfl, hc⟩
  | q, b :: v, t, cache, hc, hv => by
    obtain ⟨hqb, hb, hv⟩ := hv
    have hstep : c.nextState T nTime b (c.bip9State T nTime q) =
        some (c.bip9State T nTime (some b)) := by
      rw [nextState_eq hb, bip9State_some, hqb]
    rw [walkForward, hstep, Option.bind_some]
    exact walkForward_spec (hc.update fun b' hb' => by cases hb'; exact hb) hv

/-- A round of the walk down either stops where the cache holds BIP9's state, or goes down a
period with `vToCompute` still leading up to `t`. -/
theorem walkBackRound_spec (hT : T.SkipsBuilt) (hmtp : T.TimeAboveMedian nTime)
    (hbegin : c.BeginTime ≤ c.EndTime) {t : Option B}
    (s : Option B × ThresholdConditionCache B × List B) (hs : c.WalkInv T nTime t s) :
    (∃ s', c.walkBackRound T nTime s = some (.inl s') ∧ c.WalkInv T nTime t s' ∧
        s'.1.elim 0 (fun b => T.nHeight b + 1) < s.1.elim 0 (fun b => T.nHeight b + 1)) ∨
      ∃ r, c.walkBackRound T nTime s = some (.inr r) ∧ c.WalkDone T nTime t r := by
  obtain ⟨q, cache, v⟩ := s
  obtain ⟨hc, hq, hv⟩ := hs
  by_cases hin : (cache q).isSome
  · -- a key of the cache: the walk stops there
    obtain ⟨s, hs⟩ := Option.isSome_iff_exists.mp hin
    refine .inr ⟨(q, cache, v), by simp only [walkBackRound, hin, if_true], hc, hv, ?_⟩
    rw [hs, (hc q s hs).2]
  · have hnone : cache q = none := Option.not_isSome_iff_eq_none.mp hin
    cases q with
    | none =>
      refine .inr ⟨(none, Function.update cache none (some DEFINED), v), ?_, ?_, hv, ?_⟩
      · simp only [walkBackRound, hnone, Option.isSome_none]
        rfl
      · have hupd := hc.update hq
        rwa [bip9State_none] at hupd
      · rw [Function.update_self, bip9State_none]
    | some p =>
      by_cases hlt : T.getMedianTimePast nTime p < c.BeginTime
      · -- the shortcut: before the start time the state is `DEFINED`
        have hdef := bip9State_of_lt_beginTime (c := c) hmtp hbegin _ p rfl hlt
        refine .inr ⟨(some p, Function.update cache (some p) (some DEFINED), v), ?_, ?_, hv, ?_⟩
        · simp only [walkBackRound, hnone, Option.isSome_none, hlt]
          rfl
        · rw [← hdef]
          exact hc.update hq
        · rw [Function.update_self, hdef]
      · refine .inl ⟨(T.ancestorAt p c.Period.toNat, cache, p :: v), ?_,
          ⟨hc, isPeriodEnd_ancestorAt (hq p rfl), rfl, hq p rfl, hv⟩,
          elim_ancestorAt_lt T c.one_le_period p⟩
        simp only [walkBackRound, hnone, Option.isSome_none, hlt, getAncestor_sub_period hT]
        rfl

/-- From a sound cache, `GetStateFor` answers BIP9's state of the block after `pindexPrev` and
leaves the cache sound. -/
theorem getStateFor_spec (hT : T.SkipsBuilt) (hmtp : T.TimeAboveMedian nTime)
    (hbegin : c.BeginTime ≤ c.EndTime) (hactive : c.BeginTime ≠ ALWAYS_ACTIVE)
    (hc : c.CacheSound T nTime cache) (pindexPrev : Option B) :
    ∃ cache', c.getStateFor T nTime pindexPrev cache =
      some (c.bip9StateFor T nTime pindexPrev, cache') ∧ c.CacheSound T nTime cache' := by
  have hq0 : pindexPrev.bind (c.endOfPrevPeriod T) =
      pindexPrev.bind fun p => T.ancestorAt p ((T.nHeight p + 1) % c.Period.toNat) := by
    cases pindexPrev with
    | none => rfl
    | some p => exact endOfPrevPeriod_eq hT p
  have hkey : c.IsPeriodEnd T (pindexPrev.bind (c.endOfPrevPeriod T)) := by
    rw [hq0]
    cases pindexPrev with
    | none => exact fun _ h => nomatch h
    | some p => exact isPeriodEnd_endOfPrevPeriod p
  have hfuel : (pindexPrev.bind (c.endOfPrevPeriod T)).elim 0 (fun b => T.nHeight b + 1) <
      walkFuel T (pindexPrev.bind (c.endOfPrevPeriod T)) := by
    cases pindexPrev.bind (c.endOfPrevPeriod T) with
    | none => exact Nat.one_pos
    | some b => exact Nat.lt_succ_self _
  obtain ⟨⟨q, cache₁, v⟩, hloop, hc₁, hv, hq⟩ :=
    Loop.loop_of_variant _ (walkBackRound_spec hT hmtp hbegin (t := pindexPrev.bind (c.endOfPrevPeriod T)))
      _ (pindexPrev.bind (c.endOfPrevPeriod T), cache, []) ⟨hc, hkey, rfl⟩ hfuel
  rw [getStateFor, if_neg hactive]
  dsimp only
  rw [hloop, Option.bind_some]
  dsimp only
  rw [hq, Option.bind_some, bip9StateFor, ← hq0]
  exact walkForward_spec hc₁ hv

/-- Every sequence of `GetStateFor` queries sharing one cache, started from a sound cache (the empty
one after `VersionBitsCache::Clear` among them), answers BIP9's state of the block after each
`pindexPrev` and leaves the cache sound. -/
theorem getStatesFor_bip9 (hT : T.SkipsBuilt) (hmtp : T.TimeAboveMedian nTime)
    (hbegin : c.BeginTime ≤ c.EndTime) (hactive : c.BeginTime ≠ ALWAYS_ACTIVE) :
    ∀ (queries : List (Option B)) (cache : ThresholdConditionCache B),
      c.CacheSound T nTime cache → ∃ cache', c.getStatesFor T nTime cache queries =
        some (queries.map (c.bip9StateFor T nTime), cache') ∧ c.CacheSound T nTime cache'
  | [], cache, hc => ⟨cache, rfl, hc⟩
  | pindexPrev :: queries, cache, hc => by
    obtain ⟨cache₁, hget, hc₁⟩ := getStateFor_spec hT hmtp hbegin hactive hc pindexPrev
    obtain ⟨cache₂, hrest, hc₂⟩ := getStatesFor_bip9 hT hmtp hbegin hactive queries cache₁ hc₁
    refine ⟨cache₂, ?_, hc₂⟩
    rw [getStatesFor, hget, Option.bind_some]
    dsimp only
    rw [hrest, Option.map_some, List.map_cons]

/-! ## `GetStateSinceHeightFor` -/

/-- A round of the walk down of `GetStateSinceHeightFor` goes down a period while the state stays
`s`, and stops at the genesis block's parent or at the first period with another state. -/
theorem sinceHeightRound_spec (hT : T.SkipsBuilt) (hmtp : T.TimeAboveMedian nTime)
    (hbegin : c.BeginTime ≤ c.EndTime) (hactive : c.BeginTime ≠ ALWAYS_ACTIVE) {e : B}
    (he : (T.nHeight e + 1) % c.Period.toNat = 0) {s : ThresholdState} (hs : s ≠ DEFINED)
    (st : B × Option B × ThresholdConditionCache B) (hst : c.SinceInv T nTime e s st) :
    (∃ st', c.sinceHeightRound T nTime s st = some (.inl st') ∧ c.SinceInv T nTime e s st' ∧
        T.nHeight st'.1 < T.nHeight st.1) ∨
      ∃ r, c.sinceHeightRound T nTime s st = some (.inr r) ∧ c.SinceDone T nTime e s r := by
  obtain ⟨q, pp, cache⟩ := st
  obtain ⟨j, hq, rfl, hc, hall⟩ := hst
  cases hpp : T.ancestorAt q c.Period.toNat with
  | none =>
    -- `previousPeriodParent` is `nullptr`: the run reaches the first period
    refine .inr ⟨(q, cache), by simp only [sinceHeightRound], j, hq, hc, hall, ?_⟩
    rw [hpp, bip9State_none]
    exact Ne.symm hs
  | some q' =>
    have hqe : (T.nHeight q + 1) % c.Period.toNat = 0 := isPeriodEnd_ancestorAt_mul he j q hq
    have hq'e : (T.nHeight q' + 1) % c.Period.toNat = 0 := isPeriodEnd_ancestorAt hqe q' hpp
    have hdown : T.ancestorAt e ((j + 1) * c.Period.toNat) = some q' := by
      rw [Nat.succ_mul, BlockTree.ancestorAt_add, hq, Option.bind_some, hpp]
    obtain ⟨cache', hget, hc'⟩ := getStateFor_spec hT hmtp hbegin hactive hc (some q')
    rw [bip9StateFor_of_isPeriodEnd hq'e] at hget
    by_cases heq : c.bip9State T nTime (some q') = s
    · refine .inl ⟨(q', T.ancestorAt q' c.Period.toNat, cache'), ?_,
        ⟨j + 1, hdown, rfl, hc', fun i hi => ?_⟩, ?_⟩
      · simp only [sinceHeightRound, hget, Option.map_some, heq, if_true,
          getAncestor_sub_period hT]
      · rcases Nat.lt_or_eq_of_le hi with hi | rfl
        · exact hall i (by omega)
        · rw [hdown, heq]
      · have := BlockTree.nHeight_ancestorAt hpp
        have := c.one_le_period
        show T.nHeight q' < T.nHeight q
        omega
    · refine .inr ⟨(q, cache'), ?_, j, hq, hc', hall, by rw [hpp]; exact heq⟩
      simp only [sinceHeightRound, hget, Option.map_some, heq, if_false]

/-- From a sound cache, `GetStateSinceHeightFor` returns `0` when BIP9's state of the block after
`pindexPrev` is `DEFINED`, and otherwise the height of the first block of the longest run of
periods with that state ending at `pindexPrev`'s: the run's periods end `j` periods below the end
`e` of the period before `pindexPrev`'s block, and the period below the run has another state. -/
theorem getStateSinceHeightFor_spec (hT : T.SkipsBuilt) (hmtp : T.TimeAboveMedian nTime)
    (hbegin : c.BeginTime ≤ c.EndTime) (hactive : c.BeginTime ≠ ALWAYS_ACTIVE)
    (hc : c.CacheSound T nTime cache) (pindexPrev : Option B) :
    ∃ height cache', c.getStateSinceHeightFor T nTime pindexPrev cache = some (height, cache') ∧
      c.CacheSound T nTime cache' ∧
      ((c.bip9StateFor T nTime pindexPrev = DEFINED ∧ height = 0) ∨
        ∃ p e j q, pindexPrev = some p ∧
          T.ancestorAt p ((T.nHeight p + 1) % c.Period.toNat) = some e ∧
          T.ancestorAt e (j * c.Period.toNat) = some q ∧ height = (T.nHeight q : Int) + 1 ∧
          (∀ i ≤ j, c.bip9State T nTime (T.ancestorAt e (i * c.Period.toNat)) =
            c.bip9StateFor T nTime pindexPrev) ∧
          c.bip9State T nTime (T.ancestorAt q c.Period.toNat) ≠ c.bip9StateFor T nTime pindexPrev) := by
  obtain ⟨cache₁, hget, hc₁⟩ := getStateFor_spec hT hmtp hbegin hactive hc pindexPrev
  rw [getStateSinceHeightFor, if_neg hactive, hget, Option.bind_some]
  dsimp only
  by_cases hdef : c.bip9StateFor T nTime pindexPrev = DEFINED
  · rw [if_pos hdef]
    exact ⟨0, cache₁, rfl, hc₁, .inl ⟨hdef, rfl⟩⟩
  rw [if_neg hdef]
  -- a state other than `DEFINED` needs a block, and a period ending below it
  obtain ⟨p, rfl⟩ : ∃ p, pindexPrev = some p := by
    cases pindexPrev with
    | none => exact absurd bip9State_none hdef
    | some p => exact ⟨p, rfl⟩
  obtain ⟨e, he⟩ : ∃ e, T.ancestorAt p ((T.nHeight p + 1) % c.Period.toNat) = some e := by
    cases h : T.ancestorAt p ((T.nHeight p + 1) % c.Period.toNat) with
    | none => rw [bip9StateFor, Option.bind_some, h] at hdef; exact absurd bip9State_none hdef
    | some e => exact ⟨e, rfl⟩
  have hend : (T.nHeight e + 1) % c.Period.toNat = 0 := isPeriodEnd_endOfPrevPeriod p e he
  have hse : c.bip9State T nTime (some e) = c.bip9StateFor T nTime (some p) := by
    rw [bip9StateFor, Option.bind_some, he]
  have hstart : c.SinceInv T nTime e (c.bip9StateFor T nTime (some p))
      (e, T.getAncestor e ((T.nHeight e : Int) - c.Period), cache₁) := by
    refine ⟨0, by rw [Nat.zero_mul]; rfl, getAncestor_sub_period hT e, hc₁, fun i hi => ?_⟩
    obtain rfl : i = 0 := Nat.le_zero.mp hi
    rw [Nat.zero_mul, BlockTree.ancestorAt_zero, hse]
  obtain ⟨⟨q, cache₂⟩, hloop, j, hq, hc₂, hall, hne⟩ :=
    Loop.loop_of_variant (fun st => T.nHeight st.1)
      (sinceHeightRound_spec hT hmtp hbegin hactive hend hdef) _ _ hstart (Nat.lt_succ_self _)
  rw [Option.bind_some, endOfPrevPeriod_eq hT, he, Option.bind_some, hloop, Option.map_some]
  exact ⟨_, cache₂, rfl, hc₂, .inr ⟨p, e, j, q, rfl, he, hq, rfl, hall, hne⟩⟩

/-! ## Along a chain -/

omit [DecidableEq B] in
/-- A period's state is never before the state of the period below: BIP9's transitions only go
forward. -/
theorem le_bip9Step (b : B) (s : ThresholdState) : s ≤ c.bip9Step T nTime b s := by
  cases s with
  | DEFINED => exact DEFINED_le _
  | STARTED =>
    rw [bip9Step]
    split_ifs <;> rfl
  | LOCKED_IN | ACTIVE | FAILED => rfl

omit [DecidableEq B] in
/-- BIP9's state at the end of a period is at least the state `j` periods below. -/
theorem bip9State_ancestorAt_mul_le (b : B) :
    ∀ j, c.bip9State T nTime (T.ancestorAt b (j * c.Period.toNat)) ≤ c.bip9State T nTime (some b)
  | 0 => by rw [Nat.zero_mul, BlockTree.ancestorAt_zero]
  | j + 1 => by
    rw [Nat.succ_mul, BlockTree.ancestorAt_add]
    cases ha : T.ancestorAt b (j * c.Period.toNat) with
    | none =>
      rw [Option.bind_none, bip9State_none]
      exact DEFINED_le _
    | some a =>
      have hj := bip9State_ancestorAt_mul_le b j
      rw [ha] at hj
      calc c.bip9State T nTime (T.ancestorAt a c.Period.toNat)
          ≤ c.bip9Step T nTime a (c.bip9State T nTime (T.ancestorAt a c.Period.toNat)) :=
            le_bip9Step a _
        _ = c.bip9State T nTime (some a) := (bip9State_some a).symm
        _ ≤ c.bip9State T nTime (some b) := hj

omit [DecidableEq B] in
/-- The period ending below a block `k` steps down ends a whole number of periods below the one
ending below the block: the two offsets differ by the periods between them. -/
theorem offset_ancestor_eq {ha hp k : Nat} (hk : ha + k = hp) :
    k + (ha + 1) % c.Period.toNat =
      (hp + 1) % c.Period.toNat + ((hp + 1) / c.Period.toNat - (ha + 1) / c.Period.toNat) *
        c.Period.toNat := by
  have hdiv_a := Nat.div_add_mod' (ha + 1) c.Period.toNat
  have hdiv_p := Nat.div_add_mod' (hp + 1) c.Period.toNat
  have hle : (ha + 1) / c.Period.toNat * c.Period.toNat ≤ (hp + 1) / c.Period.toNat * c.Period.toNat :=
    Nat.mul_le_mul_right _ (Nat.div_le_div_right (by omega))
  rw [Nat.sub_mul]
  omega

omit [DecidableEq B] in
/-- Along a chain, BIP9's state of the block after a block is at least the state of the block after
any block below it. -/
theorem bip9StateFor_ancestorAt_le (p : B) (k : Nat) :
    c.bip9StateFor T nTime (T.ancestorAt p k) ≤ c.bip9StateFor T nTime (some p) := by
  cases ha : T.ancestorAt p k with
  | none =>
    rw [bip9StateFor, Option.bind_none, bip9State_none]
    exact DEFINED_le _
  | some a =>
    have hk := BlockTree.nHeight_ancestorAt ha
    have hdown : T.ancestorAt a ((T.nHeight a + 1) % c.Period.toNat) =
        (T.ancestorAt p ((T.nHeight p + 1) % c.Period.toNat)).bind fun e =>
          T.ancestorAt e (((T.nHeight p + 1) / c.Period.toNat - (T.nHeight a + 1) / c.Period.toNat) *
            c.Period.toNat) := by
      rw [← BlockTree.ancestorAt_add, ← offset_ancestor_eq hk, BlockTree.ancestorAt_add, ha,
        Option.bind_some]
    rw [bip9StateFor, bip9StateFor, Option.bind_some, Option.bind_some, hdown]
    cases T.ancestorAt p ((T.nHeight p + 1) % c.Period.toNat) with
    | none => exact le_rfl
    | some e => exact bip9State_ancestorAt_mul_le e _

/-- Along every chain the states `GetStateFor` answers never go back: from sound caches, the state
for the block after any block below `p` is at most the state for the block after `p`. -/
theorem getStateFor_ancestorAt_le (hT : T.SkipsBuilt) (hmtp : T.TimeAboveMedian nTime)
    (hbegin : c.BeginTime ≤ c.EndTime) {cache' : ThresholdConditionCache B}
    (hc : c.CacheSound T nTime cache) (hc' : c.CacheSound T nTime cache') (p : B) (k : Nat) :
    ∃ s s' cache₁ cache₂, c.getStateFor T nTime (T.ancestorAt p k) cache = some (s, cache₁) ∧
      c.getStateFor T nTime (some p) cache' = some (s', cache₂) ∧ s ≤ s' := by
  by_cases hactive : c.BeginTime = ALWAYS_ACTIVE
  · -- an always active deployment answers `ACTIVE` everywhere
    refine ⟨ACTIVE, ACTIVE, cache, cache', ?_, ?_, le_rfl⟩ <;> rw [getStateFor, if_pos hactive]
  obtain ⟨cache₁, h₁, -⟩ := getStateFor_spec hT hmtp hbegin hactive hc (T.ancestorAt p k)
  obtain ⟨cache₂, h₂, -⟩ := getStateFor_spec hT hmtp hbegin hactive hc' (some p)
  exact ⟨_, _, cache₁, cache₂, h₁, h₂, bip9StateFor_ancestorAt_le p k⟩

end Walk

/-! ## `GetStateStatisticsFor` -/

section Stats
variable {c T nTime}

/-- A round of the count of `GetStateStatisticsFor` steps down a block and counts it until it meets
the height of the end of the previous period. -/
theorem statsCountRound_spec {pindex E : B} {r : Nat} (hE : T.ancestorAt pindex r = some E)
    (st : B × Nat) (hst : c.StatsInv T pindex r st) :
    (∃ st', c.statsCountRound T (T.nHeight E) st = some (.inl st') ∧ c.StatsInv T pindex r st' ∧
        T.nHeight st'.1 < T.nHeight st.1) ∨
      ∃ count, c.statsCountRound T (T.nHeight E) st = some (.inr count) ∧
        count = (T.lastBlocks pindex r).countP c.Condition := by
  obtain ⟨cur, count⟩ := st
  obtain ⟨i, hi, hcur, rfl⟩ := hst
  have hcurh := BlockTree.nHeight_ancestorAt hcur
  have hEh := BlockTree.nHeight_ancestorAt hE
  by_cases heq : T.nHeight E = T.nHeight cur
  · obtain rfl : i = r := by omega
    exact .inr ⟨_, by simp only [statsCountRound, heq, ne_eq, not_true_eq_false, if_false], rfl⟩
  · cases hp : T.pprev cur with
    | none =>
      have := T.nHeight_genesis cur hp
      omega
    | some p' =>
      have hp'h := T.nHeight_pprev cur p' hp
      have hnext : T.ancestorAt pindex (i + 1) = some p' := by
        rw [BlockTree.ancestorAt_add, hcur, Option.bind_some, BlockTree.ancestorAt_one hp]
      have hcount : (T.lastBlocks pindex (i + 1)).countP c.Condition =
          (T.lastBlocks pindex i).countP c.Condition + if c.Condition cur then 1 else 0 := by
        rw [BlockTree.lastBlocks_add hcur 1, BlockTree.lastBlocks_succ_of_pprev hp 0,
          List.countP_append, BlockTree.lastBlocks, List.countP_singleton]
      refine .inl ⟨(p', (T.lastBlocks pindex i).countP c.Condition +
        if c.Condition cur then 1 else 0), ?_, ⟨i + 1, by omega, hnext, hcount.symm⟩, ?_⟩
      · simp only [statsCountRound, heq, ne_eq, not_false_eq_true, if_true, hp, Option.map_some]
      · show T.nHeight p' < T.nHeight cur
        omega

/-- `GetStateStatisticsFor` reads `nullptr` for a block of the first period other than its last; from
the end of the first period on, it counts the signalling blocks since the end of the previous
period, at most as many as have elapsed, fewer than a period; and when it says the threshold is no
longer possible, the block ending the period does not move a `STARTED` deployment to
`LOCKED_IN`. -/
theorem getStateStatisticsFor_spec (hT : T.SkipsBuilt) (pindex : B) :
    (T.nHeight pindex + 1 < c.Period.toNat → c.getStateStatisticsFor T (some pindex) = none) ∧
    (c.Period.toNat ≤ T.nHeight pindex + 1 → ∃ stats,
      c.getStateStatisticsFor T (some pindex) = some stats ∧
      stats.period = c.Period ∧ stats.threshold = c.Threshold ∧
      stats.elapsed = ((T.nHeight pindex + 1) % c.Period.toNat : Nat) ∧
      stats.count = ((T.lastBlocks pindex ((T.nHeight pindex + 1) % c.Period.toNat)).countP
        c.Condition : Nat) ∧
      stats.count ≤ stats.elapsed ∧ stats.elapsed < stats.period ∧
      (stats.possible = false → ∀ (e : B) (k : Nat), T.ancestorAt e k = some pindex →
        (k : Int) + stats.elapsed = stats.period → c.bip9Step T nTime e STARTED ≠ LOCKED_IN)) := by
  have hP := c.one_le_period
  have hmod := Nat.mod_lt (T.nHeight pindex + 1) (by omega : 0 < c.Period.toNat)
  constructor
  · intro hlt
    rw [getStateStatisticsFor, endOfPrevPeriod_eq hT, Nat.mod_eq_of_lt hlt,
      BlockTree.ancestorAt_eq_none (Nat.lt_succ_self _), Option.bind_none]
  · intro hle
    -- the end of the previous period exists from the end of the first period on
    obtain ⟨E, hE⟩ : ∃ E, T.ancestorAt pindex ((T.nHeight pindex + 1) % c.Period.toNat) = some E :=
      Option.isSome_iff_exists.mp (BlockTree.ancestorAt_isSome (by
        rcases Nat.lt_or_ge (T.nHeight pindex + 1) c.Period.toNat with h | h
        · omega
        · have := Nat.mod_lt (T.nHeight pindex + 1) (by omega : 0 < c.Period.toNat)
          have : (T.nHeight pindex + 1) % c.Period.toNat ≠ T.nHeight pindex + 1 := by
            intro heq
            rw [Nat.mod_eq_iff_lt (by omega)] at heq
            omega
          omega))
    have hEh := BlockTree.nHeight_ancestorAt hE
    obtain ⟨count, hloop, hcount⟩ := Loop.loop_of_variant (fun st => T.nHeight st.1)
      (statsCountRound_spec hE) (T.nHeight pindex + 1) (pindex, 0)
      ⟨0, Nat.zero_le _, rfl, rfl⟩ (Nat.lt_succ_self _)
    have hcle : count ≤ (T.nHeight pindex + 1) % c.Period.toNat := by
      rw [hcount]
      exact le_trans List.countP_le_length (BlockTree.length_lastBlocks_le _ _)
    rw [getStateStatisticsFor, endOfPrevPeriod_eq hT, hE, Option.bind_some]
    dsimp only
    rw [hloop, Option.map_some]
    refine ⟨_, rfl, rfl, rfl, by dsimp only; omega, by rw [hcount], by dsimp only; omega,
      by dsimp only; rw [period_eq]; omega, ?_⟩
    intro hposs e k hek hkP
    dsimp only at hposs hkP
    rw [period_eq] at hkP
    have hposs' : ¬ (c.Period - c.Threshold ≥
        (T.nHeight pindex : Int) - T.nHeight E - count) := by simpa using hposs
    -- the period of `e` is the `k` blocks above `pindex` and the blocks counted so far
    have hsplit : (T.lastBlocks e c.Period.toNat).countP c.Condition =
        (T.lastBlocks e k).countP c.Condition + count := by
      rw [show c.Period.toNat = k + (T.nHeight pindex + 1) % c.Period.toNat by omega,
        BlockTree.lastBlocks_add hek, List.countP_append, hcount]
    have hk : (T.lastBlocks e k).countP c.Condition ≤ k :=
      le_trans List.countP_le_length (BlockTree.length_lastBlocks_le e k)
    rw [bip9Step]
    split_ifs with h₁ h₂
    · exact nofun
    · rw [period_eq] at hposs'
      omega
    · exact nofun

end Stats

end ThresholdConditionChecker

namespace VersionBitsFixture

open BlockTreeFixture ThresholdConditionChecker

/-- Block times of `forkTree`, each block a hundred seconds after the one numbered before it. -/
def forkTime (b : Fin 6) : Int := 100 * b.val

/-- A deployment over periods of two blocks, started at time `150`, that locks in with one
signalling block; every block but block `3` signals. -/
def forkChecker : ThresholdConditionChecker (Fin 6) where
  Condition b := b.val != 3
  BeginTime := 150
  EndTime := 10000
  Period := 2
  Threshold := 1
  Period_pos := by decide

theorem getStatesFor_bip9_fork :
    ∃ cache', forkChecker.getStatesFor forkTree forkTime (fun _ => none) [some 5, some 3, none] =
      some ([some 5, some 3, none].map (forkChecker.bip9StateFor forkTree forkTime), cache') ∧
      forkChecker.CacheSound forkTree forkTime cache' :=
  getStatesFor_bip9 (by decide) (by decide) (by decide) (by decide) _ _ cacheSound_empty

theorem getStateFor_ancestorAt_le_fork :
    ∃ s s' cache₁ cache₂,
      forkChecker.getStateFor forkTree forkTime (forkTree.ancestorAt 5 2) (fun _ => none) =
        some (s, cache₁) ∧
      forkChecker.getStateFor forkTree forkTime (some 5) (fun _ => none) = some (s', cache₂) ∧
      s ≤ s' :=
  getStateFor_ancestorAt_le (by decide) (by decide) (by decide) cacheSound_empty cacheSound_empty 5 2

theorem getStateSinceHeightFor_spec_fork :
    ∃ height cache',
      forkChecker.getStateSinceHeightFor forkTree forkTime (some 5) (fun _ => none) =
        some (height, cache') ∧ forkChecker.CacheSound forkTree forkTime cache' ∧
      ((forkChecker.bip9StateFor forkTree forkTime (some 5) = .DEFINED ∧ height = 0) ∨
        ∃ p e j q, some 5 = some p ∧
          forkTree.ancestorAt p ((forkTree.nHeight p + 1) % forkChecker.Period.toNat) = some e ∧
          forkTree.ancestorAt e (j * forkChecker.Period.toNat) = some q ∧
          height = (forkTree.nHeight q : Int) + 1 ∧
          (∀ i ≤ j, forkChecker.bip9State forkTree forkTime
              (forkTree.ancestorAt e (i * forkChecker.Period.toNat)) =
            forkChecker.bip9StateFor forkTree forkTime (some 5)) ∧
          forkChecker.bip9State forkTree forkTime (forkTree.ancestorAt q forkChecker.Period.toNat) ≠
            forkChecker.bip9StateFor forkTree forkTime (some 5)) :=
  getStateSinceHeightFor_spec (by decide) (by decide) (by decide) (by decide) cacheSound_empty
    (some 5)

theorem getStateStatisticsFor_spec_fork :
    (forkTree.nHeight 5 + 1 < forkChecker.Period.toNat →
      forkChecker.getStateStatisticsFor forkTree (some 5) = none) ∧
    (forkChecker.Period.toNat ≤ forkTree.nHeight 5 + 1 → ∃ stats,
      forkChecker.getStateStatisticsFor forkTree (some 5) = some stats ∧
      stats.period = forkChecker.Period ∧ stats.threshold = forkChecker.Threshold ∧
      stats.elapsed = ((forkTree.nHeight 5 + 1) % forkChecker.Period.toNat : Nat) ∧
      stats.count = ((forkTree.lastBlocks 5 ((forkTree.nHeight 5 + 1) %
        forkChecker.Period.toNat)).countP forkChecker.Condition : Nat) ∧
      stats.count ≤ stats.elapsed ∧ stats.elapsed < stats.period ∧
      (stats.possible = false → ∀ (e : Fin 6) (k : Nat), forkTree.ancestorAt e k = some 5 →
        (k : Int) + stats.elapsed = stats.period →
          forkChecker.bip9Step forkTree forkTime e .STARTED ≠ .LOCKED_IN)) :=
  getStateStatisticsFor_spec (by decide) 5

end VersionBitsFixture

end Emrals
