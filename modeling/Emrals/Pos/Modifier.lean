import Mathlib
import Emrals.Pos.Chain
import Emrals.Lib.SortKey

/-!
# The stake modifier

`ComputeNextStakeModifier` (`src/pos/kernel.cpp:131-225`) builds a new 64-bit stake modifier once
per modifier interval. It gathers the candidate window (the blocks from `pindexPrev` down whose
time is at least the start of the selection interval), sorts it by time and hash, and runs
`min(64, n)` rounds. Round `r` widens the window's stop time by one section and asks
`SelectBlockFromCandidates` (`src/pos/kernel.cpp:72-116`) for a block; bit `r` of the modifier is
that block's entropy bit.

`SelectBlockFromCandidates` scans the sorted candidates, skips those already selected, takes the
first unselected one whatever its time, and then replaces it by any later unselected candidate
up to the stop time whose selection hash is strictly smaller. Its answer is `roundChoice`: the
first candidate with the least selection hash among the unselected ones up to the stop time, or
the first unselected one when there is none (`selectBlockFromCandidates_eq_roundChoice`). The
scan with a best block is the library's first-least scan over the candidates before the first
one past the stop time (`selectLoop_some`), and in a window sorted by time those are the
candidates up to the stop time (`SortKey.takeWhile_le_eq_filter`).

A round succeeds as long as a candidate is unselected. When the window's hashes are distinct,
each round selects a new block, so all `min(64, n)` rounds succeed (`selectionRounds_spec`), and
the modifier's bits are the entropy bits of the selected blocks in round order
(`testBit_orEntropyBit`).
-/

namespace Emrals.Pos

open ArithUint256

section

-- the `Hash` of a serialized proof hash and stake modifier
variable (Hash : uint256 → UInt64 → uint256)

/-- The selection hash of a candidate: the hash of its proof hash and the previous modifier, moved
down 32 bits for a proof-of-stake block so that those are favoured. -/
def selectionHash (nStakeModifierPrev : UInt64) (b : CBlockIndex) : arith_uint256 :=
  let hashProof := if b.isProofOfStake then b.hashProofOfStake else b.hash
  let hashSelection := uintToArith256 (Hash hashProof nStakeModifierPrev)
  if b.isProofOfStake then hashSelection >>> 32 else hashSelection

/-- The loop of `SelectBlockFromCandidates`. `fSelected` is `best.isSome`, and `hashBest` is the
selection hash of `best`. -/
def selectLoop (selected : List uint256) (nSelectionIntervalStop : Int)
    (nStakeModifierPrev : UInt64) : Option CBlockIndex → List CBlockIndex → Option CBlockIndex
  | best, [] => best
  | best, b :: rest =>
    if best.isSome ∧ b.getBlockTime > nSelectionIntervalStop then best
    else if b.hash ∈ selected then
      selectLoop selected nSelectionIntervalStop nStakeModifierPrev best rest
    else
      match best with
      | some c =>
        if selectionHash Hash nStakeModifierPrev b < selectionHash Hash nStakeModifierPrev c then
          selectLoop selected nSelectionIntervalStop nStakeModifierPrev (some b) rest
        else selectLoop selected nSelectionIntervalStop nStakeModifierPrev best rest
      | none => selectLoop selected nSelectionIntervalStop nStakeModifierPrev (some b) rest

/-- `SelectBlockFromCandidates`: `none` when it returns `false`. The candidates are the block index
entries their hashes name in `vSortedByTimestamp`, and the selected blocks are given by hash. -/
def selectBlockFromCandidates (vSortedByTimestamp : List CBlockIndex)
    (mapSelectedBlocks : List uint256) (nSelectionIntervalStop : Int)
    (nStakeModifierPrev : UInt64) : Option CBlockIndex :=
  selectLoop Hash mapSelectedBlocks nSelectionIntervalStop nStakeModifierPrev none
    vSortedByTimestamp

/-- Bit `nRound` of the new modifier: `nStakeModifierNew |= GetStakeEntropyBit() << nRound`. -/
def orEntropyBit (nStakeModifierNew : UInt64) (b : CBlockIndex) (nRound : Nat) : UInt64 :=
  nStakeModifierNew ||| b.getStakeEntropyBit <<< nRound.toUInt64

/-- The selection rounds of `ComputeNextStakeModifier`, from the given rounds on, with the stop
time, the blocks selected so far in round order and the modifier so far. -/
def selectionRounds (params : ConsensusParams) (vSortedByTimestamp : List CBlockIndex)
    (nStakeModifierPrev : UInt64) :
    List Nat → Int → List CBlockIndex → UInt64 → Option (UInt64 × List CBlockIndex)
  | [], _, selected, nStakeModifierNew => some (nStakeModifierNew, selected)
  | nRound :: rounds, nSelectionIntervalStop, selected, nStakeModifierNew =>
    let nSelectionIntervalStop :=
      nSelectionIntervalStop + getStakeModifierSelectionIntervalSection params nRound
    match selectBlockFromCandidates Hash vSortedByTimestamp (selected.map (·.hash))
        nSelectionIntervalStop nStakeModifierPrev with
    | none => none
    | some b =>
      selectionRounds params vSortedByTimestamp nStakeModifierPrev rounds nSelectionIntervalStop
        (selected ++ [b]) (orEntropyBit nStakeModifierNew b nRound)

end

/-- `GetLastStakeModifier`: the modifier and time of the first block from `pindex` down that
generated one. -/
def getLastStakeModifier : BlockPtr → Option (UInt64 × Int)
  | [] => none
  | b :: pprev =>
    if b.generatedStakeModifier then some (b.nStakeModifier, b.getBlockTime)
    else getLastStakeModifier pprev

/-- The candidate window: the blocks from `pindexPrev` down whose time is at least the start. -/
def candidateWindow (nSelectionIntervalStart : Int) (pindexPrev : BlockPtr) : List CBlockIndex :=
  pindexPrev.takeWhile fun b => decide (b.getBlockTime ≥ nSelectionIntervalStart)

/-- The order of `vSortedByTimestamp`: the pair of time and hash. -/
def candidateKey (b : CBlockIndex) : Lex (Int × Nat) :=
  toLex (b.getBlockTime, b.hash.cmpKey)

/-- The candidates as `ComputeNextStakeModifier` sorts them. The order of `std::sort` on pairs of
distinct hashes is the one sorted order, computed here by insertion sort. -/
def sortedCandidates (nSelectionIntervalStart : Int) (pindexPrev : BlockPtr) : List CBlockIndex :=
  SortKey.sortByKey candidateKey (candidateWindow nSelectionIntervalStart pindexPrev).reverse

/-- `ComputeNextStakeModifier`: the new modifier and whether it was generated, `none` where the
source returns `false`. The debug-only selection map it logs is left out. -/
def computeNextStakeModifier (Hash : uint256 → UInt64 → uint256) (params : ConsensusParams) :
    BlockPtr → Option (UInt64 × Bool)
  | [] => none
  | _ :: [] => some (0, true)
  | current :: prev :: pprev =>
    match getLastStakeModifier (prev :: pprev) with
    | none => none
    | some (nStakeModifier, nModifierTime) =>
      if nModifierTime / params.nModifierInterval ≥ prev.getBlockTime / params.nModifierInterval
      then some (nStakeModifier, false)
      else if nModifierTime / params.nModifierInterval ≥
          current.getBlockTime / params.nModifierInterval then some (nStakeModifier, false)
      else
        let nSelectionInterval := getStakeModifierSelectionInterval params
        let nSelectionIntervalStart :=
          prev.getBlockTime / params.nModifierInterval * params.nModifierInterval -
            nSelectionInterval
        let vSortedByTimestamp := sortedCandidates nSelectionIntervalStart (prev :: pprev)
        (selectionRounds Hash params vSortedByTimestamp nStakeModifier
          (List.range (min 64 vSortedByTimestamp.length)) nSelectionIntervalStart [] 0).map
          fun r => (r.1, true)

/-! ## One round -/

section
variable {Hash : uint256 → UInt64 → uint256}

/-- The key the selection compares. -/
def selectionKey (Hash : uint256 → UInt64 → uint256) (nStakeModifierPrev : UInt64)
    (b : CBlockIndex) : Nat :=
  (selectionHash Hash nStakeModifierPrev b).toNat

/-- The block a round picks: the first with the least selection hash among the unselected
candidates up to the stop time, or the first unselected candidate when none is. -/
def roundChoice (Hash : uint256 → UInt64 → uint256) (nStakeModifierPrev : UInt64)
    (unselected : List CBlockIndex) (nSelectionIntervalStop : Int) : Option CBlockIndex :=
  match unselected.filter fun b => decide (b.getBlockTime ≤ nSelectionIntervalStop) with
  | [] => unselected.head?
  | w => SortKey.argminBy (selectionKey Hash nStakeModifierPrev) w

/-- The candidates not yet selected. -/
def unselectedOf (vSortedByTimestamp : List CBlockIndex) (selected : List uint256) :
    List CBlockIndex :=
  vSortedByTimestamp.filter fun b => decide (b.hash ∉ selected)

/-- Once a block is chosen, the scan is the first-least scan from it over the unselected
candidates before the first one past the stop time. -/
theorem selectLoop_some (selected : List uint256) (stop : Int) (prev : UInt64) (c : CBlockIndex)
    (l : List CBlockIndex) :
    selectLoop Hash selected stop prev (some c) l =
      SortKey.argminBy (selectionKey Hash prev) (c :: (l.takeWhile fun b =>
        decide (b.getBlockTime ≤ stop)).filter fun b => decide (b.hash ∉ selected)) := by
  induction l generalizing c with
  | nil => rfl
  | cons b rest ih =>
    by_cases ht : b.getBlockTime ≤ stop
    · by_cases hs : b.hash ∈ selected
      · simp [selectLoop, ht, hs, ih]
      · -- the comparison of selection hashes is the comparison of their numbers
        by_cases hlt : selectionHash Hash prev b < selectionHash Hash prev c
        · have hk : selectionKey Hash prev b < selectionKey Hash prev c := BitVec.lt_def.1 hlt
          simp [selectLoop, ht, hs, hlt, hk, ih, SortKey.argminBy_cons_cons]
        · have hk : ¬ selectionKey Hash prev b < selectionKey Hash prev c :=
            fun h => hlt (BitVec.lt_def.2 h)
          simp [selectLoop, ht, hs, hlt, hk, ih, SortKey.argminBy_cons_cons]
    · have ht' : b.getBlockTime > stop := lt_of_not_ge ht
      simp [selectLoop, ht', ht]

/-- Before any block is chosen the scan skips selected candidates and takes the first unselected
one. -/
theorem selectLoop_none_eq (selected : List uint256) (stop : Int) (prev : UInt64) :
    ∀ l : List CBlockIndex, (∀ b ∈ l, b.hash ∈ selected) →
      selectLoop Hash selected stop prev none l = none
  | [], _ => rfl
  | b :: rest, h => by
    have hb := h b List.mem_cons_self
    simp only [selectLoop, Option.isSome_none, Bool.false_eq_true, false_and, if_false, hb,
      if_true]
    exact selectLoop_none_eq selected stop prev rest fun x hx => h x (List.mem_cons_of_mem _ hx)

theorem selectLoop_none_append (selected : List uint256) (stop : Int) (prev : UInt64)
    (pre post : List CBlockIndex) (u : CBlockIndex) (hpre : ∀ b ∈ pre, b.hash ∈ selected)
    (hu : u.hash ∉ selected) :
    selectLoop Hash selected stop prev none (pre ++ u :: post) =
      selectLoop Hash selected stop prev (some u) post := by
  induction pre with
  | nil => simp [selectLoop, hu]
  | cons b pre ih =>
    have hb := hpre b List.mem_cons_self
    simp only [List.cons_append, selectLoop, Option.isSome_none, Bool.false_eq_true, false_and,
      if_false, hb, if_true]
    exact ih fun x hx => hpre x (List.mem_cons_of_mem _ hx)

/-- On candidates sorted by time, `SelectBlockFromCandidates` answers the round's choice among the
unselected candidates. -/
theorem selectBlockFromCandidates_eq_roundChoice {vSorted : List CBlockIndex}
    (hsorted : vSorted.Pairwise fun a b => a.getBlockTime ≤ b.getBlockTime)
    (selected : List uint256) (stop : Int) (prev : UInt64) :
    selectBlockFromCandidates Hash vSorted selected stop prev =
      roundChoice Hash prev (unselectedOf vSorted selected) stop := by
  unfold selectBlockFromCandidates
  cases hU : unselectedOf vSorted selected with
  | nil =>
    -- every candidate is selected
    have hall : ∀ b ∈ vSorted, b.hash ∈ selected := by
      intro b hb
      by_contra hn
      have : b ∈ unselectedOf vSorted selected := List.mem_filter.2 ⟨hb, by simpa using hn⟩
      rw [hU] at this
      cases this
    rw [selectLoop_none_eq selected stop prev vSorted hall]
    rfl
  | cons u U' =>
    -- the first unselected candidate splits the candidates
    obtain ⟨pre, post, hsplit, hpre, hu, hpost⟩ :
        ∃ pre post, vSorted = pre ++ u :: post ∧ (∀ b ∈ pre, b.hash ∈ selected) ∧
          u.hash ∉ selected ∧ U' = unselectedOf post selected := by
      obtain ⟨pre, post, hsplit, hpre, hrest⟩ := List.filter_eq_cons_iff.1 hU
      refine ⟨pre, post, hsplit, fun b hb => by simpa using hpre b hb, by simpa using hrest.1, ?_⟩
      exact hrest.2.symm
    rw [hsplit, selectLoop_none_append selected stop prev pre post u hpre hu, selectLoop_some]
    have hsorted' : (u :: post).Pairwise fun a b => a.getBlockTime ≤ b.getBlockTime := by
      rw [hsplit] at hsorted
      exact (List.pairwise_append.1 hsorted).2.1
    have hpost_sorted := (List.pairwise_cons.1 hsorted').2
    rw [SortKey.takeWhile_le_eq_filter (f := CBlockIndex.getBlockTime) hpost_sorted stop]
    unfold roundChoice
    by_cases hut : u.getBlockTime ≤ stop
    · -- the window of the round holds `u` and the later candidates up to the stop time
      have hw : (u :: U').filter (fun b => decide (b.getBlockTime ≤ stop)) =
          u :: (post.filter fun b => decide (b.getBlockTime ≤ stop)).filter
            fun b => decide (b.hash ∉ selected) := by
        rw [hpost, unselectedOf, List.filter_cons_of_pos (by simpa using hut), List.filter_comm]
      rw [hw]
    · -- no unselected candidate is up to the stop time: every later one is later than `u`
      have hlate : ∀ b ∈ post, ¬ b.getBlockTime ≤ stop := fun b hb hb' =>
        hut (le_trans ((List.pairwise_cons.1 hsorted').1 b hb) hb')
      have hempty : post.filter (fun b => decide (b.getBlockTime ≤ stop)) = [] :=
        List.filter_eq_nil_iff.2 fun b hb => by simpa using hlate b hb
      have hw : (u :: U').filter (fun b => decide (b.getBlockTime ≤ stop)) = [] := by
        rw [hpost, unselectedOf, List.filter_cons_of_neg (by simpa using hut), List.filter_comm,
          hempty, List.filter_nil]
      rw [hw, hempty]
      rfl

/-- The round's choice is an unselected candidate, found whenever one is unselected. -/
theorem roundChoice_spec {prev : UInt64} {unselected : List CBlockIndex} {stop : Int}
    (hne : unselected ≠ []) :
    ∃ c, roundChoice Hash prev unselected stop = some c ∧ c ∈ unselected := by
  unfold roundChoice
  cases hw : unselected.filter fun b => decide (b.getBlockTime ≤ stop) with
  | nil =>
    obtain ⟨u, U, rfl⟩ := List.exists_cons_of_ne_nil hne
    exact ⟨u, rfl, List.mem_cons_self⟩
  | cons w ws =>
    obtain ⟨c, hc⟩ := Option.isSome_iff_exists.1
      ((SortKey.argminBy_isSome (f := selectionKey Hash prev)).2 (List.cons_ne_nil w ws))
    obtain ⟨pre, post, hsplit, -, -⟩ := SortKey.argminBy_eq_some hc
    refine ⟨c, hc, ?_⟩
    have hcw : c ∈ unselected.filter fun b => decide (b.getBlockTime ≤ stop) := by
      rw [hw, hsplit]
      simp
    exact (List.mem_filter.1 hcw).1

/-- What a round must pick from the unselected candidates: the first with the least selection
hash among those up to the stop time, or the first unselected candidate when none is. -/
def IsRoundChoice (Hash : uint256 → UInt64 → uint256) (nStakeModifierPrev : UInt64)
    (unselected : List CBlockIndex) (nSelectionIntervalStop : Int) (c : CBlockIndex) : Prop :=
  let window := unselected.filter fun b => decide (b.getBlockTime ≤ nSelectionIntervalStop)
  (window = [] → unselected.head? = some c) ∧
    (window ≠ [] → ∃ pre post, window = pre ++ c :: post ∧
      (∀ x ∈ pre, selectionKey Hash nStakeModifierPrev c < selectionKey Hash nStakeModifierPrev x) ∧
      ∀ x ∈ post, selectionKey Hash nStakeModifierPrev c ≤ selectionKey Hash nStakeModifierPrev x)

theorem isRoundChoice_of_roundChoice {prev : UInt64} {unselected : List CBlockIndex} {stop : Int}
    {c : CBlockIndex} (h : roundChoice Hash prev unselected stop = some c) :
    IsRoundChoice Hash prev unselected stop c := by
  unfold roundChoice at h
  unfold IsRoundChoice
  dsimp only
  cases hw : unselected.filter fun b => decide (b.getBlockTime ≤ stop) with
  | nil =>
    rw [hw] at h
    exact ⟨fun _ => h, fun hne => absurd rfl hne⟩
  | cons w ws =>
    rw [hw] at h
    exact ⟨fun he => absurd he (List.cons_ne_nil w ws), fun _ => SortKey.argminBy_eq_some h⟩

end

/-! ## The rounds -/

/-- The stop time after the sections of the first `r` rounds. -/
def stopAfter (params : ConsensusParams) (start : Int) (r : Nat) : Int :=
  start + ((List.range r).map (getStakeModifierSelectionIntervalSection params)).sum

@[simp] theorem stopAfter_zero (params : ConsensusParams) (start : Int) :
    stopAfter params start 0 = start := by
  simp [stopAfter]

theorem stopAfter_succ (params : ConsensusParams) (start : Int) (r : Nat) :
    stopAfter params start (r + 1) =
      stopAfter params start r + getStakeModifierSelectionIntervalSection params r := by
  simp [stopAfter, List.range_succ, Int.add_assoc]

/-- Bit `i` after round `r` is the old bit, or the entropy bit of the round's block at `r`. -/
theorem testBit_orEntropyBit (x : UInt64) (b : CBlockIndex) {r : Nat} (hr : r < 64) (i : Nat) :
    (orEntropyBit x b r).toNat.testBit i =
      (x.toNat.testBit i || (decide (i = r) && b.stakeEntropyBit)) := by
  have hshift : r.toUInt64.toNat % 64 = r := by
    simp only [Nat.toUInt64, UInt64.toNat_ofNat']
    omega
  have hone : ∀ j, Nat.testBit 1 j = decide (j = 0) := fun j => by
    cases j <;> simp [Nat.testBit_succ]
  -- the shifted entropy bit has bit `r` alone, set when the block's entropy bit is
  have hbit : (b.getStakeEntropyBit.toNat <<< r % 2 ^ 64).testBit i =
      (decide (i = r) && b.stakeEntropyBit) := by
    rw [Nat.testBit_mod_two_pow, Nat.testBit_shiftLeft]
    cases hb : b.stakeEntropyBit
    · simp [CBlockIndex.getStakeEntropyBit, hb]
    · simp only [CBlockIndex.getStakeEntropyBit, hb, if_true, UInt64.toNat_one, hone,
        Bool.and_true]
      by_cases hi : i = r
      · subst hi
        simp [hr]
      · simp [hi]
        omega
  rw [orEntropyBit, UInt64.toNat_or, Nat.testBit_lor, UInt64.toNat_shiftLeft, hshift, hbit]

/-- What the rounds keep: distinct blocks of the window, each the choice of its round given the
blocks before it, and the modifier's bits, those blocks' entropy bits in round order. -/
structure RoundsInv (Hash : uint256 → UInt64 → uint256) (params : ConsensusParams)
    (vSorted : List CBlockIndex) (nStakeModifierPrev : UInt64) (start : Int)
    (selected : List CBlockIndex) (nStakeModifierNew : UInt64) : Prop where
  nodup : (selected.map (·.hash)).Nodup
  mem : ∀ b ∈ selected, b ∈ vSorted
  choice : ∀ r (hr : r < selected.length),
    IsRoundChoice Hash nStakeModifierPrev (unselectedOf vSorted ((selected.take r).map (·.hash)))
      (stopAfter params start (r + 1)) selected[r]
  bits : ∀ i, nStakeModifierNew.toNat.testBit i =
    if h : i < selected.length then selected[i].stakeEntropyBit else false

section
variable {Hash : uint256 → UInt64 → uint256} {params : ConsensusParams}
  {vSorted : List CBlockIndex} {prev : UInt64} {start : Int}

theorem RoundsInv.init : RoundsInv Hash params vSorted prev start [] 0 where
  nodup := List.nodup_nil
  mem := by simp
  choice := by simp
  bits := by simp

/-- While blocks are left, a round selects one and keeps the invariant. The window is sorted by
time and its hashes are distinct, so a window longer than the selection has an unselected
block. -/
theorem RoundsInv.step {selected : List CBlockIndex} {new : UInt64}
    (hsorted : vSorted.Pairwise fun a b => a.getBlockTime ≤ b.getBlockTime)
    (hnd : (vSorted.map (·.hash)).Nodup) (inv : RoundsInv Hash params vSorted prev start selected new)
    (hlen : selected.length < vSorted.length) (h64 : selected.length < 64) :
    ∃ c, selectBlockFromCandidates Hash vSorted (selected.map (·.hash))
        (stopAfter params start (selected.length + 1)) prev = some c ∧
      RoundsInv Hash params vSorted prev start (selected ++ [c])
        (orEntropyBit new c selected.length) := by
  -- some candidate is unselected: otherwise the window's hashes would all be selected ones
  have hne : unselectedOf vSorted (selected.map (·.hash)) ≠ [] := by
    intro he
    have hsub : vSorted.map (·.hash) ⊆ selected.map (·.hash) := by
      intro x hx
      obtain ⟨b, hb, rfl⟩ := List.mem_map.1 hx
      by_contra hn
      have : b ∈ unselectedOf vSorted (selected.map (·.hash)) :=
        List.mem_filter.2 ⟨hb, by simpa using hn⟩
      rw [he] at this
      cases this
    have := hnd.length_le_of_subset hsub
    simp only [List.length_map] at this
    omega
  obtain ⟨c, hc, hcmem⟩ := @roundChoice_spec Hash prev _
    (stopAfter params start (selected.length + 1)) hne
  have hcv : c ∈ vSorted := (List.mem_filter.1 hcmem).1
  have hcn : c.hash ∉ selected.map (·.hash) := by simpa using (List.mem_filter.1 hcmem).2
  refine ⟨c, by rw [selectBlockFromCandidates_eq_roundChoice hsorted, hc], ?_⟩
  refine ⟨?_, ?_, ?_, ?_⟩
  · rw [List.map_append, List.nodup_append]
    exact ⟨inv.nodup, by simp, by simpa using hcn⟩
  · intro b hb
    rcases List.mem_append.1 hb with hb | hb
    · exact inv.mem b hb
    · rw [List.mem_singleton.1 hb]; exact hcv
  · intro r hr
    rw [List.length_append, List.length_singleton] at hr
    by_cases hrl : r < selected.length
    · rw [List.take_append_of_le_length hrl.le, List.getElem_append_left hrl]
      exact inv.choice r hrl
    · have hreq : r = selected.length := by omega
      subst hreq
      rw [List.take_left' rfl, List.getElem_append_right (le_refl _)]
      simpa using isRoundChoice_of_roundChoice hc
  · intro i
    rw [testBit_orEntropyBit new c h64 i, inv.bits i]
    by_cases hi : i < selected.length
    · have hi' : i < (selected ++ [c]).length := by simp; omega
      rw [dif_pos hi, dif_pos hi', List.getElem_append_left hi]
      simp [show i ≠ selected.length by omega]
    · by_cases hie : i = selected.length
      · subst hie
        rw [dif_neg hi, dif_pos (by simp)]
        simp
      · have hi' : ¬ i < (selected ++ [c]).length := by simp; omega
        rw [dif_neg hi, dif_neg hi']
        simp [hie]

/-- The rounds from round `r` on, started with the invariant and enough blocks, all succeed and
keep it. The induction is on the number of rounds left. -/
theorem RoundsInv.run (hsorted : vSorted.Pairwise fun a b => a.getBlockTime ≤ b.getBlockTime)
    (hnd : (vSorted.map (·.hash)).Nodup) (m : Nat) :
    ∀ (selected : List CBlockIndex) (new : UInt64),
      RoundsInv Hash params vSorted prev start selected new →
      selected.length + m ≤ vSorted.length → selected.length + m ≤ 64 →
      ∃ new' selected', selectionRounds Hash params vSorted prev
          (List.range' selected.length m) (stopAfter params start selected.length) selected new =
          some (new', selected') ∧
        selected'.length = selected.length + m ∧ RoundsInv Hash params vSorted prev start selected' new' := by
  induction m with
  | zero =>
    intro selected new inv _ _
    exact ⟨new, selected, rfl, rfl, inv⟩
  | succ m ih =>
    intro selected new inv hlen h64
    obtain ⟨c, hc, inv'⟩ := inv.step hsorted hnd (by omega) (by omega)
    have hlen' : (selected ++ [c]).length + m ≤ vSorted.length := by simp; omega
    have h64' : (selected ++ [c]).length + m ≤ 64 := by simp; omega
    obtain ⟨new', selected', hrun, hl, inv''⟩ := ih (selected ++ [c]) _ inv' hlen' h64'
    refine ⟨new', selected', ?_, by simp at hl; omega, inv''⟩
    rw [List.range'_succ, selectionRounds, ← stopAfter_succ, hc]
    simpa using hrun

end

/-! ## The candidates of `ComputeNextStakeModifier` -/

/-- The sorted candidates are sorted by time. -/
theorem sortedCandidates_sorted (start : Int) (pindexPrev : BlockPtr) :
    (sortedCandidates start pindexPrev).Pairwise fun a b => a.getBlockTime ≤ b.getBlockTime := by
  refine (SortKey.sortByKey_pairwise _).imp fun {a b} h => ?_
  rw [candidateKey, candidateKey, Prod.Lex.toLex_le_toLex] at h
  rcases h with h | ⟨h, -⟩
  · exact le_of_lt h
  · exact le_of_eq h

/-- The candidates have distinct hashes when the chain below `pindexPrev` has. -/
theorem sortedCandidates_nodup {start : Int} {pindexPrev : BlockPtr}
    (hnd : (pindexPrev.map (·.hash)).Nodup) :
    ((sortedCandidates start pindexPrev).map (·.hash)).Nodup := by
  have hp := (SortKey.sortByKey_perm (f := candidateKey)
    (candidateWindow start pindexPrev).reverse).map (·.hash)
  rw [sortedCandidates, hp.nodup_iff, List.map_reverse, List.nodup_reverse]
  exact hnd.sublist ((List.takeWhile_sublist _).map _)

/-- The `min(64, n)` rounds over the sorted candidates, from the start of the selection interval,
all succeed and keep the rounds' invariant. -/
theorem selectionRounds_spec (Hash : uint256 → UInt64 → uint256) (params : ConsensusParams)
    {pindexPrev : BlockPtr} (nStakeModifierPrev : UInt64) (start : Int)
    (hnd : (pindexPrev.map (·.hash)).Nodup) :
    ∃ nStakeModifierNew selected,
      selectionRounds Hash params (sortedCandidates start pindexPrev) nStakeModifierPrev
          (List.range (min 64 (sortedCandidates start pindexPrev).length)) start [] 0 =
        some (nStakeModifierNew, selected) ∧
      selected.length = min 64 (sortedCandidates start pindexPrev).length ∧
      RoundsInv Hash params (sortedCandidates start pindexPrev) nStakeModifierPrev start selected
        nStakeModifierNew := by
  obtain ⟨new, selected, hrun, hlen, inv⟩ := @RoundsInv.run Hash params _
    nStakeModifierPrev start (sortedCandidates_sorted start pindexPrev)
    (sortedCandidates_nodup hnd) (min 64 (sortedCandidates start pindexPrev).length) [] 0
    RoundsInv.init (by simp) (by simp)
  refine ⟨new, selected, ?_, by simpa using hlen, inv⟩
  simpa [List.range_eq_range'] using hrun

/-- `ComputeNextStakeModifier` returns `true` whenever `GetLastStakeModifier` finds a modifier:
no selection round fails. -/
theorem computeNextStakeModifier_isSome (Hash : uint256 → UInt64 → uint256)
    (params : ConsensusParams) (current prev : CBlockIndex) (pprev : BlockPtr)
    (hnd : ((prev :: pprev).map (·.hash)).Nodup)
    (hlast : (getLastStakeModifier (prev :: pprev)).isSome) :
    (computeNextStakeModifier Hash params (current :: prev :: pprev)).isSome := by
  obtain ⟨⟨nStakeModifier, nModifierTime⟩, hl⟩ := Option.isSome_iff_exists.1 hlast
  simp only [computeNextStakeModifier, hl]
  split_ifs
  · rfl
  · rfl
  · obtain ⟨new, selected, hrun, -⟩ := selectionRounds_spec Hash params nStakeModifier
      (prev.getBlockTime / params.nModifierInterval * params.nModifierInterval -
        getStakeModifierSelectionInterval params) hnd
    simp [hrun]

/-- When a new modifier interval has begun, `ComputeNextStakeModifier` generates the modifier of a
selection over the sorted candidates: `min(64, n)` distinct candidates, each the choice of its
round given those before it, whose entropy bits are the modifier's bits in round order. -/
theorem compute_stake_modifier_selects (Hash : uint256 → UInt64 → uint256)
    (params : ConsensusParams) (current prev : CBlockIndex) (pprev : BlockPtr)
    (nStakeModifierPrev : UInt64) (nModifierTime : Int)
    (hnd : ((prev :: pprev).map (·.hash)).Nodup)
    (hlast : getLastStakeModifier (prev :: pprev) = some (nStakeModifierPrev, nModifierTime))
    (hprev : nModifierTime / params.nModifierInterval < prev.getBlockTime / params.nModifierInterval)
    (hcurrent :
      nModifierTime / params.nModifierInterval < current.getBlockTime / params.nModifierInterval) :
    let start := prev.getBlockTime / params.nModifierInterval * params.nModifierInterval -
      getStakeModifierSelectionInterval params
    ∃ nStakeModifierNew selected,
      computeNextStakeModifier Hash params (current :: prev :: pprev) =
        some (nStakeModifierNew, true) ∧
      selected.length = min 64 (sortedCandidates start (prev :: pprev)).length ∧
      RoundsInv Hash params (sortedCandidates start (prev :: pprev)) nStakeModifierPrev start
        selected nStakeModifierNew := by
  intro start
  obtain ⟨new, selected, hrun, hlen, inv⟩ := selectionRounds_spec Hash params nStakeModifierPrev
    start hnd
  refine ⟨new, selected, ?_, hlen, inv⟩
  simp only [computeNextStakeModifier, hlast, not_le.2 hprev, not_le.2 hcurrent, if_false]
  rw [hrun]
  rfl

namespace ModifierFixture

/-- A block of the fixture: a proof-of-work block with the entropy bit of its hash's parity. -/
def block (hash : uint256) (nTime : UInt32) (generated : Bool) : CBlockIndex :=
  ⟨hash, nTime, 0x1e0fffff, false, BitVec.toNat (w := 256) hash % 2 = 1, generated, 0, 0⟩

/-- The genesis block, which generated the modifier `0` at time `0`, a block two minutes later,
and the block after it, three minutes after the genesis block. -/
theorem compute_stake_modifier_selects_three_blocks :
    (([block 1 120 false, block 0 0 true]).map (·.hash)).Nodup ∧
      getLastStakeModifier [block 1 120 false, block 0 0 true] = some (0, 0) ∧
      (0 : Int) / mainParams.nModifierInterval <
        (block 1 120 false).getBlockTime / mainParams.nModifierInterval ∧
      (0 : Int) / mainParams.nModifierInterval <
        (block 2 180 false).getBlockTime / mainParams.nModifierInterval ∧
      let start := (block 1 120 false).getBlockTime / mainParams.nModifierInterval *
        mainParams.nModifierInterval - getStakeModifierSelectionInterval mainParams
      ∃ nStakeModifierNew selected,
        computeNextStakeModifier (fun h _ => h) mainParams
            [block 2 180 false, block 1 120 false, block 0 0 true] =
          some (nStakeModifierNew, true) ∧
        selected.length = min 64 (sortedCandidates start [block 1 120 false, block 0 0 true]).length ∧
        RoundsInv (fun h _ => h) mainParams (sortedCandidates start [block 1 120 false,
          block 0 0 true]) 0 start selected nStakeModifierNew :=
  ⟨by decide, by decide, by decide, by decide,
    compute_stake_modifier_selects (fun h _ => h) mainParams (block 2 180 false) (block 1 120 false)
      [block 0 0 true] 0 0 (by decide) (by decide) (by decide) (by decide)⟩

end ModifierFixture

end Emrals.Pos
