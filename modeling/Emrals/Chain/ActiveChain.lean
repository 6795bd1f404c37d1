import Mathlib
import Emrals.Chain.VersionBits
import Emrals.Lib.LowerBound

/-!
# The active chain

`CChain` (`src/chain.h:518-575`, `src/chain.cpp:12-67`) keeps the blocks of the active chain in a
vector, the block at height `h` in `vChain[h]`. `SetTip` resizes the vector to the new tip's height
and writes the tip and its ancestors down from the top, stopping at the first height that already
holds the right block. `FindFork` goes down from a block until it meets the chain, `GetLocator`
collects block hashes at exponentially growing distances, and `FindEarliestAtLeast` binary-searches
the chain with `std::lower_bound`.

The vector of a chain with tip `t` is `BlockTree.chainOf t`: the ancestors of `t` by height
(`CChain.Holds`). The early stop of `SetTip` is sound because a height that holds the right block
holds it for the old tip too, and so does every height below (`setTipRound_spec`): from a chain
holding any tip, `SetTip` gives the chain holding the new one. On such a chain `Contains` is being
an ancestor of the tip, so `FindFork` returns the highest common ancestor of the tip and the block,
`GetLocator` returns ancestors of strictly falling height down to the genesis block, and, as the
greatest block time so far `nTimeMax` only grows along the chain, `FindEarliestAtLeast` returns the
lowest block of the chain past both bounds.
-/

namespace Emrals

namespace BlockTree

variable {B : Type*} (T : BlockTree B)

/-- The blocks of the chain ending at `tip`, by height. -/
def chainOf (tip : B) : List (Option B) :=
  (List.range (T.nHeight tip + 1)).map fun h => T.ancestorAt tip (T.nHeight tip - h)

variable {T}

theorem length_chainOf (tip : B) : (T.chainOf tip).length = T.nHeight tip + 1 := by
  simp [chainOf]

theorem getElem?_chainOf (tip : B) (h : Nat) :
    (T.chainOf tip)[h]? =
      if h < T.nHeight tip + 1 then some (T.ancestorAt tip (T.nHeight tip - h)) else none := by
  rw [chainOf, List.getElem?_map]
  by_cases hh : h < T.nHeight tip + 1
  · rw [List.getElem?_range hh, if_pos hh]
    rfl
  · rw [List.getElem?_eq_none (by simpa using hh), if_neg hh]
    rfl

/-- The ancestor at a height below a block's ancestor is the block's ancestor at that height. -/
theorem ancestorAt_ancestorAt {b a : B} {k : Nat} (hk : T.ancestorAt b k = some a) (h : Nat)
    (hh : h ≤ T.nHeight a) :
    T.ancestorAt a (T.nHeight a - h) = T.ancestorAt b (T.nHeight b - h) := by
  have hab := nHeight_ancestorAt hk
  rw [show T.nHeight b - h = k + (T.nHeight a - h) by omega, ancestorAt_add, hk, Option.bind_some]

theorem getElem_chainOf (t : B) {h : Nat} (hh : h < (T.chainOf t).length) :
    (T.chainOf t)[h] = T.ancestorAt t (T.nHeight t - h) := by
  have hget := getElem?_chainOf (T := T) t h
  rw [List.getElem?_eq_getElem hh, if_pos (by rwa [length_chainOf] at hh)] at hget
  exact Option.some.inj hget

/-- Every entry of the chain of `t` is a block, `t`'s ancestor at the entry's height. -/
theorem getElem_chainOf_eq_some (t : B) {i : Nat} (hi : i < (T.chainOf t).length) :
    ∃ a, (T.chainOf t)[i] = some a ∧ T.ancestorAt t (T.nHeight t - i) = some a ∧
      T.nHeight a = i := by
  have hiH : i ≤ T.nHeight t := by rw [length_chainOf] at hi; omega
  obtain ⟨a, ha⟩ := Option.isSome_iff_exists.mp
    (ancestorAt_isSome (T := T) (b := t) (Nat.sub_le (T.nHeight t) i))
  have := nHeight_ancestorAt ha
  exact ⟨a, by rw [getElem_chainOf, ha], ha, by omega⟩

theorem ancestorAt_one_eq (b : B) : T.ancestorAt b 1 = T.pprev b := by
  rw [ancestorAt_succ]
  cases T.pprev b <;> rfl

/-- Every `nTimeMax` is the one `AddToBlockIndex` sets: the greatest block time up to the block. -/
def TimeMaxSet (T : BlockTree B) (nTime nTimeMax : B → Nat) : Prop :=
  ∀ b, nTimeMax b = match T.pprev b with
    | some p => max (nTimeMax p) (nTime b)
    | none => nTime b

instance [Fintype B] (nTime nTimeMax : B → Nat) : Decidable (T.TimeMaxSet nTime nTimeMax) :=
  by unfold TimeMaxSet; infer_instance

/-- The greatest block time so far only grows up the chain. -/
theorem nTimeMax_ancestorAt_le {nTime nTimeMax : B → Nat} (hset : T.TimeMaxSet nTime nTimeMax) :
    ∀ {x a : B} {k : Nat}, T.ancestorAt x k = some a → nTimeMax a ≤ nTimeMax x
  | x, a, 0, h => by cases h; exact le_rfl
  | x, a, k + 1, h => by
    rw [ancestorAt_succ] at h
    cases hp : T.pprev x with
    | none => rw [hp] at h; cases h
    | some q =>
      rw [hp, Option.bind_some] at h
      rw [hset x, hp]
      exact le_trans (nTimeMax_ancestorAt_le hset h) (le_max_left _ _)

end BlockTree

/-- `CChain`: `vChain[h]` is the block of the chain at height `h`, `nullptr` being `none`. -/
structure CChain (B : Type*) where
  vChain : List (Option B)

namespace CChain

variable {B : Type*} (T : BlockTree B) (C : CChain B)

/-- `Genesis`. -/
def genesis : Option B := if 0 < C.vChain.length then C.vChain.getD 0 none else none

/-- `Tip`. -/
def tip : Option B :=
  if 0 < C.vChain.length then C.vChain.getD (C.vChain.length - 1) none else none

/-- `operator[]`. -/
def get (nHeight : Int) : Option B :=
  if nHeight < 0 ∨ nHeight ≥ C.vChain.length then none else C.vChain.getD nHeight.toNat none

/-- `Height`. -/
def height : Int := C.vChain.length - 1

/-- `std::vector::resize`: cut to `n` entries, or filled up with `nullptr`. -/
def resize (vChain : List (Option B)) (n : Nat) : List (Option B) :=
  vChain.take n ++ List.replicate (n - vChain.length) none

section Model
variable [DecidableEq B] {H : Type*}

/-- `Contains`. -/
def contains (pindex : B) : Bool := C.get (T.nHeight pindex) == some pindex

/-- `Next`. -/
def next (pindex : B) : Option B :=
  if C.contains T pindex then C.get (T.nHeight pindex + 1) else none

/-- A round of `while (pindex && vChain[pindex->nHeight] != pindex)` in `SetTip`. -/
def setTipRound : Option B × List (Option B) → Option ((Option B × List (Option B)) ⊕ List (Option B))
  | (none, vChain) => some (.inr vChain)
  | (some b, vChain) =>
    if vChain.getD (T.nHeight b) none = some b then some (.inr vChain)
    else some (.inl (T.pprev b, vChain.set (T.nHeight b) (some b)))

/-- `SetTip`; every round goes down a block, so `nHeight + 2` rounds are enough. -/
def setTip : Option B → Option (CChain B)
  | none => some ⟨[]⟩
  | some pindex =>
    (Loop.loop (setTipRound T) (T.nHeight pindex + 2)
      (some pindex, resize C.vChain (T.nHeight pindex + 1))).map CChain.mk

/-- `SetTip` called with one tip after another, as `ActivateBestChainStep` and `DisconnectTip` do. -/
def setTips : CChain B → List (Option B) → Option (CChain B)
  | C, [] => some C
  | C, pindex :: tips => (C.setTip T pindex).bind fun C => setTips C tips

/-- A round of `while (pindex && !Contains(pindex))` in `FindFork`. -/
def findForkRound : Option B → Option (Option B ⊕ Option B)
  | none => some (.inr none)
  | some b => if C.contains T b then some (.inr (some b)) else some (.inl (T.pprev b))

/-- `FindFork`: first down to the chain's height with `GetAncestor`, then along `pprev` until the
chain contains the block; every round goes down a block, so `nHeight + 2` rounds are enough. -/
def findFork : Option B → Option (Option B)
  | none => some none
  | some pindex =>
    let start := if (T.nHeight pindex : Int) > C.height then T.getAncestor pindex C.height
      else some pindex
    Loop.loop (C.findForkRound T) (T.nHeight pindex + 2) start

/-- A round of `while (pindex)` in `GetLocator`, over the block, the step and the hashes so far. -/
def getLocatorRound (hash : B → H) : B × Nat × List H → Option ((B × Nat × List H) ⊕ List H)
  | (pindex, nStep, vHave) =>
    let vHave := vHave ++ [hash pindex]
    -- stop when the genesis block is added
    if T.nHeight pindex = 0 then some (.inr vHave)
    else
      let nHeight : Int := max ((T.nHeight pindex : Int) - nStep) 0
      -- the chain's own index where it contains the block, the skip list otherwise
      let next := if C.contains T pindex then C.get nHeight else T.getAncestor pindex nHeight
      let nStep := if vHave.length > 10 then nStep * 2 else nStep
      match next with
      | some b => some (.inl (b, nStep, vHave))
      | none => some (.inr vHave)

/-- `GetLocator`, from the tip by default; every round goes down a block, so `nHeight + 1` rounds
are enough. -/
def getLocator (hash : B → H) (pindex : Option B) : Option (List H) :=
  match pindex.orElse fun _ => C.tip with
  | none => some []
  | some pindex => Loop.loop (C.getLocatorRound T hash) (T.nHeight pindex + 1) (pindex, 1, [])

end Model

/-- `FindEarliestAtLeast`: `std::lower_bound` over the chain, the comparison being that the greatest
block time so far is below `nTime` or the height below `height`; the outer `none` is a read through
a null entry by the comparison. -/
def findEarliestAtLeast (nTimeMax : B → Nat) (nTime : Int) (height : Int) : Option (Option B) :=
  (LowerBound.lowerBound (fun pBlock : Option B => pBlock.map fun b =>
      decide ((nTimeMax b : Int) < nTime) || decide ((T.nHeight b : Int) < height)) C.vChain).map
    fun lower => C.vChain.getD lower none

/-- The chain holds the blocks of the chain ending at `t`, or is empty when there is no tip. -/
def Holds (t : Option B) : Prop :=
  C.vChain = match t with
    | none => []
    | some t => T.chainOf t

/-! ## `SetTip` -/

section Resize
variable {T} {C}

theorem length_resize (vChain : List (Option B)) (n : Nat) : (resize vChain n).length = n := by
  rw [resize, List.length_append, List.length_take, List.length_replicate]
  omega

theorem getElem?_resize (vChain : List (Option B)) (n h : Nat) :
    (resize vChain n)[h]? = if h < n then some (vChain.getD h none) else none := by
  rw [resize, List.getElem?_append, List.getElem?_take, List.getElem?_replicate, List.length_take]
  by_cases hn : h < n <;> by_cases hl : h < vChain.length <;>
    simp [hn, hl, List.getD_eq_getElem?_getD] <;> omega

theorem getD_resize (vChain : List (Option B)) (n h : Nat) :
    (resize vChain n).getD h none = if h < n then vChain.getD h none else none := by
  rw [List.getD_eq_getElem?_getD, getElem?_resize]
  split <;> rfl

theorem getD_resize_chainOf (t : B) (m h : Nat) :
    (resize (T.chainOf t) m).getD h none =
      if h < m ∧ h ≤ T.nHeight t then T.ancestorAt t (T.nHeight t - h) else none := by
  rw [getD_resize]
  by_cases hm : h < m
  · rw [if_pos hm, List.getD_eq_getElem?_getD, BlockTree.getElem?_chainOf]
    by_cases hh : h ≤ T.nHeight t
    · rw [if_pos (by omega), if_pos ⟨hm, hh⟩, Option.getD_some]
    · rw [if_neg (by omega), if_neg (by omega)]
      rfl
  · rw [if_neg hm, if_neg (by omega)]

theorem getD_resize_nil (m h : Nat) : (resize ([] : List (Option B)) m).getD h none = none := by
  rw [getD_resize]
  split <;> rfl

/-- Below a height where the resized vector of a chain holds `p`'s ancestor, it holds `p`'s
ancestors: the old tip and `p` share the ancestors of that block. -/
theorem resize_eq_ancestor {t : Option B} (hC : C.Holds T t) {p b : B} {j : Nat}
    (hb : T.ancestorAt p j = some b)
    (hR : (resize C.vChain (T.nHeight p + 1)).getD (T.nHeight b) none = some b) (h : Nat)
    (hh : h ≤ T.nHeight b) :
    (resize C.vChain (T.nHeight p + 1)).getD h none = T.ancestorAt p (T.nHeight p - h) := by
  rw [hC] at hR ⊢
  cases t with
  | none => rw [getD_resize_nil] at hR; cases hR
  | some t =>
    rw [getD_resize_chainOf] at hR ⊢
    have hbp := BlockTree.nHeight_ancestorAt hb
    split at hR
    · next hcond =>
      rw [if_pos ⟨by omega, by omega⟩, ← BlockTree.ancestorAt_ancestorAt hR h hh,
        BlockTree.ancestorAt_ancestorAt hb h hh]
    · cases hR

/-- A vector of the new tip's length whose entries are `p`'s ancestors is the chain of `p`. -/
theorem eq_chainOf {p : B} {vChain : List (Option B)} (hlen : vChain.length = T.nHeight p + 1)
    (hent : ∀ h < T.nHeight p + 1, vChain[h]? = some (T.ancestorAt p (T.nHeight p - h))) :
    vChain = T.chainOf p := by
  apply List.ext_getElem?
  intro h
  rw [BlockTree.getElem?_chainOf]
  split
  · next hh => exact hent h hh
  · next hh => exact List.getElem?_eq_none (by omega)

end Resize

/-- The rounds a walk down along `pprev` can still take from a block. -/
def walkMeasure : Option B → Nat
  | none => 0
  | some b => T.nHeight b + 1

section WalkMeasure
variable {T}

theorem walkMeasure_pprev (b : B) : walkMeasure T (T.pprev b) < walkMeasure T (some b) := by
  cases hpp : T.pprev b with
  | none => exact Nat.succ_pos _
  | some q =>
    have := T.nHeight_pprev b q hpp
    show T.nHeight q + 1 < T.nHeight b + 1
    omega

theorem walkMeasure_ancestorAt_le (p : B) (j : Nat) :
    walkMeasure T (T.ancestorAt p j) ≤ T.nHeight p + 1 := by
  cases hb : T.ancestorAt p j with
  | none => exact Nat.zero_le _
  | some b =>
    have := BlockTree.nHeight_ancestorAt hb
    show T.nHeight b + 1 ≤ T.nHeight p + 1
    omega

end WalkMeasure

/-- What the walk of `SetTip` down from `p` keeps, `j` blocks down: the vector has the new tip's
length and holds `p`'s ancestors above the walk and the resized vector `R` below it. -/
def SetTipInv (p : B) (R : List (Option B)) (j : Nat) : Option B × List (Option B) → Prop
  | (pindex, vChain) => pindex = T.ancestorAt p j ∧ vChain.length = T.nHeight p + 1 ∧
    ∀ h < T.nHeight p + 1, vChain[h]? =
      some (if T.nHeight p < h + j then T.ancestorAt p (T.nHeight p - h) else R.getD h none)

section SetTipWalk
variable {T} [DecidableEq B] {C}

/-- A round of the walk of `SetTip` writes `p`'s ancestor at its height and goes down a block, or
stops with the chain of `p`: at `nullptr`, or at a height that already holds the block, below which
the old chain already holds `p`'s ancestors. -/
theorem setTipRound_spec {t : Option B} (hC : C.Holds T t) (p : B)
    (s : Option B × List (Option B))
    (hs : ∃ j, SetTipInv T p (resize C.vChain (T.nHeight p + 1)) j s) :
    (∃ s', setTipRound T s = some (.inl s') ∧
        (∃ j, SetTipInv T p (resize C.vChain (T.nHeight p + 1)) j s') ∧
        walkMeasure T s'.1 < walkMeasure T s.1) ∨
      ∃ r, setTipRound T s = some (.inr r) ∧ r = T.chainOf p := by
  obtain ⟨pindex, vChain⟩ := s
  obtain ⟨j, hj, hlen, hent⟩ := hs
  cases pindex with
  | none =>
    -- past the genesis block: every height holds `p`'s ancestor
    have hjn : T.nHeight p < j := by
      by_contra hle
      have := BlockTree.ancestorAt_isSome (T := T) (b := p) (k := j) (by omega)
      rw [← hj] at this
      cases this
    refine .inr ⟨vChain, rfl, eq_chainOf hlen fun h hh => ?_⟩
    rw [hent h hh, if_pos (by omega)]
  | some b =>
    have hbp := BlockTree.nHeight_ancestorAt hj.symm
    have hbent := hent (T.nHeight b) (by omega)
    rw [if_neg (by omega)] at hbent
    by_cases hstop : vChain.getD (T.nHeight b) none = some b
    · -- the height already holds `b`: so does the old chain, and below `b` it holds `p`'s ancestors
      have hR : (resize C.vChain (T.nHeight p + 1)).getD (T.nHeight b) none = some b := by
        rw [List.getD_eq_getElem?_getD, hbent, Option.getD_some] at hstop
        exact hstop
      refine .inr ⟨vChain, by rw [setTipRound, if_pos hstop], eq_chainOf hlen fun h hh => ?_⟩
      rw [hent h hh]
      split
      · rfl
      · rw [resize_eq_ancestor hC hj.symm hR h (by omega)]
    · refine .inl ⟨(T.pprev b, vChain.set (T.nHeight b) (some b)),
        by rw [setTipRound, if_neg hstop], ⟨j + 1, ?_, by rw [List.length_set, hlen], fun h hh => ?_⟩,
        ?_⟩
      · rw [BlockTree.ancestorAt_add, ← hj, Option.bind_some, BlockTree.ancestorAt_one_eq]
      · rw [List.getElem?_set, hlen]
        by_cases hhb : T.nHeight b = h
        · subst hhb
          rw [if_pos rfl, if_pos hh, if_pos (by omega), show T.nHeight p - T.nHeight b = j by omega,
            hj]
        · rw [if_neg hhb, hent h hh]
          by_cases hlt : T.nHeight p < h + j
          · rw [if_pos hlt, if_pos (by omega)]
          · rw [if_neg hlt, if_neg (by omega)]
      · exact walkMeasure_pprev b

/-- From a chain holding any tip, `SetTip` gives the chain holding the new tip. -/
theorem setTip_holds {t : Option B} (hC : C.Holds T t) :
    ∀ p : Option B, ∃ C', C.setTip T p = some C' ∧ C'.Holds T p
  | none => ⟨⟨[]⟩, rfl, rfl⟩
  | some p => by
    have hstart : ∃ j, SetTipInv T p (resize C.vChain (T.nHeight p + 1)) j
        (some p, resize C.vChain (T.nHeight p + 1)) := by
      refine ⟨0, rfl, length_resize _ _, fun h hh => ?_⟩
      rw [getElem?_resize, if_pos hh, if_neg (by omega), getD_resize, if_pos hh]
    obtain ⟨r, hr, rfl⟩ := Loop.loop_of_variant (fun s : Option B × List (Option B) => walkMeasure T s.1) (setTipRound_spec hC p)
      (T.nHeight p + 2) _ hstart (by show T.nHeight p + 1 < T.nHeight p + 2; omega)
    exact ⟨⟨T.chainOf p⟩, by rw [setTip, hr, Option.map_some], rfl⟩

/-- `SetTip` called with one tip after another keeps the chain holding the last tip. -/
theorem setTips_holds : ∀ {C : CChain B} {t : Option B}, C.Holds T t → ∀ tips : List (Option B),
    ∃ C', C.setTips T tips = some C' ∧ C'.Holds T (tips.getLastD t)
  | C, t, hC, [] => ⟨C, rfl, hC⟩
  | C, t, hC, p :: tips => by
    obtain ⟨C₁, h₁, hC₁⟩ := setTip_holds hC p
    obtain ⟨C', h', hC'⟩ := setTips_holds hC₁ tips
    refine ⟨C', by rw [setTips, h₁, Option.bind_some, h'], ?_⟩
    rwa [List.getLastD_cons]

end SetTipWalk

/-! ## Queries on a chain holding a tip -/

section Queries
variable {T} {C} {t : B}

theorem length_of_holds (hC : C.Holds T (some t)) : C.vChain.length = T.nHeight t + 1 := by
  rw [hC]
  exact BlockTree.length_chainOf t

theorem get_of_holds (hC : C.Holds T (some t)) (h : Int) :
    C.get h = if 0 ≤ h ∧ h ≤ T.nHeight t then T.ancestorAt t (T.nHeight t - h.toNat) else none := by
  unfold get
  rw [length_of_holds hC]
  by_cases hh : 0 ≤ h ∧ h ≤ T.nHeight t
  · rw [if_neg (by omega), if_pos hh, hC, List.getD_eq_getElem?_getD, BlockTree.getElem?_chainOf,
      if_pos (by omega), Option.getD_some]
  · rw [if_pos (by omega), if_neg hh]

theorem tip_of_holds (hC : C.Holds T (some t)) : C.tip = some t := by
  unfold tip
  rw [length_of_holds hC, if_pos (Nat.succ_pos _), hC, List.getD_eq_getElem?_getD,
    BlockTree.getElem?_chainOf, if_pos (by omega), Nat.add_sub_cancel, Nat.sub_self]
  rfl

theorem height_of_holds (hC : C.Holds T (some t)) : C.height = T.nHeight t := by
  rw [height, length_of_holds hC]
  push_cast
  omega

theorem tip_of_holds_none (hC : C.Holds T none) : C.tip = none := by
  unfold tip
  rw [hC]
  rfl

theorem height_of_holds_none (hC : C.Holds T none) : C.height = -1 := by
  rw [height, hC]
  rfl

variable [DecidableEq B]

/-- A block above the chain's height is not in it. -/
theorem contains_eq_false_of_height_lt {d : B} (hd : C.height < T.nHeight d) :
    C.contains T d = false := by
  unfold contains get
  rw [if_pos (Or.inr (by unfold height at hd; omega))]
  rfl

/-- The chain holding `t` contains exactly the ancestors of `t`. -/
theorem contains_iff (hC : C.Holds T (some t)) (d : B) :
    C.contains T d = true ↔ T.IsAncestorOrSelf d t := by
  unfold contains
  rw [beq_iff_eq, get_of_holds hC]
  constructor
  · intro h
    split at h
    · exact ⟨_, h⟩
    · cases h
  · rintro ⟨k, hk⟩
    have := BlockTree.nHeight_ancestorAt hk
    rw [if_pos ⟨by omega, by omega⟩, Int.toNat_natCast, show T.nHeight t - T.nHeight d = k by omega,
      hk]

theorem contains_of_holds_none (hC : C.Holds T none) (d : B) : C.contains T d = false :=
  contains_eq_false_of_height_lt (by rw [height_of_holds_none hC]; omega)

/-- `Next` of a block of the chain is its child on the chain. -/
theorem next_of_holds (hC : C.Holds T (some t)) {d n : B} (hn : C.next T d = some n) :
    T.pprev n = some d ∧ T.IsAncestorOrSelf n t := by
  unfold next at hn
  split at hn
  · next hd =>
    obtain ⟨k, hk⟩ := (contains_iff hC d).mp hd
    have hdt := BlockTree.nHeight_ancestorAt hk
    rw [get_of_holds hC] at hn
    split at hn
    · next hh =>
      have hk' : k = (T.nHeight t - (T.nHeight d + 1 : Int).toNat) + 1 := by omega
      refine ⟨?_, ⟨_, hn⟩⟩
      rw [hk', BlockTree.ancestorAt_add, hn, Option.bind_some, BlockTree.ancestorAt_one_eq] at hk
      exact hk
    · cases hn
  · cases hn

end Queries

theorem neg_one_le_height : -1 ≤ C.height := by
  unfold height
  omega

/-- From a chain holding any tip, the empty chain included, `SetTip` called with one tip after
another leaves the chain of the last tip: `Tip` is that tip, `Height` its height (`-1` without a
tip), `Contains` holds exactly of its ancestors, and `Next` of a block is its child on the chain. -/
theorem setTips_spec [DecidableEq B] {C : CChain B} {t : Option B} (hC : C.Holds T t)
    (tips : List (Option B)) :
    ∃ C', C.setTips T tips = some C' ∧ C'.tip = tips.getLastD t ∧
      C'.height = (tips.getLastD t).elim (-1) (fun u => (T.nHeight u : Int)) ∧
      (∀ d, C'.contains T d = true ↔ ∃ u, tips.getLastD t = some u ∧ T.IsAncestorOrSelf d u) ∧
      ∀ d n, C'.next T d = some n → T.pprev n = some d ∧ C'.contains T n = true := by
  obtain ⟨C', hrun, hC'⟩ := setTips_holds hC tips
  refine ⟨C', hrun, ?_⟩
  cases hlast : tips.getLastD t with
  | none =>
    rw [hlast] at hC'
    refine ⟨tip_of_holds_none hC', height_of_holds_none hC', fun d => ?_, fun d n hn => ?_⟩
    · rw [contains_of_holds_none hC' d]
      simp
    · -- the empty chain contains nothing, so `Next` is `nullptr`
      unfold next at hn
      rw [contains_of_holds_none hC' d] at hn
      cases hn
  | some u =>
    rw [hlast] at hC'
    refine ⟨tip_of_holds hC', height_of_holds hC', fun d => ?_, fun d n hn => ?_⟩
    · rw [contains_iff hC' d]
      simp
    · obtain ⟨hnd, hnu⟩ := next_of_holds hC' hn
      exact ⟨hnd, (contains_iff hC' n).mpr hnu⟩


/-! ## `FindFork` -/

/-- What the walk of `FindFork` down from `p` keeps: it is at `p`'s ancestor `j` blocks down, and
the chain contains no block above it. -/
def ForkInv [DecidableEq B] (p : B) (s : Option B) : Prop :=
  ∃ j, s = T.ancestorAt p j ∧ ∀ i < j, ∀ d, T.ancestorAt p i = some d → C.contains T d = false

/-- `r` is the highest ancestor of `p` that the chain contains, `nullptr` when there is none. -/
structure IsForkOf [DecidableEq B] (p : B) (r : Option B) : Prop where
  sound : ∀ c, r = some c → T.IsAncestorOrSelf c p ∧ C.contains T c = true
  highest : ∀ d, T.IsAncestorOrSelf d p → C.contains T d = true →
    ∃ c, r = some c ∧ T.nHeight d ≤ T.nHeight c

section FindFork
variable {T} {C} [DecidableEq B] {p : B}

/-- A round of the walk of `FindFork` goes down a block past one the chain does not contain, or
stops at the highest contained ancestor, or at `nullptr` when there is none. -/
theorem findForkRound_spec (s : Option B) (hs : C.ForkInv T p s) :
    (∃ s', C.findForkRound T s = some (.inl s') ∧ C.ForkInv T p s' ∧
        walkMeasure T s' < walkMeasure T s) ∨
      ∃ r, C.findForkRound T s = some (.inr r) ∧ C.IsForkOf T p r := by
  obtain ⟨j, rfl, hj⟩ := hs
  -- a contained ancestor is at least `j` blocks down
  have hbelow : ∀ d k, T.ancestorAt p k = some d → C.contains T d = true → j ≤ k := by
    intro d k hk hd
    by_contra hkj
    rw [hj k (by omega) d hk] at hd
    cases hd
  cases hb : T.ancestorAt p j with
  | none =>
    refine .inr ⟨none, rfl, ⟨fun c hc => (nomatch hc), fun d hdp hd => ?_⟩⟩
    obtain ⟨k, hk⟩ := hdp
    have hjk := hbelow d k hk hd
    rw [show k = j + (k - j) by omega, BlockTree.ancestorAt_add, hb] at hk
    cases hk
  | some b =>
    by_cases hc : C.contains T b
    · refine .inr ⟨some b, by rw [findForkRound, if_pos hc], ⟨fun c hcb => ?_,
        fun d hdp hd => ⟨b, rfl, ?_⟩⟩⟩
      · cases hcb
        exact ⟨⟨j, hb⟩, hc⟩
      · obtain ⟨k, hk⟩ := hdp
        have := hbelow d k hk hd
        have := BlockTree.nHeight_ancestorAt hk
        have := BlockTree.nHeight_ancestorAt hb
        omega
    · refine .inl ⟨T.pprev b, by rw [findForkRound, if_neg hc], ⟨j + 1, ?_, fun i hi d hd => ?_⟩,
        walkMeasure_pprev b⟩
      · rw [BlockTree.ancestorAt_add, hb, Option.bind_some, BlockTree.ancestorAt_one_eq]
      · by_cases hij : i < j
        · exact hj i hij d hd
        · rw [show i = j by omega, hb] at hd
          cases hd
          exact Bool.eq_false_iff.mpr hc

/-- With skip pointers set by `BuildSkip`, `FindFork` returns the highest ancestor of the block
that the chain contains, and `nullptr` when it contains none; the jump down to the chain's height
skips only blocks above the chain. -/
theorem findFork_spec (hT : T.SkipsBuilt) (p : B) :
    ∃ r, C.findFork T (some p) = some r ∧ C.IsForkOf T p r := by
  have hstart : C.ForkInv T p
      (if (T.nHeight p : Int) > C.height then T.getAncestor p C.height else some p) := by
    split
    · next hgt =>
      have hh := C.neg_one_le_height
      refine ⟨((T.nHeight p : Int) - C.height).toNat, ?_, fun i hi d hd => ?_⟩
      · rw [← BlockTree.getAncestor_sub hT, show (T.nHeight p : Int) -
          (((T.nHeight p : Int) - C.height).toNat : Nat) = C.height by omega]
      · -- blocks above the chain's height are not in it
        have := BlockTree.nHeight_ancestorAt hd
        exact contains_eq_false_of_height_lt (by omega)
    · exact ⟨0, rfl, fun i hi => absurd hi (Nat.not_lt_zero i)⟩
  obtain ⟨j, hj, -⟩ := id hstart
  exact Loop.loop_of_variant (walkMeasure T) findForkRound_spec (T.nHeight p + 2) _ hstart
    (by rw [hj]; have := walkMeasure_ancestorAt_le (T := T) p j; omega)

/-- On the active chain with tip `t`, `FindFork` returns the last common block of the chain and
the block: the highest block below or at both. -/
theorem findFork_highest_common (hT : T.SkipsBuilt) {t : B} (hC : C.Holds T (some t)) (p : B) :
    ∃ r, C.findFork T (some p) = some r ∧
      (∀ c, r = some c → T.IsAncestorOrSelf c p ∧ T.IsAncestorOrSelf c t) ∧
      ∀ d, T.IsAncestorOrSelf d p → T.IsAncestorOrSelf d t →
        ∃ c, r = some c ∧ T.nHeight d ≤ T.nHeight c := by
  obtain ⟨r, hr, ⟨hsound, hhigh⟩⟩ := findFork_spec (C := C) hT p
  refine ⟨r, hr, fun c hc => ?_, fun d hdp hdt => hhigh d hdp ((contains_iff hC d).mpr hdt)⟩
  obtain ⟨hcp, hcc⟩ := hsound c hc
  exact ⟨hcp, (contains_iff hC c).mp hcc⟩

end FindFork

/-! ## `GetLocator` -/

/-- The blocks of a locator from `p`: `p` first, each an ancestor of `p`, and each but the last
above the genesis block, with the next one `2 ^ (i - 10)` blocks down: one block apart for the
first eleven, then steps doubling. -/
structure LocatorFrom (p : B) (L : List B) : Prop where
  head : L.head? = some p
  ancestor : ∀ x ∈ L, T.IsAncestorOrSelf x p
  step : ∀ i (hi : i + 1 < L.length), 0 < T.nHeight L[i] ∧
    T.nHeight L[i + 1] = T.nHeight L[i] - 2 ^ (i - 10)

/-- What the loop of `GetLocator` keeps: the hashes so far are those of a locator that goes on to
the current block, and the step is the one of the next entry. -/
def LocatorInv {H : Type*} (hash : B → H) (p : B) : B × Nat × List H → Prop
  | (b, nStep, vHave) =>
    ∃ L, vHave = L.map hash ∧ nStep = 2 ^ (L.length - 10) ∧ LocatorFrom T p (L ++ [b])

section Locator
variable {T} {C} {p : B}

/-- A locator going on to `b` goes on to the block `2 ^ (i - 10)` below `b`. -/
theorem LocatorFrom.snoc {M : List B} {b b' : B} (h : LocatorFrom T p (M ++ [b]))
    (hb : 0 < T.nHeight b) (hb' : T.IsAncestorOrSelf b' b)
    (hstep : T.nHeight b' = T.nHeight b - 2 ^ (M.length - 10)) :
    LocatorFrom T p (M ++ [b] ++ [b']) := by
  obtain ⟨hhead, hanc, hsteps⟩ := h
  refine ⟨?_, fun x hx => ?_, fun i hi => ?_⟩
  · rw [List.head?_append, hhead]
    rfl
  · rcases List.mem_append.mp hx with hx | hx
    · exact hanc x hx
    · rw [List.mem_singleton.mp hx]
      exact BlockTree.isAncestorOrSelf_trans hb' (hanc b (by simp))
  · simp only [List.length_append, List.length_singleton] at hi
    by_cases hlt : i + 1 < M.length + 1
    · -- both entries were already in the locator
      have h1 : i < (M ++ [b]).length := by simp; omega
      have h2 : i + 1 < (M ++ [b]).length := by simp; omega
      rw [List.getElem_append_left h1, List.getElem_append_left h2]
      exact hsteps i h2
    · have hi' : i = M.length := by omega
      subst hi'
      have h1 : M.length < (M ++ [b]).length := by simp
      rw [List.getElem_append_left h1, List.getElem_concat_length rfl,
        List.getElem_concat_length (by simp)]
      exact ⟨hb, hstep⟩

variable [DecidableEq B]

/-- Where the chain holding a tip contains a block, its index agrees with the block's ancestors. -/
theorem get_of_contains {t : Option B} (hC : C.Holds T t) {b : B} (hb : C.contains T b = true)
    {h : Nat} (hh : h ≤ T.nHeight b) : C.get h = T.ancestorAt b (T.nHeight b - h) := by
  cases t with
  | none => rw [contains_of_holds_none hC] at hb; cases hb
  | some t =>
    obtain ⟨k, hk⟩ := (contains_iff hC b).mp hb
    have := BlockTree.nHeight_ancestorAt hk
    rw [get_of_holds hC, if_pos ⟨by omega, by omega⟩, Int.toNat_natCast,
      ← BlockTree.ancestorAt_ancestorAt hk h hh]

variable {H : Type*} {hash : B → H}

/-- A round of `GetLocator` adds the block's hash and stops at the genesis block, or goes down
`nStep` blocks, clamped at the genesis block, by the chain's index or the skip list alike. -/
theorem getLocatorRound_spec (hT : T.SkipsBuilt) {t : Option B} (hC : C.Holds T t)
    (s : B × Nat × List H) (hs : LocatorInv T hash p s) :
    (∃ s', C.getLocatorRound T hash s = some (.inl s') ∧ LocatorInv T hash p s' ∧ T.nHeight s'.1 < T.nHeight s.1) ∨
      ∃ r, C.getLocatorRound T hash s = some (.inr r) ∧
        ∃ L, r = L.map hash ∧ LocatorFrom T p L ∧ L.getLast?.map T.nHeight = some 0 := by
  obtain ⟨b, nStep, vHave⟩ := s
  obtain ⟨L, rfl, rfl, hL⟩ := hs
  by_cases h0 : T.nHeight b = 0
  · refine .inr ⟨_, by rw [getLocatorRound, if_pos h0], L ++ [b], by simp, hL, by simp [h0]⟩
  · -- both ways down give the block `k` below
    have hpow := Nat.one_le_two_pow (n := L.length - 10)
    have hk : T.getAncestor b ((T.nHeight b : Int) - (min (2 ^ (L.length - 10)) (T.nHeight b) : Nat)) =
        T.ancestorAt b (min (2 ^ (L.length - 10)) (T.nHeight b)) := BlockTree.getAncestor_sub hT b _
    have hheight : max ((T.nHeight b : Int) - ((2 ^ (L.length - 10) : Nat) : Int)) 0 =
        ((T.nHeight b - min (2 ^ (L.length - 10)) (T.nHeight b) : Nat) : Int) := by omega
    have hnext : (if C.contains T b = true then C.get (max ((T.nHeight b : Int) - ((2 ^ (L.length - 10) : Nat) : Int)) 0)
        else T.getAncestor b (max ((T.nHeight b : Int) - ((2 ^ (L.length - 10) : Nat) : Int)) 0)) =
        T.ancestorAt b (min (2 ^ (L.length - 10)) (T.nHeight b)) := by
      split
      · next hc =>
        rw [hheight, get_of_contains hC hc (Nat.sub_le _ _),
          Nat.sub_sub_self (Nat.min_le_right _ _)]
      · rw [← hk]
        congr 1
        omega
    obtain ⟨b', hb'⟩ := Option.isSome_iff_exists.mp
      (BlockTree.ancestorAt_isSome (T := T) (b := b) (Nat.min_le_right (2 ^ (L.length - 10)) _))
    have hbb' := BlockTree.nHeight_ancestorAt hb'
    refine .inl ⟨(b', 2 ^ (L.length + 1 - 10), (L ++ [b]).map hash), ?_,
      ⟨L ++ [b], rfl, by simp, hL.snoc (by omega) ⟨_, hb'⟩ (by omega)⟩, by dsimp only; omega⟩
    rw [getLocatorRound, if_neg h0]
    dsimp only
    rw [hnext, hb']
    simp only [List.length_append, List.length_map, List.length_singleton, List.map_append,
      List.map_cons, List.map_nil]
    split
    · rw [show L.length + 1 - 10 = L.length - 10 + 1 by omega, pow_succ]
    · rw [show L.length + 1 - 10 = L.length - 10 by omega]

/-- With skip pointers set by `BuildSkip`, on the chain holding any tip, `GetLocator` from a block
returns the hashes of a locator from it down to the genesis block. -/
theorem getLocator_spec (hT : T.SkipsBuilt) {t : Option B} (hC : C.Holds T t) (hash : B → H)
    (p : B) :
    ∃ L, C.getLocator T hash (some p) = some (L.map hash) ∧ LocatorFrom T p L ∧
      L.getLast?.map T.nHeight = some 0 := by
  have hstart : LocatorInv T hash p (p, 1, []) :=
    ⟨[], rfl, rfl, ⟨rfl, fun x hx => by rw [List.mem_singleton.mp hx]; exact ⟨0, rfl⟩,
      fun i hi => absurd hi (by simp)⟩⟩
  obtain ⟨r, hr, L, rfl, hL⟩ := Loop.loop_of_variant (fun s : B × Nat × List H => T.nHeight s.1)
    (getLocatorRound_spec hT hC) (T.nHeight p + 1) _ hstart (Nat.lt_succ_self _)
  exact ⟨L, hr, hL⟩

end Locator

/-! ## `FindEarliestAtLeast` -/

section Earliest
variable {T} {C} {nTime nTimeMax : B → Nat}

/-- With `nTimeMax` set by `AddToBlockIndex`, on the chain holding `t`, `FindEarliestAtLeast`
returns the lowest block of the chain whose greatest block time so far is at least `nTime` and
whose height is at least `height`, and `nullptr` when there is none: the comparison holds on a
prefix of the chain, since both the greatest time and the height grow along it. -/
theorem findEarliestAtLeast_spec (hset : T.TimeMaxSet nTime nTimeMax) {t : B}
    (hC : C.Holds T (some t)) (time height : Int) :
    ∃ r, C.findEarliestAtLeast T nTimeMax time height = some r ∧
      (∀ b, r = some b → T.IsAncestorOrSelf b t ∧ time ≤ nTimeMax b ∧ height ≤ T.nHeight b) ∧
      ∀ a, T.IsAncestorOrSelf a t → time ≤ nTimeMax a → height ≤ T.nHeight a →
        ∃ b, r = some b ∧ T.nHeight b ≤ T.nHeight a := by
  have hv : C.vChain = T.chainOf t := hC
  -- the comparison, and the same on the blocks of the chain
  let f : B → Bool := fun b => decide ((nTimeMax b : Int) < time) || decide ((T.nHeight b : Int) < height)
  let p : Option B → Bool := fun x => (x.map f).getD true
  have hcomp : ∀ x ∈ T.chainOf t, (x.map f) = some (p x) := by
    intro x hx
    obtain ⟨i, hi, rfl⟩ := List.getElem_of_mem hx
    obtain ⟨a, ha, -⟩ := BlockTree.getElem_chainOf_eq_some t hi
    rw [ha]
    rfl
  have hpart : LowerBound.Partitioned (T.chainOf t) p := by
    intro i j hi hj hij hpj
    obtain ⟨a, ha, hat, hai⟩ := BlockTree.getElem_chainOf_eq_some t hi
    obtain ⟨b, hb, hbt, hbj⟩ := BlockTree.getElem_chainOf_eq_some t hj
    have hab : nTimeMax a ≤ nTimeMax b := by
      have hk : T.ancestorAt b (T.nHeight b - T.nHeight a) = some a := by
        rw [BlockTree.ancestorAt_ancestorAt hbt (T.nHeight a) (by omega), hai, hat]
      exact BlockTree.nTimeMax_ancestorAt_le hset hk
    rw [hb] at hpj
    rw [ha]
    have hfb : (nTimeMax b : Int) < time ∨ (T.nHeight b : Int) < height := by simpa [p, f] using hpj
    simp only [p, f, Option.map_some, Option.getD_some, Bool.or_eq_true, decide_eq_true_eq]
    omega
  unfold findEarliestAtLeast
  rw [hv, LowerBound.lowerBound_eq_findIdx hcomp hpart, Option.map_some]
  refine ⟨_, rfl, fun b hb => ?_, fun a ha htime hheight => ?_⟩
  · -- the position found is in the chain, and fails the comparison
    have hlt : (T.chainOf t).findIdx (fun x => !p x) < (T.chainOf t).length := by
      by_contra hge
      rw [List.getD_eq_getElem?_getD, List.getElem?_eq_none (by omega)] at hb
      cases hb
    rw [List.getD_eq_getElem?_getD, List.getElem?_eq_getElem hlt, Option.getD_some] at hb
    have hfail := List.findIdx_getElem (w := hlt)
    obtain ⟨b', hb', hbt, -⟩ := BlockTree.getElem_chainOf_eq_some t hlt
    rw [hb'] at hb hfail
    cases hb
    simp only [p, f, Option.map_some, Option.getD_some, Bool.not_or, Bool.and_eq_true,
      Bool.not_eq_true', decide_eq_false_iff_not] at hfail
    exact ⟨⟨_, hbt⟩, by omega, by omega⟩
  · -- a block of the chain past both bounds stands at or after the position found
    obtain ⟨k, hk⟩ := ha
    have hak := BlockTree.nHeight_ancestorAt hk
    have hi : T.nHeight a < (T.chainOf t).length := by rw [BlockTree.length_chainOf]; omega
    have hpa : (!p (T.chainOf t)[T.nHeight a]) = true := by
      rw [BlockTree.getElem_chainOf, show T.nHeight t - T.nHeight a = k by omega, hk]
      simp only [p, f, Option.map_some, Option.getD_some, Bool.not_or, Bool.and_eq_true,
        Bool.not_eq_true', decide_eq_false_iff_not]
      omega
    have hle : (T.chainOf t).findIdx (fun x => !p x) ≤ T.nHeight a := by
      by_contra hgt
      rw [@List.not_of_lt_findIdx _ (fun x => !p x) (T.chainOf t) (T.nHeight a) (by omega)] at hpa
      cases hpa
    obtain ⟨b, hb, -, hbh⟩ := BlockTree.getElem_chainOf_eq_some t (Nat.lt_of_le_of_lt hle hi)
    refine ⟨b, ?_, by omega⟩
    rw [List.getD_eq_getElem?_getD, List.getElem?_eq_getElem (Nat.lt_of_le_of_lt hle hi), hb]
    rfl

end Earliest

end CChain

namespace ActiveChainFixture

open BlockTreeFixture

/-- Block times of `forkTree`, not in order along the chain. -/
def blockTime (b : Fin 6) : Nat := [10, 30, 20, 50, 40, 60].getD b 0

/-- The greatest block time up to each block of `forkTree`. -/
def timeMax (b : Fin 6) : Nat := [10, 30, 30, 50, 40, 60].getD b 0

theorem setTips_spec_fork :
    ∃ C', (⟨[]⟩ : CChain (Fin 6)).setTips forkTree [some 3, some 5] = some C' ∧
      C'.tip = [some 3, some 5].getLastD none ∧
      C'.height = ([some 3, some 5].getLastD none).elim (-1) (fun u => (forkTree.nHeight u : Int)) ∧
      (∀ d, C'.contains forkTree d = true ↔
        ∃ u, [some 3, some 5].getLastD none = some u ∧ forkTree.IsAncestorOrSelf d u) ∧
      ∀ d n, C'.next forkTree d = some n → forkTree.pprev n = some d ∧
        C'.contains forkTree n = true :=
  CChain.setTips_spec forkTree (t := none) rfl [some 3, some 5]

theorem findFork_highest_common_fork :
    ∃ r, (⟨forkTree.chainOf 3⟩ : CChain (Fin 6)).findFork forkTree (some 5) = some r ∧
      (∀ c, r = some c → forkTree.IsAncestorOrSelf c 5 ∧ forkTree.IsAncestorOrSelf c 3) ∧
      ∀ d, forkTree.IsAncestorOrSelf d 5 → forkTree.IsAncestorOrSelf d 3 →
        ∃ c, r = some c ∧ forkTree.nHeight d ≤ forkTree.nHeight c :=
  CChain.findFork_highest_common (show forkTree.SkipsBuilt by decide) (C := ⟨forkTree.chainOf 3⟩)
    rfl 5

theorem getLocator_spec_fork :
    ∃ L, (⟨forkTree.chainOf 3⟩ : CChain (Fin 6)).getLocator forkTree Fin.val (some 5) =
        some (L.map Fin.val) ∧
      CChain.LocatorFrom forkTree 5 L ∧ L.getLast?.map forkTree.nHeight = some 0 :=
  CChain.getLocator_spec (show forkTree.SkipsBuilt by decide) (C := ⟨forkTree.chainOf 3⟩)
    (t := some 3) rfl Fin.val 5

example : (⟨forkTree.chainOf 3⟩ : CChain (Fin 6)).getLocator forkTree Fin.val (some 5) =
    some [5, 4, 2, 1, 0] := by decide

theorem findEarliestAtLeast_spec_fork :
    ∃ r, (⟨forkTree.chainOf 5⟩ : CChain (Fin 6)).findEarliestAtLeast forkTree timeMax 35 1 =
        some r ∧
      (∀ b, r = some b → forkTree.IsAncestorOrSelf b 5 ∧ (35 : Int) ≤ timeMax b ∧
        (1 : Int) ≤ forkTree.nHeight b) ∧
      ∀ a, forkTree.IsAncestorOrSelf a 5 → (35 : Int) ≤ timeMax a → (1 : Int) ≤ forkTree.nHeight a →
        ∃ b, r = some b ∧ forkTree.nHeight b ≤ forkTree.nHeight a :=
  CChain.findEarliestAtLeast_spec (show forkTree.TimeMaxSet blockTime timeMax by decide)
    (C := ⟨forkTree.chainOf 5⟩) rfl 35 1

example : (⟨forkTree.chainOf 5⟩ : CChain (Fin 6)).findEarliestAtLeast forkTree timeMax 35 1 =
    some (some 4) := by decide

end ActiveChainFixture

end Emrals
