import Mathlib
import Emrals.Lib.Loop

/-!
# Ancestors in the block tree

Every `CBlockIndex` (`src/chain.cpp:71-121`) has its parent `pprev` and a second pointer `pskip`,
which `BuildSkip` sets on insertion to the ancestor at `GetSkipHeight(nHeight)`, found by
`GetAncestor` from the parent. `GetAncestor(height)` walks down, along `pskip` when that does not
overshoot and `pprev->pskip` is not better, and along `pprev` otherwise, asserting that `pprev`
exists. `LastCommonAncestor` (`src/chain.cpp:156-173`) brings two blocks to the same height with
`GetAncestor` and then steps both down until they meet.

The ancestor at `k` steps is `BlockTree.ancestorAt`. `GetSkipHeight` lowers every height from
`1` on (`getSkipHeight_lt`), so a skip pointer built by `BuildSkip` points at a true ancestor
(`skipCorrect_of_skipsBuilt`, by induction on the height, since `BuildSkip` ran `GetAncestor`
on lower blocks only). From skip pointers that point at true ancestors, every round of the walk
stays on the ancestors of the block above the target height (`getAncestor_of_skipCorrect`), and
so does the descent of `LastCommonAncestor`, which stops at the first height where the two branches
agree (`lastCommonAncestor_spec`).
-/

namespace Emrals

/-- `InvertLowestOne`: the lowest `1` bit turned into a `0`. -/
def invertLowestOne (n : Nat) : Nat := n &&& (n - 1)

/-- `GetSkipHeight`. -/
def getSkipHeight (height : Nat) : Nat :=
  if height < 2 then 0
  else if height % 2 = 1 then invertLowestOne (invertLowestOne (height - 1)) + 1
  else invertLowestOne height

/-- The block tree: `pprev`, `pskip` and `nHeight` of every `CBlockIndex`. A block with a parent is
one above it; a block without one is a genesis block, at height `0`. -/
structure BlockTree (B : Type*) where
  pprev : B → Option B
  pskip : B → Option B
  nHeight : B → Nat
  nHeight_pprev : ∀ b p, pprev b = some p → nHeight b = nHeight p + 1
  nHeight_genesis : ∀ b, pprev b = none → nHeight b = 0

theorem invertLowestOne_lt {n : Nat} (h : 1 ≤ n) : invertLowestOne n < n :=
  lt_of_le_of_lt Nat.and_le_right (by omega)

/-- `GetSkipHeight` goes strictly down from every height from `1` on. -/
theorem getSkipHeight_lt {height : Nat} (h : 1 ≤ height) : getSkipHeight height < height := by
  unfold getSkipHeight
  split
  · omega
  · split
    · -- an odd height: clear two bits of the even height below, then add one back
      have h₁ : invertLowestOne (height - 1) < height - 1 := invertLowestOne_lt (by omega)
      have h₂ : invertLowestOne (invertLowestOne (height - 1)) ≤ invertLowestOne (height - 1) :=
        Nat.and_le_left
      omega
    · exact invertLowestOne_lt h

namespace BlockTree

variable {B : Type*} (T : BlockTree B)

/-- One step down along `pprev`, or the failure of `assert(pindexWalk->pprev)`. -/
def stepPrev (pindexWalk : B) (heightWalk : Nat) : Option ((B × Nat) ⊕ B) :=
  (T.pprev pindexWalk).map fun p => .inl (p, heightWalk - 1)

/-- A round of the `while (heightWalk > height)` loop of `GetAncestor`. -/
def getAncestorRound (height : Nat) (s : B × Nat) : Option ((B × Nat) ⊕ B) :=
  let (pindexWalk, heightWalk) := s
  if heightWalk > height then
    let heightSkip := getSkipHeight heightWalk
    let heightSkipPrev := getSkipHeight (heightWalk - 1)
    match T.pskip pindexWalk with
    | some pskip =>
      -- only follow `pskip` if `pprev->pskip` isn't better than `pskip->pprev`
      if heightSkip = height ∨
          heightSkip > height ∧ ¬(heightSkipPrev + 2 < heightSkip ∧ heightSkipPrev ≥ height) then
        some (.inl (pskip, heightSkip))
      else T.stepPrev pindexWalk heightWalk
    | none => T.stepPrev pindexWalk heightWalk
  else some (.inr pindexWalk)

/-- `CBlockIndex::GetAncestor`: `none` for a height out of range (`nullptr`) and where the assertion
fails. Every round lowers `heightWalk`, so `nHeight + 1` rounds are enough. -/
def getAncestor (x : B) (height : Int) : Option B :=
  if height > T.nHeight x ∨ height < 0 then none
  else Loop.loop (T.getAncestorRound height.toNat) (T.nHeight x + 1) (x, T.nHeight x)

/-- `CBlockIndex::BuildSkip`: the skip pointer of a block with a parent. -/
def buildSkip (b : B) : Option B :=
  (T.pprev b).bind fun p => T.getAncestor p (getSkipHeight (T.nHeight b))

/-- Every skip pointer is the one `BuildSkip` sets. -/
def SkipsBuilt : Prop := ∀ b, T.pskip b = T.buildSkip b

instance [Fintype B] [DecidableEq B] : Decidable T.SkipsBuilt :=
  inferInstanceAs (Decidable (∀ b, T.pskip b = T.buildSkip b))

/-- A round of the `while (pa != pb && pa && pb)` loop of `LastCommonAncestor`. -/
def lastCommonAncestorRound [DecidableEq B] (s : Option B × Option B) :
    Option ((Option B × Option B) ⊕ Option B) :=
  let (pa, pb) := s
  if pa ≠ pb ∧ pa.isSome ∧ pb.isSome then
    some (.inl (pa.bind T.pprev, pb.bind T.pprev))
  -- `assert(pa == pb)`
  else if pa = pb then some (.inr pa)
  else none

/-- `LastCommonAncestor`, its loop running at most `fuel` rounds; the outer `none` is a failed
assertion. -/
def lastCommonAncestor [DecidableEq B] (fuel : Nat) (pa pb : B) : Option (Option B) :=
  let pa' := if T.nHeight pa > T.nHeight pb then T.getAncestor pa (T.nHeight pb) else some pa
  let pb' := if T.nHeight pb > T.nHeight pa then T.getAncestor pb (T.nHeight pa) else some pb
  Loop.loop T.lastCommonAncestorRound fuel (pa', pb')

/-- The block `k` steps down along `pprev`. -/
def ancestorAt : B → Nat → Option B
  | b, 0 => some b
  | b, k + 1 => (T.pprev b).bind fun p => ancestorAt p k

variable {T}

@[simp] theorem ancestorAt_zero (b : B) : T.ancestorAt b 0 = some b := rfl

theorem ancestorAt_succ (b : B) (k : Nat) :
    T.ancestorAt b (k + 1) = (T.pprev b).bind fun p => T.ancestorAt p k := rfl

theorem ancestorAt_add : ∀ (b : B) (k l : Nat),
    T.ancestorAt b (k + l) = (T.ancestorAt b k).bind fun a => T.ancestorAt a l
  | b, 0, l => by rw [Nat.zero_add]; rfl
  | b, k + 1, l => by
    rw [Nat.add_right_comm, ancestorAt_succ, ancestorAt_succ]
    cases T.pprev b with
    | none => rfl
    | some p => exact ancestorAt_add p k l

/-- The ancestor `k` steps down is `k` below. -/
theorem nHeight_ancestorAt : ∀ {b a : B} {k : Nat}, T.ancestorAt b k = some a →
    T.nHeight a + k = T.nHeight b
  | b, a, 0, h => by cases h; rfl
  | b, a, k + 1, h => by
    rw [ancestorAt_succ] at h
    cases hp : T.pprev b with
    | none => rw [hp] at h; cases h
    | some p =>
      rw [hp] at h
      have := nHeight_ancestorAt h
      rw [T.nHeight_pprev b p hp]
      omega

/-- Every height down to `0` has an ancestor. -/
theorem ancestorAt_isSome : ∀ {b : B} {k : Nat}, k ≤ T.nHeight b → (T.ancestorAt b k).isSome
  | b, 0, _ => rfl
  | b, k + 1, h => by
    rw [ancestorAt_succ]
    cases hp : T.pprev b with
    | none => rw [T.nHeight_genesis b hp] at h; omega
    | some p =>
      rw [T.nHeight_pprev b p hp] at h
      exact ancestorAt_isSome (by omega)

/-- The skip pointer of a block above the genesis block is its ancestor at `GetSkipHeight`. -/
def SkipCorrect (T : BlockTree B) (b : B) : Prop :=
  1 ≤ T.nHeight b → T.pskip b = T.ancestorAt b (T.nHeight b - getSkipHeight (T.nHeight b))

/-- `b` is `x` or below it. -/
def IsAncestorOrSelf (T : BlockTree B) (b x : B) : Prop := ∃ k, T.ancestorAt x k = some b

/-! ## `GetAncestor` -/

section Walk
variable {x : B} {height : Nat}

/-- The invariant of the walk of `GetAncestor` from `x` to `height`: `heightWalk` is the height of
`pindexWalk`, not below the target, and `pindexWalk` is on `x`'s branch, so the target is its
ancestor too. -/
def OnWalk (T : BlockTree B) (x : B) (height : Nat) (s : B × Nat) : Prop :=
  T.nHeight s.1 = s.2 ∧ height ≤ s.2 ∧ T.IsAncestorOrSelf s.1 x ∧
    T.ancestorAt s.1 (s.2 - height) = T.ancestorAt x (T.nHeight x - height)

/-- Going `d` steps down, not past the target, stays on the walk. -/
theorem OnWalk.down {w w' : B} {hw d : Nat} (h : OnWalk T x height (w, hw))
    (hd : T.ancestorAt w d = some w') (hdle : d ≤ hw - height) :
    OnWalk T x height (w', hw - d) := by
  obtain ⟨hh, hle, ⟨k, hk⟩, hanc⟩ := h
  have hw' := nHeight_ancestorAt hd
  refine ⟨by dsimp only at hh ⊢; omega, by dsimp only; omega, ⟨k + d, ?_⟩, ?_⟩
  · rw [ancestorAt_add, hk]
    exact hd
  · dsimp only at hanc ⊢
    rw [← hanc, show hw - height = d + (hw - d - height) by omega, ancestorAt_add, hd]
    rfl

/-- A round of the walk above the target goes down and stays on the walk, when the skip pointer of
the block it is at points at the right ancestor. -/
theorem getAncestorRound_of_lt {w : B} {hw : Nat} (h : OnWalk T x height (w, hw))
    (hskip : T.SkipCorrect w) (hlt : height < hw) :
    ∃ s', T.getAncestorRound height (w, hw) = some (.inl s') ∧ OnWalk T x height s' ∧ s'.2 < hw := by
  have hh : T.nHeight w = hw := h.1
  -- the step along `pprev`
  have hprev : ∃ s', T.stepPrev w hw = some (.inl s') ∧ OnWalk T x height s' ∧ s'.2 < hw := by
    cases hp : T.pprev w with
    | none => rw [T.nHeight_genesis w hp] at hh; omega
    | some p =>
      refine ⟨(p, hw - 1), by rw [stepPrev, hp]; rfl, h.down ?_ (by omega), by dsimp only; omega⟩
      rw [ancestorAt_succ, hp]
      rfl
  unfold getAncestorRound
  dsimp only
  rw [if_pos hlt]
  cases hps : T.pskip w with
  | none => exact hprev
  | some ps =>
    dsimp only
    split
    · next hcond =>
      -- the skip pointer is the ancestor at the skip height, which is not below the target
      have hsk := getSkipHeight_lt (show 1 ≤ hw by omega)
      have hps' : T.ancestorAt w (hw - getSkipHeight hw) = some ps := by
        rw [← hps, hskip (by omega), hh]
      have hon := h.down hps' (by omega)
      rw [show hw - (hw - getSkipHeight hw) = getSkipHeight hw by omega] at hon
      exact ⟨_, rfl, hon, hsk⟩
    · exact hprev

/-- From skip pointers that point at the right ancestors, `GetAncestor` returns the ancestor at the
target height. -/
theorem getAncestor_of_skipCorrect (hskip : ∀ b, T.IsAncestorOrSelf b x → T.SkipCorrect b)
    (hle : height ≤ T.nHeight x) :
    T.getAncestor x height = T.ancestorAt x (T.nHeight x - height) := by
  have hbody : ∀ s, OnWalk T x height s →
      (∃ s', T.getAncestorRound height s = some (.inl s') ∧ OnWalk T x height s' ∧ s'.2 < s.2) ∨
        ∃ r, T.getAncestorRound height s = some (.inr r) ∧
          some r = T.ancestorAt x (T.nHeight x - height) := by
    rintro ⟨w, hw⟩ h
    by_cases hlt : height < hw
    · exact .inl (getAncestorRound_of_lt h (hskip w h.2.2.1) hlt)
    · -- at the target height the walk is at the target
      obtain ⟨-, hge, -, hanc⟩ := h
      refine .inr ⟨w, ?_, ?_⟩
      · unfold getAncestorRound
        dsimp only
        rw [if_neg hlt]
      · rw [← hanc, show hw - height = 0 by dsimp only at hge; omega]
        rfl
  unfold getAncestor
  rw [if_neg (by omega)]
  obtain ⟨r, hr, hq⟩ := Loop.loop_of_variant (fun s => s.2) hbody (T.nHeight x + 1)
    (x, T.nHeight x) ⟨rfl, hle, ⟨0, rfl⟩, rfl⟩ (Nat.lt_succ_self _)
  rw [Int.toNat_natCast, hr, hq]

end Walk

theorem ancestorAt_one {b p : B} (hp : T.pprev b = some p) : T.ancestorAt b 1 = some p := by
  rw [ancestorAt_succ, hp]
  rfl

/-- Skip pointers set by `BuildSkip` point at the right ancestors: by induction on the height, as
`BuildSkip` ran `GetAncestor` from the parent, whose ancestors are all lower. -/
theorem skipCorrect_of_skipsBuilt (hT : T.SkipsBuilt) :
    ∀ n (b : B), T.nHeight b = n → T.SkipCorrect b := by
  intro n
  induction n using Nat.strong_induction_on with
  | _ n ih =>
    intro b hb h1
    cases hp : T.pprev b with
    | none => rw [T.nHeight_genesis b hp] at h1; omega
    | some p =>
      have hbp := T.nHeight_pprev b p hp
      have hskip : ∀ a, T.IsAncestorOrSelf a p → T.SkipCorrect a := by
        rintro a ⟨k, hk⟩
        have := nHeight_ancestorAt hk
        exact ih (T.nHeight a) (by omega) a rfl
      have hsk := getSkipHeight_lt h1
      rw [hT b, buildSkip, hp, Option.bind_some, getAncestor_of_skipCorrect hskip (by omega),
        show T.nHeight b - getSkipHeight (T.nHeight b) =
          1 + (T.nHeight p - getSkipHeight (T.nHeight b)) by omega,
        ancestorAt_add, ancestorAt_one hp]
      rfl

/-! ## `LastCommonAncestor` -/

/-- One step down from height `j + 1` is height `j`. -/
theorem bind_pprev_ancestorAt {c : B} {j : Nat} (hj : j + 1 ≤ T.nHeight c) :
    (T.ancestorAt c (T.nHeight c - (j + 1))).bind T.pprev = T.ancestorAt c (T.nHeight c - j) := by
  rw [show T.nHeight c - j = T.nHeight c - (j + 1) + 1 by omega, ancestorAt_add]
  cases T.ancestorAt c (T.nHeight c - (j + 1)) with
  | none => rfl
  | some d =>
    show T.pprev d = (T.pprev d).bind fun p => some p
    cases T.pprev d <;> rfl

section Common
variable [DecidableEq B] {a b : B}

/-- The blocks of two branches at height `j`. -/
def branchesAt (T : BlockTree B) (a b : B) (j : Nat) : Option B × Option B :=
  (T.ancestorAt a (T.nHeight a - j), T.ancestorAt b (T.nHeight b - j))

/-- The invariant of the descent of `LastCommonAncestor`: the two branches at some height `j` up to
`m`, and different at every height above `j` up to `m`. -/
def Descending (T : BlockTree B) (a b : B) (m : Nat) (s : Option B × Option B) : Prop :=
  ∃ j ≤ m, s = T.branchesAt a b j ∧ ∀ j', j < j' → j' ≤ m → (T.branchesAt a b j').1 ≠ (T.branchesAt a b j').2

/-- The descent ends at the highest height up to `m` where the branches meet. -/
def Met (T : BlockTree B) (a b : B) (m : Nat) (r : Option B) : Prop :=
  ∃ j ≤ m, r = (T.branchesAt a b j).1 ∧ (T.branchesAt a b j).1 = (T.branchesAt a b j).2 ∧
    ∀ j', j < j' → j' ≤ m → (T.branchesAt a b j').1 ≠ (T.branchesAt a b j').2

/-- A round of the descent from branches that differ goes one height down; from branches that
meet it ends. Two blocks of one tree share their genesis block, so the branches meet at `0` at
the latest. -/
theorem lastCommonAncestorRound_spec {m : Nat} (hm : m ≤ T.nHeight a) (hmb : m ≤ T.nHeight b)
    (hsame : T.ancestorAt a (T.nHeight a) = T.ancestorAt b (T.nHeight b))
    (s : Option B × Option B) (hs : Descending T a b m s) :
    (∃ s', T.lastCommonAncestorRound s = some (.inl s') ∧ Descending T a b m s' ∧
        (s'.1.map T.nHeight).getD 0 < (s.1.map T.nHeight).getD 0) ∨
      ∃ r, T.lastCommonAncestorRound s = some (.inr r) ∧ Met T a b m r := by
  obtain ⟨j, hj, rfl, habove⟩ := hs
  have hsa : (T.ancestorAt a (T.nHeight a - j)).isSome := ancestorAt_isSome (by omega)
  have hsb : (T.ancestorAt b (T.nHeight b - j)).isSome := ancestorAt_isSome (by omega)
  obtain ⟨ca, hca⟩ := Option.isSome_iff_exists.mp hsa
  obtain ⟨cb, hcb⟩ := Option.isSome_iff_exists.mp hsb
  have hja : T.nHeight ca = j := by have := nHeight_ancestorAt hca; omega
  unfold lastCommonAncestorRound branchesAt
  dsimp only
  rw [hca, hcb]
  by_cases heq : ca = cb
  · subst heq
    refine .inr ⟨some ca, by simp, j, hj, ?_, ?_, habove⟩ <;> simp [branchesAt, hca, hcb]
  · -- the branches differ, so they are above the genesis block: step down
    have hj0 : j ≠ 0 := by
      rintro rfl
      rw [Nat.sub_zero] at hca hcb
      rw [hca, hcb] at hsame
      exact heq (Option.some.inj hsame)
    obtain ⟨j, rfl⟩ := Nat.exists_eq_succ_of_ne_zero hj0
    refine .inl ⟨T.branchesAt a b j, ?_, ⟨j, by omega, rfl, fun j' hj' hj'm => ?_⟩, ?_⟩
    · rw [if_pos ⟨fun h => heq (Option.some.inj h), rfl, rfl⟩, ← hca, ← hcb,
        bind_pprev_ancestorAt (by omega), bind_pprev_ancestorAt (by omega)]
      rfl
    · rcases Nat.lt_or_ge (j + 1) j' with hlt | hle
      · exact habove j' hlt hj'm
      · obtain rfl : j' = j + 1 := by omega
        simp only [branchesAt, hca, hcb]
        exact fun h => heq (Option.some.inj h)
    · have hs : (T.ancestorAt a (T.nHeight a - j)).isSome := ancestorAt_isSome (by omega)
      obtain ⟨c, hc⟩ := Option.isSome_iff_exists.mp hs
      have := nHeight_ancestorAt hc
      simp only [branchesAt, hc, hja, Option.map_some, Option.getD_some]
      omega

/-- Two blocks of one tree meet: `LastCommonAncestor` returns the highest block below or at both. -/
theorem lastCommonAncestor_spec (hskip : ∀ c, T.SkipCorrect c)
    (hsame : T.ancestorAt a (T.nHeight a) = T.ancestorAt b (T.nHeight b)) (fuel : Nat)
    (hfuel : min (T.nHeight a) (T.nHeight b) < fuel) :
    ∃ c, T.lastCommonAncestor fuel a b = some (some c) ∧ T.IsAncestorOrSelf c a ∧
      T.IsAncestorOrSelf c b ∧
      ∀ d, T.IsAncestorOrSelf d a → T.IsAncestorOrSelf d b → T.nHeight d ≤ T.nHeight c := by
  set m := min (T.nHeight a) (T.nHeight b) with hm
  -- `GetAncestor` brings the higher block down to the height of the lower one
  have hanc : ∀ c (height : Nat), height ≤ T.nHeight c →
      T.getAncestor c height = T.ancestorAt c (T.nHeight c - height) :=
    fun c _ hle => getAncestor_of_skipCorrect (fun c' _ => hskip c') hle
  have hinit : ((if T.nHeight a > T.nHeight b then T.getAncestor a (T.nHeight b) else some a),
      (if T.nHeight b > T.nHeight a then T.getAncestor b (T.nHeight a) else some b)) =
      T.branchesAt a b m := by
    unfold branchesAt
    split_ifs with hab hba hba
    · omega
    · rw [hanc a _ hab.le, show T.nHeight b - m = 0 by omega, show m = T.nHeight b by omega]
      rfl
    · rw [hanc b _ hba.le, show T.nHeight a - m = 0 by omega, show m = T.nHeight a by omega]
      rfl
    · rw [show T.nHeight a - m = 0 by omega, show T.nHeight b - m = 0 by omega]
      rfl
  have hstart : Descending T a b m (T.branchesAt a b m) :=
    ⟨m, le_rfl, rfl, fun j' hj' hj'm => absurd hj'm (by omega)⟩
  have hμ : ((T.branchesAt a b m).1.map T.nHeight).getD 0 < fuel := by
    have hs : (T.ancestorAt a (T.nHeight a - m)).isSome := ancestorAt_isSome (by omega)
    obtain ⟨c, hc⟩ := Option.isSome_iff_exists.mp hs
    have := nHeight_ancestorAt hc
    simp only [branchesAt, hc, Option.map_some, Option.getD_some]
    omega
  obtain ⟨r, hr, j, hj, rfl, hmet, habove⟩ := Loop.loop_of_variant
    (fun s : Option B × Option B => (s.1.map T.nHeight).getD 0)
    (lastCommonAncestorRound_spec (by omega) (by omega) hsame) fuel _ hstart hμ
  have hs : (T.ancestorAt a (T.nHeight a - j)).isSome := ancestorAt_isSome (by omega)
  obtain ⟨c, hc⟩ := Option.isSome_iff_exists.mp hs
  have hcb : T.ancestorAt b (T.nHeight b - j) = some c := by
    rw [← hc]
    exact hmet.symm
  have hcj : T.nHeight c = j := by have := nHeight_ancestorAt hc; omega
  refine ⟨c, ?_, ⟨_, hc⟩, ⟨_, hcb⟩, ?_⟩
  · unfold lastCommonAncestor
    dsimp only
    rw [hinit, hr]
    simp [branchesAt, hc]
  · -- a common block is at a height where the branches meet, so not above `j`
    rintro d ⟨ka, hka⟩ ⟨kb, hkb⟩
    have hda := nHeight_ancestorAt hka
    have hdb := nHeight_ancestorAt hkb
    by_contra hlt
    refine habove (T.nHeight d) (by omega) (by omega) ?_
    simp only [branchesAt]
    rw [show T.nHeight a - T.nHeight d = ka by omega, show T.nHeight b - T.nHeight d = kb by omega,
      hka, hkb]

end Common

/-- With skip pointers set by `BuildSkip`: `GetAncestor(h)` returns the block `nHeight - h` steps
down for `0 ≤ h ≤ nHeight`, where it never fails its assertion, and `nullptr` otherwise;
`GetSkipHeight` goes down from `1` on; and `LastCommonAncestor` of two blocks of one tree returns
the highest block below or at both. -/
theorem skip_list_ancestors [DecidableEq B] (T : BlockTree B) (hT : T.SkipsBuilt) :
    (∀ (x : B) (height : Int), T.getAncestor x height =
      if 0 ≤ height ∧ height ≤ T.nHeight x then T.ancestorAt x (T.nHeight x - height.toNat)
      else none) ∧
    (∀ (x : B) (height : Int), 0 ≤ height → height ≤ T.nHeight x →
      (T.getAncestor x height).isSome) ∧
    (∀ k, 1 ≤ k → getSkipHeight k < k) ∧
    ∀ (a b : B), T.ancestorAt a (T.nHeight a) = T.ancestorAt b (T.nHeight b) →
      ∀ fuel, min (T.nHeight a) (T.nHeight b) < fuel →
      ∃ c, T.lastCommonAncestor fuel a b = some (some c) ∧ T.IsAncestorOrSelf c a ∧
        T.IsAncestorOrSelf c b ∧
        ∀ d, T.IsAncestorOrSelf d a → T.IsAncestorOrSelf d b → T.nHeight d ≤ T.nHeight c := by
  have hskip : ∀ c, T.SkipCorrect c := fun c => skipCorrect_of_skipsBuilt hT _ c rfl
  have hget : ∀ (x : B) (height : Int), 0 ≤ height → height ≤ T.nHeight x →
      T.getAncestor x height = T.ancestorAt x (T.nHeight x - height.toNat) := by
    intro x height h0 hle
    have h : T.getAncestor x (height.toNat : Nat) = T.ancestorAt x (T.nHeight x - height.toNat) :=
      getAncestor_of_skipCorrect (fun c _ => hskip c) (by omega)
    rwa [Int.toNat_of_nonneg h0] at h
  refine ⟨fun x height => ?_, fun x height h0 hle => ?_, fun k hk => getSkipHeight_lt hk,
    fun a b hsame fuel hfuel => lastCommonAncestor_spec hskip hsame fuel hfuel⟩
  · split
    · next h => exact hget x height h.1 h.2
    · next h =>
      unfold getAncestor
      rw [if_pos (by omega)]
  · rw [hget x height h0 hle]
    exact ancestorAt_isSome (by omega)

end BlockTree

namespace BlockTreeFixture

/-- A fork: blocks `0 … 3` in a row, and blocks `4` and `5` on top of block `2`. -/
def forkTree : BlockTree (Fin 6) where
  pprev i := [none, some 0, some 1, some 2, some 2, some 4].getD i none
  pskip i := [none, some 0, some 0, some 1, some 1, some 0].getD i none
  nHeight i := [0, 1, 2, 3, 3, 4].getD i 0
  nHeight_pprev := by decide
  nHeight_genesis := by decide

theorem skip_list_ancestors_fork :
    ∃ c, forkTree.lastCommonAncestor 5 3 5 = some (some c) ∧ forkTree.IsAncestorOrSelf c 3 ∧
      forkTree.IsAncestorOrSelf c 5 ∧
      ∀ d, forkTree.IsAncestorOrSelf d 3 → forkTree.IsAncestorOrSelf d 5 →
        forkTree.nHeight d ≤ forkTree.nHeight c :=
  (BlockTree.skip_list_ancestors forkTree (by decide)).2.2.2 3 5 (by decide) 5 (by decide)

end BlockTreeFixture

end Emrals
