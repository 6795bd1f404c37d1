import Mathlib

/-!
# Merkle roots

`ComputeMerkleRoot` (`src/consensus/merkle.cpp:46`) hashes a level of hashes pairwise in place
until one is left, duplicating the last hash of an odd level, and raises `mutated` when a level
holds two equal hashes at an even position and the next: the defence against CVE-2012-2459, where
a repeated run of transactions keeps the root of a block.

The model is generic in the hash: `hashPair` is `SHA256D64` on one pair and `null` is
`uint256()`, the root of no hashes. The reference is a binary tree, `MerkleTree.build` pairing up
the trees of a level until one is left, the last tree of an odd level with itself; the code
computes the hash of that tree (`computeMerkleRoot_fst`). With `hashPair` injective (which no
function on 256-bit values is, so these are statements about an abstract hash):

* distinct leaves never raise the flag (`computeMerkleRootLoop_snd_of_nodup`);
* two different non-empty lists of leaf values, when no pair hash is a leaf value, that have one
  root raise the flag on one of them (`eq_of_computeMerkleRootLoop_eq`). The proof reads each
  value's height over the leaves (`HashRank`), which the hash fixes (`HashRank.unique`), so the
  two loops run the same number of levels, and undoes the levels from the root down
  (`eq_of_pairHashes_eq`).

The guard "non-empty" is needed: no leaves and the one leaf `uint256()` both have the root
`uint256()` and raise no flag (`MerkleFixture.empty_and_null_leaf_share_root`). So the merkle
check of `CheckBlock` fixes the transaction hashes of a non-empty block that passes it
(`checkBlockMerkleRoot_unique`).
-/

namespace Emrals

/-! ## The loop -/

section
variable {α : Type} (hashPair : α → α → α)

/-- The check of `ComputeMerkleRoot` over one level: `hashes[pos] == hashes[pos + 1]` for an even
`pos` with `pos + 1 < hashes.size()`. -/
def hasEqualPair [DecidableEq α] : List α → Bool
  | a :: b :: rest => a == b || hasEqualPair rest
  | _ => false

/-- `SHA256D64(out, in, blocks)` in place over a level: the pair hash of each two consecutive
hashes, `hashes.size() / 2` of them. -/
def sha256D64 : List α → List α
  | a :: b :: rest => hashPair a b :: sha256D64 rest
  | _ => []

/-- One level of `ComputeMerkleRoot`'s loop, after the check. -/
def merkleLevelStep (hashes : List α) : List α :=
  -- `if (hashes.size() & 1) hashes.push_back(hashes.back());`
  let hashes := if hashes.length &&& 1 ≠ 0 then hashes ++ hashes.getLast?.toList else hashes
  -- `SHA256D64(...); hashes.resize(hashes.size() / 2);`
  sha256D64 hashPair hashes

/-- A level hashed pairwise, the last hash of an odd level with itself. -/
def pairHashes : List α → List α
  | a :: b :: rest => hashPair a b :: pairHashes rest
  | [a] => [hashPair a a]
  | [] => []

theorem length_pairHashes : ∀ hashes : List α,
    (pairHashes hashPair hashes).length = (hashes.length + 1) / 2
  | a :: b :: rest => by
    simp only [pairHashes, List.length_cons, length_pairHashes rest]
    omega
  | [_] => by simp [pairHashes]
  | [] => by simp [pairHashes]

theorem sha256D64_of_even : ∀ hashes : List α, hashes.length % 2 = 0 →
    sha256D64 hashPair hashes = pairHashes hashPair hashes
  | a :: b :: rest, h => by
    rw [sha256D64, pairHashes, sha256D64_of_even rest (by simp at h; omega)]
  | [_], h => by simp at h
  | [], _ => by simp [sha256D64, pairHashes]

theorem sha256D64_append_getLast : ∀ hashes : List α, hashes.length % 2 = 1 →
    sha256D64 hashPair (hashes ++ hashes.getLast?.toList) = pairHashes hashPair hashes
  | a :: b :: c :: rest, h => by
    have ih := sha256D64_append_getLast (c :: rest) (by simp at h ⊢; omega)
    rw [List.getLast?_cons_cons, List.getLast?_cons_cons, List.cons_append, List.cons_append,
      sha256D64, pairHashes, ih]
  | [_, _], h => by simp at h
  | [_], _ => by simp [sha256D64, pairHashes]
  | [], h => by simp at h

/-- Padding an odd level with its last hash and hashing the pairs is hashing the level pairwise
with the last hash paired with itself. -/
theorem merkleLevelStep_eq (hashes : List α) :
    merkleLevelStep hashPair hashes = pairHashes hashPair hashes := by
  unfold merkleLevelStep
  rw [Nat.and_one_is_mod]
  by_cases h : hashes.length % 2 = 1
  · rw [if_pos (by omega), sha256D64_append_getLast hashPair hashes h]
  · rw [if_neg (by omega), sha256D64_of_even hashPair hashes (by omega)]

theorem length_merkleLevelStep_lt {hashes : List α} (h : 1 < hashes.length) :
    (merkleLevelStep hashPair hashes).length < hashes.length := by
  rw [merkleLevelStep_eq, length_pairHashes]
  omega

theorem exists_eq_singleton {hashes : List α} (hne : hashes ≠ []) (h : ¬1 < hashes.length) :
    ∃ x, hashes = [x] :=
  List.length_eq_one_iff.mp (by have := List.length_pos_iff.mpr hne; omega)

variable [DecidableEq α]

/-- The `while (hashes.size() > 1)` loop of `ComputeMerkleRoot`, with the flag `mutation`. The
model always runs the check; with `mutated == nullptr` the source skips it and the root is the
same. -/
def computeMerkleRootLoop (hashes : List α) (mutation : Bool) : List α × Bool :=
  if hashes.length > 1 then
    computeMerkleRootLoop (merkleLevelStep hashPair hashes) (mutation || hasEqualPair hashes)
  else (hashes, mutation)
termination_by hashes.length
decreasing_by exact length_merkleLevelStep_lt hashPair (by assumption)

/-- `ComputeMerkleRoot(hashes, &mutated)`: the root and the flag. -/
def computeMerkleRoot (null : α) (hashes : List α) : α × Bool :=
  let r := computeMerkleRootLoop hashPair hashes false
  -- `if (hashes.size() == 0) return uint256(); return hashes[0];`
  (r.1.headD null, r.2)

theorem computeMerkleRootLoop_step {hashes : List α} (h : 1 < hashes.length) (mutation : Bool) :
    computeMerkleRootLoop hashPair hashes mutation =
      computeMerkleRootLoop hashPair (pairHashes hashPair hashes)
        (mutation || hasEqualPair hashes) := by
  rw [computeMerkleRootLoop, if_pos h, merkleLevelStep_eq]

theorem computeMerkleRootLoop_stop {hashes : List α} (h : hashes.length ≤ 1) (mutation : Bool) :
    computeMerkleRootLoop hashPair hashes mutation = (hashes, mutation) := by
  rw [computeMerkleRootLoop, if_neg (by omega)]

/-- The loop only ever raises the flag: a flag passed in comes out. -/
theorem computeMerkleRootLoop_snd (m : Bool) (hashes : List α) (mutation : Bool) :
    (computeMerkleRootLoop hashPair hashes (m || mutation)).2 =
      (m || (computeMerkleRootLoop hashPair hashes mutation).2) := by
  induction hashes, mutation using computeMerkleRootLoop.induct hashPair with
  | case1 hashes mutation h ih =>
    rw [computeMerkleRootLoop_step hashPair h, computeMerkleRootLoop_step hashPair h,
      Bool.or_assoc, ← merkleLevelStep_eq, ih]
  | case2 hashes mutation h =>
    rw [computeMerkleRootLoop_stop hashPair (by omega),
      computeMerkleRootLoop_stop hashPair (by omega)]

/-- The flag of a level that steps: its own check, or the flag of the next level. -/
theorem computeMerkleRootLoop_snd_step {hashes : List α} (h : 1 < hashes.length) :
    (computeMerkleRootLoop hashPair hashes false).2 =
      (hasEqualPair hashes ||
        (computeMerkleRootLoop hashPair (pairHashes hashPair hashes) false).2) := by
  rw [computeMerkleRootLoop_step hashPair h, Bool.false_or, ← Bool.or_false (hasEqualPair hashes),
    computeMerkleRootLoop_snd, Bool.or_false]

end

/-! ## The reference tree -/

/-- A binary hash tree: a leaf, or a node over two subtrees. -/
inductive MerkleTree (α : Type) where
  | leaf (a : α)
  | node (l r : MerkleTree α)

namespace MerkleTree

variable {α : Type} (hashPair : α → α → α)

/-- The hash of a tree: a leaf's value, and at a node the pair hash of its two subtrees. -/
def hash : MerkleTree α → α
  | leaf a => a
  | node l r => hashPair (l.hash) (r.hash)

/-- One level up: adjacent trees paired, the last tree of an odd level paired with itself. -/
def pairUp : List (MerkleTree α) → List (MerkleTree α)
  | l :: r :: rest => node l r :: pairUp rest
  | [t] => [node t t]
  | [] => []

theorem length_pairUp : ∀ ts : List (MerkleTree α), (pairUp ts).length = (ts.length + 1) / 2
  | _ :: _ :: rest => by
    simp only [pairUp, List.length_cons, length_pairUp rest]
    omega
  | [_] => by simp [pairUp]
  | [] => by simp [pairUp]

/-- The tree over a level: the level paired up until one tree is left; none over no trees. -/
def build (ts : List (MerkleTree α)) : Option (MerkleTree α) :=
  if ts.length > 1 then build (pairUp ts) else ts.head?
termination_by ts.length
decreasing_by
  rw [length_pairUp]
  omega

theorem map_hash_pairUp : ∀ ts : List (MerkleTree α),
    (pairUp ts).map (hash hashPair) = pairHashes hashPair (ts.map (hash hashPair))
  | _ :: _ :: rest => by
    rw [pairUp, List.map_cons, map_hash_pairUp rest]
    rfl
  | [_] => rfl
  | [] => rfl

end MerkleTree

section
variable {α : Type} (hashPair : α → α → α) (null : α)

/-- The reference root: the hash of the tree that pairs up the leaves level by level, the last
node of an odd level paired with itself; `null` over no leaves. -/
def merkleTreeRoot (leaves : List α) : α :=
  ((MerkleTree.build (leaves.map MerkleTree.leaf)).map (MerkleTree.hash hashPair)).getD null

variable [DecidableEq α]

/-- The loop over the hashes of a level of trees ends on the hash of the tree over them. -/
theorem computeMerkleRootLoop_fst_map_hash (ts : List (MerkleTree α)) (mutation : Bool) :
    (computeMerkleRootLoop hashPair (ts.map (MerkleTree.hash hashPair)) mutation).1.headD null =
      ((MerkleTree.build ts).map (MerkleTree.hash hashPair)).getD null := by
  induction ts using MerkleTree.build.induct generalizing mutation with
  | case1 ts h ih =>
    have hbuild : MerkleTree.build ts = MerkleTree.build (MerkleTree.pairUp ts) := by
      rw [MerkleTree.build, if_pos h]
    rw [computeMerkleRootLoop_step hashPair (by simpa using h), ← MerkleTree.map_hash_pairUp,
      hbuild, ih]
  | case2 ts h =>
    rw [computeMerkleRootLoop_stop hashPair (by simp; omega), MerkleTree.build, if_neg h]
    cases ts <;> rfl

/-- `ComputeMerkleRoot` returns the root of the reference tree. -/
theorem computeMerkleRoot_fst (leaves : List α) :
    (computeMerkleRoot hashPair null leaves).1 = merkleTreeRoot hashPair null leaves := by
  have := computeMerkleRootLoop_fst_map_hash hashPair null (leaves.map MerkleTree.leaf) false
  rw [List.map_map, show MerkleTree.hash hashPair ∘ MerkleTree.leaf = id from rfl,
    List.map_id] at this
  exact this

end

/-! ## Distinct leaves -/

section
variable {α : Type} (hashPair : α → α → α)

/-- A value of a hashed level is the pair hash of two values of the level. -/
theorem mem_pairHashes : ∀ {hashes : List α} {y : α}, y ∈ pairHashes hashPair hashes →
    ∃ a b, a ∈ hashes ∧ b ∈ hashes ∧ y = hashPair a b
  | a :: b :: rest, y, hy => by
    rw [pairHashes, List.mem_cons] at hy
    rcases hy with rfl | hy
    · exact ⟨a, b, by simp, by simp, rfl⟩
    · obtain ⟨c, d, hc, hd, rfl⟩ := mem_pairHashes hy
      exact ⟨c, d, by simp [hc], by simp [hd], rfl⟩
  | [a], y, hy => by
    rw [pairHashes, List.mem_singleton] at hy
    exact ⟨a, a, by simp, by simp, hy⟩
  | [], _, hy => by simp [pairHashes] at hy

theorem nodup_pairHashes (hinj : Function.Injective2 hashPair) :
    ∀ {hashes : List α}, hashes.Nodup → (pairHashes hashPair hashes).Nodup
  | a :: b :: rest, h => by
    rw [List.nodup_cons, List.mem_cons, not_or, List.nodup_cons] at h
    obtain ⟨⟨_, ha⟩, _, hrest⟩ := h
    rw [pairHashes, List.nodup_cons]
    refine ⟨fun hmem => ?_, nodup_pairHashes hinj hrest⟩
    -- a pair of the rest hashes two values of the rest, and `a` is not one of them
    obtain ⟨c, d, hc, _, hcd⟩ := mem_pairHashes hashPair hmem
    exact ha ((hinj hcd).1 ▸ hc)
  | [_], _ => by simp [pairHashes]
  | [], _ => List.nodup_nil

variable [DecidableEq α]

theorem hasEqualPair_of_nodup : ∀ {hashes : List α}, hashes.Nodup → hasEqualPair hashes = false
  | a :: b :: rest, h => by
    rw [List.nodup_cons, List.mem_cons, not_or, List.nodup_cons] at h
    rw [hasEqualPair, hasEqualPair_of_nodup h.2.2, Bool.or_false, beq_eq_false_iff_ne]
    exact h.1.1
  | [_], _ => rfl
  | [], _ => rfl

/-- From a level of distinct hashes, the loop never finds an equal pair. -/
theorem computeMerkleRootLoop_snd_of_nodup (hinj : Function.Injective2 hashPair)
    (hashes : List α) (mutation : Bool) (h : hashes.Nodup) :
    (computeMerkleRootLoop hashPair hashes mutation).2 = mutation := by
  induction hashes, mutation using computeMerkleRootLoop.induct hashPair with
  | case1 hashes mutation hlen ih =>
    rw [computeMerkleRootLoop_step hashPair hlen, ← merkleLevelStep_eq,
      ih (by rw [merkleLevelStep_eq]; exact nodup_pairHashes hashPair hinj h),
      hasEqualPair_of_nodup h, Bool.or_false]
  | case2 hashes mutation hlen =>
    rw [computeMerkleRootLoop_stop hashPair (by omega)]

end

/-! ## Equal roots -/

/-- The height at which a value stands over the leaves: a leaf value at `0`, and the pair hash of
two values at height `k` at `k + 1`. -/
inductive HashRank {α : Type} (hashPair : α → α → α) (IsLeaf : α → Prop) : Nat → α → Prop
  | leaf {a : α} : IsLeaf a → HashRank hashPair IsLeaf 0 a
  | node {k : Nat} {a b : α} : HashRank hashPair IsLeaf k a → HashRank hashPair IsLeaf k b →
      HashRank hashPair IsLeaf (k + 1) (hashPair a b)

section
variable {α : Type} {hashPair : α → α → α} {IsLeaf : α → Prop}

/-- With an injective pair hash whose values are not leaf values, a value stands at one height
only. -/
theorem HashRank.unique (hinj : Function.Injective2 hashPair)
    (hleaf : ∀ a b, ¬IsLeaf (hashPair a b)) {j : Nat} {x : α}
    (hj : HashRank hashPair IsLeaf j x) : ∀ {k : Nat}, HashRank hashPair IsLeaf k x → j = k := by
  induction hj with
  | leaf ha =>
    intro k hk
    cases hk with
    | leaf => rfl
    | node => exact absurd ha (hleaf _ _)
  | node ha hb iha ihb =>
    intro k hk
    generalize hx : hashPair _ _ = x at hk
    cases hk with
    | leaf hl => exact absurd (hx ▸ hl) (hleaf _ _)
    | node hc hd =>
      obtain ⟨rfl, rfl⟩ := hinj hx
      rw [iha hc]

theorem rank_pairHashes {k : Nat} {hashes : List α}
    (h : ∀ x ∈ hashes, HashRank hashPair IsLeaf k x) :
    ∀ y ∈ pairHashes hashPair hashes, HashRank hashPair IsLeaf (k + 1) y := by
  intro y hy
  obtain ⟨a, b, ha, hb, rfl⟩ := mem_pairHashes hashPair hy
  exact .node (h a ha) (h b hb)

end

section
variable {α : Type} [DecidableEq α] (hashPair : α → α → α)

/-- From a non-empty level of values at height `k`, the loop ends on one value: at `k` when the
level is one value, above `k` otherwise. -/
theorem computeMerkleRootLoop_rank {IsLeaf : α → Prop} (hashes : List α) (mutation : Bool)
    (hne : hashes ≠ []) (k : Nat) (h : ∀ x ∈ hashes, HashRank hashPair IsLeaf k x) :
    ∃ j r, (computeMerkleRootLoop hashPair hashes mutation).1 = [r] ∧
      HashRank hashPair IsLeaf (k + j) r ∧ (1 < hashes.length → 0 < j) := by
  induction hashes, mutation using computeMerkleRootLoop.induct hashPair generalizing k with
  | case1 hashes mutation hlen ih =>
    have hne' : merkleLevelStep hashPair hashes ≠ [] := by
      rw [merkleLevelStep_eq, ← List.length_pos_iff, length_pairHashes]
      omega
    obtain ⟨j, r, hr, hrank, _⟩ := ih hne' (k + 1)
      (by rw [merkleLevelStep_eq]; exact rank_pairHashes h)
    refine ⟨j + 1, r, ?_, by rwa [Nat.add_right_comm, Nat.add_assoc] at hrank, fun _ => by omega⟩
    rw [computeMerkleRootLoop_step hashPair hlen, ← merkleLevelStep_eq, hr]
  | case2 hashes mutation hlen =>
    obtain ⟨x, rfl⟩ := exists_eq_singleton hne (by omega)
    refine ⟨0, x, ?_, h x (by simp), fun h1 => absurd h1 (by simp)⟩
    rw [computeMerkleRootLoop_stop hashPair (by simp) mutation]

/-- Two levels without an equal pair that hash to one next level are equal: the last hash of an
odd level is paired with itself, which a pair of an even level matches only if it is an equal
pair. -/
theorem eq_of_pairHashes_eq (hinj : Function.Injective2 hashPair) :
    ∀ {hashes₁ hashes₂ : List α}, pairHashes hashPair hashes₁ = pairHashes hashPair hashes₂ →
      hasEqualPair hashes₁ = false → hasEqualPair hashes₂ = false → hashes₁ = hashes₂
  | a :: b :: rest₁, c :: d :: rest₂, h, h₁, h₂ => by
    rw [pairHashes, pairHashes, List.cons.injEq] at h
    obtain ⟨rfl, rfl⟩ := hinj h.1
    rw [hasEqualPair, Bool.or_eq_false_iff] at h₁ h₂
    rw [eq_of_pairHashes_eq hinj h.2 h₁.2 h₂.2]
  | a :: b :: rest₁, [c], h, h₁, _ => by
    rw [pairHashes, pairHashes, List.cons.injEq] at h
    obtain ⟨rfl, rfl⟩ := hinj h.1
    simp [hasEqualPair] at h₁
  | [a], c :: d :: rest₂, h, _, h₂ => by
    rw [pairHashes, pairHashes, List.cons.injEq] at h
    obtain ⟨rfl, rfl⟩ := hinj h.1
    simp [hasEqualPair] at h₂
  | [a], [c], h, _, _ => by
    rw [pairHashes, pairHashes, List.cons.injEq] at h
    rw [(hinj h.1).1]
  | [], [], _, _, _ => rfl
  | [], _ :: _, h, _, _ | _ :: _, [], h, _, _ => by
    have := congrArg List.length h
    rw [length_pairHashes, length_pairHashes] at this
    simp only [List.length_nil, List.length_cons] at this
    omega

/-- Two non-empty levels at one height whose loops end on the same root without raising the flag
are equal. -/
theorem eq_of_computeMerkleRootLoop_eq {IsLeaf : α → Prop} (hinj : Function.Injective2 hashPair)
    (hleaf : ∀ a b, ¬IsLeaf (hashPair a b)) (k : Nat) (hashes₁ hashes₂ : List α)
    (hne₁ : hashes₁ ≠ []) (hne₂ : hashes₂ ≠ [])
    (h₁ : ∀ x ∈ hashes₁, HashRank hashPair IsLeaf k x)
    (h₂ : ∀ x ∈ hashes₂, HashRank hashPair IsLeaf k x)
    (hroot : (computeMerkleRootLoop hashPair hashes₁ false).1 =
      (computeMerkleRootLoop hashPair hashes₂ false).1)
    (hmut₁ : (computeMerkleRootLoop hashPair hashes₁ false).2 = false)
    (hmut₂ : (computeMerkleRootLoop hashPair hashes₂ false).2 = false) :
    hashes₁ = hashes₂ := by
  by_cases hl₁ : 1 < hashes₁.length <;> by_cases hl₂ : 1 < hashes₂.length
  · -- both levels step: the next levels are equal by induction, and so are these
    rw [computeMerkleRootLoop_snd_step hashPair hl₁, Bool.or_eq_false_iff] at hmut₁
    rw [computeMerkleRootLoop_snd_step hashPair hl₂, Bool.or_eq_false_iff] at hmut₂
    rw [computeMerkleRootLoop_step hashPair hl₁, computeMerkleRootLoop_step hashPair hl₂,
      Bool.false_or, Bool.false_or, hmut₁.1, hmut₂.1] at hroot
    have hne : ∀ {hashes : List α}, 1 < hashes.length → pairHashes hashPair hashes ≠ [] := by
      intro hashes hl
      rw [← List.length_pos_iff, length_pairHashes]
      omega
    have hnext := eq_of_computeMerkleRootLoop_eq hinj hleaf (k + 1) _ _ (hne hl₁) (hne hl₂)
      (rank_pairHashes h₁) (rank_pairHashes h₂) hroot hmut₁.2 hmut₂.2
    exact eq_of_pairHashes_eq hashPair hinj hnext hmut₁.1 hmut₂.1
  · -- one value at height `k` against a root above `k`
    obtain ⟨x, rfl⟩ := exists_eq_singleton hne₂ hl₂
    obtain ⟨j, r, hr, hrank, hj⟩ := computeMerkleRootLoop_rank hashPair hashes₁ false hne₁ k h₁
    rw [hr, computeMerkleRootLoop_stop hashPair (by simp), List.cons.injEq] at hroot
    have := HashRank.unique hinj hleaf hrank (hroot.1 ▸ h₂ x (by simp))
    omega
  · obtain ⟨x, rfl⟩ := exists_eq_singleton hne₁ hl₁
    obtain ⟨j, r, hr, hrank, hj⟩ := computeMerkleRootLoop_rank hashPair hashes₂ false hne₂ k h₂
    rw [hr, computeMerkleRootLoop_stop hashPair (by simp), List.cons.injEq] at hroot
    have := HashRank.unique hinj hleaf hrank (hroot.1 ▸ h₁ x (by simp))
    omega
  · rwa [computeMerkleRootLoop_stop hashPair (by omega),
      computeMerkleRootLoop_stop hashPair (by omega)] at hroot
termination_by hashes₁.length
decreasing_by
  rw [length_pairHashes]
  omega

/-- The root of a non-empty list is the one value its loop ends on. -/
theorem computeMerkleRootLoop_fst_eq (null : α) {hashes : List α} (hne : hashes ≠ []) :
    (computeMerkleRootLoop hashPair hashes false).1 =
      [(computeMerkleRoot hashPair null hashes).1] := by
  -- every value stands at height `0` over the leaf predicate that holds everywhere
  have hleaf : ∀ x ∈ hashes, HashRank hashPair (fun _ => True) 0 x := fun _ _ => .leaf trivial
  obtain ⟨_, r, hr, _⟩ := computeMerkleRootLoop_rank hashPair hashes false hne 0 hleaf
  rw [computeMerkleRoot, hr]
  rfl

end

/-! ## The defence against CVE-2012-2459 -/

/-- `ComputeMerkleRoot` computes the reference root; with an injective pair hash, distinct leaves
raise no flag, and two different non-empty lists of leaf values with one root, when no pair hash
is a leaf value, raise the flag on one of them. -/
theorem merkle_mutation_detects_collisions {α : Type} [DecidableEq α] (hashPair : α → α → α)
    (null : α) (IsLeaf : α → Prop) (hinj : Function.Injective2 hashPair)
    (hleaf : ∀ a b, ¬IsLeaf (hashPair a b)) :
    (∀ leaves, (computeMerkleRoot hashPair null leaves).1 = merkleTreeRoot hashPair null leaves) ∧
    (∀ leaves : List α, leaves.Nodup → (computeMerkleRoot hashPair null leaves).2 = false) ∧
    (∀ leaves₁ leaves₂ : List α, leaves₁ ≠ [] → leaves₂ ≠ [] →
      (∀ x ∈ leaves₁, IsLeaf x) → (∀ x ∈ leaves₂, IsLeaf x) → leaves₁ ≠ leaves₂ →
      (computeMerkleRoot hashPair null leaves₁).1 = (computeMerkleRoot hashPair null leaves₂).1 →
      (computeMerkleRoot hashPair null leaves₁).2 = true ∨
        (computeMerkleRoot hashPair null leaves₂).2 = true) := by
  refine ⟨computeMerkleRoot_fst hashPair null, fun leaves h =>
    computeMerkleRootLoop_snd_of_nodup hashPair hinj leaves false h, ?_⟩
  intro leaves₁ leaves₂ hne₁ hne₂ hl₁ hl₂ hne hroot
  -- two roots without a flag would make the lists equal
  by_contra hflag
  rw [not_or, Bool.not_eq_true, Bool.not_eq_true] at hflag
  refine hne (eq_of_computeMerkleRootLoop_eq hashPair hinj hleaf 0 leaves₁ leaves₂ hne₁ hne₂
    (fun x hx => .leaf (hl₁ x hx)) (fun x hx => .leaf (hl₂ x hx)) ?_ hflag.1 hflag.2)
  rw [computeMerkleRootLoop_fst_eq hashPair null hne₁,
    computeMerkleRootLoop_fst_eq hashPair null hne₂, hroot]

namespace MerkleFixture

/-- An injective pair hash on numbers whose values are odd, with the even numbers as the leaf
values. -/
def oddPairHash (a b : Nat) : Nat := 2 * Nat.pair a b + 1

theorem oddPairHash_injective2 : Function.Injective2 oddPairHash := by
  intro a₁ a₂ b₁ b₂ h
  have hpair : Nat.pair a₁ b₁ = Nat.pair a₂ b₂ := by
    unfold oddPairHash at h
    omega
  exact Nat.pair_eq_pair.mp hpair

theorem oddPairHash_odd (a b : Nat) : ¬oddPairHash a b % 2 = 0 := by
  unfold oddPairHash
  omega

/-- Distinct leaves `2, 4, 6` raise no flag. -/
theorem merkle_mutation_detects_collisions_distinct :
    Function.Injective2 oddPairHash ∧ (∀ a b, ¬oddPairHash a b % 2 = 0) ∧
      (computeMerkleRoot oddPairHash 0 [2, 4, 6]).2 = false :=
  ⟨oddPairHash_injective2, oddPairHash_odd,
    (merkle_mutation_detects_collisions oddPairHash 0 (fun x => x % 2 = 0) oddPairHash_injective2
      oddPairHash_odd).2.1 [2, 4, 6] (by decide)⟩

/-- No leaves and the one leaf `uint256()` have the root `uint256()` and raise no flag, with an
injective pair hash whose values are not leaf values. -/
theorem empty_and_null_leaf_share_root :
    Function.Injective2 oddPairHash ∧ (∀ a b, ¬oddPairHash a b % 2 = 0) ∧
      ([] : List Nat) ≠ [0] ∧ (∀ x ∈ [0], x % 2 = 0) ∧
      computeMerkleRoot oddPairHash 0 [] = (0, false) ∧
      computeMerkleRoot oddPairHash 0 [0] = (0, false) := by
  refine ⟨oddPairHash_injective2, oddPairHash_odd, by simp, by simp, ?_, ?_⟩
  · rw [computeMerkleRoot, computeMerkleRootLoop_stop oddPairHash (by simp)]
    rfl
  · rw [computeMerkleRoot, computeMerkleRootLoop_stop oddPairHash (by simp)]
    rfl

end MerkleFixture

/-! ## `BlockMerkleRoot` and `CheckBlock` -/

section
variable {α Tx : Type} [DecidableEq α] (hashPair : α → α → α) (null : α) (getHash : Tx → α)

/-- `BlockMerkleRoot(block, &mutated)`: the root over the hashes of the block's transactions. -/
def blockMerkleRoot (vtx : List Tx) : α × Bool :=
  computeMerkleRoot hashPair null (vtx.map getHash)

/-- The merkle check of `CheckBlock` (`src/validation.cpp:3426`), under `fCheckMerkleRoot`. -/
def checkBlockMerkleRoot (hashMerkleRoot : α) (vtx : List Tx) : Except String Unit :=
  let (hashMerkleRoot2, mutated) := blockMerkleRoot hashPair null getHash vtx
  if hashMerkleRoot ≠ hashMerkleRoot2 then .error "bad-txnmrklroot"
  -- Check for merkle tree malleability (CVE-2012-2459)
  else if mutated then .error "bad-txns-duplicate"
  else .ok ()

theorem checkBlockMerkleRoot_eq_ok {hashMerkleRoot : α} {vtx : List Tx}
    (h : checkBlockMerkleRoot hashPair null getHash hashMerkleRoot vtx = .ok ()) :
    (blockMerkleRoot hashPair null getHash vtx).1 = hashMerkleRoot ∧
      (blockMerkleRoot hashPair null getHash vtx).2 = false := by
  unfold checkBlockMerkleRoot at h
  rcases hblock : blockMerkleRoot hashPair null getHash vtx with ⟨hashMerkleRoot2, mutated⟩
  rw [hblock] at h
  dsimp only at h
  split_ifs at h with hroot hmut
  exact ⟨(not_not.mp hroot).symm, by simpa using hmut⟩

/-- Two non-empty blocks whose transaction hashes are leaf values and that pass the merkle check
against one root have the same transaction hashes, in order. -/
theorem checkBlockMerkleRoot_unique {IsLeaf : α → Prop} (hinj : Function.Injective2 hashPair)
    (hleaf : ∀ a b, ¬IsLeaf (hashPair a b)) {hashMerkleRoot : α} {vtx₁ vtx₂ : List Tx}
    (hne₁ : vtx₁ ≠ []) (hne₂ : vtx₂ ≠ []) (hl₁ : ∀ tx ∈ vtx₁, IsLeaf (getHash tx))
    (hl₂ : ∀ tx ∈ vtx₂, IsLeaf (getHash tx))
    (h₁ : checkBlockMerkleRoot hashPair null getHash hashMerkleRoot vtx₁ = .ok ())
    (h₂ : checkBlockMerkleRoot hashPair null getHash hashMerkleRoot vtx₂ = .ok ()) :
    vtx₁.map getHash = vtx₂.map getHash := by
  obtain ⟨hroot₁, hmut₁⟩ := checkBlockMerkleRoot_eq_ok hashPair null getHash h₁
  obtain ⟨hroot₂, hmut₂⟩ := checkBlockMerkleRoot_eq_ok hashPair null getHash h₂
  have hne : ∀ {vtx : List Tx}, vtx ≠ [] → vtx.map getHash ≠ [] := by
    intro vtx hvtx
    simpa using hvtx
  refine eq_of_computeMerkleRootLoop_eq hashPair hinj hleaf 0 _ _ (hne hne₁) (hne hne₂)
    (by simpa using fun tx htx => HashRank.leaf (hl₁ tx htx))
    (by simpa using fun tx htx => HashRank.leaf (hl₂ tx htx)) ?_ hmut₁ hmut₂
  rw [computeMerkleRootLoop_fst_eq hashPair null (hne hne₁),
    computeMerkleRootLoop_fst_eq hashPair null (hne hne₂)]
  exact congrArg (fun r => [r]) (hroot₁.trans hroot₂.symm)

end

end Emrals
