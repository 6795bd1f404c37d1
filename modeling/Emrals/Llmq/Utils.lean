import Mathlib
import Emrals.Primitives
import Emrals.Lib.Loop

/-!
# The connections of a quorum member

`CLLMQUtils::GetQuorumConnections` (`src/llmq/quorums_utils.cpp:46-74`) connects the member at
index `i` of a ring of `n` members to the members at `(i + 2 ^ k) % n`, for `k` from `0` while
`gap_max >>= 1` leaves a non-zero value, or `k ≤ 1`. The shift is in the loop's condition, so it
happens once per round, also in a round that meets the member itself and `continue`s without
moving `gap` or `k`.

From three members on, no gap of the loop is a multiple of `n`, so the loop never meets the
member itself: it runs `max 1 (log₂ (n - 1) - 1) + 1` rounds and returns the members at those
gaps (`connectionsRound_of_lt`, then the variant rule of `Lib.Loop`). With one or two members the
second gap is a multiple of `n`; there `k` stays at `1` and the loop never ends
(`getQuorumConnections_eq_none`).

The members are the list of their ProTx hashes. `otherDmn == dmn` compares the pointers of
members, which for the distinct members of a quorum holds exactly at the member's own index.
-/

namespace Emrals

/-- The variables of the loop of `GetQuorumConnections`, and the set it fills. -/
structure ConnectionsLoop where
  gap : Int
  gap_max : Int
  k : Int
  result : Finset uint256

/-- A round of the `while` loop for the member at index `i`: the condition shifts `gap_max` (an
arithmetic shift, so a division by `2` rounding down); the member itself is skipped. -/
def connectionsRound (mns : List uint256) (i : Nat) (s : ConnectionsLoop) :
    Option (ConnectionsLoop ⊕ Finset uint256) :=
  let gap_max := s.gap_max / 2
  if gap_max ≠ 0 ∨ s.k ≤ 1 then
    let idx := (i + toSizeT s.gap) % mns.length
    if idx = i then some (.inl { s with gap_max := gap_max })
    else
      some (.inl ⟨2 * s.gap, gap_max, s.k + 1, insert (mns.getD idx 0) s.result⟩)
  else some (.inr s.result)

/-- `GetQuorumConnections`, its loop running at most `fuel` rounds: the loop runs for the first
member whose ProTx hash is `forMember`. -/
def getQuorumConnections (fuel : Nat) (mns : List uint256) (forMember : uint256) :
    Option (Finset uint256) :=
  match mns.findIdx? (· == forMember) with
  | none => some ∅
  | some i => Loop.loop (connectionsRound mns i) fuel ⟨1, toInt32 mns.length - 1, 0, ∅⟩

/-! ## From three members on -/

theorem toSizeT_of_lt {x : Nat} (h : x < 2 ^ 64) : toSizeT x = x := by
  unfold toSizeT
  rw [Int.emod_eq_of_lt (by omega) (by omega)]
  rfl

/-- A step of less than the ring's length does not come back to where it started. -/
theorem add_mod_ne_self {i g n : Nat} (hi : i < n) (hg : 0 < g) (hgn : g < n) : (i + g) % n ≠ i := by
  by_cases h : i + g < n
  · rw [Nat.mod_eq_of_lt h]
    omega
  · rw [Nat.mod_eq_sub_mod (by omega), Nat.mod_eq_of_lt (by omega)]
    omega

theorem findIdx?_beq_getD {l : List uint256} (h : l.Nodup) :
    ∀ {i : Nat}, i < l.length → l.findIdx? (· == l.getD i 0) = some i := by
  induction l with
  | nil => intro i hi; cases hi
  | cons a l ih =>
    intro i hi
    rw [List.findIdx?_cons]
    cases i with
    | zero => simp
    | succ i =>
      have hne : a ≠ l.getD i 0 := by
        intro heq
        have hmem : l.getD i 0 ∈ l := by
          rw [List.getD_eq_getElem?_getD, List.getElem?_eq_getElem (by simpa using hi)]
          exact List.getElem_mem _
        exact (List.nodup_cons.mp h).1 (heq ▸ hmem)
      simp only [List.getD_cons_succ, beq_iff_eq, hne, if_false]
      rw [ih (List.nodup_cons.mp h).2 (by simpa using hi)]
      rfl

section
variable (mns : List uint256) (i : Nat)

/-- The last `k` of the loop: `max(1, floor(log2(n-1)) - 1)`. -/
def lastGapExp : Nat := max 1 (Nat.log 2 (mns.length - 1) - 1)

/-- The member at gap `2 ^ k` from the member at index `i`. -/
def ringMember (k : Nat) : uint256 := mns.getD ((i + 2 ^ k) % mns.length) 0

/-- The loop's variables after `j` rounds that did not meet the member itself. -/
def connectionsAfter (j : Nat) : ConnectionsLoop :=
  ⟨2 ^ j, ((mns.length - 1) / 2 ^ j : Nat), j, (Finset.range j).image (ringMember mns i)⟩

variable {mns i}

/-- The condition of the loop after `j` rounds holds until `k` passes `lastGapExp`. -/
theorem continue_iff {j : Nat} (hn : 3 ≤ mns.length) :
    ((((mns.length - 1) / 2 ^ j : Nat) : Int) / 2 ≠ 0 ∨ (j : Int) ≤ 1) ↔ j ≤ lastGapExp mns := by
  have hdiv : (((mns.length - 1) / 2 ^ j : Nat) : Int) / 2 = ((mns.length - 1) / 2 ^ (j + 1) : Nat) := by
    rw [pow_succ, ← Nat.div_div_eq_div_mul]
    omega
  have hlog : (mns.length - 1) / 2 ^ (j + 1) ≠ 0 ↔ j + 1 ≤ Nat.log 2 (mns.length - 1) := by
    rw [Nat.le_log_iff_pow_le (by norm_num) (by omega), ne_eq, Nat.div_eq_zero_iff]
    have := Nat.two_pow_pos (j + 1)
    omega
  rw [hdiv, lastGapExp]
  constructor
  · rintro (h | h)
    · have := hlog.mp (by exact_mod_cast h)
      omega
    · omega
  · intro h
    by_cases hj : j ≤ 1
    · exact .inr (by exact_mod_cast hj)
    · exact .inl (by exact_mod_cast hlog.mpr (by omega))

/-- Every gap of the loop is less than the ring's length. -/
theorem two_pow_lt_length {j : Nat} (hn : 3 ≤ mns.length) (hj : j ≤ lastGapExp mns) :
    2 ^ j < mns.length := by
  have hK : 2 ^ lastGapExp mns < mns.length := by
    unfold lastGapExp
    by_cases h : Nat.log 2 (mns.length - 1) - 1 ≤ 1
    · rw [max_eq_left h]
      omega
    · rw [max_eq_right (by omega)]
      have hle := Nat.pow_log_le_self 2 (show mns.length - 1 ≠ 0 by omega)
      have hsplit : 2 ^ Nat.log 2 (mns.length - 1) =
          2 ^ (Nat.log 2 (mns.length - 1) - 1) * 2 := by
        rw [← pow_succ]
        congr 1
        omega
      omega
  exact lt_of_le_of_lt (Nat.pow_le_pow_right (by norm_num) hj) hK

/-- A round within the gaps moves to the next member of the ring. -/
theorem connectionsRound_of_le {j : Nat} (hn : 3 ≤ mns.length) (hsize : mns.length < 2 ^ 31)
    (hi : i < mns.length) (hj : j ≤ lastGapExp mns) :
    connectionsRound mns i (connectionsAfter mns i j) =
      some (.inl (connectionsAfter mns i (j + 1))) := by
  have hgap := two_pow_lt_length hn hj
  have hsizeT : toSizeT ((2 : Int) ^ j) = 2 ^ j := by
    rw [show ((2 : Int) ^ j) = ((2 ^ j : Nat) : Int) by push_cast; rfl]
    exact toSizeT_of_lt (by omega)
  have hidx : (i + toSizeT ((2 : Int) ^ j)) % mns.length ≠ i := by
    rw [hsizeT]
    exact add_mod_ne_self hi (Nat.two_pow_pos j) hgap
  have hdiv : (((mns.length - 1) / 2 ^ j : Nat) : Int) / 2 = ((mns.length - 1) / 2 ^ (j + 1) : Nat) := by
    rw [pow_succ, ← Nat.div_div_eq_div_mul]
    omega
  unfold connectionsRound connectionsAfter
  dsimp only
  rw [if_pos ((continue_iff hn).mpr hj), if_neg hidx, hdiv, hsizeT, Finset.range_add_one,
    Finset.image_insert]
  congr 3
  rw [pow_succ]
  ring

/-- Past the last gap the loop returns what it collected. -/
theorem connectionsRound_last (hn : 3 ≤ mns.length) :
    connectionsRound mns i (connectionsAfter mns i (lastGapExp mns + 1)) =
      some (.inr ((Finset.range (lastGapExp mns + 1)).image (ringMember mns i))) := by
  unfold connectionsRound connectionsAfter
  dsimp only
  rw [if_neg (fun h => by have := (continue_iff hn).mp h; omega)]

theorem getD_injective {l : List uint256} (h : l.Nodup) {a b : Nat} (ha : a < l.length)
    (hb : b < l.length) (heq : l.getD a 0 = l.getD b 0) : a = b := by
  rw [List.getD_eq_getElem?_getD, List.getElem?_eq_getElem ha, List.getD_eq_getElem?_getD,
    List.getElem?_eq_getElem hb] at heq
  exact (h.getElem_inj_iff).mp heq

/-- The loop starts as it is after no round. -/
theorem connectionsAfter_zero (hn : 3 ≤ mns.length) (hsize : mns.length < 2 ^ 31) :
    (⟨1, toInt32 mns.length - 1, 0, ∅⟩ : ConnectionsLoop) = connectionsAfter mns i 0 := by
  unfold connectionsAfter
  rw [toInt32_of_lt hsize, Finset.range_zero, Finset.image_empty]
  simp only [pow_zero, Nat.div_one]
  congr 1
  omega

end

/-- For a quorum of `n ≥ 3` distinct members, the loop for the member at index `i` ends after
`max(1, floor(log2(n-1)) - 1) + 1` rounds. It returns the members at the indexes `(i + 2 ^ k) % n`
for `k` up to that bound, and these never include the member itself. -/
theorem quorum_connections_ring (mns : List uint256) (hnodup : mns.Nodup) (hn : 3 ≤ mns.length)
    (hsize : mns.length < 2 ^ 31) {i : Nat} (hi : i < mns.length) (fuel : Nat)
    (hfuel : lastGapExp mns + 1 < fuel) :
    getQuorumConnections fuel mns (mns.getD i 0) =
        some ((Finset.range (lastGapExp mns + 1)).image (ringMember mns i)) ∧
      mns.getD i 0 ∉ (Finset.range (lastGapExp mns + 1)).image (ringMember mns i) := by
  constructor
  · unfold getQuorumConnections
    rw [findIdx?_beq_getD hnodup hi]
    dsimp only
    rw [connectionsAfter_zero hn hsize]
    -- the variant is the number of gaps still to take
    have hbody : ∀ s : ConnectionsLoop,
        (∃ j ≤ lastGapExp mns + 1, s = connectionsAfter mns i j) →
        (∃ s', connectionsRound mns i s = some (.inl s') ∧
            (∃ j ≤ lastGapExp mns + 1, s' = connectionsAfter mns i j) ∧
            lastGapExp mns + 1 - s'.k.toNat < lastGapExp mns + 1 - s.k.toNat) ∨
          ∃ r, connectionsRound mns i s = some (.inr r) ∧
            r = (Finset.range (lastGapExp mns + 1)).image (ringMember mns i) := by
      rintro s ⟨j, hj, rfl⟩
      by_cases hlast : j ≤ lastGapExp mns
      · refine .inl ⟨_, connectionsRound_of_le hn hsize hi hlast, ⟨j + 1, by omega, rfl⟩, ?_⟩
        simp only [connectionsAfter, Int.toNat_natCast]
        omega
      · obtain rfl : j = lastGapExp mns + 1 := by omega
        exact .inr ⟨_, connectionsRound_last hn, rfl⟩
    obtain ⟨r, hr, rfl⟩ := Loop.loop_of_variant (fun s => lastGapExp mns + 1 - s.k.toNat) hbody
      fuel (connectionsAfter mns i 0) ⟨0, by omega, rfl⟩ (by simp only [connectionsAfter]; omega)
    exact hr
  · -- no gap is a multiple of `n`, and the members are distinct
    intro hmem
    obtain ⟨k, hk, heq⟩ := Finset.mem_image.mp hmem
    have hk' : k ≤ lastGapExp mns := Nat.lt_succ_iff.mp (Finset.mem_range.mp hk)
    exact add_mod_ne_self hi (Nat.two_pow_pos k) (two_pow_lt_length hn hk')
      (getD_injective hnodup (Nat.mod_lt _ (by omega)) hi heq)

theorem quorum_connections_ring_five :
    getQuorumConnections 10 [1, 2, 3, 4, 5] 1 =
      some ((Finset.range (lastGapExp [1, 2, 3, 4, 5] + 1)).image (ringMember [1, 2, 3, 4, 5] 0)) :=
  (quorum_connections_ring [1, 2, 3, 4, 5] (by decide) (by decide) (by decide) (i := 0)
    (by decide) 10 (by decide)).1

/-! ## One or two members -/

/-- With one or two members the loop meets the member itself at the gap `2`, or `1`, with `k ≤ 1`
and `gap_max` at `0`, and goes round forever. -/
theorem getQuorumConnections_eq_none (mns : List uint256) (hnodup : mns.Nodup)
    (hn : mns.length ≤ 2) {i : Nat} (hi : i < mns.length) (fuel : Nat) :
    getQuorumConnections fuel mns (mns.getD i 0) = none := by
  unfold getQuorumConnections
  rw [findIdx?_beq_getD hnodup hi]
  dsimp only
  have hstuck : ∀ s : ConnectionsLoop,
      (s.gap_max = 0 ∧ s.k ≤ 1 ∧ (i + toSizeT s.gap) % mns.length = i) →
      connectionsRound mns i s = none ∨ ∃ s', connectionsRound mns i s = some (.inl s') ∧
        (s'.gap_max = 0 ∧ s'.k ≤ 1 ∧ (i + toSizeT s'.gap) % mns.length = i) := by
    rintro s ⟨hmax, hk, hidx⟩
    refine .inr ⟨{ s with gap_max := s.gap_max / 2 }, ?_, by simp [hmax], hk, hidx⟩
    unfold connectionsRound
    rw [if_pos (.inr hk), if_pos hidx]
  have hsize : mns.length < 2 ^ 31 := by omega
  rcases (show mns.length = 1 ∨ mns.length = 2 by omega) with h1 | h2
  · -- one member: the first gap is a multiple of `1`
    refine Loop.loop_eq_none_of_stuck hstuck fuel _ ⟨?_, show (0 : Int) ≤ 1 by decide, ?_⟩
    · rw [toInt32_of_lt hsize, h1]
      rfl
    · rw [h1, Nat.mod_one]
      omega
  · -- two members: one round to the other member, then the gap `2`
    cases fuel with
    | zero => rfl
    | succ fuel =>
      have hround : connectionsRound mns i ⟨1, toInt32 mns.length - 1, 0, ∅⟩ =
          some (.inl ⟨2, 0, 1, insert (mns.getD ((i + 1) % 2) 0) ∅⟩) := by
        have hone : toSizeT (1 : Int) = 1 := toSizeT_of_lt (x := 1) (by norm_num)
        unfold connectionsRound
        rw [toInt32_of_lt hsize, h2, hone, if_pos (.inr (by decide)),
          if_neg (by omega)]
        rfl
      rw [Loop.loop_of_inl hround]
      refine Loop.loop_eq_none_of_stuck hstuck fuel _ ⟨rfl, show (1 : Int) ≤ 1 by decide, ?_⟩
      have htwo : toSizeT (2 : Int) = 2 := toSizeT_of_lt (x := 2) (by norm_num)
      rw [htwo, h2]
      omega

end Emrals
