import Mathlib
import Emrals.Arith.Compact

/-!
# The operators of `base_uint<256>` and the work of a block

`operator<<=` and `operator>>=` (`src/arith_uint256.cpp:23-55`) move every word of a copy of the
number by `shift / 32` words and `shift % 32` bits, OR-ing its two halves into the two words they
land on. After the rounds below `m` a word holds what those rounds moved to it
(`getD_foldl_shiftLeftRound`, `getD_foldl_shiftRightRound`); read bit by bit that is the shifted
number (`shiftLeftAssign_toNat`, `shiftRightAssign_toNat`).

`operator*=` (`:69-83`) adds, for every word `j` of the number, that word times the other number
into the words from `j` on, dropping what is carried past the top; each row is the loop
`Words.mulAddWordLoop`, so the rows add up to the product modulo `2^256` (`mulAssign_toNat`).

`operator/=` (`:85-107`) aligns the divisor with the number and subtracts it, shifted, from the top
bit down. The invariant of its rounds (`DivInv`) is that of long division: the quotient so far
times the divisor plus what is left is the number, what is left is below twice the shifted divisor,
and the quotient has no bit at or below the current one (`divideAssign_eq`).

`GetBlockProof` (`src/chain.cpp:123-137`) computes `2^256 / (target + 1)` as
`~target / (target + 1) + 1`; a target that `SetCompact` decodes without overflow is below
`2^256 - 1`, so neither the sum nor the division wraps (`getBlockProof_eq`).
-/

namespace Emrals

namespace ArithUint256

/-! ## Shifts -/

/-- A round of the loop of `operator<<=`, for word `i` of the copy `aPn`: its high bits go to word
`i + k + 1` and its low bits to word `i + k`, where they fit (`WIDTH` is `8`). -/
def shiftLeftRound (aPn : List UInt32) (k shift : Nat) (pn : List UInt32) (i : Nat) :
    List UInt32 :=
  let pn := if i + k + 1 < 8 ∧ shift ≠ 0 then
      pn.modify (i + k + 1) (· ||| aPn.getD i 0 >>> (32 - shift).toUInt32)
    else pn
  if i + k < 8 then pn.modify (i + k) (· ||| aPn.getD i 0 <<< shift.toUInt32) else pn

/-- `base_uint::operator<<=`. -/
def shiftLeftAssign (a : arith_uint256) (shift : Nat) : arith_uint256 :=
  BitVec.ofNat 256 (Words.ofWords ((List.range 8).foldl
    (shiftLeftRound (Words.toWords 8 a.toNat) (shift / 32) (shift % 32)) (List.replicate 8 0)))

/-- A round of the loop of `operator>>=`, for word `i` of the copy `aPn`: its low bits go to word
`i - k - 1` and its high bits to word `i - k`, where those exist. -/
def shiftRightRound (aPn : List UInt32) (k shift : Nat) (pn : List UInt32) (i : Nat) :
    List UInt32 :=
  let pn := if k + 1 ≤ i ∧ shift ≠ 0 then
      pn.modify (i - k - 1) (· ||| aPn.getD i 0 <<< (32 - shift).toUInt32)
    else pn
  if k ≤ i then pn.modify (i - k) (· ||| aPn.getD i 0 >>> shift.toUInt32) else pn

/-- `base_uint::operator>>=`. -/
def shiftRightAssign (a : arith_uint256) (shift : Nat) : arith_uint256 :=
  BitVec.ofNat 256 (Words.ofWords ((List.range 8).foldl
    (shiftRightRound (Words.toWords 8 a.toNat) (shift / 32) (shift % 32)) (List.replicate 8 0)))

/-! The bits of the word operations that the shifts use. -/

theorem testBit_ite_zero (c : Prop) [Decidable c] (w : UInt32) (q : Nat) :
    (if c then w else 0).toNat.testBit q = (decide c && w.toNat.testBit q) := by
  split <;> simp [*]

/-- A `uint32_t` shift reads its amount modulo `32`. -/
theorem toUInt32_toNat_mod (n : Nat) : n.toUInt32.toNat % 32 = n % 32 := by
  rw [UInt32.toNat_ofNat', Nat.mod_mod_of_dvd _ (by decide)]

theorem testBit_shiftLeft_word (w : UInt32) (n q : Nat) :
    (w <<< n.toUInt32).toNat.testBit q =
      (decide (n % 32 ≤ q ∧ q < 32) && w.toNat.testBit (q - n % 32)) := by
  rw [UInt32.toNat_shiftLeft, toUInt32_toNat_mod, Nat.testBit_mod_two_pow, Nat.testBit_shiftLeft]
  by_cases h1 : n % 32 ≤ q <;> by_cases h2 : q < 32 <;> simp [h1, h2]

theorem testBit_shiftRight_word (w : UInt32) (n q : Nat) :
    (w >>> n.toUInt32).toNat.testBit q = w.toNat.testBit (n % 32 + q) := by
  rw [UInt32.toNat_shiftRight, toUInt32_toNat_mod, Nat.testBit_shiftRight]

/-- A bit read under a guard that fixes its index. -/
theorem and_congr_of_guard {b x y : Bool} (h : b = true → x = y) : (b && x) = (b && y) := by
  cases b
  · rfl
  · exact congrArg _ (h rfl)

/-- Two guarded reads of one bit. -/
theorem or_guarded {G₁ G₂ P : Prop} [Decidable G₁] [Decidable G₂] [Decidable P] {t : Bool}
    (h : G₁ ∨ G₂ ↔ P) : ((decide G₁ && t) || (decide G₂ && t)) = (decide P && t) := by
  cases t <;> simp [← Bool.decide_or, h]

section Shift
variable (aPn : List UInt32) (k shift : Nat)

theorem length_shiftLeftRound {pn : List UInt32} (i : Nat) (h : pn.length = 8) :
    (shiftLeftRound aPn k shift pn i).length = 8 := by
  unfold shiftLeftRound
  split_ifs <;> simp [h]

theorem length_foldl_shiftLeftRound (m : Nat) :
    ((List.range m).foldl (shiftLeftRound aPn k shift) (List.replicate 8 0)).length = 8 := by
  induction m with
  | zero => simp
  | succ m ih =>
    rw [List.range_succ, List.foldl_append, List.foldl_cons, List.foldl_nil]
    exact length_shiftLeftRound aPn k shift m ih

/-- What one round of `operator<<=` does to word `j`. -/
theorem getD_shiftLeftRound {pn : List UInt32} (i j : Nat) (h : pn.length = 8) :
    (shiftLeftRound aPn k shift pn i).getD j 0 =
      if j = i + k ∧ j < 8 then pn.getD j 0 ||| aPn.getD i 0 <<< shift.toUInt32
      else if j = i + k + 1 ∧ j < 8 ∧ shift ≠ 0 then
        pn.getD j 0 ||| aPn.getD i 0 >>> (32 - shift).toUInt32
      else pn.getD j 0 := by
  unfold shiftLeftRound
  dsimp only
  -- every write lands at a word other than `j` or at `j` itself; the guards are arithmetic
  simp only [apply_ite (fun l : List UInt32 => l.getD j 0),
    apply_ite (fun l : List UInt32 => l.length), Words.getD_modify, List.length_modify, h]
  split_ifs <;> first | rfl | omega

/-- After the rounds below `m`, word `j` holds what those rounds moved to it: the low bits of word
`j - k` and the high bits of word `j - k - 1` of the copy. -/
theorem getD_foldl_shiftLeftRound (m j : Nat) :
    ((List.range m).foldl (shiftLeftRound aPn k shift) (List.replicate 8 0)).getD j 0 =
      (if k ≤ j ∧ j - k < m ∧ j < 8 then aPn.getD (j - k) 0 <<< shift.toUInt32 else 0) |||
      (if shift ≠ 0 ∧ k + 1 ≤ j ∧ j - k - 1 < m ∧ j < 8 then
        aPn.getD (j - k - 1) 0 >>> (32 - shift).toUInt32 else 0) := by
  induction m with
  | zero =>
    rw [List.range_zero, List.foldl_nil, if_neg (by omega), if_neg (by omega), UInt32.zero_or]
    by_cases hj : j < 8
    · exact List.getD_replicate _ hj
    · exact List.getD_eq_default _ _ (by simp; omega)
  | succ m ih =>
    rw [List.range_succ, List.foldl_append, List.foldl_cons, List.foldl_nil,
      getD_shiftLeftRound aPn k shift m j (length_foldl_shiftLeftRound aPn k shift m), ih]
    by_cases hA : j = m + k ∧ j < 8
    · -- round `m` writes the low bits of word `m` here
      obtain ⟨rfl, hj⟩ := hA
      have hlow : ¬(k ≤ m + k ∧ m + k - k < m ∧ m + k < 8) := by omega
      have hlow' : k ≤ m + k ∧ m + k - k < m + 1 ∧ m + k < 8 := by omega
      rw [if_pos ⟨rfl, hj⟩, if_neg hlow, if_pos hlow', UInt32.zero_or, UInt32.or_comm,
        Nat.add_sub_cancel]
      exact congrArg _ (if_congr (by omega) rfl rfl)
    · rw [if_neg hA]
      by_cases hB : j = m + k + 1 ∧ j < 8 ∧ shift ≠ 0
      · -- and the high bits of word `m` here
        obtain ⟨rfl, hj, hs⟩ := hB
        have hlow : ¬(k ≤ m + k + 1 ∧ m + k + 1 - k < m ∧ m + k + 1 < 8) := by omega
        have hlow' : ¬(k ≤ m + k + 1 ∧ m + k + 1 - k < m + 1 ∧ m + k + 1 < 8) := by omega
        have hhigh : ¬(shift ≠ 0 ∧ k + 1 ≤ m + k + 1 ∧ m + k + 1 - k - 1 < m ∧ m + k + 1 < 8) := by
          omega
        have hhigh' : shift ≠ 0 ∧ k + 1 ≤ m + k + 1 ∧ m + k + 1 - k - 1 < m + 1 ∧ m + k + 1 < 8 := by
          omega
        rw [if_pos ⟨rfl, hj, hs⟩, if_neg hlow, if_neg hhigh, if_neg hlow', if_pos hhigh',
          UInt32.zero_or, UInt32.zero_or, UInt32.zero_or, show m + k + 1 - k - 1 = m by omega]
      · rw [if_neg hB]
        exact congrArg₂ _ (if_congr (by omega) rfl rfl) (if_congr (by omega) rfl rfl)

theorem length_shiftRightRound {pn : List UInt32} (i : Nat) (h : pn.length = 8) :
    (shiftRightRound aPn k shift pn i).length = 8 := by
  unfold shiftRightRound
  split_ifs <;> simp [h]

theorem length_foldl_shiftRightRound (m : Nat) :
    ((List.range m).foldl (shiftRightRound aPn k shift) (List.replicate 8 0)).length = 8 := by
  induction m with
  | zero => simp
  | succ m ih =>
    rw [List.range_succ, List.foldl_append, List.foldl_cons, List.foldl_nil]
    exact length_shiftRightRound aPn k shift m ih

/-- What one round of `operator>>=` does to word `j`. -/
theorem getD_shiftRightRound {pn : List UInt32} (i j : Nat) (h : pn.length = 8) :
    (shiftRightRound aPn k shift pn i).getD j 0 =
      if j + k = i ∧ j < 8 then pn.getD j 0 ||| aPn.getD i 0 >>> shift.toUInt32
      else if j + k + 1 = i ∧ j < 8 ∧ shift ≠ 0 then
        pn.getD j 0 ||| aPn.getD i 0 <<< (32 - shift).toUInt32
      else pn.getD j 0 := by
  unfold shiftRightRound
  dsimp only
  simp only [apply_ite (fun l : List UInt32 => l.getD j 0),
    apply_ite (fun l : List UInt32 => l.length), Words.getD_modify, List.length_modify, h]
  split_ifs <;> first | rfl | omega

/-- After the rounds below `m`, word `j` holds the high bits of word `j + k` and the low bits of
word `j + k + 1` of the copy, as far as those rounds have moved them. -/
theorem getD_foldl_shiftRightRound (m j : Nat) :
    ((List.range m).foldl (shiftRightRound aPn k shift) (List.replicate 8 0)).getD j 0 =
      (if j + k < m ∧ j < 8 then aPn.getD (j + k) 0 >>> shift.toUInt32 else 0) |||
      (if shift ≠ 0 ∧ j + k + 1 < m ∧ j < 8 then
        aPn.getD (j + k + 1) 0 <<< (32 - shift).toUInt32 else 0) := by
  induction m with
  | zero =>
    rw [List.range_zero, List.foldl_nil, if_neg (by omega), if_neg (by omega), UInt32.zero_or]
    by_cases hj : j < 8
    · exact List.getD_replicate _ hj
    · exact List.getD_eq_default _ _ (by simp; omega)
  | succ m ih =>
    rw [List.range_succ, List.foldl_append, List.foldl_cons, List.foldl_nil,
      getD_shiftRightRound aPn k shift m j (length_foldl_shiftRightRound aPn k shift m), ih]
    by_cases hA : j + k = m ∧ j < 8
    · -- round `m` writes the high bits of word `m` here
      obtain ⟨rfl, hj⟩ := hA
      have hhigh : ¬(j + k < j + k ∧ j < 8) := by omega
      have hhigh' : j + k < j + k + 1 ∧ j < 8 := by omega
      have hlow : ¬(shift ≠ 0 ∧ j + k + 1 < j + k ∧ j < 8) := by omega
      have hlow' : ¬(shift ≠ 0 ∧ j + k + 1 < j + k + 1 ∧ j < 8) := by omega
      rw [if_pos ⟨rfl, hj⟩, if_neg hhigh, if_neg hlow, if_pos hhigh', if_neg hlow', UInt32.zero_or,
        UInt32.zero_or, UInt32.or_zero]
    · rw [if_neg hA]
      by_cases hB : j + k + 1 = m ∧ j < 8 ∧ shift ≠ 0
      · -- and the low bits of word `m` here
        obtain ⟨rfl, hj, hs⟩ := hB
        have hhigh : j + k < j + k + 1 ∧ j < 8 := by omega
        have hhigh' : j + k < j + k + 1 + 1 ∧ j < 8 := by omega
        have hlow : ¬(shift ≠ 0 ∧ j + k + 1 < j + k + 1 ∧ j < 8) := by omega
        have hlow' : shift ≠ 0 ∧ j + k + 1 < j + k + 1 + 1 ∧ j < 8 := by omega
        rw [if_pos ⟨rfl, hj, hs⟩, if_pos hhigh, if_neg hlow, if_pos hhigh', if_pos hlow',
          UInt32.or_zero]
      · rw [if_neg hB]
        exact congrArg₂ _ (if_congr (by omega) rfl rfl) (if_congr (by omega) rfl rfl)

end Shift

/-- `operator<<=` is the product by `2^shift` modulo `2^256`, bit by bit: bit `p` of the result is
bit `p - shift` of the number, from the low part of one word or the high part of the word below. -/
theorem shiftLeftAssign_toNat (a : arith_uint256) (shift : Nat) :
    (shiftLeftAssign a shift).toNat = a.toNat * 2 ^ shift % 2 ^ 256 := by
  set pn := (List.range 8).foldl (shiftLeftRound (Words.toWords 8 a.toNat) (shift / 32) (shift % 32))
    (List.replicate 8 0) with hpn
  have hlt : Words.ofWords pn < 2 ^ 256 := by
    have := Words.ofWords_lt pn
    rwa [hpn, length_foldl_shiftLeftRound] at this
  rw [shiftLeftAssign, BitVec.toNat_ofNat, ← hpn, Nat.mod_eq_of_lt hlt]
  apply Nat.eq_of_testBit_eq
  intro p
  rw [Nat.testBit_mod_two_pow, Nat.testBit_mul_two_pow, Words.testBit_ofWords, hpn,
    getD_foldl_shiftLeftRound, UInt32.toNat_or, Nat.testBit_or, testBit_ite_zero, testBit_ite_zero,
    testBit_shiftLeft_word, testBit_shiftRight_word, Words.testBit_getD_toWords,
    Words.testBit_getD_toWords]
  -- each part reads bit `p - shift` of the number, under its own guard
  simp only [← Bool.and_assoc, ← Bool.decide_and]
  rw [and_congr_of_guard (x := a.toNat.testBit (32 * (p / 32 - shift / 32) +
      (p % 32 - shift % 32 % 32))) (y := a.toNat.testBit (p - shift)),
    and_congr_of_guard (x := a.toNat.testBit (32 * (p / 32 - shift / 32 - 1) +
      ((32 - shift % 32) % 32 + p % 32))) (y := a.toNat.testBit (p - shift))]
  · refine or_guarded ?_
    omega
  · intro hg
    have := of_decide_eq_true hg
    congr 1
    omega
  · intro hg
    have := of_decide_eq_true hg
    congr 1
    omega

/-- `operator>>=` is the quotient by `2^shift`, bit by bit: bit `p` of the result is bit `p + shift`
of the number, from the high part of one word or the low part of the word above. -/
theorem shiftRightAssign_toNat (a : arith_uint256) (shift : Nat) :
    (shiftRightAssign a shift).toNat = a.toNat / 2 ^ shift := by
  set pn := (List.range 8).foldl (shiftRightRound (Words.toWords 8 a.toNat) (shift / 32)
    (shift % 32)) (List.replicate 8 0) with hpn
  have hlt : Words.ofWords pn < 2 ^ 256 := by
    have := Words.ofWords_lt pn
    rwa [hpn, length_foldl_shiftRightRound] at this
  rw [shiftRightAssign, BitVec.toNat_ofNat, ← hpn, Nat.mod_eq_of_lt hlt]
  apply Nat.eq_of_testBit_eq
  intro p
  -- a bit of the number above its width is clear
  have htop : a.toNat.testBit (shift + p) = (decide (shift + p < 256) && a.toNat.testBit (shift + p)) := by
    by_cases h : shift + p < 256
    · simp [h]
    · simp [h, Nat.testBit_lt_two_pow (lt_of_lt_of_le a.isLt (Nat.pow_le_pow_right (by decide)
        (by omega : 256 ≤ shift + p)))]
  rw [Nat.testBit_div_two_pow, Nat.add_comm p, htop, Words.testBit_ofWords, hpn,
    getD_foldl_shiftRightRound, UInt32.toNat_or, Nat.testBit_or, testBit_ite_zero, testBit_ite_zero,
    testBit_shiftLeft_word, testBit_shiftRight_word, Words.testBit_getD_toWords,
    Words.testBit_getD_toWords]
  simp only [← Bool.and_assoc, ← Bool.decide_and]
  rw [and_congr_of_guard (x := a.toNat.testBit (32 * (p / 32 + shift / 32) +
      (shift % 32 % 32 + p % 32))) (y := a.toNat.testBit (shift + p)),
    and_congr_of_guard (x := a.toNat.testBit (32 * (p / 32 + shift / 32 + 1) +
      (p % 32 - (32 - shift % 32) % 32))) (y := a.toNat.testBit (shift + p))]
  · refine or_guarded ?_
    omega
  · intro hg
    have := of_decide_eq_true hg
    congr 1
    omega
  · intro hg
    have := of_decide_eq_true hg
    congr 1
    omega

/-! ## Product -/

/-- A row of `operator*=(const base_uint&)`: word `j` of the number times the words of `b`, added
into the words of the result from `j` on, `for (int i = 0; i + j < WIDTH; i++)`. -/
def mulRow (pn bPn : List UInt32) (acc : List UInt32) (j : Nat) : List UInt32 :=
  acc.take j ++ Words.mulAddWordLoop (pn.getD j 0) 0 (acc.drop j) bPn

/-- `base_uint::operator*=(const base_uint&)`. -/
def mulAssign (a b : arith_uint256) : arith_uint256 :=
  BitVec.ofNat 256 (Words.ofWords ((List.range 8).foldl
    (mulRow (Words.toWords 8 a.toNat) (Words.toWords 8 b.toNat)) (List.replicate 8 0)))

section Product
variable (pn bPn : List UInt32)

theorem length_mulRow {acc : List UInt32} (j : Nat) (h : acc.length = 8) :
    (mulRow pn bPn acc j).length = 8 := by
  simp only [mulRow, List.length_append, List.length_take, Words.length_mulAddWordLoop,
    List.length_drop, h]
  omega

theorem length_foldl_mulRow (m : Nat) :
    ((List.range m).foldl (mulRow pn bPn) (List.replicate 8 0)).length = 8 := by
  induction m with
  | zero => simp
  | succ m ih =>
    rw [List.range_succ, List.foldl_append, List.foldl_cons, List.foldl_nil]
    exact length_mulRow pn bPn m ih

/-- A row adds word `j` of the number times `b`, shifted by `j` words, modulo `2^256`: below word
`j` nothing changes, and from word `j` on the loop adds the low words of `b` that fit. -/
theorem ofWords_mulRow {acc : List UInt32} {j : Nat} (h : acc.length = 8) (hb : bPn.length = 8)
    (hj : j < 8) :
    Words.ofWords (mulRow pn bPn acc j) =
      (Words.ofWords acc + (pn.getD j 0).toNat * 2 ^ (32 * j) * Words.ofWords bPn) % 2 ^ 256 := by
  have hT : Words.ofWords (acc.take j) < 2 ^ (32 * j) := by
    have := Words.ofWords_lt (acc.take j)
    rwa [List.length_take_of_le (by omega)] at this
  have hcm : 2 ^ 256 = 2 ^ (32 * j) * 2 ^ (32 * (8 - j)) := by
    rw [← Nat.pow_add]
    congr 1
    omega
  rw [mulRow, Words.ofWords_append, List.length_take_of_le (by omega),
    Words.ofWords_mulAddWordLoop_mod, List.length_drop, h, ← Words.add_mul_mod_mul _ hT,
    Words.ofWords_take_drop acc (j := j) (by omega),
    Words.ofWords_take_drop bPn (j := 8 - j) (by omega), hcm]
  -- what `b` has above the words that fit is a multiple of `2^256`
  rw [show Words.ofWords (acc.take j) + 2 ^ (32 * j) * Words.ofWords (acc.drop j) +
      (pn.getD j 0).toNat * 2 ^ (32 * j) * (Words.ofWords (bPn.take (8 - j)) +
        2 ^ (32 * (8 - j)) * Words.ofWords (bPn.drop (8 - j))) =
      Words.ofWords (acc.take j) + 2 ^ (32 * j) * (Words.ofWords (acc.drop j) +
        (pn.getD j 0).toNat * Words.ofWords (bPn.take (8 - j))) +
      (pn.getD j 0).toNat * Words.ofWords (bPn.drop (8 - j)) * (2 ^ (32 * j) * 2 ^ (32 * (8 - j)))
      by ring, Nat.add_mul_mod_self_right]

/-- After the rows below `m`, the result is the low `m` words of the number times `b`. -/
theorem ofWords_foldl_mulRow (hpn : pn.length = 8) (hb : bPn.length = 8) {m : Nat} (hm : m ≤ 8) :
    Words.ofWords ((List.range m).foldl (mulRow pn bPn) (List.replicate 8 0)) =
      Words.ofWords (pn.take m) * Words.ofWords bPn % 2 ^ 256 := by
  induction m with
  | zero =>
    rw [List.range_zero, List.foldl_nil, Words.ofWords_replicate_zero, List.take_zero,
      Words.ofWords_nil, Nat.zero_mul, Nat.zero_mod]
  | succ m ih =>
    rw [List.range_succ, List.foldl_append, List.foldl_cons, List.foldl_nil,
      ofWords_mulRow pn bPn (length_foldl_mulRow pn bPn m) hb (by omega), ih (by omega),
      Nat.mod_add_mod, Words.ofWords_take_add_one pn (by omega)]
    congr 1
    ring

end Product

/-- `operator*=` is the product modulo `2^256`. -/
theorem mulAssign_toNat (a b : arith_uint256) :
    (mulAssign a b).toNat = a.toNat * b.toNat % 2 ^ 256 := by
  have hlt : ∀ x : arith_uint256, x.toNat % 2 ^ (32 * 8) = x.toNat := fun x => Nat.mod_eq_of_lt x.isLt
  rw [mulAssign, BitVec.toNat_ofNat, ofWords_foldl_mulRow _ _ (by simp) (by simp) le_rfl,
    List.take_of_length_le (by simp), Words.ofWords_toWords, Words.ofWords_toWords, hlt, hlt,
    Nat.mod_mod]

/-! ## Division -/

/-- A round of the loop of `operator/=`, at bit `shift` of the quotient `pn`: where the shifted
divisor is at most what is left of the number it is subtracted and the bit set; then the divisor
moves down a bit. `CompareTo` orders two numbers as numbers, and `-=` subtracts modulo `2^256`. -/
def divRound (shift : Nat) (s : arith_uint256 × arith_uint256 × List UInt32) :
    arith_uint256 × arith_uint256 × List UInt32 :=
  let (num, div, pn) := s
  let (num, pn) := if num ≥ div
    then (num - div, pn.modify (shift / 32) (· ||| (1 : UInt32) <<< (shift &&& 31).toUInt32))
    else (num, pn)
  (num, shiftRightAssign div 1, pn)

/-- The `while (shift >= 0)` loop of `operator/=`, from bit `shift` down to bit `0`. -/
def divLoop : Nat → arith_uint256 × arith_uint256 × List UInt32 →
    arith_uint256 × arith_uint256 × List UInt32
  | 0, s => divRound 0 s
  | shift + 1, s => divLoop shift (divRound (shift + 1) s)

/-- `base_uint::operator/=`, with the `uint_error` it throws for a zero divisor. -/
def divideAssign (a b : arith_uint256) : Except String arith_uint256 :=
  let num_bits := bits a
  let div_bits := bits b
  if div_bits = 0 then .error "Division by zero"
  -- the result is certainly 0
  else if div_bits > num_bits then .ok 0
  else
    let shift := num_bits - div_bits
    let (_, _, pn) := divLoop shift (a, shiftLeftAssign b shift, List.replicate 8 0)
    .ok (BitVec.ofNat 256 (Words.ofWords pn))

/-- Long division at bit `t`: the divisor shifted by `t`, what is left of the number below twice
that, the quotient so far times the divisor plus what is left is the number, and no bit of the
quotient at or below `t` is set yet. -/
structure DivInv (A B t : Nat) (s : arith_uint256 × arith_uint256 × List UInt32) : Prop where
  div_eq : s.2.1.toNat = B * 2 ^ t
  num_lt : s.1.toNat < B * 2 ^ (t + 1)
  quot_eq : Words.ofWords s.2.2 * B + s.1.toNat = A
  quot_low : Words.ofWords s.2.2 % 2 ^ (t + 1) = 0
  length : s.2.2.length = 8

/-- A number with no bit at or below `t`, and bit `t`. -/
theorem or_two_pow_eq_add {x t : Nat} (h : x % 2 ^ (t + 1) = 0) : x ||| 2 ^ t = x + 2 ^ t := by
  have hx : x = (x / 2 ^ (t + 1)) <<< (t + 1) := by
    rw [Nat.shiftLeft_eq, Nat.div_mul_cancel (Nat.dvd_of_mod_eq_zero h)]
  rw [hx, ← Nat.shiftLeft_add_eq_or_of_lt (Nat.pow_lt_pow_right (by decide) (by omega))]

/-- `pn[shift / 32] |= (1 << (shift & 31))` sets bit `shift`. -/
theorem ofWords_modify_or_bit {pn : List UInt32} (hpn : pn.length = 8) {t : Nat} (ht : t < 256) :
    Words.ofWords (pn.modify (t / 32) (· ||| (1 : UInt32) <<< (t &&& 31).toUInt32)) =
      Words.ofWords pn ||| 2 ^ t := by
  have hand : t &&& 31 = t % 32 := Nat.and_two_pow_sub_one_eq_mod t 5
  apply Nat.eq_of_testBit_eq
  intro p
  rw [Words.testBit_ofWords, Words.getD_modify, hpn, Nat.testBit_or, Nat.testBit_two_pow,
    Words.testBit_ofWords]
  split_ifs with h
  · rw [UInt32.toNat_or, Nat.testBit_or, testBit_shiftLeft_word, hand, Nat.mod_mod,
      show (1 : UInt32).toNat = 2 ^ 0 from rfl, Nat.testBit_two_pow]
    congr 1
    rw [← Bool.decide_and]
    exact decide_eq_decide.2 (by omega)
  · -- every other word keeps its bits, and bit `t` is not among them
    rw [decide_eq_false (by omega), Bool.or_false]

/-- One round keeps the numbers straight: what is left drops below the divisor shifted by `t`, the
quotient gains bit `t` where the subtraction happened, and the divisor moves down a bit. -/
theorem divRound_spec {A B t : Nat} {s : arith_uint256 × arith_uint256 × List UInt32}
    (h : DivInv A B t s) (ht : t < 256) :
    (divRound t s).2.1.toNat = B * 2 ^ t / 2 ∧ (divRound t s).1.toNat < B * 2 ^ t ∧
      Words.ofWords (divRound t s).2.2 * B + (divRound t s).1.toNat = A ∧
      Words.ofWords (divRound t s).2.2 % 2 ^ t = 0 ∧ (divRound t s).2.2.length = 8 := by
  obtain ⟨num, div, pn⟩ := s
  obtain ⟨hdiv, hnum, hquot, hlow, hlen⟩ := h
  simp only at hdiv hnum hquot hlow hlen
  have hshift : (shiftRightAssign div 1).toNat = B * 2 ^ t / 2 := by
    rw [shiftRightAssign_toNat, hdiv, Nat.pow_one]
  have hpow : 2 ^ (t + 1) = 2 ^ t * 2 := by rw [Nat.pow_succ]
  have hlow' : Words.ofWords pn % 2 ^ t = 0 :=
    Nat.mod_eq_zero_of_dvd (Nat.dvd_trans (Nat.pow_dvd_pow 2 (by omega)) (Nat.dvd_of_mod_eq_zero hlow))
  unfold divRound
  dsimp only
  by_cases hge : num ≥ div
  · -- the shifted divisor fits: subtract it and set bit `t`
    have hle : div.toNat ≤ num.toNat := BitVec.le_def.1 hge
    rw [if_pos hge]
    refine ⟨hshift, ?_, ?_, ?_, by rw [List.length_modify, hlen]⟩
    · rw [BitVec.toNat_sub_of_le hge, hdiv]
      rw [hpow, ← Nat.mul_assoc] at hnum
      omega
    · rw [BitVec.toNat_sub_of_le hge, ofWords_modify_or_bit hlen ht, or_two_pow_eq_add hlow, hdiv,
        Nat.add_mul, Nat.mul_comm (2 ^ t) B, ← hquot]
      rw [hdiv] at hle
      omega
    · rw [ofWords_modify_or_bit hlen ht, or_two_pow_eq_add hlow, Nat.add_mod_right, hlow']
  · have hlt : num.toNat < div.toNat := by
      rw [ge_iff_le, BitVec.le_def] at hge
      omega
    rw [if_neg hge]
    exact ⟨hshift, by rw [← hdiv]; exact hlt, hquot, hlow', hlen⟩

/-- The rounds from bit `t` down leave the quotient of the number by the divisor. The induction is
on `t`, with `DivInv` carried from each round to the next. -/
theorem divLoop_spec {A B : Nat} (hB : 0 < B) :
    ∀ (t : Nat) (s : arith_uint256 × arith_uint256 × List UInt32), DivInv A B t s → t < 256 →
      Words.ofWords (divLoop t s).2.2 = A / B
  | 0, s, h, ht => by
    obtain ⟨-, hnum, hquot, -, -⟩ := divRound_spec h ht
    rw [divLoop]
    rw [Nat.pow_zero, Nat.mul_one] at hnum
    rw [← hquot, Nat.add_comm, Nat.add_mul_div_right _ _ hB, Nat.div_eq_of_lt hnum, Nat.zero_add]
  | t + 1, s, h, ht => by
    obtain ⟨hdiv, hnum, hquot, hlow, hlen⟩ := divRound_spec h ht
    rw [divLoop]
    refine divLoop_spec hB t _ ⟨?_, hnum, hquot, hlow, hlen⟩ (by omega)
    rw [hdiv, Nat.pow_succ, ← Nat.mul_assoc, Nat.mul_div_cancel _ (by decide)]

theorem two_pow_bits_le {a : arith_uint256} (h : a.toNat ≠ 0) : 2 ^ (bits a - 1) ≤ a.toNat := by
  have hbits : bits a = a.toNat.log2 + 1 := if_neg h
  rw [hbits, Nat.add_sub_cancel]
  exact Nat.log2_self_le h

/-- `operator/=` divides by a nonzero number: the divisor aligned with the number starts the long
division, whose rounds leave the quotient. -/
theorem divideAssign_eq {a b : arith_uint256} (hb : b ≠ 0) :
    divideAssign a b = .ok (BitVec.ofNat 256 (a.toNat / b.toNat)) := by
  have hB : b.toNat ≠ 0 := fun h => hb (BitVec.eq_of_toNat_eq h)
  have hdb : bits b ≠ 0 := by unfold bits; rw [if_neg hB]; omega
  have hBlo := two_pow_bits_le hB
  have hBhi := toNat_lt_two_pow_bits b
  have hAhi := toNat_lt_two_pow_bits a
  have hnb := bits_le a
  unfold divideAssign
  dsimp only
  rw [if_neg hdb]
  split
  · -- the divisor has more bits than the number
    next hgt =>
    have hlt : a.toNat < b.toNat := lt_of_lt_of_le hAhi
      (le_trans (Nat.pow_le_pow_right (by decide) (by omega)) hBlo)
    rw [Nat.div_eq_of_lt hlt]
    rfl
  · next hle =>
    -- aligned, the divisor has as many bits as the number
    have hdiv : b.toNat * 2 ^ (bits a - bits b) < 2 ^ 256 :=
      calc b.toNat * 2 ^ (bits a - bits b) < 2 ^ bits b * 2 ^ (bits a - bits b) :=
            Nat.mul_lt_mul_of_pos_right hBhi (Nat.two_pow_pos _)
        _ = 2 ^ bits a := by rw [← Nat.pow_add]; congr 1; omega
        _ ≤ 2 ^ 256 := Nat.pow_le_pow_right (by decide) hnb
    have hnum : a.toNat < b.toNat * 2 ^ (bits a - bits b + 1) :=
      calc a.toNat < 2 ^ bits a := hAhi
        _ = 2 ^ (bits b - 1) * 2 ^ (bits a - bits b + 1) := by rw [← Nat.pow_add]; congr 1; omega
        _ ≤ b.toNat * 2 ^ (bits a - bits b + 1) := Nat.mul_le_mul_right _ hBlo
    have hinv : DivInv a.toNat b.toNat (bits a - bits b)
        (a, shiftLeftAssign b (bits a - bits b), List.replicate 8 0) :=
      ⟨by rw [shiftLeftAssign_toNat, Nat.mod_eq_of_lt hdiv], hnum,
        by simp, by simp, by simp⟩
    rw [divLoop_spec (Nat.pos_of_ne_zero hB) _ _ hinv (by omega)]

theorem divideAssign_zero (a : arith_uint256) : divideAssign a 0 = .error "Division by zero" := by
  unfold divideAssign
  rw [if_pos (show bits 0 = 0 from rfl)]

/-! ## The work of a block -/

/-- `GetBlockProof`, from the block's `nBits`: `2^256 / (target + 1)`, computed as
`~target / (target + 1) + 1` since `2^256` does not fit, and `0` for a target that is negative,
overflows or is zero. -/
def getBlockProof (nBits : UInt32) : Except String arith_uint256 :=
  let (bnTarget, fNegative, fOverflow) := setCompactFlags nBits
  if fNegative || fOverflow || bnTarget == 0 then .ok 0
  else do
    let q ← divideAssign (~~~bnTarget) (bnTarget + 1)
    pure (q + 1)

/-- A target that `SetCompact` decodes without overflow is below `2^256 - 1`: its mantissa of at
most 23 bits, or 16 or 8 at the two largest byte counts, fits below the top. -/
theorem setCompactFlags_lt {nCompact : UInt32} (h : (setCompactFlags nCompact).2.2 = false) :
    (setCompactFlags nCompact).1.toNat + 1 < 2 ^ 256 := by
  have hw : nCompact.toNat &&& 0x007fffff < 2 ^ 23 := by
    rw [show (0x007fffff : Nat) = 2 ^ 23 - 1 by rfl, Nat.and_two_pow_sub_one_eq_mod]
    exact Nat.mod_lt _ (Nat.two_pow_pos _)
  rw [setCompactFlags_fst]
  by_cases h3 : nCompact.toNat >>> 24 ≤ 3
  · simp only [setCompact, if_pos h3, BitVec.toNat_ofNat]
    have := Nat.mod_le ((nCompact.toNat &&& 0x007fffff) >>> (8 * (3 - (nCompact.toNat >>> 24))))
      (2 ^ 256)
    have := Nat.shiftRight_le (nCompact.toNat &&& 0x007fffff) (8 * (3 - (nCompact.toNat >>> 24)))
    omega
  · have hov : nCompact.toNat &&& 0x007fffff = 0 ∨ nCompact.toNat >>> 24 ≤ 34 ∧
        (nCompact.toNat &&& 0x007fffff ≤ 0xff ∨ nCompact.toNat >>> 24 ≤ 33) ∧
        (nCompact.toNat &&& 0x007fffff ≤ 0xffff ∨ nCompact.toNat >>> 24 ≤ 32) := by
      simp only [setCompactFlags, if_neg h3, decide_eq_false_iff_not] at h
      omega
    have hprod : (nCompact.toNat &&& 0x007fffff) * 2 ^ (8 * (nCompact.toNat >>> 24 - 3)) <
        2 ^ 256 - 1 := by
      rcases hov with h0 | ⟨h34, h33, h32⟩
      · rw [h0, Nat.zero_mul]
        decide
      · obtain hs | hs | hs : nCompact.toNat >>> 24 = 34 ∨ nCompact.toNat >>> 24 = 33 ∨
            nCompact.toNat >>> 24 ≤ 32 := by omega
        · rw [hs]
          omega
        · rw [hs]
          omega
        · calc (nCompact.toNat &&& 0x007fffff) * 2 ^ (8 * (nCompact.toNat >>> 24 - 3))
              ≤ (nCompact.toNat &&& 0x007fffff) * 2 ^ 232 :=
                Nat.mul_le_mul_left _ (Nat.pow_le_pow_right (by decide) (by omega))
            _ < 2 ^ 256 - 1 := by omega
    rw [setCompact_toNat _ (by omega), Nat.mod_eq_of_lt (by omega)]
    omega

/-- `GetBlockProof` is `2^256 / (target + 1)` for a target that `SetCompact` decodes as neither
negative nor overflowing nor zero, and `0` otherwise: `~target` is `2^256 - 1 - target`, and
`(2^256 - 1 - target) / (target + 1) + 1` is `2^256 / (target + 1)`. -/
theorem getBlockProof_eq (nBits : UInt32) :
    getBlockProof nBits =
      if (setCompactFlags nBits).2.1 = false ∧ (setCompactFlags nBits).2.2 = false ∧
          (setCompactFlags nBits).1 ≠ 0
      then .ok (BitVec.ofNat 256 (2 ^ 256 / ((setCompactFlags nBits).1.toNat + 1)))
      else .ok 0 := by
  have hlt := @setCompactFlags_lt nBits
  unfold getBlockProof
  rcases hflags : setCompactFlags nBits with ⟨bnTarget, fNegative, fOverflow⟩
  rw [hflags] at hlt
  simp only at hlt ⊢
  by_cases hgood : fNegative = false ∧ fOverflow = false ∧ bnTarget ≠ 0
  · obtain ⟨rfl, rfl, hT⟩ := hgood
    have hT1 := hlt rfl
    have hT0 : bnTarget.toNat ≠ 0 := fun h => hT (BitVec.eq_of_toNat_eq h)
    have hone : (1 : arith_uint256).toNat = 1 := rfl
    have hsum : (bnTarget + 1).toNat = bnTarget.toNat + 1 := by
      rw [BitVec.toNat_add, hone, Nat.mod_eq_of_lt hT1]
    have hne : bnTarget + 1 ≠ 0 := fun h => by
      have := congrArg BitVec.toNat h
      rw [hsum] at this
      simp at this
    -- the quotient `2^256 / (target + 1)` is at most `2^255`
    have hq : 2 ^ 256 / (bnTarget.toNat + 1) < 2 ^ 256 :=
      Nat.div_lt_self (by decide) (by omega)
    rw [if_neg (by simpa using hT), if_pos ⟨rfl, rfl, hT⟩, divideAssign_eq hne]
    show Except.ok _ = Except.ok _
    congr 1
    apply BitVec.eq_of_toNat_eq
    rw [BitVec.toNat_add, BitVec.toNat_ofNat, BitVec.toNat_ofNat, hone, hsum,
      BitVec.toNat_not, Nat.mod_eq_of_lt (lt_of_le_of_lt (Nat.div_le_self _ _) (by omega)),
      ← Nat.add_div_right _ (by omega : 0 < bnTarget.toNat + 1),
      show 2 ^ 256 - 1 - bnTarget.toNat + (bnTarget.toNat + 1) = 2 ^ 256 by omega,
      Nat.mod_eq_of_lt hq]
  · rw [if_neg hgood]
    have hbad : (fNegative || fOverflow || bnTarget == 0) = true := by
      cases fNegative <;> cases fOverflow <;> simp_all
    rw [if_pos hbad]

/-- The operators of `base_uint<256>` are exact: `*=` by a number and by a 32-bit word is the
product modulo `2^256`, `<<=` and `>>=` by a shift below `256` multiply and divide by its power of
two, `/=` is the quotient and throws for zero; and `GetBlockProof` is `2^256 / (target + 1)` for a
target decoded as neither negative nor overflowing nor zero, and `0` otherwise. -/
theorem base_uint_arith_exact :
    (∀ a b : arith_uint256, (mulAssign a b).toNat = a.toNat * b.toNat % 2 ^ 256) ∧
    (∀ (a : arith_uint256) (c : UInt32), (mulU32 a c).toNat = a.toNat * c.toNat % 2 ^ 256) ∧
    (∀ (a : arith_uint256) (s : Nat), s < 256 →
      (shiftLeftAssign a s).toNat = a.toNat * 2 ^ s % 2 ^ 256) ∧
    (∀ (a : arith_uint256) (s : Nat), s < 256 → (shiftRightAssign a s).toNat = a.toNat / 2 ^ s) ∧
    (∀ a b : arith_uint256, b ≠ 0 → divideAssign a b = .ok (BitVec.ofNat 256 (a.toNat / b.toNat))) ∧
    (∀ a : arith_uint256, divideAssign a 0 = .error "Division by zero") ∧
    ∀ nBits : UInt32, getBlockProof nBits =
      if (setCompactFlags nBits).2.1 = false ∧ (setCompactFlags nBits).2.2 = false ∧
          (setCompactFlags nBits).1 ≠ 0
      then .ok (BitVec.ofNat 256 (2 ^ 256 / ((setCompactFlags nBits).1.toNat + 1)))
      else .ok 0 := by
  refine ⟨mulAssign_toNat, fun a c => ?_, fun a s _ => shiftLeftAssign_toNat a s,
    fun a s _ => shiftRightAssign_toNat a s, fun _ _ hb => divideAssign_eq hb, divideAssign_zero,
    getBlockProof_eq⟩
  have hc : c.toNat < 2 ^ 256 := lt_trans c.toNat_lt (by decide)
  rw [mulU32_eq, BitVec.toNat_mul, BitVec.toNat_ofNat, Nat.mod_eq_of_lt hc]

theorem base_uint_arith_exact_seven_by_two :
    divideAssign 7 2 = .ok 3 := by
  rw [base_uint_arith_exact.2.2.2.2.1 7 2 (by decide)]
  rfl

end ArithUint256

end Emrals
