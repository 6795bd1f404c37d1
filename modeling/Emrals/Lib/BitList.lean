import Mathlib

/-!
# Bit lists

A bit set of size `n` is a list of `n` booleans. A format writes it either bit by bit, eight to a
byte, or as the indexes of its set bits. This module gives both readings.

`trueIndexes` and `ofIndexes` are inverse between the bit lists of length `n` and the strictly
increasing lists of indexes below `n` (`ofIndexes_trueIndexes`, `trueIndexes_ofIndexes`); setting
a bit adds its index (`set_ofIndexes`). The bits of a byte are `Nat.testBit` of its value: what
`b & (1 << j)` tests, what `b | (x << j)` sets, and what the mask `~(0xff >> r)` of the top `r`
bits of a byte finds.
-/

namespace BitList

/-- The indexes of the set bits of a bit list, in increasing order. -/
def trueIndexes (v : List Bool) : List Nat := (List.range v.length).filter (v.getD · false)

/-- The bit list of length `n` whose set bits are at the indexes `is`. -/
def ofIndexes (n : Nat) (is : List Nat) : List Bool := (List.range n).map (· ∈ is)

@[simp] theorem length_ofIndexes (n : Nat) (is : List Nat) : (ofIndexes n is).length = n := by
  simp [ofIndexes]

theorem getD_ofIndexes (n : Nat) (is : List Nat) (i : Nat) :
    (ofIndexes n is).getD i false = (decide (i < n) && decide (i ∈ is)) := by
  by_cases hi : i < n
  · simp [ofIndexes, List.getD_eq_getElem?_getD, hi]
  · simp [ofIndexes, List.getD_eq_getElem?_getD, hi]

theorem ofIndexes_nil (n : Nat) : ofIndexes n [] = List.replicate n false := by
  simp [ofIndexes, List.map_const']

/-- Setting a bit in range adds its index. -/
theorem set_ofIndexes (n i : Nat) (is : List Nat) :
    (ofIndexes n is).set i true = ofIndexes n (is ++ [i]) := by
  apply List.ext_getElem (by simp)
  intro k hk _
  simp only [List.getElem_set, ofIndexes, List.getElem_map, List.getElem_range, List.mem_append,
    List.mem_singleton]
  by_cases hik : i = k <;> simp [hik, eq_comm]

theorem mem_trueIndexes {v : List Bool} {i : Nat} :
    i ∈ trueIndexes v ↔ i < v.length ∧ v.getD i false = true := by
  simp [trueIndexes]

theorem pairwise_trueIndexes (v : List Bool) : (trueIndexes v).Pairwise (· < ·) :=
  List.pairwise_lt_range.sublist List.filter_sublist

theorem ofIndexes_trueIndexes (v : List Bool) : ofIndexes v.length (trueIndexes v) = v := by
  apply List.ext_getElem (by simp)
  intro i _ hv
  simp only [ofIndexes, List.getElem_map, List.getElem_range, mem_trueIndexes]
  simp [List.getD_eq_getElem?_getD, hv]

/-- A strictly increasing list of indexes below `n` is the list of the set bits it sets. -/
theorem trueIndexes_ofIndexes {n : Nat} {is : List Nat} (hs : is.Pairwise (· < ·))
    (hlt : ∀ i ∈ is, i < n) : trueIndexes (ofIndexes n is) = is := by
  apply (pairwise_trueIndexes _).eq_of_mem_iff hs
  intro i
  rw [mem_trueIndexes, getD_ofIndexes, length_ofIndexes]
  constructor
  · intro h
    simp only [Bool.and_eq_true, decide_eq_true_eq] at h
    exact h.2.2
  · intro h
    have := hlt i h
    simp [this, h]

/-! ## The bits of a byte -/

theorem toNat_one_shiftLeft {j : Nat} (hj : j < 8) : ((1 : UInt8) <<< j.toUInt8).toNat = 2 ^ j := by
  have hpow : 2 ^ j < 2 ^ 8 := Nat.pow_lt_pow_right (by decide) hj
  rw [UInt8.toNat_shiftLeft, Nat.toUInt8, UInt8.toNat_ofNat', UInt8.toNat_one, Nat.one_shiftLeft,
    Nat.mod_eq_of_lt (by omega : j < 2 ^ 8), Nat.mod_eq_of_lt hj, Nat.mod_eq_of_lt hpow]

/-- `b & (1 << j)` tests bit `j` of `b`. -/
theorem and_one_shiftLeft_ne_zero (b : UInt8) {j : Nat} (hj : j < 8) :
    (b &&& (1 <<< j.toUInt8) != 0) = b.toNat.testBit j := by
  have h : (b &&& (1 <<< j.toUInt8)).toNat = (b.toNat.testBit j).toNat * 2 ^ j := by
    rw [UInt8.toNat_and, toNat_one_shiftLeft hj, Nat.and_two_pow]
  cases hb : b.toNat.testBit j <;> simp [← UInt8.toNat_inj, h, hb]

/-- `b | (x << j)` sets bit `j` of `b` when `x` does. -/
theorem testBit_or_shiftLeft (b : UInt8) (x : Bool) {j : Nat} (hj : j < 8) (k : Nat) :
    (b ||| (if x then 1 else 0) <<< j.toUInt8).toNat.testBit k =
      (b.toNat.testBit k || (x && decide (j = k))) := by
  cases x
  · simp [UInt8.zero_shiftLeft]
  · rw [if_pos rfl, UInt8.toNat_or, toNat_one_shiftLeft hj, Nat.testBit_or, Nat.testBit_two_pow]
    simp

/-- Two bytes with the same eight bits are equal. -/
theorem uint8_eq_of_testBit_eq {a b : UInt8}
    (h : ∀ j, j < 8 → a.toNat.testBit j = b.toNat.testBit j) : a = b := by
  apply UInt8.toNat_inj.mp
  apply Nat.eq_of_testBit_eq
  intro j
  by_cases hj : j < 8
  · exact h j hj
  · have hpow : 2 ^ 8 ≤ 2 ^ j := Nat.pow_le_pow_right (by decide) (by omega)
    rw [Nat.testBit_lt_two_pow (Nat.lt_of_lt_of_le a.toNat_lt hpow),
      Nat.testBit_lt_two_pow (Nat.lt_of_lt_of_le b.toNat_lt hpow)]

theorem and_not_shiftRight_eq_zero_fin : ∀ (b : Fin 256) (r : Fin 8),
    decide (UInt8.ofNat b.val &&& ~~~((0xff : UInt8) >>> UInt8.ofNat r.val) = 0) =
      decide (b.val < 2 ^ (8 - r.val)) := by
  decide +kernel

/-- The mask `~(0xff >> r)` of the top `r` bits of a byte finds none set exactly when the byte is
below `2 ^ (8 - r)`. -/
theorem and_not_shiftRight_eq_zero (b : UInt8) {r : Nat} (hr : r < 8) :
    b &&& ~~~((0xff : UInt8) >>> r.toUInt8) = 0 ↔ b.toNat < 2 ^ (8 - r) := by
  have := and_not_shiftRight_eq_zero_fin ⟨b.toNat, b.toNat_lt⟩ ⟨r, hr⟩
  simpa only [UInt8.ofNat_toNat, decide_eq_decide] using this

end BitList
