import Mathlib

/-!
# The median of a window

`median d l` is the element at half the length of `l` once sorted: the upper of the two middle
elements for an even length, and `d` for the empty list. Where it stands against a bound `m` is
read off the count of elements below `m` (`le_median_iff`): `m` is at most the median exactly
when at most half of the list lies below `m`. The count does not see the order of the list
(`median_perm`), and it shows what a sliding window does to its median: taking in an element
at least the old median, while dropping at most the oldest element, never lowers it
(`median_le_median_cons_take`).
-/

namespace Median

variable {α : Type*} [LinearOrder α]

/-- The element at half the length of `l` once sorted, or `d` for the empty list. -/
def median (d : α) (l : List α) : α := (l.insertionSort (· ≤ ·)).getD (l.length / 2) d

section Sorted
variable {s : List α} {m : α}

/-- In a sorted list, no element below `m` stands at or after a position holding `m` or more. -/
theorem countP_lt_le_of_le_getElem (hs : s.Pairwise (· ≤ ·)) :
    ∀ {i : Nat} (hi : i < s.length), m ≤ s[i] → s.countP (· < m) ≤ i := by
  induction s with
  | nil => intro i hi; simp at hi
  | cons a t ih =>
    intro i hi hm
    obtain ⟨ha, ht⟩ := List.pairwise_cons.mp hs
    cases i with
    | zero =>
      have hnone : ∀ x ∈ a :: t, ¬ decide (x < m) = true := by
        intro x hx
        have hax : a ≤ x := by
          rcases List.mem_cons.mp hx with rfl | hx
          · exact le_rfl
          · exact ha x hx
        simpa using le_trans hm hax
      rw [List.countP_eq_zero.mpr hnone]
    | succ j =>
      have hj : t.countP (· < m) ≤ j := ih ht (by simpa using hi) hm
      rw [List.countP_cons]
      split <;> omega

/-- In a sorted list, a position past every element below `m` holds `m` or more. -/
theorem le_getElem_of_countP_lt_le (hs : s.Pairwise (· ≤ ·)) :
    ∀ {i : Nat} (hi : i < s.length), s.countP (· < m) ≤ i → m ≤ s[i] := by
  induction s with
  | nil => intro i hi; simp at hi
  | cons a t ih =>
    intro i hi hc
    obtain ⟨ha, ht⟩ := List.pairwise_cons.mp hs
    rw [List.countP_cons] at hc
    cases i with
    | zero =>
      have hnlt : ¬ a < m := by
        intro hlt
        rw [if_pos (decide_eq_true hlt)] at hc
        omega
      exact not_lt.mp hnlt
    | succ j =>
      have hj : j < t.length := by simpa using hi
      by_cases hlt : a < m
      · rw [if_pos (decide_eq_true hlt)] at hc
        exact ih ht hj (by omega)
      · -- the head is already `m` or more, and the rest is at least the head
        exact le_trans (not_lt.mp hlt) (ha _ (List.getElem_mem hj))

end Sorted

/-- `m` is at most the median of a list exactly when at most half of it lies below `m`. -/
theorem le_median_iff {l : List α} (hl : l ≠ []) (d m : α) :
    m ≤ median d l ↔ l.countP (· < m) ≤ l.length / 2 := by
  have hperm : (l.insertionSort (· ≤ ·)).Perm l := List.perm_insertionSort _ l
  have hsorted : (l.insertionSort (· ≤ ·)).Pairwise (· ≤ ·) := List.pairwise_insertionSort _ l
  have hpos : 0 < l.length := List.length_pos_iff.mpr hl
  have hi : l.length / 2 < (l.insertionSort (· ≤ ·)).length := by
    rw [hperm.length_eq]
    omega
  have hget : median d l = (l.insertionSort (· ≤ ·))[l.length / 2] := by
    rw [median, List.getD_eq_getElem?_getD, List.getElem?_eq_getElem hi, Option.getD_some]
  rw [hget, ← hperm.countP_eq]
  exact ⟨countP_lt_le_of_le_getElem hsorted hi, le_getElem_of_countP_lt_le hsorted hi⟩

/-- The median does not see the order of the list. -/
theorem median_perm {l l' : List α} (h : l.Perm l') (d : α) : median d l = median d l' := by
  have hsort : l.insertionSort (· ≤ ·) = l'.insertionSort (· ≤ ·) :=
    List.Perm.eq_of_pairwise (fun _ _ _ _ => le_antisymm) (List.pairwise_insertionSort _ l)
      (List.pairwise_insertionSort _ l')
      ((List.perm_insertionSort _ l).trans (h.trans (List.perm_insertionSort _ l').symm))
  rw [median, median, hsort, h.length_eq]

/-- A window of at most `n + 1` elements that takes in an element at least its median, and keeps
its first `n` elements, has a median at least the old one. -/
theorem median_le_median_cons_take {l : List α} (hl : l ≠ []) {n : Nat} (hn : l.length ≤ n + 1)
    {t : α} (d : α) (ht : median d l ≤ t) : median d l ≤ median d (t :: l.take n) := by
  have hold : l.countP (· < median d l) ≤ l.length / 2 := (le_median_iff hl d _).mp le_rfl
  have hsub : (l.take n).countP (· < median d l) ≤ l.countP (· < median d l) :=
    (List.take_sublist n l).countP_le
  have hlen : (t :: l.take n).length = min n l.length + 1 := by simp
  rw [le_median_iff (List.cons_ne_nil t _), List.countP_cons, hlen,
    if_neg (by simpa using ht)]
  omega

end Median
