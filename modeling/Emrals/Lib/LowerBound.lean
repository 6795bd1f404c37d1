import Mathlib
import Emrals.Lib.Loop

/-!
# `std::lower_bound`

libstdc++'s `__lower_bound` halves a range `[first, first + len)`: it compares the element at the
middle, moves past it when the comparison holds, and keeps the lower half when it fails. On a list
partitioned by the comparison (it holds on a prefix and nowhere after), the search returns the
end of that prefix, the first position where the comparison fails (`lowerBound_eq_findIdx`).

The comparison may fail to run (`none`: in a caller, a read through a null pointer), and the
search gives `none` only then. The proof is the variant rule of `Loop`: every round keeps the
range bracketing the end of the prefix (`Bracket`) and shortens it.
-/

namespace LowerBound

variable {α : Type*} (comp : α → Option Bool) (l : List α)

/-- A round of `while (__len > 0)`: the range is `[first, first + len)`. -/
def round : Nat × Nat → Option ((Nat × Nat) ⊕ Nat)
  | (first, len) =>
    if 0 < len then
      let half := len / 2
      let middle := first + half
      l[middle]?.bind fun x => (comp x).map fun c =>
        if c then .inl (middle + 1, len - half - 1) else .inl (first, half)
    else some (.inr first)

/-- `std::lower_bound` over `l` with the comparison `comp`, as a position; every round shortens the
range, so `length + 1` rounds are enough. -/
def lowerBound : Option Nat :=
  Loop.loop (round comp l) (l.length + 1) (0, l.length)

/-- `p` holds on a prefix of `l` and nowhere after it. -/
def Partitioned (p : α → Bool) : Prop :=
  ∀ i j (hi : i < l.length) (hj : j < l.length), i ≤ j → p l[j] = true → p l[i] = true

/-- The range lies in the list, `p` holds before it and fails after it. -/
def Bracket (p : α → Bool) : Nat × Nat → Prop
  | (first, len) => first + len ≤ l.length ∧
    (∀ i (hi : i < l.length), i < first → p l[i] = true) ∧
    ∀ i (hi : i < l.length), first + len ≤ i → p l[i] = false

variable {comp l} {p : α → Bool}

theorem round_of_pos {first len : Nat} (hlen : 0 < len) (hm : first + len / 2 < l.length)
    {c : Bool} (hc : comp l[first + len / 2] = some c) :
    round comp l (first, len) =
      some (if c then .inl (first + len / 2 + 1, len - len / 2 - 1) else .inl (first, len / 2)) := by
  rw [round, if_pos hlen]
  dsimp only
  rw [List.getElem?_eq_getElem hm, Option.bind_some, hc, Option.map_some]

/-- A round either halves the range, still bracketing the end of the prefix where `p` holds, or
leaves with that end once the range is empty. -/
theorem round_spec (hcomp : ∀ x ∈ l, comp x = some (p x)) (hpart : Partitioned l p)
    (s : Nat × Nat) (hs : Bracket l p s) :
    (∃ s', round comp l s = some (.inl s') ∧ Bracket l p s' ∧ s'.2 < s.2) ∨
      ∃ r, round comp l s = some (.inr r) ∧ r = l.findIdx fun x => !p x := by
  obtain ⟨first, len⟩ := s
  obtain ⟨hle, hlo, hhi⟩ := hs
  by_cases hlen : 0 < len
  · have hm : first + len / 2 < l.length := by omega
    have hread := round_of_pos hlen hm (hcomp _ (List.getElem_mem hm))
    cases hmid : p l[first + len / 2] with
    | true =>
      -- the middle and everything before it satisfy `p`: the range moves past the middle
      refine .inl ⟨(first + len / 2 + 1, len - len / 2 - 1), ?_, ⟨by omega, fun i hi hlt => ?_,
        fun i hi hge => hhi i hi (by omega)⟩, by dsimp only; omega⟩
      · rw [hread, hmid, if_pos rfl]
      · exact hpart i _ hi hm (by omega) hmid
    | false =>
      -- the middle fails `p`, and so does everything after it: the lower half is kept
      refine .inl ⟨(first, len / 2), ?_, ⟨by omega, hlo, fun i hi hge => ?_⟩, by dsimp only; omega⟩
      · rw [hread, hmid]
        rfl
      · cases hpi : p l[i] with
        | false => rfl
        | true =>
          have := hpart _ i hm hi (by omega) hpi
          rw [hmid] at this
          exact absurd this Bool.false_ne_true
  · refine .inr ⟨first, by rw [round, if_neg hlen], ?_⟩
    by_cases hf : first < l.length
    · refine ((List.findIdx_eq hf).mpr ⟨?_, fun j hj => ?_⟩).symm
      · rw [hhi first hf (by omega)]
        rfl
      · rw [hlo j (by omega) hj]
        rfl
    · rw [show first = l.length by omega]
      refine (List.findIdx_eq_length.mpr fun x hx => ?_).symm
      obtain ⟨i, hi, rfl⟩ := List.getElem_of_mem hx
      rw [hlo i hi (by omega)]
      rfl

/-- On a list partitioned by `p`, with a comparison that runs and computes `p` on every element,
`std::lower_bound` returns the first position where `p` fails. -/
theorem lowerBound_eq_findIdx (hcomp : ∀ x ∈ l, comp x = some (p x)) (hpart : Partitioned l p) :
    lowerBound comp l = some (l.findIdx fun x => !p x) := by
  have hstart : Bracket l p (0, l.length) :=
    ⟨by omega, fun i _ hi => absurd hi (Nat.not_lt_zero i), fun i hi hge => absurd hi (by omega)⟩
  obtain ⟨r, hr, rfl⟩ := Loop.loop_of_variant (fun s => s.2) (round_spec hcomp hpart)
    (l.length + 1) (0, l.length) hstart (Nat.lt_succ_self _)
  exact hr

example : lowerBound (fun x : Nat => some (decide (x < 4))) [1, 3, 4, 4, 8] = some 2 := by decide

end LowerBound
