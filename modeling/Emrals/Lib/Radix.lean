import Mathlib

/-!
# In-place base conversion

A number held in a buffer of base-`B` digits is converted from base `M` one input digit at a
time: the buffer is multiplied by `M` and the digit added, in place, from the least significant
digit up, with the carry passed along. The pass visits at least the `length` digits that can be
non-zero and goes on while a carry is left (`mulAddLoop`); a carry left past the buffer's end is
a failure (`mulAddStep`).

`Holds B st N` is the invariant of a buffer and its count of significant digits: digits below
`B`, least significant first, spelling `N`, zero from the count on. A pass keeps it for
`M * N + x` when that fits the buffer (`mulAddStep_spec`); a run over input digits below `M` whose
value fits keeps it for the input's value (`foldlM_mulAddStep`). The buffer read from its most
significant digit, without leading zeros, is then the base-`B` digits of the value
(`reverse_drop_dropWhile`). The buffer sizes are rounded-up ratios of logarithms; `pow_le_pow_div`
gives when such a ratio suffices.
-/

namespace Radix

/-- One pass over the buffer, least significant digit first: each digit visited becomes
`(carry + M * d) % B` and passes `(carry + M * d) / B` on, while the carry is not zero or fewer
than `length` digits have been visited, and digits remain. The digits, the carry left and the
count visited. -/
def mulAddLoop (B M length : Nat) : Nat → Nat → List Nat → List Nat × Nat × Nat
  | carry, i, [] => ([], carry, i)
  | carry, i, d :: ds =>
    if carry ≠ 0 ∨ i < length then
      let c := carry + M * d
      let r := mulAddLoop B M length (c / B) (i + 1) ds
      (c % B :: r.1, r.2)
    else (d :: ds, carry, i)

/-- A pass for the input digit `x` from a buffer and its count of significant digits: `none` when
a carry is left past the buffer. -/
def mulAddStep (B M : Nat) (st : List Nat × Nat) (x : Nat) : Option (List Nat × Nat) :=
  let r := mulAddLoop B M st.2 x 0 st.1
  if r.2.1 = 0 then some (r.1, r.2.2) else none

/-- A buffer and its count of significant digits hold `N`. -/
structure Holds (B : Nat) (st : List Nat × Nat) (N : Nat) : Prop where
  lt_base : ∀ d ∈ st.1, d < B
  value : Nat.ofDigits B st.1 = N
  zero : ∀ k, st.2 ≤ k → st.1.getD k 0 = 0
  le_length : st.2 ≤ st.1.length

section
variable {B M length : Nat}

theorem length_mulAddLoop : ∀ (ds : List Nat) (c i : Nat),
    (mulAddLoop B M length c i ds).1.length = ds.length
  | [], _, _ => rfl
  | d :: ds, c, i => by
    rw [mulAddLoop]
    split
    · rw [List.length_cons, List.length_cons, length_mulAddLoop ds]
    · rfl

theorem mulAddLoop_lt (hB : 0 < B) : ∀ (ds : List Nat) (c i : Nat), (∀ d ∈ ds, d < B) →
    ∀ d ∈ (mulAddLoop B M length c i ds).1, d < B
  | [], _, _, _ => fun _ h => absurd h List.not_mem_nil
  | d :: ds, c, i, h => by
    rw [mulAddLoop]
    split
    · intro e he
      rcases List.mem_cons.mp he with rfl | he
      · exact Nat.mod_lt _ hB
      · exact mulAddLoop_lt hB ds _ _ (fun x hx => h x (List.mem_cons_of_mem d hx)) e he
    · exact h

theorem mulAddLoop_le : ∀ (ds : List Nat) (c i : Nat),
    (mulAddLoop B M length c i ds).2.2 ≤ i + ds.length
  | [], _, _ => Nat.le_refl _
  | d :: ds, c, i => by
    rw [mulAddLoop, List.length_cons]
    split
    · have := mulAddLoop_le ds ((c + M * d) / B) (i + 1)
      dsimp only
      omega
    · dsimp only
      omega

theorem le_mulAddLoop : ∀ (ds : List Nat) (c i : Nat), i ≤ (mulAddLoop B M length c i ds).2.2
  | [], _, _ => Nat.le_refl _
  | d :: ds, c, i => by
    rw [mulAddLoop]
    split
    · have := le_mulAddLoop ds ((c + M * d) / B) (i + 1)
      dsimp only
      omega
    · exact Nat.le_refl _

/-- A list whose every digit is zero spells `0`. -/
theorem ofDigits_eq_zero_of_getD {l : List Nat} (h : ∀ k, l.getD k 0 = 0) : Nat.ofDigits B l = 0 := by
  have hl : l = List.replicate l.length 0 := by
    apply List.eq_replicate_iff.mpr ⟨rfl, fun b hb => ?_⟩
    obtain ⟨k, hk, rfl⟩ := List.getElem_of_mem hb
    have := h k
    rwa [List.getD_eq_getElem?_getD, List.getElem?_eq_getElem hk, Option.getD_some] at this
  rw [hl, Nat.ofDigits_replicate_zero]

/-- Past the count the pass ends at, the buffer is zero: the digits it did not visit were. -/
theorem mulAddLoop_zero : ∀ (ds : List Nat) (c i : Nat), (∀ k, length ≤ i + k → ds.getD k 0 = 0) →
    ∀ k, (mulAddLoop B M length c i ds).2.2 ≤ i + k → (mulAddLoop B M length c i ds).1.getD k 0 = 0
  | [], _, _, _ => fun _ _ => rfl
  | d :: ds, c, i, h => by
    rw [mulAddLoop]
    split
    · dsimp only
      intro k hk
      cases k with
      | zero =>
        have := @le_mulAddLoop B M length ds ((c + M * d) / B) (i + 1)
        omega
      | succ k =>
        exact mulAddLoop_zero ds _ (i + 1) (fun j hj => h (j + 1) (by omega)) k (by omega)
    · next hstop =>
      intro k _
      exact h k (by omega)

/-- The pass conserves the value: the digits it leaves and its carry, weighted past the buffer,
spell `M` times the buffer plus the carry it started with. The induction is on the buffer; a
digit visited moves `(carry + M * d) / B` one place up. -/
theorem ofDigits_mulAddLoop : ∀ (ds : List Nat) (c i : Nat),
    (∀ k, length ≤ i + k → ds.getD k 0 = 0) →
    Nat.ofDigits B (mulAddLoop B M length c i ds).1 +
        (mulAddLoop B M length c i ds).2.1 * B ^ ds.length = M * Nat.ofDigits B ds + c
  | [], c, _, _ => by simp [mulAddLoop]
  | d :: ds, c, i, h => by
    rw [mulAddLoop]
    split
    · have ih := ofDigits_mulAddLoop ds ((c + M * d) / B) (i + 1)
        (fun k hk => h (k + 1) (by omega))
      dsimp only
      rw [Nat.ofDigits_cons, Nat.ofDigits_cons, List.length_cons, Nat.pow_succ]
      have hdiv := Nat.div_add_mod (c + M * d) B
      generalize Nat.ofDigits B (mulAddLoop B M length ((c + M * d) / B) (i + 1) ds).1 = R at ih ⊢
      generalize (mulAddLoop B M length ((c + M * d) / B) (i + 1) ds).2.1 = C at ih ⊢
      calc (c + M * d) % B + B * R + C * (B ^ ds.length * B)
          = (c + M * d) % B + B * (R + C * B ^ ds.length) := by ring
        _ = (c + M * d) % B + B * ((c + M * d) / B) + B * (M * Nat.ofDigits B ds) := by
          rw [ih]; ring
        _ = M * (d + B * Nat.ofDigits B ds) + c := by rw [Nat.mod_add_div]; ring
    · -- the pass stops with no carry at or past `length`: the rest of the buffer is zero
      next hstop =>
      have hc : c = 0 := by omega
      have hzero : Nat.ofDigits B (d :: ds) = 0 := ofDigits_eq_zero_of_getD fun k => h k (by omega)
      rw [hc, hzero]
      simp

/-- A pass keeps the invariant for `M * N + x` when that fits the buffer; no carry is left. -/
theorem mulAddStep_spec (hB : 0 < B) {st : List Nat × Nat} {N x : Nat} (h : Holds B st N)
    (hfit : M * N + x < B ^ st.1.length) :
    ∃ st', mulAddStep B M st x = some st' ∧ Holds B st' (M * N + x) ∧
      st'.1.length = st.1.length := by
  have hz : ∀ k, st.2 ≤ 0 + k → st.1.getD k 0 = 0 := fun k hk => h.zero k (by omega)
  have hval := ofDigits_mulAddLoop (B := B) (M := M) st.1 x 0 hz
  rw [h.value] at hval
  -- the carry left is zero: the value fits below `B ^ st.1.length`
  have hcarry : (mulAddLoop B M st.2 x 0 st.1).2.1 = 0 := by
    by_contra hne
    have hpow : B ^ st.1.length ≤ (mulAddLoop B M st.2 x 0 st.1).2.1 * B ^ st.1.length :=
      Nat.le_mul_of_pos_left _ (Nat.pos_of_ne_zero hne)
    omega
  refine ⟨_, if_pos hcarry, ⟨?_, ?_, ?_, ?_⟩, length_mulAddLoop _ _ _⟩
  · exact mulAddLoop_lt hB st.1 x 0 h.lt_base
  · rw [hcarry, Nat.zero_mul, Nat.add_zero] at hval
    exact hval
  · intro k hk
    exact mulAddLoop_zero st.1 x 0 hz k (by omega)
  · have := @mulAddLoop_le B M st.2 st.1 x 0
    rw [length_mulAddLoop]
    omega

theorem holds_replicate (hB : 0 < B) (size : Nat) : Holds B (List.replicate size 0, 0) 0 where
  lt_base := fun d hd => by rw [List.eq_of_mem_replicate hd]; exact hB
  value := Nat.ofDigits_replicate_zero
  zero := fun k _ => by
    rw [List.getD_eq_getElem?_getD, List.getElem?_replicate]
    split <;> rfl
  le_length := Nat.zero_le _

end

/-- A run over input digits below `M`, from a buffer holding the digits `acc` read so far: when
the whole input's value fits the buffer, every pass succeeds and the buffer ends holding that
value. The induction is on the digits left; each pass appends one digit to `acc`. -/
theorem foldlM_mulAddStep {B M size : Nat} (hB : 0 < B) (hM : 1 < M) :
    ∀ (xs acc : List Nat) (st : List Nat × Nat),
      Holds B st (Nat.ofDigits M acc.reverse) → st.1.length = size →
      (∀ x ∈ acc ++ xs, x < M) → M ^ (acc ++ xs).length ≤ B ^ size →
      ∃ st', xs.foldlM (mulAddStep B M) st = some st' ∧
        Holds B st' (Nat.ofDigits M (acc ++ xs).reverse) ∧ st'.1.length = size
  | [], acc, st, h, hlen, _, _ => ⟨st, rfl, by rwa [List.append_nil], hlen⟩
  | x :: xs, acc, st, h, hlen, hlt, hfit => by
    -- the value read with `x`, below `M` to the number of digits read
    have hval : M * Nat.ofDigits M acc.reverse + x = Nat.ofDigits M (acc ++ [x]).reverse := by
      rw [List.reverse_append, List.reverse_singleton, List.singleton_append, Nat.ofDigits_cons]
      ring
    have hbound : Nat.ofDigits M (acc ++ [x]).reverse < M ^ (acc ++ [x]).length := by
      rw [← List.length_reverse]
      exact Nat.ofDigits_lt_base_pow_length hM fun y hy =>
        hlt y (by simp only [List.mem_reverse, List.mem_append, List.mem_singleton] at hy; simp; tauto)
    have hmono : M ^ (acc ++ [x]).length ≤ M ^ (acc ++ x :: xs).length :=
      Nat.pow_le_pow_right (by omega) (by simp)
    obtain ⟨st', hstep, h', hlen'⟩ := mulAddStep_spec hB h (by rw [hval, hlen]; omega)
    rw [List.foldlM_cons, hstep, Option.bind_eq_bind, Option.bind_some]
    rw [hval] at h'
    have := foldlM_mulAddStep hB hM xs (acc ++ [x]) st' h' (by rw [hlen', hlen])
      (by simpa using hlt) (by simpa using hfit)
    simpa using this

/-! ## Reading the buffer -/

theorem dropWhile_append_of_forall {p : Nat → Bool} :
    ∀ {l₁ : List Nat} (l₂ : List Nat), (∀ x ∈ l₁, p x) → (l₁ ++ l₂).dropWhile p = l₂.dropWhile p
  | [], _, _ => rfl
  | x :: l₁, l₂, h => by
    rw [List.cons_append, List.dropWhile_cons_of_pos (h x List.mem_cons_self)]
    exact dropWhile_append_of_forall l₂ fun y hy => h y (List.mem_cons_of_mem x hy)

/-- Read from its most significant digit without leading zeros, a list of digits below `B` is
the base-`B` digits of its value. -/
theorem reverse_dropWhile_eq_digits {B : Nat} (hB : 1 < B) {ds : List Nat}
    (hds : ∀ d ∈ ds, d < B) :
    ds.reverse.dropWhile (· = 0) = (Nat.digits B (Nat.ofDigits B ds)).reverse := by
  -- the list is its digits up to the last non-zero one, then zeros
  have hzeros : ds.rtakeWhile (· = 0) = List.replicate (ds.rtakeWhile (· = 0)).length 0 :=
    List.eq_replicate_iff.mpr ⟨rfl, fun b hb => by simpa using List.mem_rtakeWhile_imp hb⟩
  have hval : Nat.ofDigits B ds = Nat.ofDigits B (ds.rdropWhile (· = 0)) := by
    conv_lhs => rw [← List.rdropWhile_append_rtakeWhile (p := (· = 0)) (l := ds), hzeros]
    rw [Nat.ofDigits_append_replicate_zero]
  have hlt : ∀ d ∈ ds.rdropWhile (· = 0), d < B :=
    fun d hd => hds d ((List.rdropWhile_prefix _ ds).subset hd)
  rw [hval, Nat.digits_ofDigits B hB _ hlt (fun h => by simpa using List.rdropWhile_last_not _ _ h),
    List.rdropWhile, List.reverse_reverse]

/-- A list of digits below `B`, most significant first and not starting with zero, is the
base-`B` digits of its value. -/
theorem digits_ofDigits_reverse {B : Nat} (hB : 1 < B) {ds : List Nat} (hds : ∀ d ∈ ds, d < B)
    (hhead : ds.head? ≠ some 0) : (Nat.digits B (Nat.ofDigits B ds.reverse)).reverse = ds := by
  rw [← reverse_dropWhile_eq_digits hB (fun d hd => hds d (List.mem_reverse.mp hd)),
    List.reverse_reverse]
  cases ds with
  | nil => rfl
  | cons d ds =>
    have hd : d ≠ 0 := fun h => hhead (by rw [h]; rfl)
    rw [List.dropWhile_cons_of_neg (by simpa using hd)]

/-- The base-`B` digits, most significant first, do not start with zero. -/
theorem head?_reverse_digits_ne_zero (B N : Nat) : (Nat.digits B N).reverse.head? ≠ some 0 := by
  rw [List.head?_reverse]
  rcases Nat.eq_zero_or_pos N with rfl | hN
  · simp
  · rw [List.getLast?_eq_some_getLast (Nat.digits_ne_nil_iff_ne_zero.mpr hN.ne')]
    exact fun h => Nat.getLast_digit_ne_zero B hN.ne' (Option.some_injective _ h)

/-- The buffer read from the count of significant digits down, without leading zeros, is the
base-`B` digits of the value it holds. -/
theorem reverse_drop_dropWhile {B N : Nat} (hB : 1 < B) {st : List Nat × Nat}
    (h : Holds B st N) :
    (st.1.reverse.drop (st.1.length - st.2)).dropWhile (· = 0) = (Nat.digits B N).reverse := by
  -- the digits skipped, the most significant ones past the count, are zeros
  have hskip : ∀ x ∈ st.1.reverse.take (st.1.length - st.2), x = 0 := by
    intro x hx
    obtain ⟨j, hj, rfl⟩ := List.getElem_of_mem hx
    rw [List.length_take, List.length_reverse] at hj
    have hz := h.zero (st.1.length - 1 - j) (by omega)
    rw [List.getD_eq_getElem?_getD, List.getElem?_eq_getElem (by omega), Option.getD_some] at hz
    rw [List.getElem_take, List.getElem_reverse]
    exact hz
  rw [← h.value, ← reverse_dropWhile_eq_digits hB h.lt_base,
    ← dropWhile_append_of_forall _ (fun x hx => by simpa using hskip x hx), List.take_append_drop]

/-- If `a ^ q ≤ b ^ p`, a number of `m` digits of base `a` has at most `p * m / q + 1` of base
`b`: the rounded-up ratio of the lengths suffices. -/
theorem pow_le_pow_div {a b p q : Nat} (hq : 0 < q) (hb : 0 < b) (h : a ^ q ≤ b ^ p) (m : Nat) :
    a ^ m ≤ b ^ (p * m / q + 1) := by
  have hdiv : p * m ≤ (p * m / q + 1) * q := by
    have := Nat.div_add_mod (p * m) q
    have := Nat.mod_lt (p * m) hq
    rw [Nat.succ_mul, Nat.mul_comm (p * m / q) q]
    omega
  apply (Nat.pow_le_pow_iff_left (Nat.pos_iff_ne_zero.mp hq)).mp
  calc (a ^ m) ^ q = (a ^ q) ^ m := by rw [← Nat.pow_mul, ← Nat.pow_mul, Nat.mul_comm]
    _ ≤ (b ^ p) ^ m := Nat.pow_le_pow_left h m
    _ = b ^ (p * m) := by rw [← Nat.pow_mul]
    _ ≤ b ^ ((p * m / q + 1) * q) := Nat.pow_le_pow_right hb hdiv
    _ = (b ^ (p * m / q + 1)) ^ q := by rw [Nat.pow_mul]

end Radix
