import Mathlib

/-!
# Numbers as words, and multiplying by one word

A number of fixed width is held as its base-`2^32` words, least significant first
(`toWords k n`, read back by `ofWords`): `ofWords (toWords k n) = n % 2^(32*k)`.

Multiplying it by a 32-bit word is the schoolbook loop over the words with a 64-bit accumulator
(`mulWordLoop`): each step adds the carry to the word's product, keeps the low half and carries
the high half. The accumulator never overflows (`mulWordStep_toNat`), and the loop conserves the
value: the words it writes and its final carry spell the product (`ofWords_mulWordLoop`). Dropping
the final carry therefore computes the product modulo `2^(32*k)` (`ofWords_mulWordLoop_toWords`).
The same holds of the loop that also adds the words it overwrites (`mulAddWordLoop`), the inner loop
of a product of two numbers.

Bit `p` of a number is bit `p % 32` of its word `p / 32` (`testBit_ofWords`, `testBit_getD_toWords`):
what a loop does to single words is read off bit by bit.
-/

namespace Words

/-- The `k` low base-`2^32` words of `n`, least significant first. -/
def toWords : Nat → Nat → List UInt32
  | 0, _ => []
  | k + 1, n => (n % 2 ^ 32).toUInt32 :: toWords k (n / 2 ^ 32)

/-- The number that the words spell. -/
def ofWords : List UInt32 → Nat
  | [] => 0
  | w :: ws => w.toNat + 2 ^ 32 * ofWords ws

@[simp] theorem ofWords_nil : ofWords [] = 0 := rfl

@[simp] theorem ofWords_cons (w : UInt32) (ws : List UInt32) :
    ofWords (w :: ws) = w.toNat + 2 ^ 32 * ofWords ws := rfl

@[simp] theorem length_toWords (k n : Nat) : (toWords k n).length = k := by
  induction k generalizing n with
  | zero => rfl
  | succ k ih => simp [toWords, ih]

theorem ofWords_toWords (k n : Nat) : ofWords (toWords k n) = n % 2 ^ (32 * k) := by
  induction k generalizing n with
  | zero => simp [toWords, Nat.mod_one]
  | succ k ih =>
    have hword : ((n % 2 ^ 32).toUInt32).toNat = n % 2 ^ 32 := by
      simp [Nat.mod_mod_of_dvd]
    rw [toWords, ofWords_cons, ih, hword, show 32 * (k + 1) = 32 + 32 * k by omega, Nat.pow_add,
      Nat.mod_mul]

theorem ofWords_lt (ws : List UInt32) : ofWords ws < 2 ^ (32 * ws.length) := by
  induction ws with
  | nil => simp
  | cons w ws ih =>
    have hw := w.toNat_lt
    rw [ofWords_cons, List.length_cons, show 32 * (ws.length + 1) = 32 + 32 * ws.length by omega,
      Nat.pow_add]
    have : 2 ^ 32 * ofWords ws + 2 ^ 32 ≤ 2 ^ 32 * 2 ^ (32 * ws.length) := by
      rw [← Nat.mul_succ]
      exact Nat.mul_le_mul_left _ ih
    omega

/-! ## Multiplying by one word -/

/-- One step of the loop: `carry + b32 * word` in a 64-bit accumulator. -/
def mulWordStep (b32 word : UInt32) (carry : UInt64) : UInt64 :=
  carry + b32.toUInt64 * word.toUInt64

/-- The loop of a multiplication by the word `b32`: the low half of each step is written, its high
half carried to the next word. -/
def mulWordLoop (b32 : UInt32) : UInt64 → List UInt32 → List UInt32
  | _, [] => []
  | carry, w :: ws =>
    let n := mulWordStep b32 w carry
    (n &&& 0xffffffff).toUInt32 :: mulWordLoop b32 (n >>> 32) ws

/-- The final carry of the loop, which the fixed-width result drops. -/
def mulWordCarry (b32 : UInt32) : UInt64 → List UInt32 → UInt64
  | carry, [] => carry
  | carry, w :: ws => mulWordCarry b32 (mulWordStep b32 w carry >>> 32) ws

/-- With a carry below `2^32` the accumulator holds the exact sum: the largest product of two
words plus the largest carry is `2^64 - 2^32`. -/
theorem mulWordStep_toNat (b32 word : UInt32) {carry : UInt64} (hc : carry.toNat < 2 ^ 32) :
    (mulWordStep b32 word carry).toNat = carry.toNat + b32.toNat * word.toNat := by
  have hb := b32.toNat_lt
  have hw := word.toNat_lt
  have hprod : b32.toNat * word.toNat ≤ (2 ^ 32 - 1) * (2 ^ 32 - 1) :=
    Nat.mul_le_mul (by omega) (by omega)
  have hprod' : b32.toNat * word.toNat < 2 ^ 64 := by omega
  simp only [mulWordStep, UInt64.toNat_add, UInt64.toNat_mul, UInt32.toNat_toUInt64,
    Nat.mod_eq_of_lt hprod']
  exact Nat.mod_eq_of_lt (by omega)

theorem mulWordStep_shiftRight_lt (b32 word : UInt32) {carry : UInt64}
    (hc : carry.toNat < 2 ^ 32) : (mulWordStep b32 word carry >>> 32).toNat < 2 ^ 32 := by
  have hb := b32.toNat_lt
  have hw := word.toNat_lt
  have hprod : b32.toNat * word.toNat ≤ (2 ^ 32 - 1) * (2 ^ 32 - 1) :=
    Nat.mul_le_mul (by omega) (by omega)
  rw [UInt64.toNat_shiftRight, show (32 : UInt64).toNat % 64 = 32 from rfl,
    mulWordStep_toNat b32 word hc, Nat.shiftRight_eq_div_pow]
  omega

/-- The loop conserves the value: what it writes and what it carries out spell the product plus
the carry in. The induction is on the words, with the carry below `2^32` as the invariant. -/
theorem ofWords_mulWordLoop (b32 : UInt32) (ws : List UInt32) {carry : UInt64}
    (hc : carry.toNat < 2 ^ 32) :
    ofWords (mulWordLoop b32 carry ws) + 2 ^ (32 * ws.length) * (mulWordCarry b32 carry ws).toNat
      = carry.toNat + b32.toNat * ofWords ws := by
  induction ws generalizing carry with
  | nil => simp [mulWordLoop, mulWordCarry]
  | cons w ws ih =>
    have hn := mulWordStep_toNat b32 w hc
    have hlow : ((mulWordStep b32 w carry &&& 0xffffffff).toUInt32).toNat
        = (mulWordStep b32 w carry).toNat % 2 ^ 32 := by
      rw [UInt64.toNat_toUInt32, UInt64.toNat_and, show (0xffffffff : UInt64).toNat = 2 ^ 32 - 1
        from rfl, Nat.and_two_pow_sub_one_eq_mod, Nat.mod_mod]
    have hhigh : (mulWordStep b32 w carry >>> 32).toNat = (mulWordStep b32 w carry).toNat / 2 ^ 32 := by
      rw [UInt64.toNat_shiftRight, show (32 : UInt64).toNat % 64 = 32 from rfl,
        Nat.shiftRight_eq_div_pow]
    have hrec := ih (mulWordStep_shiftRight_lt b32 w hc)
    rw [hhigh] at hrec
    simp only [mulWordLoop, mulWordCarry, ofWords_cons, List.length_cons, hlow]
    rw [show 32 * (ws.length + 1) = 32 + 32 * ws.length by omega, Nat.pow_add, Nat.mul_assoc,
      Nat.add_assoc, ← Nat.mul_add, hrec, hn]
    have := Nat.mod_add_div (carry.toNat + b32.toNat * w.toNat) (2 ^ 32)
    calc (carry.toNat + b32.toNat * w.toNat) % 2 ^ 32 + 2 ^ 32 * ((carry.toNat + b32.toNat * w.toNat)
          / 2 ^ 32 + b32.toNat * ofWords ws)
        = carry.toNat + b32.toNat * w.toNat + 2 ^ 32 * (b32.toNat * ofWords ws) := by omega
      _ = carry.toNat + b32.toNat * (w.toNat + 2 ^ 32 * ofWords ws) := by
        rw [Nat.mul_add, Nat.mul_left_comm, Nat.add_assoc]

@[simp] theorem length_mulWordLoop (b32 : UInt32) (carry : UInt64) (ws : List UInt32) :
    (mulWordLoop b32 carry ws).length = ws.length := by
  induction ws generalizing carry with
  | nil => rfl
  | cons w ws ih => simp [mulWordLoop, ih]

/-- With the final carry dropped, the loop over the `k` words of `n` computes `b32 * n` modulo
`2^(32*k)`. -/
theorem ofWords_mulWordLoop_toWords (b32 : UInt32) (k n : Nat) :
    ofWords (mulWordLoop b32 0 (toWords k n)) = b32.toNat * n % 2 ^ (32 * k) := by
  have hcons := @ofWords_mulWordLoop b32 (toWords k n) 0 (by simp)
  have hlt := ofWords_lt (mulWordLoop b32 0 (toWords k n))
  simp only [length_toWords, length_mulWordLoop, ofWords_toWords, UInt64.toNat_zero,
    Nat.zero_add] at hcons hlt
  rw [← Nat.mul_mod_mod b32.toNat n, ← hcons, Nat.add_mul_mod_self_left, Nat.mod_eq_of_lt hlt]

/-! ## Words side by side -/

theorem ofWords_append (l r : List UInt32) :
    ofWords (l ++ r) = ofWords l + 2 ^ (32 * l.length) * ofWords r := by
  induction l with
  | nil => simp
  | cons w l ih =>
    rw [List.cons_append, ofWords_cons, ofWords_cons, ih, List.length_cons,
      show 32 * (l.length + 1) = 32 + 32 * l.length by omega, Nat.pow_add, Nat.mul_add,
      Nat.mul_assoc, Nat.add_assoc]

/-- A number is its `j` low words followed by the rest. -/
theorem ofWords_take_drop (ws : List UInt32) {j : Nat} (hj : j ≤ ws.length) :
    ofWords ws = ofWords (ws.take j) + 2 ^ (32 * j) * ofWords (ws.drop j) := by
  conv => lhs; rw [← List.take_append_drop j ws]
  rw [ofWords_append, List.length_take_of_le hj]

/-- The low `m + 1` words are the low `m` words and word `m`. -/
theorem ofWords_take_add_one (ws : List UInt32) {m : Nat} (hm : m < ws.length) :
    ofWords (ws.take (m + 1)) = ofWords (ws.take m) + 2 ^ (32 * m) * (ws.getD m 0).toNat := by
  rw [List.take_add_one, ofWords_append, List.length_take_of_le (Nat.le_of_lt hm),
    List.getD_eq_getElem?_getD, List.getElem?_eq_getElem hm]
  simp

/-- A number below `c` beside a multiple of `c`, modulo `c * m`. -/
theorem add_mul_mod_mul {T c Y : Nat} (m : Nat) (hT : T < c) :
    (T + c * Y) % (c * m) = T + c * (Y % m) := by
  rw [Nat.mod_mul, Nat.add_mul_mod_self_left, Nat.mod_eq_of_lt hT,
    Nat.add_mul_div_left _ _ (by omega), Nat.div_eq_of_lt hT, Nat.zero_add]

theorem ofWords_replicate_zero (k : Nat) : ofWords (List.replicate k 0) = 0 := by
  induction k with
  | zero => rfl
  | succ k ih => rw [List.replicate_succ, ofWords_cons, ih]; rfl

/-! ## The bits of the words -/

/-- Bit `p` of a number is bit `p % 32` of its word `p / 32`. -/
theorem testBit_ofWords (ws : List UInt32) (p : Nat) :
    (ofWords ws).testBit p = (ws.getD (p / 32) 0).toNat.testBit (p % 32) := by
  induction ws generalizing p with
  | nil => simp
  | cons w ws ih =>
    rw [ofWords_cons, Nat.add_comm, Nat.testBit_two_pow_mul_add _ w.toNat_lt]
    split
    · next hp => rw [Nat.div_eq_of_lt hp, Nat.mod_eq_of_lt hp, List.getD_cons_zero]
    · next hp =>
      rw [ih, show p / 32 = (p - 32) / 32 + 1 by omega, List.getD_cons_succ,
        show (p - 32) % 32 = p % 32 by omega]

/-- Bit `q` of word `j` of `n` is bit `32 * j + q` of `n`. -/
theorem testBit_getD_toWords (k n j q : Nat) :
    ((toWords k n).getD j 0).toNat.testBit q = (decide (j < k ∧ q < 32) && n.testBit (32 * j + q)) := by
  induction k generalizing n j with
  | zero => simp [toWords]
  | succ k ih =>
    cases j with
    | zero =>
      rw [toWords, List.getD_cons_zero, UInt32.toNat_ofNat', Nat.mod_mod, Nat.testBit_mod_two_pow]
      simp
    | succ j =>
      rw [toWords, List.getD_cons_succ, ih, Nat.testBit_div_two_pow]
      congr 2
      · simp
      · omega

/-! ## Writing one word -/

section Modify
variable {α : Type*}

theorem getD_modify (l : List α) (i j : Nat) (f : α → α) (d : α) :
    (l.modify i f).getD j d = if i = j ∧ j < l.length then f (l.getD j d) else l.getD j d := by
  simp only [List.getD_eq_getElem?_getD, List.getElem?_modify]
  by_cases hj : j < l.length
  · simp [hj]
  · rw [List.getElem?_eq_none (by omega)]
    simp [hj]

theorem getD_modify_self (l : List α) {i : Nat} (f : α → α) (d : α) (hi : i < l.length) :
    (l.modify i f).getD i d = f (l.getD i d) := by
  simp [List.getD_eq_getElem?_getD, List.getElem?_eq_getElem hi]

theorem getD_modify_ne (l : List α) {i j : Nat} (f : α → α) (d : α) (h : i ≠ j) :
    (l.modify i f).getD j d = l.getD j d := by
  simp only [List.getD_eq_getElem?_getD, List.getElem?_modify, if_neg h]
  cases l[j]? <;> rfl

end Modify

/-! ## Multiplying and adding -/

/-- One step of the loop of a product into an accumulator: `carry + acc + x * word` in a 64-bit
accumulator. -/
def mulAddWordStep (x word acc : UInt32) (carry : UInt64) : UInt64 :=
  carry + acc.toUInt64 + x.toUInt64 * word.toUInt64

/-- The loop that adds `x` times the words `bs` into the words `acc`: the low half of each step is
written over the accumulator's word, the high half carried. It runs over the accumulator's words;
a word of `bs` past its end reads as zero. -/
def mulAddWordLoop (x : UInt32) : UInt64 → List UInt32 → List UInt32 → List UInt32
  | _, [], _ => []
  | carry, w :: acc, bs =>
    let n := mulAddWordStep x (bs.headD 0) w carry
    (n &&& 0xffffffff).toUInt32 :: mulAddWordLoop x (n >>> 32) acc bs.tail

/-- The final carry of `mulAddWordLoop`. -/
def mulAddWordCarry (x : UInt32) : UInt64 → List UInt32 → List UInt32 → UInt64
  | carry, [], _ => carry
  | carry, w :: acc, bs => mulAddWordCarry x (mulAddWordStep x (bs.headD 0) w carry >>> 32) acc bs.tail

/-- With a carry below `2^32` the accumulator holds the exact sum: the largest product of two
words plus two words is `2^64 - 1`. -/
theorem mulAddWordStep_toNat (x word acc : UInt32) {carry : UInt64} (hc : carry.toNat < 2 ^ 32) :
    (mulAddWordStep x word acc carry).toNat = carry.toNat + acc.toNat + x.toNat * word.toNat := by
  have hx := x.toNat_lt
  have hw := word.toNat_lt
  have ha := acc.toNat_lt
  have hprod : x.toNat * word.toNat ≤ (2 ^ 32 - 1) * (2 ^ 32 - 1) :=
    Nat.mul_le_mul (by omega) (by omega)
  simp only [mulAddWordStep, UInt64.toNat_add, UInt64.toNat_mul, UInt32.toNat_toUInt64]
  rw [Nat.mod_eq_of_lt (show carry.toNat + acc.toNat < 2 ^ 64 by omega),
    Nat.mod_eq_of_lt (show x.toNat * word.toNat < 2 ^ 64 by omega)]
  exact Nat.mod_eq_of_lt (by omega)

theorem mulAddWordStep_shiftRight_lt (x word acc : UInt32) {carry : UInt64}
    (hc : carry.toNat < 2 ^ 32) : (mulAddWordStep x word acc carry >>> 32).toNat < 2 ^ 32 := by
  have hx := x.toNat_lt
  have hw := word.toNat_lt
  have ha := acc.toNat_lt
  have hprod : x.toNat * word.toNat ≤ (2 ^ 32 - 1) * (2 ^ 32 - 1) :=
    Nat.mul_le_mul (by omega) (by omega)
  rw [UInt64.toNat_shiftRight, show (32 : UInt64).toNat % 64 = 32 from rfl,
    mulAddWordStep_toNat x word acc hc, Nat.shiftRight_eq_div_pow]
  omega

@[simp] theorem length_mulAddWordLoop (x : UInt32) (carry : UInt64) (acc bs : List UInt32) :
    (mulAddWordLoop x carry acc bs).length = acc.length := by
  induction acc generalizing carry bs with
  | nil => rfl
  | cons w acc ih => simp [mulAddWordLoop, ih]

theorem ofWords_headD_tail (bs : List UInt32) :
    ofWords bs = (bs.headD 0).toNat + 2 ^ 32 * ofWords bs.tail := by
  cases bs <;> simp

/-- The loop conserves the value: what it writes and what it carries out spell the accumulator
plus `x` times as many words of `bs` plus the carry in. The induction is on the accumulator, with
the carry below `2^32` as the invariant. -/
theorem ofWords_mulAddWordLoop (x : UInt32) (acc : List UInt32) (bs : List UInt32)
    {carry : UInt64} (hc : carry.toNat < 2 ^ 32) :
    ofWords (mulAddWordLoop x carry acc bs) +
        2 ^ (32 * acc.length) * (mulAddWordCarry x carry acc bs).toNat
      = carry.toNat + ofWords acc + x.toNat * ofWords (bs.take acc.length) := by
  induction acc generalizing carry bs with
  | nil => simp [mulAddWordLoop, mulAddWordCarry]
  | cons w acc ih =>
    have hn := mulAddWordStep_toNat x (bs.headD 0) w hc
    have hlow : ((mulAddWordStep x (bs.headD 0) w carry &&& 0xffffffff).toUInt32).toNat
        = (mulAddWordStep x (bs.headD 0) w carry).toNat % 2 ^ 32 := by
      rw [UInt64.toNat_toUInt32, UInt64.toNat_and, show (0xffffffff : UInt64).toNat = 2 ^ 32 - 1
        from rfl, Nat.and_two_pow_sub_one_eq_mod, Nat.mod_mod]
    have hhigh : (mulAddWordStep x (bs.headD 0) w carry >>> 32).toNat
        = (mulAddWordStep x (bs.headD 0) w carry).toNat / 2 ^ 32 := by
      rw [UInt64.toNat_shiftRight, show (32 : UInt64).toNat % 64 = 32 from rfl,
        Nat.shiftRight_eq_div_pow]
    have hrec := ih bs.tail (mulAddWordStep_shiftRight_lt x (bs.headD 0) w hc)
    rw [hhigh] at hrec
    have htake : ofWords (bs.take (acc.length + 1))
        = (bs.headD 0).toNat + 2 ^ 32 * ofWords (bs.tail.take acc.length) := by
      cases bs <;> simp
    simp only [mulAddWordLoop, mulAddWordCarry, ofWords_cons, List.length_cons, hlow, htake]
    rw [show 32 * (acc.length + 1) = 32 + 32 * acc.length by omega, Nat.pow_add, Nat.mul_assoc,
      Nat.add_assoc, ← Nat.mul_add, hrec, hn]
    have := Nat.mod_add_div (carry.toNat + w.toNat + x.toNat * (bs.headD 0).toNat) (2 ^ 32)
    calc (carry.toNat + w.toNat + x.toNat * (bs.headD 0).toNat) % 2 ^ 32 +
          2 ^ 32 * ((carry.toNat + w.toNat + x.toNat * (bs.headD 0).toNat) / 2 ^ 32 +
            ofWords acc + x.toNat * ofWords (bs.tail.take acc.length))
        = carry.toNat + w.toNat + x.toNat * (bs.headD 0).toNat +
            2 ^ 32 * (ofWords acc + x.toNat * ofWords (bs.tail.take acc.length)) := by
          rw [Nat.add_assoc ((carry.toNat + w.toNat + x.toNat * (bs.headD 0).toNat) / 2 ^ 32),
            Nat.mul_add (2 ^ 32), ← Nat.add_assoc, this]
      _ = carry.toNat + (w.toNat + 2 ^ 32 * ofWords acc) +
            x.toNat * ((bs.headD 0).toNat + 2 ^ 32 * ofWords (bs.tail.take acc.length)) := by
          rw [Nat.mul_add x.toNat, Nat.mul_add (2 ^ 32), Nat.mul_left_comm (2 ^ 32)]
          omega

/-- With the final carry dropped, the loop adds `x` times the low words of `bs` into `acc` modulo
`2^(32 * acc.length)`. -/
theorem ofWords_mulAddWordLoop_mod (x : UInt32) (acc bs : List UInt32) :
    ofWords (mulAddWordLoop x 0 acc bs)
      = (ofWords acc + x.toNat * ofWords (bs.take acc.length)) % 2 ^ (32 * acc.length) := by
  have hcons := @ofWords_mulAddWordLoop x acc bs 0 (by simp)
  have hlt := ofWords_lt (mulAddWordLoop x 0 acc bs)
  simp only [length_mulAddWordLoop, UInt64.toNat_zero, Nat.zero_add] at hcons hlt
  rw [← hcons, Nat.add_mul_mod_self_left, Nat.mod_eq_of_lt hlt]

end Words
