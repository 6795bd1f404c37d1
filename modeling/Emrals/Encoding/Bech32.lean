import Mathlib

/-!
# Bech32

`bech32::Encode` and `bech32::Decode` (`src/bech32.cpp`) write and read a human-readable part, the
separator `1`, and values of five bits followed by a checksum of six, each value as a character of
`CHARSET`. The checksum is the remainder of `PolyMod`, a reduction of the values as coefficients
of a polynomial over `GF(32)` modulo the Bech32 generator `g(x)`, packed five bits to a
coefficient in a `uint32_t`.

The model keeps the bit operations of the loop as the source writes them. What the round trip needs
of them is linearity over `GF(2)`: a step of a sum of states and values is the sum of the steps
(`polyModStep_xor`), which holds because the multiple of `k(x) = x^6 mod g(x)` a step adds is
linear in the coefficient shifted out: each of its five terms is selected by one bit of that
coefficient (`polyModGen_xor_byte`).
With it the six zeros `CreateChecksum` runs over can be replaced by the checksum itself, and the
remainder becomes `1` (`verifyChecksum_createChecksum`). `decode_encode` then reads the encoding
back, for a human-readable part that may itself hold `1`: `Decode` splits at the last one.

Reading `CHARSET` or `CHARSET_REV` past its end is `none`. The state of `PolyMod` never leaves
its thirty low bits, six coefficients (`foldl_polyModStep_lt`).
-/

namespace Emrals.Bech32

/-! ## `PolyMod` -/

/-- One step of the loop of `PolyMod` over a value `v_i`. -/
def polyModStep (c : UInt32) (v_i : UInt8) : UInt32 :=
  -- First, determine the value of c0:
  let c0 : UInt8 := (c >>> 25).toUInt8
  -- Then compute c1*x^5 + c2*x^4 + c3*x^3 + c4*x^2 + c5*x + v_i:
  let c := ((c &&& 0x1ffffff) <<< 5) ^^^ v_i.toUInt32
  -- Finally, for each set bit n in c0, conditionally add {2^n}k(x):
  let c := if c0 &&& 1 ≠ 0 then c ^^^ 0x3b6a57b2 else c
  let c := if c0 &&& 2 ≠ 0 then c ^^^ 0x26508e6d else c
  let c := if c0 &&& 4 ≠ 0 then c ^^^ 0x1ea119fa else c
  let c := if c0 &&& 8 ≠ 0 then c ^^^ 0x3d4233dd else c
  if c0 &&& 16 ≠ 0 then c ^^^ 0x2a1462b3 else c

/-- `PolyMod`. -/
def polyMod (v : List UInt8) : UInt32 := v.foldl polyModStep 1

/-- The multiples of `k(x) = x^6 mod g(x)` that a step adds for the top coefficient `c0`. -/
def polyModGen (c0 : UInt8) : UInt32 :=
  (if c0 &&& 1 ≠ 0 then 0x3b6a57b2 else 0) ^^^ (if c0 &&& 2 ≠ 0 then 0x26508e6d else 0) ^^^
    (if c0 &&& 4 ≠ 0 then 0x1ea119fa else 0) ^^^ (if c0 &&& 8 ≠ 0 then 0x3d4233dd else 0) ^^^
    (if c0 &&& 16 ≠ 0 then 0x2a1462b3 else 0)

theorem ite_xor_eq (p : Prop) [Decidable p] (x k : UInt32) :
    (if p then x ^^^ k else x) = x ^^^ (if p then k else 0) := by
  split <;> simp

/-- A step shifts the five low coefficients up, adds the value, and adds the multiple of `k(x)`
for the coefficient shifted out. -/
theorem polyModStep_eq (c : UInt32) (v_i : UInt8) :
    polyModStep c v_i =
      ((c &&& 0x1ffffff) <<< 5) ^^^ v_i.toUInt32 ^^^ polyModGen (c >>> 25).toUInt8 := by
  simp only [polyModStep, polyModGen, ite_xor_eq]
  simp only [UInt32.xor_assoc]

theorem and_xor_distrib_right_byte (a b m : UInt8) : (a ^^^ b) &&& m = (a &&& m) ^^^ (b &&& m) := by
  apply UInt8.toNat_inj.mp
  simp [Nat.and_xor_distrib_right]

/-- The multiple of `k(x)` that a one-bit mask `m` selects is additive in the coefficient. -/
theorem ite_and_xor {m : UInt8} (hm : ∀ z : UInt8, z &&& m = 0 ∨ z &&& m = m) (hm0 : m ≠ 0)
    (x y : UInt8) (k : UInt32) :
    (if (x ^^^ y) &&& m ≠ 0 then k else 0) =
      (if x &&& m ≠ 0 then k else 0) ^^^ (if y &&& m ≠ 0 then k else 0) := by
  rw [and_xor_distrib_right_byte]
  rcases hm x with hx | hx <;> rcases hm y with hy | hy <;> simp [hx, hy, hm0]

/-- Each of the five multiples is selected by one bit, so the sum of two coefficients selects the
sum of their multiples. -/
theorem polyModGen_xor_byte (x y : UInt8) :
    polyModGen (x ^^^ y) = polyModGen x ^^^ polyModGen y := by
  have h1 := ite_and_xor (m := 1) (by decide +kernel) (by decide) x y
  have h2 := ite_and_xor (m := 2) (by decide +kernel) (by decide) x y
  have h4 := ite_and_xor (m := 4) (by decide +kernel) (by decide) x y
  have h8 := ite_and_xor (m := 8) (by decide +kernel) (by decide) x y
  have h16 := ite_and_xor (m := 16) (by decide +kernel) (by decide) x y
  simp only [polyModGen, h1, h2, h4, h8, h16]
  ac_rfl

theorem polyModGen_lt_byte (c0 : UInt8) : (polyModGen c0).toNat < 2 ^ 30 := by
  -- each of the five multiples of `k(x)` has thirty bits, and so has their sum
  have hite : ∀ (p : Prop) [Decidable p] (k : UInt32), k.toNat < 2 ^ 30 →
      (if p then k else 0).toNat < 2 ^ 30 := by
    intro p _ k hk
    split
    · exact hk
    · simp
  simp only [polyModGen, UInt32.toNat_xor]
  refine Nat.xor_lt_two_pow (Nat.xor_lt_two_pow (Nat.xor_lt_two_pow (Nat.xor_lt_two_pow
    (hite _ _ ?_) (hite _ _ ?_)) (hite _ _ ?_)) (hite _ _ ?_)) (hite _ _ ?_) <;> decide

theorem and_xor_distrib_right (a b m : UInt32) : (a ^^^ b) &&& m = (a &&& m) ^^^ (b &&& m) := by
  apply UInt32.toNat_inj.mp
  simp [Nat.and_xor_distrib_right]

/-- A step is linear over `GF(2)`: the step of a sum is the sum of the steps. -/
theorem polyModStep_xor (c c' : UInt32) (v v' : UInt8) :
    polyModStep (c ^^^ c') (v ^^^ v') = polyModStep c v ^^^ polyModStep c' v' := by
  rw [polyModStep_eq, polyModStep_eq, polyModStep_eq, UInt32.shiftRight_xor, UInt32.toUInt8_xor,
    polyModGen_xor_byte, and_xor_distrib_right,
    UInt32.shiftLeft_xor, UInt8.toUInt32_xor]
  ac_rfl

/-- A step leaves thirty bits, six coefficients of five, whatever the state. -/
theorem polyModStep_lt (c : UInt32) (v : UInt8) : (polyModStep c v).toNat < 2 ^ 30 := by
  rw [polyModStep_eq, UInt32.toNat_xor, UInt32.toNat_xor]
  have hshift : ((c &&& 0x1ffffff) <<< 5).toNat < 2 ^ 30 := by
    rw [UInt32.toNat_shiftLeft, UInt32.toNat_and]
    have : c.toNat &&& (0x1ffffff : UInt32).toNat < 2 ^ 25 :=
      Nat.lt_of_le_of_lt Nat.and_le_right (by decide)
    rw [show (5 : UInt32).toNat % 32 = 5 from rfl, Nat.shiftLeft_eq]
    omega
  have hv : v.toUInt32.toNat < 2 ^ 30 := by
    rw [UInt8.toNat_toUInt32]
    have := v.toNat_lt
    omega
  exact Nat.xor_lt_two_pow (Nat.xor_lt_two_pow hshift hv) (polyModGen_lt_byte _)

theorem foldl_polyModStep_lt : ∀ (vs : List UInt8) {c : UInt32}, c.toNat < 2 ^ 30 →
    (vs.foldl polyModStep c).toNat < 2 ^ 30
  | [], _, hc => hc
  | v :: vs, c, _ => foldl_polyModStep_lt vs (polyModStep_lt c v)

/-- The loop is linear: over two lists of one length, the loop of the sums from the sum of two
states is the sum of the two loops. -/
theorem foldl_polyModStep_xor : ∀ (vs vs' : List UInt8) {c c' : UInt32},
    vs.length = vs'.length →
    (List.zipWith (· ^^^ ·) vs vs').foldl polyModStep (c ^^^ c') =
      vs.foldl polyModStep c ^^^ vs'.foldl polyModStep c'
  | [], [], _, _, _ => rfl
  | v :: vs, v' :: vs', c, c', hlen => by
    rw [List.zipWith_cons_cons, List.foldl_cons, List.foldl_cons, List.foldl_cons,
      polyModStep_xor c c' v v']
    exact foldl_polyModStep_xor vs vs' (by simpa using hlen)
  | [], _ :: _, _, _, hlen | _ :: _, [], _, _, hlen => by simp at hlen

theorem shiftLeft_xor_eq_add {a d : Nat} (hd : d < 2 ^ 5) : a <<< 5 ^^^ d = a * 32 + d := by
  rw [show a * 32 = a <<< 5 from (Nat.shiftLeft_eq a 5).symm, Nat.shiftLeft_add_eq_or_of_lt hd]
  apply Nat.eq_of_testBit_eq
  intro i
  rw [Nat.testBit_xor, Nat.testBit_or, Nat.testBit_shiftLeft]
  by_cases hi : 5 ≤ i
  · rw [Nat.testBit_lt_two_pow (Nat.lt_of_lt_of_le hd (Nat.pow_le_pow_right (by decide) hi))]
    simp
  · simp [hi]

/-- On a state of at most five coefficients no multiple of `k(x)` is added: a step appends the
value as the lowest coefficient. -/
theorem polyModStep_toNat_of_lt {c : UInt32} {d : UInt8} (hc : c.toNat < 2 ^ 25)
    (hd : d.toNat < 32) : (polyModStep c d).toNat = c.toNat * 32 + d.toNat := by
  have hc0 : (c >>> 25).toUInt8 = 0 := by
    apply UInt8.toNat_inj.mp
    rw [UInt32.toNat_toUInt8, UInt32.toNat_shiftRight,
      show (25 : UInt32).toNat % 32 = 25 from rfl, Nat.shiftRight_eq_div_pow]
    simp only [UInt8.toNat_zero]
    omega
  rw [polyModStep_eq, hc0, show polyModGen 0 = 0 from rfl, UInt32.xor_zero, UInt32.toNat_xor,
    UInt32.toNat_shiftLeft, UInt32.toNat_and, show (0x1ffffff : UInt32).toNat = 2 ^ 25 - 1 from rfl,
    Nat.and_two_pow_sub_one_eq_mod, Nat.mod_eq_of_lt hc, show (5 : UInt32).toNat % 32 = 5 from rfl,
    Nat.mod_eq_of_lt (by rw [Nat.shiftLeft_eq]; omega), UInt8.toNat_toUInt32,
    shiftLeft_xor_eq_add (by omega)]

/-- `ExpandHRP`: the high bits of each character, a zero, and the low five bits of each. -/
def expandHRP (hrp : List UInt8) : List UInt8 :=
  hrp.map (fun c : UInt8 => c >>> 5) ++ [0] ++ hrp.map (fun c : UInt8 => c &&& 0x1f)

/-- `VerifyChecksum`. -/
def verifyChecksum (hrp values : List UInt8) : Bool :=
  polyMod (expandHRP hrp ++ values) == 1

/-- `CreateChecksum`. -/
def createChecksum (hrp values : List UInt8) : List UInt8 :=
  -- Append 6 zeroes
  let enc := expandHRP hrp ++ values ++ List.replicate 6 0
  -- Determine what to XOR into those 6 zeroes.
  let mod := polyMod enc ^^^ 1
  -- Convert the 5-bit groups in mod to checksum values.
  (List.range 6).map fun i => ((mod >>> UInt32.ofNat (5 * (5 - i))) &&& 31).toUInt8

theorem length_createChecksum (hrp values : List UInt8) :
    (createChecksum hrp values).length = 6 := by
  simp [createChecksum]

/-- Six steps from `0` over values of five bits append them as coefficients. -/
theorem foldl_polyModStep_of_lt : ∀ (ds : List UInt8) (c : UInt32), ds.length ≤ 6 →
    (∀ d ∈ ds, d.toNat < 32) → c.toNat < 32 ^ (6 - ds.length) →
    (ds.foldl polyModStep c).toNat = ds.foldl (fun acc d => acc * 32 + d.toNat) c.toNat
  | [], _, _, _, _ => rfl
  | d :: ds, c, hlen, hd, hc => by
    rw [List.length_cons] at hlen hc
    have hpow : 32 ^ (6 - ds.length) = 32 ^ (6 - (ds.length + 1)) * 32 := by
      rw [← Nat.pow_succ]
      congr 1
      omega
    have hle : 32 ^ (6 - (ds.length + 1)) ≤ 2 ^ 25 :=
      Nat.le_trans (Nat.pow_le_pow_right (by decide) (by omega : 6 - (ds.length + 1) ≤ 5))
        (by decide)
    have hd0 := hd d (by simp)
    have hstep := @polyModStep_toNat_of_lt c d (by omega) hd0
    rw [List.foldl_cons, List.foldl_cons,
      foldl_polyModStep_of_lt ds (polyModStep c d) (by omega) (fun d hd' => hd d (by simp [hd']))
        (by rw [hstep, hpow]; omega), hstep]

theorem toNat_checksumDigit (m : UInt32) {s : Nat} (hs : s < 32) :
    ((m >>> UInt32.ofNat s) &&& 31).toUInt8.toNat = m.toNat / 2 ^ s % 32 := by
  rw [UInt32.toNat_toUInt8, UInt32.toNat_and, UInt32.toNat_shiftRight, UInt32.toNat_ofNat',
    show (31 : UInt32).toNat = 2 ^ 5 - 1 from rfl, Nat.and_two_pow_sub_one_eq_mod,
    Nat.mod_eq_of_lt (by omega : s < 2 ^ 32), Nat.mod_eq_of_lt hs, Nat.shiftRight_eq_div_pow]
  omega

/-- The six groups of five bits of a thirty-bit value, read back by the loop from `0`, are the
value. -/
theorem foldl_polyModStep_checksum (m : UInt32) (hm : m.toNat < 2 ^ 30) :
    ((List.range 6).map fun i => ((m >>> UInt32.ofNat (5 * (5 - i))) &&& 31).toUInt8).foldl
      polyModStep 0 = m := by
  apply UInt32.toNat_inj.mp
  rw [foldl_polyModStep_of_lt _ _ (by simp) ?digits (by simp)]
  case digits =>
    intro d hd
    obtain ⟨i, hi, rfl⟩ := List.mem_map.mp hd
    rw [toNat_checksumDigit m (by simp at hi; omega)]
    omega
  simp only [List.range_succ, List.range_zero, List.nil_append, List.cons_append, List.map_cons,
    List.map_nil, List.foldl_cons, List.foldl_nil]
  rw [toNat_checksumDigit m (by decide), toNat_checksumDigit m (by decide),
    toNat_checksumDigit m (by decide), toNat_checksumDigit m (by decide),
    toNat_checksumDigit m (by decide), toNat_checksumDigit m (by decide)]
  simp only [UInt32.toNat_zero]
  omega

theorem zipWith_xor_replicate_zero : ∀ (l : List UInt8),
    List.zipWith (· ^^^ ·) (List.replicate l.length 0) l = l
  | [] => rfl
  | a :: l => by
    rw [List.length_cons, List.replicate_succ, List.zipWith_cons_cons, UInt8.zero_xor,
      zipWith_xor_replicate_zero l]

/-- The checksum makes the remainder `1`: by linearity, the loop over the checksum from the state
after the values is the loop over six zeros from there, plus the loop over the checksum from `0`,
which is the checksum's value. -/
theorem verifyChecksum_createChecksum (hrp values : List UInt8) :
    verifyChecksum hrp (values ++ createChecksum hrp values) = true := by
  -- the state after the expanded part and the values, and after six zeros more
  have hS : ((expandHRP hrp ++ values).foldl polyModStep 1).toNat < 2 ^ 30 :=
    foldl_polyModStep_lt _ (by decide)
  have hZ : ((List.replicate 6 0).foldl polyModStep
      ((expandHRP hrp ++ values).foldl polyModStep 1)).toNat < 2 ^ 30 :=
    foldl_polyModStep_lt _ hS
  have hmod : (((List.replicate 6 0).foldl polyModStep
      ((expandHRP hrp ++ values).foldl polyModStep 1)) ^^^ 1).toNat < 2 ^ 30 := by
    rw [UInt32.toNat_xor]
    exact Nat.xor_lt_two_pow hZ (by decide)
  have hcs : createChecksum hrp values = (List.range 6).map fun i =>
      (((((List.replicate 6 0).foldl polyModStep
        ((expandHRP hrp ++ values).foldl polyModStep 1)) ^^^ 1) >>> UInt32.ofNat (5 * (5 - i))) &&&
          31).toUInt8 := by
    rw [createChecksum, polyMod, List.foldl_append]
  have hlen := length_createChecksum hrp values
  have hzip : List.zipWith (· ^^^ ·) (List.replicate 6 0) (createChecksum hrp values) =
      createChecksum hrp values := by
    have := zipWith_xor_replicate_zero (createChecksum hrp values)
    rwa [hlen] at this
  have hlin := @foldl_polyModStep_xor (List.replicate 6 0) (createChecksum hrp values)
    ((expandHRP hrp ++ values).foldl polyModStep 1) 0 (by rw [hlen]; simp)
  rw [UInt32.xor_zero, hzip] at hlin
  rw [verifyChecksum, polyMod, ← List.append_assoc, List.foldl_append, hlin, hcs,
    foldl_polyModStep_checksum _ hmod, ← UInt32.xor_assoc, UInt32.xor_self, UInt32.zero_xor]
  rfl

/-- `CHARSET`, `"qpzry9x8gf2tvdw0s3jn54khce6mua7l"`, with the terminating null of the literal. -/
def CHARSET : List UInt8 :=
  [0x71, 0x70, 0x7a, 0x72, 0x79, 0x39, 0x78, 0x38, 0x67, 0x66, 0x32, 0x74, 0x76, 0x64, 0x77, 0x30,
    0x73, 0x33, 0x6a, 0x6e, 0x35, 0x34, 0x6b, 0x68, 0x63, 0x65, 0x36, 0x6d, 0x75, 0x61, 0x37, 0x6c,
    0x00]

/-- `CHARSET_REV`: the value of a character, `-1` for a character outside the set. -/
def CHARSET_REV : List Int8 :=
  [-1, -1, -1, -1, -1, -1, -1, -1, -1, -1, -1, -1, -1, -1, -1, -1,
    -1, -1, -1, -1, -1, -1, -1, -1, -1, -1, -1, -1, -1, -1, -1, -1,
    -1, -1, -1, -1, -1, -1, -1, -1, -1, -1, -1, -1, -1, -1, -1, -1,
    15, -1, 10, 17, 21, 20, 26, 30, 7, 5, -1, -1, -1, -1, -1, -1,
    -1, 29, -1, 24, 13, 25, 9, 8, 23, -1, 18, 22, 31, 27, 19, -1,
    1, 0, 3, 16, 11, 28, 12, 14, 6, 4, 2, -1, -1, -1, -1, -1,
    -1, 29, -1, 24, 13, 25, 9, 8, 23, -1, 18, 22, 31, 27, 19, -1,
    1, 0, 3, 16, 11, 28, 12, 14, 6, 4, 2, -1, -1, -1, -1, -1]

/-- `LowerCase`. -/
def lowerCase (c : UInt8) : UInt8 :=
  if c ≥ 0x41 ∧ c ≤ 0x5a then c - 0x41 + 0x61 else c

/-- The first loop of `Decode`: whether a lower and an upper case letter occur; `none` for a
character outside `33..126`, where `Decode` returns the empty pair. -/
def caseScan : List UInt8 → Bool → Bool → Option (Bool × Bool)
  | [], lower, upper => some (lower, upper)
  | c :: rest, lower, upper =>
    if c ≥ 0x61 ∧ c ≤ 0x7a then caseScan rest true upper
    else if c ≥ 0x41 ∧ c ≤ 0x5a then caseScan rest lower true
    else if c < 33 ∨ c > 126 then none
    else caseScan rest lower upper

/-- `std::string::rfind`: the position of the last `ch`, `none` for `npos`. -/
def rfind (ch : UInt8) : List UInt8 → Option Nat
  | [] => none
  | c :: rest =>
    match rfind ch rest with
    | some i => some (i + 1)
    | none => if c = ch then some 0 else none

/-- `bech32::Encode`: `none` where a value past `32` reads past the literal `CHARSET`. -/
def encode (hrp values : List UInt8) : Option (List UInt8) := do
  let checksum := createChecksum hrp values
  let combined := values ++ checksum
  let chars ← combined.mapM fun c => CHARSET[c.toNat]?
  return hrp ++ [0x31] ++ chars

/-- `bech32::Decode`: `none` where the source returns the empty pair. -/
def decode (str : List UInt8) : Option (List UInt8 × List UInt8) := do
  let (lower, upper) ← caseScan str false false
  if lower && upper then none
  let pos ← rfind 0x31 str
  if str.length > 90 ∨ pos = 0 ∨ pos + 7 > str.length then none
  let values ← (str.drop (pos + 1)).mapM fun c => do
    let rev ← CHARSET_REV[c.toNat]?
    if rev = -1 then none else some rev.toUInt8
  let hrp := (str.take pos).map lowerCase
  if !verifyChecksum hrp values then none
  return (hrp, values.take (values.length - 6))

example : decode [0x61, 0x31, 0x32, 0x75, 0x65, 0x6c, 0x35, 0x6c] = some ([0x61], []) := by decide

/-- The character of a value of five bits. -/
def charOf (v : UInt8) : UInt8 := CHARSET.getD v.toNat 0

theorem charOf_spec : ∀ v : Fin 32,
    CHARSET_REV[(charOf (UInt8.ofNat v.val)).toNat]? = some (Int8.ofNat v.val) ∧
      Int8.ofNat v.val ≠ -1 ∧ (Int8.ofNat v.val).toUInt8 = UInt8.ofNat v.val ∧
      charOf (UInt8.ofNat v.val) ≠ 0x31 ∧ 33 ≤ (charOf (UInt8.ofNat v.val)).toNat ∧
      (charOf (UInt8.ofNat v.val)).toNat ≤ 126 ∧
      ¬(0x41 ≤ (charOf (UInt8.ofNat v.val)).toNat ∧
        (charOf (UInt8.ofNat v.val)).toNat ≤ 0x5a) := by
  decide +kernel

theorem getElem?_charset {v : UInt8} (hv : v.toNat < 32) : CHARSET[v.toNat]? = some (charOf v) := by
  have hlt : v.toNat < CHARSET.length := by
    simp only [CHARSET, List.length_cons, List.length_nil]
    omega
  rw [charOf, List.getD_eq_getElem?_getD, List.getElem?_eq_getElem hlt]
  rfl

theorem mapM_charset : ∀ {l : List UInt8}, (∀ v ∈ l, v.toNat < 32) →
    l.mapM (fun c => CHARSET[c.toNat]?) = some (l.map charOf)
  | [], _ => rfl
  | v :: l, h => by
    rw [List.mapM_cons, getElem?_charset (h v (by simp)),
      mapM_charset (fun w hw => h w (by simp [hw]))]
    rfl

theorem mapM_charsetRev : ∀ {l : List UInt8}, (∀ v ∈ l, v.toNat < 32) →
    (l.map charOf).mapM (fun c => do
      let rev ← CHARSET_REV[c.toNat]?
      if rev = -1 then none else some rev.toUInt8) = some l
  | [], _ => rfl
  | v :: l, h => by
    obtain ⟨hrev, hne, hto, -⟩ := charOf_spec ⟨v.toNat, h v (by simp)⟩
    simp only [UInt8.ofNat_toNat] at hrev hto
    rw [List.map_cons, List.mapM_cons, hrev, mapM_charsetRev (fun w hw => h w (by simp [hw]))]
    simp only [Option.bind_eq_bind, Option.bind_some, if_neg hne, hto]
    rfl

/-- A character of `33..126` other than an upper case letter. -/
def IsHrpChar (c : UInt8) : Prop :=
  33 ≤ c.toNat ∧ c.toNat ≤ 126 ∧ ¬(0x41 ≤ c.toNat ∧ c.toNat ≤ 0x5a)

instance : DecidablePred IsHrpChar := fun c => by
  unfold IsHrpChar
  infer_instance

theorem caseScan_of_isHrpChar : ∀ {l : List UInt8} (lower : Bool), (∀ c ∈ l, IsHrpChar c) →
    ∃ lower', caseScan l lower false = some (lower', false)
  | [], lower, _ => ⟨lower, rfl⟩
  | c :: l, lower, h => by
    obtain ⟨h33, h126, hup⟩ := h c (by simp)
    have hrest : ∀ d ∈ l, IsHrpChar d := fun d hd => h d (by simp [hd])
    rw [caseScan]
    simp only [ge_iff_le, UInt8.le_iff_toNat_le, UInt8.lt_iff_toNat_lt]
    simp only [UInt8.toNat_ofNat] at *
    split_ifs with hlow hrange
    · exact caseScan_of_isHrpChar true hrest
    · exact absurd hrange (by omega)
    · exact caseScan_of_isHrpChar lower hrest

theorem rfind_eq_none (ch : UInt8) : ∀ {l : List UInt8}, ch ∉ l → rfind ch l = none
  | [], _ => rfl
  | c :: l, h => by
    rw [List.mem_cons, not_or] at h
    rw [rfind, rfind_eq_none ch h.2, if_neg (Ne.symm h.1)]

theorem rfind_append (ch : UInt8) {post : List UInt8} (h : ch ∉ post) :
    ∀ pre : List UInt8, rfind ch (pre ++ ch :: post) = some pre.length
  | [] => by rw [List.nil_append, rfind, rfind_eq_none ch h, if_pos rfl]; rfl
  | c :: pre => by rw [List.cons_append, rfind, rfind_append ch h pre]; rfl

theorem lowerCase_of_isHrpChar {c : UInt8} (h : IsHrpChar c) : lowerCase c = c := by
  rw [lowerCase, if_neg]
  simp only [ge_iff_le, UInt8.le_iff_toNat_le]
  exact h.2.2

theorem createChecksum_lt (hrp values : List UInt8) :
    ∀ v ∈ createChecksum hrp values, v.toNat < 32 := by
  intro v hv
  obtain ⟨i, hi, rfl⟩ := List.mem_map.mp hv
  rw [toNat_checksumDigit _ (by simp at hi; omega)]
  omega

/-- The character of a value is one `Decode`'s scan accepts, and not the separator. -/
theorem isHrpChar_charOf {v : UInt8} (hv : v.toNat < 32) :
    IsHrpChar (charOf v) ∧ charOf v ≠ 0x31 := by
  obtain ⟨-, -, -, hsep, h33, h126, hup⟩ := charOf_spec ⟨v.toNat, hv⟩
  simp only [UInt8.ofNat_toNat] at hsep h33 h126 hup
  exact ⟨⟨h33, h126, hup⟩, hsep⟩

/-- The accepting path of `Decode`: a human-readable part, the separator, and at least six data
characters, none of them `1`, decode to the values the data characters stand for less the six of
the checksum, when the checksum holds. -/
theorem decode_append_sep {hrp chars values : List UInt8} (hne : hrp ≠ [])
    (hhrp : ∀ c ∈ hrp, IsHrpChar c) (hchars : ∀ c ∈ chars, IsHrpChar c ∧ c ≠ 0x31)
    (hlen : hrp.length + chars.length + 1 ≤ 90) (h6 : 6 ≤ chars.length)
    (hrev : chars.mapM (fun c => do
      let rev ← CHARSET_REV[c.toNat]?
      if rev = -1 then none else some rev.toUInt8) = some values)
    (hcheck : verifyChecksum hrp values = true) :
    decode (hrp ++ 0x31 :: chars) = some (hrp, values.take (values.length - 6)) := by
  obtain ⟨lower, hscan⟩ := caseScan_of_isHrpChar false (l := hrp ++ 0x31 :: chars) (by
    intro c hc
    rcases List.mem_append.mp hc with hc | hc
    · exact hhrp c hc
    rcases List.mem_cons.mp hc with rfl | hc
    · decide
    · exact (hchars c hc).1)
  have hpos := rfind_append 0x31 (fun h => (hchars _ h).2 rfl) hrp
  have hlenStr : (hrp ++ 0x31 :: chars).length = hrp.length + chars.length + 1 := by
    rw [List.length_append, List.length_cons, Nat.add_assoc]
  have hdrop : (hrp ++ 0x31 :: chars).drop (hrp.length + 1) = chars := by
    rw [List.drop_append, List.drop_eq_nil_of_le (by omega), Nat.add_sub_cancel_left]
    rfl
  have htake : ((hrp ++ 0x31 :: chars).take hrp.length).map lowerCase = hrp := by
    rw [List.take_left, List.map_congr_left (fun c hc => lowerCase_of_isHrpChar (hhrp c hc)),
      List.map_id']
  -- every bound `Decode` checks on the separator's position holds
  have hbounds : ¬(hrp.length + chars.length + 1 > 90 ∨ hrp.length = 0 ∨
      hrp.length + 7 > hrp.length + chars.length + 1) := by
    have hpos0 : hrp.length ≠ 0 := fun h => hne (List.eq_nil_of_length_eq_zero h)
    omega
  simp only [Option.bind_eq_bind] at hrev
  unfold decode
  simp only [hscan, hpos, Option.bind_eq_bind, Option.bind_some]
  simp only [hlenStr, hdrop, htake, hrev, Option.bind_some, Bool.and_false, if_neg hbounds, hcheck]
  rfl

/-- `Decode` reads back what `Encode` writes, for a non-empty human-readable part of characters
`33..126` without an upper case letter and values of five bits, at most `90` characters in all. -/
theorem decode_encode {hrp values : List UInt8} (hne : hrp ≠ [])
    (hhrp : ∀ c ∈ hrp, IsHrpChar c) (hvalues : ∀ v ∈ values, v.toNat < 32)
    (hlen : hrp.length + values.length + 7 ≤ 90) :
    ∃ str, encode hrp values = some str ∧ decode str = some (hrp, values) := by
  have hall : ∀ v ∈ values ++ createChecksum hrp values, v.toNat < 32 := by
    intro v hv
    rcases List.mem_append.mp hv with hv | hv
    · exact hvalues v hv
    · exact createChecksum_lt hrp values v hv
  refine ⟨hrp ++ [0x31] ++ (values ++ createChecksum hrp values).map charOf, ?_, ?_⟩
  · rw [encode]
    simp only [mapM_charset hall]
    rfl
  have hchars : ∀ c ∈ (values ++ createChecksum hrp values).map charOf,
      IsHrpChar c ∧ c ≠ 0x31 := by
    intro c hc
    obtain ⟨v, hv, rfl⟩ := List.mem_map.mp hc
    exact isHrpChar_charOf (hall v hv)
  have hcharsLen :
      ((values ++ createChecksum hrp values).map charOf).length = values.length + 6 := by
    rw [List.length_map, List.length_append, length_createChecksum]
  rw [List.append_assoc, List.singleton_append,
    decode_append_sep hne hhrp hchars (by omega) (by omega) (mapM_charsetRev hall)
      (verifyChecksum_createChecksum hrp values),
    List.length_append, length_createChecksum, Nat.add_sub_cancel, List.take_left]

/-- The Bech32 round trip: appending `CreateChecksum` makes the remainder `VerifyChecksum` reads
exactly `1`, and `Decode` reads back what `Encode` writes, for a non-empty human-readable part of
characters `33..126` with no upper case letter and values of five bits, in an encoding of at most
`90` characters. -/
theorem bech32_round_trip :
    (∀ hrp values : List UInt8,
      verifyChecksum hrp (values ++ createChecksum hrp values) = true) ∧
      ∀ hrp values : List UInt8, hrp ≠ [] → (∀ c ∈ hrp, IsHrpChar c) →
        (∀ v ∈ values, v.toNat < 32) → hrp.length + values.length + 7 ≤ 90 →
        ∃ str, encode hrp values = some str ∧ decode str = some (hrp, values) :=
  ⟨verifyChecksum_createChecksum,
    fun _ _ hne hhrp hvalues hlen => decode_encode hne hhrp hvalues hlen⟩

set_option maxRecDepth 2000 in
theorem bech32_round_trip_bc :
    ∃ str, encode [0x62, 0x63] [0, 14, 20, 15] = some str ∧
      decode str = some ([0x62, 0x63], [0, 14, 20, 15]) :=
  bech32_round_trip.2 [0x62, 0x63] [0, 14, 20, 15] (by simp) (by decide) (by decide) (by decide)

end Emrals.Bech32
