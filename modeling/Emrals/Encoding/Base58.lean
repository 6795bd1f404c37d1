import Emrals.Primitives
import Emrals.Lib.Codec
import Emrals.Lib.Radix

/-!
# Base58

`EncodeBase58` and `DecodeBase58` (`src/base58.cpp`) convert between bytes and the characters of
`pszBase58`, a leading zero byte to a leading `1` and the rest as one number, in place, through a
big-endian buffer that each byte or character multiplies and adds into. The passes over the buffer
are `Radix.mulAddLoop`; `Radix.foldlM_mulAddStep` gives that they never leave a carry (the
`assert(carry == 0)` of both loops) while the buffer, `log(256) / log(58)` or `log(58) / log(256)`
times the input rounded up (`encodeBase58_fits`, `decodeBase58_fits`), holds the number read so far.
`encodeBase58_eq` and `decodeBase58_eq` then read both functions as `Nat.digits` of a value,
and the round trips follow from `Radix.digits_ofDigits_reverse`.

The buffer sizes are `int`s: past `INT_MAX` they wrap negative and the `std::vector` of that size
throws (`base58_size_overflow`), so the round trips hold below that length. `EncodeBase58Check`
and `DecodeBase58Check` take the hash as a parameter; the check round trip holds for every hash.
-/

namespace Emrals

open Codec Radix

/-- `pszBase58`: the alphanumeric characters but `0`, `I`, `O` and `l`. -/
def pszBase58 : List UInt8 :=
  [0x31, 0x32, 0x33, 0x34, 0x35, 0x36, 0x37, 0x38, 0x39, 0x41, 0x42, 0x43, 0x44, 0x45, 0x46, 0x47,
    0x48, 0x4a, 0x4b, 0x4c, 0x4d, 0x4e, 0x50, 0x51, 0x52, 0x53, 0x54, 0x55, 0x56, 0x57, 0x58, 0x59,
    0x5a, 0x61, 0x62, 0x63, 0x64, 0x65, 0x66, 0x67, 0x68, 0x69, 0x6a, 0x6b, 0x6d, 0x6e, 0x6f, 0x70,
    0x71, 0x72, 0x73, 0x74, 0x75, 0x76, 0x77, 0x78, 0x79, 0x7a]

/-- `mapBase58`: the value of a character, `-1` outside the alphabet. -/
def mapBase58 : List Int8 :=
  [-1, -1, -1, -1, -1, -1, -1, -1, -1, -1, -1, -1, -1, -1, -1, -1,
    -1, -1, -1, -1, -1, -1, -1, -1, -1, -1, -1, -1, -1, -1, -1, -1,
    -1, -1, -1, -1, -1, -1, -1, -1, -1, -1, -1, -1, -1, -1, -1, -1,
    -1, 0, 1, 2, 3, 4, 5, 6, 7, 8, -1, -1, -1, -1, -1, -1,
    -1, 9, 10, 11, 12, 13, 14, 15, 16, -1, 17, 18, 19, 20, 21, -1,
    22, 23, 24, 25, 26, 27, 28, 29, 30, 31, 32, -1, -1, -1, -1, -1,
    -1, 33, 34, 35, 36, 37, 38, 39, 40, 41, 42, 43, -1, 44, 45, 46,
    47, 48, 49, 50, 51, 52, 53, 54, 55, 56, 57, -1, -1, -1, -1, -1,
    -1, -1, -1, -1, -1, -1, -1, -1, -1, -1, -1, -1, -1, -1, -1, -1,
    -1, -1, -1, -1, -1, -1, -1, -1, -1, -1, -1, -1, -1, -1, -1, -1,
    -1, -1, -1, -1, -1, -1, -1, -1, -1, -1, -1, -1, -1, -1, -1, -1,
    -1, -1, -1, -1, -1, -1, -1, -1, -1, -1, -1, -1, -1, -1, -1, -1,
    -1, -1, -1, -1, -1, -1, -1, -1, -1, -1, -1, -1, -1, -1, -1, -1,
    -1, -1, -1, -1, -1, -1, -1, -1, -1, -1, -1, -1, -1, -1, -1, -1,
    -1, -1, -1, -1, -1, -1, -1, -1, -1, -1, -1, -1, -1, -1, -1, -1,
    -1, -1, -1, -1, -1, -1, -1, -1, -1, -1, -1, -1, -1, -1, -1, -1]

/-- `IsSpace` (`src/util/strencodings.h`). -/
def isSpace (c : UInt8) : Bool :=
  c == 0x20 || c == 0x0c || c == 0x0a || c == 0x0d || c == 0x09 || c == 0x0b

/-- `EncodeBase58`: `none` where `zeroes` would pass `INT_MAX`, where the buffer size, an `int`,
is negative (`std::vector` throws), and where `assert(carry == 0)` fails. -/
def encodeBase58 (v : List UInt8) : Option (List UInt8) := do
  -- Skip & count leading zeroes.
  let zeroes := (v.takeWhile (· == 0)).length
  if zeroes ≥ 2 ^ 31 then none
  let pbegin := v.drop zeroes
  -- Allocate enough space in big-endian base58 representation.
  let size := toInt32 (pbegin.length * 138 / 100 + 1)
  if size < 0 then none
  -- Process the bytes, `b58 = b58 * 256 + ch`.
  let (b58, length) ← pbegin.foldlM (fun st ch => mulAddStep 58 256 st ch.toNat)
    (List.replicate size.toNat 0, 0)
  -- Skip leading zeroes in base58 result.
  let it := (b58.reverse.drop (size.toNat - length)).dropWhile (· = 0)
  -- Translate the result into a string.
  some (List.replicate zeroes 0x31 ++ it.map fun d => pszBase58.getD d 0)

/-- One character of the loop of `DecodeBase58`: "Invalid b58 character" outside the alphabet,
and `b256 = b256 * 58 + carry` with `assert(carry == 0)`. -/
def decodeBase58Step (st : List Nat × Nat) (c : UInt8) : Option (List Nat × Nat) :=
  let carry := (mapBase58.getD c.toNat (-1)).toInt
  if carry = -1 then none else mulAddStep 256 58 st carry.toNat

/-- `DecodeBase58(const char* psz, ...)` on the characters before the terminating null: `none`
for `false`, where `zeroes` would pass `INT_MAX`, where the buffer size is negative, and where the
assertion fails. -/
def decodeBase58 (psz : List UInt8) : Option (List UInt8) := do
  -- Skip leading spaces.
  let psz := psz.dropWhile isSpace
  -- Skip and count leading '1's.
  let zeroes := (psz.takeWhile (· == 0x31)).length
  if zeroes ≥ 2 ^ 31 then none
  let psz := psz.drop zeroes
  -- Allocate enough space in big-endian base256 representation.
  let size := toInt32 (psz.length * 733 / 1000 + 1)
  if size < 0 then none
  -- Process the characters.
  let body := psz.takeWhile (! isSpace ·)
  let (b256, length) ← body.foldlM decodeBase58Step (List.replicate size.toNat 0, 0)
  -- Skip trailing spaces.
  if !(psz.drop body.length).all isSpace then none
  -- Skip leading zeroes in b256.
  let it := (b256.reverse.drop (size.toNat - length)).dropWhile (· = 0)
  some (List.replicate zeroes 0 ++ it.map UInt8.ofNat)

/-- `DecodeBase58(const std::string&, ...)`: through `c_str()`, the characters before the first
null. -/
def decodeBase58String (str : List UInt8) : Option (List UInt8) :=
  decodeBase58 (str.takeWhile (· ≠ 0))

section
variable (Hash : List UInt8 → uint256)

/-- `EncodeBase58Check`: the first four bytes of the hash, the low ones of the number, added. -/
def encodeBase58Check (vchIn : List UInt8) : Option (List UInt8) :=
  encodeBase58 (vchIn ++ encLE 4 (Hash vchIn).toNat)

/-- `DecodeBase58Check(const char* psz, ...)`. -/
def decodeBase58Check (psz : List UInt8) : Option (List UInt8) := do
  let vchRet ← decodeBase58 psz
  if vchRet.length < 4 then none
  -- re-calculate the checksum, ensure it matches the included 4-byte checksum
  let hash := Hash (vchRet.take (vchRet.length - 4))
  if encLE 4 hash.toNat ≠ vchRet.drop (vchRet.length - 4) then none
  some (vchRet.take (vchRet.length - 4))

/-- `DecodeBase58Check(const std::string&, ...)`, through `c_str()`. -/
def decodeBase58CheckString (str : List UInt8) : Option (List UInt8) :=
  decodeBase58Check Hash (str.takeWhile (· ≠ 0))

end

example : encodeBase58 [0x62, 0x62, 0x62] = some [0x61, 0x33, 0x67, 0x56] := by decide

example : decodeBase58 [0x61, 0x33, 0x67, 0x56] = some [0x62, 0x62, 0x62] := by decide

/-! ## The alphabet -/

theorem pszBase58_spec : ∀ d : Fin 58,
    (mapBase58.getD (pszBase58.getD d.val 0).toNat (-1)).toInt = d.val ∧
      (pszBase58.getD d.val 0 == 0x31) = decide (d.val = 0) := by
  decide +kernel

set_option maxRecDepth 2000 in
theorem isSpace_of_mem_pszBase58 : ∀ c ∈ pszBase58, isSpace c = false := by decide +kernel

theorem zero_not_mem_pszBase58 : (0 : UInt8) ∉ pszBase58 := by decide

theorem getD_pszBase58_mem {d : Nat} (hd : d < 58) : pszBase58.getD d 0 ∈ pszBase58 := by
  have hlen : pszBase58.length = 58 := rfl
  rw [List.getD_eq_getElem?_getD, List.getElem?_eq_getElem (by omega), Option.getD_some]
  exact List.getElem_mem _

/-- What `EncodeBase58` writes is in the alphabet. -/
theorem mem_pszBase58_of_encoded {z : Nat} {xs : List Nat} (hxs : ∀ x ∈ xs, x < 58) :
    ∀ c ∈ List.replicate z 0x31 ++ xs.map (fun d => pszBase58.getD d 0), c ∈ pszBase58 := by
  intro c hc
  rcases List.mem_append.mp hc with hc | hc
  · rw [List.eq_of_mem_replicate hc]
    decide
  · obtain ⟨d, hd, rfl⟩ := List.mem_map.mp hc
    exact getD_pszBase58_mem (hxs d hd)

/-- A string of the alphabet has no `NUL`: the C string is the whole of it. -/
theorem decodeBase58String_of_mem {s : List UInt8} (hs : ∀ c ∈ s, c ∈ pszBase58) :
    decodeBase58String s = decodeBase58 s := by
  have hne : ∀ c ∈ s, decide (c ≠ 0) = true := by
    intro c hc
    rw [decide_eq_true_iff]
    rintro rfl
    exact zero_not_mem_pszBase58 (hs 0 hc)
  rw [decodeBase58String, List.takeWhile_eq_self_iff.mpr hne]

/-- A character of the alphabet is the character of its value. -/
theorem eq_pszBase58_getD {c : UInt8} (hc : c ∈ pszBase58) :
    (mapBase58.getD c.toNat (-1)).toInt.toNat < 58 ∧
      pszBase58.getD (mapBase58.getD c.toNat (-1)).toInt.toNat 0 = c := by
  obtain ⟨d, hd, rfl⟩ := List.getElem_of_mem hc
  have hlen : pszBase58.length = 58 := rfl
  have hget : pszBase58.getD d 0 = pszBase58[d] := by
    rw [List.getD_eq_getElem?_getD, List.getElem?_eq_getElem hd, Option.getD_some]
  obtain ⟨hval, -⟩ := pszBase58_spec ⟨d, by omega⟩
  rw [← hget, hval, Int.toNat_natCast]
  exact ⟨by omega, rfl⟩

/-- Every string is a run of `c`s and a rest that does not start with `c`. -/
theorem exists_replicate_append (c : UInt8) :
    ∀ v : List UInt8, ∃ z rest, v = List.replicate z c ++ rest ∧ rest.head? ≠ some c
  | [] => ⟨0, [], rfl, by simp⟩
  | b :: v => by
    by_cases hb : b = c
    · obtain ⟨z, rest, hv, hrest⟩ := exists_replicate_append c v
      exact ⟨z + 1, rest, by rw [hb, hv]; rfl, hrest⟩
    · exact ⟨0, b :: v, rfl, by simpa using hb⟩

/-- A run of `c`s, then a list not starting with `c`: the run is what `c`s are skipped. -/
theorem takeWhile_replicate_append (c : UInt8) (z : Nat) {l : List UInt8}
    (h : l.head? ≠ some c) : (List.replicate z c ++ l).takeWhile (· == c) = List.replicate z c := by
  induction z with
  | zero =>
    cases l with
    | nil => rfl
    | cons b l =>
      have hb : b ≠ c := fun hbc => h (by rw [hbc]; rfl)
      simp [hb]
  | succ z ih => simp [List.replicate_succ, ih]

/-- The characters of digits below `58`, no space among them, are read back as the digits. -/
theorem foldlM_decodeBase58Step : ∀ (xs : List Nat) (st : List Nat × Nat), (∀ x ∈ xs, x < 58) →
    (xs.map fun d => pszBase58.getD d 0).foldlM decodeBase58Step st =
      xs.foldlM (mulAddStep 256 58) st
  | [], _, _ => rfl
  | x :: xs, st, h => by
    obtain ⟨hval, -⟩ := pszBase58_spec ⟨x, h x List.mem_cons_self⟩
    have hstep : decodeBase58Step st (pszBase58.getD x 0) = mulAddStep 256 58 st x := by
      rw [decodeBase58Step, hval, if_neg (by omega), Int.toNat_natCast]
    rw [List.map_cons, List.foldlM_cons, List.foldlM_cons, hstep]
    cases mulAddStep 256 58 st x with
    | none => rfl
    | some st' => exact foldlM_decodeBase58Step xs st' fun y hy => h y (List.mem_cons_of_mem x hy)

/-! ## Encoding and decoding -/

/-- The buffer of `EncodeBase58` holds any number of `n` bytes: `log(256) / log(58)`, rounded up. -/
theorem encodeBase58_fits (n : Nat) : 256 ^ n ≤ 58 ^ (n * 138 / 100 + 1) := by
  rw [Nat.mul_comm]
  exact pow_le_pow_div (q := 100) (p := 138) (by decide) (by decide) (by decide +kernel) _

/-- The buffer of `DecodeBase58` holds any number of `n` base-58 digits. -/
theorem decodeBase58_fits (n : Nat) : 58 ^ n ≤ 256 ^ (n * 733 / 1000 + 1) := by
  rw [Nat.mul_comm]
  exact pow_le_pow_div (q := 1000) (p := 733) (by decide) (by decide) (by decide +kernel) _

/-- `EncodeBase58` writes a `1` per leading zero byte, then the base-58 digits of the number the
other bytes spell. -/
theorem encodeBase58_eq {z : Nat} {rest : List UInt8} (hrest : rest.head? ≠ some 0)
    (hz : z < 2 ^ 31) (hsize : rest.length * 138 / 100 + 1 < 2 ^ 31) :
    encodeBase58 (List.replicate z 0 ++ rest) =
      some (List.replicate z 0x31 ++ (Nat.digits 58 (Nat.ofDigits 256
        (rest.map UInt8.toNat).reverse)).reverse.map fun d => pszBase58.getD d 0) := by
  have hcast : (rest.length : Int) * 138 / 100 + 1 = ((rest.length * 138 / 100 + 1 : Nat) : Int) := by
    omega
  obtain ⟨st, hrun, hst, hlen⟩ := foldlM_mulAddStep (B := 58) (M := 256) (by decide) (by decide)
    (rest.map UInt8.toNat) [] _ (holds_replicate (by decide) (rest.length * 138 / 100 + 1))
    List.length_replicate (fun x hx => by
      simp only [List.nil_append, List.mem_map] at hx
      obtain ⟨b, -, rfl⟩ := hx
      exact b.toNat_lt) (by simpa using encodeBase58_fits rest.length)
  rw [List.foldlM_map] at hrun
  unfold encodeBase58
  rw [takeWhile_replicate_append 0 z hrest, List.length_replicate, if_neg (by omega),
    List.drop_left' (List.length_replicate)]
  dsimp only
  rw [hcast, toInt32_of_lt hsize, if_neg (by omega), Int.toNat_natCast]
  simp only [Bind.bind, Option.bind, hrun]
  obtain ⟨b58, length⟩ := st
  rw [← hlen, reverse_drop_dropWhile (by decide) hst, List.nil_append]

/-- `DecodeBase58` reads a zero byte per leading `1`, then the bytes of the number the other
characters spell in base 58. -/
theorem decodeBase58_eq {z : Nat} {xs : List Nat} (hxs : ∀ x ∈ xs, x < 58)
    (hhead : xs.head? ≠ some 0) (hz : z < 2 ^ 31) (hsize : xs.length * 733 / 1000 + 1 < 2 ^ 31) :
    decodeBase58 (List.replicate z 0x31 ++ xs.map fun d => pszBase58.getD d 0) =
      some (List.replicate z 0 ++
        (Nat.digits 256 (Nat.ofDigits 58 xs.reverse)).reverse.map UInt8.ofNat) := by
  have hspace : ∀ c ∈ List.replicate z 0x31 ++ xs.map (fun d => pszBase58.getD d 0),
      isSpace c = false :=
    fun c hc => isSpace_of_mem_pszBase58 c (mem_pszBase58_of_encoded hxs c hc)
  -- the first character past the `1`s is not a `1`: the digits do not start with zero
  have hnotone : (xs.map fun d => pszBase58.getD d 0).head? ≠ some 0x31 := by
    cases xs with
    | nil => simp
    | cons d xs =>
      have hd : d ≠ 0 := fun h => hhead (by rw [h]; rfl)
      have := (pszBase58_spec ⟨d, hxs d List.mem_cons_self⟩).2
      simp only [decide_eq_false hd, beq_eq_false_iff_ne] at this
      simpa using this
  obtain ⟨st, hrun, hst, hlen⟩ := foldlM_mulAddStep (B := 256) (M := 58) (by decide) (by decide)
    xs [] _ (holds_replicate (by decide) (xs.length * 733 / 1000 + 1)) List.length_replicate
    (by simpa using hxs)
    (by simpa using decodeBase58_fits xs.length)
  have hcast : ((xs.map fun d => pszBase58.getD d 0).length : Int) * 733 / 1000 + 1 =
      ((xs.length * 733 / 1000 + 1 : Nat) : Int) := by
    rw [List.length_map]
    omega
  unfold decodeBase58
  rw [List.dropWhile_eq_self_iff.mpr fun hl => by simpa using hspace _ (List.getElem_mem hl)]
  dsimp only
  rw [takeWhile_replicate_append 0x31 z hnotone, List.length_replicate, if_neg (by omega),
    List.drop_left' List.length_replicate, hcast, toInt32_of_lt hsize, if_neg (by omega),
    Int.toNat_natCast, List.takeWhile_eq_self_iff.mpr fun c hc => by
      simpa using hspace c (List.mem_append_right _ hc),
    foldlM_decodeBase58Step xs _ hxs]
  simp only [Bind.bind, Option.bind, hrun]
  obtain ⟨b256, length⟩ := st
  rw [List.drop_length]
  dsimp only
  rw [← hlen, reverse_drop_dropWhile (by decide) hst, List.nil_append]
  rfl

/-- Where the buffer size wraps negative, `EncodeBase58` throws. -/
theorem encodeBase58_of_size_neg {z : Nat} {rest : List UInt8} (hrest : rest.head? ≠ some 0)
    (hz : z < 2 ^ 31) (hsize : toInt32 (rest.length * 138 / 100 + 1) < 0) :
    encodeBase58 (List.replicate z 0 ++ rest) = none := by
  unfold encodeBase58
  rw [takeWhile_replicate_append 0 z hrest, List.length_replicate, if_neg (by omega),
    List.drop_left' List.length_replicate]
  dsimp only
  rw [if_pos hsize]
  rfl

/-- Where the buffer size wraps negative, `DecodeBase58` throws. -/
theorem decodeBase58_of_size_neg {z : Nat} {rest : List UInt8} (hs : ∀ c ∈ rest, c ∈ pszBase58)
    (hrest : rest.head? ≠ some 0x31) (hz : z < 2 ^ 31)
    (hsize : toInt32 (rest.length * 733 / 1000 + 1) < 0) :
    decodeBase58 (List.replicate z 0x31 ++ rest) = none := by
  have hspace : ∀ c ∈ List.replicate z 0x31 ++ rest, isSpace c = false := by
    intro c hc
    rcases List.mem_append.mp hc with hc | hc
    · rw [List.eq_of_mem_replicate hc]
      rfl
    · exact isSpace_of_mem_pszBase58 c (hs c hc)
  unfold decodeBase58
  rw [List.dropWhile_eq_self_iff.mpr fun hl => by simpa using hspace _ (List.getElem_mem hl)]
  dsimp only
  rw [takeWhile_replicate_append 0x31 z hrest, List.length_replicate, if_neg (by omega),
    List.drop_left' List.length_replicate, if_pos hsize]
  rfl

/-! ## Round trips -/

/-- Decoding what `EncodeBase58` writes gives the bytes back. -/
theorem decodeBase58String_encodeBase58 {v : List UInt8}
    (hv : v.length * 138 / 100 + 1 < 2 ^ 31) :
    ∃ s, encodeBase58 v = some s ∧ decodeBase58String s = some v := by
  obtain ⟨z, rest, rfl, hrest⟩ := exists_replicate_append 0 v
  rw [List.length_append, List.length_replicate] at hv
  have hbytes : ∀ d ∈ rest.map UInt8.toNat, d < 256 := by
    simp only [List.mem_map]
    rintro d ⟨b, -, rfl⟩
    exact b.toNat_lt
  have hhead : (rest.map UInt8.toNat).head? ≠ some 0 := by
    cases rest with
    | nil => simp
    | cons b rest => simpa [UInt8.ext_iff] using hrest
  -- the number the bytes past the zeros spell, and its base-58 digits
  set N := Nat.ofDigits 256 (rest.map UInt8.toNat).reverse with hN
  have hdigits : ∀ d ∈ (Nat.digits 58 N).reverse, d < 58 :=
    fun d hd => Nat.digits_lt_base (by decide) (List.mem_reverse.mp hd)
  have hlen : (Nat.digits 58 N).reverse.length ≤ rest.length * 138 / 100 + 1 := by
    rw [List.length_reverse, Nat.digits_length_le_iff (by decide)]
    calc N < 256 ^ (rest.map UInt8.toNat).reverse.length :=
          Nat.ofDigits_lt_base_pow_length (by decide) (by simpa using hbytes)
      _ ≤ 58 ^ (rest.length * 138 / 100 + 1) := by simpa using encodeBase58_fits rest.length
  refine ⟨_, encodeBase58_eq hrest (by omega) (by omega), ?_⟩
  rw [decodeBase58String_of_mem (mem_pszBase58_of_encoded hdigits),
    decodeBase58_eq hdigits (head?_reverse_digits_ne_zero 58 N) (by omega) (by omega),
    List.reverse_reverse, Nat.ofDigits_digits, hN, digits_ofDigits_reverse (by decide) hbytes hhead,
    List.map_map]
  have hid : rest.map (UInt8.ofNat ∘ UInt8.toNat) = rest :=
    (List.map_congr_left (g := id) fun _ _ => UInt8.ofNat_toNat).trans (List.map_id _)
  rw [hid]

/-- Encoding what `DecodeBase58` reads from a string of the alphabet gives the string back. -/
theorem encodeBase58_decodeBase58String {s : List UInt8} (hs : ∀ c ∈ s, c ∈ pszBase58)
    (hlen : s.length * 138 / 100 + 1 < 2 ^ 31) :
    ∃ v, decodeBase58String s = some v ∧ encodeBase58 v = some s := by
  obtain ⟨z, rest, rfl, hrest⟩ := exists_replicate_append 0x31 s
  rw [List.length_append, List.length_replicate] at hlen
  have hrest_mem : ∀ c ∈ rest, c ∈ pszBase58 := fun c hc => hs c (List.mem_append_right _ hc)
  -- the values of the characters past the `1`s
  set xs := rest.map fun c => (mapBase58.getD c.toNat (-1)).toInt.toNat with hxs_def
  have hxs : ∀ x ∈ xs, x < 58 := by
    simp only [hxs_def, List.mem_map]
    rintro x ⟨c, hc, rfl⟩
    exact (eq_pszBase58_getD (hrest_mem c hc)).1
  have hchars : xs.map (fun d => pszBase58.getD d 0) = rest := by
    rw [hxs_def, List.map_map]
    exact (List.map_congr_left (g := id) fun c hc => (eq_pszBase58_getD (hrest_mem c hc)).2).trans
      (List.map_id _)
  have hhead : xs.head? ≠ some 0 := by
    cases rest with
    | nil => simp [hxs_def]
    | cons c rest =>
      intro h
      have hc := (eq_pszBase58_getD (hrest_mem c List.mem_cons_self)).2
      simp only [hxs_def, List.map_cons, List.head?_cons, Option.some.injEq] at h
      rw [h] at hc
      exact hrest (by rw [← hc]; rfl)
  -- the number the characters spell, and its bytes
  set M := Nat.ofDigits 58 xs.reverse with hM
  have hbytes : ∀ d ∈ (Nat.digits 256 M).reverse, d < 256 :=
    fun d hd => Nat.digits_lt_base (by decide) (List.mem_reverse.mp hd)
  have hbytes_toNat : ((Nat.digits 256 M).reverse.map UInt8.ofNat).map UInt8.toNat =
      (Nat.digits 256 M).reverse := by
    rw [List.map_map]
    refine (List.map_congr_left (g := id) fun d hd => ?_).trans (List.map_id _)
    rw [Function.comp_apply, UInt8.toNat_ofNat']
    exact Nat.mod_eq_of_lt (hbytes d hd)
  have hbhead : ((Nat.digits 256 M).reverse.map UInt8.ofNat).head? ≠ some 0 := by
    rw [List.head?_map]
    intro h
    obtain ⟨d, hd, hd0⟩ := Option.map_eq_some_iff.mp h
    have hlt := hbytes d (List.mem_of_mem_head? hd)
    have : d = 0 := by simpa [UInt8.ext_iff, Nat.mod_eq_of_lt hlt] using hd0
    exact head?_reverse_digits_ne_zero 256 M (this ▸ hd)
  have hblen : ((Nat.digits 256 M).reverse.map UInt8.ofNat).length ≤ xs.length := by
    rw [List.length_map, List.length_reverse, Nat.digits_length_le_iff (by decide)]
    calc M < 58 ^ xs.reverse.length :=
          Nat.ofDigits_lt_base_pow_length (by decide) (by simpa using hxs)
      _ ≤ 256 ^ xs.length := by
          rw [List.length_reverse]
          exact Nat.pow_le_pow_left (by decide) _
  have hxlen : xs.length = rest.length := List.length_map _
  rw [← hchars] at hs ⊢
  rw [decodeBase58String_of_mem hs, decodeBase58_eq hxs hhead (by omega) (by omega)]
  refine ⟨_, rfl, ?_⟩
  rw [encodeBase58_eq hbhead (by omega) (by omega), hbytes_toNat, List.reverse_reverse,
    Nat.ofDigits_digits, hM, digits_ofDigits_reverse (by decide) hxs hhead]

/-- `DecodeBase58Check` gives back what `EncodeBase58Check` encoded, whatever the hash. -/
theorem decodeBase58CheckString_encodeBase58Check (Hash : List UInt8 → uint256) {v : List UInt8}
    (hv : (v.length + 4) * 138 / 100 + 1 < 2 ^ 31) :
    ∃ s, encodeBase58Check Hash v = some s ∧ decodeBase58CheckString Hash s = some v := by
  obtain ⟨s, henc, hdec⟩ := decodeBase58String_encodeBase58 (v := v ++ encLE 4 (Hash v).toNat)
    (by rw [List.length_append, encLE_length]; exact hv)
  refine ⟨s, henc, ?_⟩
  rw [decodeBase58String] at hdec
  have hlen : (v ++ encLE 4 (Hash v).toNat).length - 4 = v.length := by
    rw [List.length_append, encLE_length, Nat.add_sub_cancel]
  simp only [decodeBase58CheckString, decodeBase58Check, hdec, Bind.bind, Option.bind, hlen,
    List.take_left', List.drop_left']
  simp

theorem base58_round_trip :
    (∀ v : List UInt8, v.length * 138 / 100 + 1 < 2 ^ 31 →
        ∃ s, encodeBase58 v = some s ∧ decodeBase58String s = some v) ∧
      (∀ s : List UInt8, (∀ c ∈ s, c ∈ pszBase58) → s.length * 138 / 100 + 1 < 2 ^ 31 →
        ∃ v, decodeBase58String s = some v ∧ encodeBase58 v = some s) ∧
      ∀ (Hash : List UInt8 → uint256) (v : List UInt8), (v.length + 4) * 138 / 100 + 1 < 2 ^ 31 →
        ∃ s, encodeBase58Check Hash v = some s ∧ decodeBase58CheckString Hash s = some v :=
  ⟨fun _ hv => decodeBase58String_encodeBase58 hv,
    fun _ hs hlen => encodeBase58_decodeBase58String hs hlen,
    fun Hash _ hv => decodeBase58CheckString_encodeBase58Check Hash hv⟩

theorem base58_round_trip_626262 : ∃ s, encodeBase58 [0x62, 0x62, 0x62] = some s ∧
    decodeBase58String s = some [0x62, 0x62, 0x62] :=
  base58_round_trip.1 _ (by decide)

/-- Past `INT_MAX` the buffer size of either direction wraps negative and `std::vector` throws:
`1556147571 * 138 / 100 + 1` and `2929718482 * 733 / 1000 + 1` are both `2 ^ 31`. -/
theorem base58_size_overflow :
    encodeBase58 (List.replicate 1556147571 1) = none ∧
      decodeBase58String (List.replicate 2929718482 0x32) = none := by
  have hhead : ∀ (n : Nat) (c d : UInt8), c ≠ d → (List.replicate n c).head? ≠ some d := by
    intro n c d hcd
    rw [List.head?_replicate]
    split
    · simp
    · simpa using hcd
  constructor
  · have := encodeBase58_of_size_neg (z := 0) (hhead 1556147571 1 0 (by decide)) (by decide)
      (by rw [List.length_replicate]; decide)
    rwa [List.replicate_zero, List.nil_append] at this
  · have hmem : ∀ c ∈ List.replicate 2929718482 (0x32 : UInt8), c ∈ pszBase58 := by
      intro c hc
      rw [List.eq_of_mem_replicate hc]
      decide
    have := decodeBase58_of_size_neg (z := 0) hmem (hhead 2929718482 0x32 0x31 (by decide))
      (by decide) (by rw [List.length_replicate]; decide)
    rwa [List.replicate_zero, List.nil_append, ← decodeBase58String_of_mem hmem] at this

end Emrals
