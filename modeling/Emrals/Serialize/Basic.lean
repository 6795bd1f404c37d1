import Emrals.Lib.Codec
import Emrals.Primitives

/-!
# Serialization of the primitive types

`src/serialize.h` writes an integer little-endian at its width (`ser_writedata32`), a count as a
`CompactSize`, and some integers as a `VarInt`. A blob (`uint256`, `CKeyID`) is its bytes, a
`CService` its 16 address bytes and its port big-endian (`src/netaddress.h:167`), a script its
size and its bytes, and a BLS key its 48 bytes (`src/bls/bls.h:370`). A read throws on a stream
that ends, on a `CompactSize` that is not canonical or above `MAX_SIZE`, and on a `VarInt` too large
for its type; a throw is a failure of the `Reader`.

Two readings depend on more than the bytes. The model keeps C++ `int`s as `Int`, and an `Int`
reads back when it is in the range of `int32_t` (`Int32Range`). A BLS key deserialized into a
`CBLSLazyPublicKey` stands for the key `Get()` decodes from its buffer: none for the all-zero
buffer, and otherwise the key if the BLS library accepts the bytes as the canonical encoding of a
key (`InternalSetBuf`, with `CheckMalleable`), a parameter here.
-/

namespace Emrals

open Codec

/-- `MAX_SIZE` (`src/serialize.h:28`). -/
def MAX_SIZE : Nat := 0x02000000

/-! ## `CompactSize` -/

/-- `WriteCompactSize`. -/
def writeCompactSize (nSize : Nat) : List UInt8 :=
  if nSize < 253 then [UInt8.ofNat nSize]
  else if nSize ≤ 0xFFFF then 253 :: encLE 2 nSize
  else if nSize ≤ 0xFFFFFFFF then 254 :: encLE 4 nSize
  else 255 :: encLE 8 nSize

/-- The size that follows the first byte `chSize` of a `CompactSize`: "non-canonical
ReadCompactSize()" for a size that a shorter form holds. -/
def readCompactSizeValue (chSize : UInt8) : Reader Nat :=
  if chSize < 253 then pure chSize.toNat
  else if chSize = 253 then do
    let n ← readLE 2
    if n < 253 then failure else pure n
  else if chSize = 254 then do
    let n ← readLE 4
    if n < 0x10000 then failure else pure n
  else do
    let n ← readLE 8
    if n < 0x100000000 then failure else pure n

/-- `ReadCompactSize`, with "ReadCompactSize(): size too large" above `MAX_SIZE`. -/
def readCompactSize : Reader Nat := do
  let chSize ← readByte
  let nSizeRet ← readCompactSizeValue chSize
  if nSizeRet > MAX_SIZE then failure else pure nSizeRet

/-- The value of a `CompactSize` that `WriteCompactSize` wrote, below `2 ^ 32`, reads back. -/
theorem readCompactSizeValue_run {n : Nat} (hn : n < 2 ^ 32) (rest : List UInt8) :
    (readByte >>= readCompactSizeValue).run (writeCompactSize n ++ rest) = some (n, rest) := by
  unfold writeCompactSize readCompactSizeValue
  by_cases h1 : n < 253
  · have hb : (UInt8.ofNat n).toNat = n := by rw [UInt8.toNat_ofNat']; omega
    have hlt : UInt8.ofNat n < 253 := by rw [UInt8.lt_iff_toNat_lt, hb]; simpa using h1
    rw [if_pos h1, List.singleton_append, run_bind_of_run (readByte_run _ rest), if_pos hlt, hb]
    rfl
  · by_cases h2 : n ≤ 0xFFFF
    · rw [if_neg h1, if_pos h2, List.cons_append, run_bind_of_run (readByte_run _ _),
        if_neg (by decide), if_pos rfl, run_bind_of_run (readLE_run 2 n rest),
        Nat.mod_eq_of_lt (by omega), if_neg (by omega)]
      rfl
    · rw [if_neg h1, if_neg h2, if_pos (by omega), List.cons_append,
        run_bind_of_run (readByte_run _ _), if_neg (by decide), if_neg (by decide),
        if_pos rfl, run_bind_of_run (readLE_run 4 n rest), Nat.mod_eq_of_lt (by omega),
        if_neg (by omega)]
      rfl

theorem readCompactSize_run {n : Nat} (hn : n ≤ MAX_SIZE) (rest : List UInt8) :
    readCompactSize.run (writeCompactSize n ++ rest) = some (n, rest) := by
  unfold MAX_SIZE at hn
  unfold readCompactSize
  rw [← bind_assoc, run_bind_of_run (readCompactSizeValue_run (by omega) rest),
    if_neg (by unfold MAX_SIZE; omega)]
  rfl

/-- A size past `MAX_SIZE` is "ReadCompactSize(): size too large". -/
theorem readCompactSize_run_of_gt {n : Nat} (hn : MAX_SIZE < n) (hn' : n < 2 ^ 32)
    (rest : List UInt8) : readCompactSize.run (writeCompactSize n ++ rest) = none := by
  unfold readCompactSize
  rw [← bind_assoc, run_bind_of_run (readCompactSizeValue_run hn' rest), if_pos hn]
  rfl

theorem uint8_eq_255 {c : UInt8} (h1 : ¬ c < 253) (h2 : c ≠ 253) (h3 : c ≠ 254) : c = 255 := by
  have hlt := c.toNat_lt
  have hge : 253 ≤ c.toNat := by
    rw [UInt8.lt_iff_toNat_lt] at h1
    exact Nat.le_of_not_lt h1
  have h2' : c.toNat ≠ 253 := fun e => h2 (UInt8.toNat_inj.mp e)
  have h3' : c.toNat ≠ 254 := fun e => h3 (UInt8.toNat_inj.mp e)
  exact UInt8.toNat_inj.mp (by change c.toNat = 255; omega)

/-- Every `CompactSize` value that is read is the one encoding of its value: the first byte fixes
the width, and the "non-canonical" checks refuse a value that a shorter width holds. -/
theorem readCompactSizeValue_eq_some {s rest : List UInt8} {n : Nat}
    (h : (readByte >>= readCompactSizeValue).run s = some (n, rest)) :
    s = writeCompactSize n ++ rest ∧ n < 2 ^ 64 := by
  obtain ⟨chSize, u, hch, h⟩ := run_bind_eq_some h
  rw [readByte_eq_some hch]
  unfold readCompactSizeValue at h
  by_cases h1 : chSize < 253
  · rw [if_pos h1] at h
    obtain ⟨rfl, rfl⟩ := run_pure_eq_some h
    have hlt : chSize.toNat < 253 := (UInt8.lt_iff_toNat_lt).1 h1
    refine ⟨?_, by omega⟩
    rw [writeCompactSize, if_pos hlt, UInt8.ofNat_toNat]
    rfl
  rw [if_neg h1] at h
  by_cases h2 : chSize = 253
  · rw [if_pos h2] at h
    obtain ⟨m, v, hm, hcheck⟩ := run_bind_eq_some h
    obtain ⟨rfl, hmlt⟩ := readLE_eq_some hm
    split at hcheck
    · cases hcheck
    · next hge =>
      obtain ⟨rfl, rfl⟩ := run_pure_eq_some hcheck
      refine ⟨?_, by omega⟩
      rw [writeCompactSize, if_neg hge, if_pos (by omega), h2]
      rfl
  rw [if_neg h2] at h
  by_cases h3 : chSize = 254
  · rw [if_pos h3] at h
    obtain ⟨m, v, hm, hcheck⟩ := run_bind_eq_some h
    obtain ⟨rfl, hmlt⟩ := readLE_eq_some hm
    split at hcheck
    · cases hcheck
    · next hge =>
      obtain ⟨rfl, rfl⟩ := run_pure_eq_some hcheck
      refine ⟨?_, by omega⟩
      rw [writeCompactSize, if_neg (by omega), if_neg (by omega), if_pos (by omega), h3]
      rfl
  -- the remaining first byte is 255, which announces eight bytes
  rw [if_neg h3] at h
  obtain ⟨m, v, hm, hcheck⟩ := run_bind_eq_some h
  obtain ⟨rfl, hmlt⟩ := readLE_eq_some hm
  split at hcheck
  · cases hcheck
  · next hge =>
    obtain ⟨rfl, rfl⟩ := run_pure_eq_some hcheck
    refine ⟨?_, hmlt⟩
    rw [writeCompactSize, if_neg (by omega), if_neg (by omega), if_neg (by omega),
      uint8_eq_255 h1 h2 h3]
    rfl

/-- Every `CompactSize` that `ReadCompactSize` accepts is the canonical encoding of its value. -/
theorem readCompactSize_eq_some {s rest : List UInt8} {n : Nat}
    (h : readCompactSize.run s = some (n, rest)) :
    s = writeCompactSize n ++ rest ∧ n ≤ MAX_SIZE := by
  unfold readCompactSize at h
  rw [← bind_assoc] at h
  obtain ⟨m, u, hm, h⟩ := run_bind_eq_some h
  split at h
  · cases h
  · next hle =>
    obtain ⟨rfl, rfl⟩ := run_pure_eq_some h
    exact ⟨(readCompactSizeValue_eq_some hm).1, Nat.le_of_not_lt hle⟩

/-- A `CompactSize` written at a width that a shorter one holds is "non-canonical". -/
theorem readCompactSize_long_fails {n : Nat} (rest : List UInt8) :
    (n < 253 → readCompactSize.run (253 :: encLE 2 n ++ rest) = none) ∧
      (n < 0x10000 → readCompactSize.run (254 :: encLE 4 n ++ rest) = none) ∧
      (n < 0x100000000 → readCompactSize.run (255 :: encLE 8 n ++ rest) = none) := by
  unfold readCompactSize readCompactSizeValue
  refine ⟨fun hn => ?_, fun hn => ?_, fun hn => ?_⟩
  · rw [List.cons_append, run_bind_of_run (readByte_run _ _), if_neg (by decide), if_pos rfl,
      bind_assoc, run_bind_of_run (readLE_run 2 n rest), Nat.mod_eq_of_lt (by omega),
      if_pos hn]
    rfl
  · rw [List.cons_append, run_bind_of_run (readByte_run _ _), if_neg (by decide),
      if_neg (by decide), if_pos rfl, bind_assoc, run_bind_of_run (readLE_run 4 n rest),
      Nat.mod_eq_of_lt (by omega), if_pos hn]
    rfl
  · rw [List.cons_append, run_bind_of_run (readByte_run _ _), if_neg (by decide),
      if_neg (by decide), if_neg (by decide), bind_assoc, run_bind_of_run (readLE_run 8 n rest),
      Nat.mod_eq_of_lt (by omega), if_pos hn]
    rfl

/-! ## `VarInt` -/

/-- One digit of `WriteVarInt`: the low seven bits, with the `0x80` continuation bit on every
digit but the last one written. -/
def varIntDigit (n : Nat) (cont : Bool) : UInt8 := UInt8.ofNat (n % 128 + if cont then 0x80 else 0)

/-- The loop of `WriteVarInt` from the value `n`: `n`'s own digit comes last, after the digits of
`(n >> 7) - 1` ("one is subtracted from all but the last digit" so that the encoding is
one-to-one). `fuel` bounds the loop; the value itself is enough, as it drops at every digit. -/
def writeVarIntLoop : Nat → Nat → Bool → List UInt8
  | 0, n, cont => [varIntDigit n cont]
  | fuel + 1, n, cont =>
    if n ≤ 0x7F then [varIntDigit n cont]
    else writeVarIntLoop fuel (n / 128 - 1) true ++ [varIntDigit n cont]

/-- `WriteVarInt` of the value `n` of its integer type. -/
def writeVarInt (n : Nat) : List UInt8 := writeVarIntLoop n n false

/-- The loop of `ReadVarInt` for an integer type whose largest value is `maxValue`, from the value
`n` read so far: "ReadVarInt(): size too large" before a digit that would overflow, and on a
continuation from the largest value. -/
def readVarIntLoop (maxValue : Nat) : Nat → List UInt8 → Option (Nat × List UInt8)
  | _, [] => none
  | n, chData :: rest =>
    if n > maxValue / 128 then none
    else if 0x80 ≤ chData.toNat then
      if n * 128 + chData.toNat % 128 = maxValue then none
      else readVarIntLoop maxValue (n * 128 + chData.toNat % 128 + 1) rest
    else some (n * 128 + chData.toNat % 128, rest)

/-- `ReadVarInt` for an integer type whose largest value is `maxValue`. -/
def readVarInt (maxValue : Nat) : Reader Nat := readVarIntLoop maxValue 0

theorem varIntDigit_toNat (n : Nat) (cont : Bool) :
    (varIntDigit n cont).toNat = n % 128 + if cont then 0x80 else 0 := by
  unfold varIntDigit
  rw [UInt8.toNat_ofNat']
  cases cont <;> simp <;> omega

/-- The digits of a value `m` that more digits follow read as `m + 1`, whatever follows. -/
theorem readVarIntLoop_writeVarIntLoop {maxValue : Nat} :
    ∀ (m fuel : Nat), m ≤ fuel → m + 1 ≤ maxValue / 128 → ∀ tail,
      readVarIntLoop maxValue 0 (writeVarIntLoop fuel m true ++ tail) =
        readVarIntLoop maxValue (m + 1) tail := by
  intro m
  induction m using Nat.strong_induction_on with
  | _ m ih =>
    intro fuel hfuel hm tail
    have hd := varIntDigit_toNat m true
    simp only [if_true] at hd
    -- the last digit written, read after the value of the digits before it
    have hlast : ∀ acc, acc * 128 + m % 128 = m → acc ≤ maxValue / 128 →
        readVarIntLoop maxValue acc (varIntDigit m true :: tail) =
          readVarIntLoop maxValue (m + 1) tail := by
      intro acc hacc hle
      rw [readVarIntLoop, if_neg (by omega), if_pos (by omega), if_neg (by omega)]
      congr 1
      omega
    by_cases hsmall : m ≤ 0x7F
    · have hw : writeVarIntLoop fuel m true = [varIntDigit m true] := by
        cases fuel with
        | zero => rfl
        | succ f => rw [writeVarIntLoop, if_pos hsmall]
      rw [hw, List.singleton_append]
      exact hlast 0 (by omega) (Nat.zero_le _)
    · obtain ⟨f, rfl⟩ : ∃ f, fuel = f + 1 := ⟨fuel - 1, by omega⟩
      have hacc : m / 128 - 1 + 1 = m / 128 := by omega
      rw [writeVarIntLoop, if_neg hsmall, List.append_assoc, List.singleton_append,
        ih (m / 128 - 1) (by omega) f (by omega) (by omega), hacc]
      exact hlast (m / 128) (by omega) (by omega)

theorem readVarInt_run {maxValue n : Nat} (hn : n ≤ maxValue) (rest : List UInt8) :
    (readVarInt maxValue).run (writeVarInt n ++ rest) = some (n, rest) := by
  have hd := varIntDigit_toNat n false
  simp only [Bool.false_eq_true, if_false, Nat.add_zero] at hd
  show readVarIntLoop maxValue 0 (writeVarIntLoop n n false ++ rest) = some (n, rest)
  by_cases hsmall : n ≤ 0x7F
  · have hw : writeVarIntLoop n n false = [varIntDigit n false] := by
      cases n with
      | zero => rfl
      | succ f => rw [writeVarIntLoop, if_pos hsmall]
    rw [hw, List.singleton_append, readVarIntLoop, if_neg (by omega), if_neg (by omega)]
    congr 2
    omega
  · obtain ⟨f, rfl⟩ : ∃ f, n = f + 1 := ⟨n - 1, by omega⟩
    have hacc : (f + 1) / 128 - 1 + 1 = (f + 1) / 128 := by omega
    rw [writeVarIntLoop, if_neg hsmall, List.append_assoc, List.singleton_append,
      readVarIntLoop_writeVarIntLoop ((f + 1) / 128 - 1) f (by omega) (by omega), hacc,
      readVarIntLoop, if_neg (by omega), if_neg (by omega)]
    congr 2
    omega

/-- The loop of `GetSizeOfVarInt`: `nRet` counts the digits, from the value `n`, with the fuel of
`writeVarIntLoop`. -/
def getSizeOfVarIntLoop : Nat → Nat → Nat → Nat
  | 0, _, nRet => nRet + 1
  | fuel + 1, n, nRet =>
    if n ≤ 0x7F then nRet + 1 else getSizeOfVarIntLoop fuel (n / 128 - 1) (nRet + 1)

/-- `GetSizeOfVarInt`. -/
def getSizeOfVarInt (n : Nat) : Nat := getSizeOfVarIntLoop n n 0

theorem getSizeOfVarIntLoop_eq : ∀ (fuel n nRet : Nat) (cont : Bool),
    getSizeOfVarIntLoop fuel n nRet = nRet + (writeVarIntLoop fuel n cont).length
  | 0, _, _, _ => rfl
  | fuel + 1, n, nRet, cont => by
    rw [getSizeOfVarIntLoop, writeVarIntLoop]
    split
    · rfl
    · rw [getSizeOfVarIntLoop_eq fuel _ _ true, List.length_append, List.length_singleton]
      omega

/-- `GetSizeOfVarInt` counts the bytes that `WriteVarInt` writes. -/
theorem getSizeOfVarInt_eq (n : Nat) : getSizeOfVarInt n = (writeVarInt n).length := by
  rw [getSizeOfVarInt, getSizeOfVarIntLoop_eq n n 0 false, writeVarInt, Nat.zero_add]

/-- The loop's fuel is enough from the value on: more fuel writes the same digits. -/
theorem writeVarIntLoop_fuel : ∀ (n fuel : Nat) (cont : Bool), n ≤ fuel →
    writeVarIntLoop fuel n cont = writeVarIntLoop n n cont := by
  intro n
  induction n using Nat.strong_induction_on with
  | _ n ih =>
    intro fuel cont hfuel
    by_cases hsmall : n ≤ 0x7F
    · -- one digit, whatever the fuel
      have hone : ∀ f, writeVarIntLoop f n cont = [varIntDigit n cont] := by
        intro f
        cases f with
        | zero => rfl
        | succ f => rw [writeVarIntLoop, if_pos hsmall]
      rw [hone fuel, hone n]
    · obtain ⟨f, rfl⟩ : ∃ f, fuel = f + 1 := ⟨fuel - 1, by omega⟩
      obtain ⟨g, rfl⟩ : ∃ g, n = g + 1 := ⟨n - 1, by omega⟩
      have hm : (g + 1) / 128 - 1 < g + 1 := by omega
      rw [writeVarIntLoop, writeVarIntLoop, if_neg hsmall, if_neg hsmall,
        ih _ hm f true (by omega), ih _ hm g true (by omega)]

/-- The digits written before the last one, for a value whose leading digits read as `acc`: none
for `acc = 0`, and otherwise the digits of `acc - 1`, all with the continuation bit. -/
def varIntLead : Nat → List UInt8
  | 0 => []
  | acc + 1 => writeVarIntLoop acc acc true

/-- The unfolding of the writer that proofs use: the digits of `n / 128` as leading digits, then
the last digit of `n`. -/
theorem writeVarIntLoop_self (n : Nat) (cont : Bool) :
    writeVarIntLoop n n cont = varIntLead (n / 128) ++ [varIntDigit n cont] := by
  by_cases hsmall : n ≤ 0x7F
  · have hzero : n / 128 = 0 := by omega
    rw [hzero, varIntLead, List.nil_append]
    cases n with
    | zero => rfl
    | succ f => rw [writeVarIntLoop, if_pos hsmall]
  · obtain ⟨g, rfl⟩ : ∃ g, n = g + 1 := ⟨n - 1, by omega⟩
    obtain ⟨a, ha⟩ : ∃ a, (g + 1) / 128 = a + 1 := ⟨(g + 1) / 128 - 1, by omega⟩
    rw [writeVarIntLoop, if_neg hsmall, ha, varIntLead, Nat.add_sub_cancel,
      writeVarIntLoop_fuel a g true (by omega)]

/-- A value below `128 ^ (k + 1)` has at most `k + 1` digits. -/
theorem length_writeVarIntLoop_le (cont : Bool) : ∀ (k n : Nat), n < 128 ^ (k + 1) →
    (writeVarIntLoop n n cont).length ≤ k + 1
  | 0, n, hn => by
    rw [writeVarIntLoop_self, show n / 128 = 0 by omega]
    simp [varIntLead]
  | k + 1, n, hn => by
    rw [writeVarIntLoop_self, List.length_append, List.length_singleton]
    cases hq : n / 128 with
    | zero => simp [varIntLead]
    | succ a =>
      have ha : a < 128 ^ (k + 1) := by
        rw [Nat.pow_succ] at hn
        omega
      have := length_writeVarIntLoop_le true k a ha
      rw [varIntLead]
      omega

/-- `WriteVarInt`'s buffer `tmp[(sizeof(n)*8+6)/7]` holds every value of a type of `w` bits. -/
theorem length_writeVarInt_le {w n : Nat} (hw : 0 < w) (hn : n < 2 ^ w) :
    (writeVarInt n).length ≤ (w + 6) / 7 := by
  obtain ⟨k, hk⟩ : ∃ k, (w + 6) / 7 = k + 1 := ⟨(w + 6) / 7 - 1, by omega⟩
  have hpow : 2 ^ w ≤ 128 ^ (k + 1) := by
    rw [show (128 : Nat) = 2 ^ 7 from rfl, ← Nat.pow_mul]
    exact Nat.pow_le_pow_right (by decide) (by omega)
  rw [hk]
  exact length_writeVarIntLoop_le false k n (by omega)

/-- A digit read back: the digit of a value with the byte's low seven bits, and the continuation
bit that the byte has. -/
theorem varIntDigit_eq {b : UInt8} {m : Nat} {cont : Bool} (hm : m % 128 = b.toNat % 128)
    (hc : cont = true ↔ 0x80 ≤ b.toNat) : varIntDigit m cont = b := by
  apply UInt8.toNat_inj.mp
  rw [varIntDigit_toNat]
  have := b.toNat_lt
  cases cont
  · simp only [Bool.false_eq_true, false_iff, Nat.not_le] at hc
    simp only [Bool.false_eq_true, if_false]
    omega
  · simp only [true_iff] at hc
    simp only [if_true]
    omega

/-- A byte below `0x80` is the `VarInt` of its value. -/
theorem writeVarInt_toNat {b : UInt8} (hb : b.toNat ≤ 0x7F) : writeVarInt b.toNat = [b] := by
  rw [writeVarInt, writeVarIntLoop_self, show b.toNat / 128 = 0 by omega, varIntLead,
    List.nil_append, varIntDigit_eq rfl (by simp; omega)]

/-- Every string that `ReadVarInt` accepts is the encoding of the value read: the digits before
it, as `varIntLead` of what was read so far, and the bytes read are `WriteVarInt`'s. The
induction is on the bytes; each digit read is the last digit of the value read so far. -/
theorem readVarIntLoop_eq_some {maxValue : Nat} : ∀ {acc n : Nat} {s rest : List UInt8},
    readVarIntLoop maxValue acc s = some (n, rest) → varIntLead acc ++ s = writeVarInt n ++ rest
  | _, _, [], _, h => by cases h
  | acc, n, b :: s, rest, h => by
    have hdiv : (acc * 128 + b.toNat % 128) / 128 = acc := by omega
    have hmod : (acc * 128 + b.toNat % 128) % 128 = b.toNat % 128 := by omega
    unfold readVarIntLoop at h
    split at h
    · cases h
    split at h
    · next hcont =>
      split at h
      · cases h
      · -- a continuation digit: it is the last digit of the value read so far
        rw [← readVarIntLoop_eq_some h, varIntLead, writeVarIntLoop_self, hdiv,
          varIntDigit_eq hmod (by simp [hcont]), List.append_assoc, List.singleton_append]
    · next hfin =>
      -- the last digit, without the continuation bit
      obtain ⟨rfl, rfl⟩ := Prod.mk.inj (Option.some.inj h)
      rw [writeVarInt, writeVarIntLoop_self, hdiv, varIntDigit_eq hmod (by simp [hfin]),
        List.append_assoc, List.singleton_append]

/-- What `ReadVarInt` reads is below the largest value with one more digit than
`maxValue / 128`. -/
theorem readVarIntLoop_le {maxValue : Nat} : ∀ {acc n : Nat} {s rest : List UInt8},
    readVarIntLoop maxValue acc s = some (n, rest) → n ≤ maxValue / 128 * 128 + 127
  | _, _, [], _, h => by cases h
  | acc, n, b :: s, rest, h => by
    unfold readVarIntLoop at h
    split at h
    · cases h
    · next hacc =>
      split at h
      · split at h
        · cases h
        · exact readVarIntLoop_le h
      · obtain ⟨rfl, rfl⟩ := Prod.mk.inj (Option.some.inj h)
        have := Nat.mod_lt b.toNat (show 0 < 128 by decide)
        have hle : acc * 128 ≤ maxValue / 128 * 128 := Nat.mul_le_mul_right 128 (by omega)
        omega

/-- `ReadVarInt` for a type of `w ≥ 7` bits reads values of the type, and every string it accepts
is the one encoding of the value read. -/
theorem readVarInt_eq_some {w n : Nat} {s rest : List UInt8} (hw : 7 ≤ w)
    (h : (readVarInt (2 ^ w - 1)).run s = some (n, rest)) :
    n < 2 ^ w ∧ s = writeVarInt n ++ rest := by
  have hpow : 2 ^ w = 2 ^ (w - 7) * 128 := by
    rw [show (128 : Nat) = 2 ^ 7 from rfl, ← Nat.pow_add, Nat.sub_add_cancel hw]
  have hpos := Nat.two_pow_pos (w - 7)
  have hmax : (2 ^ w - 1) / 128 = 2 ^ (w - 7) - 1 := by omega
  have hle := readVarIntLoop_le h
  rw [hmax] at hle
  refine ⟨?_, by simpa [varIntLead] using readVarIntLoop_eq_some h⟩
  have : (2 ^ (w - 7) - 1) * 128 = 2 ^ (w - 7) * 128 - 128 := Nat.sub_one_mul _ _
  omega

/-- The integer encodings are bijective. For an unsigned type of `w` bits, a `VarInt` of every
value reads back, `GetSizeOfVarInt` counts its bytes, which fit `WriteVarInt`'s buffer, and every
string that `ReadVarInt` accepts is the encoding of the value read. A `CompactSize` up to
`MAX_SIZE` reads back, every accepted one is canonical, and one longer than its value needs is
refused. -/
theorem integer_encodings_bijective (w : Nat) (hw : 8 ≤ w) :
    (∀ n, n < 2 ^ w → ∀ rest,
      (readVarInt (2 ^ w - 1)).run (writeVarInt n ++ rest) = some (n, rest) ∧
        getSizeOfVarInt n = (writeVarInt n).length ∧ (writeVarInt n).length ≤ (w + 6) / 7) ∧
    (∀ s n rest, (readVarInt (2 ^ w - 1)).run s = some (n, rest) →
      n < 2 ^ w ∧ s = writeVarInt n ++ rest) ∧
    (∀ n, n ≤ MAX_SIZE → ∀ rest, readCompactSize.run (writeCompactSize n ++ rest) = some (n, rest)) ∧
    (∀ s n rest, readCompactSize.run s = some (n, rest) → s = writeCompactSize n ++ rest) ∧
    (∀ n rest, (n < 253 → readCompactSize.run (253 :: encLE 2 n ++ rest) = none) ∧
      (n < 0x10000 → readCompactSize.run (254 :: encLE 4 n ++ rest) = none) ∧
      (n < 0x100000000 → readCompactSize.run (255 :: encLE 8 n ++ rest) = none)) := by
  refine ⟨fun n hn rest => ⟨readVarInt_run (by omega) rest, getSizeOfVarInt_eq n,
      length_writeVarInt_le (by omega) hn⟩,
    fun s n rest h => readVarInt_eq_some (by omega) h,
    fun n hn rest => readCompactSize_run hn rest,
    fun s n rest h => (readCompactSize_eq_some h).1,
    fun n rest => readCompactSize_long_fails rest⟩

/-- For `uint64_t`, `16511` is written in two bytes and read back. -/
theorem integer_encodings_uint64 :
    (readVarInt (2 ^ 64 - 1)).run (writeVarInt 16511 ++ []) = some (16511, []) ∧
      getSizeOfVarInt 16511 = 2 :=
  let h := (integer_encodings_bijective 64 (by decide)).1 16511 (by decide) []
  ⟨h.1, h.2.1.trans (by decide)⟩

/-! ## Integers of a fixed width -/

/-- The range of `int32_t`, in which a C++ `int` the model keeps as an `Int` lies. -/
def Int32Range (x : Int) : Prop := -2 ^ 31 ≤ x ∧ x < 2 ^ 31

instance (x : Int) : Decidable (Int32Range x) := inferInstanceAs (Decidable (_ ∧ _))

/-- `Serialize(int)`: `ser_writedata32` of the value as a `uint32_t`. -/
def writeInt32 (x : Int) : List UInt8 := encLE 4 (x % 2 ^ 32).toNat

/-- `Unserialize(int)`: the `uint32_t` `ser_readdata32` reads, as an `int`. -/
def readInt32 : Reader Int := do
  let n ← readLE 4
  pure (if n < 2 ^ 31 then (n : Int) else n - 2 ^ 32)

theorem readInt32_run {x : Int} (hx : Int32Range x) (rest : List UInt8) :
    readInt32.run (writeInt32 x ++ rest) = some (x, rest) := by
  unfold readInt32 writeInt32
  rw [run_bind_of_run (readLE_run 4 _ rest)]
  obtain ⟨hlo, hhi⟩ := hx
  have hmod : (x % 2 ^ 32).toNat % 2 ^ (8 * 4) = (x % 2 ^ 32).toNat := by
    apply Nat.mod_eq_of_lt
    omega
  -- the two halves of the `uint32_t` range are the non-negative and the negative `int`s
  have hval : (if (x % 2 ^ 32).toNat < 2 ^ 31 then ((x % 2 ^ 32).toNat : Int)
      else (x % 2 ^ 32).toNat - 2 ^ 32) = x := by
    split <;> omega
  rw [hmod, run_pure, hval]

/-- `ser_writedata16` of a `uint16_t`. -/
def writeUInt16 (x : UInt16) : List UInt8 := encLE 2 x.toNat

/-- `ser_readdata16`. -/
def readUInt16 : Reader UInt16 := do
  let n ← readLE 2
  pure (UInt16.ofNat n)

theorem readUInt16_run (x : UInt16) (rest : List UInt8) :
    readUInt16.run (writeUInt16 x ++ rest) = some (x, rest) := by
  unfold readUInt16 writeUInt16
  rw [run_bind_of_run (readLE_run 2 _ rest), Nat.mod_eq_of_lt x.toNat_lt, UInt16.ofNat_toNat]
  rfl

/-- `ser_writedata32` of a `uint32_t`. -/
def writeUInt32 (x : UInt32) : List UInt8 := encLE 4 x.toNat

/-- `ser_readdata32`. -/
def readUInt32 : Reader UInt32 := do
  let n ← readLE 4
  pure (UInt32.ofNat n)

theorem readUInt32_run (x : UInt32) (rest : List UInt8) :
    readUInt32.run (writeUInt32 x ++ rest) = some (x, rest) := by
  unfold readUInt32 writeUInt32
  rw [run_bind_of_run (readLE_run 4 _ rest), Nat.mod_eq_of_lt x.toNat_lt, UInt32.ofNat_toNat]
  rfl

/-! ## Blobs, outpoints, addresses and scripts -/

/-- A bit vector reads back from its number modulo its range. -/
theorem bitVec_ofNat_toNat_mod {w : Nat} (v : BitVec w) : BitVec.ofNat w (v.toNat % 2 ^ w) = v := by
  simp

/-- `base_blob::Serialize`: the 32 bytes `data`. -/
def uint256.serialize (h : uint256) : List UInt8 := h.data

/-- `base_blob::Unserialize`. -/
def uint256.unserialize : Reader uint256 := do
  let n ← readLE 32
  pure (BitVec.ofNat 256 n)

theorem uint256.unserialize_run (h : uint256) (rest : List UInt8) :
    uint256.unserialize.run (h.serialize ++ rest) = some (h, rest) := by
  unfold uint256.unserialize uint256.serialize uint256.data blobData
  rw [run_bind_of_run (readLE_run 32 _ rest)]
  exact congrArg (fun v => some (v, rest)) (bitVec_ofNat_toNat_mod (w := 256) h)

/-- `base_blob::Serialize` of a key id: its 20 bytes `data`. -/
def CKeyID.serialize (k : CKeyID) : List UInt8 := k.data

/-- `base_blob::Unserialize` of a key id. -/
def CKeyID.unserialize : Reader CKeyID := do
  let n ← readLE 20
  pure (BitVec.ofNat 160 n)

theorem CKeyID.unserialize_run (k : CKeyID) (rest : List UInt8) :
    CKeyID.unserialize.run (k.serialize ++ rest) = some (k, rest) := by
  unfold CKeyID.unserialize CKeyID.serialize CKeyID.data blobData
  rw [run_bind_of_run (readLE_run 20 _ rest)]
  exact congrArg (fun v => some (v, rest)) (bitVec_ofNat_toNat_mod (w := 160) k)

/-- `COutPoint`: the hash, then the index. -/
def COutPoint.serialize (o : COutPoint) : List UInt8 := o.hash.serialize ++ writeUInt32 o.n

def COutPoint.unserialize : Reader COutPoint := do
  let hash ← uint256.unserialize
  let n ← readUInt32
  pure ⟨hash, n⟩

theorem COutPoint.unserialize_run (o : COutPoint) (rest : List UInt8) :
    COutPoint.unserialize.run (o.serialize ++ rest) = some (o, rest) := by
  unfold COutPoint.unserialize COutPoint.serialize
  rw [List.append_assoc, run_bind_of_run (uint256.unserialize_run _ _),
    run_bind_of_run (readUInt32_run _ _)]
  rfl

/-- `CService`: the 16 bytes of the address, then the port big-endian. -/
def CService.serialize (a : CService) : List UInt8 := encBE 16 a.ip.toNat ++ encBE 2 a.port.toNat

def CService.unserialize : Reader CService := do
  let ip ← readBE 16
  let port ← readBE 2
  pure ⟨BitVec.ofNat 128 ip, UInt16.ofNat port⟩

theorem CService.unserialize_run (a : CService) (rest : List UInt8) :
    CService.unserialize.run (a.serialize ++ rest) = some (a, rest) := by
  unfold CService.unserialize CService.serialize
  rw [List.append_assoc, run_bind_of_run (readBE_run 16 _ _), run_bind_of_run (readBE_run 2 _ _),
    Nat.mod_eq_of_lt a.ip.isLt, Nat.mod_eq_of_lt a.port.toNat_lt, BitVec.ofNat_toNat,
    BitVec.setWidth_eq, UInt16.ofNat_toNat]
  rfl

/-- A `CScript`: its size, then its bytes. -/
def CScript.serialize (s : CScript) : List UInt8 := writeCompactSize s.length ++ s

def CScript.unserialize : Reader CScript := do
  let n ← readCompactSize
  readBytes n

theorem CScript.unserialize_run {s : CScript} (hs : s.length ≤ MAX_SIZE) (rest : List UInt8) :
    CScript.unserialize.run (CScript.serialize s ++ rest) = some (s, rest) := by
  unfold CScript.unserialize CScript.serialize
  rw [List.append_assoc, run_bind_of_run (readCompactSize_run hs _), readBytes_run]

/-! ## BLS keys -/

/-- `CBLSLazyWrapper::Serialize`: the 48 bytes of the key, all zero for the invalid key. -/
def CBLSPublicKey.serialize (k : CBLSPublicKey) : List UInt8 := encBE 48 ((k.map BitVec.toNat).getD 0)

section
variable (InternalSetBuf : BitVec 384 → Bool)

/-- `CBLSLazyWrapper::Unserialize`, as the key `Get()` then decodes: the all-zero buffer is the
invalid key (`SetBuf`), and other bytes are the key they encode if the library accepts them. -/
def CBLSPublicKey.unserialize : Reader CBLSPublicKey := do
  let n ← readBE 48
  let buf : BitVec 384 := BitVec.ofNat 384 n
  pure (if buf = 0 then none else if InternalSetBuf buf then some buf else none)

/-- A key that reads back: the invalid key, or a valid key whose encoding is not zero and which
the library decodes. -/
def CBLSPublicKey.Encodes (k : CBLSPublicKey) : Prop :=
  ∀ b, k = some b → b ≠ 0 ∧ InternalSetBuf b = true

instance (k : CBLSPublicKey) : Decidable (k.Encodes InternalSetBuf) :=
  decidable_of_iff (k.all fun b => b != 0 && InternalSetBuf b) (by
    cases k <;> simp [CBLSPublicKey.Encodes])

theorem CBLSPublicKey.unserialize_run {k : CBLSPublicKey} (hk : k.Encodes InternalSetBuf)
    (rest : List UInt8) :
    (CBLSPublicKey.unserialize InternalSetBuf).run (k.serialize ++ rest) = some (k, rest) := by
  unfold CBLSPublicKey.unserialize CBLSPublicKey.serialize
  rw [run_bind_of_run (readBE_run 48 _ _), run_pure]
  cases k with
  | none =>
    rw [if_pos (by simp only [Option.map_none, Option.getD_none, Nat.zero_mod]; rfl)]
  | some b =>
    obtain ⟨hb0, hbuf⟩ := hk b rfl
    have hb : BitVec.ofNat 384 (b.toNat % 2 ^ (8 * 48)) = b := by
      rw [show 8 * 48 = 384 from rfl]
      exact bitVec_ofNat_toNat_mod b
    simp only [Option.map_some, Option.getD_some, hb, if_neg hb0, hbuf, if_true]

end

end Emrals
