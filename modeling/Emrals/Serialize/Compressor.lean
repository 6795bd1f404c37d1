import Emrals.Serialize.Basic
import Emrals.Script.Standard

/-!
# Compressed outputs, coins and undo records

The UTXO database stores an output compressed (`src/compressor.h`, `src/compressor.cpp`). Its
amount is `CompressAmount`ed: the trailing zeros as an exponent `e` up to nine, then the last
digit and the rest in a mixed radix. `DecompressAmount` inverts it on every amount below `2 ^ 60`
(`decompressAmount_compressAmount`), far above `MAX_MONEY`, and `CompressAmount` inverts
`DecompressAmount` on every code whose amount stays below `2 ^ 64`
(`compressAmount_decompressAmount`).

Its script is one of six special forms (`CompressScript`): a key hash, a script hash, or a public
key with the `0x02` or `0x03` prefix, or with `0x04` if the key is fully valid, which is stored as
its x-coordinate and the parity of its y-coordinate. Any other script is its size plus six and its
bytes. The point decompression of secp256k1 is a parameter, and `DecompressCorrect` is what the
round trip assumes of it (`CScriptCompressor.unserialize_run`).

A `Coin` is stored as `VARINT(nHeight * 2 + fCoinBase)`, the compressed output and a `VARINT` of
the coinstake flag; an undo record as `VARINT(nHeight * 4 + fCoinBase + 2 * fCoinStake)`, a dummy
zero byte after a height above zero, and the compressed output. The height is a bit-field of 31
bits, and the products are computed in `int`, to which such a bit-field promotes: a `Coin` with a
height of `2 ^ 30` or more, and an undo record with a height of `2 ^ 29` or more, overflow, which
C++ leaves undefined. Below those heights both round trip (`Coin.unserialize_run`,
`txInUndoUnserialize_run`).
-/

namespace Emrals

open Codec

/-! ## Amounts -/

/-- The loop of `CompressAmount`: the amount divided by ten while its last digit is zero and
`e < 9`, with the count `e`. The fuel is the nine divisions that `e < 9` allows. -/
def compressAmountLoop : Nat → Nat → Nat → Nat × Nat
  | 0, n, e => (n, e)
  | fuel + 1, n, e =>
    if n % 10 = 0 ∧ e < 9 then compressAmountLoop fuel (n / 10) (e + 1) else (n, e)

/-- `CompressAmount`, in `uint64_t` arithmetic. Its `assert(d >= 1 && d <= 9)` holds: the loop
stops below nine divisions only at a non-zero last digit (`compressAmountLoop_spec`). -/
def compressAmount (n : Nat) : Nat :=
  if n = 0 then 0
  else
    match compressAmountLoop 9 n 0 with
    | (n, e) =>
      if e < 9 then
        let d := n % 10
        let n := n / 10
        (1 + (n * 9 + d - 1) * 10 + e) % 2 ^ 64
      else (1 + (n - 1) * 10 + 9) % 2 ^ 64

/-- `DecompressAmount`'s `n` before its loop, from `x = 9 * n + d - 1` when `e < 9` and
`x = n - 1` otherwise. For a `uint64_t` code both stay below `2 ^ 64`. -/
def decompressMantissa (e x : Nat) : Nat :=
  if e < 9 then
    let d := x % 9 + 1
    let x := x / 9
    x * 10 + d
  else x + 1

/-- The loop of `DecompressAmount`: `n *= 10`, `e` times, in `uint64_t`. -/
def mulTenLoop : Nat → Nat → Nat
  | 0, n => n
  | e + 1, n => mulTenLoop e (n * 10 % 2 ^ 64)

/-- `DecompressAmount`. -/
def decompressAmount (x : Nat) : Nat :=
  if x = 0 then 0
  else
    let x := x - 1
    let e := x % 10
    let x := x / 10
    mulTenLoop e (decompressMantissa e x)

/-- The amount that a code stands for, in unbounded arithmetic: `DecompressAmount` without the cut
of its products to 64 bits. -/
def decompressAmountValue (x : Nat) : Nat :=
  if x = 0 then 0 else decompressMantissa ((x - 1) % 10) ((x - 1) / 10) * 10 ^ ((x - 1) % 10)

theorem mulTenLoop_eq : ∀ (e n : Nat), mulTenLoop e (n % 2 ^ 64) = n * 10 ^ e % 2 ^ 64
  | 0, n => by rw [mulTenLoop, Nat.pow_zero, Nat.mul_one]
  | e + 1, n => by
    rw [mulTenLoop, Nat.mod_mul_mod, mulTenLoop_eq e, Nat.pow_succ 10 e, Nat.mul_assoc,
      Nat.mul_comm 10 (10 ^ e)]

/-- On a `uint64_t` code, `DecompressAmount` is the amount the code stands for, modulo `2 ^ 64`. -/
theorem decompressAmount_eq_value {x : Nat} (hx : x < 2 ^ 64) :
    decompressAmount x = decompressAmountValue x % 2 ^ 64 := by
  unfold decompressAmount decompressAmountValue
  split
  · rfl
  · have hm : decompressMantissa ((x - 1) % 10) ((x - 1) / 10) < 2 ^ 64 := by
      simp only [decompressMantissa]
      split <;> omega
    rw [← mulTenLoop_eq, Nat.mod_eq_of_lt hm]

/-- What the loop of `CompressAmount` leaves: a non-zero `m` with `m * 10 ^ e' = n`, where it
stopped at a non-zero last digit unless it ran all nine divisions. -/
theorem compressAmountLoop_spec : ∀ (fuel n e : Nat), 0 < n → e + fuel = 9 → ∀ m e',
    compressAmountLoop fuel n e = (m, e') →
      0 < m ∧ m * 10 ^ (e' - e) = n ∧ e ≤ e' ∧ e' ≤ 9 ∧ (e' < 9 → m % 10 ≠ 0)
  | 0, n, e, hn, hfuel, m, e', h => by
    obtain ⟨rfl, rfl⟩ := Prod.mk.inj h
    refine ⟨hn, by rw [Nat.sub_self, Nat.pow_zero, Nat.mul_one], le_refl _, by omega,
      by omega⟩
  | fuel + 1, n, e, hn, hfuel, m, e', h => by
    rw [compressAmountLoop] at h
    split at h
    · next hz =>
      -- one more trailing zero: the rest is the loop from `n / 10`
      obtain ⟨hm, hprod, hle, h9, hdigit⟩ :=
        compressAmountLoop_spec fuel (n / 10) (e + 1) (by omega) (by omega) m e' h
      refine ⟨hm, ?_, by omega, h9, hdigit⟩
      calc m * 10 ^ (e' - e) = m * 10 ^ (e' - (e + 1)) * 10 := by
            rw [Nat.mul_assoc, ← Nat.pow_succ, Nat.succ_eq_add_one,
              show e' - (e + 1) + 1 = e' - e by omega]
        _ = n := by rw [hprod]; omega
    · next hstop =>
      obtain ⟨rfl, rfl⟩ := Prod.mk.inj h
      refine ⟨hn, by rw [Nat.sub_self, Nat.pow_zero, Nat.mul_one], le_refl _, by omega, ?_⟩
      intro he
      exact fun h0 => hstop ⟨h0, he⟩

/-- The loop on `m * 10 ^ k` takes off the `k` zeros when `m` ends in a non-zero digit, or when
they are all the divisions it has left. -/
theorem compressAmountLoop_mul_pow : ∀ (k fuel m e : Nat), k ≤ fuel → e + fuel = 9 →
    (m % 10 ≠ 0 ∨ k = fuel) → compressAmountLoop fuel (m * 10 ^ k) e = (m, e + k)
  | 0, 0, m, e, _, _, _ => by rw [Nat.pow_zero, Nat.mul_one]; rfl
  | 0, fuel + 1, m, e, _, _, hstop => by
    have hm : m % 10 ≠ 0 := by omega
    rw [Nat.pow_zero, Nat.mul_one, compressAmountLoop, if_neg (fun h => hm h.1), Nat.add_zero]
  | k + 1, 0, _, _, hk, _, _ => absurd hk (by omega)
  | k + 1, fuel + 1, m, e, hk, hfuel, hstop => by
    have hz : m * 10 ^ (k + 1) % 10 = 0 := by
      rw [Nat.pow_succ, ← Nat.mul_assoc]
      exact Nat.mul_mod_left _ _
    have hdiv : m * 10 ^ (k + 1) / 10 = m * 10 ^ k := by
      rw [Nat.pow_succ, ← Nat.mul_assoc]
      exact Nat.mul_div_cancel _ (by decide)
    rw [compressAmountLoop, if_pos ⟨hz, by omega⟩, hdiv,
      compressAmountLoop_mul_pow k fuel m (e + 1) (by omega) (by omega) (by omega),
      Nat.add_assoc, Nat.add_comm 1 k]

/-- The code `CompressAmount` writes for `m * 10 ^ e`, with the last digit `m % 10` when
`e < 9`. -/
def amountCode (m e : Nat) : Nat :=
  if e < 9 then 1 + (m / 10 * 9 + m % 10 - 1) * 10 + e else 1 + (m - 1) * 10 + 9

theorem compressAmount_eq {n m e : Nat} (h0 : n ≠ 0) (hloop : compressAmountLoop 9 n 0 = (m, e)) :
    compressAmount n = amountCode m e % 2 ^ 64 := by
  unfold compressAmount amountCode
  rw [if_neg h0, hloop]
  by_cases he : e < 9
  · simp only [if_pos he]
  · simp only [if_neg he]

theorem decompressAmount_of_ne_zero {x : Nat} (h0 : x ≠ 0) :
    decompressAmount x =
      mulTenLoop ((x - 1) % 10) (decompressMantissa ((x - 1) % 10) ((x - 1) / 10)) := by
  rw [decompressAmount, if_neg h0]

theorem mulTenLoop_of_lt {n : Nat} (e : Nat) (hn : n < 2 ^ 64) :
    mulTenLoop e n = n * 10 ^ e % 2 ^ 64 := by
  rw [← mulTenLoop_eq, Nat.mod_eq_of_lt hn]

/-- The code of `m * 10 ^ e` gives back its exponent and its mantissa. -/
theorem decompressMantissa_amountCode {m e : Nat} (hm : 0 < m) (h9 : e ≤ 9)
    (hdigit : e < 9 → m % 10 ≠ 0) :
    (amountCode m e - 1) % 10 = e ∧ decompressMantissa e ((amountCode m e - 1) / 10) = m := by
  unfold amountCode decompressMantissa
  by_cases he : e < 9
  · have := hdigit he
    simp only [if_pos he]
    omega
  · simp only [if_neg he]
    omega

/-- The code of a mantissa that `DecompressAmount` forms is the one it was formed from. -/
theorem amountCode_decompressMantissa {e : Nat} (q : Nat) (h9 : e ≤ 9) :
    amountCode (decompressMantissa e q) e = 1 + q * 10 + e := by
  unfold amountCode decompressMantissa
  by_cases he : e < 9
  · simp only [if_pos he]
    omega
  · simp only [if_neg he]
    omega

/-- `DecompressAmount` inverts `CompressAmount` on every amount below `2 ^ 60`. -/
theorem decompressAmount_compressAmount {n : Nat} (hn : n < 2 ^ 60) :
    decompressAmount (compressAmount n) = n := by
  by_cases h0 : n = 0
  · subst h0
    rfl
  obtain ⟨m, e, hloop⟩ : ∃ m e, compressAmountLoop 9 n 0 = (m, e) := ⟨_, _, rfl⟩
  obtain ⟨hm, hprod, -, h9, hdigit⟩ :=
    compressAmountLoop_spec 9 n 0 (by omega) rfl m e hloop
  rw [Nat.sub_zero] at hprod
  have hmle : m ≤ n := by
    rw [← hprod]
    exact Nat.le_mul_of_pos_right m (Nat.pow_pos (by decide))
  -- the code is at most about nine times the amount, so it is not cut to 64 bits
  have hcode : amountCode m e < 2 ^ 64 := by
    unfold amountCode
    split <;> omega
  have hcode0 : amountCode m e ≠ 0 := by
    unfold amountCode
    split <;> omega
  have hm64 : m < 2 ^ 64 := by omega
  obtain ⟨hmod, hmant⟩ := decompressMantissa_amountCode hm h9 hdigit
  rw [compressAmount_eq h0 hloop, Nat.mod_eq_of_lt hcode, decompressAmount_of_ne_zero hcode0,
    hmod, hmant, mulTenLoop_of_lt e hm64, hprod]
  omega

/-- `CompressAmount` inverts `DecompressAmount` on every `uint64_t` code whose amount stays below
`2 ^ 64`. -/
theorem compressAmount_decompressAmount {x : Nat} (hx : x < 2 ^ 64)
    (hfit : decompressAmountValue x < 2 ^ 64) : compressAmount (decompressAmount x) = x := by
  rw [decompressAmount_eq_value hx, Nat.mod_eq_of_lt hfit]
  by_cases h0 : x = 0
  · subst h0
    rfl
  unfold decompressAmountValue
  rw [if_neg h0]
  -- `x - 1 = q * 10 + e`: the mantissa times `10 ^ e` is what `CompressAmount`'s loop takes apart
  have h9 : (x - 1) % 10 ≤ 9 := by omega
  have hmant : 0 < decompressMantissa ((x - 1) % 10) ((x - 1) / 10) := by
    simp only [decompressMantissa]
    split <;> omega
  have hloop := compressAmountLoop_mul_pow ((x - 1) % 10) 9
    (decompressMantissa ((x - 1) % 10) ((x - 1) / 10)) 0 h9 rfl (by
      simp only [decompressMantissa]
      split <;> omega)
  rw [Nat.zero_add] at hloop
  have hpow : 0 < 10 ^ ((x - 1) % 10) := Nat.pow_pos (by decide)
  have hne : decompressMantissa ((x - 1) % 10) ((x - 1) / 10) * 10 ^ ((x - 1) % 10) ≠ 0 :=
    Nat.mul_ne_zero (by omega) (by omega)
  rw [compressAmount_eq hne hloop, amountCode_decompressMantissa _ h9]
  omega

/-! ## Scripts -/

/-- `IsToKeyID`: the key hash of a pay-to-pubkey-hash script. -/
def isToKeyID (script : CScript) : Option (List UInt8) :=
  if script.length = 25 ∧ script[0]? = some OP_DUP ∧ script[1]? = some OP_HASH160 ∧
      script[2]? = some 20 ∧ script[23]? = some OP_EQUALVERIFY ∧ script[24]? = some OP_CHECKSIG
  then some ((script.drop 3).take 20) else none

/-- `IsToScriptID`: the script hash of a pay-to-script-hash script. -/
def isToScriptID (script : CScript) : Option (List UInt8) :=
  if script.length = 23 ∧ script[0]? = some OP_HASH160 ∧ script[1]? = some 20 ∧
      script[22]? = some OP_EQUAL
  then some ((script.drop 2).take 20) else none

/-- `nSpecialScripts`. -/
def nSpecialScripts : Nat := 6

/-- `GetSpecialScriptSize`. -/
def getSpecialScriptSize (nSize : Nat) : Nat :=
  if nSize = 0 ∨ nSize = 1 then 20
  else if nSize = 2 ∨ nSize = 3 ∨ nSize = 4 ∨ nSize = 5 then 32
  else 0

section
-- `CPubKey::IsFullyValid` of a 65-byte key, and `CPubKey::Decompress` of a 33-byte one
variable (IsFullyValid : List UInt8 → Bool) (Decompress : List UInt8 → Option (List UInt8))

/-- `IsToPubKey`: the key of a pay-to-pubkey script; a 65-byte key only if it is fully valid, as
an invalid one has no compressed form. -/
def isToPubKey (script : CScript) : Option (List UInt8) :=
  if script.length = 35 ∧ script[0]? = some 33 ∧ script[34]? = some OP_CHECKSIG ∧
      (script[1]? = some 0x02 ∨ script[1]? = some 0x03) then
    some ((script.drop 1).take 33)
  else if script.length = 67 ∧ script[0]? = some 65 ∧ script[66]? = some OP_CHECKSIG ∧
      script[1]? = some 0x04 then
    let pubkey := (script.drop 1).take 65
    if IsFullyValid pubkey then some pubkey else none
  else none

/-- `CompressScript`: the special form of a script, `none` where it returns `false`. A key is
stored as its prefix and its x-coordinate, the prefix `0x04` or `0x05` carrying the parity of the
y-coordinate of an uncompressed key. -/
def compressScript (script : CScript) : Option (List UInt8) :=
  match isToKeyID script with
  | some keyID => some (0x00 :: keyID)
  | none =>
    match isToScriptID script with
    | some scriptID => some (0x01 :: scriptID)
    | none =>
      match isToPubKey IsFullyValid script with
      | some pubkey =>
        let x := (pubkey.drop 1).take 32
        if pubkey[0]? = some 0x02 ∨ pubkey[0]? = some 0x03 then some (pubkey[0]?.getD 0 :: x)
        else if pubkey[0]? = some 0x04 then
          some ((0x04 ||| (pubkey[64]?.getD 0 &&& 0x01)) :: x)
        else none
      | none => none

/-- `DecompressScript`, `none` where it returns `false`; a failed `assert(pubkey.size() == 65)` is
`none` too. `in` holds `GetSpecialScriptSize(nSize)` bytes. -/
def decompressScript (nSize : Nat) (input : List UInt8) : Option CScript :=
  if nSize = 0x00 then
    some ([OP_DUP, OP_HASH160, 20] ++ input.take 20 ++ [OP_EQUALVERIFY, OP_CHECKSIG])
  else if nSize = 0x01 then some ([OP_HASH160, 20] ++ input.take 20 ++ [OP_EQUAL])
  else if nSize = 0x02 ∨ nSize = 0x03 then
    some ([33, UInt8.ofNat nSize] ++ input.take 32 ++ [OP_CHECKSIG])
  else if nSize = 0x04 ∨ nSize = 0x05 then
    match Decompress (UInt8.ofNat (nSize - 2) :: input.take 32) with
    | none => none
    | some pubkey => if pubkey.length = 65 then some ([65] ++ pubkey ++ [OP_CHECKSIG]) else none
  else none

/-- `CScriptCompressor::Serialize`: the special form, or else the size plus `nSpecialScripts` as
an `unsigned int` `VARINT`, then the bytes. -/
def CScriptCompressor.serialize (script : CScript) : List UInt8 :=
  match compressScript IsFullyValid script with
  | some compr => compr
  | none => writeVarInt ((script.length + nSpecialScripts) % 2 ^ 32) ++ script

/-- `CScriptCompressor::Unserialize` into `script`. A special form that `DecompressScript` refuses
leaves `script` as it was, and an overly long script is skipped (`s.ignore`) and replaced by
`script` with `OP_RETURN` appended. -/
def CScriptCompressor.unserialize (script : CScript) : Reader CScript := do
  let nSize ← readVarInt (2 ^ 32 - 1)
  if nSize < nSpecialScripts then
    let vch ← readBytes (getSpecialScriptSize nSize)
    pure ((decompressScript Decompress nSize vch).getD script)
  else
    let nSize := nSize - nSpecialScripts
    if nSize > MAX_SCRIPT_SIZE then do
      let _ ← readBytes nSize
      pure (script ++ [OP_RETURN])
    else readBytes nSize

/-- What the round trip assumes of secp256k1: a fully valid uncompressed key is recovered from its
x-coordinate and the parity of its y-coordinate. -/
def DecompressCorrect : Prop :=
  ∀ pubkey : List UInt8, pubkey.length = 65 → pubkey[0]? = some 0x04 →
    IsFullyValid pubkey = true →
      Decompress (UInt8.ofNat (2 + (pubkey[64]?.getD 0).toNat % 2) :: (pubkey.drop 1).take 32) =
        some pubkey

end

theorem isToKeyID_eq_some {script keyID : List UInt8} (h : isToKeyID script = some keyID) :
    keyID.length = 20 ∧
      script = [OP_DUP, OP_HASH160, 20] ++ keyID ++ [OP_EQUALVERIFY, OP_CHECKSIG] := by
  unfold isToKeyID at h
  split at h
  · next hs =>
    obtain ⟨hlen, h0, h1, h2, h23, h24⟩ := hs
    cases h
    refine ⟨by simp [hlen], eq_layout (by simp [hlen]) ?_ ?_⟩
    · intro i hi
      obtain rfl | rfl | rfl : i = 0 ∨ i = 1 ∨ i = 2 := by simp at hi; omega
      exacts [h0, h1, h2]
    · intro i hi
      obtain rfl | rfl : i = 0 ∨ i = 1 := by simp at hi; omega
      exacts [h23, h24]
  · cases h

theorem isToScriptID_eq_some {script scriptID : List UInt8} (h : isToScriptID script = some scriptID) :
    scriptID.length = 20 ∧ script = [OP_HASH160, 20] ++ scriptID ++ [OP_EQUAL] := by
  unfold isToScriptID at h
  split at h
  · next hs =>
    obtain ⟨hlen, h0, h1, h22⟩ := hs
    cases h
    refine ⟨by simp [hlen], eq_layout (by simp [hlen]) ?_ ?_⟩
    · intro i hi
      obtain rfl | rfl : i = 0 ∨ i = 1 := by simp at hi; omega
      exacts [h0, h1]
    · intro i hi
      obtain rfl : i = 0 := by simp at hi; omega
      exact h22
  · cases h

/-- A pay-to-pubkey script is its key between the push of its size and `OP_CHECKSIG`. -/
theorem eq_pubKeyScript {script : List UInt8} (size : UInt8) (hlen : script.length = size.toNat + 2)
    (h0 : script[0]? = some size) (hlast : script[size.toNat + 1]? = some OP_CHECKSIG) :
    script = [size] ++ (script.drop 1).take size.toNat ++ [OP_CHECKSIG] :=
  eq_layout (by simp [hlen]; omega)
    (fun i hi => by
      obtain rfl : i = 0 := by simp at hi; omega
      exact h0)
    (fun i hi => by
      obtain rfl : i = 0 := by simp at hi; omega
      simpa [Nat.add_comm] using hlast)

theorem isToPubKey_eq_some {IsFullyValid : List UInt8 → Bool} {script pubkey : List UInt8}
    (h : isToPubKey IsFullyValid script = some pubkey) :
    (pubkey.length = 33 ∧ (pubkey[0]? = some 0x02 ∨ pubkey[0]? = some 0x03) ∧
        script = [33] ++ pubkey ++ [OP_CHECKSIG]) ∨
      (pubkey.length = 65 ∧ pubkey[0]? = some 0x04 ∧ IsFullyValid pubkey = true ∧
        script = [65] ++ pubkey ++ [OP_CHECKSIG]) := by
  have hhead : ∀ k, 0 < k → ((script.drop 1).take k)[0]? = script[1]? := by
    intro k hk
    rw [List.getElem?_take_of_lt hk, List.getElem?_drop]
  unfold isToPubKey at h
  split at h
  · next hs =>
    obtain ⟨hlen, h0, h34, h1⟩ := hs
    cases h
    refine Or.inl ⟨by simp [hlen], by rw [hhead 33 (by decide)]; exact h1, ?_⟩
    exact eq_pubKeyScript 33 hlen h0 h34
  · split at h
    · next hs =>
      obtain ⟨hlen, h0, h66, h1⟩ := hs
      simp only at h
      split at h
      · next hvalid =>
        cases h
        refine Or.inr ⟨by simp [hlen], by rw [hhead 65 (by decide)]; exact h1, hvalid, ?_⟩
        exact eq_pubKeyScript 65 hlen h0 h66
      · cases h
    · cases h

/-- The prefix of a compressed uncompressed key: `0x04` or `0x05` by the parity of the last byte. -/
theorem parityPrefix_toNat (y : UInt8) : (0x04 ||| (y &&& 0x01)).toNat = 4 + y.toNat % 2 := by
  rw [UInt8.toNat_or, UInt8.toNat_and, show (0x01 : UInt8).toNat = 1 from rfl, Nat.and_one_is_mod]
  obtain h | h : y.toNat % 2 = 0 ∨ y.toNat % 2 = 1 := by omega
  · rw [h]
    rfl
  · rw [h]
    rfl

section
variable {IsFullyValid : List UInt8 → Bool} {Decompress : List UInt8 → Option (List UInt8)}

/-- A special form starts with its kind, below `nSpecialScripts`, and the rest is as many bytes as
`GetSpecialScriptSize` says, which `DecompressScript` turns back into the script. -/
theorem decompressScript_compressScript (hdec : DecompressCorrect IsFullyValid Decompress)
    {script compr : List UInt8} (h : compressScript IsFullyValid script = some compr) :
    ∃ (b : UInt8) (vch : List UInt8), b.toNat < nSpecialScripts ∧ compr = b :: vch ∧
      vch.length = getSpecialScriptSize b.toNat ∧
      decompressScript Decompress b.toNat vch = some script := by
  unfold compressScript at h
  cases hk : isToKeyID script with
  | some keyID =>
    rw [hk] at h
    cases h
    obtain ⟨hlen, rfl⟩ := isToKeyID_eq_some hk
    refine ⟨0, keyID, by decide, rfl, by rw [hlen]; rfl, ?_⟩
    simp [decompressScript, List.take_of_length_le (Nat.le_of_eq hlen)]
  | none =>
  rw [hk] at h
  cases hs : isToScriptID script with
  | some scriptID =>
    rw [hs] at h
    cases h
    obtain ⟨hlen, rfl⟩ := isToScriptID_eq_some hs
    refine ⟨1, scriptID, by decide, rfl, by rw [hlen]; rfl, ?_⟩
    simp [decompressScript, List.take_of_length_le (Nat.le_of_eq hlen)]
  | none =>
  rw [hs] at h
  cases hp : isToPubKey IsFullyValid script with
  | none =>
    rw [hp] at h
    cases h
  | some pubkey =>
  rw [hp] at h
  simp only at h
  rcases isToPubKey_eq_some hp with ⟨hlen, hpre, rfl⟩ | ⟨hlen, hpre, hvalid, rfl⟩
  · -- a compressed key is stored whole
    rw [if_pos hpre] at h
    cases h
    obtain ⟨p, x, rfl⟩ : ∃ p x, pubkey = p :: x := List.exists_cons_of_length_eq_add_one hlen
    have hx : x.length = 32 := by simpa using hlen
    simp only [List.getElem?_cons_zero, Option.some.injEq] at hpre
    simp only [List.getElem?_cons_zero, Option.getD_some, List.drop_one, List.tail_cons,
      List.take_of_length_le (Nat.le_of_eq hx)]
    rcases hpre with rfl | rfl
    · exact ⟨2, x, by decide, rfl, hx, by simp [decompressScript, List.take_of_length_le
        (Nat.le_of_eq hx)]⟩
    · exact ⟨3, x, by decide, rfl, hx, by simp [decompressScript, List.take_of_length_le
        (Nat.le_of_eq hx)]⟩
  · -- an uncompressed key is stored as its x-coordinate and the parity of its y-coordinate
    rw [if_neg (by rw [hpre]; decide), if_pos hpre] at h
    cases h
    have hx : ((pubkey.drop 1).take 32).length = 32 := by simp [hlen]
    have hb := parityPrefix_toNat (pubkey[64]?.getD 0)
    have hdecomp := hdec pubkey hlen hpre hvalid
    obtain ⟨r, hr⟩ : ∃ r, (pubkey[64]?.getD 0).toNat % 2 = r := ⟨_, rfl⟩
    have hr2 : r < 2 := by omega
    rw [hr] at hb hdecomp
    have hsize : getSpecialScriptSize (4 + r) = 32 := by
      unfold getSpecialScriptSize
      rw [if_neg (by omega), if_pos (by omega)]
    refine ⟨_, _, by rw [hb]; unfold nSpecialScripts; omega, rfl, by rw [hx, hb, hsize], ?_⟩
    rw [hb, decompressScript, if_neg (by omega), if_neg (by omega), if_neg (by omega),
      if_pos (by omega), show 4 + r - 2 = 2 + r by omega, List.take_of_length_le (Nat.le_of_eq hx),
      hdecomp]
    simp [hlen]

/-- `CScriptCompressor` reads back every script up to `MAX_SCRIPT_SIZE` that it wrote, into any
script. -/
theorem CScriptCompressor.unserialize_run (hdec : DecompressCorrect IsFullyValid Decompress)
    {script : CScript} (hlen : script.length ≤ MAX_SCRIPT_SIZE) (script0 rest : List UInt8) :
    (CScriptCompressor.unserialize Decompress script0).run
      (CScriptCompressor.serialize IsFullyValid script ++ rest) = some (script, rest) := by
  unfold CScriptCompressor.serialize CScriptCompressor.unserialize
  cases hc : compressScript IsFullyValid script with
  | some compr =>
    obtain ⟨b, vch, hb, rfl, hvlen, hdecomp⟩ := decompressScript_compressScript hdec hc
    have hb7 : b.toNat ≤ 0x7F := by unfold nSpecialScripts at hb; omega
    have hwrite : b :: vch ++ rest = writeVarInt b.toNat ++ (vch ++ rest) := by
      rw [writeVarInt_toNat hb7]
      rfl
    simp only
    rw [hwrite, run_bind_of_run (readVarInt_run (by unfold nSpecialScripts at hb; omega) _),
      if_pos hb,
      ← hvlen, run_bind_of_run (readBytes_run vch rest), hdecomp]
    rfl
  | none =>
    have hsize : (script.length + nSpecialScripts) % 2 ^ 32 = script.length + nSpecialScripts :=
      Nat.mod_eq_of_lt (by unfold nSpecialScripts MAX_SCRIPT_SIZE at *; omega)
    simp only
    rw [hsize, List.append_assoc, run_bind_of_run
      (readVarInt_run (by unfold nSpecialScripts MAX_SCRIPT_SIZE at *; omega) _),
      if_neg (by omega), Nat.add_sub_cancel, if_neg (by omega), readBytes_run]

end

/-! ## Outputs, coins and undo records -/

/-- The conversion of a `uint64_t` to the `int64_t` of a `CAmount`: modulo `2 ^ 64`. -/
def uint64ToAmount (v : Nat) : CAmount := if v < 2 ^ 63 then v else (v : Int) - 2 ^ 64

/-- The value of the bit-field `uint32_t nHeight : 31` that holds a coin's height. -/
def Coin.heightField (c : Coin) : Nat := (c.nHeight % 2 ^ 31).toNat

section
variable (IsFullyValid : List UInt8 → Bool) (Decompress : List UInt8 → Option (List UInt8))

/-- `CTxOutCompressor`'s serialization: the compressed amount as a `uint64_t` `VARINT`, then the
compressed script. -/
def CTxOutCompressor.serialize (txout : CTxOut) : List UInt8 :=
  writeVarInt (compressAmount (txout.nValue % 2 ^ 64).toNat) ++
    CScriptCompressor.serialize IsFullyValid txout.scriptPubKey

/-- `CTxOutCompressor`'s deserialization into `txout`. -/
def CTxOutCompressor.unserialize (txout : CTxOut) : Reader CTxOut := do
  let nVal ← readVarInt (2 ^ 64 - 1)
  let nValue := uint64ToAmount (decompressAmount nVal)
  let scriptPubKey ← CScriptCompressor.unserialize Decompress txout.scriptPubKey
  pure ⟨nValue, scriptPubKey⟩

/-- `Coin::Serialize`: `none` for a spent coin (its `assert`), and where `nHeight * 2`, computed in
`int`, overflows. -/
def Coin.serialize (c : Coin) : Option (List UInt8) :=
  if c.isSpent then none
  else if c.heightField * 2 < 2 ^ 31 then
    let code := c.heightField * 2 + (if c.fCoinBase then 1 else 0)
    let nFlag := if c.fCoinStake then 1 else 0
    some (writeVarInt code ++ CTxOutCompressor.serialize IsFullyValid c.out ++ writeVarInt nFlag)
  else none

/-- `Coin::Unserialize` into `c`. -/
def Coin.unserialize (c : Coin) : Reader Coin := do
  let code ← readVarInt (2 ^ 32 - 1)
  let out ← CTxOutCompressor.unserialize Decompress c.out
  let nFlag ← readVarInt (2 ^ 32 - 1)
  pure ⟨out, code % 2 == 1, ((code / 2 : Nat) : Int), nFlag % 2 == 1⟩

/-- `TxInUndoSerializer::Serialize`: `none` where `nHeight * 4`, computed in `int`, overflows. The
dummy byte after a height above zero is where old versions stored a transaction version. -/
def txInUndoSerialize (c : Coin) : Option (List UInt8) :=
  if c.heightField * 4 < 2 ^ 31 then
    let nCode :=
      c.heightField * 4 + (if c.fCoinBase then 1 else 0) + (if c.fCoinStake then 2 else 0)
    some (writeVarInt nCode ++ (if c.heightField > 0 then [0] else []) ++
      CTxOutCompressor.serialize IsFullyValid c.out)
  else none

/-- `TxInUndoDeserializer::Unserialize` into `c`. -/
def txInUndoUnserialize (c : Coin) : Reader Coin := do
  let nCode ← readVarInt (2 ^ 32 - 1)
  let nHeight := nCode / 4
  if nHeight > 0 then
    let _ ← readVarInt (2 ^ 32 - 1)
    pure ()
  let out ← CTxOutCompressor.unserialize Decompress c.out
  pure ⟨out, nCode % 2 == 1, (nHeight : Int), nCode / 2 % 2 == 1⟩

end

section
variable {IsFullyValid : List UInt8 → Bool} {Decompress : List UInt8 → Option (List UInt8)}

theorem compressAmount_lt (n : Nat) : compressAmount n < 2 ^ 64 := by
  by_cases h0 : n = 0
  · subst h0
    decide
  · obtain ⟨m, e, hloop⟩ : ∃ m e, compressAmountLoop 9 n 0 = (m, e) := ⟨_, _, rfl⟩
    rw [compressAmount_eq h0 hloop]
    exact Nat.mod_lt _ (by decide)

/-- An amount in `MoneyRange` is below `2 ^ 60`, where its compression round trips. -/
theorem moneyRange_lt {v : Int} (hv : moneyRange v = true) : 0 ≤ v ∧ v < 2 ^ 60 := by
  simp only [moneyRange, Bool.and_eq_true, decide_eq_true_eq] at hv
  have hv' : (0 : Int) ≤ v ∧ v ≤ 2100000000000000 := hv
  omega

/-- `CTxOutCompressor` reads back every output with an amount in `MoneyRange` and a script up to
`MAX_SCRIPT_SIZE`. -/
theorem CTxOutCompressor.unserialize_run (hdec : DecompressCorrect IsFullyValid Decompress)
    {txout : CTxOut} (hv : moneyRange txout.nValue = true)
    (hs : txout.scriptPubKey.length ≤ MAX_SCRIPT_SIZE) (txout0 : CTxOut) (rest : List UInt8) :
    (CTxOutCompressor.unserialize Decompress txout0).run
      (CTxOutCompressor.serialize IsFullyValid txout ++ rest) = some (txout, rest) := by
  obtain ⟨hlo, hhi⟩ := moneyRange_lt hv
  have hval : (txout.nValue % 2 ^ 64).toNat = txout.nValue.toNat := by
    rw [Int.emod_eq_of_lt hlo (by omega)]
  have hamount : uint64ToAmount (decompressAmount (compressAmount txout.nValue.toNat)) =
      txout.nValue := by
    rw [decompressAmount_compressAmount (by omega), uint64ToAmount, if_pos (by omega)]
    exact Int.toNat_of_nonneg hlo
  unfold CTxOutCompressor.unserialize CTxOutCompressor.serialize
  rw [hval, List.append_assoc,
    run_bind_of_run (readVarInt_run (by have := compressAmount_lt txout.nValue.toNat; omega) _)]
  simp only
  rw [hamount, run_bind_of_run (CScriptCompressor.unserialize_run hdec hs _ rest)]
  rfl

theorem heightField_eq {c : Coin} (h0 : 0 ≤ c.nHeight) (h : c.nHeight < 2 ^ 31) :
    (c.heightField : Int) = c.nHeight := by
  rw [Coin.heightField, Int.emod_eq_of_lt h0 h]
  exact Int.toNat_of_nonneg h0

/-- `nHeight * 2 + fCoinBase` gives back the height and the flag. -/
theorem packFlag (h : Nat) (b : Bool) :
    (h * 2 + (if b then 1 else 0)) / 2 = h ∧ ((h * 2 + (if b then 1 else 0)) % 2 == 1) = b := by
  cases b
  · simp only [Bool.false_eq_true, if_false, Nat.add_zero, beq_eq_false_iff_ne]
    omega
  · simp only [if_true, beq_iff_eq]
    omega

/-- `nHeight * 4 + fCoinBase + 2 * fCoinStake` gives back the height and both flags. -/
theorem packFlags (h : Nat) (b s : Bool) :
    (h * 4 + (if b then 1 else 0) + (if s then 2 else 0)) / 4 = h ∧
      ((h * 4 + (if b then 1 else 0) + (if s then 2 else 0)) % 2 == 1) = b ∧
      ((h * 4 + (if b then 1 else 0) + (if s then 2 else 0)) / 2 % 2 == 1) = s := by
  cases b <;> cases s <;> simp only [Bool.false_eq_true, if_false, if_true, Nat.add_zero,
    beq_eq_false_iff_ne, beq_iff_eq] <;> omega

theorem isSpent_eq_false {c : Coin} (hv : moneyRange c.out.nValue = true) : c.isSpent = false := by
  have hlo := (moneyRange_lt hv).1
  simp only [Coin.isSpent, CTxOut.isNull, beq_eq_false_iff_ne]
  intro h
  rw [h] at hlo
  exact absurd hlo (by decide)

/-- A `Coin` with an amount in `MoneyRange`, a script up to `MAX_SCRIPT_SIZE` and a height below
`2 ^ 30` is serialized, and reads back from its serialization into any coin. -/
theorem Coin.unserialize_run (hdec : DecompressCorrect IsFullyValid Decompress) {c : Coin}
    (hv : moneyRange c.out.nValue = true) (hs : c.out.scriptPubKey.length ≤ MAX_SCRIPT_SIZE)
    (h0 : 0 ≤ c.nHeight) (hh : c.nHeight < 2 ^ 30) :
    ∃ bytes, Coin.serialize IsFullyValid c = some bytes ∧
      ∀ c0 rest, (Coin.unserialize Decompress c0).run (bytes ++ rest) = some (c, rest) := by
  have hheight := heightField_eq h0 (by omega)
  have hlt : c.heightField * 2 < 2 ^ 31 := by omega
  refine ⟨_, by rw [Coin.serialize, isSpent_eq_false hv, if_neg (by decide), if_pos hlt], ?_⟩
  intro c0 rest
  obtain ⟨hdiv, hcb⟩ := packFlag c.heightField c.fCoinBase
  have hcs : ((if c.fCoinStake then 1 else 0) % 2 == 1) = c.fCoinStake := by
    cases c.fCoinStake <;> rfl
  unfold Coin.unserialize
  rw [List.append_assoc, List.append_assoc,
    run_bind_of_run (readVarInt_run (by split <;> omega) _),
    run_bind_of_run (CTxOutCompressor.unserialize_run hdec hv hs _ _),
    run_bind_of_run (readVarInt_run (by split <;> omega) _), hdiv, hcb, hcs, hheight]
  rfl

/-- An undo record of a coin with an amount in `MoneyRange`, a script up to `MAX_SCRIPT_SIZE` and
a height below `2 ^ 29` is serialized, and reads back into any coin, flags included. -/
theorem txInUndoUnserialize_run (hdec : DecompressCorrect IsFullyValid Decompress) {c : Coin}
    (hv : moneyRange c.out.nValue = true) (hs : c.out.scriptPubKey.length ≤ MAX_SCRIPT_SIZE)
    (h0 : 0 ≤ c.nHeight) (hh : c.nHeight < 2 ^ 29) :
    ∃ bytes, txInUndoSerialize IsFullyValid c = some bytes ∧
      ∀ c0 rest, (txInUndoUnserialize Decompress c0).run (bytes ++ rest) = some (c, rest) := by
  have hheight := heightField_eq h0 (by omega)
  refine ⟨_, by rw [txInUndoSerialize, if_pos (by omega)], ?_⟩
  intro c0 rest
  obtain ⟨hdiv, hcb, hcs⟩ := packFlags c.heightField c.fCoinBase c.fCoinStake
  unfold txInUndoUnserialize
  rw [List.append_assoc, List.append_assoc,
    run_bind_of_run (readVarInt_run (by split <;> split <;> omega) _)]
  simp only [hdiv]
  -- the dummy byte, written exactly when the height is above zero, is the `VARINT` of zero
  by_cases hpos : c.heightField > 0
  · rw [if_pos hpos, if_pos hpos, show ([0] : List UInt8) = writeVarInt 0 from rfl,
      run_bind_of_run (readVarInt_run (by decide) _),
      run_bind_of_run (CTxOutCompressor.unserialize_run hdec hv hs _ _), hcb, hcs, hheight]
    rfl
  · rw [if_neg hpos, if_neg hpos, List.nil_append,
      run_bind_of_run (CTxOutCompressor.unserialize_run hdec hv hs _ _), hcb, hcs, hheight]
    rfl

/-- An undo record of a coin at a height of `2 ^ 29` or more is not written: `nHeight * 4`
overflows `int`. -/
theorem txInUndoSerialize_eq_none {c : Coin} (hh : 2 ^ 29 ≤ c.heightField) :
    txInUndoSerialize IsFullyValid c = none := by
  rw [txInUndoSerialize, if_neg (by omega)]

end

/-- The compressed records round trip. An amount in `MoneyRange` decompresses from its
compression, and a code whose amount stays below `2 ^ 64` compresses from its decompression. A
script up to `MAX_SCRIPT_SIZE` reads back from its compressed form, when secp256k1 recovers a
fully valid key from its compressed form. A `Coin` with such an output and a height below
`2 ^ 30` reads back from its record, and the undo record of one with a height below `2 ^ 29`
reads back from it, flags included. -/
theorem compressed_records_round_trip (IsFullyValid : List UInt8 → Bool)
    (Decompress : List UInt8 → Option (List UInt8))
    (hdec : DecompressCorrect IsFullyValid Decompress) :
    (∀ n : Nat, (n : Int) ≤ MAX_MONEY → decompressAmount (compressAmount n) = n) ∧
    (∀ x, x < 2 ^ 64 → decompressAmountValue x < 2 ^ 64 →
      compressAmount (decompressAmount x) = x) ∧
    (∀ script : CScript, script.length ≤ MAX_SCRIPT_SIZE → ∀ script0 rest,
      (CScriptCompressor.unserialize Decompress script0).run
        (CScriptCompressor.serialize IsFullyValid script ++ rest) = some (script, rest)) ∧
    (∀ c : Coin, moneyRange c.out.nValue = true →
      c.out.scriptPubKey.length ≤ MAX_SCRIPT_SIZE → 0 ≤ c.nHeight → c.nHeight < 2 ^ 30 →
      ∃ bytes, Coin.serialize IsFullyValid c = some bytes ∧
        ∀ c0 rest, (Coin.unserialize Decompress c0).run (bytes ++ rest) = some (c, rest)) ∧
    (∀ c : Coin, moneyRange c.out.nValue = true →
      c.out.scriptPubKey.length ≤ MAX_SCRIPT_SIZE → 0 ≤ c.nHeight → c.nHeight < 2 ^ 29 →
      ∃ bytes, txInUndoSerialize IsFullyValid c = some bytes ∧
        ∀ c0 rest, (txInUndoUnserialize Decompress c0).run (bytes ++ rest) = some (c, rest)) := by
  refine ⟨fun n hn => decompressAmount_compressAmount ?_,
    fun x hx hfit => compressAmount_decompressAmount hx hfit,
    fun script hlen script0 rest => CScriptCompressor.unserialize_run hdec hlen script0 rest,
    fun c hv hs h0 hh => Coin.unserialize_run hdec hv hs h0 hh,
    fun c hv hs h0 hh => txInUndoUnserialize_run hdec hv hs h0 hh⟩
  have hn' : (n : Int) ≤ 2100000000000000 := hn
  omega

namespace CompressorFixture

/-- A coinbase output of 50 coins to a pay-to-pubkey-hash script, at height 1000. -/
def p2pkhCoin : Coin :=
  ⟨⟨50 * COIN, [0x76, 0xa9, 0x14] ++ List.replicate 20 7 ++ [0x88, 0xac]⟩, true, 1000, false⟩

/-- With no key fully valid, the assumption on secp256k1 holds; one amount reads back, and so do
the `Coin` record and the undo record of `p2pkhCoin`. -/
theorem compressed_records_round_trip_one_coin :
    DecompressCorrect (fun _ => false) (fun _ => none) ∧
      decompressAmount (compressAmount 100000000) = 100000000 ∧
      (∃ bytes, Coin.serialize (fun _ => false) p2pkhCoin = some bytes ∧
        ∀ c0 rest, (Coin.unserialize (fun _ => none) c0).run (bytes ++ rest) =
          some (p2pkhCoin, rest)) ∧
      (∃ bytes, txInUndoSerialize (fun _ => false) p2pkhCoin = some bytes ∧
        ∀ c0 rest, (txInUndoUnserialize (fun _ => none) c0).run (bytes ++ rest) =
          some (p2pkhCoin, rest)) :=
  have hdec : DecompressCorrect (fun _ => false) (fun _ => none) :=
    fun _ _ _ h => absurd h Bool.false_ne_true
  have h := compressed_records_round_trip _ _ hdec
  ⟨hdec, h.1 100000000 (by decide),
    h.2.2.2.1 p2pkhCoin (by decide) (by decide) (by decide) (by decide),
    h.2.2.2.2 p2pkhCoin (by decide) (by decide) (by decide) (by decide)⟩

/-- A coin at height `2 ^ 29` with no value and an empty script. -/
def coinAtHeight : Coin := ⟨⟨0, []⟩, false, 2 ^ 29, false⟩

/-- The coin is below the height `2 ^ 30` and its `Coin` record is written, but its undo record
is not: `nHeight * 4` is `2 ^ 31`, past `INT_MAX`. -/
theorem undo_record_overflows_at_height :
    coinAtHeight.nHeight < 2 ^ 30 ∧ moneyRange coinAtHeight.out.nValue = true ∧
      (Coin.serialize (fun _ => true) coinAtHeight).isSome = true ∧
      txInUndoSerialize (fun _ => true) coinAtHeight = none :=
  ⟨by decide, by decide, rfl, txInUndoSerialize_eq_none (by decide)⟩

end CompressorFixture

end Emrals
