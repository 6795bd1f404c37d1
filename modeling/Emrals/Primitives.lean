import Mathlib
import Emrals.Lib.Codec

/-!
# Primitive data of the node

The fixed-width blobs, amounts, outpoints, scripts and addresses that the masternode list, the
mempool and the UTXO cache are built from (`src/uint256.h`, `src/amount.h`,
`src/primitives/transaction.h`, `src/netaddress.h`, `src/bls/bls.h`).

Blobs are `BitVec`s of their width, so that `IsNull` is a comparison with `0`. A BLS public key is
represented by what the wrapper in `src/bls/bls.h` can hold: the invalid key, to which every
default-constructed key and every failed decoding is reset, or a valid key with its 48-byte
encoding. `CBLSLazyWrapper` compares keys through the decoded object whenever one side is not a
raw buffer (`CBLSLazyWrapper::operator==`), so a lazy key is modelled by the key it stands for.
-/

namespace Emrals

/-! ## Blobs -/

/-- The `k` bytes of a blob of `w` bits, `data[0]` first. The `BitVec` is the number they spell
little-endian, as `UintToArith256` reads a `uint256`, so that `data` is also what the blob
serializes to. -/
def blobData (k : Nat) {w : Nat} (h : BitVec w) : List UInt8 := Codec.encLE k h.toNat

/-- The number that `memcmp` orders blobs by: their bytes read big-endian. -/
def blobKey (k : Nat) {w : Nat} (h : BitVec w) : Nat := Codec.decLE (blobData k h).reverse

section
variable {k w : Nat}

theorem memcmpLt_blobData_iff {a b : BitVec w} :
    Codec.memcmpLt (blobData k a) (blobData k b) = true ↔ blobKey k a < blobKey k b :=
  Codec.memcmpLt_iff (by simp [blobData])

/-- A blob that fits its bytes is determined by its key. -/
theorem blobKey_injective (hw : w ≤ 8 * k) {a b : BitVec w} (h : blobKey k a = blobKey k b) :
    a = b := by
  have hdata := Codec.eq_of_decLE_reverse_eq (by simp [blobData]) h
  have hmod := congrArg Codec.decLE hdata
  simp only [blobData, Codec.decLE_encLE] at hmod
  have hpow : 2 ^ w ≤ 2 ^ (8 * k) := Nat.pow_le_pow_right (by decide) hw
  rw [Nat.mod_eq_of_lt (by have := a.isLt; omega), Nat.mod_eq_of_lt (by have := b.isLt; omega)]
    at hmod
  exact BitVec.eq_of_toNat_eq hmod

/-- `memcmp` orders the blobs that fit their bytes strictly and totally. -/
theorem isStrictTotalOrder_blob (hw : w ≤ 8 * k) :
    IsStrictTotalOrder (BitVec w)
      (fun a b => Codec.memcmpLt (blobData k a) (blobData k b) = true) where
  trichotomous a b := by
    simp only [memcmpLt_blobData_iff]
    exact fun h₁ h₂ => blobKey_injective hw (Nat.le_antisymm (Nat.not_lt.mp h₂) (Nat.not_lt.mp h₁))
  irrefl a := by
    simp only [memcmpLt_blobData_iff]
    exact Nat.lt_irrefl _
  trans a b c := by
    simp only [memcmpLt_blobData_iff]
    exact Nat.lt_trans

end

/-- `uint256`: block hashes, transaction hashes and ProTx hashes. -/
def uint256 : Type := BitVec 256

instance : DecidableEq uint256 := inferInstanceAs (DecidableEq (BitVec 256))
instance (n : Nat) : OfNat uint256 n := ⟨BitVec.ofNat 256 n⟩
instance : Inhabited uint256 := ⟨0⟩

/-- `base_blob::IsNull`: every byte is zero. -/
def uint256.isNull (h : uint256) : Bool := h == 0

/-- `base_blob::data`: the 32 bytes. -/
def uint256.data (h : uint256) : List UInt8 := blobData 32 (w := 256) h

/-- `base_blob::operator<`: `memcmp` of the bytes. -/
instance : LT uint256 := ⟨fun a b => Codec.memcmpLt a.data b.data = true⟩

instance (a b : uint256) : Decidable (a < b) :=
  inferInstanceAs (Decidable (Codec.memcmpLt a.data b.data = true))

/-- The number that `<` on `uint256` orders by. -/
def uint256.cmpKey (h : uint256) : Nat := blobKey 32 (w := 256) h

theorem uint256.lt_iff_cmpKey {a b : uint256} : a < b ↔ a.cmpKey < b.cmpKey :=
  memcmpLt_blobData_iff

theorem uint256.cmpKey_injective {a b : uint256} (h : a.cmpKey = b.cmpKey) : a = b :=
  blobKey_injective (w := 256) (k := 32) (by decide) h

instance : IsStrictTotalOrder uint256 (· < ·) := isStrictTotalOrder_blob (w := 256) (k := 32) (by decide)

/-- `CKeyID`: the 160-bit hash of a public key. -/
def CKeyID : Type := BitVec 160

instance : DecidableEq CKeyID := inferInstanceAs (DecidableEq (BitVec 160))
instance (n : Nat) : OfNat CKeyID n := ⟨BitVec.ofNat 160 n⟩
instance : Inhabited CKeyID := ⟨0⟩

/-- `base_blob::data` of a key id: the 20 bytes. -/
def CKeyID.data (k : CKeyID) : List UInt8 := blobData 20 (w := 160) k

/-- `base_blob::operator<` on key ids: `memcmp` of the bytes. -/
instance : LT CKeyID := ⟨fun a b => Codec.memcmpLt a.data b.data = true⟩

instance (a b : CKeyID) : Decidable (a < b) :=
  inferInstanceAs (Decidable (Codec.memcmpLt a.data b.data = true))

instance : IsStrictTotalOrder CKeyID (· < ·) := isStrictTotalOrder_blob (w := 160) (k := 20) (by decide)

/-- `base_blob::IsNull` for key ids. -/
def CKeyID.isNull (k : CKeyID) : Bool := k == 0

/-! ## Amounts -/

/-- `CAmount`, a signed 64-bit count of satoshis. Every amount the modelled code forms is a sum
or difference of a few amounts in `MoneyRange`, far from the 64-bit bounds, so the model uses
`Int`. -/
abbrev CAmount := Int

/-- `COIN` (`src/amount.h:14`). -/
def COIN : CAmount := 100000000

/-- `MAX_MONEY` (`src/amount.h:25`). -/
def MAX_MONEY : CAmount := 21000000 * COIN

/-- `MoneyRange` (`src/amount.h:26`). -/
def moneyRange (nValue : CAmount) : Bool := 0 ≤ nValue && nValue ≤ MAX_MONEY

/-! ## Outpoints, scripts and outputs -/

/-- `COutPoint`: a transaction hash and an output index. -/
structure COutPoint where
  hash : uint256
  n : UInt32
  deriving DecidableEq, Inhabited

/-- `COutPoint::NULL_INDEX`, that is `(uint32_t)-1`. -/
def COutPoint.NULL_INDEX : UInt32 := 0xFFFFFFFF

/-- `COutPoint::IsNull`. -/
def COutPoint.isNull (o : COutPoint) : Bool := o.hash.isNull && o.n == COutPoint.NULL_INDEX

/-- `COutPoint::operator<`: the hash, then the index. -/
instance : LT COutPoint := ⟨fun a b => a.hash < b.hash ∨ a.hash = b.hash ∧ a.n < b.n⟩

instance (a b : COutPoint) : Decidable (a < b) :=
  inferInstanceAs (Decidable (a.hash < b.hash ∨ a.hash = b.hash ∧ a.n < b.n))

instance : IsStrictTotalOrder COutPoint (· < ·) where
  trichotomous := by
    rintro ⟨h₁, n₁⟩ ⟨h₂, n₂⟩ hlt hgt
    rcases trichotomous_of (fun a b : uint256 => a < b) h₁ h₂ with h | rfl | h
    · exact absurd (.inl h) hlt
    · have hn : n₁ = n₂ := UInt32.le_antisymm (UInt32.not_lt.mp fun h => hgt (.inr ⟨rfl, h⟩))
        (UInt32.not_lt.mp fun h => hlt (.inr ⟨rfl, h⟩))
      rw [hn]
    · exact absurd (.inl h) hgt
  irrefl := by
    rintro ⟨h, n⟩ (hlt | ⟨-, hlt⟩)
    · exact irrefl_of (fun a b : uint256 => a < b) h hlt
    · exact UInt32.lt_irrefl n hlt
  trans := by
    rintro ⟨h₁, n₁⟩ ⟨h₂, n₂⟩ ⟨h₃, n₃⟩ (h12 | ⟨rfl, n12⟩) (h23 | ⟨rfl, n23⟩)
    · exact .inl (trans_of (fun a b : uint256 => a < b) h12 h23)
    · exact .inl h12
    · exact .inl h23
    · exact .inr ⟨rfl, UInt32.lt_trans n12 n23⟩

/-- `CScript`, a byte string. -/
abbrev CScript := List UInt8

/-- `CTxOut`: an amount and the script that locks it. -/
structure CTxOut where
  nValue : CAmount
  scriptPubKey : CScript
  deriving DecidableEq, Inhabited

/-- `CTxOut::IsNull`: the marker of a spent output (`SetNull` sets `nValue = -1`). -/
def CTxOut.isNull (o : CTxOut) : Bool := o.nValue == -1

/-- `CTxOut::IsEmpty`: zero value and no script, the first output of a coinstake. -/
def CTxOut.isEmpty (o : CTxOut) : Bool := o.nValue == 0 && o.scriptPubKey.isEmpty

/-! ## Service addresses -/

/-- `CService`: an IPv6 (or IPv4-mapped) address in network byte order and a port. The
`scopeId` of `CNetAddr` is neither serialized nor compared by `operator==`, so it is left out. -/
structure CService where
  ip : BitVec 128
  port : UInt16
  deriving DecidableEq

/-- `CService()`: the unspecified address `::` with port 0. -/
instance : Inhabited CService := ⟨⟨0, 0⟩⟩

/-! ## BLS keys -/

/-- `CBLSPublicKey` (and `CBLSLazyPublicKey`): `none` is the invalid key, `some b` a valid key
whose 48-byte serialization is `b`. -/
abbrev CBLSPublicKey := Option (BitVec 384)

/-- `CBLSWrapper::IsValid`. -/
def CBLSPublicKey.isValid (k : CBLSPublicKey) : Bool := k.isSome

/-! ## C integer conversions -/

/-- A conversion to `int32_t` (`int`): the residue modulo `2 ^ 32`, read in two's complement. -/
def toInt32 (x : Int) : Int := if x % 2 ^ 32 < 2 ^ 31 then x % 2 ^ 32 else x % 2 ^ 32 - 2 ^ 32

/-- A conversion to `size_t`: the residue modulo `2 ^ 64`. -/
def toSizeT (x : Int) : Nat := (x % 2 ^ 64).toNat

theorem toInt32_of_lt {n : Nat} (h : n < 2 ^ 31) : toInt32 n = n := by
  unfold toInt32
  split <;> omega

end Emrals
