import Emrals.Script.Standard
import Emrals.Validation.BlockValue

/-!
# Signing and checking a proof-of-stake block

A proof-of-stake block carries `vchBlockSig`, a signature of its header's hash by the key that
the coinstake's second output pays to (`src/pos/sign.cpp`). `CBlockSigner::SignBlock` reads that
output with `Solver`, finds the key in the wallet by its id and signs. `CheckBlock` calls
`CBlockSigner::CheckBlockSignature` on every proof-of-stake block (`src/validation.cpp:3486`).

The checker takes the first solution, `vSolutions[0]`, before it looks at the script's type.
The two types without solutions (`solver_solutions_eq_nil_iff`) make that an access past the end
of an empty vector. The model returns `none` there, and there only
(`checkBlockSignature_eq_none_iff`). Otherwise the checker accepts only a signature under the key
that a pay-to-pubkey output names (`checkBlockSignature_eq_some_true`), and it accepts every
signature the signer makes for such an output (`checkBlockSignature_signBlock`).

For a pay-to-pubkey-hash output, the checker builds a `CPubKey` from the 20 bytes of the hash.
That is no valid key size, so the checker refuses the block whatever it carries
(`checkBlockSignature_getScriptForDestination`). The signer meanwhile finds the key by the hash
and signs (`signBlock_getScriptForDestination`).

The curve operations and the wallet are parameters: `Hash160` of a serialized key, `CKey::Sign`,
and the parsing, normalizing and verifying that `CPubKey::Verify` does once a key has a valid
size.
-/

namespace Emrals

/-- `CPubKey`, by the bytes it holds. An invalid key holds `0xFF` as its first byte, which is all
that `Invalidate` writes and all that is read of an invalid key. -/
structure CPubKey where
  vch : List UInt8
  deriving DecidableEq

namespace CPubKey

/-- `CPubKey(const std::vector<unsigned char>&)`, through `Set`: the bytes are copied when their
first byte announces their length, and the key is invalidated otherwise. -/
def ofBytes : List UInt8 → CPubKey
  | [] => ⟨[0xFF]⟩
  | v@(b :: _) => if getLen b ≠ 0 ∧ getLen b = v.length then ⟨v⟩ else ⟨[0xFF]⟩

/-- `CPubKey::size`. -/
def size (k : CPubKey) : Nat := getLen (k.vch.headD 0xFF)

/-- `CPubKey::IsValid`. -/
def isValid (k : CPubKey) : Bool := k.size > 0

/-- `CPubKey::GetID`: `Hash160` of the key's `size()` bytes. -/
def getID (Hash160 : List UInt8 → CKeyID) (k : CPubKey) : CKeyID := Hash160 (k.vch.take k.size)

/-- `CPubKey::Verify`: an invalid key verifies nothing; a valid one is handed to secp256k1. -/
def verify (Verify : List UInt8 → uint256 → List UInt8 → Bool) (k : CPubKey) (hash : uint256)
    (vchSig : List UInt8) : Bool :=
  k.isValid && Verify k.vch hash vchSig

/-- Bytes of a valid size make the key that holds them. -/
theorem ofBytes_of_validSize {v : List UInt8} (h : validSize v = true) : ofBytes v = ⟨v⟩ := by
  match v, h with
  | b :: v, h =>
    have hlen : getLen b = v.length + 1 := by simpa [validSize] using h
    simp [ofBytes, hlen]

/-- Bytes of no valid size make an invalid key. -/
theorem isValid_ofBytes_of_not_validSize {v : List UInt8} (h : validSize v = false) :
    (ofBytes v).isValid = false := by
  match v, h with
  | [], _ => rfl
  | b :: v, h =>
    have hlen : getLen b ≠ v.length + 1 := by simpa [validSize] using h
    have hcond : ¬(getLen b ≠ 0 ∧ getLen b = (b :: v).length) := fun h => hlen h.2
    rw [ofBytes, if_neg hcond]
    rfl

/-- A key built from bytes is valid exactly when the bytes have a valid size. -/
theorem isValid_ofBytes (v : List UInt8) : (ofBytes v).isValid = validSize v := by
  cases hv : validSize v with
  | false => exact isValid_ofBytes_of_not_validSize hv
  | true =>
    rw [ofBytes_of_validSize hv]
    match v, hv with
    | b :: v, hv =>
      have hlen : getLen b = v.length + 1 := by simpa [validSize] using hv
      simp [isValid, size, hlen]

/-- A key built from bytes of a valid size has their `Hash160` as its id. -/
theorem getID_ofBytes_of_validSize (Hash160 : List UInt8 → CKeyID) {v : List UInt8}
    (h : validSize v = true) : (ofBytes v).getID Hash160 = Hash160 v := by
  rw [ofBytes_of_validSize h]
  match v, h with
  | b :: v, h =>
    have hlen : getLen b = v.length + 1 := by simpa [validSize] using h
    simp [getID, size, hlen]

/-- A key built from bytes of a valid size verifies as secp256k1 does under those bytes. -/
theorem verify_ofBytes_of_validSize (Verify : List UInt8 → uint256 → List UInt8 → Bool)
    {v : List UInt8} (h : validSize v = true) (hash : uint256) (vchSig : List UInt8) :
    (ofBytes v).verify Verify hash vchSig = Verify v hash vchSig := by
  have hvalid := isValid_ofBytes v
  rw [h] at hvalid
  rw [verify, hvalid, ofBytes_of_validSize h, Bool.true_and]

end CPubKey

/-- `CKey`, a secret key. -/
def CKey : Type := BitVec 256

/-- `uint160(const std::vector<unsigned char>&)` of 20 bytes, as a key id. -/
def CKeyID.ofBytes (vch : List UInt8) : CKeyID := BitVec.ofNat 160 (Codec.decLE vch)

/-- A key id read back from its 20 bytes. -/
theorem CKeyID.ofBytes_encLE (keyID : CKeyID) :
    CKeyID.ofBytes (Codec.encLE 20 (BitVec.toNat keyID)) = keyID := by
  have hlt : BitVec.toNat keyID < 2 ^ 160 := (keyID : BitVec 160).isLt
  show (BitVec.ofNat 160 _ : BitVec 160) = (keyID : BitVec 160)
  apply BitVec.eq_of_toNat_eq
  simp only [BitVec.toNat_ofNat, Codec.decLE_encLE]
  omega

/-- The hash and curve operations that signing and checking a block read. -/
structure KeyEnv where
  /-- `Hash160` of a serialized public key. -/
  Hash160 : List UInt8 → CKeyID
  /-- `CKey::Sign`: a DER signature of the hash, or `none` where signing fails. -/
  Sign : CKey → uint256 → Option (List UInt8)
  /-- What `CPubKey::Verify` does with a key of valid size: parse it and the lax-DER signature,
  normalize the signature and verify it. -/
  Verify : List UInt8 → uint256 → List UInt8 → Bool

/-- A block as `CBlockSigner` reads it: its transactions, `GetHash()` of its header, which
`vchBlockSig` is not part of, and `vchBlockSig`. -/
structure CBlockWithSig extends CBlock where
  hash : uint256
  vchBlockSig : List UInt8

namespace CBlockWithSig

/-- `block.vtx[1]->vout[1]`, the coinstake's output that pays the staker. -/
def coinStakeOut (b : CBlockWithSig) : Option CTxOut := b.vtx[1]? >>= (·.vout[1]?)

/-- A proof-of-stake block has the output. -/
theorem coinStakeOut_isSome {b : CBlockWithSig} (h : b.isProofOfStake = true) :
    ∃ out, b.coinStakeOut = some out := by
  unfold CBlock.isProofOfStake at h
  split at h
  · rename_i tx _ hv
    unfold CTransaction.isCoinStake at h
    split at h
    · rename_i out _ _ hvout
      exact ⟨out, by simp [coinStakeOut, hv, hvout]⟩
    · cases h
  · cases h

/-- A signature changes neither the transactions nor the hash. -/
@[simp] theorem coinStakeOut_setSig (b : CBlockWithSig) (vchBlockSig : List UInt8) :
    coinStakeOut { b with vchBlockSig } = b.coinStakeOut := rfl

end CBlockWithSig

open txnouttype CBlockWithSig

section
variable (env : KeyEnv)

/-- `CBlockSigner::SignBlock` with the wallet's `GetKey`: the signed block, or `none` where it
returns false. -/
def signBlock (GetKey : CKeyID → Option CKey) (block : CBlockWithSig) : Option CBlockWithSig :=
  if block.isProofOfWork then none
  else do
    let txout ← block.coinStakeOut
    let (whichType, vSolutions) := solver txout.scriptPubKey
    let keyID : CKeyID := match whichType, vSolutions with
      | TX_PUBKEYHASH, sol :: _ => CKeyID.ofBytes sol
      | TX_PUBKEY, sol :: _ => (CPubKey.ofBytes sol).getID env.Hash160
      -- `CKeyID()`, the null id, for every other type
      | _, _ => 0
    let key ← GetKey keyID
    let vchBlockSig ← env.Sign key block.hash
    some { block with vchBlockSig }

/-- `CBlockSigner::CheckBlockSignature`, or `none` where it takes `vSolutions[0]` of an empty
vector. -/
def checkBlockSignature (hashGenesisBlock : uint256) (block : CBlockWithSig) : Option Bool :=
  if block.isProofOfWork || block.hash == hashGenesisBlock then some block.vchBlockSig.isEmpty
  else do
    let txout ← block.coinStakeOut
    let (whichType, vSolutions) := solver txout.scriptPubKey
    -- `valtype& vchPubKey = vSolutions[0]`, before the type is looked at
    let vchPubKey ← vSolutions[0]?
    match whichType with
    | TX_PUBKEY =>
      let key := CPubKey.ofBytes vchPubKey
      if block.vchBlockSig.isEmpty then some false
      else some (key.verify env.Verify block.hash block.vchBlockSig)
    | TX_PUBKEYHASH =>
      -- the key id that the branch computes is not used
      let pubkey := CPubKey.ofBytes vchPubKey
      if !pubkey.isValid then some false
      else if block.vchBlockSig.isEmpty then some false
      else some (pubkey.verify env.Verify block.hash block.vchBlockSig)
    | _ => some false

/-- On a proof-of-stake block other than the genesis block, the checker reads its output's first
solution. -/
theorem checkBlockSignature_of_stake {hashGenesisBlock : uint256} {block : CBlockWithSig}
    {out : CTxOut} (hpos : block.isProofOfStake = true) (hgen : block.hash ≠ hashGenesisBlock)
    (hout : block.coinStakeOut = some out) :
    checkBlockSignature env hashGenesisBlock block =
      (solver out.scriptPubKey).2[0]?.bind fun vchPubKey =>
        match (solver out.scriptPubKey).1 with
        | TX_PUBKEY =>
          if block.vchBlockSig.isEmpty then some false
          else some ((CPubKey.ofBytes vchPubKey).verify env.Verify block.hash block.vchBlockSig)
        | TX_PUBKEYHASH =>
          if !(CPubKey.ofBytes vchPubKey).isValid then some false
          else if block.vchBlockSig.isEmpty then some false
          else some ((CPubKey.ofBytes vchPubKey).verify env.Verify block.hash block.vchBlockSig)
        | _ => some false := by
  simp [checkBlockSignature, CBlock.isProofOfWork, hpos, hgen, hout]

/-- The checker reads past the end of `vSolutions` exactly where the coinstake's output is a data
carrier or matches no template. -/
theorem checkBlockSignature_eq_none_iff {hashGenesisBlock : uint256} {block : CBlockWithSig}
    (hpos : block.isProofOfStake = true) (hgen : block.hash ≠ hashGenesisBlock) :
    checkBlockSignature env hashGenesisBlock block = none ↔
      ∃ out, block.coinStakeOut = some out ∧ ((solver out.scriptPubKey).1 = TX_NONSTANDARD ∨
        (solver out.scriptPubKey).1 = TX_NULL_DATA) := by
  obtain ⟨out, hout⟩ := coinStakeOut_isSome hpos
  rw [checkBlockSignature_of_stake env hpos hgen hout]
  simp only [hout, Option.some.injEq, exists_eq_left']
  rw [← solver_solutions_eq_nil_iff]
  -- every type answers once the first solution is there
  cases hsol : (solver out.scriptPubKey).2 with
  | nil => simp
  | cons vchPubKey _ =>
    simp only [List.getElem?_cons_zero, Option.bind_some, reduceCtorEq, iff_false]
    split
    · split_ifs <;> simp
    · split_ifs <;> simp
    · simp

/-- The checker accepts only a signature, under the key that a pay-to-pubkey output names. -/
theorem checkBlockSignature_eq_some_true {hashGenesisBlock : uint256} {block : CBlockWithSig}
    (hpos : block.isProofOfStake = true) (hgen : block.hash ≠ hashGenesisBlock)
    (h : checkBlockSignature env hashGenesisBlock block = some true) :
    ∃ out pubKey, block.coinStakeOut = some out ∧ out.scriptPubKey = getScriptForRawPubKey pubKey ∧
      validSize pubKey = true ∧ block.vchBlockSig ≠ [] ∧
      env.Verify pubKey block.hash block.vchBlockSig = true := by
  obtain ⟨out, hout⟩ := coinStakeOut_isSome hpos
  rw [checkBlockSignature_of_stake env hpos hgen hout] at h
  cases htype : (solver out.scriptPubKey).1
  case TX_PUBKEY =>
    obtain ⟨pubKey, hsol, hmatch⟩ := solver_eq_pubkey htype
    obtain ⟨hv, hscript⟩ := (matchPayToPubkey_eq_some_iff _ _).1 hmatch
    simp only [hsol, List.getElem?_cons_zero, Option.bind_some,
      CPubKey.verify_ofBytes_of_validSize _ hv] at h
    split_ifs at h with hsig
    · simp at h
    · simp only [Option.some.injEq] at h
      exact ⟨out, pubKey, hout, hscript, hv, by simpa using hsig, h⟩
  case TX_PUBKEYHASH =>
    -- the 20 bytes of a hash are no key
    obtain ⟨pubkeyhash, hsol, hmatch⟩ := solver_eq_pubkeyhash htype
    have hlen := length_of_matchPayToPubkeyHash hmatch
    have hinvalid : (CPubKey.ofBytes pubkeyhash).isValid = false := by
      apply CPubKey.isValid_ofBytes_of_not_validSize
      cases hv : validSize pubkeyhash
      · rfl
      · rcases length_of_validSize hv with h33 | h65 <;> omega
    simp [hsol, hinvalid] at h
  all_goals
    simp only [htype] at h
    cases hsol : (solver out.scriptPubKey).2 <;> simp [hsol] at h

/-- Every block whose coinstake pays to a key hash fails the check, whatever it carries. -/
theorem checkBlockSignature_getScriptForDestination {hashGenesisBlock : uint256}
    {block : CBlockWithSig} {out : CTxOut} {keyID : CKeyID} (hpos : block.isProofOfStake = true)
    (hgen : block.hash ≠ hashGenesisBlock) (hout : block.coinStakeOut = some out)
    (hscript : out.scriptPubKey = getScriptForDestination keyID) :
    checkBlockSignature env hashGenesisBlock block = some false := by
  rw [checkBlockSignature_of_stake env hpos hgen hout, hscript, solver_getScriptForDestination]
  have hinvalid : (CPubKey.ofBytes (Codec.encLE 20 (BitVec.toNat keyID))).isValid = false := by
    apply CPubKey.isValid_ofBytes_of_not_validSize
    cases hv : validSize (Codec.encLE 20 (BitVec.toNat keyID))
    · rfl
    · rcases length_of_validSize hv with hk | hk <;> simp at hk
  simp [hinvalid]

/-- The signer signs a block whose coinstake pays to a key hash with the wallet's key of that
hash. -/
theorem signBlock_getScriptForDestination {GetKey : CKeyID → Option CKey} {block : CBlockWithSig}
    {out : CTxOut} {keyID : CKeyID} {key : CKey} {vchBlockSig : List UInt8}
    (hpos : block.isProofOfStake = true) (hout : block.coinStakeOut = some out)
    (hscript : out.scriptPubKey = getScriptForDestination keyID) (hkey : GetKey keyID = some key)
    (hsign : env.Sign key block.hash = some vchBlockSig) :
    signBlock env GetKey block = some { block with vchBlockSig } := by
  simp [signBlock, CBlock.isProofOfWork, hpos, hout, hscript, solver_getScriptForDestination,
    CKeyID.ofBytes_encLE, hkey, hsign]

/-- The checker accepts what the signer signs for a pay-to-pubkey output, when the wallet's key
under the key's id signs what the key verifies. -/
theorem checkBlockSignature_signBlock {hashGenesisBlock : uint256}
    {GetKey : CKeyID → Option CKey} {block signed : CBlockWithSig} {out : CTxOut}
    {pubKey : List UInt8} (hpos : block.isProofOfStake = true)
    (hgen : block.hash ≠ hashGenesisBlock) (hout : block.coinStakeOut = some out)
    (hscript : out.scriptPubKey = getScriptForRawPubKey pubKey) (hv : validSize pubKey = true)
    (hkey : ∀ key, GetKey (env.Hash160 pubKey) = some key → ∀ hash vchSig,
      env.Sign key hash = some vchSig → vchSig ≠ [] ∧ env.Verify pubKey hash vchSig = true)
    (h : signBlock env GetKey block = some signed) :
    checkBlockSignature env hashGenesisBlock signed = some true := by
  simp only [signBlock, CBlock.isProofOfWork, hpos, Bool.not_true, Bool.false_eq_true, if_false,
    hout, hscript, solver_getScriptForRawPubKey hv, CPubKey.getID_ofBytes_of_validSize _ hv,
    Option.bind_eq_bind, Option.bind_some]
    at h
  obtain ⟨key, hgk, h⟩ := Option.bind_eq_some_iff.1 h
  obtain ⟨vchSig, hsign, hsigned⟩ := Option.bind_eq_some_iff.1 h
  obtain rfl := Option.some.inj hsigned
  obtain ⟨hne, hverify⟩ := hkey key hgk block.hash vchSig hsign
  -- the signed block has the transactions and the hash of the block
  have hcheck := @checkBlockSignature_of_stake env hashGenesisBlock
    { block with vchBlockSig := vchSig } out hpos hgen hout
  rw [hcheck]
  simp [hscript, solver_getScriptForRawPubKey hv, CPubKey.verify_ofBytes_of_validSize _ hv, hne,
    hverify]

end

namespace SignFixture

open CBlockWithSig

/-- A coinstake spending `9:0`, with its first output empty and its second paying to `script`. -/
def coinStake (script : CScript) : CTransaction :=
  ⟨3, 1, TRANSACTION_NORMAL, [⟨⟨9, 0⟩⟩], [⟨0, []⟩, ⟨1000 * COIN, script⟩], none⟩

/-- An unsigned proof-of-stake block, of hash `42`, whose coinstake pays to `script`. -/
def stakeBlock (script : CScript) : CBlockWithSig where
  vtx := [⟨10, 1, TRANSACTION_COINBASE, [⟨⟨0, COutPoint.NULL_INDEX⟩⟩], [⟨0, []⟩], none⟩,
    coinStake script]
  hash := 42
  vchBlockSig := []

/-- A wallet that holds one key, under the id `7`. -/
def wallet (keyID : CKeyID) : Option CKey :=
  if keyID = 7 then some (BitVec.ofNat 256 5) else none

/-- Failing input: under every `Hash160` and every verifier, with a signer that always signs and
the genesis hash `0`, two proof-of-stake blocks reach the signature check of `CheckBlock`. The
first pays its stake to `OP_RETURN`, and the checker takes the first solution of none. The second
pays its stake to the key id `7`: the signer signs it with the wallet's key, and the checker
refuses what the signer signed. -/
theorem stakeBlock_signature_check_fails (Hash160 : List UInt8 → CKeyID)
    (Verify : List UInt8 → uint256 → List UInt8 → Bool) :
    (stakeBlock [OP_RETURN]).isProofOfStake = true ∧
      checkBlockSignature ⟨Hash160, fun _ _ => some [0x30], Verify⟩ 0
        (stakeBlock [OP_RETURN]) = none ∧
    (stakeBlock (getScriptForDestination 7)).isProofOfStake = true ∧
      ∃ signed, signBlock ⟨Hash160, fun _ _ => some [0x30], Verify⟩ wallet
          (stakeBlock (getScriptForDestination 7)) = some signed ∧
        checkBlockSignature ⟨Hash160, fun _ _ => some [0x30], Verify⟩ 0 signed = some false := by
  have hgen : (42 : uint256) ≠ 0 := by decide
  have hnull : (solver [OP_RETURN]).1 = txnouttype.TX_NULL_DATA := by decide
  refine ⟨rfl, ?_, rfl, { stakeBlock (getScriptForDestination 7) with vchBlockSig := [0x30] },
    ?_, ?_⟩
  · exact (checkBlockSignature_eq_none_iff _ rfl hgen).2 ⟨_, rfl, .inr hnull⟩
  · exact signBlock_getScriptForDestination _ rfl rfl rfl rfl rfl
  · exact checkBlockSignature_getScriptForDestination _ rfl hgen rfl rfl

end SignFixture

end Emrals
