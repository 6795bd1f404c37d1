import Emrals.Coins.View
import Emrals.Lib.Codec

/-!
# Standard scripts

`Solver` (`src/script/standard.cpp:92`) classifies a script by the first template it matches,
in the order of the source: pay-to-script-hash, witness program, provably unspendable data
carrier, pay-to-pubkey, pay-to-pubkey-hash, bare multisig. It also returns the template's data,
the solutions. Two kinds of script have no solutions at all, data carriers and scripts that
match no template (`solver_solutions_eq_nil_iff`). `CBlockSigner::CheckBlockSignature` reads the
first solution without checking this.

The model reads a script as its bytes. `GetScriptOp` (`src/script/script.cpp:290`) reads one
operation with its pushed data. The loops over operations in `IsPushOnly` and `MatchMultisig`
run on fuel, the script's length; every operation reads at least one byte.
`CPubKey::ValidSize` (`src/pubkey.h:74`) is the size check of a serialized public key that the
templates use. The two scripts a key pays to are `GetScriptForRawPubKey` and, by its hash,
`GetScriptForDestination`. `Solver` reads each back as its key or its hash
(`solver_getScriptForRawPubKey`, `solver_getScriptForDestination`).
-/

namespace Emrals

/-! ## Opcodes -/

/-- `OP_0`. -/
def OP_0 : UInt8 := 0x00
/-- `OP_PUSHDATA1`. -/
def OP_PUSHDATA1 : UInt8 := 0x4c
/-- `OP_PUSHDATA2`. -/
def OP_PUSHDATA2 : UInt8 := 0x4d
/-- `OP_PUSHDATA4`. -/
def OP_PUSHDATA4 : UInt8 := 0x4e
/-- `OP_1`. -/
def OP_1 : UInt8 := 0x51
/-- `OP_16`. -/
def OP_16 : UInt8 := 0x60
/-- `OP_DUP`. -/
def OP_DUP : UInt8 := 0x76
/-- `OP_EQUAL`. -/
def OP_EQUAL : UInt8 := 0x87
/-- `OP_EQUALVERIFY`. -/
def OP_EQUALVERIFY : UInt8 := 0x88
/-- `OP_HASH160`. -/
def OP_HASH160 : UInt8 := 0xa9
/-- `OP_CHECKSIG`. -/
def OP_CHECKSIG : UInt8 := 0xac
/-- `OP_CHECKMULTISIG`. -/
def OP_CHECKMULTISIG : UInt8 := 0xae
/-- `OP_INVALIDOPCODE`, what `GetScriptOp` reports when it fails. -/
def OP_INVALIDOPCODE : UInt8 := 0xff

/-- `IsSmallInteger`: `OP_1` to `OP_16`. -/
def isSmallInteger (opcode : UInt8) : Bool := OP_1 ≤ opcode && opcode ≤ OP_16

/-- `CScript::DecodeOP_N`, on `OP_0` and the small integers. -/
def decodeOP_N (opcode : UInt8) : Nat :=
  if opcode = OP_0 then 0 else opcode.toNat - (OP_1.toNat - 1)

/-! ## Reading operations -/

/-- The size that the push `opcode` announces, and the script after the bytes that hold it. -/
def pushSize (opcode : UInt8) (pc : CScript) : Option (Nat × CScript) :=
  if opcode < OP_PUSHDATA1 then some (opcode.toNat, pc)
  else if opcode = OP_PUSHDATA1 then
    match pc with
    | b :: pc => some (b.toNat, pc)
    | [] => none
  else if opcode = OP_PUSHDATA2 then
    if pc.length < 2 then none else some (Codec.decLE (pc.take 2), pc.drop 2)
  else if pc.length < 4 then none else some (Codec.decLE (pc.take 4), pc.drop 4)

/-- `GetScriptOp`: the opcode, the data it pushes and the rest of the script, or `none` where the
script ends inside the operation. -/
def getScriptOp : CScript → Option (UInt8 × List UInt8 × CScript)
  | [] => none
  | opcode :: pc =>
    if opcode ≤ OP_PUSHDATA4 then do
      let (nSize, pc) ← pushSize opcode pc
      if pc.length < nSize then none else some (opcode, pc.take nSize, pc.drop nSize)
    else some (opcode, [], pc)

/-- The loop of `CScript::IsPushOnly`, on fuel. -/
def isPushOnlyFrom : Nat → CScript → Bool
  | _, [] => true
  | 0, _ :: _ => false
  | fuel + 1, pc@(_ :: _) =>
    match getScriptOp pc with
    | none => false
    | some (opcode, _, rest) => if opcode > OP_16 then false else isPushOnlyFrom fuel rest

/-- `CScript::IsPushOnly(pc)`: every operation from `pc` on is a push. -/
def CScript.isPushOnly (pc : CScript) : Bool := isPushOnlyFrom pc.length pc

/-- `CScript::IsPayToScriptHash`. -/
def CScript.isPayToScriptHash (s : CScript) : Bool :=
  s.length == 23 && s[0]? == some OP_HASH160 && s[1]? == some 0x14 && s[22]? == some OP_EQUAL

/-- `CScript::IsWitnessProgram`: the version and the program. -/
def CScript.isWitnessProgram (s : CScript) : Option (Nat × List UInt8) :=
  if s.length < 4 || s.length > 42 then none
  else match s with
    | v :: n :: program =>
      if v ≠ OP_0 && (v < OP_1 || v > OP_16) then none
      else if n.toNat + 2 = s.length then some (decodeOP_N v, program)
      else none
    | _ => none

/-! ## Templates -/

/-- `CPubKey::GetLen`: the size of a serialized public key, by its first byte. -/
def getLen (chHeader : UInt8) : Nat :=
  if chHeader = 2 || chHeader = 3 then 33
  else if chHeader = 4 || chHeader = 6 || chHeader = 7 then 65
  else 0

/-- `CPubKey::ValidSize`. -/
def validSize : List UInt8 → Bool
  | [] => false
  | b :: v => getLen b == v.length + 1

/-- `MatchPayToPubkey`: a push of 65 or 33 bytes, then `OP_CHECKSIG`. The first size that the
script has decides; its key must then have a valid size. -/
def matchPayToPubkey (s : CScript) : Option (List UInt8) :=
  if s.length = 65 + 2 && s[0]? == some 65 && s.getLast? == some OP_CHECKSIG then
    let pubkey := (s.drop 1).take 65
    if validSize pubkey then some pubkey else none
  else if s.length = 33 + 2 && s[0]? == some 33 && s.getLast? == some OP_CHECKSIG then
    let pubkey := (s.drop 1).take 33
    if validSize pubkey then some pubkey else none
  else none

/-- `MatchPayToPubkeyHash`: `OP_DUP OP_HASH160 <20 bytes> OP_EQUALVERIFY OP_CHECKSIG`. -/
def matchPayToPubkeyHash (s : CScript) : Option (List UInt8) :=
  if s.length = 25 && s[0]? == some OP_DUP && s[1]? == some OP_HASH160 && s[2]? == some 20 &&
      s[23]? == some OP_EQUALVERIFY && s[24]? == some OP_CHECKSIG then
    some ((s.drop 3).take 20)
  else none

/-- The loop of `MatchMultisig` over the pushes of valid key size, on fuel. It returns the keys,
the opcode that ended the loop (`OP_INVALIDOPCODE` where `GetOp` failed) and the script after
it. -/
def matchMultisigKeys : Nat → CScript → List (List UInt8) → List (List UInt8) × UInt8 × CScript
  | 0, pc, pubkeys => (pubkeys, OP_INVALIDOPCODE, pc)
  | fuel + 1, pc, pubkeys =>
    match getScriptOp pc with
    | none => (pubkeys, OP_INVALIDOPCODE, pc)
    | some (opcode, data, rest) =>
      if validSize data then matchMultisigKeys fuel rest (pubkeys ++ [data])
      else (pubkeys, opcode, rest)

/-- `MatchMultisig`: `OP_m <keys> OP_n OP_CHECKMULTISIG` with `n` keys and `m ≤ n`; the number
of required signatures and the keys. -/
def matchMultisig (s : CScript) : Option (Nat × List (List UInt8)) :=
  if s.length < 1 || s.getLast? != some OP_CHECKMULTISIG then none
  else match getScriptOp s with
    | none => none
    | some (opcode, _, pc) =>
      if !isSmallInteger opcode then none
      else
        let required := decodeOP_N opcode
        let (pubkeys, opcode, pc) := matchMultisigKeys pc.length pc []
        if !isSmallInteger opcode then none
        else
          let keys := decodeOP_N opcode
          if pubkeys.length != keys || keys < required then none
          -- `it + 1 == script.end()`: only the final `OP_CHECKMULTISIG` is left
          else if pc.length = 1 then some (required, pubkeys)
          else none

/-- `txnouttype`. -/
inductive txnouttype where
  | TX_NONSTANDARD
  | TX_PUBKEY
  | TX_PUBKEYHASH
  | TX_SCRIPTHASH
  | TX_MULTISIG
  | TX_NULL_DATA
  | TX_WITNESS_V0_SCRIPTHASH
  | TX_WITNESS_V0_KEYHASH
  | TX_WITNESS_UNKNOWN
  deriving DecidableEq, Repr

open txnouttype

/-- The templates that `Solver` tries last: pay-to-pubkey, pay-to-pubkey-hash, bare multisig. -/
def solverKeyTemplates (s : CScript) : txnouttype × List (List UInt8) :=
  match matchPayToPubkey s with
  | some pubkey => (TX_PUBKEY, [pubkey])
  | none =>
    match matchPayToPubkeyHash s with
    | some pubkeyhash => (TX_PUBKEYHASH, [pubkeyhash])
    | none =>
      match matchMultisig s with
      | some (required, keys) =>
        (TX_MULTISIG, [[required.toUInt8]] ++ keys ++ [[keys.length.toUInt8]])
      | none => (TX_NONSTANDARD, [])

/-- `Solver`: the script's type and its solutions. -/
def solver (s : CScript) : txnouttype × List (List UInt8) :=
  if s.isPayToScriptHash then (TX_SCRIPTHASH, [(s.drop 2).take 20])
  else match s.isWitnessProgram with
  | some (witnessversion, witnessprogram) =>
    if witnessversion = 0 && witnessprogram.length = 20 then
      (TX_WITNESS_V0_KEYHASH, [witnessprogram])
    else if witnessversion = 0 && witnessprogram.length = 32 then
      (TX_WITNESS_V0_SCRIPTHASH, [witnessprogram])
    else if witnessversion ≠ 0 then
      (TX_WITNESS_UNKNOWN, [[witnessversion.toUInt8], witnessprogram])
    else (TX_NONSTANDARD, [])
  | none =>
    if s.length ≥ 1 && s[0]? == some OP_RETURN && CScript.isPushOnly (s.drop 1) then
      (TX_NULL_DATA, [])
    else solverKeyTemplates s

/-- `GetScriptForRawPubKey`: the key pushed, then `OP_CHECKSIG`. A key of valid size is shorter
than `OP_PUSHDATA1`, so its push is its length. -/
def getScriptForRawPubKey (pubKey : List UInt8) : CScript :=
  [pubKey.length.toUInt8] ++ pubKey ++ [OP_CHECKSIG]

/-- `GetScriptForDestination` of a key id. -/
def getScriptForDestination (keyID : CKeyID) : CScript :=
  [OP_DUP, OP_HASH160, 20] ++ Codec.encLE 20 (BitVec.toNat keyID) ++ [OP_EQUALVERIFY, OP_CHECKSIG]

/-! ## Solutions -/

/-- Scripts without solutions: the data carriers and the scripts that match no template. -/
theorem solver_solutions_eq_nil_iff (s : CScript) :
    (solver s).2 = [] ↔ (solver s).1 = TX_NONSTANDARD ∨ (solver s).1 = TX_NULL_DATA := by
  unfold solver solverKeyTemplates
  split
  · simp
  · split
    · split_ifs <;> simp
    · split
      · simp
      · split
        · simp
        · split
          · simp
          · split <;> simp

/-- Where the script is no script hash and no witness program and does not start with
`OP_RETURN`, `Solver` reads it by the key templates. -/
theorem solver_eq_solverKeyTemplates {s : CScript} (hsh : s.isPayToScriptHash = false)
    (hw : s.isWitnessProgram = none) (hnull : s[0]? ≠ some OP_RETURN) :
    solver s = solverKeyTemplates s := by
  simp [solver, hsh, hw, hnull]

/-- A key type comes from the key templates. -/
theorem solver_eq_solverKeyTemplates_of_type {s : CScript}
    (h : (solver s).1 = TX_PUBKEY ∨ (solver s).1 = TX_PUBKEYHASH) :
    solver s = solverKeyTemplates s := by
  unfold solver at h ⊢
  cases hsh : s.isPayToScriptHash
  case true => simp [hsh] at h
  simp only [hsh, Bool.false_eq_true, if_false] at h ⊢
  cases hw : s.isWitnessProgram with
  | some w =>
    simp only [hw] at h
    split_ifs at h <;> simp at h
  | none =>
    simp only [hw] at h ⊢
    split_ifs at h ⊢
    · simp at h
    · rfl

/-- The type `TX_PUBKEY` comes with the one key that `MatchPayToPubkey` found. -/
theorem solver_eq_pubkey {s : CScript} (h : (solver s).1 = TX_PUBKEY) :
    ∃ pubKey, solver s = (TX_PUBKEY, [pubKey]) ∧ matchPayToPubkey s = some pubKey := by
  have hkeys := solver_eq_solverKeyTemplates_of_type (.inl h)
  rw [hkeys] at h ⊢
  unfold solverKeyTemplates at h ⊢
  cases hm : matchPayToPubkey s with
  | some pubKey => exact ⟨pubKey, rfl, rfl⟩
  | none =>
    simp only [hm] at h
    split at h
    · simp at h
    · split at h <;> simp at h

/-- The type `TX_PUBKEYHASH` comes with the one hash that `MatchPayToPubkeyHash` found. -/
theorem solver_eq_pubkeyhash {s : CScript} (h : (solver s).1 = TX_PUBKEYHASH) :
    ∃ pubkeyhash, solver s = (TX_PUBKEYHASH, [pubkeyhash]) ∧
      matchPayToPubkeyHash s = some pubkeyhash := by
  have hkeys := solver_eq_solverKeyTemplates_of_type (.inr h)
  rw [hkeys] at h ⊢
  unfold solverKeyTemplates at h ⊢
  cases hm : matchPayToPubkey s with
  | some pubKey => simp [hm] at h
  | none =>
    simp only [hm] at h ⊢
    cases hmh : matchPayToPubkeyHash s with
    | some pubkeyhash => exact ⟨pubkeyhash, rfl, rfl⟩
    | none =>
      simp only [hmh] at h
      split at h <;> simp at h

/-- `GetLen` knows two sizes. -/
theorem getLen_eq (b : UInt8) : getLen b = 0 ∨ getLen b = 33 ∨ getLen b = 65 := by
  unfold getLen
  split_ifs <;> simp

/-- A valid key has 33 or 65 bytes. -/
theorem length_of_validSize {v : List UInt8} (h : validSize v = true) :
    v.length = 33 ∨ v.length = 65 := by
  match v, h with
  | b :: v, h =>
    have hlen : getLen b = v.length + 1 := by simpa [validSize] using h
    rcases getLen_eq b with h0 | h0 | h0 <;> simp only [List.length_cons] <;> omega

/-- A script of `n + 2` bytes is its first byte, `n` bytes and its last byte. -/
theorem eq_of_length_eq_add_two {s : CScript} {n : Nat} {a z : UInt8} (hlen : s.length = n + 2)
    (ha : s[0]? = some a) (hz : s.getLast? = some z) : s = a :: (s.drop 1).take n ++ [z] := by
  match s, hlen with
  | a' :: t, hlen =>
    obtain rfl : a' = a := by simpa using ha
    -- `t` is the `n` middle bytes and the last one
    obtain ⟨init, z', rfl⟩ : ∃ init z', t = init ++ [z'] := by
      rcases List.eq_nil_or_concat t with rfl | ⟨init, z', rfl⟩
      · simp at hlen
      · exact ⟨init, z', List.concat_eq_append⟩
    have hi : init.length = n := by simpa using hlen
    obtain rfl : z' = z := by simpa [List.getLast?_cons] using hz
    subst hi
    simp

/-- `MatchPayToPubkey` matches exactly the scripts `GetScriptForRawPubKey` makes of valid keys. -/
theorem matchPayToPubkey_eq_some_iff (s : CScript) (pubKey : List UInt8) :
    matchPayToPubkey s = some pubKey ↔ validSize pubKey = true ∧ s = getScriptForRawPubKey pubKey := by
  constructor
  · intro h
    unfold matchPayToPubkey at h
    dsimp only at h
    split_ifs at h with h65 hv65 h33 hv33 <;> cases h
    · simp only [Bool.and_eq_true, beq_iff_eq, decide_eq_true_eq] at h65
      obtain ⟨⟨hlen, ha⟩, hz⟩ := h65
      refine ⟨hv65, ?_⟩
      have hk : ((s.drop 1).take 65).length = 65 := by simp; omega
      conv_lhs => rw [eq_of_length_eq_add_two hlen ha hz]
      rw [getScriptForRawPubKey, hk]
      rfl
    · simp only [Bool.and_eq_true, beq_iff_eq, decide_eq_true_eq] at h33
      obtain ⟨⟨hlen, ha⟩, hz⟩ := h33
      refine ⟨hv33, ?_⟩
      have hk : ((s.drop 1).take 33).length = 33 := by simp; omega
      conv_lhs => rw [eq_of_length_eq_add_two hlen ha hz]
      rw [getScriptForRawPubKey, hk]
      rfl
  · rintro ⟨hv, rfl⟩
    rcases length_of_validSize hv with hk | hk
    · simp [matchPayToPubkey, getScriptForRawPubKey, hk, hv, List.getLast?_cons]
    · simp [matchPayToPubkey, getScriptForRawPubKey, hk, hv, List.getLast?_cons]

/-- `Solver` reads a script that `GetScriptForRawPubKey` made of a valid key as that key. -/
theorem solver_getScriptForRawPubKey {pubKey : List UInt8} (hv : validSize pubKey = true) :
    solver (getScriptForRawPubKey pubKey) = (TX_PUBKEY, [pubKey]) := by
  obtain ⟨b, rest, rfl⟩ : ∃ b rest, pubKey = b :: rest := by
    cases pubKey with
    | nil => simp [validSize] at hv
    | cons b rest => exact ⟨b, rest, rfl⟩
  have hmatch := (matchPayToPubkey_eq_some_iff _ (b :: rest)).2 ⟨hv, rfl⟩
  -- the push of 33 or 65 bytes is neither a script hash nor a witness program nor `OP_RETURN`
  have hsh : (getScriptForRawPubKey (b :: rest)).isPayToScriptHash = false := by
    rcases length_of_validSize hv with hk | hk <;>
      simp_all [CScript.isPayToScriptHash, getScriptForRawPubKey]
  have hw : (getScriptForRawPubKey (b :: rest)).isWitnessProgram = none := by
    rcases length_of_validSize hv with hk | hk <;>
      simp_all [CScript.isWitnessProgram, getScriptForRawPubKey, OP_0, OP_1, OP_16]
  have hnull : (getScriptForRawPubKey (b :: rest))[0]? ≠ some OP_RETURN := by
    rcases length_of_validSize hv with hk | hk <;>
      simp_all [getScriptForRawPubKey, OP_RETURN]
  rw [solver_eq_solverKeyTemplates hsh hw hnull, solverKeyTemplates, hmatch]

/-- `MatchPayToPubkeyHash` finds 20 bytes. -/
theorem length_of_matchPayToPubkeyHash {s : CScript} {pubkeyhash : List UInt8}
    (h : matchPayToPubkeyHash s = some pubkeyhash) : pubkeyhash.length = 20 := by
  unfold matchPayToPubkeyHash at h
  split_ifs at h with hs
  cases h
  simp only [Bool.and_eq_true, beq_iff_eq, decide_eq_true_eq] at hs
  simp [hs.1.1.1.1.1]

/-- `Solver` reads a script that `GetScriptForDestination` made of a key id as the id's 20 bytes. -/
theorem solver_getScriptForDestination (keyID : CKeyID) :
    solver (getScriptForDestination keyID) =
      (TX_PUBKEYHASH, [Codec.encLE 20 (BitVec.toNat keyID)]) := by
  have hlen : (Codec.encLE 20 (BitVec.toNat keyID)).length = 20 := Codec.encLE_length _ _
  have hsh : (getScriptForDestination keyID).isPayToScriptHash = false := by
    simp [CScript.isPayToScriptHash, getScriptForDestination, hlen]
  have hw : (getScriptForDestination keyID).isWitnessProgram = none := by
    simp [CScript.isWitnessProgram, getScriptForDestination, OP_DUP, OP_0, OP_1, OP_16]
  have hnull : (getScriptForDestination keyID)[0]? ≠ some OP_RETURN := by
    simp [getScriptForDestination, OP_DUP, OP_RETURN]
  have hpk : matchPayToPubkey (getScriptForDestination keyID) = none := by
    simp [matchPayToPubkey, getScriptForDestination, hlen]
  have hpkh : matchPayToPubkeyHash (getScriptForDestination keyID) =
      some (Codec.encLE 20 (BitVec.toNat keyID)) := by
    simp [matchPayToPubkeyHash, getScriptForDestination, hlen]
  rw [solver_eq_solverKeyTemplates hsh hw hnull, solverKeyTemplates, hpk, hpkh]

end Emrals
