import Emrals.Transaction

/-!
# The UTXO set

`Coin` (`src/coins.h:30`) is an unspent output with the height and the kind of the transaction
that created it. The UTXO set a block is connected against is, as far as a read sees it, one map
from outpoints to unspent coins (`CoinsMap`): `AddCoin`, `SpendCoin`, `AddCoins` and
`UpdateCoins` (`src/coins.cpp:70`, `src/validation.cpp:1302`) act on it as below, and
`HaveInputs`, `AccessCoin` and `GetValueIn` read it. The cache layers that implement it, with
their flags and memory accounting, refine this map.

A failed `assert`, and the `logic_error` that `AddCoin` throws, are `none`.
-/

namespace Emrals

/-- `OP_RETURN`. -/
def OP_RETURN : UInt8 := 0x6a

/-- `MAX_SCRIPT_SIZE`. -/
def MAX_SCRIPT_SIZE : Nat := 10000

/-- `CScript::IsUnspendable`: a script that starts with `OP_RETURN` or is too long to run. -/
def CScript.isUnspendable (s : CScript) : Bool :=
  s.head? == some OP_RETURN || s.length > MAX_SCRIPT_SIZE

/-- `Coin`. -/
structure Coin where
  out : CTxOut
  fCoinBase : Bool
  nHeight : Int
  fCoinStake : Bool
  deriving DecidableEq

/-- `Coin::IsSpent`: the output was set null. -/
def Coin.isSpent (c : Coin) : Bool := c.out.isNull

/-- The UTXO set: the unspent coin at each outpoint. -/
abbrev CoinsMap := COutPoint → Option Coin

namespace CoinsMap

/-- `AddCoin`: an unspendable output is not stored; without `possible_overwrite`, replacing an
unspent coin throws. -/
def addCoin (m : CoinsMap) (outpoint : COutPoint) (coin : Coin) (possible_overwrite : Bool) :
    Option CoinsMap :=
  if coin.isSpent then none
  else if coin.out.scriptPubKey.isUnspendable then some m
  -- "Adding new coin that replaces non-pruned entry"
  else if !possible_overwrite && (m outpoint).isSome then none
  else some (Function.update m outpoint (some coin))

/-- `SpendCoin`, under the `assert(is_spent)` of `UpdateCoins`: the coin must be there. -/
def spendCoin (m : CoinsMap) (outpoint : COutPoint) : Option CoinsMap :=
  if (m outpoint).isSome then some (Function.update m outpoint none) else none

/-- The loop of `AddCoins` from output index `i` on. -/
def addCoinsFrom (txid : uint256) (nHeight : Int) (fCoinbase fCoinStake : Bool) :
    Nat → CoinsMap → List CTxOut → Option CoinsMap
  | _, m, [] => some m
  | i, m, out :: rest => do
    -- `check` is false in `UpdateCoins`, so a coinbase may overwrite and nothing else may
    let m ← m.addCoin ⟨txid, UInt32.ofNat i⟩ ⟨out, fCoinbase, nHeight, fCoinStake⟩ fCoinbase
    addCoinsFrom txid nHeight fCoinbase fCoinStake (i + 1) m rest

/-- `AddCoins(cache, tx, nHeight)`. -/
def addCoins (m : CoinsMap) (tx : CTransaction) (nHeight : Int) : Option CoinsMap :=
  addCoinsFrom tx.hash nHeight tx.isCoinBase tx.isCoinStake 0 m tx.vout

/-- `UpdateCoins`: spend the inputs of a transaction that is not a coinbase, then add its
outputs. -/
def updateCoins (m : CoinsMap) (tx : CTransaction) (nHeight : Int) : Option CoinsMap := do
  let m ← if tx.isCoinBase then pure m else tx.vin.foldlM (fun m txin => m.spendCoin txin.prevout) m
  m.addCoins tx nHeight

/-- `HaveInputs`. -/
def haveInputs (m : CoinsMap) (tx : CTransaction) : Bool :=
  tx.isCoinBase || tx.vin.all fun txin => (m txin.prevout).isSome

/-- `AccessCoin(outpoint).out.nValue`: a missing coin reads as the empty coin, whose output is
null (`nValue == -1`). -/
def accessValue (m : CoinsMap) (outpoint : COutPoint) : CAmount :=
  ((m outpoint).map fun c => c.out.nValue).getD (-1)

/-- `GetValueIn`. -/
def getValueIn (m : CoinsMap) (tx : CTransaction) : CAmount :=
  if tx.isCoinBase then 0 else (tx.vin.map fun txin => m.accessValue txin.prevout).sum

/-! ## What adding the outputs of a transaction changes -/

/-- A coin after `AddCoins` was there before, or is one of the new coins: of the kind and at the
height of the transaction whose outputs were added. -/
theorem addCoinsFrom_new_coin {txid : uint256} {nHeight : Int} {fCoinbase fCoinStake : Bool}
    {o : COutPoint} {c : Coin} :
    ∀ {i : Nat} {m m' : CoinsMap} {outs : List CTxOut},
      addCoinsFrom txid nHeight fCoinbase fCoinStake i m outs = some m' → m' o = some c →
        m o = some c ∨ (c.fCoinBase = fCoinbase ∧ c.fCoinStake = fCoinStake ∧ c.nHeight = nHeight)
  | _, m, m', [], h, hc => by cases h; exact .inl hc
  | i, m, m', out :: rest, h, hc => by
    simp only [addCoinsFrom, Option.bind_eq_bind, Option.bind_eq_some_iff] at h
    obtain ⟨m₁, h₁, hrest⟩ := h
    rcases addCoinsFrom_new_coin hrest hc with hold | hnew
    · -- the coin was there after the first output: it is old or that output's coin
      unfold addCoin at h₁
      split at h₁
      · cases h₁
      · split at h₁
        · cases h₁; exact .inl hold
        · split at h₁
          · cases h₁
          · cases h₁
            by_cases ho : o = ⟨txid, UInt32.ofNat i⟩
            · subst ho
              rw [Function.update_self] at hold
              cases hold
              exact .inr ⟨rfl, rfl, rfl⟩
            · rw [Function.update_of_ne ho] at hold
              exact .inl hold
    · exact .inr hnew

end CoinsMap

end Emrals
