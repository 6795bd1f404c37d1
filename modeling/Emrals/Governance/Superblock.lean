import Emrals.Validation.BlockValue

/-!
# Superblock payments

`CSuperblock::IsValid` (`src/governance/governance-classes.cpp:562-647`) accepts the transaction
that pays a triggered superblock when the height is a superblock height, the transaction has at
least as many outputs as the schedule has payments, the payments stay within the superblock's
limit, the transaction creates at most the block reward plus the payments, and every payment is
found among the outputs.

The search for payment `i` starts at the output where payment `i - 1` was found, not after it
(`matchPayments`). What it accepts is therefore a non-decreasing choice of outputs
(`matchPayments_iff`): one output can pay any number of equal payments in a row, so a schedule
that pays the same script and amount twice is met by a single output
(`duplicate_payments_share_output`). `isValid_iff` collects the checks.

The schedule is the list of payments that `ParsePaymentSchedule` builds; the decoding of its
address and amount strings is not modelled.
-/

namespace Emrals

/-- `CGovernancePayment`: a script and an amount. -/
structure CGovernancePayment where
  script : CScript
  nAmount : CAmount
  deriving DecidableEq

/-- A payment is met by an output with its script and amount. -/
def CGovernancePayment.paidBy (payment : CGovernancePayment) (out : CTxOut) : Bool :=
  payment.script == out.scriptPubKey && payment.nAmount == out.nValue

/-- `CSuperblock`, by its payment schedule. -/
structure CSuperblock where
  vecPayments : List CGovernancePayment

namespace CSuperblock

/-- `GetPaymentsTotalAmount`. -/
def getPaymentsTotalAmount (sb : CSuperblock) : CAmount := (sb.vecPayments.map (·.nAmount)).sum

/-- The inner loop of the search, from output `j` on: the index of the first output that meets
the payment. -/
def findPaymentFrom (payment : CGovernancePayment) : Nat → List CTxOut → Option Nat
  | _, [] => none
  | j, out :: rest => if payment.paidBy out then some j else findPaymentFrom payment (j + 1) rest

/-- The loop over the payments: each is searched from the output where the previous one was
found (`nVoutIndex = j`). -/
def matchPayments (vout : List CTxOut) : Nat → List CGovernancePayment → Bool
  | _, [] => true
  | nVoutIndex, payment :: rest =>
    match findPaymentFrom payment nVoutIndex (vout.drop nVoutIndex) with
    | none => false
    | some j => matchPayments vout j rest

/-- `CSuperblock::IsValid`. The value of the transaction's inputs is read in the UTXO set of the
tip. -/
def isValid (cenv : ConnectEnv) (coinsTip : CoinsMap) (sb : CSuperblock) (txNew : CTransaction)
    (nBlockHeight : Int) (blockReward : CAmount) : Bool :=
  if !isValidBlockHeight cenv nBlockHeight then false
  else
    let nOutputs : Int := txNew.vout.length
    let nPayments : Int := sb.vecPayments.length
    let nMinerAndMasternodePayments := nOutputs - nPayments
    if nMinerAndMasternodePayments < 0 then false
    else
      let nPaymentsTotalAmount := sb.getPaymentsTotalAmount
      let nPaymentsLimit := getPaymentsLimit cenv nBlockHeight
      if nPaymentsTotalAmount > nPaymentsLimit then false
      else
        let nValueIn := coinsTip.getValueIn txNew
        let nBlockValue := txNew.getValueOut - nValueIn
        if nBlockValue > blockReward + nPaymentsTotalAmount then false
        else matchPayments txNew.vout 0 sb.vecPayments

/-! ## What the search accepts -/

/-- The payments are met in order by outputs at non-decreasing indexes from `k` on. -/
def PaidFrom (vout : List CTxOut) : Nat → List CGovernancePayment → Prop
  | _, [] => True
  | k, payment :: rest =>
    ∃ j, k ≤ j ∧ (∃ out, vout[j]? = some out ∧ payment.paidBy out = true) ∧ PaidFrom vout j rest

theorem PaidFrom.mono {vout : List CTxOut} {k k' : Nat} (hk : k ≤ k') :
    ∀ {payments : List CGovernancePayment}, PaidFrom vout k' payments → PaidFrom vout k payments
  | [], _ => trivial
  | _ :: _, ⟨j, hj, hout, hrest⟩ => ⟨j, le_trans hk hj, hout, hrest⟩

/-- What the inner loop finds meets the payment, at or after where it started. -/
theorem findPaymentFrom_eq_some {payment : CGovernancePayment} :
    ∀ {j i : Nat} {l : List CTxOut}, findPaymentFrom payment j l = some i →
      j ≤ i ∧ ∃ out, l[i - j]? = some out ∧ payment.paidBy out = true
  | _, _, [], h => by cases h
  | j, i, out :: rest, h => by
    unfold findPaymentFrom at h
    split at h
    · next hp =>
      cases h
      exact ⟨le_refl _, out, by simp, hp⟩
    · obtain ⟨hle, o, ho, hp⟩ := findPaymentFrom_eq_some h
      refine ⟨by omega, o, ?_, hp⟩
      rw [show i - j = (i - (j + 1)) + 1 by omega]
      simpa using ho

/-- The inner loop finds an output no later than any output that meets the payment. -/
theorem findPaymentFrom_le {payment : CGovernancePayment} :
    ∀ {j i : Nat} {l : List CTxOut} {out : CTxOut}, j ≤ i → l[i - j]? = some out →
      payment.paidBy out = true → ∃ i', findPaymentFrom payment j l = some i' ∧ i' ≤ i
  | _, _, [], _, _, ho, _ => by simp at ho
  | j, i, o :: rest, out, hji, ho, hp => by
    unfold findPaymentFrom
    split
    · exact ⟨j, rfl, hji⟩
    · next hno =>
      -- the output at `i` is not the first one, which does not meet the payment
      have hi : j + 1 ≤ i := by
        by_contra hlt
        have hij : i = j := by omega
        subst hij
        simp only [Nat.sub_self, List.getElem?_cons_zero, Option.some.injEq] at ho
        subst ho
        exact hno hp
      have ho' : rest[i - (j + 1)]? = some out := by
        rw [show i - j = (i - (j + 1)) + 1 by omega] at ho
        simpa using ho
      exact findPaymentFrom_le hi ho' hp

/-- The search accepts exactly the schedules met by outputs at non-decreasing indexes. The
induction is on the payments: the first output that meets a payment is at or before any other,
and what remains is met from there on (`PaidFrom.mono`). -/
theorem matchPayments_iff (vout : List CTxOut) :
    ∀ (k : Nat) (payments : List CGovernancePayment),
      matchPayments vout k payments = true ↔ PaidFrom vout k payments
  | _, [] => by simp [matchPayments, PaidFrom]
  | k, payment :: rest => by
    unfold matchPayments
    split
    · next hnone =>
      simp only [Bool.false_eq_true, false_iff]
      rintro ⟨j, hkj, ⟨out, hout, hp⟩, -⟩
      have hd : (vout.drop k)[j - k]? = some out := by
        rw [List.getElem?_drop, show k + (j - k) = j by omega]
        exact hout
      obtain ⟨i', hi', -⟩ := findPaymentFrom_le hkj hd hp
      rw [hnone] at hi'
      cases hi'
    · next j hj =>
      rw [matchPayments_iff vout j rest]
      constructor
      · intro hrest
        obtain ⟨hkj, out, hout, hp⟩ := findPaymentFrom_eq_some hj
        refine ⟨j, hkj, ⟨out, ?_, hp⟩, hrest⟩
        rw [List.getElem?_drop, show k + (j - k) = j by omega] at hout
        exact hout
      · rintro ⟨j', hkj', ⟨out, hout, hp⟩, hrest⟩
        have hd : (vout.drop k)[j' - k]? = some out := by
          rw [List.getElem?_drop, show k + (j' - k) = j' by omega]
          exact hout
        obtain ⟨i', hi', hle⟩ := findPaymentFrom_le hkj' hd hp
        rw [hj] at hi'
        cases hi'
        exact PaidFrom.mono hle hrest

/-- `IsValid` accepts exactly when the height is a superblock height, there are enough outputs,
the payments are within the limit, the transaction creates at most the reward plus the payments,
and the payments are met in order by outputs at non-decreasing indexes. -/
theorem isValid_iff (cenv : ConnectEnv) (coinsTip : CoinsMap) (sb : CSuperblock)
    (txNew : CTransaction) (nBlockHeight : Int) (blockReward : CAmount) :
    isValid cenv coinsTip sb txNew nBlockHeight blockReward = true ↔
      isValidBlockHeight cenv nBlockHeight = true ∧
      sb.vecPayments.length ≤ txNew.vout.length ∧
      sb.getPaymentsTotalAmount ≤ getPaymentsLimit cenv nBlockHeight ∧
      txNew.getValueOut - coinsTip.getValueIn txNew ≤ blockReward + sb.getPaymentsTotalAmount ∧
      PaidFrom txNew.vout 0 sb.vecPayments := by
  rw [← matchPayments_iff]
  unfold isValid
  dsimp only
  by_cases hh : isValidBlockHeight cenv nBlockHeight = true
  · simp only [hh, Bool.not_true, Bool.false_eq_true, if_false, true_and]
    by_cases h1 : sb.vecPayments.length ≤ txNew.vout.length
    · rw [if_neg (show ¬ ((txNew.vout.length : Int) - sb.vecPayments.length < 0) by omega)]
      by_cases h2 : sb.getPaymentsTotalAmount ≤ getPaymentsLimit cenv nBlockHeight
      · rw [if_neg (show ¬ (sb.getPaymentsTotalAmount > getPaymentsLimit cenv nBlockHeight) from
          not_lt.2 h2)]
        by_cases h3 : txNew.getValueOut - coinsTip.getValueIn txNew ≤
            blockReward + sb.getPaymentsTotalAmount
        · rw [if_neg (show ¬ (txNew.getValueOut - coinsTip.getValueIn txNew >
            blockReward + sb.getPaymentsTotalAmount) from not_lt.2 h3)]
          simp [h1, h2, h3]
        · rw [if_pos (show txNew.getValueOut - coinsTip.getValueIn txNew >
            blockReward + sb.getPaymentsTotalAmount from lt_of_not_ge h3)]
          simp [h3]
      · rw [if_pos (show sb.getPaymentsTotalAmount > getPaymentsLimit cenv nBlockHeight from
          lt_of_not_ge h2)]
        simp [h2]
    · rw [if_pos (show (txNew.vout.length : Int) - sb.vecPayments.length < 0 by omega)]
      simp [h1]
  · simp [hh]

end CSuperblock

namespace SuperblockFixture

/-- A payment of 5 to the script `[1]`. -/
def payment : CGovernancePayment := ⟨[1], 5⟩

/-- A schedule that pays it twice. -/
def schedule : CSuperblock := ⟨[payment, payment]⟩

/-- A coinbase with one output that meets the payment and an empty miner output. -/
def coinbase : CTransaction :=
  ⟨0, 1, TRANSACTION_COINBASE, [⟨⟨0, COutPoint.NULL_INDEX⟩⟩], [⟨5, [1]⟩, ⟨0, []⟩], none⟩

/-- The main network, with superblocks every 20571 blocks from block 12000, below the maximum
supply. -/
def cenv : ConnectEnv where
  strNetworkID := .main
  nLastPoWBlock := 500000
  nLastBlockReward := 9999999
  nBudgetPaymentsStartBlock := 10000
  nSuperblockStartBlock := 12000
  nSuperblockCycle := 20571
  IsSynced := true
  fLiteMode := false
  superblocksEnabled := true
  IsSuperblockTriggered := fun _ => true
  IsValidSuperblock := fun _ _ _ => true
  SequenceLocks := fun _ => true
  CheckInputs := fun _ => none
  IsBlockPayeeValid := fun _ _ _ => true
  ProcessSpecialTxsInBlock := fun _ => none
  nMoneySupply := 10000000 * COIN

/-- The schedule pays 5 to `[1]` twice, the transaction pays it once: `IsValid` finds both
payments at output 0 and accepts, but no two increasing outputs meet them. -/
theorem duplicate_payments_share_output (coinsTip : CoinsMap) :
    CSuperblock.isValid cenv coinsTip schedule coinbase 20571 0 = true ∧
      ¬ ∃ j₀ j₁ : Nat, j₀ < j₁ ∧ (∃ out, coinbase.vout[j₀]? = some out ∧ payment.paidBy out) ∧
        ∃ out, coinbase.vout[j₁]? = some out ∧ payment.paidBy out := by
  -- a coinbase reads no coin of the tip
  have hin : coinsTip.getValueIn coinbase = 0 := by
    simp [CoinsMap.getValueIn, show coinbase.isCoinBase = true by decide]
  refine ⟨by simp only [CSuperblock.isValid, hin]; decide, ?_⟩
  rintro ⟨j₀, j₁, hlt, -, out, hout, hp⟩
  -- only output 0 meets the payment, and `j₁` is above `j₀`
  match j₁, hlt with
  | 1, _ => simp [coinbase] at hout; subst hout; simp [CGovernancePayment.paidBy, payment] at hp
  | j + 2, _ => simp [coinbase] at hout

end SuperblockFixture

end Emrals
