import Emrals.Script.ScriptNum

/-!
# Signature encodings

`IsValidSignatureEncoding` (`src/script/interpreter.cpp:108`) is the strict DER check of BIP66:
a signature is `0x30 [total-length] 0x02 [R-length] [R] 0x02 [S-length] [S] [sighash]`, with `R`
and `S` not negative and not padded. The check is a sequence of early returns, each reading bytes
at offsets that the checks before it computed from the attacker's length bytes. A read past the
end of the vector (`std::vector::operator[]`) is undefined behaviour, modelled as `none`.

The checks of `R` and of `S` are the same four checks at offsets `4` and `lenR + 6`
(`checkDerInteger`). On bytes laid out as the two length bytes say, the whole check is a conjunction
(`checkDerInteger_layout`, `isValidSignatureEncoding_layout`); every other input is refused before
the integers are read (`isValidSignatureEncoding_cases`). So the check never reads past the end
(`isValidSignatureEncoding_isSome`) and accepts exactly the signatures of the grammar
`IsStrictDer` (`isValidSignatureEncoding_iff`).

`CheckSignatureEncoding` (`src/script/interpreter.cpp:201`) applies the check under the script
flags, with `CPubKey::CheckLowS` a parameter. A non-empty signature it accepts under any of
`DERSIG`, `LOW_S` and `STRICTENC` is strict DER (`checkSignatureEncoding_isStrictDer`).
-/

namespace Emrals

/-! ## The strict DER check -/

/-- The checks of one integer of the signature in `IsValidSignatureEncoding`, at offset `pos` and
of length `len`: its type byte at `pos - 2`, its length, its sign and its padding. The source
writes them out twice, for `R` at `4` and for `S` at `lenR + 6`; the reads are the same. -/
def checkDerInteger (sig : List UInt8) (pos len : Nat) : Option Bool := do
  -- Check whether the element is an integer.
  if (← sig[pos - 2]?) ≠ 0x02 then return false
  -- Zero-length integers are not allowed.
  if len = 0 then return false
  -- Negative numbers are not allowed.
  if (← sig[pos]?) &&& 0x80 ≠ 0 then return false
  -- Null bytes at the start are not allowed, unless the element would otherwise be interpreted
  -- as a negative number; `&&` reads the second byte only after a null first byte.
  if len > 1 then
    if (← sig[pos]?) = 0x00 then
      if (← sig[pos + 1]?) &&& 0x80 = 0 then return false
  return true

/-- `IsValidSignatureEncoding`: `none` where the source reads past the end of `sig`. -/
def isValidSignatureEncoding (sig : List UInt8) : Option Bool := do
  -- Minimum and maximum size constraints.
  if sig.length < 9 then return false
  if sig.length > 73 then return false
  -- A signature is of type 0x30 (compound).
  if (← sig[0]?) ≠ 0x30 then return false
  -- Make sure the length covers the entire signature.
  if (← sig[1]?).toNat ≠ sig.length - 3 then return false
  -- Extract the length of the R element.
  let lenR := (← sig[3]?).toNat
  -- Make sure the length of the S element is still inside the signature.
  if 5 + lenR ≥ sig.length then return false
  -- Extract the length of the S element.
  let lenS := (← sig[5 + lenR]?).toNat
  -- Verify that the length of the signature matches the sum of the length of the elements.
  if lenR + lenS + 7 ≠ sig.length then return false
  if !(← checkDerInteger sig 4 lenR) then return false
  checkDerInteger sig (lenR + 6) lenS

/-! ## The grammar -/

/-- The content of a strict DER integer: at least a byte, the first without its top bit (not
negative), and a leading null byte only before a byte with its top bit set (not padded). -/
def IsDerInteger : List UInt8 → Prop
  | [] => False
  | b :: rest => b.toNat < 128 ∧ (b = 0 → ∀ c ∈ rest.head?, 128 ≤ c.toNat)

instance : DecidablePred IsDerInteger
  | [] => isFalse id
  | _ :: _ => inferInstanceAs (Decidable (_ ∧ _))

/-- The bytes of a DER signature with integers `R` and `S` and sighash byte `hashType`:
`0x30 [total-length] 0x02 [R-length] [R] 0x02 [S-length] [S] [sighash]`. -/
def derSignature (R S : List UInt8) (hashType : UInt8) : List UInt8 :=
  0x30 :: UInt8.ofNat (R.length + S.length + 4) :: 0x02 :: UInt8.ofNat R.length ::
    (R ++ 0x02 :: UInt8.ofNat S.length :: (S ++ [hashType]))

/-- A strict DER signature of BIP66: of `9` to `73` bytes, with two strict DER integers. -/
def IsStrictDer (sig : List UInt8) : Prop :=
  ∃ R S : List UInt8, ∃ hashType : UInt8, sig = derSignature R S hashType ∧
    9 ≤ sig.length ∧ sig.length ≤ 73 ∧ IsDerInteger R ∧ IsDerInteger S

theorem IsDerInteger.length_pos {x : List UInt8} (hx : IsDerInteger x) : 0 < x.length := by
  cases x with
  | nil => exact hx.elim
  | cons => exact Nat.succ_pos _

theorem length_derSignature (R S : List UInt8) (hashType : UInt8) :
    (derSignature R S hashType).length = R.length + S.length + 7 := by
  simp only [derSignature, List.length_cons, List.length_append, List.length_nil]
  omega

/-! ## The check on a laid-out signature -/

/-- The checks of an integer read its type byte, its length and its content where the layout
puts them, and accept exactly a strict DER integer. -/
theorem checkDerInteger_layout (pre x post : List UInt8) (t l : UInt8) :
    checkDerInteger (pre ++ t :: l :: (x ++ post)) (pre.length + 2) x.length =
      some (t == 0x02 && decide (IsDerInteger x)) := by
  have hread : ∀ i, (pre ++ t :: l :: (x ++ post))[pre.length + 2 + i]? = (x ++ post)[i]? := by
    intro i
    rw [List.getElem?_append_right (by omega),
      show pre.length + 2 + i - pre.length = i + 2 by omega]
    rfl
  have htype : (pre ++ t :: l :: (x ++ post))[pre.length + 2 - 2]? = some t := by
    rw [Nat.add_sub_cancel, List.getElem?_append_right (Nat.le_refl _), Nat.sub_self]
    rfl
  unfold checkDerInteger
  rw [htype, ← Nat.add_zero (pre.length + 2), hread, hread]
  by_cases ht : t = 0x02
  · subst ht
    cases x with
    | nil => simp only [List.length_nil]; rfl
    | cons b rest =>
      by_cases hb : b.toNat < 128
      · cases rest with
        | nil => simp [IsDerInteger, and_0x80_eq_zero_iff, hb]
        | cons c rest =>
          simp [IsDerInteger, and_0x80_eq_zero_iff, hb]
          rw [if_neg (by omega)]
          -- a leading null byte is kept only before a byte with its top bit set
          by_cases hb0 : b = 0
          · by_cases hc : c.toNat < 128
            · simp [hb0, hc]
            · simp [hb0, hc]
              omega
          · simp [hb0]
      · simp [IsDerInteger, and_0x80_eq_zero_iff, hb]
  · simp [ht]

/-- On bytes laid out as the length bytes `a3` and `a5` say, `IsValidSignatureEncoding` is the
conjunction of its checks. -/
theorem isValidSignatureEncoding_layout (a0 a1 a2 a3 a4 a5 h : UInt8) (R S : List UInt8)
    (hR : R.length = a3.toNat) (hS : S.length = a5.toNat) :
    isValidSignatureEncoding (a0 :: a1 :: a2 :: a3 :: (R ++ a4 :: a5 :: (S ++ [h]))) =
      some (decide (R.length + S.length + 7 ≤ 73) && a0 == 0x30 &&
        a1.toNat == R.length + S.length + 4 && (a2 == 0x02 && decide (IsDerInteger R)) &&
        (a4 == 0x02 && decide (IsDerInteger S))) := by
  -- the reads of the length of S and of the two integers, at the layout's offsets
  have hlenS : (a0 :: a1 :: a2 :: a3 :: (R ++ a4 :: a5 :: (S ++ [h])))[5 + R.length]? =
      some a5 := by
    rw [show 5 + R.length = R.length + 1 + 4 by omega]
    simp
  have hcheckR : checkDerInteger (a0 :: a1 :: a2 :: a3 :: (R ++ a4 :: a5 :: (S ++ [h]))) 4
      R.length = some (a2 == 0x02 && decide (IsDerInteger R)) :=
    checkDerInteger_layout [a0, a1] R (a4 :: a5 :: (S ++ [h])) a2 a3
  have hcheckS : checkDerInteger (a0 :: a1 :: a2 :: a3 :: (R ++ a4 :: a5 :: (S ++ [h])))
      (R.length + 6) S.length = some (a4 == 0x02 && decide (IsDerInteger S)) := by
    have := checkDerInteger_layout (a0 :: a1 :: a2 :: a3 :: R) S [h] a4 a5
    rwa [List.length_cons, List.length_cons, List.length_cons, List.length_cons,
      show R.length + 1 + 1 + 1 + 1 + 2 = R.length + 6 by omega] at this
  have hlen : (a0 :: a1 :: a2 :: a3 :: (R ++ a4 :: a5 :: (S ++ [h]))).length =
      R.length + S.length + 7 := by
    simp only [List.length_cons, List.length_append, List.length_nil]
    omega
  unfold isValidSignatureEncoding
  simp only [List.getElem?_cons_zero, List.getElem?_cons_succ, Option.pure_def,
    Option.bind_eq_bind, Option.bind_some, ← hR]
  simp only [hlenS, hcheckR, hlen, Option.bind_some, ← hS, hcheckS]
  -- the offset of S and the total length agree with the layout
  rw [if_neg (show ¬5 + R.length ≥ R.length + S.length + 7 by omega), if_neg (not_not.mpr rfl)]
  by_cases hRi : IsDerInteger R
  · by_cases hSi : IsDerInteger S
    · -- two integers of a byte at least: the size is at least `9`
      have := hRi.length_pos
      have := hSi.length_pos
      rw [if_neg (by omega)]
      split_ifs <;> simp_all
      omega
    · split_ifs <;> simp_all
  · split_ifs <;> simp_all

/-- A list of `lenR + lenS + 7` bytes splits as the layout of a signature with integers of those
lengths. -/
theorem exists_derLayout {sig : List UInt8} {lenR lenS : Nat}
    (hlen : sig.length = lenR + lenS + 7) :
    ∃ a0 a1 a2 a3 a4 a5 h : UInt8, ∃ R S : List UInt8,
      sig = a0 :: a1 :: a2 :: a3 :: (R ++ a4 :: a5 :: (S ++ [h])) ∧ R.length = lenR ∧
        S.length = lenS := by
  match sig, hlen with
  | a0 :: a1 :: a2 :: a3 :: rest, hlen =>
    have hdrop : (rest.drop lenR).length = lenS + 3 := by
      simp only [List.length_drop, List.length_cons] at hlen ⊢
      omega
    match hd : rest.drop lenR, hdrop with
    | a4 :: a5 :: rest', hdrop' =>
      obtain ⟨S, h, rfl⟩ : ∃ S h, rest' = S ++ [h] := by
        rcases List.eq_nil_or_concat' rest' with rfl | hc
        · simp at hdrop'
        · exact hc
      refine ⟨a0, a1, a2, a3, a4, a5, h, rest.take lenR, S, ?_, ?_, ?_⟩
      · rw [← hd, List.take_append_drop]
      · simp only [List.length_take, List.length_cons] at hlen ⊢
        omega
      · simp only [List.length_cons, List.length_append, List.length_nil] at hdrop'
        omega

/-- `IsValidSignatureEncoding` either returns `false` at one of its checks of the sizes, the type
byte and the two length bytes, or reads a signature laid out as its two length bytes say. -/
theorem isValidSignatureEncoding_cases (sig : List UInt8) :
    isValidSignatureEncoding sig = some false ∨
      ∃ a0 a1 a2 a3 a4 a5 h : UInt8, ∃ R S : List UInt8,
        sig = a0 :: a1 :: a2 :: a3 :: (R ++ a4 :: a5 :: (S ++ [h])) ∧ R.length = a3.toNat ∧
          S.length = a5.toNat := by
  by_cases hlay : ∃ a3 a5 : UInt8, sig[3]? = some a3 ∧ sig[5 + a3.toNat]? = some a5 ∧
      a3.toNat + a5.toNat + 7 = sig.length
  · -- the two length bytes fit the size: split the bytes as they say
    obtain ⟨a3, a5, h3, h5, hsum⟩ := hlay
    obtain ⟨b0, b1, b2, b3, b4, b5, h, R, S, rfl, hR, hS⟩ := exists_derLayout hsum.symm
    have hb3 : b3 = a3 := by simpa using h3
    subst hb3
    have hb5 : b5 = a5 := by
      rw [← hR, show 5 + R.length = R.length + 1 + 4 by omega] at h5
      simpa using h5
    subst hb5
    exact Or.inr ⟨b0, b1, b2, b3, b4, b5, h, R, S, rfl, hR, hS⟩
  · left
    unfold isValidSignatureEncoding
    by_cases h9 : sig.length < 9
    · rw [if_pos h9]
      rfl
    by_cases h73 : sig.length > 73
    · rw [if_neg h9, if_pos h73]
      rfl
    rw [if_neg h9, if_neg h73]
    obtain ⟨a0, a1, a2, a3, rest, rfl⟩ : ∃ a0 a1 a2 a3 rest, sig = a0 :: a1 :: a2 :: a3 :: rest :=
      match sig, h9 with
      | a0 :: a1 :: a2 :: a3 :: rest, _ => ⟨a0, a1, a2, a3, rest, rfl⟩
      | [], h | [_], h | [_, _], h | [_, _, _], h => (h (by simp)).elim
    simp only [List.getElem?_cons_zero, List.getElem?_cons_succ, Option.pure_def,
      Option.bind_eq_bind, Option.bind_some]
    split_ifs with h0 h1 h5
    all_goals try rfl
    -- the length of S is read inside the signature, and does not add up to its size
    have hsum : a3.toNat + (a0 :: a1 :: a2 :: a3 :: rest)[5 + a3.toNat].toNat + 7 ≠
        (a0 :: a1 :: a2 :: a3 :: rest).length := fun hsum =>
      hlay ⟨a3, _, rfl, List.getElem?_eq_getElem (by omega), hsum⟩
    rw [List.getElem?_eq_getElem (by omega), Option.bind_some, if_pos hsum]

/-! ## Soundness and completeness -/

/-- `IsValidSignatureEncoding` never reads past the end of the signature. -/
theorem isValidSignatureEncoding_isSome (sig : List UInt8) :
    (isValidSignatureEncoding sig).isSome := by
  rcases isValidSignatureEncoding_cases sig with
    h | ⟨a0, a1, a2, a3, a4, a5, h, R, S, rfl, hR, hS⟩
  · rw [h]
    rfl
  · rw [isValidSignatureEncoding_layout a0 a1 a2 a3 a4 a5 h R S hR hS]
    rfl

/-- `IsValidSignatureEncoding` accepts exactly the strict DER signatures. -/
theorem isValidSignatureEncoding_iff (sig : List UInt8) :
    isValidSignatureEncoding sig = some true ↔ IsStrictDer sig := by
  constructor
  · intro hvalid
    rcases isValidSignatureEncoding_cases sig with
      h | ⟨a0, a1, a2, a3, a4, a5, h, R, S, rfl, hR, hS⟩
    · rw [h] at hvalid
      cases hvalid
    rw [isValidSignatureEncoding_layout a0 a1 a2 a3 a4 a5 h R S hR hS] at hvalid
    simp only [Option.some.injEq, Bool.and_eq_true, decide_eq_true_eq, beq_iff_eq] at hvalid
    obtain ⟨⟨⟨⟨h73, rfl⟩, h1⟩, rfl, hRi⟩, rfl, hSi⟩ := hvalid
    -- the length bytes the check compared are the lengths of the grammar
    have hsig : 0x30 :: a1 :: 0x02 :: a3 :: (R ++ 0x02 :: a5 :: (S ++ [h])) =
        derSignature R S h := by
      rw [derSignature, ← h1, hR, hS, UInt8.ofNat_toNat, UInt8.ofNat_toNat, UInt8.ofNat_toNat]
    refine ⟨R, S, h, hsig, ?_, ?_, hRi, hSi⟩
    · have := hRi.length_pos
      have := hSi.length_pos
      rw [hsig, length_derSignature]
      omega
    · rw [hsig, length_derSignature]
      exact h73
  · rintro ⟨R, S, hashType, rfl, h9, h73, hRi, hSi⟩
    rw [length_derSignature] at h9 h73
    -- at most `73` bytes: every length byte holds its length
    have hR : R.length = (UInt8.ofNat R.length).toNat := by
      rw [UInt8.toNat_ofNat']
      omega
    have hS : S.length = (UInt8.ofNat S.length).toNat := by
      rw [UInt8.toNat_ofNat']
      omega
    have hL : (UInt8.ofNat (R.length + S.length + 4)).toNat = R.length + S.length + 4 := by
      rw [UInt8.toNat_ofNat']
      omega
    rw [derSignature, isValidSignatureEncoding_layout _ _ _ _ _ _ _ R S hR hS, hL]
    simp [hRi, hSi, h73]

/-- The strict DER check reads only inside the signature and accepts exactly the grammar of
BIP66, with the sighash byte arbitrary. -/
theorem strict_der_check_exact (sig : List UInt8) :
    (isValidSignatureEncoding sig).isSome ∧
      (isValidSignatureEncoding sig = some true ↔ IsStrictDer sig) :=
  ⟨isValidSignatureEncoding_isSome sig, isValidSignatureEncoding_iff sig⟩

/-- The shortest strict DER signature: `R = S = 1`, nine bytes with the sighash byte. -/
theorem strict_der_nine_bytes :
    isValidSignatureEncoding [0x30, 6, 0x02, 1, 1, 0x02, 1, 1, 1] = some true ∧
      IsStrictDer [0x30, 6, 0x02, 1, 1, 0x02, 1, 1, 1] :=
  ⟨rfl, (strict_der_check_exact [0x30, 6, 0x02, 1, 1, 0x02, 1, 1, 1]).2.mp rfl⟩

/-! ## `CheckSignatureEncoding` -/

/-- `SCRIPT_VERIFY_STRICTENC` (`src/script/interpreter.h:45`). -/
def SCRIPT_VERIFY_STRICTENC : UInt32 := (1 : UInt32) <<< 1
/-- `SCRIPT_VERIFY_DERSIG` (`src/script/interpreter.h:48`). -/
def SCRIPT_VERIFY_DERSIG : UInt32 := (1 : UInt32) <<< 2
/-- `SCRIPT_VERIFY_LOW_S` (`src/script/interpreter.h:52`). -/
def SCRIPT_VERIFY_LOW_S : UInt32 := (1 : UInt32) <<< 3

/-- `SIGHASH_ALL`. -/
def SIGHASH_ALL : UInt8 := 1
/-- `SIGHASH_SINGLE`. -/
def SIGHASH_SINGLE : UInt8 := 3
/-- `SIGHASH_ANYONECANPAY`. -/
def SIGHASH_ANYONECANPAY : UInt8 := 0x80

/-- The errors of the signature encoding checks (`src/script/script_error.h`). -/
inductive ScriptError
  | sigHashtype
  | sigDer
  | sigHighS
  deriving DecidableEq, Repr

section
-- `CPubKey::CheckLowS`, which parses the DER signature and compares `S` with half the order of
-- the curve
variable (checkLowS : List UInt8 → Bool)

/-- `IsLowDERSignature` (`src/script/interpreter.cpp:173`). -/
def isLowDERSignature (vchSig : List UInt8) : Option (Except ScriptError Unit) := do
  if !(← isValidSignatureEncoding vchSig) then return .error .sigDer
  -- the signature without its sighash byte
  let vchSigCopy := vchSig.take (vchSig.length - 1)
  if !checkLowS vchSigCopy then return .error .sigHighS
  return .ok ()

/-- `IsDefinedHashtypeSignature` (`src/script/interpreter.cpp:189`): the sighash byte without
`SIGHASH_ANYONECANPAY` is one of `SIGHASH_ALL`, `SIGHASH_NONE` and `SIGHASH_SINGLE`. -/
def isDefinedHashtypeSignature (vchSig : List UInt8) : Option Bool := do
  if vchSig.length = 0 then return false
  let nHashType := (← vchSig[vchSig.length - 1]?) &&& ~~~SIGHASH_ANYONECANPAY
  if nHashType < SIGHASH_ALL ∨ nHashType > SIGHASH_SINGLE then return false
  return true

/-- `CheckSignatureEncoding` (`src/script/interpreter.cpp:201`): `.ok ()` where the source returns
`true`, the error it sets where it returns `false`. -/
def checkSignatureEncoding (vchSig : List UInt8) (flags : UInt32) :
    Option (Except ScriptError Unit) := do
  -- Empty signature. Not strictly DER encoded, but allowed to provide a compact way to provide
  -- an invalid signature for use with CHECK(MULTI)SIG
  if vchSig.length = 0 then return .ok ()
  if flags &&& (SCRIPT_VERIFY_DERSIG ||| SCRIPT_VERIFY_LOW_S ||| SCRIPT_VERIFY_STRICTENC) ≠ 0 then
    if !(← isValidSignatureEncoding vchSig) then return .error .sigDer
  if flags &&& SCRIPT_VERIFY_LOW_S ≠ 0 then
    match ← isLowDERSignature checkLowS vchSig with
    | .error e => return .error e
    | .ok () => pure ()
  if flags &&& SCRIPT_VERIFY_STRICTENC ≠ 0 then
    if !(← isDefinedHashtypeSignature vchSig) then return .error .sigHashtype
  return .ok ()

theorem isDefinedHashtypeSignature_isSome (vchSig : List UInt8) :
    (isDefinedHashtypeSignature vchSig).isSome := by
  unfold isDefinedHashtypeSignature
  by_cases h0 : vchSig.length = 0
  · rw [if_pos h0]
    rfl
  · rw [if_neg h0, List.getElem?_eq_getElem (by omega)]
    simp only [Option.bind_eq_bind, Option.bind_some]
    split <;> rfl

theorem isLowDERSignature_isSome (vchSig : List UInt8) :
    (isLowDERSignature checkLowS vchSig).isSome := by
  obtain ⟨b, hb⟩ := Option.isSome_iff_exists.mp (isValidSignatureEncoding_isSome vchSig)
  unfold isLowDERSignature
  rw [hb]
  simp only [Option.bind_eq_bind, Option.bind_some]
  split <;> (try split) <;> rfl

/-- `CheckSignatureEncoding` never reads past the end of the signature. -/
theorem checkSignatureEncoding_isSome (vchSig : List UInt8) (flags : UInt32) :
    (checkSignatureEncoding checkLowS vchSig flags).isSome := by
  obtain ⟨b, hb⟩ := Option.isSome_iff_exists.mp (isValidSignatureEncoding_isSome vchSig)
  obtain ⟨r, hr⟩ := Option.isSome_iff_exists.mp (isLowDERSignature_isSome checkLowS vchSig)
  obtain ⟨d, hd⟩ := Option.isSome_iff_exists.mp (isDefinedHashtypeSignature_isSome vchSig)
  unfold checkSignatureEncoding
  simp only [hb, hr, hd, Option.bind_eq_bind, Option.bind_some]
  cases r <;> split_ifs <;> rfl

/-- A non-empty signature that `CheckSignatureEncoding` accepts under any of `DERSIG`, `LOW_S` and
`STRICTENC` is strict DER. -/
theorem checkSignatureEncoding_isStrictDer {vchSig : List UInt8} {flags : UInt32}
    (hflags : flags &&& (SCRIPT_VERIFY_DERSIG ||| SCRIPT_VERIFY_LOW_S ||| SCRIPT_VERIFY_STRICTENC) ≠ 0)
    (hne : vchSig ≠ []) (h : checkSignatureEncoding checkLowS vchSig flags = some (.ok ())) :
    IsStrictDer vchSig := by
  obtain ⟨b, hb⟩ := Option.isSome_iff_exists.mp (isValidSignatureEncoding_isSome vchSig)
  cases b
  · -- a refused encoding is `SCRIPT_ERR_SIG_DER`
    unfold checkSignatureEncoding at h
    rw [if_neg (by simpa using hne), if_pos hflags, hb] at h
    simp only [Option.bind_eq_bind, Option.bind_some, Bool.not_false, if_true, Option.pure_def,
      Option.some.injEq] at h
    cases h
  · exact (isValidSignatureEncoding_iff vchSig).mp hb

end

end Emrals
