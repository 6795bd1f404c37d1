import Emrals.Lib.Codec

/-!
# Script numbers

`CScriptNum` (`src/script/script.h:203`) reads a number off the stack as little-endian
sign-magnitude bytes: the top bit of the last byte is the sign. `serialize` writes the magnitude's
bytes, the fewest there are, and puts the sign in a byte of its own when the magnitude's top bit is
taken. With `fRequireMinimal` the constructor refuses a last byte whose low seven bits are zero,
unless the byte before has its top bit set: an encoding with a byte more than `serialize` writes.

The two are inverse on every `int64_t` but `INT64_MIN`, whose negation `serialize` cannot take
(`ofVch_serialize`), and on every byte vector of at most eight bytes that the minimal check accepts
(`serialize_ofVch`). Every integer thus has exactly one minimal encoding.

`set_vch` shifts the `i`th byte by `8 * i` bits in an `int64_t`, which is defined for the
eight bytes that fit; the size limit `nMaxNumSize` is `4` or `5` at every call, and the model takes
it below `9` (`Fin 9`).
-/

namespace Emrals

open Codec

/-- The loop of `CScriptNum::serialize`: the bytes of `absvalue` from the least significant,
until it is zero. The fuel is the eight bytes of a `uint64_t`. -/
def absBytes : Nat → Nat → List UInt8
  | 0, _ => []
  | fuel + 1, absvalue =>
    if absvalue = 0 then [] else UInt8.ofNat (absvalue % 256) :: absBytes fuel (absvalue / 256)

/-- `CScriptNum::serialize`. `none` for `INT64_MIN`, whose negation `-value` overflows. -/
def CScriptNum.serialize (value : Int) : Option (List UInt8) :=
  if value = 0 then some []
  else if value = -2 ^ 63 then none
  else
    let neg := decide (value < 0)
    let result := absBytes 8 value.natAbs
    let last := result.getLastD 0
    -- a sign byte of its own when the top bit is taken, or else the sign in the top bit
    if last &&& 0x80 ≠ 0 then some (result ++ [if neg then 0x80 else 0])
    else if neg then some (result.dropLast ++ [last ||| 0x80])
    else some result

/-- `CScriptNum::set_vch`: the bytes as a little-endian number, read negative when the last byte
has its top bit, which is then cleared. -/
def CScriptNum.setVch (vch : List UInt8) : Int :=
  if vch.isEmpty then 0
  else
    -- `result |= static_cast<int64_t>(vch[i]) << 8*i`
    let result := decLE vch
    if vch.getLastD 0 &&& 0x80 ≠ 0 then
      -- `result & ~(0x80ULL << (8 * (vch.size() - 1)))` clears the set sign bit
      -((result - (0x80 <<< (8 * (vch.length - 1))) : Nat) : Int)
    else result

/-- The minimal-encoding check of `CScriptNum`'s constructor: the last byte has value bits, or the
byte before it has its top bit set, which the last byte then keeps from being a sign. -/
def CScriptNum.isNonMinimal (vch : List UInt8) : Bool :=
  vch.getLastD 0 &&& 0x7f == 0 &&
    (vch.length ≤ 1 || (vch[vch.length - 2]?.getD 0 &&& 0x80) == 0)

/-- `CScriptNum(vch, fRequireMinimal, nMaxNumSize)`: the value, or the `scriptnum_error` it
throws. -/
def CScriptNum.ofVch (vch : List UInt8) (fRequireMinimal : Bool) (nMaxNumSize : Fin 9) :
    Except String Int :=
  if vch.length > nMaxNumSize.val then .error "script number overflow"
  else if fRequireMinimal && !vch.isEmpty && CScriptNum.isNonMinimal vch then
    .error "non-minimally encoded script number"
  else .ok (CScriptNum.setVch vch)

/-! ## Bytes and magnitudes -/

theorem toNat_and_0x7f (b : UInt8) : (b &&& 0x7f).toNat = b.toNat % 128 := by
  rw [UInt8.toNat_and, show (0x7f : UInt8).toNat = 2 ^ 7 - 1 from rfl,
    Nat.and_two_pow_sub_one_eq_mod]

theorem and_0x7f_eq_zero_iff (b : UInt8) : b &&& 0x7f = 0 ↔ b.toNat % 128 = 0 := by
  rw [← UInt8.toNat_inj, toNat_and_0x7f, UInt8.toNat_zero]

/-- The top bit of a byte is its sign bit: set exactly from `0x80` on. -/
theorem and_0x80_eq_zero_iff (b : UInt8) : b &&& 0x80 = 0 ↔ b.toNat < 128 := by
  have key : ∀ i : Fin 256, (i.val &&& 128 = 0 ↔ i.val < 128) := by decide +kernel
  rw [← UInt8.toNat_inj, UInt8.toNat_and, UInt8.toNat_zero]
  exact key ⟨b.toNat, b.toNat_lt⟩

theorem toNat_or_0x80 {b : UInt8} (h : b.toNat < 128) : (b ||| 0x80).toNat = b.toNat + 128 := by
  have key : ∀ i : Fin 128, i.val ||| 128 = i.val + 128 := by decide +kernel
  rw [UInt8.toNat_or]
  exact key ⟨b.toNat, h⟩

theorem absBytes_zero (fuel : Nat) : absBytes fuel 0 = [] := by
  cases fuel <;> rfl

theorem length_absBytes_le : ∀ (fuel n : Nat), (absBytes fuel n).length ≤ fuel
  | 0, _ => Nat.le_refl 0
  | fuel + 1, n => by
    rw [absBytes]
    split
    · exact Nat.zero_le _
    · rw [List.length_cons]
      exact Nat.succ_le_succ (length_absBytes_le fuel (n / 256))

/-- The loop spells the magnitude when its bytes fit the fuel. -/
theorem decLE_absBytes : ∀ (fuel n : Nat), n < 256 ^ fuel → decLE (absBytes fuel n) = n
  | 0, n, h => by
    rw [Nat.pow_zero] at h
    rw [show n = 0 by omega]
    rfl
  | fuel + 1, n, h => by
    rw [absBytes]
    split
    · next h0 =>
      rw [h0]
      rfl
    · rw [Nat.pow_succ] at h
      rw [decLE, decLE_absBytes fuel (n / 256) (by omega), UInt8.toNat_ofNat']
      omega

/-- The magnitude's bytes are the fewest: the last is not zero. -/
theorem getLast?_absBytes : ∀ (fuel n : Nat), n < 256 ^ fuel → (absBytes fuel n).getLast? ≠ some 0
  | 0, _, _ => by simp [absBytes]
  | fuel + 1, n, h => by
    rw [absBytes]
    split
    · simp
    · next h0 =>
      rw [Nat.pow_succ] at h
      cases hrest : absBytes fuel (n / 256) with
      | nil =>
        -- the last byte written is the magnitude itself
        have hsmall : n / 256 = 0 := by
          have := decLE_absBytes fuel (n / 256) (by omega)
          rw [hrest] at this
          exact this.symm
        simp only [List.getLast?_singleton, ne_eq, Option.some.injEq]
        intro he
        have hbyte := congrArg UInt8.toNat he
        rw [UInt8.toNat_ofNat', UInt8.toNat_zero] at hbyte
        omega
      | cons c cs =>
        rw [List.getLast?_cons_cons, ← hrest]
        exact getLast?_absBytes fuel (n / 256) (by omega)

theorem decLE_eq_zero_iff : ∀ bs : List UInt8, decLE bs = 0 ↔ ∀ b ∈ bs, b = 0
  | [] => by simp [decLE]
  | b :: bs => by
    rw [decLE, List.forall_mem_cons, ← decLE_eq_zero_iff bs, ← UInt8.toNat_inj, UInt8.toNat_zero]
    omega

/-- Bytes whose last is not zero are the magnitude's bytes of the number they spell. -/
theorem absBytes_decLE : ∀ (bs : List UInt8) (fuel : Nat), bs.length ≤ fuel →
    bs.getLast? ≠ some 0 → absBytes fuel (decLE bs) = bs
  | [], fuel, _, _ => absBytes_zero fuel
  | b :: bs, fuel, hlen, hlast => by
    obtain ⟨f, rfl⟩ : ∃ f, fuel = f + 1 := ⟨fuel - 1, by simp at hlen; omega⟩
    have hne : decLE (b :: bs) ≠ 0 := by
      rw [Ne, decLE_eq_zero_iff]
      intro hz
      obtain ⟨l, hl⟩ := List.getLast?_isSome.2 (List.cons_ne_nil b bs) |> Option.isSome_iff_exists.1
      exact hlast (hl ▸ congrArg some (hz l (List.mem_of_getLast? hl)))
    have hrest : bs.getLast? ≠ some 0 := by
      cases bs with
      | nil => simp
      | cons c cs => rwa [List.getLast?_cons_cons] at hlast
    have hb := b.toNat_lt
    rw [absBytes, if_neg hne, decLE, show (b.toNat + 256 * decLE bs) / 256 = decLE bs by omega,
      absBytes_decLE bs f (by simp at hlen; omega) hrest]
    congr 1
    apply UInt8.toNat_inj.mp
    rw [UInt8.toNat_ofNat']
    omega

/-! ## Reading and writing

Both directions go through the four forms a minimal encoding takes: the magnitude's bytes `m`
with a sign byte `0x80` or `0x00` after them when the top bit of their last byte is taken, or with
the sign put in that top bit, or alone for a positive number. -/

theorem decLE_singleton (b : UInt8) : decLE [b] = b.toNat := by
  simp [decLE]

theorem decLE_append_zero (m : List UInt8) : decLE (m ++ [0]) = decLE m := by
  rw [decLE_append, decLE_singleton, UInt8.toNat_zero, Nat.mul_zero, Nat.add_zero]

/-- With a last byte below `0x80`, the number is at most `128` times the weight of that byte. -/
theorem decLE_append_lt (init : List UInt8) {L : UInt8} (hL : L.toNat < 128) :
    decLE (init ++ [L]) < 128 * 256 ^ init.length := by
  have hinit : decLE init < 256 ^ init.length := by simpa [Nat.pow_mul] using decLE_lt init
  have hle : 256 ^ init.length * L.toNat + 256 ^ init.length ≤ 256 ^ init.length * 128 := by
    rw [← Nat.mul_succ]
    exact Nat.mul_le_mul_left _ hL
  rw [decLE_append, decLE_singleton]
  omega

theorem shift_sign_bit (k : Nat) : 0x80 <<< (8 * k) = 128 * 256 ^ k := by
  rw [Nat.shiftLeft_eq, Nat.pow_mul]

/-- Bytes whose last is below `0x80` read as the number they spell. -/
theorem setVch_of_lt {vch : List UInt8} (h : (vch.getLastD 0).toNat < 128) :
    CScriptNum.setVch vch = decLE vch := by
  unfold CScriptNum.setVch
  split
  · next he =>
    rw [List.isEmpty_iff.1 he]
    rfl
  · rw [if_neg (by rw [not_not, and_0x80_eq_zero_iff]; exact h)]

/-- A last byte `L ||| 0x80` reads as the negative of the number with `L` in its place. -/
theorem setVch_append_or (init : List UInt8) {L : UInt8} (hL : L.toNat < 128) :
    CScriptNum.setVch (init ++ [L ||| 0x80]) = -((decLE (init ++ [L]) : Nat) : Int) := by
  have hor := toNat_or_0x80 hL
  have hsign : (L ||| 0x80) &&& 0x80 ≠ 0 := by
    rw [Ne, and_0x80_eq_zero_iff, hor]
    omega
  unfold CScriptNum.setVch
  rw [if_neg (by simp), List.getLastD_concat, if_pos hsign, List.length_append,
    List.length_singleton, Nat.add_sub_cancel, shift_sign_bit, decLE_append, decLE_append,
    decLE_singleton, decLE_singleton, hor, Nat.mul_add]
  congr 2
  omega

/-- The check passes when the last byte has value bits. -/
theorem isNonMinimal_of_low {vch : List UInt8} (h : (vch.getLastD 0).toNat % 128 ≠ 0) :
    CScriptNum.isNonMinimal vch = false := by
  have hlow : (vch.getLastD 0 &&& 0x7f == 0) = false := by
    rw [beq_eq_false_iff_ne, Ne, and_0x7f_eq_zero_iff]
    exact h
  rw [CScriptNum.isNonMinimal, hlow, Bool.false_and]

/-- The check passes when the byte before the last has its top bit set. -/
theorem isNonMinimal_append_of_top {m : List UInt8} (s : UInt8) (hm : m ≠ [])
    (htop : 128 ≤ (m.getLastD 0).toNat) : CScriptNum.isNonMinimal (m ++ [s]) = false := by
  have hpos : 0 < m.length := List.length_pos_of_ne_nil hm
  have hprev : (m ++ [s])[(m ++ [s]).length - 2]?.getD 0 = m.getLastD 0 := by
    rw [List.length_append, List.length_singleton, show m.length + 1 - 2 = m.length - 1 by omega,
      List.getElem?_append_left (by omega), ← List.getLast?_eq_getElem?,
      List.getLastD_eq_getLast?]
  have htopbit : (m.getLastD 0 &&& 0x80 == 0) = false := by
    rw [beq_eq_false_iff_ne, Ne, and_0x80_eq_zero_iff]
    omega
  rw [CScriptNum.isNonMinimal, hprev, htopbit]
  simp only [List.length_append, List.length_singleton, Bool.or_false, Bool.and_eq_false_iff,
    decide_eq_false_iff_not]
  right
  omega

/-- What the check lets through: a last byte with value bits, or a byte before it with its top
bit set. -/
theorem isNonMinimal_eq_false {init : List UInt8} {L : UInt8}
    (h : CScriptNum.isNonMinimal (init ++ [L]) = false) :
    L.toNat % 128 ≠ 0 ∨ (init ≠ [] ∧ 128 ≤ (init.getLastD 0).toNat) := by
  by_cases hlow : L.toNat % 128 = 0
  · right
    have hz : (L &&& 0x7f == 0) = true := by
      rw [beq_iff_eq, and_0x7f_eq_zero_iff]
      exact hlow
    rw [CScriptNum.isNonMinimal, List.getLastD_concat, hz, Bool.true_and, Bool.or_eq_false_iff,
      decide_eq_false_iff_not, List.length_append, List.length_singleton] at h
    obtain ⟨hlen, hbit⟩ := h
    have hne : init ≠ [] := fun he => hlen (by rw [he]; decide)
    refine ⟨hne, ?_⟩
    rw [show init.length + 1 - 2 = init.length - 1 by omega,
      List.getElem?_append_left (by have := List.length_pos_of_ne_nil hne; omega),
      ← List.getLast?_eq_getElem?, ← List.getLastD_eq_getLast?, beq_eq_false_iff_ne, Ne,
      and_0x80_eq_zero_iff] at hbit
    omega
  · exact Or.inl hlow

/-- `serialize` of a number whose magnitude spells the bytes `m`, the fewest there are. -/
theorem serialize_eq {m : List UInt8} {v : Int} (hm : m ≠ []) (hmin : m.getLast? ≠ some 0)
    (hlen : m.length ≤ 8) (hv : v.natAbs = decLE m) (hv64 : v ≠ -2 ^ 63) :
    CScriptNum.serialize v = some
      (if m.getLastD 0 &&& 0x80 ≠ 0 then m ++ [if decide (v < 0) then 0x80 else 0]
      else if decide (v < 0) then m.dropLast ++ [m.getLastD 0 ||| 0x80] else m) := by
  have hv0 : v ≠ 0 := by
    intro h0
    rw [h0, Int.natAbs_zero, eq_comm, decLE_eq_zero_iff] at hv
    obtain ⟨l, hl⟩ := Option.isSome_iff_exists.1 (List.getLast?_isSome.2 hm)
    exact hmin (hl ▸ congrArg some (hv l (List.mem_of_getLast? hl)))
  unfold CScriptNum.serialize
  rw [if_neg hv0, if_neg hv64, hv, absBytes_decLE m 8 hlen hmin]
  dsimp only
  by_cases htop : m.getLastD 0 &&& 0x80 ≠ 0
  · rw [if_pos htop, if_pos htop]
  · rw [if_neg htop, if_neg htop]
    split <;> rfl

/-- A byte from `0x80` on is its low seven bits with the top bit set. -/
theorem and_0x7f_or_0x80 {L : UInt8} (h : 128 ≤ L.toNat) : (L &&& 0x7f) ||| 0x80 = L := by
  have hlow : (L &&& 0x7f).toNat < 128 := by
    rw [toNat_and_0x7f]
    exact Nat.mod_lt _ (by decide)
  apply UInt8.toNat_inj.mp
  rw [toNat_or_0x80 hlow, toNat_and_0x7f]
  have := L.toNat_lt
  omega

/-- A vector within the size limit that the minimal check lets through is read. -/
theorem ofVch_ok {vch : List UInt8} {nMaxNumSize : Fin 9} (hlen : vch.length ≤ nMaxNumSize.val)
    (hmin : CScriptNum.isNonMinimal vch = false) :
    CScriptNum.ofVch vch true nMaxNumSize = .ok (CScriptNum.setVch vch) := by
  rw [CScriptNum.ofVch, if_neg (by omega), hmin, Bool.and_false, if_neg (by decide)]

/-- Bytes ending in a byte from `0x80` on, the most a magnitude below `2 ^ 63` has, leave a byte
for the sign. -/
theorem length_lt_of_top {init : List UInt8} {L : UInt8} (htop : 128 ≤ L.toNat)
    (hlt : decLE (init ++ [L]) < 2 ^ 63) : init.length < 7 := by
  have hle : 256 ^ init.length * 128 ≤ 256 ^ init.length * L.toNat :=
    Nat.mul_le_mul_left _ htop
  rw [decLE_append, decLE_singleton] at hlt
  have hpow : 256 ^ init.length * 128 < 256 ^ 7 * 128 := by omega
  exact (Nat.pow_lt_pow_iff_right (by decide)).1 (Nat.lt_of_mul_lt_mul_right hpow)

theorem getLast?_ne_zero_of_last {m : List UInt8} (hlast : (m.getLastD 0).toNat ≠ 0) :
    m.getLast? ≠ some 0 := by
  intro h
  rw [List.getLastD_eq_getLast?, h] at hlast
  exact hlast rfl

/-- Bytes with a nonzero last byte spell a nonzero number. -/
theorem decLE_ne_zero_of_last {m : List UInt8} (hlast : (m.getLastD 0).toNat ≠ 0) :
    decLE m ≠ 0 := by
  intro hz
  rw [decLE_eq_zero_iff] at hz
  rw [List.getLastD_eq_getLast?] at hlast
  cases hl : m.getLast? with
  | none => rw [hl] at hlast; exact hlast rfl
  | some x =>
    rw [hl, Option.getD_some, hz x (List.mem_of_getLast? hl)] at hlast
    exact hlast rfl

/-- Every `int64_t` but `INT64_MIN` is written as bytes that the minimal check lets through and
that read back as the number. -/
theorem ofVch_serialize {v : Int} (hlo : -2 ^ 63 < v) (hhi : v < 2 ^ 63) :
    ∃ b, CScriptNum.serialize v = some b ∧ CScriptNum.ofVch b true 8 = .ok v := by
  by_cases h0 : v = 0
  · subst h0
    exact ⟨[], rfl, rfl⟩
  have ha : v.natAbs < 256 ^ 8 := by omega
  have hmin := getLast?_absBytes 8 v.natAbs ha
  have hdec := decLE_absBytes 8 v.natAbs ha
  have hlen := length_absBytes_le 8 v.natAbs
  -- the magnitude's bytes, `init` and the last one `L`
  obtain ⟨init, L, hsplit⟩ : ∃ init L, absBytes 8 v.natAbs = init ++ [L] := by
    rcases List.eq_nil_or_concat' (absBytes 8 v.natAbs) with he | h
    · rw [he] at hdec
      exact absurd hdec.symm (by simp only [decLE]; omega)
    · exact h
  rw [hsplit] at hmin hdec hlen
  have hL0 : L.toNat ≠ 0 := fun h =>
    hmin (by rw [List.getLast?_concat, show L = 0 from UInt8.toNat_inj.mp h])
  have hser := serialize_eq (List.concat_ne_nil L init) hmin hlen hdec.symm (by omega)
  rw [List.getLastD_concat, List.dropLast_concat] at hser
  rw [List.length_append, List.length_singleton] at hlen
  by_cases htop : L &&& 0x80 ≠ 0
  · -- a sign byte of its own after the magnitude
    have hLt : 128 ≤ L.toNat := by
      rw [Ne, and_0x80_eq_zero_iff] at htop
      omega
    have hk := @length_lt_of_top init L hLt (by omega)
    have hlast : 128 ≤ ((init ++ [L]).getLastD 0).toNat := by
      rw [List.getLastD_concat]
      exact hLt
    rw [if_pos htop] at hser
    refine ⟨_, hser, ?_⟩
    rw [ofVch_ok (by simp; omega)
      (isNonMinimal_append_of_top _ (List.concat_ne_nil L init) hlast)]
    congr 1
    by_cases hneg : v < 0
    · rw [decide_eq_true hneg, if_pos rfl, show (0x80 : UInt8) = 0 ||| 0x80 from rfl,
        setVch_append_or _ (by decide), decLE_append_zero, hdec]
      omega
    · rw [decide_eq_false hneg, if_neg (by decide),
        setVch_of_lt (by rw [List.getLastD_concat]; decide), decLE_append_zero, hdec]
      omega
  · have hLt : L.toNat < 128 := by
      rw [not_not, and_0x80_eq_zero_iff] at htop
      exact htop
    rw [if_neg htop] at hser
    by_cases hneg : v < 0
    · -- the sign in the top bit of the last byte
      rw [decide_eq_true hneg, if_pos rfl] at hser
      refine ⟨_, hser, ?_⟩
      rw [ofVch_ok (by simp; omega) (isNonMinimal_of_low (by
          rw [List.getLastD_concat, toNat_or_0x80 hLt]; omega)),
        setVch_append_or init hLt, hdec]
      congr 1
      omega
    · -- the magnitude's bytes alone
      rw [decide_eq_false hneg, if_neg (by decide)] at hser
      refine ⟨_, hser, ?_⟩
      rw [ofVch_ok (by simp; omega) (isNonMinimal_of_low (by rw [List.getLastD_concat]; omega)),
        setVch_of_lt (by rw [List.getLastD_concat]; exact hLt), hdec]
      congr 1
      omega

/-- What a successful minimal read tells: the size bound, the minimal form and the value. -/
theorem ofVch_eq_ok {vch : List UInt8} {nMaxNumSize : Fin 9} {v : Int}
    (h : CScriptNum.ofVch vch true nMaxNumSize = .ok v) :
    vch.length ≤ 8 ∧ (vch ≠ [] → CScriptNum.isNonMinimal vch = false) ∧
      CScriptNum.setVch vch = v := by
  unfold CScriptNum.ofVch at h
  split at h
  · cases h
  next hsize =>
  split at h
  · cases h
  next hcheck =>
  refine ⟨by have := nMaxNumSize.isLt; omega, fun hne => ?_, Except.ok.inj h⟩
  simpa [List.isEmpty_iff, hne] using hcheck

/-- Bytes that the minimal check lets through are exactly what `serialize` writes for the number
they are read as. -/
theorem serialize_ofVch {b : List UInt8} {nMaxNumSize : Fin 9} {v : Int}
    (h : CScriptNum.ofVch b true nMaxNumSize = .ok v) : CScriptNum.serialize v = some b := by
  obtain ⟨hlen, hmin, rfl⟩ := ofVch_eq_ok h
  rcases List.eq_nil_or_concat' b with rfl | ⟨init, L, rfl⟩
  · rfl
  have hmin := hmin (List.concat_ne_nil L init)
  rw [List.length_append, List.length_singleton] at hlen
  by_cases hLt : L.toNat < 128
  · -- a non-negative number: the top bit of the last byte is clear
    rw [setVch_of_lt (by rw [List.getLastD_concat]; exact hLt)]
    by_cases hL0 : L.toNat % 128 = 0
    · -- a zero sign byte after a magnitude whose top bit is set
      obtain ⟨hne, htop⟩ := (isNonMinimal_eq_false hmin).resolve_left (not_not.mpr hL0)
      have hL : L = 0 := UInt8.toNat_inj.mp (by rw [UInt8.toNat_zero]; omega)
      subst hL
      have hsign : init.getLastD 0 &&& 0x80 ≠ 0 := by
        rw [Ne, and_0x80_eq_zero_iff]
        omega
      rw [decLE_append_zero, serialize_eq (v := (decLE init : Int)) hne
        (getLast?_ne_zero_of_last (by omega)) (by omega) (Int.natAbs_natCast _) (by omega),
        if_pos hsign, decide_eq_false (by omega)]
      rfl
    · -- the magnitude's bytes alone
      have hlast : ((init ++ [L]).getLastD 0).toNat ≠ 0 := by
        rw [List.getLastD_concat]
        omega
      have hsign : (init ++ [L]).getLastD 0 &&& 0x80 = 0 := by
        rw [and_0x80_eq_zero_iff, List.getLastD_concat]
        exact hLt
      rw [serialize_eq (v := (decLE (init ++ [L]) : Int)) (List.concat_ne_nil L init)
        (getLast?_ne_zero_of_last hlast) (by simp; omega) (Int.natAbs_natCast _) (by omega),
        if_neg (not_not.mpr hsign), decide_eq_false (by omega)]
      rfl
  · -- a negative number: the sign is the top bit of the last byte
    have hlow : (L &&& 0x7f).toNat < 128 := by
      rw [toNat_and_0x7f]
      omega
    rw [← and_0x7f_or_0x80 (by omega : 128 ≤ L.toNat), setVch_append_or init hlow]
    have hbound : decLE (init ++ [L &&& 0x7f]) < 2 ^ 63 := calc
      _ < 128 * 256 ^ init.length := decLE_append_lt init hlow
      _ ≤ 128 * 256 ^ 7 := Nat.mul_le_mul_left _ (Nat.pow_le_pow_right (by decide) (by omega))
      _ = 2 ^ 63 := rfl
    by_cases hL0 : L.toNat % 128 = 0
    · -- a sign byte `0x80` after a magnitude whose top bit is set
      obtain ⟨hne, htop⟩ := (isNonMinimal_eq_false hmin).resolve_left (not_not.mpr hL0)
      rw [(and_0x7f_eq_zero_iff L).mpr hL0, decLE_append_zero] at hbound ⊢
      have hpos := decLE_ne_zero_of_last (m := init) (by omega)
      have hsign : init.getLastD 0 &&& 0x80 ≠ 0 := by
        rw [Ne, and_0x80_eq_zero_iff]
        omega
      rw [serialize_eq (v := -(decLE init : Int)) hne (getLast?_ne_zero_of_last (by omega))
        (by omega) (by simp) (by omega), if_pos hsign, decide_eq_true (by omega)]
      rfl
    · -- the sign in the top bit of the magnitude's last byte
      have hlast : ((init ++ [L &&& 0x7f]).getLastD 0).toNat ≠ 0 := by
        rw [List.getLastD_concat, toNat_and_0x7f]
        exact hL0
      have hsign : (init ++ [L &&& 0x7f]).getLastD 0 &&& 0x80 = 0 := by
        rw [and_0x80_eq_zero_iff, List.getLastD_concat]
        exact hlow
      have hpos := decLE_ne_zero_of_last hlast
      rw [serialize_eq (v := -(decLE (init ++ [L &&& 0x7f]) : Int)) (List.concat_ne_nil _ init)
        (getLast?_ne_zero_of_last hlast) (by simp; omega) (by simp) (by omega), if_neg (not_not.mpr hsign),
        decide_eq_true (by omega), if_pos rfl, List.dropLast_concat, List.getLastD_concat]

/-- Script numbers and their minimal encodings are in bijection: every `int64_t` but `INT64_MIN`
serializes to bytes that `CScriptNum(vch, true, 8)` accepts and reads back, and whatever is
accepted with `fRequireMinimal` under any size limit is what `serialize` writes for its value. -/
theorem script_num_minimal_bijection :
    (∀ v : Int, -2 ^ 63 < v → v < 2 ^ 63 →
      ∃ b, CScriptNum.serialize v = some b ∧ CScriptNum.ofVch b true 8 = .ok v) ∧
    (∀ (b : List UInt8) (nMaxNumSize : Fin 9) (v : Int),
      CScriptNum.ofVch b true nMaxNumSize = .ok v → CScriptNum.serialize v = some b) :=
  ⟨fun _ hlo hhi => ofVch_serialize hlo hhi, fun _ _ _ h => serialize_ofVch h⟩

/-- `-255` takes a sign byte of its own: `ff 80`. -/
theorem script_num_minus_255 :
    CScriptNum.ofVch [0xff, 0x80] true 4 = .ok (-255) ∧
      CScriptNum.serialize (-255) = some [0xff, 0x80] :=
  ⟨rfl, script_num_minimal_bijection.2 [0xff, 0x80] 4 (-255) rfl⟩

end Emrals
