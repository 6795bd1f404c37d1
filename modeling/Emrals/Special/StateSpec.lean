import Mathlib
import Emrals.Special.State
import Emrals.Lib.FieldCopy

/-!
# State diffs, field by field

The fields of `CDeterministicMNState` are independent, so its field copies are lawful
(`StateField.lawful`), and `a.f == b.f` is agreement on `f` (`StateField.eq_iff_agree`). The
lines of `ApplyToState` are masked copies (`applyLine_eq`), so `ApplyToState` takes every masked
field from the diff and leaves the others (`applyToState_agree`). The mask bits of the fields are
distinct powers of two (`StateField.index`), and a diff built by `CDeterministicMNStateDiff(a, b)`
masks exactly the fields on which `a` and `b` differ, holds `b`'s value in those and the default
value in the others (`ofStates_mask`, `ofStates_state_agree`). Applying it to `a` therefore gives
`b` (`applyToState_ofStates`), and applying it to any state changes only the fields where `a` and
`b` differ.
-/

namespace Emrals

open FieldCopy

namespace StateField

theorem copy_self (f : StateField) (t : CDeterministicMNState) : f.copy t t = t := by
  cases f <;> rfl

theorem copy_copy_self (f : StateField) (s u t : CDeterministicMNState) :
    f.copy (f.copy s u) t = f.copy s t := by
  cases f <;> rfl

theorem copy_copy_ne (f g : StateField) (hfg : f ≠ g) (s u t : CDeterministicMNState) :
    f.copy (g.copy s u) t = f.copy u t := by
  cases f <;> cases g <;> first | exact absurd rfl hfg | rfl

theorem mem_DMN_STATE_DIFF_ALL_FIELDS (f : StateField) : f ∈ DMN_STATE_DIFF_ALL_FIELDS := by
  cases f <;> decide

/-- Copying every field from `s` gives `s`. -/
theorem foldl_copy (s t : CDeterministicMNState) :
    DMN_STATE_DIFF_ALL_FIELDS.foldl (fun u f => f.copy s u) t = s := by
  cases s
  rfl

/-- The fields of a state are independent, and `DMN_STATE_DIFF_ALL_FIELDS` lists all of them. -/
theorem lawful : Lawful copy DMN_STATE_DIFF_ALL_FIELDS where
  copy_self := copy_self
  copy_copy_self := copy_copy_self
  copy_copy_ne := copy_copy_ne
  copy_all := foldl_copy
  complete := mem_DMN_STATE_DIFF_ALL_FIELDS

/-- `a.f == b.f` holds exactly when `a` and `b` agree on `f`. -/
theorem eq_iff_agree (f : StateField) (a b : CDeterministicMNState) :
    f.eq a b = true ↔ Agree copy f a b := by
  rw [agree_iff lawful]
  cases f <;> cases b <;> simp [eq, copy]

/-! ## Mask bits -/

/-- The position of the field's bit in the mask. -/
def index : StateField → Nat
  | nRegisteredHeight => 0
  | nLastPaidHeight => 1
  | nPoSePenalty => 2
  | nPoSeRevivedHeight => 3
  | nPoSeBanHeight => 4
  | nRevocationReason => 5
  | confirmedHash => 6
  | confirmedHashWithProRegTxHash => 7
  | keyIDOwner => 8
  | pubKeyOperator => 9
  | keyIDVoting => 10
  | addr => 11
  | scriptPayout => 12
  | scriptOperatorPayout => 13

theorem bit_toNat (f : StateField) : f.bit.toNat = 2 ^ f.index := by
  cases f <;> rfl

theorem index_injective : Function.Injective index := by
  intro f g h
  cases f <;> cases g <;> first | rfl | exact absurd h (by decide)

/-- The mask test `fields & Field_f` reads the field's bit. -/
theorem and_bit_ne_zero (x : UInt32) (f : StateField) :
    (x &&& f.bit != 0) = x.toNat.testBit f.index := by
  have hand : (x &&& f.bit).toNat = (x.toNat.testBit f.index).toNat * 2 ^ f.index := by
    rw [UInt32.toNat_and, bit_toNat, Nat.and_two_pow]
  have hzero : x &&& f.bit = 0 ↔ x.toNat.testBit f.index = false := by
    rw [← UInt32.toNat_inj, hand, UInt32.toNat_zero]
    cases x.toNat.testBit f.index <;> simp
  cases hb : x.toNat.testBit f.index
  · simp [hzero.2 hb]
  · have hne : x &&& f.bit ≠ 0 := fun h => by simp [hzero.1 h] at hb
    simp [hne]

/-- Setting the bit of `f` sets that bit only. -/
theorem testBit_or_bit (x : UInt32) (f g : StateField) :
    (x ||| f.bit).toNat.testBit g.index = (x.toNat.testBit g.index || decide (f = g)) := by
  simp only [UInt32.toNat_or, Nat.testBit_or, bit_toNat, Nat.testBit_two_pow,
    index_injective.eq_iff]

end StateField

namespace CDeterministicMNStateDiff

/-! ## `ApplyToState` -/

/-- A line of `ApplyToState` is a masked copy from the diff's state. -/
theorem applyLine_eq (d : CDeterministicMNStateDiff) :
    d.applyLine = maskedCopy StateField.copy (fun f => d.fields &&& f.bit != 0) d.state := rfl

/-- `ApplyToState` takes the masked fields from the diff and keeps the others. -/
theorem applyToState_agree (d : CDeterministicMNStateDiff) (t : CDeterministicMNState)
    (f : StateField) :
    Agree StateField.copy f (d.applyToState t)
      (if (d.fields &&& f.bit != 0) = true then d.state else t) := by
  unfold applyToState
  rw [applyLine_eq]
  exact agree_foldl_maskedCopy_fields StateField.lawful _ d.state t f

/-- Two diffs with the same mask and the same masked fields apply alike. -/
theorem applyToState_congr {d d' : CDeterministicMNStateDiff} (hfields : d.fields = d'.fields)
    (hstate : ∀ f, (d.fields &&& f.bit != 0) = true → Agree StateField.copy f d.state d'.state)
    (t : CDeterministicMNState) : d.applyToState t = d'.applyToState t := by
  apply StateField.lawful.ext
  intro f
  refine (d.applyToState_agree t f).trans (Agree.trans ?_ (d'.applyToState_agree t f).symm)
  rw [← hfields]
  split
  · next hf => exact hstate f hf
  · exact Agree.refl _ f t

/-! ## `CDeterministicMNStateDiff(a, b)` -/

section
variable (a b : CDeterministicMNState)

/-- The constructor's loop, split into the mask it sets and the state it fills. -/
theorem foldl_diffLine : ∀ (fs : List StateField) (d : CDeterministicMNStateDiff),
    fs.foldl (diffLine a b) d =
      { fields := fs.foldl (fun x f => if f.eq a b then x else x ||| f.bit) d.fields,
        state := fs.foldl (maskedCopy StateField.copy (fun f => !f.eq a b) b) d.state }
  | [], _ => rfl
  | f :: fs, d => by
    rw [List.foldl_cons, foldl_diffLine fs, List.foldl_cons, List.foldl_cons]
    unfold diffLine maskedCopy
    cases h : f.eq a b <;> simp [h]

/-- The constructor sets the bit of a field it visits exactly when `a` and `b` differ there. -/
theorem foldl_mask_testBit (g : StateField) : ∀ (fs : List StateField) (x : UInt32),
    (fs.foldl (fun x f => if f.eq a b then x else x ||| f.bit) x).toNat.testBit g.index =
      (x.toNat.testBit g.index || (decide (g ∈ fs) && !g.eq a b))
  | [], x => by simp
  | f :: fs, x => by
    rw [List.foldl_cons, foldl_mask_testBit g fs]
    cases hfe : f.eq a b
    · -- a field where the states differ: its bit is set
      rw [if_neg (by simp), StateField.testBit_or_bit]
      by_cases hgf : f = g
      · subst hgf
        simp [hfe]
      · simp [hgf, Ne.symm hgf]
    · rw [if_pos rfl]
      by_cases hgf : f = g
      · subst hgf
        simp [hfe]
      · simp [Ne.symm hgf]

/-- `CDeterministicMNStateDiff(a, b)` masks exactly the fields on which `a` and `b` differ. -/
theorem ofStates_mask (f : StateField) :
    ((ofStates a b).fields &&& f.bit != 0) = !f.eq a b := by
  rw [StateField.and_bit_ne_zero, ofStates, foldl_diffLine, foldl_mask_testBit]
  simp [StateField.mem_DMN_STATE_DIFF_ALL_FIELDS]

/-- Its state holds `b`'s value in a masked field and the default in the others. -/
theorem ofStates_state_agree (f : StateField) :
    Agree StateField.copy f (ofStates a b).state (if f.eq a b then {} else b) := by
  rw [ofStates, foldl_diffLine]
  dsimp only
  refine (agree_foldl_maskedCopy_fields StateField.lawful _ b _ f).trans ?_
  cases f.eq a b <;> exact Agree.refl _ f _

/-- `ApplyToState` of `CDeterministicMNStateDiff(a, b)` writes `b`'s value into the fields on
which `a` and `b` differ and leaves every other field of the target. -/
theorem applyToState_ofStates_agree (t : CDeterministicMNState) (f : StateField) :
    Agree StateField.copy f ((ofStates a b).applyToState t) (if f.eq a b then t else b) := by
  refine ((ofStates a b).applyToState_agree t f).trans ?_
  rw [ofStates_mask]
  cases hf : f.eq a b
  · have h := ofStates_state_agree a b f
    rw [hf] at h
    exact h
  · exact Agree.refl _ f t

/-- `ApplyToState` turns `a` into `b`. -/
theorem applyToState_ofStates : (ofStates a b).applyToState a = b := by
  apply StateField.lawful.ext
  intro f
  refine (applyToState_ofStates_agree a b a f).trans ?_
  split
  · next hf => exact (StateField.eq_iff_agree f a b).1 hf
  · exact Agree.refl _ f b

end

end CDeterministicMNStateDiff

end Emrals
