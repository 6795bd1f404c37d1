import Emrals.Serialize.Basic
import Emrals.Special.StateSpec

/-!
# Serialization of masternode states and state diffs

`CDeterministicMNState::SerializationOp` reads and writes the fourteen fields in the order of
`DMN_STATE_DIFF_ALL_FIELDS`; `CDeterministicMNStateDiff::SerializationOp` writes the mask as a
`VarInt`, then the masked fields of its state in the same order. As for the diff itself, the model
says once how one field is written and read (`StateField.serialize`, `StateField.unserialize`) and
runs that over the fields.

A state reads back when each field is in the range its C++ type holds (`Encodable`). A diff is read
into a default `CDeterministicMNStateDiff`, so a field outside the mask comes back at its default:
what reads back is the mask and `ApplyToState` of the diff to the default state
(`CDeterministicMNStateDiff.unserialize_run`), a diff that applies exactly like the one written
(`applyToState_unserialized`). It is the diff written when that diff holds defaults outside its
mask (`Normalized`), as `CDeterministicMNStateDiff(a, b)` does.
-/

namespace Emrals

open Codec FieldCopy

namespace StateField

/-- `READWRITE(state.f)` when writing. -/
def serialize : StateField → CDeterministicMNState → List UInt8
  | nRegisteredHeight, s => writeInt32 s.nRegisteredHeight
  | nLastPaidHeight, s => writeInt32 s.nLastPaidHeight
  | nPoSePenalty, s => writeInt32 s.nPoSePenalty
  | nPoSeRevivedHeight, s => writeInt32 s.nPoSeRevivedHeight
  | nPoSeBanHeight, s => writeInt32 s.nPoSeBanHeight
  | nRevocationReason, s => writeUInt16 s.nRevocationReason
  | confirmedHash, s => s.confirmedHash.serialize
  | confirmedHashWithProRegTxHash, s => s.confirmedHashWithProRegTxHash.serialize
  | keyIDOwner, s => s.keyIDOwner.serialize
  | pubKeyOperator, s => CBLSPublicKey.serialize s.pubKeyOperator
  | keyIDVoting, s => s.keyIDVoting.serialize
  | addr, s => s.addr.serialize
  | scriptPayout, s => CScript.serialize s.scriptPayout
  | scriptOperatorPayout, s => CScript.serialize s.scriptOperatorPayout

section
variable (InternalSetBuf : BitVec 384 → Bool)

/-- `READWRITE(state.f)` when reading: the field is read into `t`. -/
def unserialize : StateField → CDeterministicMNState → Reader CDeterministicMNState
  | nRegisteredHeight, t => do
    let v ← readInt32
    pure { t with nRegisteredHeight := v }
  | nLastPaidHeight, t => do
    let v ← readInt32
    pure { t with nLastPaidHeight := v }
  | nPoSePenalty, t => do
    let v ← readInt32
    pure { t with nPoSePenalty := v }
  | nPoSeRevivedHeight, t => do
    let v ← readInt32
    pure { t with nPoSeRevivedHeight := v }
  | nPoSeBanHeight, t => do
    let v ← readInt32
    pure { t with nPoSeBanHeight := v }
  | nRevocationReason, t => do
    let v ← readUInt16
    pure { t with nRevocationReason := v }
  | confirmedHash, t => do
    let v ← uint256.unserialize
    pure { t with confirmedHash := v }
  | confirmedHashWithProRegTxHash, t => do
    let v ← uint256.unserialize
    pure { t with confirmedHashWithProRegTxHash := v }
  | keyIDOwner, t => do
    let v ← CKeyID.unserialize
    pure { t with keyIDOwner := v }
  | pubKeyOperator, t => do
    let v ← CBLSPublicKey.unserialize InternalSetBuf
    pure { t with pubKeyOperator := v }
  | keyIDVoting, t => do
    let v ← CKeyID.unserialize
    pure { t with keyIDVoting := v }
  | addr, t => do
    let v ← CService.unserialize
    pure { t with addr := v }
  | scriptPayout, t => do
    let v ← CScript.unserialize
    pure { t with scriptPayout := v }
  | scriptOperatorPayout, t => do
    let v ← CScript.unserialize
    pure { t with scriptOperatorPayout := v }

/-- The field's value is one that reads back: an `int` in the range of `int32_t`, a BLS key the
library decodes, a script of at most `MAX_SIZE` bytes. -/
def Encodable : StateField → CDeterministicMNState → Prop
  | nRegisteredHeight, s => Int32Range s.nRegisteredHeight
  | nLastPaidHeight, s => Int32Range s.nLastPaidHeight
  | nPoSePenalty, s => Int32Range s.nPoSePenalty
  | nPoSeRevivedHeight, s => Int32Range s.nPoSeRevivedHeight
  | nPoSeBanHeight, s => Int32Range s.nPoSeBanHeight
  | pubKeyOperator, s => CBLSPublicKey.Encodes InternalSetBuf s.pubKeyOperator
  | scriptPayout, s => s.scriptPayout.length ≤ MAX_SIZE
  | scriptOperatorPayout, s => s.scriptOperatorPayout.length ≤ MAX_SIZE
  | _, _ => True

instance : ∀ (f : StateField) (s : CDeterministicMNState), Decidable (f.Encodable InternalSetBuf s)
  | nRegisteredHeight, s => inferInstanceAs (Decidable (Int32Range s.nRegisteredHeight))
  | nLastPaidHeight, s => inferInstanceAs (Decidable (Int32Range s.nLastPaidHeight))
  | nPoSePenalty, s => inferInstanceAs (Decidable (Int32Range s.nPoSePenalty))
  | nPoSeRevivedHeight, s => inferInstanceAs (Decidable (Int32Range s.nPoSeRevivedHeight))
  | nPoSeBanHeight, s => inferInstanceAs (Decidable (Int32Range s.nPoSeBanHeight))
  | pubKeyOperator, s =>
    inferInstanceAs (Decidable (CBLSPublicKey.Encodes InternalSetBuf s.pubKeyOperator))
  | scriptPayout, s => inferInstanceAs (Decidable (s.scriptPayout.length ≤ MAX_SIZE))
  | scriptOperatorPayout, s => inferInstanceAs (Decidable (s.scriptOperatorPayout.length ≤ MAX_SIZE))
  | nRevocationReason, _ | confirmedHash, _ | confirmedHashWithProRegTxHash, _ | keyIDOwner, _
  | keyIDVoting, _ | addr, _ => isTrue trivial

theorem encodable_copy (f : StateField) (s u : CDeterministicMNState) :
    f.Encodable InternalSetBuf (f.copy s u) ↔ f.Encodable InternalSetBuf s := by
  cases f <;> rfl

/-- Whether a field reads back depends on the field's value only. -/
theorem Encodable.of_agree {f : StateField} {s t : CDeterministicMNState}
    (h : f.Encodable InternalSetBuf s) (hst : Agree copy f s t) : f.Encodable InternalSetBuf t := by
  rw [← (agree_iff lawful).1 hst, encodable_copy]
  exact h

/-- A field reads back into any state. -/
theorem unserialize_run {f : StateField} {s : CDeterministicMNState}
    (h : f.Encodable InternalSetBuf s) (t : CDeterministicMNState) (rest : List UInt8) :
    (f.unserialize InternalSetBuf t).run (f.serialize s ++ rest) = some (f.copy s t, rest) := by
  cases f
  case nRegisteredHeight => exact run_bind_pure_of_run (readInt32_run h rest)
  case nLastPaidHeight => exact run_bind_pure_of_run (readInt32_run h rest)
  case nPoSePenalty => exact run_bind_pure_of_run (readInt32_run h rest)
  case nPoSeRevivedHeight => exact run_bind_pure_of_run (readInt32_run h rest)
  case nPoSeBanHeight => exact run_bind_pure_of_run (readInt32_run h rest)
  case nRevocationReason => exact run_bind_pure_of_run (readUInt16_run _ rest)
  case confirmedHash => exact run_bind_pure_of_run (uint256.unserialize_run _ rest)
  case confirmedHashWithProRegTxHash =>
    exact run_bind_pure_of_run (uint256.unserialize_run _ rest)
  case keyIDOwner => exact run_bind_pure_of_run (CKeyID.unserialize_run _ rest)
  case pubKeyOperator =>
    exact run_bind_pure_of_run (CBLSPublicKey.unserialize_run InternalSetBuf h rest)
  case keyIDVoting => exact run_bind_pure_of_run (CKeyID.unserialize_run _ rest)
  case addr => exact run_bind_pure_of_run (CService.unserialize_run _ rest)
  case scriptPayout => exact run_bind_pure_of_run (CScript.unserialize_run h rest)
  case scriptOperatorPayout => exact run_bind_pure_of_run (CScript.unserialize_run h rest)

end

end StateField

/-! ## States -/

namespace CDeterministicMNState

/-- `CDeterministicMNState::Serialize`. -/
def serialize (s : CDeterministicMNState) : List UInt8 :=
  DMN_STATE_DIFF_ALL_FIELDS.flatMap (fun f => f.serialize s)

section
variable (InternalSetBuf : BitVec 384 → Bool)

/-- `CDeterministicMNState::Unserialize`: every field, in order. -/
def unserialize : Reader CDeterministicMNState :=
  DMN_STATE_DIFF_ALL_FIELDS.foldlM (fun t f => f.unserialize InternalSetBuf t) {}

/-- Every field of the state reads back. -/
def Encodable (s : CDeterministicMNState) : Prop := ∀ f : StateField, f.Encodable InternalSetBuf s

instance (s : CDeterministicMNState) : Decidable (s.Encodable InternalSetBuf) :=
  decidable_of_iff (∀ f ∈ DMN_STATE_DIFF_ALL_FIELDS, f.Encodable InternalSetBuf s)
    ⟨fun h f => h f (StateField.mem_DMN_STATE_DIFF_ALL_FIELDS f), fun h f _ => h f⟩

theorem unserialize_run {s : CDeterministicMNState} (h : s.Encodable InternalSetBuf)
    (rest : List UInt8) : (unserialize InternalSetBuf).run (s.serialize ++ rest) = some (s, rest) := by
  unfold unserialize serialize
  rw [foldlM_run DMN_STATE_DIFF_ALL_FIELDS
    (fun f _ t rest => StateField.unserialize_run InternalSetBuf (h f) t rest) {} rest,
    StateField.foldl_copy]

end

end CDeterministicMNState

/-! ## State diffs -/

namespace CDeterministicMNStateDiff

/-- `CDeterministicMNStateDiff::Serialize`: `VARINT(fields)`, then the masked fields. -/
def serialize (d : CDeterministicMNStateDiff) : List UInt8 :=
  writeVarInt d.fields.toNat ++ DMN_STATE_DIFF_ALL_FIELDS.flatMap
    (fun f => if d.fields &&& f.bit != 0 then f.serialize d.state else [])

section
variable (InternalSetBuf : BitVec 384 → Bool)

/-- `CDeterministicMNStateDiff::Unserialize` into a default diff. -/
def unserialize : Reader CDeterministicMNStateDiff := do
  let n ← readVarInt (2 ^ 32 - 1)
  let fields := UInt32.ofNat n
  let state ← DMN_STATE_DIFF_ALL_FIELDS.foldlM
    (fun t f => if fields &&& f.bit != 0 then f.unserialize InternalSetBuf t else pure t) {}
  pure { fields, state }

/-- Every masked field of the diff reads back. -/
def Encodable (d : CDeterministicMNStateDiff) : Prop :=
  ∀ f : StateField, (d.fields &&& f.bit != 0) = true → f.Encodable InternalSetBuf d.state

instance (d : CDeterministicMNStateDiff) : Decidable (d.Encodable InternalSetBuf) :=
  decidable_of_iff
    (∀ f ∈ DMN_STATE_DIFF_ALL_FIELDS, (d.fields &&& f.bit != 0) = true →
      f.Encodable InternalSetBuf d.state)
    ⟨fun h f => h f (StateField.mem_DMN_STATE_DIFF_ALL_FIELDS f), fun h f _ => h f⟩

/-- A diff reads back as its mask and its `ApplyToState` to the default state. -/
theorem unserialize_run {d : CDeterministicMNStateDiff} (h : d.Encodable InternalSetBuf)
    (rest : List UInt8) :
    (unserialize InternalSetBuf).run (d.serialize ++ rest) =
      some ({ fields := d.fields, state := d.applyToState {} }, rest) := by
  have hfields : d.fields.toNat ≤ 2 ^ 32 - 1 := by have := d.fields.toNat_lt; omega
  -- a masked field reads back, and an unmasked one reads nothing
  have hstep : ∀ f ∈ DMN_STATE_DIFF_ALL_FIELDS, ∀ t rest,
      (if d.fields &&& f.bit != 0 then f.unserialize InternalSetBuf t else pure t).run
        ((if d.fields &&& f.bit != 0 then f.serialize d.state else []) ++ rest) =
      some (d.applyLine t f, rest) := by
    intro f _ t rest
    unfold applyLine
    split
    · next hf => exact StateField.unserialize_run InternalSetBuf (h f hf) t rest
    · rfl
  unfold unserialize serialize
  rw [List.append_assoc, run_bind_of_run (readVarInt_run hfields _), UInt32.ofNat_toNat,
    run_bind_of_run (foldlM_run DMN_STATE_DIFF_ALL_FIELDS hstep {} rest)]
  rfl

/-- The diff read back applies to every state as the diff written. -/
theorem applyToState_unserialized (d : CDeterministicMNStateDiff) (t : CDeterministicMNState) :
    ({ fields := d.fields, state := d.applyToState {} } : CDeterministicMNStateDiff).applyToState t =
      d.applyToState t := by
  refine @applyToState_congr { fields := d.fields, state := d.applyToState {} } d rfl ?_ t
  intro f hf
  have h := d.applyToState_agree {} f
  rw [if_pos hf] at h
  exact h

/-- The fields outside the mask hold their defaults. -/
def Normalized (d : CDeterministicMNStateDiff) : Prop := d.applyToState {} = d.state

instance (d : CDeterministicMNStateDiff) : Decidable d.Normalized :=
  inferInstanceAs (Decidable (_ = _))

/-- A normalized diff reads back as itself. -/
theorem unserialize_run_of_normalized {d : CDeterministicMNStateDiff}
    (h : d.Encodable InternalSetBuf) (hn : d.Normalized) (rest : List UInt8) :
    (unserialize InternalSetBuf).run (d.serialize ++ rest) = some (d, rest) := by
  rw [unserialize_run InternalSetBuf h, hn]

section
variable (a b : CDeterministicMNState)

/-- `CDeterministicMNStateDiff(a, b)` holds defaults outside its mask. -/
theorem ofStates_normalized : (ofStates a b).Normalized := by
  apply StateField.lawful.ext
  intro f
  refine ((ofStates a b).applyToState_agree {} f).trans ?_
  rw [ofStates_mask]
  cases hf : f.eq a b
  · exact Agree.refl _ f _
  · have h := ofStates_state_agree a b f
    rw [hf] at h
    exact h.symm

/-- Its masked fields are `b`'s, so they read back when `b`'s do. -/
theorem ofStates_encodable (hb : b.Encodable InternalSetBuf) :
    (ofStates a b).Encodable InternalSetBuf := by
  intro f hf
  rw [ofStates_mask, Bool.not_eq_true'] at hf
  have h := ofStates_state_agree a b f
  rw [hf] at h
  exact (hb f).of_agree InternalSetBuf h.symm

end

end

end CDeterministicMNStateDiff

end Emrals
