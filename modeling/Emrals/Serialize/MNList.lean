import Mathlib
import Emrals.Serialize.State
import Emrals.Special.ListRebuild
import Emrals.Special.ListDiff
import Emrals.Special.WellFormedRun
import Emrals.Special.BlockAborts

/-!
# Serialization of masternodes, lists and list diffs

A masternode is written field by field (`CDeterministicMN::SerializationOp`), its internal id as a
`uint64_t` `VarInt`. A list writes its header and then its masternodes as a vector; reading it
calls `AddMN` on every masternode read, so the two auxiliary maps are rebuilt rather than read
(`src/special/deterministicmns.h:301-332`). A list diff writes the added masternodes as a vector,
then the updated and the removed internal ids, each as a `uint32_t` `VarInt`, which it reads back
as a `uint64_t` one (`src/special/deterministicmns.h:542-584`).

So a list reads back with the same three maps when it is well formed (`ListRebuild`), which every
list of a run is while the run registers fewer than `2 ^ 32` masternodes (`WellFormedRun`); and a
list diff reads back when its internal ids are below `2 ^ 32`, its two maps are in the ascending
order of `std::map` and `std::set`, and each state diff holds defaults outside its mask. In
general a diff reads back with its state diffs normalized (`CDeterministicMNListDiff.normalize`),
which apply alike.
-/

namespace Emrals

open Codec CDeterministicMNList

/-! ## Masternodes -/

namespace CDeterministicMN

/-- `CDeterministicMN::Serialize`, in the current format: the ProTx hash, `VARINT(internalId)`, the
collateral, the operator reward and the state. -/
def serialize (dmn : CDeterministicMN) : List UInt8 :=
  dmn.proTxHash.serialize ++ writeVarInt dmn.internalId.toNat ++ dmn.collateralOutpoint.serialize ++
    writeUInt16 dmn.nOperatorReward ++ dmn.pdmnState.serialize

section
variable (InternalSetBuf : BitVec 384 → Bool)

/-- `CDeterministicMN(deserialize, s)`. -/
def unserialize : Reader CDeterministicMN := do
  let proTxHash ← uint256.unserialize
  let internalId ← readVarInt (2 ^ 64 - 1)
  let collateralOutpoint ← COutPoint.unserialize
  let nOperatorReward ← readUInt16
  let pdmnState ← CDeterministicMNState.unserialize InternalSetBuf
  pure
    { proTxHash
      internalId := UInt64.ofNat internalId
      collateralOutpoint
      nOperatorReward
      pdmnState }

/-- The state of the masternode reads back. -/
def Encodable (dmn : CDeterministicMN) : Prop := dmn.pdmnState.Encodable InternalSetBuf

instance (dmn : CDeterministicMN) : Decidable (dmn.Encodable InternalSetBuf) :=
  inferInstanceAs (Decidable (dmn.pdmnState.Encodable InternalSetBuf))

theorem unserialize_run {dmn : CDeterministicMN} (h : dmn.Encodable InternalSetBuf)
    (rest : List UInt8) :
    (unserialize InternalSetBuf).run (dmn.serialize ++ rest) = some (dmn, rest) := by
  have hid : dmn.internalId.toNat ≤ 2 ^ 64 - 1 := by
    have := dmn.internalId.toNat_lt
    omega
  unfold unserialize serialize
  simp only [List.append_assoc]
  rw [run_bind_of_run (uint256.unserialize_run _ _), run_bind_of_run (readVarInt_run hid _),
    run_bind_of_run (COutPoint.unserialize_run _ _), run_bind_of_run (readUInt16_run _ _),
    run_bind_of_run (CDeterministicMNState.unserialize_run InternalSetBuf h _), UInt64.ofNat_toNat]
  rfl

end

end CDeterministicMN

/-! ## Lists -/

namespace CDeterministicMNList

/-- `CDeterministicMNList::Serialize`: the header, then the masternode map as a vector. -/
def serialize (l : CDeterministicMNList) : List UInt8 :=
  l.blockHash.serialize ++ writeInt32 l.nHeight ++ writeUInt32 l.nTotalRegisteredCount ++
    writeCompactSize l.getAllMNsCount ++ l.allMNs.flatMap CDeterministicMN.serialize

section
variable (SerializeHash : UniqueProperty → uint256) (InternalSetBuf : BitVec 384 → Bool)

/-- One turn of `Unserialize`'s loop: a masternode is read and added, and an assert of `AddMN`
ends the read. -/
def unserializeMN (l : CDeterministicMNList) : Reader CDeterministicMNList := do
  let dmn ← CDeterministicMN.unserialize InternalSetBuf
  StateT.lift (l.addMN SerializeHash dmn)

/-- `CDeterministicMNList::Unserialize`: the maps are reset, the header is read, and every
masternode read is added. -/
def unserialize : Reader CDeterministicMNList := do
  let blockHash ← uint256.unserialize
  let nHeight ← readInt32
  let nTotalRegisteredCount ← readUInt32
  let cnt ← readCompactSize
  readLoop (unserializeMN SerializeHash InternalSetBuf) cnt
    (ofHeader blockHash nHeight nTotalRegisteredCount)

variable {SerializeHash InternalSetBuf}

theorem unserializeMN_run {l : CDeterministicMNList} {dmn : CDeterministicMN}
    (h : dmn.Encodable InternalSetBuf) (rest : List UInt8) :
    (unserializeMN SerializeHash InternalSetBuf l).run (dmn.serialize ++ rest) =
      (l.addMN SerializeHash dmn).map (·, rest) := by
  unfold unserializeMN
  rw [run_bind_of_run (CDeterministicMN.unserialize_run InternalSetBuf h rest)]
  cases l.addMN SerializeHash dmn <;> rfl

/-- A well-formed list whose masternodes and height are in the ranges of their C++ types, and whose
map is not larger than a `CompactSize` may say, reads back with its header and its three maps. -/
theorem unserialize_run {l : CDeterministicMNList} (hl : l.WellFormed SerializeHash)
    (hh : Int32Range l.nHeight) (henc : AllMNs (CDeterministicMN.Encodable InternalSetBuf) l)
    (hsize : l.getAllMNsCount ≤ MAX_SIZE) (rest : List UInt8) :
    ∃ l', (unserialize SerializeHash InternalSetBuf).run (l.serialize ++ rest) = some (l', rest) ∧
      SameHeader l l' ∧ SameMaps l l' := by
  obtain ⟨l', hfold, hhead, hmaps⟩ := hl.rebuild
  -- the loop reads the masternodes in the order they were written, one `AddMN` each
  have hloop := readLoop_run (g := CDeterministicMNList.addMN SerializeHash)
    (fun b a rest ha => unserializeMN_run (l := b) ha rest) l.allMNs
    (ofHeader l.blockHash l.nHeight l.nTotalRegisteredCount) rest
    (fun _ hd => henc.of_mem_allMNs hd)
  rw [hfold] at hloop
  have hcount : l.allMNs.length = l.getAllMNsCount := List.length_map _
  refine ⟨l', ?_, hhead, hmaps⟩
  unfold unserialize serialize
  simp only [List.append_assoc]
  rw [run_bind_of_run (uint256.unserialize_run _ _), run_bind_of_run (readInt32_run hh _),
    run_bind_of_run (readUInt32_run _ _), run_bind_of_run (readCompactSize_run hsize _),
    ← hcount]
  exact hloop

end

end CDeterministicMNList

/-! ## `emplace` in ascending order -/

section
variable {V : Type}

/-- `emplace` of a key above every key of the map appends the entry. -/
theorem mapEmplace_of_lt {k : UInt64} {v : V} {m : List (UInt64 × V)} (h : ∀ p ∈ m, p.1 < k) :
    mapEmplace k v m = m ++ [(k, v)] := by
  have hnone : m.any (·.1 == k) = false :=
    List.any_eq_false.2 fun p hp he => (UInt64.lt_irrefl k) (beq_iff_eq.1 he ▸ h p hp)
  rw [mapEmplace, if_neg (by simp [hnone]), List.orderedInsert_eq_take_drop,
    List.takeWhile_eq_self_iff.2 fun p hp => by simpa using h p hp,
    List.dropWhile_eq_nil_iff.2 fun p hp => by simpa using h p hp]

/-- `emplace` of a value above every value of the set appends it. -/
theorem setEmplace_of_lt {x : UInt64} {s : List UInt64} (h : ∀ y ∈ s, y < x) :
    setEmplace x s = s ++ [x] := by
  have hx : x ∉ s := fun hx => UInt64.lt_irrefl x (h x hx)
  rw [setEmplace, if_neg hx, List.orderedInsert_eq_take_drop,
    List.takeWhile_eq_self_iff.2 fun y hy => by simpa using h y hy,
    List.dropWhile_eq_nil_iff.2 fun y hy => by simpa using h y hy]

/-- Emplacing the entries of a map in ascending order after smaller ones rebuilds it. The
induction is on the entries, with the map built so far generalised. -/
theorem foldl_mapEmplace : ∀ (ps m : List (UInt64 × V)),
    (m ++ ps).Pairwise (fun a b => a.1 < b.1) →
      ps.foldl (fun m p => mapEmplace p.1 p.2 m) m = m ++ ps
  | [], m, _ => by simp
  | p :: ps, m, h => by
    have hlt : ∀ q ∈ m, q.1 < p.1 := fun q hq =>
      (List.pairwise_append.1 h).2.2 q hq p List.mem_cons_self
    rw [List.foldl_cons, mapEmplace_of_lt hlt, foldl_mapEmplace ps (m ++ [p]) (by simpa using h),
      List.append_assoc, List.singleton_append]

/-- The same for a set. -/
theorem foldl_setEmplace : ∀ (xs s : List UInt64), (s ++ xs).Pairwise (· < ·) →
    xs.foldl (fun s x => setEmplace x s) s = s ++ xs
  | [], s, _ => by simp
  | x :: xs, s, h => by
    have hlt : ∀ y ∈ s, y < x := fun y hy =>
      (List.pairwise_append.1 h).2.2 y hy x List.mem_cons_self
    rw [List.foldl_cons, setEmplace_of_lt hlt, foldl_setEmplace xs (s ++ [x]) (by simpa using h),
      List.append_assoc, List.singleton_append]

end

/-! ## List diffs -/

/-- What a state diff reads back as: its mask, and `ApplyToState` of it to the default state. -/
def CDeterministicMNStateDiff.normalize (d : CDeterministicMNStateDiff) :
    CDeterministicMNStateDiff :=
  { fields := d.fields, state := d.applyToState {} }

/-- A state diff and its normalized form apply alike. -/
theorem CDeterministicMNStateDiff.applyToState_normalize (d : CDeterministicMNStateDiff)
    (t : CDeterministicMNState) : d.normalize.applyToState t = d.applyToState t :=
  d.applyToState_unserialized t

namespace CDeterministicMNListDiff

/-- What a list diff reads back as: every state diff normalized. -/
def normalize (d : CDeterministicMNListDiff) : CDeterministicMNListDiff :=
  { d with updatedMNs := d.updatedMNs.map fun p => (p.1, p.2.normalize) }

/-- `CDeterministicMNListDiff::Serialize`: the internal ids are written by
`WriteVarInt<Stream, VarIntMode::DEFAULT, uint32_t>`, so as their low 32 bits. -/
def serialize (d : CDeterministicMNListDiff) : List UInt8 :=
  writeCompactSize d.addedMNs.length ++ d.addedMNs.flatMap CDeterministicMN.serialize ++
    writeCompactSize d.updatedMNs.length ++
    d.updatedMNs.flatMap (fun p => writeVarInt (p.1.toNat % 2 ^ 32) ++ p.2.serialize) ++
    writeCompactSize d.removedMns.length ++
    d.removedMns.flatMap fun i => writeVarInt (i.toNat % 2 ^ 32)

section
variable (InternalSetBuf : BitVec 384 → Bool)

/-- One entry of the updated map when reading: `ReadVarInt<Stream, VarIntMode::DEFAULT,
uint64_t>`, the state diff, then `emplace`. -/
def unserializeUpdated (m : List (UInt64 × CDeterministicMNStateDiff)) :
    Reader (List (UInt64 × CDeterministicMNStateDiff)) := do
  let tmp2 ← readVarInt (2 ^ 64 - 1)
  let diff ← CDeterministicMNStateDiff.unserialize InternalSetBuf
  pure (mapEmplace (UInt64.ofNat tmp2) diff m)

/-- One entry of the removed set when reading. -/
def unserializeRemoved (s : List UInt64) : Reader (List UInt64) := do
  let tmp2 ← readVarInt (2 ^ 64 - 1)
  pure (setEmplace (UInt64.ofNat tmp2) s)

/-- `CDeterministicMNListDiff::Unserialize`: the vector of added masternodes, then the two maps,
cleared first. -/
def unserialize : Reader CDeterministicMNListDiff := do
  let cnt ← readCompactSize
  let addedMNs ← readN (CDeterministicMN.unserialize InternalSetBuf) cnt
  let tmp ← readCompactSize
  let updatedMNs ← readLoop (unserializeUpdated InternalSetBuf) tmp []
  let tmp ← readCompactSize
  let removedMns ← readLoop unserializeRemoved tmp []
  pure { addedMNs, updatedMNs, removedMns }

/-- The parts of the diff read back: the added masternodes and the masked fields of the state
diffs are in their C++ types' ranges, the internal ids fit the `uint32_t` they are written as, and
no part is longer than a `CompactSize` may say. -/
structure Encodable (d : CDeterministicMNListDiff) : Prop where
  added : ∀ dmn ∈ d.addedMNs, dmn.Encodable InternalSetBuf
  updated : ∀ p ∈ d.updatedMNs, p.1.toNat < 2 ^ 32 ∧ p.2.Encodable InternalSetBuf
  removed : ∀ i ∈ d.removedMns, i.toNat < 2 ^ 32
  sizes : d.addedMNs.length ≤ MAX_SIZE ∧ d.updatedMNs.length ≤ MAX_SIZE ∧
    d.removedMns.length ≤ MAX_SIZE

instance (d : CDeterministicMNListDiff) : Decidable (d.Encodable InternalSetBuf) :=
  decidable_of_iff
    ((∀ dmn ∈ d.addedMNs, dmn.Encodable InternalSetBuf) ∧
      (∀ p ∈ d.updatedMNs, p.1.toNat < 2 ^ 32 ∧ p.2.Encodable InternalSetBuf) ∧
      -- read through the list: `∀ i : UInt64` would be decided over the whole type
      (d.removedMns.all fun i => i.toNat < 2 ^ 32) = true ∧
      (d.addedMNs.length ≤ MAX_SIZE ∧ d.updatedMNs.length ≤ MAX_SIZE ∧
        d.removedMns.length ≤ MAX_SIZE))
    ⟨fun ⟨ha, hu, hr, hs⟩ => ⟨ha, hu, by simpa using hr, hs⟩,
      fun ⟨ha, hu, hr, hs⟩ => ⟨ha, hu, by simpa using hr, hs⟩⟩

end

/-- The two maps are in the ascending key order, without repeated keys, in which `std::map` and
`std::set` keep and iterate them. -/
structure Ordered (d : CDeterministicMNListDiff) : Prop where
  updated : d.updatedMNs.Pairwise fun a b => a.1 < b.1
  removed : d.removedMns.Pairwise (· < ·)

instance (d : CDeterministicMNListDiff) : Decidable d.Ordered :=
  decidable_of_iff
    (d.updatedMNs.Pairwise (fun a b => a.1 < b.1) ∧ d.removedMns.Pairwise (· < ·))
    ⟨fun ⟨hu, hr⟩ => ⟨hu, hr⟩, fun ⟨hu, hr⟩ => ⟨hu, hr⟩⟩

section
variable {InternalSetBuf : BitVec 384 → Bool}

theorem unserializeUpdated_run {m : List (UInt64 × CDeterministicMNStateDiff)}
    {p : UInt64 × CDeterministicMNStateDiff} (hp : p.1.toNat < 2 ^ 32 ∧ p.2.Encodable InternalSetBuf)
    (rest : List UInt8) :
    (unserializeUpdated InternalSetBuf m).run
        ((writeVarInt (p.1.toNat % 2 ^ 32) ++ p.2.serialize) ++ rest) =
      some (mapEmplace p.1 p.2.normalize m, rest) := by
  have hid : p.1.toNat ≤ 2 ^ 64 - 1 := by omega
  unfold unserializeUpdated
  rw [Nat.mod_eq_of_lt hp.1, List.append_assoc, run_bind_of_run (readVarInt_run hid _),
    run_bind_of_run (CDeterministicMNStateDiff.unserialize_run InternalSetBuf hp.2 rest),
    UInt64.ofNat_toNat]
  rfl

theorem unserializeRemoved_run {s : List UInt64} {i : UInt64} (hi : i.toNat < 2 ^ 32)
    (rest : List UInt8) :
    (unserializeRemoved s).run (writeVarInt (i.toNat % 2 ^ 32) ++ rest) =
      some (setEmplace i s, rest) := by
  have hid : i.toNat ≤ 2 ^ 64 - 1 := by omega
  unfold unserializeRemoved
  rw [Nat.mod_eq_of_lt hi, run_bind_of_run (readVarInt_run hid _), UInt64.ofNat_toNat]
  rfl

/-- The updated map reads back entry by entry, with its state diffs normalized. -/
theorem readLoop_unserializeUpdated {ps : List (UInt64 × CDeterministicMNStateDiff)}
    (hsorted : ps.Pairwise fun a b => a.1 < b.1)
    (henc : ∀ p ∈ ps, p.1.toNat < 2 ^ 32 ∧ p.2.Encodable InternalSetBuf) (rest : List UInt8) :
    (readLoop (unserializeUpdated InternalSetBuf) ps.length []).run
        (ps.flatMap (fun p => writeVarInt (p.1.toNat % 2 ^ 32) ++ p.2.serialize) ++ rest) =
      some (ps.map (fun p => (p.1, p.2.normalize)), rest) := by
  have hfold := foldl_mapEmplace (ps.map fun p => (p.1, p.2.normalize)) []
    (by simpa [List.pairwise_map] using hsorted)
  simp only [List.foldl_map, List.nil_append] at hfold
  rw [readLoop_run (g := fun m p => pure (mapEmplace p.1 p.2.normalize m))
    (fun _ _ rest hp => unserializeUpdated_run hp rest) ps [] rest henc, List.foldlM_pure, hfold]
  rfl

/-- The removed set reads back value by value. -/
theorem readLoop_unserializeRemoved {xs : List UInt64} (hsorted : xs.Pairwise (· < ·))
    (hids : ∀ i ∈ xs, i.toNat < 2 ^ 32) (rest : List UInt8) :
    (readLoop unserializeRemoved xs.length []).run
        (xs.flatMap (fun i => writeVarInt (i.toNat % 2 ^ 32)) ++ rest) = some (xs, rest) := by
  rw [readLoop_run (g := fun s x => pure (setEmplace x s))
    (fun _ _ rest hi => unserializeRemoved_run hi rest) xs [] rest hids, List.foldlM_pure,
    foldl_setEmplace _ [] (by simpa using hsorted)]
  rfl

/-- A list diff in the order of its C++ containers reads back with its state diffs normalized,
even though its internal ids are written as 32-bit and read as 64-bit `VarInt`s. -/
theorem unserialize_run {d : CDeterministicMNListDiff} (ho : d.Ordered)
    (h : d.Encodable InternalSetBuf) (rest : List UInt8) :
    (unserialize InternalSetBuf).run (d.serialize ++ rest) = some (d.normalize, rest) := by
  have hadded := RoundTrip.readN (fun dmn hdmn rest => CDeterministicMN.unserialize_run
    InternalSetBuf hdmn rest) d.addedMNs h.added
  unfold unserialize serialize
  simp only [List.append_assoc]
  rw [run_bind_of_run (readCompactSize_run h.sizes.1 _), run_bind_of_run (hadded _),
    run_bind_of_run (readCompactSize_run h.sizes.2.1 _),
    run_bind_of_run (readLoop_unserializeUpdated ho.updated h.updated _),
    run_bind_of_run (readCompactSize_run h.sizes.2.2 _),
    run_bind_of_run (readLoop_unserializeRemoved ho.removed h.removed _)]
  rfl

/-- A list diff and its normalized form replay alike. -/
theorem applyDiff_normalize (SerializeHash : UniqueProperty → uint256) (l : CDeterministicMNList)
    (blockHash : uint256) (nHeight : Int) (d : CDeterministicMNListDiff) :
    l.applyDiff SerializeHash blockHash nHeight d.normalize =
      l.applyDiff SerializeHash blockHash nHeight d := by
  have hupd : ∀ (r : CDeterministicMNList) (p : UInt64 × CDeterministicMNStateDiff),
      applyUpdate SerializeHash r (p.1, p.2.normalize) = applyUpdate SerializeHash r p := by
    intro r p
    simp only [applyUpdate, updateMNByDiff, CDeterministicMNStateDiff.applyToState_normalize]
  unfold applyDiff normalize
  simp only [List.foldlM_map, hupd]

/-- A list diff whose state diffs are normalized is its own normalized form. -/
theorem normalize_of_normalized {d : CDeterministicMNListDiff}
    (h : ∀ p ∈ d.updatedMNs, p.2.Normalized) : d.normalize = d := by
  have hmap : d.updatedMNs.map (fun p => (p.1, p.2.normalize)) = d.updatedMNs.map id :=
    List.map_congr_left fun p hp => by
      rw [CDeterministicMNStateDiff.normalize, h p hp]
      rfl
  unfold normalize
  rw [hmap, List.map_id]

end

end CDeterministicMNListDiff

end Emrals

namespace Emrals

open CDeterministicMNList CDeterministicMNManager FieldCopy

/-! ## The round trips of the three encodings -/

/-- A list of a run from the empty list that registers fewer than `2 ^ 32` masternodes reads back
with its header and its three maps, when its height and its masternodes are in the ranges of their
C++ types and it has at most `MAX_SIZE` masternodes. A list diff in the order of its containers,
with internal ids below `2 ^ 32`, reads back with its state diffs normalized, which replay alike,
and as itself when they are normalized. `CDeterministicMNStateDiff(a, b)` reads back as itself,
masks exactly the fields where `a` and `b` differ, turns `a` into `b`, and on any state writes
`b`'s value into those fields and leaves the others. -/
theorem mnList_encodings_roundTrip (SerializeHash : UniqueProperty → uint256)
    (InternalSetBuf : BitVec 384 → Bool) :
    (∀ (cenv : CheckEnv) (blocks : List (BuildEnv × List CTransaction)) (l : CDeterministicMNList),
      Machine.run (chainStep SerializeHash cenv) {} blocks = some l →
      (blocks.map blockRegistrations).sum < 2 ^ 32 → Int32Range l.nHeight →
      AllMNs (CDeterministicMN.Encodable InternalSetBuf) l → l.getAllMNsCount ≤ MAX_SIZE →
      ∀ rest, ∃ l', (CDeterministicMNList.unserialize SerializeHash InternalSetBuf).run
        (l.serialize ++ rest) = some (l', rest) ∧ SameHeader l l' ∧ SameMaps l l') ∧
    (∀ d : CDeterministicMNListDiff, d.Ordered → d.Encodable InternalSetBuf → ∀ rest,
      (CDeterministicMNListDiff.unserialize InternalSetBuf).run (d.serialize ++ rest) =
        some (d.normalize, rest) ∧
      (∀ (l : CDeterministicMNList) (blockHash : uint256) (nHeight : Int),
        l.applyDiff SerializeHash blockHash nHeight d.normalize =
        l.applyDiff SerializeHash blockHash nHeight d) ∧
      ((∀ p ∈ d.updatedMNs, p.2.Normalized) → d.normalize = d)) ∧
    (∀ a b : CDeterministicMNState, b.Encodable InternalSetBuf → ∀ rest,
      (CDeterministicMNStateDiff.unserialize InternalSetBuf).run
        ((CDeterministicMNStateDiff.ofStates a b).serialize ++ rest) =
        some (CDeterministicMNStateDiff.ofStates a b, rest) ∧
      (CDeterministicMNStateDiff.ofStates a b).applyToState a = b ∧
      ∀ (t : CDeterministicMNState) (f : StateField),
        ((CDeterministicMNStateDiff.ofStates a b).fields &&& f.bit != 0) = !f.eq a b ∧
        Agree StateField.copy f ((CDeterministicMNStateDiff.ofStates a b).applyToState t)
          (if f.eq a b then t else b)) := by
  refine ⟨?_, ?_, ?_⟩
  · intro cenv blocks l hrun hregs hh henc hsize rest
    exact CDeterministicMNList.unserialize_run (run_wfInv hregs hrun).wf hh henc hsize rest
  · intro d ho hd rest
    exact ⟨CDeterministicMNListDiff.unserialize_run ho hd rest,
      fun l blockHash nHeight => CDeterministicMNListDiff.applyDiff_normalize _ l blockHash nHeight d,
      CDeterministicMNListDiff.normalize_of_normalized⟩
  · intro a b hb rest
    refine ⟨CDeterministicMNStateDiff.unserialize_run_of_normalized InternalSetBuf
      (CDeterministicMNStateDiff.ofStates_encodable InternalSetBuf a b hb)
      (CDeterministicMNStateDiff.ofStates_normalized a b) rest,
      CDeterministicMNStateDiff.applyToState_ofStates a b, fun t f => ?_⟩
    exact ⟨CDeterministicMNStateDiff.ofStates_mask a b f,
      CDeterministicMNStateDiff.applyToState_ofStates_agree a b t f⟩

namespace RoundTripFixture

open BlockAbortsFixture

/-- The state of a masternode with a penalty of 5. -/
def penalized : CDeterministicMNState := { nPoSePenalty := 5 }

/-- Every field of `penalized` is in its range. -/
theorem penalized_encodable : penalized.Encodable fun _ => true := by decide

/-- The three round trips at the list of a block that registers two masternodes, at the diff
from the empty list to it, and at the diff from the default state to `penalized`. -/
theorem mnList_encodings_roundTrip_two_masternodes :
    (∃ l', (CDeterministicMNList.unserialize serializeHash fun _ => true).run
        (list₁.serialize ++ []) = some (l', []) ∧ SameHeader list₁ l' ∧ SameMaps list₁ l') ∧
    (CDeterministicMNListDiff.unserialize fun _ => true).run
        ((({} : CDeterministicMNList).buildDiff list₁).serialize ++ []) =
      some ((({} : CDeterministicMNList).buildDiff list₁).normalize, []) ∧
    (CDeterministicMNStateDiff.ofStates {} penalized).applyToState {} = penalized :=
  ⟨(mnList_encodings_roundTrip serializeHash fun _ => true).1 cenv [(env 0, vtx₁)] list₁ rfl
      (by decide) (by decide) (by decide) (by decide) [],
    ((mnList_encodings_roundTrip serializeHash fun _ => true).2.1 _ (by decide) (by decide) []).1,
    ((mnList_encodings_roundTrip serializeHash fun _ => true).2.2 {} penalized
      penalized_encodable []).2.1⟩

/-- A list diff whose one state diff masks no field but holds a penalty of 5. -/
def unnormalizedDiff : CDeterministicMNListDiff :=
  { updatedMNs := [(0, { fields := 0, state := penalized })] }

/-- It reads back, but as another diff: the penalty outside the mask comes back as the default. -/
theorem unnormalized_diff_reads_back_changed :
    (CDeterministicMNListDiff.unserialize fun _ => true).run (unnormalizedDiff.serialize ++ []) =
      some (unnormalizedDiff.normalize, []) ∧ unnormalizedDiff.normalize ≠ unnormalizedDiff := by
  exact ⟨CDeterministicMNListDiff.unserialize_run (by decide) (by decide) [], by decide⟩

end RoundTripFixture

end Emrals
