import Mathlib
import Emrals.Lib.AListFold

/-!
# Transactions over a key-value store

`CDBTransaction` (`src/dbwrapper.h:528`) buffers writes and erases over a parent store (the
LevelDB wrapper, or another transaction): `writes` maps serialized keys to values and `deletes`
holds erased keys. `Read` looks at the deletes, then the writes, then the parent; `Commit`
replays the deletes and then the writes into its commit target and clears the transaction.

Keys are the bytes of their serialization (`CDataStream`), ordered as `DataStreamCmp` orders
them, by `std::lexicographical_compare`. The `std::map` of writes is an `AList`, visited in key
order where the iterator needs an order. The value holders of the source carry values of any
serializable type and `Read` throws when it asks for another type than the one written; the
model has one value type `V`, so that case does not arise. The memory accounting
(`memoryUsage`) decides only when the node flushes, and is left out.

The transaction refines a plain map: a store that the same writes and erases update, which
`Clear` resets to the parent and `Commit` keeps (`read_write`, `read_erase`, `read_clear`,
`read_commit`), for every transaction whose writes and deletes are disjoint, as every
transaction reached from the empty one is (`WellFormed`).
-/

namespace Emrals

/-- A serialized key: the bytes of a `CDataStream`. -/
abbrev CDataStream := List UInt8

/-- `DataStreamCmp::less`: `std::lexicographical_compare` of the bytes, as unsigned chars. -/
def DataStreamCmp.less : CDataStream → CDataStream → Bool
  | [], [] => false
  | [], _ :: _ => true
  | _ :: _, [] => false
  | a :: as, b :: bs => if a < b then true else if b < a then false else less as bs

/-- A key-value store by its contents. -/
abbrev KVStore (V : Type) := AList (fun _ : CDataStream => V)

/-- The entries of a store in key order, as a `std::map` or the LevelDB iterator visits them. -/
def sortedEntries {V : Type} (s : KVStore V) : List (CDataStream × V) :=
  (s.entries.map fun e => (e.1, e.2)).insertionSort fun a b => DataStreamCmp.less a.1 b.1

theorem mem_sortedEntries {V : Type} {s : KVStore V} {k : CDataStream} {v : V} :
    (k, v) ∈ sortedEntries s ↔ s.lookup k = some v := by
  rw [sortedEntries, (List.perm_insertionSort _ _).mem_iff, ← Option.mem_def,
    AList.mem_lookup_iff]
  constructor
  · rintro h
    obtain ⟨⟨k', v'⟩, hm, he⟩ := List.mem_map.1 h
    cases he
    exact hm
  · exact fun h => List.mem_map.2 ⟨_, h, rfl⟩

theorem nodup_keys_sortedEntries {V : Type} (s : KVStore V) :
    ((sortedEntries s).map Prod.fst).Nodup := by
  rw [sortedEntries, ((List.perm_insertionSort _ _).map Prod.fst).nodup_iff, List.map_map]
  exact s.nodupKeys

/-- `CDBTransaction`: the pending writes and erases. -/
structure CDBTransaction (V : Type) where
  writes : KVStore V := ∅
  deletes : List CDataStream := []

namespace CDBTransaction

variable {V : Type}

/-- `Write`: the key is no longer deleted and now holds `v`. -/
def write (t : CDBTransaction V) (ssKey : CDataStream) (v : V) : CDBTransaction V :=
  { writes := t.writes.insert ssKey v, deletes := t.deletes.erase ssKey }

/-- `Erase`: the key is no longer written, and is deleted (`std::set::emplace`). -/
def erase (t : CDBTransaction V) (ssKey : CDataStream) : CDBTransaction V :=
  { writes := t.writes.erase ssKey,
    deletes := if ssKey ∈ t.deletes then t.deletes else t.deletes ++ [ssKey] }

/-- `Clear`. -/
def clear (_t : CDBTransaction V) : CDBTransaction V := {}

/-- `Read` over the parent store: a deleted key has no value, a written one its written value,
and any other key the parent's. -/
def read (t : CDBTransaction V) (parent : KVStore V) (ssKey : CDataStream) : Option V :=
  if ssKey ∈ t.deletes then none
  else match t.writes.lookup ssKey with
    | some v => some v
    | none => parent.lookup ssKey

/-- `Commit` into the commit target: erase the deleted keys, then write the written ones in key
order, and clear the transaction. -/
def commit (t : CDBTransaction V) (commitTarget : KVStore V) : KVStore V × CDBTransaction V :=
  let target := t.deletes.foldl (fun s k => s.erase k) commitTarget
  let target := (sortedEntries t.writes).foldl (fun s p => s.insert p.1 p.2) target
  (target, t.clear)

/-- The deletes hold each key once (`std::set`) and no written key. `Write` and `Erase` each
take the key out of the other side, so every transaction reached from the empty one has this
shape. -/
structure WellFormed (t : CDBTransaction V) : Prop where
  nodup : t.deletes.Nodup
  disjoint : ∀ k ∈ t.deletes, t.writes.lookup k = none

theorem wellFormed_empty : WellFormed ({} : CDBTransaction V) :=
  ⟨List.nodup_nil, fun _ hk => nomatch hk⟩

theorem WellFormed.write {t : CDBTransaction V} (h : t.WellFormed) (k : CDataStream) (v : V) :
    (t.write k v).WellFormed where
  nodup := h.nodup.erase k
  disjoint := fun k' hk' => by
    obtain ⟨hne, hmem⟩ := (h.nodup.mem_erase_iff).1 hk'
    simp only [CDBTransaction.write, AList.lookup_insert_ne hne]
    exact h.disjoint k' hmem

theorem WellFormed.erase {t : CDBTransaction V} (h : t.WellFormed) (k : CDataStream) :
    (t.erase k).WellFormed where
  nodup := by
    simp only [CDBTransaction.erase]
    split
    · exact h.nodup
    · next hk => exact h.nodup.append (List.nodup_singleton k) (by simpa using hk)
  disjoint := fun k' hk' => by
    simp only [CDBTransaction.erase]
    by_cases hk : k' = k
    · subst hk
      exact AList.lookup_erase _ _
    · rw [AList.lookup_erase_ne hk]
      apply h.disjoint k'
      simp only [CDBTransaction.erase] at hk'
      split at hk' <;> simp_all

theorem WellFormed.clear (t : CDBTransaction V) : t.clear.WellFormed := wellFormed_empty

/-! ## Reading through the transaction -/

/-- A write is read back, and leaves every other key as it was. -/
theorem read_write {t : CDBTransaction V} (h : t.WellFormed) (parent : KVStore V)
    (k k' : CDataStream) (v : V) :
    (t.write k v).read parent k' = if k' = k then some v else t.read parent k' := by
  by_cases hk : k' = k
  · subst hk
    simp [read, write, h.nodup.not_mem_erase]
  · have hdel : k' ∈ t.deletes.erase k ↔ k' ∈ t.deletes := by
      rw [h.nodup.mem_erase_iff]
      exact ⟨fun h' => h'.2, fun h' => ⟨hk, h'⟩⟩
    simp [read, write, hk, hdel, AList.lookup_insert_ne hk]

/-- An erased key has no value, and every other key is as it was. -/
theorem read_erase (t : CDBTransaction V) (parent : KVStore V) (k k' : CDataStream) :
    (t.erase k).read parent k' = if k' = k then none else t.read parent k' := by
  by_cases hk : k' = k
  · subst hk
    simp only [read, erase]
    split <;> simp_all
  · have hdel : k' ∈ (t.erase k).deletes ↔ k' ∈ t.deletes := by
      simp only [erase]
      split <;> simp [hk]
    have hw : (t.erase k).writes.lookup k' = t.writes.lookup k' := AList.lookup_erase_ne hk
    simp only [read, hdel, hw, hk, if_false]

/-- After `Clear` the parent shows through. -/
theorem read_clear (t : CDBTransaction V) (parent : KVStore V) (k : CDataStream) :
    t.clear.read parent k = parent.lookup k := by
  simp [clear, read]

/-- `Commit` into the parent changes nothing a read sees: the parent then holds what the
transaction showed. -/
theorem read_commit {t : CDBTransaction V} (h : t.WellFormed) (parent : KVStore V)
    (k : CDataStream) :
    (t.commit parent).2.read (t.commit parent).1 k = t.read parent k := by
  simp only [commit, read_clear]
  cases hw : t.writes.lookup k with
  | some v =>
    -- a written key is not deleted, and the write loop puts its value
    have hdel : k ∉ t.deletes := fun hk => by simp [h.disjoint k hk] at hw
    rw [AListFold.lookup_foldl_insert_of_mem _ _ (nodup_keys_sortedEntries _)
      (mem_sortedEntries.2 hw)]
    simp [read, hdel, hw]
  | none =>
    have hnot : k ∉ (sortedEntries t.writes).map Prod.fst := fun hk => by
      obtain ⟨p, hp, rfl⟩ := List.mem_map.1 hk
      simp [mem_sortedEntries.1 hp] at hw
    rw [AListFold.lookup_foldl_insert_of_not_mem _ _ _ hnot, AListFold.lookup_foldl_erase]
    simp [read, hw]

end CDBTransaction

end Emrals
