import Emrals.DB.Transaction
import Emrals.Lib.Machine

/-!
# The merged iterator of a transaction

`CDBTransactionIterator` (`src/dbwrapper.h:377`) walks the keys a transaction shows by merging two
cursors: one over the transaction's writes, one over the parent. "At all times, only one of both
provides the current value. The decision is made by comparing the current keys of both
iterators": `DecideCur` compares the writes cursor's key with `parentKey`, the cached key of the
parent cursor, and `SkipDeletedAndOverwritten` steps the parent cursor past keys the transaction
erased or overwrote, testing `parentKey`.

The line of `SkipDeletedAndOverwritten` that would refresh the cache,
`parentKey = parentIt->GetKey();`, is commented out, and nothing else writes `parentKey`: it stays
the empty stream of the constructor. The model keeps the field and writes it nowhere.

A cursor is the list of the entries from its position on, in key order; it is valid while that
list is not empty. The parent is a store visited in key order, as the LevelDB iterator visits it.

Over every sequence of calls the cached key stays empty (`parentKey_eq_nil`), so every entry the
parent cursor provides is reported as the empty key with the value of the empty key
(`getKey_getValue_of_curIsParent`); over a transaction without writes a whole scan is a closed
form of the number of parent entries (`scan_seek_of_no_writes`). What the transaction shows is
the store `Commit` makes (`visible`), which the iterator should enumerate from the seek key on
(`visibleFrom`).
-/

namespace Emrals

/-- `CDBTransactionIterator`: the two cursors, the cached key of the parent cursor, and which
cursor provides the current entry. -/
structure CDBTransactionIterator (V : Type) where
  /-- `transactionIt`: the writes from its position on. -/
  transactionIt : List (CDataStream × V)
  /-- `parentIt`: the parent's entries from its position on. -/
  parentIt : List (CDataStream × V)
  parentKey : CDataStream
  curIsParent : Bool

namespace CDBTransactionIterator

variable {V : Type} (t : CDBTransaction V) (parent : KVStore V)

/-- The constructor: the writes cursor at the end, the parent cursor not yet positioned, the
cached key the empty stream. -/
def new : CDBTransactionIterator V :=
  { transactionIt := [], parentIt := [], parentKey := [], curIsParent := false }

/-- The loop of `SkipDeletedAndOverwritten` over the parent cursor, which tests the cached key
`parentKey` instead of the cursor's own key. -/
def skipLoop (parentKey : CDataStream) : List (CDataStream × V) → List (CDataStream × V)
  | [] => []
  | e :: rest =>
    -- `parentKey = parentIt->GetKey();` is commented out in the source
    if !(t.deletes.contains parentKey) && (t.writes.lookup parentKey).isNone then e :: rest
    else skipLoop parentKey rest

/-- `SkipDeletedAndOverwritten`. -/
def skipDeletedAndOverwritten (it : CDBTransactionIterator V) : CDBTransactionIterator V :=
  { it with parentIt := skipLoop t it.parentKey it.parentIt }

/-- `DecideCur`: the writes cursor provides the entry when the parent cursor is at its end or
when its key is less than `parentKey`. -/
def decideCur (it : CDBTransactionIterator V) : CDBTransactionIterator V :=
  match it.transactionIt, it.parentIt with
  | _ :: _, [] => { it with curIsParent := false }
  | [], _ :: _ => { it with curIsParent := true }
  | (k, _) :: _, _ :: _ => { it with curIsParent := !DataStreamCmp.less k it.parentKey }
  | [], [] => it

/-- The entries from the first key not less than `ssKey` on: `lower_bound`, and `Seek` of the
parent. -/
def lowerBound (entries : List (CDataStream × V)) (ssKey : CDataStream) :
    List (CDataStream × V) :=
  entries.dropWhile fun e => DataStreamCmp.less e.1 ssKey

@[simp] theorem lowerBound_nil (ssKey : CDataStream) :
    lowerBound ([] : List (CDataStream × V)) ssKey = [] := rfl

/-- `SeekToFirst`. -/
def seekToFirst (it : CDBTransactionIterator V) : CDBTransactionIterator V :=
  decideCur (skipDeletedAndOverwritten t
    { it with transactionIt := sortedEntries t.writes, parentIt := sortedEntries parent })

/-- `Seek`. -/
def seek (it : CDBTransactionIterator V) (ssKey : CDataStream) : CDBTransactionIterator V :=
  decideCur (skipDeletedAndOverwritten t
    { it with transactionIt := lowerBound (sortedEntries t.writes) ssKey,
              parentIt := lowerBound (sortedEntries parent) ssKey })

/-- `Valid`. -/
def valid (it : CDBTransactionIterator V) : Bool :=
  !it.transactionIt.isEmpty || !it.parentIt.isEmpty

/-- `Next`: advance the cursor that provided the entry. `none` where an `assert` fails. -/
def next (it : CDBTransactionIterator V) : Option (CDBTransactionIterator V) :=
  if it.transactionIt.isEmpty && it.parentIt.isEmpty then some it
  else if it.curIsParent then
    match it.parentIt with
    | [] => none
    | _ :: rest => some (decideCur (skipDeletedAndOverwritten t { it with parentIt := rest }))
  else
    match it.transactionIt with
    | [] => none
    | _ :: rest => some (decideCur { it with transactionIt := rest })

/-- `GetKey()`, the overload returning the stream: empty when not valid. -/
def getKey (it : CDBTransactionIterator V) : CDataStream :=
  if !it.valid then []
  else if it.curIsParent then it.parentKey
  else match it.transactionIt with
    | (k, _) :: _ => k
    | [] => []

/-- `GetKey(K&)`: the current key decoded by `decode`, which fails on a stream that does not hold
a whole `K`. -/
def getKeyAs {K : Type} (decode : CDataStream → Option K) (it : CDBTransactionIterator V) :
    Option K :=
  if !it.valid then none else decode it.getKey

/-- `GetValue`: what `CDBTransaction::Read` returns for the current key. -/
def getValue (it : CDBTransactionIterator V) : Option V :=
  if !it.valid then none
  else if it.curIsParent then t.read parent it.parentKey
  else match it.transactionIt with
    | (k, _) :: _ => t.read parent k
    | [] => none

/-- A scan of up to `fuel` entries from the iterator's position: the key and value of each entry
while the iterator is valid, then `Next`. -/
def scan : Nat → CDBTransactionIterator V → List (CDataStream × Option V)
  | 0, _ => []
  | fuel + 1, it =>
    if !it.valid then []
    else (it.getKey, getValue t parent it) ::
      match next t it with
      | some it' => scan fuel it'
      | none => []

/-- The calls a user makes on the iterator. -/
inductive Op
  | seekToFirst
  | seek (ssKey : CDataStream)
  | next

/-- One call on the iterator: `none` where an `assert` of `Next` fails. -/
def step (it : CDBTransactionIterator V) : Op → Option (CDBTransactionIterator V)
  | .seekToFirst => some (seekToFirst t parent it)
  | .seek ssKey => some (seek t parent it ssKey)
  | .next => next t it

/-! ## The cached key is never written -/

section
variable {t parent}

@[simp] theorem parentKey_skipDeletedAndOverwritten (it : CDBTransactionIterator V) :
    (skipDeletedAndOverwritten t it).parentKey = it.parentKey := rfl

@[simp] theorem parentKey_decideCur (it : CDBTransactionIterator V) :
    (decideCur it).parentKey = it.parentKey := by
  unfold decideCur
  split <;> rfl

theorem parentKey_step {it it' : CDBTransactionIterator V} {op : Op}
    (h : step t parent it op = some it') : it'.parentKey = it.parentKey := by
  cases op with
  | seekToFirst => cases h; simp [seekToFirst]
  | seek ssKey => cases h; simp [seek]
  | next =>
    simp only [step, next] at h
    split at h
    · cases h; rfl
    · split at h
      · split at h <;> cases h
        simp
      · split at h <;> cases h
        simp

/-- Every iterator reached from the constructor by any calls keeps the empty stream as the
key of the parent cursor. -/
theorem parentKey_eq_nil {it : CDBTransactionIterator V}
    (h : Machine.Reachable (step t parent) new it) : it.parentKey = [] :=
  h.induction_on_inv (P := fun it => it.parentKey = []) rfl
    fun _ _ _ hs hst => (parentKey_step hst).trans hs

/-- So whenever the parent cursor provides the entry, `GetKey` is the empty stream and `GetValue`
reads the empty key, whatever the parent cursor is at. -/
theorem getKey_getValue_of_curIsParent {it : CDBTransactionIterator V}
    (h : Machine.Reachable (step t parent) new it) (hv : it.valid) (hp : it.curIsParent) :
    it.getKey = [] ∧ getValue t parent it = t.read parent [] := by
  simp [getKey, getValue, hv, hp, parentKey_eq_nil h]

end

/-! ## Scans over a transaction without writes -/

/-- The loop of `SkipDeletedAndOverwritten` never looks at the entries: it keeps them all or
drops them all, by what the transaction holds for the cached key. -/
theorem skipLoop_eq (k : CDataStream) (es : List (CDataStream × V)) :
    skipLoop t k es = if !(k ∈ t.deletes) && (t.writes.lookup k).isNone then es else [] := by
  induction es with
  | nil => split <;> rfl
  | cons e es ih =>
    rw [skipLoop, ih]
    by_cases hd : k ∈ t.deletes
    · simp [hd]
    · by_cases hw : t.writes.lookup k = none <;> simp [hd, hw]

theorem scan_of_not_valid {it : CDBTransactionIterator V} (h : it.valid = false) (n : Nat) :
    scan t parent n it = [] := by
  cases n <;> simp [scan, h]

/-- Only the parent cursor left, providing the entry: `Next` steps it one entry on and it keeps
providing the entry. -/
theorem decideCur_parentOnly (es : List (CDataStream × V)) (k : CDataStream) :
    decideCur ⟨[], es, k, true⟩ = ⟨[], es, k, true⟩ := by
  cases es <;> rfl

/-- With only the parent cursor left and the empty stream as the cached key, which the
transaction neither erased nor wrote, a scan reports each remaining parent entry as the empty key
with the value of the empty key. -/
theorem scan_parentOnly (hk : ([] : CDataStream) ∉ t.deletes)
    (hw : t.writes.lookup [] = none) (n : Nat) (es : List (CDataStream × V)) :
    scan t parent n ⟨[], es, [], true⟩ =
      List.replicate (min n es.length) ([], t.read parent []) := by
  induction n generalizing es with
  | zero => simp [scan]
  | succ n ih =>
    cases es with
    | nil => simp [scan, valid]
    | cons e rest =>
      -- `Next` advances the parent cursor, and the skip loop keeps every entry
      have hnext : next t ⟨[], e :: rest, [], true⟩ = some ⟨[], rest, [], true⟩ := by
        simp [next, skipDeletedAndOverwritten, skipLoop_eq, hk, hw, decideCur_parentOnly]
      have hmin : min (n + 1) (rest.length + 1) = min n rest.length + 1 :=
        Nat.succ_min_succ n rest.length
      simp [scan, valid, getKey, getValue, hnext, ih, hmin, List.replicate_succ]

/-- A transaction without writes, scanned from `Seek(ssKey)` from the constructor: when the empty
key is deleted the scan ends at once; otherwise every parent entry from `ssKey` on, deleted or
not, is reported as the empty key with the parent's value for the empty key. -/
theorem scan_seek_of_no_writes (h : t.writes = ∅) (n : Nat) (ssKey : CDataStream) :
    scan t parent n (seek t parent new ssKey) =
      if ([] : CDataStream) ∈ t.deletes then []
      else List.replicate (min n (lowerBound (sortedEntries parent) ssKey).length)
        ([], parent.lookup []) := by
  have hw : t.writes.lookup [] = none := by simp [h]
  have hsorted : sortedEntries t.writes = [] := by simp [h, sortedEntries]
  by_cases hk : ([] : CDataStream) ∈ t.deletes
  · -- the skip loop drops every parent entry
    have hinv : (seek t parent new ssKey).valid = false := by
      simp [seek, new, skipDeletedAndOverwritten, skipLoop_eq, hk, hsorted, decideCur, valid]
    simp [hk, scan_of_not_valid t parent hinv]
  · have hread : t.read parent [] = parent.lookup [] := by simp [CDBTransaction.read, hk, hw]
    cases hes : lowerBound (sortedEntries parent) ssKey with
    | nil =>
      have hinv : (seek t parent new ssKey).valid = false := by
        simp [seek, new, skipDeletedAndOverwritten, skipLoop_eq, hk, hw, hsorted, hes, decideCur,
          valid]
      simp [hk, scan_of_not_valid t parent hinv]
    | cons e rest =>
      have hseek : seek t parent new ssKey = ⟨[], e :: rest, [], true⟩ := by
        simp [seek, new, skipDeletedAndOverwritten, skipLoop_eq, hk, hw, hsorted, hes, decideCur]
      rw [hseek, scan_parentOnly t parent hk hw, hread, if_neg hk]

end CDBTransactionIterator

namespace CDBTransaction

variable {V : Type}

/-- What the transaction shows: the parent without the deleted and the written keys, and the
written keys with their values. It is the store `Commit` makes of the parent. -/
def visible (t : CDBTransaction V) (parent : KVStore V) : KVStore V :=
  (t.commit parent).1

/-- The entries the transaction shows from `ssKey` on, in key order: what a scan from
`Seek(ssKey)` should give. -/
def visibleFrom (t : CDBTransaction V) (parent : KVStore V) (ssKey : CDataStream) :
    List (CDataStream × Option V) :=
  (CDBTransactionIterator.lowerBound (sortedEntries (t.visible parent)) ssKey).map
    fun e => (e.1, some e.2)

/-- Every key of the visible store reads through the transaction as it reads in that store. -/
theorem read_eq_lookup_visible {t : CDBTransaction V} (h : t.WellFormed) (parent : KVStore V)
    (k : CDataStream) : t.read parent k = (t.visible parent).lookup k := by
  rw [← read_commit h parent k, visible]
  exact read_clear t _ _

end CDBTransaction

/-! ## A parent with one key -/

namespace IteratorFixture

/-- A parent store holding `7` at the one-byte key `[1]`. -/
def parent : KVStore Nat := (∅ : KVStore Nat).insert [1] 7

/-- Failing input: over the parent above and the empty transaction, a scan from `Seek([0])`
reports the key as the empty stream and no value, while the transaction shows `[1] ↦ 7`. -/
theorem scan_from_seek_reports_empty_key :
    CDBTransactionIterator.scan {} parent 2
        ((CDBTransactionIterator.new : CDBTransactionIterator Nat).seek {} parent [0]) =
      [([], none)] ∧
    CDBTransaction.visibleFrom {} parent [0] = [([1], some 7)] := by
  decide

end IteratorFixture

end Emrals
