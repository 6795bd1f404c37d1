import Mathlib

/-!
# Folding updates into an association list

Code that applies a batch of updates to a map (erase these keys, then write those pairs) is a
left fold of `AList.erase` or `AList.insert`. What a lookup sees afterwards: an erased key is
gone, a written key holds the value its pair carries (the pairs having distinct keys), and every
other key is as before.

A quantity that a map's entries add up to (`sumEntries`) changes with a write or an erase by the
entries they replace.
-/

namespace AListFold

variable {α β : Type*} [DecidableEq α]

/-- After erasing a list of keys, exactly those keys are gone. -/
theorem lookup_foldl_erase (ks : List α) (s : AList (fun _ : α => β)) (k : α) :
    (ks.foldl (fun s k => s.erase k) s).lookup k = if k ∈ ks then none else s.lookup k := by
  induction ks generalizing s with
  | nil => simp
  | cons k' ks ih =>
    rw [List.foldl_cons, ih]
    by_cases hk : k = k'
    · subst hk
      simp
    · simp [hk, AList.lookup_erase_ne hk]

/-- Writing pairs none of which has the key leaves the key as it was. -/
theorem lookup_foldl_insert_of_not_mem (ps : List (α × β)) (s : AList (fun _ : α => β)) (k : α)
    (h : k ∉ ps.map Prod.fst) :
    (ps.foldl (fun s p => s.insert p.1 p.2) s).lookup k = s.lookup k := by
  induction ps generalizing s with
  | nil => rfl
  | cons p ps ih =>
    have hne : k ≠ p.1 := fun he => h (by simp [he])
    rw [List.foldl_cons, ih _ (fun hm => h (List.mem_cons_of_mem _ hm)),
      AList.lookup_insert_ne hne]

/-- Writing pairs with distinct keys, a key of one of them holds that pair's value. -/
theorem lookup_foldl_insert_of_mem (ps : List (α × β)) (s : AList (fun _ : α => β)) {k : α}
    {v : β} (hnd : (ps.map Prod.fst).Nodup) (hmem : (k, v) ∈ ps) :
    (ps.foldl (fun s p => s.insert p.1 p.2) s).lookup k = some v := by
  induction ps generalizing s with
  | nil => cases hmem
  | cons p ps ih =>
    rw [List.map_cons, List.nodup_cons] at hnd
    rw [List.foldl_cons]
    rcases List.mem_cons.1 hmem with rfl | hmem'
    · -- the first pair is the one; no later pair has its key
      rw [lookup_foldl_insert_of_not_mem _ _ _ hnd.1, AList.lookup_insert]
    · exact ih _ hnd.2 hmem'

/-! ## Sums over the entries -/

section
variable {M : Type*} [AddCommMonoid M] (g : α → β → M)

/-- The sum of `g` over the entries of an association list. -/
def sumEntries (s : AList (fun _ : α => β)) : M := (s.entries.map fun e => g e.1 e.2).sum

omit [DecidableEq α] in
@[simp] theorem sumEntries_empty : sumEntries g (∅ : AList (fun _ : α => β)) = 0 := rfl

/-- The entry of a key, and the sum over the others. -/
theorem sumEntries_eq_add_erase {s : AList (fun _ : α => β)} {k : α} {v : β}
    (h : s.lookup k = some v) : sumEntries g s = g k v + sumEntries g (s.erase k) := by
  have hk : k ∈ s.entries.keys := AList.mem_keys.1 (AList.lookup_isSome.1 (by rw [h]; rfl))
  obtain ⟨b, l₁, l₂, hk₁, hs, herase⟩ := List.exists_of_kerase hk
  -- the entry found is the first one with the key, after entries of other keys
  have hb : b = v := by
    have hl : s.entries.dlookup k = some v := h
    rw [hs, List.dlookup_append, List.dlookup_eq_none.2 hk₁, Option.none_or,
      List.dlookup_cons_eq] at hl
    exact Option.some.inj hl
  subst hb
  have he : (s.erase k).entries = l₁ ++ l₂ := herase
  unfold sumEntries
  rw [he, hs, List.map_append, List.map_cons, List.sum_append, List.sum_cons, List.map_append,
    List.sum_append]
  exact add_left_comm _ _ _

theorem sumEntries_insert (s : AList (fun _ : α => β)) (k : α) (v : β) :
    sumEntries g (s.insert k v) = g k v + sumEntries g (s.erase k) := by
  unfold sumEntries
  rw [AList.entries_insert, List.map_cons, List.sum_cons]
  rfl

/-- The sum depends on the lookups only: two maps that agree on every key have the same entries
up to order. -/
theorem sumEntries_congr {s t : AList (fun _ : α => β)} (h : ∀ k, s.lookup k = t.lookup k) :
    sumEntries g s = sumEntries g t := by
  have hp : s.entries.Perm t.entries := List.lookup_ext s.nodupKeys t.nodupKeys fun k v => by
    change v ∈ s.lookup k ↔ v ∈ t.lookup k
    rw [h k]
  exact (hp.map _).sum_eq

theorem erase_of_lookup_eq_none {s : AList (fun _ : α => β)} {k : α} (h : s.lookup k = none) :
    s.erase k = s := by
  apply AList.ext
  exact List.kerase_of_notMem_keys (AList.mem_keys.not.1 (AList.lookup_eq_none.1 h))

end

end AListFold
