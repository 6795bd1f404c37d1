import Mathlib

/-!
# Reference-counted ownership maps

A map from keys to a holder and a count records, for every key, which owner holds it and how many
of that owner's claims are on it. `acquire` adds a claim, and fails when another owner holds the
key; `release` removes one, fails unless the owner holds the key, and erases the entry with the
last claim.

Such a map *represents* a family of claims `C : K → Multiset O` when every entry is exactly the
claims on its key: no entry for no claims, and `(o, c)` for `c` claims, all by `o`. The
operations then act on the claims by adding and removing one (`Represents.acquire`,
`Represents.release`), `acquire` succeeds exactly when every claim on the key is by the same owner
(`Represents.acquire_isSome`), and two maps that represent the same claims have the same entries
(`Represents.lookup_eq`). So a map maintained by these operations is a function of the claims
alone, whatever the order of the operations that built it.
-/

namespace RefCount

variable {K O : Type} [DecidableEq K]

/-- The claims an entry stands for. -/
def entryClaims : Option (O × UInt32) → Multiset O
  | none => 0
  | some (o, c) => Multiset.replicate c.toNat o

/-- The claims of `o`, one on each key of `ks` for every occurrence. -/
def ofKeys (o : O) (ks : List K) : K → Multiset O := fun k => Multiset.replicate (ks.count k) o

@[simp] theorem ofKeys_nil (o : O) : ofKeys o ([] : List K) = 0 := by
  funext k
  simp [ofKeys]

theorem ofKeys_append (o : O) (ks₁ ks₂ : List K) :
    ofKeys o (ks₁ ++ ks₂) = ofKeys o ks₁ + ofKeys o ks₂ := by
  funext k
  simp [ofKeys, List.count_append, Multiset.replicate_add]

theorem ofKeys_cons (o : O) (k : K) (ks : List K) :
    ofKeys o (k :: ks) = ofKeys o [k] + ofKeys o ks :=
  ofKeys_append o [k] ks

theorem ofKeys_singleton_apply (o : O) (k k' : K) :
    ofKeys o [k] k' = if k' = k then {o} else 0 := by
  by_cases hk : k' = k
  · subst hk
    simp [ofKeys]
  · simp [ofKeys, hk, Ne.symm hk]

/-- The map represents the claims `C`. -/
structure Represents (m : AList (fun _ : K => O × UInt32)) (C : K → Multiset O) : Prop where
  pos : ∀ k e, m.lookup k = some e → 0 < e.2.toNat
  claims : ∀ k, C k = entryClaims (m.lookup k)

theorem represents_empty : Represents (∅ : AList (fun _ : K => O × UInt32)) 0 :=
  ⟨fun _ _ h => (nomatch h), fun _ => rfl⟩

/-- Two maps that represent the same claims have the same entries. -/
theorem Represents.lookup_eq {m₁ m₂ : AList (fun _ : K => O × UInt32)} {C : K → Multiset O}
    (h₁ : Represents m₁ C) (h₂ : Represents m₂ C) (k : K) :
    m₁.lookup k = m₂.lookup k := by
  have hc : entryClaims (m₁.lookup k) = entryClaims (m₂.lookup k) :=
    (h₁.claims k).symm.trans (h₂.claims k)
  cases hl₁ : m₁.lookup k with
  | none =>
    cases hl₂ : m₂.lookup k with
    | none => rfl
    | some e₂ =>
      -- an entry stands for at least one claim
      have hpos := h₂.pos k e₂ hl₂
      rw [hl₁, hl₂] at hc
      have := congrArg Multiset.card hc
      simp [entryClaims] at this
      omega
  | some e₁ =>
    cases hl₂ : m₂.lookup k with
    | none =>
      have hpos := h₁.pos k e₁ hl₁
      rw [hl₁, hl₂] at hc
      have := congrArg Multiset.card hc
      simp [entryClaims] at this
      omega
    | some e₂ =>
      obtain ⟨o₁, c₁⟩ := e₁
      obtain ⟨o₂, c₂⟩ := e₂
      have hpos₁ := h₁.pos k _ hl₁
      rw [hl₁, hl₂] at hc
      simp only [entryClaims] at hc
      -- equal replicates of a positive length have the same length and element
      have hcard : c₁.toNat = c₂.toNat := by simpa using congrArg Multiset.card hc
      have hmem : o₁ ∈ Multiset.replicate c₂.toNat o₂ := by
        rw [← hc]
        exact Multiset.mem_replicate.2 ⟨by simp at hpos₁; omega, rfl⟩
      rw [(Multiset.mem_replicate.1 hmem).2, UInt32.toNat_inj.1 hcard]

/-- The claims on a key are all by one owner. -/
theorem Represents.eq_of_mem {m : AList (fun _ : K => O × UInt32)} {C : K → Multiset O} {k : K}
    {o₁ o₂ : O} (h : Represents m C) (h₁ : o₁ ∈ C k) (h₂ : o₂ ∈ C k) : o₁ = o₂ := by
  rw [h.claims k] at h₁ h₂
  cases hl : m.lookup k with
  | none =>
    rw [hl] at h₁
    cases h₁
  | some e =>
    obtain ⟨o, c⟩ := e
    rw [hl] at h₁ h₂
    exact (Multiset.eq_of_mem_replicate h₁).trans (Multiset.eq_of_mem_replicate h₂).symm

variable [DecidableEq O]

/-- Add a claim of `o` on `k`. -/
def acquire (m : AList (fun _ : K => O × UInt32)) (o : O) (k : K) :
    Option (AList (fun _ : K => O × UInt32)) :=
  match m.lookup k with
  | none => some (m.insert k (o, 1))
  | some (holder, count) => if holder = o then some (m.insert k (o, count + 1)) else none

/-- Remove a claim of `o` on `k`. -/
def release (m : AList (fun _ : K => O × UInt32)) (o : O) (k : K) :
    Option (AList (fun _ : K => O × UInt32)) :=
  match m.lookup k with
  | none => none
  | some (holder, count) =>
    if holder = o then
      if count = 1 then some (m.erase k) else some (m.insert k (o, count - 1))
    else none

section
variable {m m' : AList (fun _ : K => O × UInt32)} {C : K → Multiset O} {o : O} {k : K}

/-- An acquire adds one claim, when the count of a key that only `o` claims does not wrap. -/
theorem Represents.acquire (h : Represents m C)
    (hc : (∀ o' ∈ C k, o' = o) → (C k).card + 1 < 2 ^ 32)
    (ha : RefCount.acquire m o k = some m') : Represents m' (C + ofKeys o [k]) := by
  unfold RefCount.acquire at ha
  -- the entry of `k` after the acquire, and the claims on `k` before it
  have hnew : ∃ c : UInt32, c.toNat = (C k).card + 1 ∧ m' = m.insert k (o, c) ∧
      C k = Multiset.replicate (C k).card o := by
    split at ha
    · next hl =>
      cases ha
      have hk : C k = 0 := by rw [h.claims k, hl]; rfl
      exact ⟨1, by simp [hk], rfl, by simp [hk]⟩
    · next holder count hl =>
      split at ha
      · next hho =>
        cases ha
        subst hho
        have hk : C k = Multiset.replicate count.toNat holder := by rw [h.claims k, hl]; rfl
        have hcount : (C k).card = count.toNat := by simp [hk]
        have hown : ∀ o' ∈ C k, o' = holder := fun o' ho' => by
          rw [hk] at ho'
          exact Multiset.eq_of_mem_replicate ho'
        have hlt := hc hown
        refine ⟨count + 1, ?_, rfl, by rw [hcount]; exact hk⟩
        rw [UInt32.toNat_add, UInt32.toNat_one, hcount]
        omega
      · cases ha
  obtain ⟨c, hc', rfl, hrep⟩ := hnew
  refine ⟨fun k' e he => ?_, fun k' => ?_⟩
  · by_cases hk : k' = k
    · subst hk
      rw [AList.lookup_insert] at he
      cases he
      simp only
      omega
    · rw [AList.lookup_insert_ne hk] at he
      exact h.pos k' e he
  · rw [Pi.add_apply, ofKeys_singleton_apply]
    by_cases hk : k' = k
    · subst hk
      rw [AList.lookup_insert, if_pos rfl]
      simp only [entryClaims]
      rw [hc', Multiset.replicate_succ, hrep, ← Multiset.singleton_add, add_comm]
      simp
    · rw [AList.lookup_insert_ne hk, if_neg hk, add_zero]
      exact h.claims k'

/-- An acquire succeeds when every claim on the key is by the same owner. -/
theorem Represents.acquire_isSome (h : Represents m C) (hown : ∀ o' ∈ C k, o' = o) :
    ∃ m', RefCount.acquire m o k = some m' := by
  unfold RefCount.acquire
  split
  · exact ⟨_, rfl⟩
  · next holder count hl =>
    have hpos := h.pos k _ hl
    have hmem : holder ∈ C k := by
      rw [h.claims k, hl]
      exact Multiset.mem_replicate.2 ⟨by simp at hpos; omega, rfl⟩
    rw [if_pos (hown holder hmem)]
    exact ⟨_, rfl⟩

/-- A release removes one claim, which was there. -/
theorem Represents.release (h : Represents m C) (hr : RefCount.release m o k = some m') :
    ofKeys o [k] ≤ C ∧ Represents m' (C - ofKeys o [k]) := by
  unfold RefCount.release at hr
  split at hr
  · cases hr
  · next holder count hl =>
    split at hr
    · next hho =>
      subst hho
      have hk : C k = Multiset.replicate count.toNat holder := by rw [h.claims k, hl]; rfl
      have hpos := h.pos k _ hl
      simp only at hpos
      -- the claims on `k` are one claim of the holder more than what is left
      have hsplit : C k = {holder} + Multiset.replicate (count.toNat - 1) holder := by
        rw [hk, Multiset.singleton_add, ← Multiset.replicate_succ]
        congr 1
        omega
      have hle : ofKeys holder [k] ≤ C := by
        intro k'
        rw [ofKeys_singleton_apply]
        split
        · next hk' => subst hk'; rw [hsplit]; exact Multiset.le_add_right _ _
        · exact Multiset.zero_le _
      have hsub : ∀ k', (C - ofKeys holder [k]) k' =
          if k' = k then Multiset.replicate (count.toNat - 1) holder else C k' := by
        intro k'
        rw [Pi.sub_apply, ofKeys_singleton_apply]
        split
        · next hk' => subst hk'; rw [hsplit, add_tsub_cancel_left]
        · simp
      refine ⟨hle, ?_⟩
      split at hr
      · next h1 =>
        cases hr
        have hcount : count.toNat = 1 := by simp [h1]
        refine ⟨fun k' e he => ?_, fun k' => ?_⟩
        · by_cases hk' : k' = k
          · subst hk'; simp at he
          · rw [AList.lookup_erase_ne hk'] at he
            exact h.pos k' e he
        · rw [hsub]
          by_cases hk' : k' = k
          · subst hk'
            rw [if_pos rfl, hcount, AList.lookup_erase]
            rfl
          · rw [if_neg hk', AList.lookup_erase_ne hk']
            exact h.claims k'
      · next h1 =>
        cases hr
        have hcount : count.toNat ≠ 1 := fun hc => h1 (UInt32.toNat_inj.1 (by simpa using hc))
        have hdec : (count - 1).toNat = count.toNat - 1 := by
          rw [UInt32.toNat_sub_of_le _ _ (by simp [UInt32.le_iff_toNat_le]; omega)]
          simp
        refine ⟨fun k' e he => ?_, fun k' => ?_⟩
        · by_cases hk' : k' = k
          · subst hk'
            rw [AList.lookup_insert] at he
            cases he
            simp only [hdec]
            omega
          · rw [AList.lookup_insert_ne hk'] at he
            exact h.pos k' e he
        · rw [hsub]
          by_cases hk' : k' = k
          · subst hk'
            rw [if_pos rfl, AList.lookup_insert]
            simp only [entryClaims, hdec]
          · rw [if_neg hk', AList.lookup_insert_ne hk']
            exact h.claims k'
    · cases hr

end

end RefCount
