import Mathlib

/-!
# Ordered maps as sorted association lists

A `std::map` is the list of its entries in key order. `m[k] = v` is `assign k v m`: it replaces
the entry of `k`, or puts one in before the first greater key. A lookup then sees `v` at `k`
(`lookup_assign_self`) and the old entry elsewhere (`lookup_assign_ne`); every entry is the new
one or an old one (`mem_assign`), and the keys stay in increasing order (`sorted_assign`), so
distinct (`Sorted.nodup_keys`). Lookups compare keys with any lawful `==`, which need not be the
equality the order decides.
-/

namespace OrdMap

variable {K V : Type*}

theorem lookup_cons_ne [BEq K] [LawfulBEq K] {k k' : K} (v : V) (m : List (K × V)) (h : k' ≠ k) :
    ((k, v) :: m).lookup k' = m.lookup k' := by
  rw [List.lookup_cons, beq_eq_false_iff_ne.mpr h]

theorem mem_of_lookup_eq_some [BEq K] [LawfulBEq K] {k : K} {v : V} {m : List (K × V)}
    (h : m.lookup k = some v) : (k, v) ∈ m := by
  obtain ⟨l₁, l₂, rfl, -⟩ := List.lookup_eq_some_iff.mp h
  exact List.mem_append_right _ List.mem_cons_self

variable [LT K]

/-- The entries are in strictly increasing key order, as a `std::map` iterates them. -/
def Sorted (m : List (K × V)) : Prop := m.Pairwise fun a b => a.1 < b.1

/-- The keys of a sorted map are distinct. -/
theorem Sorted.nodup_keys [IsStrictTotalOrder K (· < ·)] {m : List (K × V)} (h : Sorted m) :
    (m.map Prod.fst).Nodup :=
  List.pairwise_map.mpr (h.imp fun {a b} hlt (heq : a.1 = b.1) => irrefl_of (· < ·) b.1 (heq ▸ hlt))

section
variable [BEq K] [LawfulBEq K] [IsStrictOrder K (· < ·)]

/-- A sorted map has no second entry for its least key. -/
theorem Sorted.lookup_tail {k : K} {v : V} {m : List (K × V)} (h : Sorted ((k, v) :: m)) :
    m.lookup k = none := by
  cases hl : m.lookup k with
  | none => rfl
  | some v' =>
    have hlt : k < k := (List.pairwise_cons.mp h).1 (k, v') (mem_of_lookup_eq_some hl)
    exact absurd hlt (irrefl_of (· < ·) k)

/-- Two sorted maps with the same lookups are equal: a map is determined by its entries. -/
theorem Sorted.ext : ∀ {m₁ m₂ : List (K × V)}, Sorted m₁ → Sorted m₂ →
    (∀ k, m₁.lookup k = m₂.lookup k) → m₁ = m₂
  | [], [], _, _, _ => rfl
  | [], (k, v) :: m, _, _, h => by simpa using h k
  | (k, v) :: m, [], _, _, h => by simpa using h k
  | (k₁, v₁) :: m₁, (k₂, v₂) :: m₂, h₁, h₂, h => by
    -- each head is in the other map, so each key is below the other unless they are equal
    have hk : k₁ = k₂ := by
      by_contra hne
      have hin₁ : (k₁, v₁) ∈ m₂ := by
        apply mem_of_lookup_eq_some
        rw [← lookup_cons_ne v₂ m₂ hne, ← h k₁, List.lookup_cons_self]
      have hin₂ : (k₂, v₂) ∈ m₁ := by
        apply mem_of_lookup_eq_some
        rw [← lookup_cons_ne v₁ m₁ (Ne.symm hne), h k₂, List.lookup_cons_self]
      have hlt₁ : k₂ < k₁ := (List.pairwise_cons.mp h₂).1 _ hin₁
      have hlt₂ : k₁ < k₂ := (List.pairwise_cons.mp h₁).1 _ hin₂
      exact irrefl_of (· < ·) k₁ (trans_of (· < ·) hlt₂ hlt₁)
    subst hk
    have hv : v₁ = v₂ := by simpa using h k₁
    subst hv
    congr 1
    refine Sorted.ext (List.pairwise_cons.mp h₁).2 (List.pairwise_cons.mp h₂).2 fun k => ?_
    by_cases hk : k = k₁
    · subst hk
      rw [h₁.lookup_tail, h₂.lookup_tail]
    · rw [← lookup_cons_ne v₁ m₁ hk, h k, lookup_cons_ne v₁ m₂ hk]

end

variable [∀ a b : K, Decidable (a < b)] [DecidableEq K]

/-- `m.erase(k)`. -/
def erase (k : K) (m : List (K × V)) : List (K × V) := m.filter fun e => !decide (e.1 = k)

/-- `m[k] = v`. -/
def assign (k : K) (v : V) : List (K × V) → List (K × V)
  | [] => [(k, v)]
  | (k', v') :: m =>
    if k = k' then (k, v) :: m
    else if k < k' then (k, v) :: (k', v') :: m
    else (k', v') :: assign k v m

section
variable [BEq K] [LawfulBEq K]

theorem lookup_assign_self (k : K) (v : V) : ∀ m : List (K × V), (assign k v m).lookup k = some v
  | [] => List.lookup_cons_self
  | (k₁, v₁) :: m => by
    unfold assign
    split
    · exact List.lookup_cons_self
    · split
      · exact List.lookup_cons_self
      · rw [lookup_cons_ne _ _ (by assumption)]
        exact lookup_assign_self k v m

theorem lookup_assign_ne {k k' : K} (v : V) (h : k' ≠ k) :
    ∀ m : List (K × V), (assign k v m).lookup k' = m.lookup k'
  | [] => lookup_cons_ne v [] h
  | (k₁, v₁) :: m => by
    unfold assign
    split
    · subst k
      rw [lookup_cons_ne _ _ h, lookup_cons_ne _ _ h]
    · split
      · exact lookup_cons_ne v _ h
      · by_cases h₁ : k' = k₁
        · subst h₁
          rw [List.lookup_cons_self, List.lookup_cons_self]
        · rw [lookup_cons_ne _ _ h₁, lookup_cons_ne _ _ h₁]
          exact lookup_assign_ne v h m

end

/-- `m.emplace(k, v)`: the entry of `k` stays if there is one; else `v` is put in. -/
def emplace (k : K) (v : V) (m : List (K × V)) : List (K × V) :=
  match m.lookup k with
  | some _ => m
  | none => assign k v m

theorem lookup_emplace_self (k : K) (v : V) (m : List (K × V)) :
    (emplace k v m).lookup k = some ((m.lookup k).getD v) := by
  unfold emplace
  cases h : m.lookup k with
  | some v' => exact h
  | none => exact lookup_assign_self k v m

theorem lookup_emplace_ne {k k' : K} (v : V) (m : List (K × V)) (h : k' ≠ k) :
    (emplace k v m).lookup k' = m.lookup k' := by
  unfold emplace
  cases m.lookup k with
  | some _ => rfl
  | none => exact lookup_assign_ne v h m

theorem mem_assign {k : K} {v : V} {x : K × V} :
    ∀ {m : List (K × V)}, x ∈ assign k v m → x = (k, v) ∨ x ∈ m
  | [], h => .inl (List.mem_singleton.mp h)
  | (k₁, v₁) :: m, h => by
    unfold assign at h
    split at h
    · rcases List.mem_cons.mp h with rfl | h
      · exact .inl rfl
      · exact .inr (List.mem_cons_of_mem _ h)
    · split at h
      · rcases List.mem_cons.mp h with rfl | h
        · exact .inl rfl
        · exact .inr h
      · rcases List.mem_cons.mp h with rfl | h
        · exact .inr List.mem_cons_self
        · exact (mem_assign h).imp id (List.mem_cons_of_mem _)

theorem keys_assign_subset (k : K) (v : V) :
    ∀ (m : List (K × V)), ∀ k' ∈ (assign k v m).map Prod.fst, k' = k ∨ k' ∈ m.map Prod.fst := by
  intro m k' hk'
  obtain ⟨x, hx, rfl⟩ := List.mem_map.mp hk'
  rcases mem_assign hx with rfl | hx
  · exact .inl rfl
  · exact .inr (List.mem_map_of_mem hx)

theorem sorted_assign [IsStrictTotalOrder K (· < ·)] (k : K) (v : V) :
    ∀ {m : List (K × V)}, Sorted m → Sorted (assign k v m)
  | [], _ => List.pairwise_singleton _ _
  | (k₁, v₁) :: m, h => by
    rw [Sorted, List.pairwise_cons] at h
    unfold assign
    split
    · subst k
      exact List.pairwise_cons.mpr h
    · split
      · refine List.pairwise_cons.mpr ⟨?_, List.pairwise_cons.mpr h⟩
        rintro x (_ | ⟨_, hx⟩)
        · assumption
        · exact trans_of (· < ·) (by assumption) (h.1 x hx)
      · -- the new key goes after `k₁`
        have hlt : k₁ < k := by
          rcases trichotomous_of (· < ·) k k₁ with h' | h' | h'
          · contradiction
          · contradiction
          · exact h'
        refine List.pairwise_cons.mpr ⟨fun x hx => ?_, sorted_assign k v h.2⟩
        rcases mem_assign hx with rfl | hx
        · exact hlt
        · exact h.1 x hx

theorem sorted_emplace [IsStrictTotalOrder K (· < ·)] (k : K) (v : V) {m : List (K × V)}
    (h : Sorted m) : Sorted (emplace k v m) := by
  unfold emplace
  cases m.lookup k with
  | some _ => exact h
  | none => exact sorted_assign k v h

end OrdMap
