import Mathlib

/-!
# Folds that may fail

A loop of imperative code that may stop early is a `List.foldlM` in `Option` (the stop is an
abort) or in `Except` (the stop carries an error). This module gives the rules the proofs about
such loops use: a bind that succeeds comes apart into its two halves; a property that every
successful step keeps holds of the result of a successful fold (the invariant rule); and a fold
each of whose steps succeeds from a state of the invariant succeeds (the no-abort rule). The
steps are only asked to behave on the elements of the list, so that a loop over a filtered or
validated list can use what it knows of its elements.
-/

namespace Fallible

variable {ε α β σ : Type}

/-- A bind in `Except` that succeeds: both halves succeed. -/
theorem except_bind_eq_ok {x : Except ε α} {f : α → Except ε β} {b : β}
    (h : x >>= f = .ok b) : ∃ a, x = .ok a ∧ f a = .ok b := by
  cases x with
  | error e => cases h
  | ok a => exact ⟨a, rfl, h⟩

@[simp] theorem except_bind_ok (a : α) (f : α → Except ε β) :
    (Except.ok a >>= f : Except ε β) = f a := rfl

@[simp] theorem except_bind_error (e : ε) (f : α → Except ε β) :
    (Except.error e >>= f : Except ε β) = .error e := rfl

/-- A fold in `Option` that succeeds: its first step succeeds and the rest of the fold succeeds
from there. -/
theorem foldlM_option_cons_eq_some {f : σ → α → Option σ} {a : α} {l : List α} {s t : σ}
    (h : (a :: l).foldlM f s = some t) : ∃ s', f s a = some s' ∧ l.foldlM f s' = some t := by
  simpa only [List.foldlM_cons, Option.bind_eq_bind, Option.bind_eq_some_iff] using h

/-- A fold in `Except` that succeeds: its first step succeeds and the rest of the fold succeeds
from there. -/
theorem foldlM_except_cons_eq_ok {f : σ → α → Except ε σ} {a : α} {l : List α} {s t : σ}
    (h : (a :: l).foldlM f s = .ok t) : ∃ s', f s a = .ok s' ∧ l.foldlM f s' = .ok t :=
  except_bind_eq_ok (by simpa only [List.foldlM_cons] using h)

section
variable {P : σ → Prop}

/-- The invariant rule for a fold in `Option`. -/
theorem foldlM_option_inv {f : σ → α → Option σ}
    (hstep : ∀ s a s', P s → f s a = some s' → P s') :
    ∀ {l : List α} {s t : σ}, P s → l.foldlM f s = some t → P t
  | [], s, t, hs, h => by cases h; exact hs
  | a :: l, s, t, hs, h => by
    obtain ⟨s', hs', hrest⟩ := foldlM_option_cons_eq_some h
    exact foldlM_option_inv hstep (hstep s a s' hs hs') hrest

/-- The invariant rule for a fold in `Except`, for steps that keep the invariant on the elements
of the list. -/
theorem foldlM_except_inv {f : σ → α → Except ε σ} :
    ∀ {l : List α} {s t : σ}, (∀ s a s', a ∈ l → P s → f s a = .ok s' → P s') →
      P s → l.foldlM f s = .ok t → P t
  | [], s, t, _, hs, h => by cases h; exact hs
  | a :: l, s, t, hstep, hs, h => by
    obtain ⟨s', hs', hrest⟩ := foldlM_except_cons_eq_ok h
    have hl : ∀ s b s', b ∈ l → P s → f s b = .ok s' → P s' := fun s b s' hb =>
      hstep s b s' (List.mem_cons_of_mem a hb)
    exact foldlM_except_inv hl (hstep s a s' List.mem_cons_self hs hs') hrest

/-- The invariant rule for a fold in `Except` whose invariant depends on the elements still to
come, such as a budget that each element spends. -/
theorem foldlM_except_inv_suffix {Q : List α → σ → Prop} {f : σ → α → Except ε σ}
    (hstep : ∀ a l s s', Q (a :: l) s → f s a = .ok s' → Q l s') :
    ∀ {l : List α} {s t : σ}, Q l s → l.foldlM f s = .ok t → Q [] t
  | [], s, t, hs, h => by cases h; exact hs
  | a :: l, s, t, hs, h => by
    obtain ⟨s', hs', hrest⟩ := foldlM_except_cons_eq_ok h
    exact foldlM_except_inv_suffix hstep (hstep a l s s' hs hs') hrest

/-- The no-abort rule for a fold in `Option`: when every step on an element of the list succeeds
from a state of the invariant and lands in it again, the fold succeeds. -/
theorem foldlM_option_isSome {f : σ → α → Option σ} :
    ∀ {l : List α} {s : σ}, (∀ s a, a ∈ l → P s → ∃ s', f s a = some s' ∧ P s') →
      P s → ∃ t, l.foldlM f s = some t ∧ P t
  | [], s, _, hs => ⟨s, rfl, hs⟩
  | a :: l, s, hstep, hs => by
    obtain ⟨s', hs', hP⟩ := hstep s a List.mem_cons_self hs
    have hl : ∀ s b, b ∈ l → P s → ∃ s', f s b = some s' ∧ P s' := fun s b hb =>
      hstep s b (List.mem_cons_of_mem a hb)
    obtain ⟨t, ht, hPt⟩ := foldlM_option_isSome hl hP
    exact ⟨t, by simp [List.foldlM_cons, hs', ht], hPt⟩

end

/-- The no-abort rule for a fold in `Option` whose invariant depends on the elements still to
come, such as what each element needs of the state when its turn comes. -/
theorem foldlM_option_isSome_suffix {Q : List α → σ → Prop} {f : σ → α → Option σ}
    (hstep : ∀ a l s, Q (a :: l) s → ∃ s', f s a = some s' ∧ Q l s') :
    ∀ {l : List α} {s : σ}, Q l s → ∃ t, l.foldlM f s = some t ∧ Q [] t
  | [], s, hs => ⟨s, rfl, hs⟩
  | a :: l, s, hs => by
    obtain ⟨s', hs', hQ⟩ := hstep a l s hs
    obtain ⟨t, ht, hQt⟩ := foldlM_option_isSome_suffix hstep hQ
    exact ⟨t, by simp [List.foldlM_cons, hs', ht], hQt⟩

/-- The invariant rule for a fold in `Option`, for steps that keep the invariant on the elements
of the list. -/
theorem foldlM_option_inv_mem {P : σ → Prop} {f : σ → α → Option σ} :
    ∀ {l : List α} {s t : σ}, (∀ s a s', a ∈ l → P s → f s a = some s' → P s') →
      P s → l.foldlM f s = some t → P t
  | [], s, t, _, hs, h => by cases h; exact hs
  | a :: l, s, t, hstep, hs, h => by
    obtain ⟨s', hs', hrest⟩ := foldlM_option_cons_eq_some h
    have hl : ∀ s b s', b ∈ l → P s → f s b = some s' → P s' := fun s b s' hb =>
      hstep s b s' (List.mem_cons_of_mem a hb)
    exact foldlM_option_inv_mem hl (hstep s a s' List.mem_cons_self hs hs') hrest

/-- A fold in `Option` each of whose steps leaves the state as it is returns the state. -/
theorem foldlM_option_of_fixed {f : σ → α → Option σ} {s : σ} :
    ∀ {l : List α}, (∀ a ∈ l, f s a = some s) → l.foldlM f s = some s
  | [], _ => rfl
  | a :: l, h => by
    rw [List.foldlM_cons, h a List.mem_cons_self]
    exact foldlM_option_of_fixed fun b hb => h b (List.mem_cons_of_mem a hb)

/-- A fold in `Except` each of whose steps leaves the state as it is returns the state. -/
theorem foldlM_except_of_fixed {f : σ → α → Except ε σ} {s : σ} :
    ∀ {l : List α}, (∀ a ∈ l, f s a = .ok s) → l.foldlM f s = .ok s
  | [], _ => rfl
  | a :: l, h => by
    rw [List.foldlM_cons, h a List.mem_cons_self]
    exact foldlM_except_of_fixed fun b hb => h b (List.mem_cons_of_mem a hb)

/-- A loop of checks in `Except` that succeeds: every check passed. -/
theorem forM_except_eq_ok {f : α → Except ε Unit} :
    ∀ {l : List α}, l.forM f = .ok () → ∀ a ∈ l, f a = .ok ()
  | [], _, a, ha => nomatch ha
  | b :: l, h, a, ha => by
    have h' : (f b >>= fun _ => l.forM f) = .ok () := h
    obtain ⟨u, hb, hrest⟩ := except_bind_eq_ok h'
    rcases List.mem_cons.1 ha with rfl | hmem
    · exact hb
    · exact forM_except_eq_ok hrest a hmem

/-- Every element of a fold in `Except` that succeeds passed its step from some state. -/
theorem foldlM_except_mem_ok {f : σ → α → Except ε σ} :
    ∀ {l : List α} {s t : σ}, l.foldlM f s = .ok t → ∀ a ∈ l, ∃ s₁ s₂, f s₁ a = .ok s₂
  | [], _, _, _, a, ha => nomatch ha
  | b :: l, s, t, h, a, ha => by
    obtain ⟨s', hs', hrest⟩ := foldlM_except_cons_eq_ok h
    rcases List.mem_cons.1 ha with rfl | hmem
    · exact ⟨s, s', hs'⟩
    · exact foldlM_except_mem_ok hrest a hmem

end Fallible
