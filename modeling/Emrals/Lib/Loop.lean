import Mathlib

/-!
# While loops with fuel

A `while` loop is a body `σ → Option (σ ⊕ ρ)`: a round from a state either goes round again
(`.inl`), leaves the loop with a result (`.inr`), or fails (`none`: an abort, or a nested loop that
does not finish). `loop body fuel s` runs at most `fuel` rounds, and running out of fuel is `none`
as well. So a loop finishes from `s` when some fuel gives `some`, and it does not finish when every
fuel gives `none`.

Two rules carry what the development proves of loops. The variant rule (`loop_of_variant`): an
invariant that every round keeps while a measure falls, and whose exits satisfy a postcondition,
gives a result with that postcondition from every fuel above the measure. The divergence rule
(`loop_eq_none_of_stuck`): a set of states from which every round fails or lands in the set again
is never left, so the loop gives `none` at every fuel.
-/

namespace Loop

variable {σ ρ : Type*}

/-- Run `body` from `s` for at most `fuel` rounds. -/
def loop (body : σ → Option (σ ⊕ ρ)) : Nat → σ → Option ρ
  | 0, _ => none
  | fuel + 1, s => (body s).bind fun
    | .inl s' => loop body fuel s'
    | .inr r => some r

section
variable {body : σ → Option (σ ⊕ ρ)}

@[simp] theorem loop_zero (s : σ) : loop body 0 s = none := rfl

theorem loop_of_inl {s s' : σ} (h : body s = some (.inl s')) (fuel : Nat) :
    loop body (fuel + 1) s = loop body fuel s' := by
  rw [loop, h]
  rfl

theorem loop_of_inr {s : σ} {r : ρ} (h : body s = some (.inr r)) (fuel : Nat) :
    loop body (fuel + 1) s = some r := by
  rw [loop, h]
  rfl

theorem loop_of_none {s : σ} (h : body s = none) (fuel : Nat) : loop body fuel s = none := by
  cases fuel with
  | zero => rfl
  | succ fuel => rw [loop, h]; rfl

/-- The variant rule: from a state of the invariant `P`, with more fuel than the measure `μ`, the
loop finishes with a result of `Q`, when each round from `P` either goes round again to `P` with
a smaller measure or leaves with a result of `Q`. -/
theorem loop_of_variant {P : σ → Prop} {Q : ρ → Prop} (μ : σ → Nat)
    (hbody : ∀ s, P s → (∃ s', body s = some (.inl s') ∧ P s' ∧ μ s' < μ s) ∨
      ∃ r, body s = some (.inr r) ∧ Q r) :
    ∀ (fuel : Nat) (s : σ), P s → μ s < fuel → ∃ r, loop body fuel s = some r ∧ Q r
  | 0, _, _, hlt => absurd hlt (Nat.not_lt_zero _)
  | fuel + 1, s, hs, hlt => by
    rcases hbody s hs with ⟨s', hs', hP, hμ⟩ | ⟨r, hr, hQ⟩
    · rw [loop_of_inl hs']
      exact loop_of_variant μ hbody fuel s' hP (by omega)
    · exact ⟨r, loop_of_inr hr fuel, hQ⟩

/-- The divergence rule: a set of states from which every round fails or stays in the set gives
`none` at every fuel. -/
theorem loop_eq_none_of_stuck {P : σ → Prop}
    (hbody : ∀ s, P s → body s = none ∨ ∃ s', body s = some (.inl s') ∧ P s') :
    ∀ (fuel : Nat) (s : σ), P s → loop body fuel s = none
  | 0, _, _ => rfl
  | fuel + 1, s, hs => by
    rcases hbody s hs with h | ⟨s', hs', hP⟩
    · exact loop_of_none h _
    · rw [loop_of_inl hs']
      exact loop_eq_none_of_stuck hbody fuel s' hP

end

end Loop
