import Mathlib

/-!
# Fallible machines and their runs

A component whose operations may abort is a step function `step : σ → ε → Option σ`: an event
either moves the state or aborts (`none`). A *run* feeds a list of events to the machine; it aborts
as soon as one step does. `Reachable step init` is the set of states some run from `init` ends in.

Three rules carry every whole-run statement of the development: the invariant rule
(`Reachable.induction_on_inv`: a predicate that holds initially and that every successful step
keeps holds in every reachable state), the no-abort rule (`run_isSome_of_inv`: if moreover
every step from a state of the invariant succeeds, no run from the initial state aborts), and the
simulation rule (`run_simulate`: a machine whose steps match those of another machine on related
states runs wherever the other does).
-/

namespace Machine

variable {σ ε : Type*}

/-- Feed the events `es` to `step` from `s`, stopping at the first abort. -/
def run (step : σ → ε → Option σ) : σ → List ε → Option σ
  | s, [] => some s
  | s, e :: es => (step s e).bind fun t => run step t es

@[simp] theorem run_nil (step : σ → ε → Option σ) (s : σ) : run step s [] = some s := rfl

@[simp] theorem run_cons (step : σ → ε → Option σ) (s : σ) (e : ε) (es : List ε) :
    run step s (e :: es) = (step s e).bind fun t => run step t es := rfl

/-- A run over a concatenation is the run over the second part from where the first part ends. -/
theorem run_append (step : σ → ε → Option σ) (s : σ) (es fs : List ε) :
    run step s (es ++ fs) = (run step s es).bind fun t => run step t fs := by
  induction es generalizing s with
  | nil => rfl
  | cons e es ih =>
    simp only [List.cons_append, run_cons, ih, Option.bind_assoc]

/-- The states some run from `init` ends in. -/
inductive Reachable (step : σ → ε → Option σ) (init : σ) : σ → Prop
  | init : Reachable step init init
  | step {s t : σ} (e : ε) : Reachable step init s → step s e = some t → Reachable step init t

section
variable {step : σ → ε → Option σ} {init : σ}

/-- A run that ends in `t` from a reachable state ends in a reachable state. -/
theorem Reachable.of_run {s t : σ} {es : List ε} (hs : Reachable step init s)
    (h : run step s es = some t) : Reachable step init t := by
  induction es generalizing s with
  | nil => cases h; exact hs
  | cons e es ih =>
    simp only [run_cons, Option.bind_eq_some_iff] at h
    obtain ⟨u, hu, hrun⟩ := h
    exact ih (hs.step e hu) hrun

/-- The invariant rule: a predicate that holds initially and is kept by every successful step
holds in every reachable state. -/
theorem Reachable.induction_on_inv {P : σ → Prop} {t : σ} (h : Reachable step init t)
    (h0 : P init) (hstep : ∀ s e s', P s → step s e = some s' → P s') : P t := by
  induction h with
  | init => exact h0
  | step e _ hst ih => exact hstep _ e _ ih hst

/-- The invariant rule for a run whose events all satisfy `R`: a predicate that every successful
step on such an event keeps holds at the end of the run. -/
theorem run_inv {P : σ → Prop} {R : ε → Prop}
    (hstep : ∀ s e s', R e → P s → step s e = some s' → P s') :
    ∀ {es : List ε} {s t : σ}, (∀ e ∈ es, R e) → P s → run step s es = some t → P t
  | [], s, t, _, hs, h => by cases h; exact hs
  | e :: es, s, t, hR, hs, h => by
    simp only [run_cons, Option.bind_eq_some_iff] at h
    obtain ⟨u, hu, hrun⟩ := h
    have hRes : ∀ e' ∈ es, R e' := fun e' he' => hR e' (List.mem_cons_of_mem e he')
    exact run_inv hstep hRes (hstep s e u (hR e List.mem_cons_self) hs hu) hrun

/-- The invariant rule for a run whose invariant depends on the events still to come, such as a
budget that each event spends. -/
theorem run_inv_suffix {Q : List ε → σ → Prop}
    (hstep : ∀ e es s s', Q (e :: es) s → step s e = some s' → Q es s') :
    ∀ {es : List ε} {s t : σ}, Q es s → run step s es = some t → Q [] t
  | [], s, t, hs, h => by cases h; exact hs
  | e :: es, s, t, hs, h => by
    simp only [run_cons, Option.bind_eq_some_iff] at h
    obtain ⟨u, hu, hrun⟩ := h
    exact run_inv_suffix hstep (hstep e es s u hs hu) hrun

/-- The no-abort rule: when every step from a state of the invariant `P` succeeds and lands in
`P` again, no run from a state of `P` aborts. -/
theorem run_isSome_of_inv {P : σ → Prop}
    (hstep : ∀ s e, P s → ∃ s', step s e = some s' ∧ P s') :
    ∀ (es : List ε) (s : σ), P s → ∃ t, run step s es = some t ∧ P t
  | [], s, hs => ⟨s, rfl, hs⟩
  | e :: es, s, hs => by
    obtain ⟨s', hs', hP⟩ := hstep s e hs
    obtain ⟨t, ht, hPt⟩ := run_isSome_of_inv hstep es s' hP
    exact ⟨t, by simp [hs', ht], hPt⟩

/-- The simulation rule: when every successful abstract step, on an event of `R` and from a state
related by `S` to a concrete one, is matched by a successful concrete step to a related state,
every successful abstract run on such events is matched by a concrete run. -/
theorem run_simulate {τ : Type*} {astep : τ → ε → Option τ} {S : σ → τ → Prop} {R : ε → Prop}
    (hstep : ∀ s a e a', R e → S s a → astep a e = some a' → ∃ s', step s e = some s' ∧ S s' a') :
    ∀ {es : List ε} {s : σ} {a a' : τ}, (∀ e ∈ es, R e) → S s a → run astep a es = some a' →
      ∃ s', run step s es = some s' ∧ S s' a'
  | [], s, a, a', _, hs, h => by cases h; exact ⟨s, rfl, hs⟩
  | e :: es, s, a, a', hR, hs, h => by
    simp only [run_cons, Option.bind_eq_some_iff] at h
    obtain ⟨b, hb, hrun⟩ := h
    obtain ⟨t, ht, hst⟩ := hstep s a e b (hR e List.mem_cons_self) hs hb
    obtain ⟨u, hu, hsu⟩ := run_simulate hstep (fun e' he' => hR e' (List.mem_cons_of_mem e he'))
      hst hrun
    exact ⟨u, by simp [ht, hu], hsu⟩

end

end Machine
