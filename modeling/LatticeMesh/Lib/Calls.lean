import LatticeMesh.Lib.EffectSpec
import LatticeMesh.Lib.Runs

/-!
# Sequences of calls

A component offers a set of calls, each of them a program over its state.  A sequence of calls is a
run of the machine whose state is lost as soon as a call does not return.

## Main definitions

* `Calls.step` — the state after one more call.
* `Calls.final` — the state in which a call ends, even if it does not return.
* `Calls.Admits` — every call of a sequence meets a condition in the state in which it is made.

## Main results

* `Calls.invariant` — **what every admitted call keeps holds after every admitted sequence.**
-/

namespace Calls

open EffectSpec

variable {ε σ α : Type} {ι : Type*} {run : ι → EStateM ε σ α} {s t : σ}

/-- The state in which a program returns, if it does. -/
def returned : EStateM.Result ε σ α → Option σ
  | .ok _ t => some t
  | .error _ _ => none

theorem wp_returned {x : EStateM ε σ α} {Q : α → σ → Prop} {E : ε → σ → Prop} (h : wp x Q E s)
    (ht : returned (x s) = some t) : ∃ a, Q a t := by
  cases hr : x s with
  | ok a u =>
    rw [hr] at ht
    obtain rfl := Option.some.inj ht
    exact ⟨a, wp_ok hr h⟩
  | error _ _ =>
    rw [hr] at ht
    cases ht

/-- The state in which a program ends, whether it returns or not. -/
def final : EStateM.Result ε σ α → σ
  | .ok _ t => t
  | .error _ t => t

theorem wp_final {x : EStateM ε σ α} {P : σ → Prop} (h : wp x (fun _ t => P t) (fun _ t => P t) s) :
    P (final (x s)) := by
  unfold wp at h
  cases hr : x s <;> rw [hr] at h <;> exact h

/-- The state after a call, unless the call does not return or one before it did not. -/
def step (run : ι → EStateM ε σ α) (o : Option σ) (x : ι) : Option σ :=
  o.bind fun s => returned (run x s)

/-- Every call of the sequence meets `C` in the state in which it is made. -/
def Admits (run : ι → EStateM ε σ α) (C : σ → ι → Prop) (s : σ) (xs : List ι) : Prop :=
  Runs.Along (step run) (fun o x => ∀ s, o = some s → C s x) (some s) xs

/-- A condition on the state after some calls, on a state that can be computed. -/
theorem forall_of_all {o : Option σ} {P : σ → Prop} [DecidablePred P]
    (h : o.all (fun t => decide (P t)) = true) : ∀ t, o = some t → P t := by
  rintro t rfl
  simpa using h

@[simp] theorem run_none (xs : List ι) : Runs.run (step run) none xs = none := by
  induction xs with
  | nil => rfl
  | cons x xs ih => exact ih

/-- **What every admitted call keeps holds after every admitted sequence of calls.** -/
theorem invariant {I : σ → Prop} {C : σ → ι → Prop}
    (hstep : ∀ s x, I s → C s x → wp (run x) (fun _ t => I t) (fun _ _ => True) s)
    {xs : List ι} (h0 : I s) (hc : Admits run C s xs)
    (ht : Runs.run (step run) (some s) xs = some t) : I t := by
  have hrun : ∀ u, Runs.run (step run) (some s) xs = some u → I u := by
    refine Runs.run_invariant (I := fun o => ∀ u, o = some u → I u) ?_ ?_ hc
    · rintro _ ⟨⟩
      exact h0
    · intro o x ho hx u hu
      obtain ⟨s', hs', hu⟩ := Option.bind_eq_some_iff.1 hu
      obtain ⟨-, hu⟩ := wp_returned (hstep s' x (ho s' hs') (hx s' hs')) hu
      exact hu
  exact hrun t ht

end Calls
