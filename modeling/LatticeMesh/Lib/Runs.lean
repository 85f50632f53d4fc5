import Mathlib.Logic.Basic

/-!
# Runs of a machine over a list of inputs

A deterministic machine with a step function, run over a list of inputs.  Conditions on a run are
conditions on its steps, each read in the state in which the step is taken.

## Main definitions

* `run` — the state after a list of inputs.
* `Along C` — every step of the run meets the condition `C`.

## Main results

* `run_invariant` — **what every admissible step keeps holds at the end of every admissible run.**
* `along_of_invariant` — what every admissible step ensures is ensured along every admissible run.
* `along_of_timed` — the same for inputs that come in the order of their times.
* `along_append` — an admissible run may be cut anywhere.
-/

namespace Runs

variable {σ ι : Type*} {step : σ → ι → σ} {C D : σ → ι → Prop} {I : σ → Prop} {s : σ}

/-- The state after the inputs `is`. -/
def run (step : σ → ι → σ) (s : σ) (is : List ι) : σ := is.foldl step s

/-- Every step of the run over `is` meets `C` in the state in which it is taken. -/
def Along (step : σ → ι → σ) (C : σ → ι → Prop) : σ → List ι → Prop
  | _, [] => True
  | s, i :: is => C s i ∧ Along step C (step s i) is

@[simp] theorem run_nil : run step s [] = s := rfl

@[simp] theorem run_cons (i : ι) (is : List ι) :
    run step s (i :: is) = run step (step s i) is := rfl

theorem run_append (is js : List ι) : run step s (is ++ js) = run step (run step s is) js :=
  List.foldl_append

@[simp] theorem along_nil : Along step C s [] := trivial

@[simp] theorem along_cons {i : ι} {is : List ι} :
    Along step C s (i :: is) ↔ C s i ∧ Along step C (step s i) is := Iff.rfl

theorem along_append {is js : List ι} :
    Along step C s (is ++ js) ↔ Along step C s is ∧ Along step C (run step s is) js := by
  induction is generalizing s with
  | nil => simp
  | cons i is ih => simp [ih, and_assoc]

instance decidableAlong [∀ s i, Decidable (C s i)] : ∀ (s : σ) (is : List ι),
    Decidable (Along step C s is)
  | _, [] => isTrue trivial
  | s, i :: is =>
    have : Decidable (Along step C (step s i) is) := decidableAlong _ _
    inferInstanceAs (Decidable (_ ∧ _))

theorem along_of_forall (h : ∀ s i, C s i) : ∀ (s : σ) (is : List ι), Along step C s is
  | _, [] => trivial
  | s, i :: is => ⟨h s i, along_of_forall h _ is⟩

theorem Along.mono (h : ∀ s i, C s i → D s i) : ∀ {s : σ} {is : List ι},
    Along step C s is → Along step D s is
  | _, [], _ => trivial
  | _, _ :: _, ⟨hi, his⟩ => ⟨h _ _ hi, his.mono h⟩

theorem Along.and : ∀ {s : σ} {is : List ι}, Along step C s is → Along step D s is →
    Along step (fun s i => C s i ∧ D s i) s is
  | _, [], _, _ => trivial
  | _, _ :: _, ⟨hi, his⟩, ⟨hj, hjs⟩ => ⟨⟨hi, hj⟩, his.and hjs⟩

/-- Two conditions that agree wherever an invariant holds are met along the same runs. -/
theorem along_congr {is : List ι} (h0 : I s) (hstep : ∀ s, ∀ i ∈ is, I s → C s i → I (step s i))
    (h : ∀ s, ∀ i ∈ is, I s → (C s i ↔ D s i)) : Along step C s is ↔ Along step D s is := by
  induction is generalizing s with
  | nil => exact Iff.rfl
  | cons i is ih =>
    have hi := h s i List.mem_cons_self h0
    have hrest : C s i → (Along step C (step s i) is ↔ Along step D (step s i) is) := fun hc =>
      ih (hstep s i List.mem_cons_self h0 hc) (fun t j hj => hstep t j (List.mem_cons_of_mem i hj))
        fun t j hj => h t j (List.mem_cons_of_mem i hj)
    rw [along_cons, along_cons, ← hi]
    exact and_congr_right hrest

/-- What every admissible step ensures where an invariant holds is ensured along every admissible
run. -/
theorem along_of_invariant (h0 : I s) (hstep : ∀ s i, I s → C s i → I (step s i) ∧ D s i) :
    ∀ {is : List ι}, Along step C s is → Along step D s is := by
  intro is
  induction is generalizing s with
  | nil => exact fun _ => trivial
  | cons i is ih =>
    intro ⟨hi, his⟩
    obtain ⟨hI, hD⟩ := hstep s i h0 hi
    exact ⟨hD, ih hI his⟩

/-- What a step ensures where an invariant of the state and the clock holds is ensured along every
run whose inputs come in the order of their times. -/
theorem along_of_timed {τ : Type*} [LE τ] (time : ι → τ) {J : τ → σ → Prop}
    (hstep : ∀ c s i, c ≤ time i → J c s → J (time i) (step s i) ∧ D s i) :
    ∀ {is : List ι} {c : τ} {s : σ}, J c s → (c :: is.map time).Pairwise (· ≤ ·) →
      Along step D s is := by
  intro is
  induction is with
  | nil => exact fun _ _ => trivial
  | cons i is ih =>
    intro c s h0 hsorted
    obtain ⟨hc, hrest⟩ := List.pairwise_cons.1 hsorted
    obtain ⟨hJ, hD⟩ := hstep c s i (hc _ List.mem_cons_self) h0
    exact ⟨hD, ih hJ hrest⟩

/-- **What every admissible step keeps holds at the end of every admissible run.** -/
theorem run_invariant (h0 : I s) (hstep : ∀ s i, I s → C s i → I (step s i)) :
    ∀ {is : List ι}, Along step C s is → I (run step s is) := by
  intro is
  induction is generalizing s with
  | nil => exact fun _ => h0
  | cons i is ih => exact fun ⟨hi, his⟩ => ih (hstep s i h0 hi) his

end Runs
