import LatticeMesh.Lib.EffectSpec

/-!
# Programs with checked accesses

An access to a buffer or an increment of a machine counter is checked if it gives a value only where
it stays inside the buffer and does not wrap.  A checked program is a program whose accesses are
checked: it stops for good at the first one that fails.  It agrees with the unchecked program from
every state from which no check fails.

## Main definitions

* `Fault` — what a check reports.
* `CheckM` — programs with state and exceptions whose checks may fail.
* `Passes s x y` — from `s` the checked program `x` does what `y` does, and no check fails.

## Main results

* `Passes.bind`, `Passes.ite`, `Passes.forM` — checks succeed along sequencing, branching and loops.
* `Passes.check_bind` — an access that succeeds.
* `Passes.no_fault` — **a program that passes never stops at a check.**
-/

namespace Checked

variable {ε σ α β : Type} {s t : σ}

/-- What a check reports. -/
inductive Fault
  /-- An access outside of its buffer. -/
  | range
  /-- A counter that wraps. -/
  | wrap
  deriving DecidableEq

/-- Programs with state and exceptions whose checks may fail. -/
abbrev CheckM (ε σ α : Type) := ExceptT Fault (EStateM ε σ) α

/-- From `s`, the checked program `x` does what `y` does, and no check fails. -/
def Passes (s : σ) (x : CheckM ε σ α) (y : EStateM ε σ α) : Prop :=
  x.run s = (Except.ok <$> y) s

/-- A program whose value is tagged ends as the program does. -/
theorem map_apply (y : EStateM ε σ α) (f : α → β) (s : σ) :
    (f <$> y) s = match y s with
      | .ok a t => .ok (f a) t
      | .error e t => .error e t := rfl

namespace Passes

variable {x : CheckM ε σ α} {y : EStateM ε σ α} {f : α → CheckM ε σ β} {g : α → EStateM ε σ β}

/-- A program without accesses passes. -/
theorem lift (y : EStateM ε σ α) (s : σ) : Passes s (liftM y : CheckM ε σ α) y := rfl

theorem ret (a : α) (s : σ) : Passes s (pure a : CheckM ε σ α) (pure a) := rfl

/-- Sequencing: the second program passes from wherever the first one ends. -/
theorem bind (hx : Passes s x y) (hf : ∀ a t, y s = .ok a t → Passes t (f a) (g a)) :
    Passes s (x >>= f) (y >>= g) := by
  unfold Passes at hx ⊢
  rw [map_apply] at hx ⊢
  show EStateM.bind x.run (ExceptT.bindCont f) s = match EStateM.bind y g s with
    | .ok a t => .ok (.ok a) t
    | .error e t => .error e t
  unfold EStateM.bind
  rw [hx]
  cases hy : y s with
  | error e t => rfl
  | ok a t => exact hf a t hy

/-- An access that succeeds. -/
theorem check_bind {o : Except Fault α} {a : α} {z : EStateM ε σ β} (ho : o = .ok a)
    (hf : Passes s (f a) z) : Passes s ((liftM o : CheckM ε σ α) >>= f) z := by
  subst ho
  exact hf

/-- Reading the state. -/
theorem read_bind {f : σ → CheckM ε σ β} {g : σ → EStateM ε σ β} (h : Passes s (f s) (g s)) :
    Passes s (get >>= f) (get >>= g) := h

/-- Reading the state where the other program need not. -/
theorem get_bind {f : σ → CheckM ε σ α} (h : Passes s (f s) y) : Passes s (get >>= f) y := h

/-- Writing the state that an update computes. -/
theorem write {h : σ → σ} (ht : t = h s) : Passes s (set t : CheckM ε σ PUnit) (modify h) := by
  subst ht
  rfl

/-- A conditional. -/
theorem ite {c : Prop} [Decidable c] {x' : CheckM ε σ α} {y' : EStateM ε σ α}
    (hx : c → Passes s x y) (hy : ¬c → Passes s x' y') :
    Passes s (if c then x else x') (if c then y else y') := by
  split
  · exact hx ‹_›
  · exact hy ‹_›

/-- A loop over a list. -/
theorem forM {l : List α} {f : α → CheckM ε σ PUnit} {g : α → EStateM ε σ PUnit}
    (h : ∀ a t, Passes t (f a) (g a)) (s : σ) : Passes s (l.forM f) (l.forM g) := by
  induction l generalizing s with
  | nil => exact ret _ s
  | cons a l ih => exact bind (h a s) fun _ t _ => ih t

/-- **A program that passes never stops at a check.** -/
theorem no_fault (h : Passes s x y) (e : Fault) (t : σ) : x.run s ≠ .ok (.error e) t := by
  unfold Passes at h
  rw [h, map_apply]
  cases y s <;> simp

end Passes

end Checked
