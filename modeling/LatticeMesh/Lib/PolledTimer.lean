import Mathlib.Data.List.Basic
import Mathlib.Data.Nat.Find
import Mathlib.Order.Monotone.Basic
import Mathlib.Tactic.Ring

/-!
# Intervals that are polled

A program that may not wait works off a list of intervals by polling a clock: an interval ends at
the first poll at which it is over, and the next one counts from that poll.  So no interval is too
short, and one that is too long is so by no more than the distance of two polls.

## Main definitions

* `PolledTimer.ends` — the polls at which the intervals end.
* `PolledTimer.Polled` — polls that are never further apart than `g`.
* `PolledTimer.Running` — a clock whose readings are such polls.
* `PolledTimer.InTime` — ends that are never early, and never late by more than `g`.

## Main results

* `PolledTimer.inTime_ends` — **no interval is too short, or too long by more than `g`.**
* `PolledTimer.length_ends` — **once a poll is late enough, all intervals are over.**
-/

namespace PolledTimer

variable {g t q p : ℕ} {ds ps : List ℕ}

/-- The polls at which the intervals end, one after the other, the first of them counted from
`t`. -/
def ends : List ℕ → ℕ → List ℕ → List ℕ
  | _, _, [] => []
  | [], _, _ :: _ => []
  | d :: ds, t, p :: ps => if p < t + d then ends (d :: ds) t ps else p :: ends ds p ps

@[simp] theorem ends_nil_right (ds : List ℕ) (t : ℕ) : ends ds t [] = [] := by cases ds <;> rfl

@[simp] theorem ends_nil_left (t : ℕ) (ps : List ℕ) : ends [] t ps = [] := by cases ps <;> rfl

theorem ends_early {d : ℕ} (h : p < t + d) : ends (d :: ds) t (p :: ps) = ends (d :: ds) t ps :=
  if_pos h

theorem ends_due {d : ℕ} (h : t + d ≤ p) : ends (d :: ds) t (p :: ps) = p :: ends ds p ps :=
  if_neg (Nat.not_lt.2 h)

/-- No more intervals end than there are. -/
theorem length_ends_le : ∀ (ps ds : List ℕ) (t : ℕ), (ends ds t ps).length ≤ ds.length
  | [], ds, t => by rw [ends_nil_right]; exact Nat.zero_le _
  | _ :: _, [], _ => Nat.le_refl _
  | p :: ps, d :: ds, t => by
    by_cases h : p < t + d
    · rw [ends_early h]
      exact length_ends_le ps (d :: ds) t
    · rw [ends_due (Nat.not_lt.1 h)]
      exact Nat.succ_le_succ (length_ends_le ps ds p)

/-- No fewer intervals end when more are to come. -/
theorem length_ends_append (ds' : List ℕ) : ∀ (ps ds : List ℕ) (t : ℕ),
    (ends ds t ps).length ≤ (ends (ds ++ ds') t ps).length
  | [], ds, t => by rw [ends_nil_right]; exact Nat.zero_le _
  | _ :: _, [], _ => Nat.zero_le _
  | p :: ps, d :: ds, t => by
    rw [List.cons_append]
    by_cases h : p < t + d
    · rw [ends_early h, ends_early h, ← List.cons_append]
      exact length_ends_append ds' ps (d :: ds) t
    · rw [ends_due (Nat.not_lt.1 h), ends_due (Nat.not_lt.1 h)]
      exact Nat.succ_le_succ (length_ends_append ds' ps ds p)

/-- The polls are in order, the first not before `q`, and never further apart than `g`. -/
def Polled (g : ℕ) : ℕ → List ℕ → Prop
  | _, [] => True
  | q, p :: ps => q ≤ p ∧ p ≤ q + g ∧ Polled g p ps

/-- The ends are never early, and never late by more than `g`. -/
def InTime (g : ℕ) : ℕ → List ℕ → List ℕ → Prop
  | _, _, [] => True
  | _, [], _ :: _ => False
  | t, d :: ds, e :: es => t + d ≤ e ∧ e ≤ t + d + g ∧ InTime g e ds es

/-- The readings of a clock: in order, never further apart than `g`, and not bounded. -/
structure Running (g : ℕ) (clock : ℕ → ℕ) : Prop where
  mono : ∀ k, clock k ≤ clock (k + 1)
  gap : ∀ k, clock (k + 1) ≤ clock k + g
  runs : ∀ t, ∃ k, t < clock k

theorem Running.monotone {clock : ℕ → ℕ} (h : Running g clock) : Monotone clock :=
  monotone_nat_of_le_succ h.mono

theorem Running.polled {clock : ℕ → ℕ} (h : Running g clock) (n : ℕ) :
    ∀ k, Polled g (clock k) ((List.range' (k + 1) n).map clock) := by
  induction n with
  | zero => exact fun _ => trivial
  | succ n ih => exact fun k => ⟨h.mono k, h.gap k, ih (k + 1)⟩

/-- The first readings of a clock that is read soon enough. -/
theorem Running.polled_from {clock : ℕ → ℕ} (h : Running g clock) (ht : t ≤ clock 0)
    (ht' : clock 0 ≤ t + g) (n : ℕ) : Polled g t ((List.range' 0 (n + 1)).map clock) :=
  ⟨ht, ht', h.polled n 0⟩

/-- The first reading after a time is not long after it. -/
theorem Running.exists_next {clock : ℕ → ℕ} (h : Running g clock) (h₀ : clock 0 ≤ t + g) :
    ∃ k, t < clock k ∧ clock k ≤ t + g := by
  have hruns := h.runs t
  have hlate := Nat.find_spec hruns
  cases hk : Nat.find hruns with
  | zero => exact ⟨0, hk ▸ hlate, h₀⟩
  | succ k =>
    have hle : clock k ≤ t := Nat.not_lt.1 (Nat.find_min hruns (hk ▸ k.lt_succ_self))
    have hgap := h.gap k
    exact ⟨k + 1, hk ▸ hlate, by omega⟩

/-- **No interval is too short, or too long by more than `g`.**  The last poll `q` was not behind
the end of the interval that runs. -/
theorem inTime_ends : ∀ (ps ds : List ℕ) (t q : ℕ), q ≤ t + ds.headD 0 → Polled g q ps →
    InTime g t ds (ends ds t ps)
  | [], ds, t, _, _, _ => by
    rw [ends_nil_right]
    cases ds <;> exact trivial
  | _ :: _, [], _, _, _, _ => trivial
  | p :: ps, d :: ds, t, q, hq, hps => by
    obtain ⟨-, hgap, hrest⟩ := hps
    by_cases h : p < t + d
    · rw [ends_early h]
      exact inTime_ends ps (d :: ds) t p (Nat.le_of_lt h) hrest
    · rw [ends_due (Nat.not_lt.1 h)]
      have hq' : q ≤ t + d := hq
      exact ⟨Nat.not_lt.1 h, by omega, inTime_ends ps ds p p (Nat.le_add_right _ _) hrest⟩

/-- **Once a poll is late enough, all intervals are over.** -/
theorem length_ends : ∀ (ps ds : List ℕ) (t q : ℕ), q ≤ t + ds.headD 0 → Polled g q ps →
    ∀ p ∈ ps, t + ds.sum + g * ds.length < p → (ends ds t ps).length = ds.length
  | [], _, _, _, _, _, _, hp, _ => by cases hp
  | _ :: _, [], _, _, _, _, _, _, _ => rfl
  | p₀ :: ps, d :: ds, t, q, hq, hps, p, hp, hlate => by
    obtain ⟨-, hgap, hrest⟩ := hps
    have hq' : q ≤ t + d := hq
    have hlate' : t + (d + ds.sum) + g * (ds.length + 1) < p := by
      rwa [List.sum_cons, List.length_cons] at hlate
    rw [Nat.mul_add, Nat.mul_one] at hlate'
    -- The late poll is not the first one, since that is at most `g` behind `t + d`.
    have hne : p ≠ p₀ := fun he => by omega
    have hp' : p ∈ ps := (List.mem_cons.1 hp).resolve_left hne
    by_cases h : p₀ < t + d
    · rw [ends_early h]
      exact length_ends ps (d :: ds) t p₀ (Nat.le_of_lt h) hrest p hp' hlate
    · rw [ends_due (Nat.not_lt.1 h), List.length_cons, List.length_cons]
      congr 1
      exact length_ends ps ds p₀ p₀ (Nat.le_add_right _ _) hrest p hp' (by omega)

end PolledTimer
