import Mathlib.Data.List.Basic

/-!
# Histories

A history is a list of events, newest first.  A safety property of a history says of every event
what held before it; such a property is kept by every extension whose new events meet it.

## Main definitions

* `Always P tr` — every event of `tr` meets `P` with the events before it.

## Main results

* `always_iff` — `Always` in terms of where an event stands in the history.
* `Always.append` — the extension rule.
-/

namespace History

variable {ε : Type*} {P Q : ε → List ε → Prop} {tr es : List ε}

/-- Every event of the history meets `P` with the events before it. -/
def Always (P : ε → List ε → Prop) : List ε → Prop
  | [] => True
  | e :: tr => P e tr ∧ Always P tr

@[simp] theorem always_nil : Always P [] := trivial

@[simp] theorem always_cons {e : ε} : Always P (e :: tr) ↔ P e tr ∧ Always P tr := Iff.rfl

/-- `Always` in terms of where an event stands in the history. -/
theorem always_iff : Always P tr ↔ ∀ es e tr', tr = es ++ e :: tr' → P e tr' := by
  induction tr with
  | nil => simp
  | cons a tr ih =>
    rw [always_cons, ih]
    constructor
    · rintro ⟨ha, h⟩ es e tr' heq
      cases es with
      | nil =>
        obtain ⟨rfl, rfl⟩ := List.cons_eq_cons.1 heq
        exact ha
      | cons b es => exact h es e tr' (List.cons_eq_cons.1 heq).2
    · intro h
      refine ⟨h [] a tr rfl, fun es e tr' heq => h (a :: es) e tr' ?_⟩
      rw [heq, List.cons_append]

/-- **Extension.**  New events that meet the property whatever came before extend a history. -/
theorem Always.append (h : Always P tr) (hes : ∀ e ∈ es, ∀ tr, P e tr) : Always P (es ++ tr) := by
  induction es with
  | nil => exact h
  | cons e es ih =>
    refine ⟨hes e List.mem_cons_self _, ih fun e he => hes e (List.mem_cons_of_mem _ he)⟩

theorem Always.mono (h : Always P tr) (hPQ : ∀ e tr, P e tr → Q e tr) : Always Q tr := by
  induction tr with
  | nil => trivial
  | cons e tr ih => exact ⟨hPQ e tr h.1, ih h.2⟩

end History
