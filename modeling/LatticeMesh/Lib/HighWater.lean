import Mathlib.Order.Lattice
import Mathlib.Data.List.Basic

/-!
# High-water marks

A gate that lets a value pass only if it is above every value that passed before needs to remember
the last of them: its mark, which is `none` as long as nothing has passed.

## Main definitions

* `Passes` — a value is above the mark.
* `next` — the mark after a value came by.
* `MarkOf` — the mark is the greatest of the values that passed.

## Main results

* `MarkOf.passes_iff` — **what is above the mark is above everything that passed.**
* `MarkOf.next`, `MarkOf.seen` — the gate keeps its mark, whether the values that it stops are
  counted or not.
-/

namespace HighWater

variable {β : Type*} [LinearOrder β] {m : Option β} {x : β} {ps : List β}

/-- The value `x` is above the mark `m`. -/
def Passes (m : Option β) (x : β) : Prop := ∀ y, m = some y → y < x

@[simp] theorem passes_none : Passes none x := fun _ h => by cases h

@[simp] theorem passes_some {y : β} : Passes (some y) x ↔ y < x := by
  constructor
  · exact fun h => h y rfl
  · rintro h _ ⟨⟩
    exact h

instance : (m : Option β) → (x : β) → Decidable (Passes m x)
  | none, _ => isTrue passes_none
  | some y, x => decidable_of_iff (y < x) passes_some.symm

/-- The mark after `x` came by. -/
def next (m : Option β) (x : β) : Option β := if Passes m x then some x else m

/-- The mark `m` is the greatest of the values `ps` that passed. -/
structure MarkOf (ps : List β) (m : Option β) : Prop where
  mem : ∀ z, m = some z → z ∈ ps
  le : ∀ y ∈ ps, ∃ z, m = some z ∧ y ≤ z

theorem markOf_nil : MarkOf ([] : List β) none := by
  refine ⟨?_, by simp⟩
  rintro _ ⟨⟩

/-- **What is above the mark is above everything that passed.** -/
theorem MarkOf.passes_iff (h : MarkOf ps m) : Passes m x ↔ ∀ y ∈ ps, y < x := by
  constructor
  · intro hx y hy
    obtain ⟨z, hz, hle⟩ := h.le y hy
    exact lt_of_le_of_lt hle (hx z hz)
  · intro hx z hz
    exact hx z (h.mem z hz)

/-- The gate keeps its mark. -/
theorem MarkOf.next (h : MarkOf ps m) (x : β) :
    MarkOf (if Passes m x then ps ++ [x] else ps) (HighWater.next m x) := by
  unfold HighWater.next
  by_cases hx : Passes m x
  · rw [if_pos hx, if_pos hx]
    refine ⟨?_, fun y hy => ⟨x, rfl, ?_⟩⟩
    · rintro _ ⟨⟩
      exact List.mem_append_right ps List.mem_cons_self
    · rcases List.mem_append.1 hy with hy | hy
      · exact le_of_lt (h.passes_iff.1 hx y hy)
      · exact le_of_eq (List.mem_singleton.1 hy)
  · rw [if_neg hx, if_neg hx]
    exact h

/-- The mark is also that of everything that came by. -/
theorem MarkOf.seen (h : MarkOf ps m) (x : β) : MarkOf (x :: ps) (HighWater.next m x) := by
  unfold HighWater.next
  by_cases hx : Passes m x
  · rw [if_pos hx]
    refine ⟨?_, fun y hy => ⟨x, rfl, ?_⟩⟩
    · rintro _ ⟨⟩
      exact List.mem_cons_self
    · rcases List.mem_cons.1 hy with rfl | hy
      · exact le_refl _
      · exact le_of_lt (h.passes_iff.1 hx y hy)
  · rw [if_neg hx]
    refine ⟨fun z hz => List.mem_cons_of_mem x (h.mem z hz), fun y hy => ?_⟩
    rcases List.mem_cons.1 hy with rfl | hy
    · by_contra hno
      refine hx fun z hz => ?_
      exact lt_of_not_ge fun hle => hno ⟨z, hz, hle⟩
    · exact h.le y hy

theorem markOf_singleton (x : β) : MarkOf [x] (some x) := by
  refine ⟨?_, fun y hy => ⟨x, rfl, le_of_eq (List.mem_singleton.1 hy)⟩⟩
  rintro _ ⟨⟩
  exact List.mem_cons_self

end HighWater
