import Mathlib.Data.Vector.Basic
import Mathlib.Data.List.FinRange

/-!
# Tables of fixed size, searched by key

Fixed arrays of entries that are searched by a key and in which the entry with the smallest time
stamp is the one to be replaced.

## Main definitions

* `KeyTable.find` — the first slot whose entry has a given key.
* `KeyTable.firstSlot` — the first slot whose entry meets a test.
* `KeyTable.oldest` — the first slot with the smallest time stamp.

## Main results

* `KeyTable.find_key` — a slot that was found holds the key.
* `KeyTable.find_le`, `KeyTable.find_eq_some` — the slot that is found is the first one.
* `KeyTable.oldest_le` — the oldest slot is the oldest one.
* `KeyTable.find_eq_none` — no slot is found exactly when no entry has the key.
-/

namespace KeyTable

variable {κ ε τ : Type*} {n : ℕ}

/-- The first slot whose entry meets `p`. -/
def firstSlot (t : List.Vector ε n) (p : ε → Bool) : Option (Fin n) :=
  (List.finRange n).find? fun i => p (t.get i)

/-- The first slot whose entry has the key `k`. -/
def find [DecidableEq κ] (t : List.Vector ε n) (key : ε → κ) (k : κ) : Option (Fin n) :=
  firstSlot t fun e => key e = k

/-- The first slot whose time stamp is smallest. -/
def oldest [LT τ] [DecidableLT τ] (t : List.Vector ε (n + 1)) (ts : ε → τ) : Fin (n + 1) :=
  (List.finRange (n + 1)).foldl
    (fun best i => if ts (t.get i) < ts (t.get best) then i else best) 0

theorem firstSlot_some {t : List.Vector ε n} {p : ε → Bool} {i : Fin n}
    (h : firstSlot t p = some i) : p (t.get i) = true := by
  simpa using List.find?_some h

theorem firstSlot_eq_none {t : List.Vector ε n} {p : ε → Bool} :
    firstSlot t p = none ↔ ∀ i, p (t.get i) = false := by
  simp [firstSlot]

variable [DecidableEq κ] {t : List.Vector ε n} {key : ε → κ} {k : κ}

/-- A slot that was found holds the key. -/
theorem find_key {i : Fin n} (h : find t key k = some i) : key (t.get i) = k := by
  simpa using firstSlot_some h

/-- The slot that is found is the first one. -/
theorem firstSlot_le {p : ε → Bool} {i j : Fin n} (h : firstSlot t p = some i)
    (hj : p (t.get j) = true) : i ≤ j := by
  by_contra hlt
  obtain ⟨-, l, l', hl, hno⟩ := List.find?_eq_some_iff_append.1 h
  have hsorted : (l ++ i :: l').Pairwise (· < ·) := by
    rw [← hl]
    exact List.pairwise_lt_finRange n
  have hmem : j ∈ l ++ i :: l' := by
    rw [← hl]
    exact List.mem_finRange j
  rcases List.mem_append.1 hmem with hm | hm
  · have := hno j hm
    simp [hj] at this
  · rcases List.mem_cons.1 hm with rfl | hm
    · exact hlt (le_refl _)
    · exact hlt (le_of_lt ((List.pairwise_cons.1 (List.pairwise_append.1 hsorted).2.1).1 j hm))

theorem find_le {i j : Fin n} (h : find t key k = some i) (hj : key (t.get j) = k) : i ≤ j :=
  firstSlot_le h (by simpa using hj)

/-- The slot that is found is the first one that holds the key. -/
theorem find_eq_some {i : Fin n} (hi : key (t.get i) = k) (hlt : ∀ j < i, key (t.get j) ≠ k) :
    find t key k = some i := by
  cases hf : find t key k with
  | none =>
    have hnone := firstSlot_eq_none.1 hf i
    simp [hi] at hnone
  | some j =>
    rcases lt_or_eq_of_le (find_le hf hi) with h | rfl
    · exact absurd (find_key hf) (hlt j h)
    · rfl

/-- The slot with the smallest time stamp, where `f` embeds the time stamps into the numbers. -/
theorem oldest_le [LT τ] [DecidableLT τ] {f : τ → ℕ} (hf : ∀ a b : τ, a < b ↔ f a < f b)
    {t : List.Vector ε (n + 1)} {ts : ε → τ} (j : Fin (n + 1)) :
    f (ts (t.get (oldest t ts))) ≤ f (ts (t.get j)) := by
  have hfold : ∀ (l : List (Fin (n + 1))) (b : Fin (n + 1)),
      let r := l.foldl (fun best i => if ts (t.get i) < ts (t.get best) then i else best) b
      f (ts (t.get r)) ≤ f (ts (t.get b)) ∧ ∀ i ∈ l, f (ts (t.get r)) ≤ f (ts (t.get i)) := by
    intro l
    induction l with
    | nil => exact fun b => ⟨le_refl _, by simp⟩
    | cons a l ih =>
      intro b
      obtain ⟨hb, hl⟩ := ih (if ts (t.get a) < ts (t.get b) then a else b)
      rw [List.foldl_cons]
      by_cases hlt : ts (t.get a) < ts (t.get b)
      · have hlt' := (hf _ _).1 hlt
        rw [if_pos hlt] at hb hl ⊢
        refine ⟨by omega, ?_⟩
        rintro i (_ | ⟨_, hi⟩)
        · exact hb
        · exact hl i hi
      · have hge : f (ts (t.get b)) ≤ f (ts (t.get a)) := not_lt.1 fun h => hlt ((hf _ _).2 h)
        rw [if_neg hlt] at hb hl ⊢
        refine ⟨hb, ?_⟩
        rintro i (_ | ⟨_, hi⟩)
        · exact le_trans hb hge
        · exact hl i hi
  exact (hfold (List.finRange (n + 1)) 0).2 j (List.mem_finRange j)

/-- No slot is found exactly when no entry has the key. -/
theorem find_eq_none : find t key k = none ↔ ∀ i, key (t.get i) ≠ k := by
  simp [find, firstSlot_eq_none]

end KeyTable
