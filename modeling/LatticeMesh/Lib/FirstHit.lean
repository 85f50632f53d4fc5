import Mathlib.Data.List.Basic
import Mathlib.Order.Nat

/-!
# First hits

Tables in which the first entry that matches is the one that counts, seen as partial functions on
positions.  A table may be written back over the store it was loaded from, entry by entry, where
loading skipped the unused places of the store: however far that got, the first hit stays what it
was.

## Main definitions

* `FirstAt f p k` — the first position at which `f` is defined is `p`, and the value there is `k`.
* `hits g l` — the values that the entries of a list stand for, by position.

## Main results

* `findSome?_eq_some_iff` — the first hit is what a search finds.
* `FirstAt.compact`, `FirstAt.uncompact` — skipping entries moves the first hit forward.
* `FirstAt.overwrite` — **a table that is partly written back still has its first hit.**
-/

namespace FirstHit

variable {α β κ : Type*} {f new old u : ℕ → Option κ} {g : β → Option κ} {p q n : ℕ} {k : κ}

/-- The first position at which `f` is defined is `p`, and the value there is `k`. -/
def FirstAt (f : ℕ → Option κ) (p : ℕ) (k : κ) : Prop := f p = some k ∧ ∀ i < p, f i = none

/-- The values that the entries of a list stand for, by position. -/
def hits (g : β → Option κ) (l : List β) (j : ℕ) : Option κ := l[j]?.bind g

@[simp] theorem hits_nil (j : ℕ) : hits g [] j = none := rfl

@[simp] theorem hits_cons_zero (a : β) (l : List β) : hits g (a :: l) 0 = g a := rfl

@[simp] theorem hits_cons_succ (a : β) (l : List β) (j : ℕ) :
    hits g (a :: l) (j + 1) = hits g l j := rfl

theorem hits_append_left {l l' : List β} {j : ℕ} (h : j < l.length) :
    hits g (l ++ l') j = hits g l j := by
  unfold hits
  rw [List.getElem?_append_left h]

/-- A hit lies in the list. -/
theorem lt_length_of_hits {l : List β} (h : hits g l p = some k) : p < l.length := by
  by_contra hlt
  unfold hits at h
  rw [List.getElem?_eq_none (not_lt.1 hlt)] at h
  cases h

theorem not_firstAt_nil : ¬FirstAt (hits g []) p k := fun h => by cases h.1

theorem firstAt_cons_of_none {a : β} {l : List β} (ha : g a = none) :
    FirstAt (hits g (a :: l)) (p + 1) k ↔ FirstAt (hits g l) p k := by
  refine and_congr Iff.rfl ⟨fun h i hi => h (i + 1) (by omega), fun h i hi => ?_⟩
  cases i with
  | zero => exact ha
  | succ i => exact h i (by omega)

/-- The first entry is the first hit, or the first hit lies behind it. -/
theorem firstAt_cons {a : β} {l : List β} (h : FirstAt (hits g (a :: l)) p k) :
    p = 0 ∧ g a = some k ∨ g a = none ∧ ∃ p', p = p' + 1 ∧ FirstAt (hits g l) p' k := by
  cases p with
  | zero => exact .inl ⟨rfl, h.1⟩
  | succ p =>
    have ha : g a = none := h.2 0 (Nat.succ_pos p)
    exact .inr ⟨ha, p, rfl, (firstAt_cons_of_none ha).1 h⟩

theorem firstAt_zero {a : β} {l : List β} (h : g a = some k) : FirstAt (hits g (a :: l)) 0 k :=
  ⟨h, fun _ hi => absurd hi (Nat.not_lt_zero _)⟩

/-- The first hit is what a search finds. -/
theorem findSome?_eq_some_iff {l : List β} :
    l.findSome? g = some k ↔ ∃ p, FirstAt (hits g l) p k := by
  induction l with
  | nil => exact ⟨fun h => (by cases h), fun ⟨_, h⟩ => (not_firstAt_nil h).elim⟩
  | cons a l ih =>
    rw [List.findSome?_cons]
    cases ha : g a with
    | some k' =>
      constructor
      · rintro ⟨⟩
        exact ⟨0, firstAt_zero ha⟩
      · rintro ⟨p, h⟩
        rcases firstAt_cons h with ⟨-, hk⟩ | ⟨hn, -⟩
        · exact ha.symm.trans hk
        · rw [ha] at hn
          cases hn
    | none =>
      dsimp only
      rw [ih]
      constructor
      · rintro ⟨p, h⟩
        exact ⟨p + 1, (firstAt_cons_of_none ha).2 h⟩
      · rintro ⟨p, h⟩
        rcases firstAt_cons h with ⟨-, hk⟩ | ⟨-, p', -, h'⟩
        · rw [ha] at hk
          cases hk
        · exact ⟨p', h'⟩

/-- Skipping the entries that stand for nothing moves the first hit forward. -/
theorem FirstAt.compact {load : α → Option β} {l : List α}
    (h : FirstAt (hits (fun a => (load a).bind g) l) q k) :
    ∃ p ≤ q, FirstAt (hits g (l.filterMap load)) p k := by
  induction l generalizing q with
  | nil => exact (not_firstAt_nil h).elim
  | cons a l ih =>
    rw [List.filterMap_cons]
    rcases firstAt_cons h with ⟨rfl, ha⟩ | ⟨ha, q, rfl, h'⟩
    · obtain ⟨c, hc, hk⟩ := Option.bind_eq_some_iff.1 ha
      rw [hc]
      exact ⟨0, le_rfl, firstAt_zero hk⟩
    · obtain ⟨p, hp, hfirst⟩ := ih h'
      cases hc : load a with
      | none => exact ⟨p, by omega, hfirst⟩
      | some c =>
        have hnone : g c = none := by simpa [hc] using ha
        exact ⟨p + 1, by omega, (firstAt_cons_of_none hnone).2 hfirst⟩

/-- Conversely, the first hit of what was loaded lies behind its place in the list. -/
theorem FirstAt.uncompact {load : α → Option β} {l : List α}
    (h : FirstAt (hits g (l.filterMap load)) p k) :
    ∃ q ≥ p, FirstAt (hits (fun a => (load a).bind g) l) q k := by
  induction l generalizing p with
  | nil => exact (not_firstAt_nil h).elim
  | cons a l ih =>
    rw [List.filterMap_cons] at h
    cases hc : load a with
    | none =>
      rw [hc] at h
      obtain ⟨q, hq, hfirst⟩ := ih h
      exact ⟨q + 1, by omega, (firstAt_cons_of_none (by rw [hc]; rfl)).2 hfirst⟩
    | some c =>
      rw [hc] at h
      rcases firstAt_cons h with ⟨rfl, hk⟩ | ⟨hn, p, rfl, h'⟩
      · exact ⟨0, le_rfl, firstAt_zero (by rw [hc]; exact hk)⟩
      · obtain ⟨q, hq, hfirst⟩ := ih h'
        exact ⟨q + 1, by omega, (firstAt_cons_of_none (by rw [hc]; exact hn)).2 hfirst⟩

/-- **A table that is written back over the store it was loaded from**, up to some place, still has
its first hit. -/
theorem FirstAt.overwrite (hnew : FirstAt new p k) (hold : FirstAt old q k) (hpq : p ≤ q)
    (hlt : ∀ i < n, i ≤ p → u i = new i) (hge : ∀ i, n ≤ i → u i = old i) :
    ∃ r, FirstAt u r k := by
  rcases lt_or_ge p n with hpn | hnp
  · refine ⟨p, ?_, fun i hi => ?_⟩
    · rw [hlt p hpn le_rfl]
      exact hnew.1
    · rw [hlt i (by omega) (by omega)]
      exact hnew.2 i hi
  · refine ⟨q, ?_, fun i hi => ?_⟩
    · rw [hge q (by omega)]
      exact hold.1
    · rcases lt_or_ge i n with hin | hni
      · rw [hlt i hin (by omega)]
        exact hnew.2 i (by omega)
      · rw [hge i hni]
        exact hold.2 i hi

end FirstHit
