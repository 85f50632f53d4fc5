import Mathlib.Data.List.FinRange
import Mathlib.Data.List.Basic

/-!
# Lists stored slot by slot

A list is stored in an array of slots, one entry a slot and the slots behind the last entry empty.
Saving another list rewrites the slots in their order, so whoever stops half way leaves the first
slots of the new list in front of the last slots of the old one.

## Main definitions

* `contents` — the entries that an array of slots holds, in the order of the slots.
* `torn k new old` — what is stored after `k` slots of `old` were rewritten with `new`.
* `swapRemove` — a list without its `i`-th entry, whose place the last entry takes.

## Main results

* `contents_torn` — the contents of an array that was rewritten half way.
* `torn_append`, `torn_set` — **an addition or a replacement is stored as a whole or not at all.**
* `torn_swapRemove` — a removal passes through a list that holds the last entry twice.
* `mem_swapRemove` — a removal leaves the entries in all other places.
-/

namespace SlotImage

variable {α β : Type*} {n : ℕ}

/-- The entries that the slots hold, in the order of the slots. -/
def contents (f : Fin n → Option α) : List α := (List.finRange n).filterMap f

theorem contents_congr {f g : Fin n → Option α} (h : ∀ i, f i = g i) : contents f = contents g :=
  congrArg contents (funext h)

/-- An entry that is kept moves to the front at most. -/
theorem getElem?_filterMap {f : α → Option β} {l : List α} {i : ℕ} {b : β}
    (h : (l.filterMap f)[i]? = some b) : ∃ j a, i ≤ j ∧ l[j]? = some a ∧ f a = some b := by
  induction l generalizing i with
  | nil => simp at h
  | cons a l ih =>
    cases hf : f a with
    | none =>
      rw [List.filterMap_cons_none hf] at h
      obtain ⟨j, a', hij, hj, hb⟩ := ih h
      exact ⟨j + 1, a', by omega, hj, hb⟩
    | some b' =>
      rw [List.filterMap_cons_some hf] at h
      cases i with
      | zero => exact ⟨0, a, le_refl _, rfl, hf.trans h⟩
      | succ i =>
        obtain ⟨j, a', hij, hj, hb⟩ := ih h
        exact ⟨j + 1, a', by omega, hj, hb⟩

/-- The entries of `l` from `k` on sit in the slots from `k` on. -/
theorem filterMap_range' (l : List α) (k m : ℕ) (h : l.length ≤ k + m) :
    (List.range' k m).filterMap (l[·]?) = l.drop k := by
  induction m generalizing k with
  | zero => rw [List.range'_zero, List.filterMap_nil, List.drop_eq_nil_of_le (by omega)]
  | succ m ih =>
    rw [List.range'_succ]
    by_cases hk : k < l.length
    · rw [List.filterMap_cons_some (List.getElem?_eq_getElem hk), ih (k + 1) (by omega),
        List.drop_eq_getElem_cons hk]
    · have hnone : l[k]? = none := List.getElem?_eq_none (by omega)
      rw [List.filterMap_cons_none hnone, ih (k + 1) (by omega),
        List.drop_eq_nil_of_le (by omega), List.drop_eq_nil_of_le (by omega)]

/-- The entries of `l` up to `k` sit in the slots below `k`. -/
theorem filterMap_range (l : List α) (k : ℕ) : (List.range k).filterMap (l[·]?) = l.take k := by
  have h := filterMap_range' (l.take k) 0 k (by rw [List.length_take]; omega)
  rw [List.drop_zero, ← List.range_eq_range'] at h
  rw [← h]
  refine List.filterMap_congr fun i hi => ?_
  rw [List.getElem?_take, if_pos (List.mem_range.1 hi)]

/-- What is stored after the first `k` slots of the list `old` were rewritten with `new`. -/
def torn (k : ℕ) (new old : List α) : List α := new.take k ++ old.drop k

/-- **The contents of an array that was rewritten half way.** -/
theorem contents_torn {new old : List α} {k : ℕ} (hnew : new.length ≤ n) (hold : old.length ≤ n) :
    contents (fun i : Fin n => if i.val < k then new[i.val]? else old[i.val]?) =
      torn k new old := by
  have hval : contents (fun i : Fin n => if i.val < k then new[i.val]? else old[i.val]?) =
      (List.range n).filterMap fun i => if i < k then new[i]? else old[i]? := by
    rw [contents, ← List.map_coe_finRange_eq_range, List.filterMap_map]
    rfl
  rw [hval, torn]
  rcases Nat.le_total k n with hk | hk
  · obtain ⟨m, rfl⟩ := Nat.exists_eq_add_of_le hk
    rw [List.range_eq_range', ← List.range'_append_1, List.filterMap_append, Nat.zero_add]
    congr 1
    · rw [← filterMap_range, List.range_eq_range']
      refine List.filterMap_congr fun i hi => ?_
      rw [if_pos (by simpa using hi)]
    · rw [← filterMap_range' old k m hold]
      refine List.filterMap_congr fun i hi => ?_
      rw [if_neg (by have := (List.mem_range'_1.1 hi).1; omega)]
  · have hlt : ∀ i ∈ List.range n, (if i < k then new[i]? else old[i]?) = new[i]? := fun i hi =>
      if_pos (by have := List.mem_range.1 hi; omega)
    rw [List.filterMap_congr hlt, filterMap_range, List.take_of_length_le hnew,
      List.take_of_length_le (by omega), List.drop_eq_nil_of_le (by omega), List.append_nil]

/-- The contents of an array that stores a list. -/
theorem contents_stored {l : List α} (h : l.length ≤ n) :
    contents (fun i : Fin n => l[i.val]?) = l := by
  have hc := contents_torn (k := n) h h
  rw [torn, List.take_of_length_le h, List.drop_eq_nil_of_le h, List.append_nil] at hc
  exact (contents_congr fun i => (if_pos i.isLt).symm).trans hc

theorem torn_map (f : α → β) (k : ℕ) (new old : List α) :
    torn k (new.map f) (old.map f) = (torn k new old).map f := by
  rw [torn, torn, List.map_append, List.map_take, List.map_drop]

theorem length_torn_le (k : ℕ) (new old : List α) :
    (torn k new old).length ≤ max new.length old.length := by
  rw [torn, List.length_append, List.length_take, List.length_drop]
  omega

/-- What is stored half way was in the old list or is in the new one. -/
theorem mem_torn {k : ℕ} {new old : List α} {a : α} (h : a ∈ torn k new old) :
    a ∈ old ∨ a ∈ new :=
  (List.mem_append.1 h).elim (fun h => .inr (List.mem_of_mem_take h))
    fun h => .inl (List.mem_of_mem_drop h)

@[simp] theorem torn_self (k : ℕ) (l : List α) : torn k l l = l := List.take_append_drop k l

/-- **An addition is stored as a whole or not at all.** -/
theorem torn_append (k : ℕ) (l : List α) (a : α) :
    torn k (l ++ [a]) l = if k ≤ l.length then l else l ++ [a] := by
  unfold torn
  split
  · rename_i h
    rw [List.take_append_of_le_length h, List.take_append_drop]
  · rename_i h
    rw [List.take_of_length_le (by simp; omega), List.drop_eq_nil_of_le (by omega),
      List.append_nil]

/-- **A replacement is stored as a whole or not at all.** -/
theorem torn_set (k : ℕ) (l : List α) (i : ℕ) (a : α) :
    torn k (l.set i a) l = if k ≤ i then l else l.set i a := by
  unfold torn
  split
  · rename_i h
    rw [List.take_set_of_le h, List.take_append_drop]
  · rename_i h
    have hdrop : (l.set i a).drop k = l.drop k := List.drop_set_of_lt (by omega)
    rw [← hdrop, List.take_append_drop]

/-! ### Removal -/

/-- The list without its `i`-th entry, whose place the last entry takes. -/
def swapRemove (l : List α) (i : ℕ) : List α :=
  match l.getLast? with
  | some last => (l.set i last).dropLast
  | none => l

theorem swapRemove_concat (l : List α) (last : α) (i : ℕ) :
    swapRemove (l ++ [last]) i = if i < l.length then l.set i last else l := by
  unfold swapRemove
  rw [List.getLast?_concat]
  dsimp only
  split
  · rename_i h
    rw [List.set_append_left _ _ h, List.dropLast_concat]
  · rename_i h
    rw [List.set_append_right _ _ (by omega)]
    rcases Nat.eq_zero_or_pos (i - l.length) with h0 | hpos
    · rw [h0, List.set_cons_zero, List.dropLast_concat]
    · rw [List.set_eq_of_length_le (by rw [List.length_singleton]; exact hpos),
        List.dropLast_concat]

/-- A removal leaves the entries in all other places. -/
theorem mem_swapRemove {l : List α} {last a : α} {i : ℕ} (hi : i ≤ l.length) :
    a ∈ swapRemove (l ++ [last]) i ↔ ∃ j, j ≠ i ∧ (l ++ [last])[j]? = some a := by
  have hlast : (l ++ [last])[l.length]? = some last := List.getElem?_concat_length
  have hinit : ∀ {j}, j < l.length → (l ++ [last])[j]? = l[j]? := fun h =>
    List.getElem?_append_left h
  rw [swapRemove_concat, List.mem_iff_getElem?]
  constructor
  · rintro ⟨j, hj⟩
    split at hj
    · rw [List.getElem?_set] at hj
      split at hj
      · exact ⟨l.length, by omega, hlast.trans hj⟩
      · rename_i hne
        have hjl := (List.getElem?_eq_some_iff.1 hj).1
        exact ⟨j, Ne.symm hne, by rw [hinit hjl, hj]⟩
    · have hjl := (List.getElem?_eq_some_iff.1 hj).1
      exact ⟨j, by omega, by rw [hinit hjl, hj]⟩
  · rintro ⟨j, hne, hj⟩
    have hjl := (List.getElem?_eq_some_iff.1 hj).1
    rw [List.length_append, List.length_singleton] at hjl
    rcases Nat.lt_succ_iff_lt_or_eq.1 hjl with hlt | rfl
    · rw [hinit hlt] at hj
      refine ⟨j, ?_⟩
      split
      · rwa [List.getElem?_set_ne (Ne.symm hne)]
      · exact hj
    · refine ⟨i, ?_⟩
      rw [hlast] at hj
      rw [if_pos (by omega), List.getElem?_set_self (by omega), hj]

/-- **A removal passes through a list that holds the last entry twice**: once where the removed
entry was, once where it was before. -/
theorem torn_swapRemove (k : ℕ) (l : List α) (last : α) {i : ℕ} (hi : i ≤ l.length) :
    torn k (swapRemove (l ++ [last]) i) (l ++ [last]) =
      if k ≤ i then l ++ [last]
      else if k ≤ l.length then l.set i last ++ [last]
      else swapRemove (l ++ [last]) i := by
  rw [swapRemove_concat]
  unfold torn
  by_cases hki : k ≤ i
  · rw [if_pos hki]
    have htake : List.take k (if i < l.length then l.set i last else l) = (l ++ [last]).take k := by
      rw [List.take_append_of_le_length (by omega)]
      split
      · exact List.take_set_of_le hki
      · rfl
    rw [htake, List.take_append_drop]
  rw [if_neg hki]
  by_cases hkl : k ≤ l.length
  · have hdrop : (l.set i last).drop k = l.drop k := List.drop_set_of_lt (by omega)
    rw [if_pos hkl, if_pos (by omega), List.drop_append_of_le_length hkl, ← hdrop,
      ← List.append_assoc, List.take_append_drop]
  · have hlen : (if i < l.length then l.set i last else l).length = l.length := by
      split
      · exact List.length_set
      · rfl
    rw [if_neg hkl, List.drop_eq_nil_of_le (by simp; omega), List.append_nil,
      List.take_of_length_le (by omega)]

end SlotImage
