import Mathlib.Data.List.Nodup
import Mathlib.Data.Vector.Basic

/-!
# The least recently used element

A list of bounded length in which the element that is used moves to the front, and from which the
last element drops out when there is no more room.  The list may be kept in an array, in which
elements are moved one by one to close or to open a gap.

## Main definitions

* `Lru.touch` — use an element.
* `Lru.evicted` — the element that drops out.
* `Lru.Recent` — the list is in the order of the last calls for its elements.
* `Lru.closeGap`, `Lru.openGap` — the loops that move elements of an array.

## Main results

* `Lru.nodup_touch` — **the list stays duplicate-free.**
* `Lru.Recent.touch`, `Lru.Recent.erase` — the list stays in order.
* `Lru.Recent.evicted` — **the element that drops out is the one used least recently.**
* `Lru.take_closeGap`, `Lru.take_openGap` — what the loops do to the front of the array.
-/

namespace Lru

variable {α : Type*}

/-! ### The list -/

section Touch

variable [DecidableEq α] {cap : ℕ} {l : List α} {a x : α}

/-- Move `a` to the front; what exceeds the capacity drops out. -/
def touch (cap : ℕ) (l : List α) (a : α) : List α := (a :: l.erase a).take cap

/-- The element that drops out when `a` is used: the last one, if `a` is new and there is no
room. -/
def evicted (cap : ℕ) (l : List α) (a : α) : Option α :=
  if a ∈ l ∨ l.length < cap then none else l.getLast?

theorem nodup_touch (h : l.Nodup) (cap : ℕ) (a : α) : (touch cap l a).Nodup := by
  refine List.Sublist.nodup (List.take_sublist cap _) ?_
  exact List.nodup_cons.2 ⟨h.not_mem_erase, h.erase a⟩

/-- An element that is in the list moves. -/
theorem touch_of_mem (h : a ∈ l) (hcap : l.length ≤ cap) : touch cap l a = a :: l.erase a := by
  refine List.take_of_length_le ?_
  have hpos := List.length_pos_of_mem h
  rw [List.length_cons, List.length_erase_of_mem h]
  omega

/-- A new element, where there is room. -/
theorem touch_of_room (h : a ∉ l) (hcap : l.length < cap) : touch cap l a = a :: l := by
  rw [touch, List.erase_of_not_mem h]
  exact List.take_of_length_le hcap

/-- A new element, where there is no room. -/
theorem touch_of_full (h : a ∉ l) (hcap : l.length = cap + 1) :
    touch (cap + 1) l a = a :: l.dropLast := by
  rw [touch, List.erase_of_not_mem h, List.take_succ_cons, List.dropLast_eq_take, hcap]
  rfl

/-! ### The order of the list -/

/-- The elements are in the order of the last calls for them; `history` has the last call first. -/
def Recent (history l : List α) : Prop :=
  l.Pairwise fun x y => history.idxOf x < history.idxOf y

theorem recent_nil (history : List α) : Recent history [] := List.Pairwise.nil

/-- After a call for `a`, the others are in the order in which they were. -/
theorem Recent.erase {history : List α} (h : Recent history l) (hn : l.Nodup) (a : α) :
    Recent (a :: history) (l.erase a) := by
  have hne : ∀ x ∈ l.erase a, a ≠ x := by
    rintro x hx rfl
    exact hn.not_mem_erase hx
  refine (List.Pairwise.sublist List.erase_sublist h).imp_of_mem ?_
  intro x y hx hy hxy
  rw [List.idxOf_cons_ne _ (hne x hx), List.idxOf_cons_ne _ (hne y hy)]
  exact Nat.succ_lt_succ hxy

theorem Recent.touch {history : List α} (h : Recent history l) (hn : l.Nodup) (cap : ℕ) (a : α) :
    Recent (a :: history) (touch cap l a) := by
  refine List.Pairwise.sublist (List.take_sublist cap _) (List.pairwise_cons.2 ⟨?_, h.erase hn a⟩)
  intro x hx
  have hne : a ≠ x := by
    rintro rfl
    exact hn.not_mem_erase hx
  rw [List.idxOf_cons_self, List.idxOf_cons_ne _ hne]
  exact Nat.succ_pos _

/-- **The element that drops out is the one used least recently.** -/
theorem Recent.evicted {history : List α} (h : Recent history l) (he : evicted cap l a = some x) :
    x ∈ l ∧ ∀ y ∈ l, y ≠ x → history.idxOf y < history.idxOf x := by
  unfold Lru.evicted at he
  split at he
  · cases he
  obtain ⟨front, rfl⟩ := List.getLast?_eq_some_iff.1 he
  refine ⟨by simp, ?_⟩
  intro y hy hne
  rcases List.mem_append.1 hy with hy | hy
  · exact (List.pairwise_append.1 h).2.2 y hy x (List.mem_singleton_self x)
  · exact absurd (List.mem_singleton.1 hy) hne

/-- What is in the list after an element was used. -/
theorem mem_touch (hn : l.Nodup) (hcap : l.length ≤ cap + 1) :
    x ∈ touch (cap + 1) l a ↔ x = a ∨ x ∈ l ∧ Lru.evicted (cap + 1) l a ≠ some x := by
  unfold Lru.evicted
  by_cases ha : a ∈ l
  · rw [touch_of_mem ha hcap, List.mem_cons, hn.mem_erase_iff, if_pos (.inl ha)]
    by_cases hx : x = a <;> simp [hx]
  by_cases hroom : l.length < cap + 1
  · rw [touch_of_room ha hroom, if_pos (.inr hroom)]
    simp
  · rw [touch_of_full ha (by omega), if_neg (by simp [ha, hroom])]
    rcases List.eq_nil_or_concat' l with rfl | ⟨front, last, rfl⟩
    · simp at hroom
    · rw [List.dropLast_concat, List.getLast?_concat, List.mem_cons]
      have hlast : last ∉ front := fun h =>
        (List.nodup_append.1 hn).2.2 last h last (List.mem_singleton_self last) rfl
      refine or_congr_right ?_
      constructor
      · intro hx
        refine ⟨List.mem_append_left _ hx, ?_⟩
        rintro ⟨rfl⟩
        exact hlast hx
      · rintro ⟨hx, hne⟩
        rcases List.mem_append.1 hx with hx | hx
        · exact hx
        · exact absurd (congrArg some (List.mem_singleton.1 hx).symm) hne

end Touch

/-! ### The array -/

variable {n : ℕ}

/-- The loop `for (j = i; j < i + k; ++j) a[j] = a[j + 1]`. -/
def closeGap (a : Vector α n) (i : ℕ) : (k : ℕ) → i + k < n → Vector α n
  | 0, _ => a
  | k + 1, h => closeGap (a.set i a[i + 1]) (i + 1) k (by omega)

/-- The loop `for (j = i; j > 0; --j) a[j] = a[j - 1]`. -/
def openGap (a : Vector α n) : (i : ℕ) → i < n → Vector α n
  | 0, _ => a
  | j + 1, h => openGap (a.set (j + 1) a[j]) j (by omega)

theorem getElem_closeGap {a : Vector α n} {i k : ℕ} (h : i + k < n) {j : ℕ} (hj : j < n) :
    (closeGap a i k h)[j] = if hg : i ≤ j ∧ j < i + k then a[j + 1] else a[j] := by
  induction k generalizing a i with
  | zero =>
    rw [dif_neg (by omega)]
    rfl
  | succ k ih =>
    rw [closeGap, ih]
    -- the slot that this round writes lies before the slots of the later rounds
    rcases lt_trichotomy j i with hlt | rfl | hgt
    · rw [dif_neg (by omega), dif_neg (by omega), Vector.getElem_set_ne _ _ (by omega)]
    · rw [dif_neg (by omega), dif_pos (by omega), Vector.getElem_set_self]
    · by_cases hk : j < i + (k + 1)
      · rw [dif_pos (by omega), dif_pos (by omega), Vector.getElem_set_ne _ _ (by omega)]
      · rw [dif_neg (by omega), dif_neg (by omega), Vector.getElem_set_ne _ _ (by omega)]

theorem getElem_openGap {a : Vector α n} {i : ℕ} (h : i < n) {j : ℕ} (hj : j < n) :
    (openGap a i h)[j] = if hg : 0 < j ∧ j ≤ i then a[j - 1] else a[j] := by
  induction i generalizing a with
  | zero =>
    rw [dif_neg (by omega)]
    rfl
  | succ i ih =>
    rw [openGap, ih]
    rcases lt_trichotomy j (i + 1) with hlt | rfl | hgt
    · by_cases h0 : 0 < j
      · rw [dif_pos (by omega), dif_pos (by omega), Vector.getElem_set_ne _ _ (by omega)]
      · rw [dif_neg (by omega), dif_neg (by omega), Vector.getElem_set_ne _ _ (by omega)]
    · rw [dif_neg (by omega), dif_pos (by omega), Vector.getElem_set_self]
      rfl
    · rw [dif_neg (by omega), dif_neg (by omega), Vector.getElem_set_ne _ _ (by omega)]

/-- Closing the gap at `i` takes an element out of the front of the array. -/
theorem take_closeGap {a : Vector α n} {i c : ℕ} (hi : i < c) (hc : c ≤ n)
    (h : i + (c - 1 - i) < n) :
    (closeGap a i (c - 1 - i) h).toList.take (c - 1) = (a.toList.take c).eraseIdx i := by
  have hlen : (a.toList.take c).length = c := by
    rw [List.length_take, Vector.length_toList]
    omega
  refine List.ext_getElem ?_ ?_
  · rw [List.length_eraseIdx_of_lt (by omega), hlen, List.length_take, Vector.length_toList]
    omega
  · intro j hj hj'
    have hjc : j < c - 1 := by
      simp at hj
      omega
    rw [List.getElem_take, Vector.getElem_toList, getElem_closeGap h (by omega)]
    by_cases hij : i ≤ j
    · rw [dif_pos (by omega), List.getElem_eraseIdx_of_ge _ hij, List.getElem_take,
        Vector.getElem_toList]
    · rw [dif_neg (by omega), List.getElem_eraseIdx_of_lt _ (by omega), List.getElem_take,
        Vector.getElem_toList]

/-- Opening a gap at the front and writing `x` there moves `x` in for the element at `i`. -/
theorem take_openGap {a : Vector α n} {i c : ℕ} {x : α} (hi : i < c) (hc : c ≤ n) (h : i < n)
    (h0 : 0 < n) :
    ((openGap a i h).set 0 x h0).toList.take c = x :: (a.toList.take c).eraseIdx i := by
  have hlen : (a.toList.take c).length = c := by
    rw [List.length_take, Vector.length_toList]
    omega
  refine List.ext_getElem ?_ ?_
  · rw [List.length_cons, List.length_eraseIdx_of_lt (by omega), hlen, List.length_take,
      Vector.length_toList]
    omega
  · intro j hj hj'
    have hjc : j < c := by
      simp at hj
      omega
    rw [List.getElem_take, Vector.getElem_toList]
    cases j with
    | zero => rw [Vector.getElem_set_self, List.getElem_cons_zero]
    | succ j =>
      rw [Vector.getElem_set_ne _ _ (by omega), getElem_openGap h (by omega),
        List.getElem_cons_succ]
      by_cases hij : j < i
      · rw [dif_pos (by omega), List.getElem_eraseIdx_of_lt _ hij, List.getElem_take,
          Vector.getElem_toList]
        rfl
      · rw [dif_neg (by omega), List.getElem_eraseIdx_of_ge _ (by omega), List.getElem_take,
          Vector.getElem_toList]

end Lru
