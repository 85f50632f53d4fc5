import Mathlib.Data.List.Basic

/-!
# Requests and their answers

Logs in which some events are requests and some are answers.  A log is balanced if the two
alternate, with a request first; then each request has one answer, which comes before the next
request.

## Main definitions

* `Answers.Balanced` — in every beginning of the log at most one request is not answered yet.

## Main results

* `Answers.Balanced.append` — a log stays balanced if the counts at its end are right.
* `Answers.Balanced.count_between` — **between two requests there is one answer.**
* `Answers.Balanced.answered` — **a request that is answered by some time is answered next.**
-/

namespace Answers

variable {ε : Type*} {ask answer : ε → Bool} {l pre seg post : List ε} {a e : ε}

/-- In every beginning of the log at most one request is not answered yet. -/
def Balanced (ask answer : ε → Bool) (l : List ε) : Prop :=
  ∀ p, p <+: l → p.countP answer ≤ p.countP ask ∧ p.countP ask ≤ p.countP answer + 1

theorem balanced_nil : Balanced ask answer [] := by
  intro p hp
  rw [List.prefix_nil.1 hp]
  exact ⟨Nat.le_refl _, Nat.zero_le _⟩

/-- A log stays balanced if the counts at its end are right. -/
theorem Balanced.append (h : Balanced ask answer l)
    (hle : (l ++ [e]).countP answer ≤ (l ++ [e]).countP ask)
    (hge : (l ++ [e]).countP ask ≤ (l ++ [e]).countP answer + 1) :
    Balanced ask answer (l ++ [e]) := by
  intro p hp
  rcases List.prefix_concat_iff.1 hp with rfl | hp
  · exact ⟨hle, hge⟩
  · exact h p hp

/-- At a request, everything before it is answered. -/
theorem Balanced.count_request (h : Balanced ask answer l) (hl : l = pre ++ a :: post)
    (ha : ask a = true) (hna : answer a = false) : pre.countP ask = pre.countP answer := by
  have hpre := h pre (by rw [hl]; exact List.prefix_append _ _)
  have hreq := h (pre ++ [a]) (by rw [hl]; exact ⟨post, by simp⟩)
  simp [List.countP_append, ha, hna] at hreq
  omega

/-- **Between two requests there is one answer.** -/
theorem Balanced.count_between {a' : ε} (h : Balanced ask answer l)
    (hl : l = pre ++ a :: (seg ++ a' :: post)) (ha : ask a = true) (hna : answer a = false)
    (ha' : ask a' = true) (hna' : answer a' = false) (hseg : seg.countP ask = 0) :
    seg.countP answer = 1 := by
  have h₁ := h.count_request hl ha hna
  have hl' : l = (pre ++ a :: seg) ++ a' :: post := by
    rw [hl, List.append_assoc]
    rfl
  have h₂ := h.count_request hl' ha' hna'
  simp [List.countP_append, ha, hna] at h₂
  omega

/-- After the last request there is at most one answer. -/
theorem Balanced.count_after (h : Balanced ask answer l) (hl : l = pre ++ a :: seg)
    (ha : ask a = true) (hna : answer a = false) (hseg : seg.countP ask = 0) :
    seg.countP answer ≤ 1 := by
  have h₁ := h.count_request hl ha hna
  have h₂ := (h l (List.prefix_refl l)).1
  rw [hl] at h₂
  simp [List.countP_append, ha, hna] at h₂
  omega

/-- **A request that is answered by some time is answered next**: before that time an answer comes,
and no other request before it. -/
theorem Balanced.answered (h : Balanced ask answer l) (hl : l = pre ++ a :: (seg ++ post))
    (ha : ask a = true) (hna : answer a = false)
    (hcount : pre.countP ask + 1 ≤ (pre ++ a :: seg).countP answer) :
    ∃ u x v, seg = u ++ x :: v ∧ answer x = true ∧ ∀ y ∈ u, ask y = false ∧ answer y = false := by
  have heq := h.count_request hl ha hna
  have hpos : 0 < seg.countP answer := by
    simp [List.countP_append, hna] at hcount
    omega
  -- the first answer in the segment
  obtain ⟨x, hx, hxa⟩ := List.countP_pos_iff.1 hpos
  have hfind : (seg.find? answer).isSome = true := List.find?_isSome.2 ⟨x, hx, hxa⟩
  obtain ⟨x, hx⟩ := Option.isSome_iff_exists.1 hfind
  obtain ⟨hxa, u, v, rfl, hu⟩ := List.find?_eq_some_iff_append.1 hx
  refine ⟨u, x, v, rfl, hxa, ?_⟩
  intro y hy
  have hya : answer y = false := by simpa using hu y hy
  refine ⟨?_, hya⟩
  by_contra hask
  rw [Bool.not_eq_false] at hask
  -- a second request before the answer would be one too many
  obtain ⟨u₁, u₂, rfl⟩ := List.append_of_mem hy
  have hreq := h (pre ++ a :: (u₁ ++ [y])) (by rw [hl]; exact ⟨u₂ ++ x :: v ++ post, by simp⟩)
  have hnone : u₁.countP answer = 0 := by
    rw [List.countP_eq_zero]
    intro z hz
    simpa using hu z (List.mem_append_left _ hz)
  simp [List.countP_append, ha, hna, hask, hya, hnone] at hreq
  omega

end Answers
