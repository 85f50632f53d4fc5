import LatticeMesh.Device
import LatticeMesh.Lib.HighWater
import Mathlib.Data.List.Chain

/-!
# The seal guard as a gate

The guard `checkEpochRollback` remembers the last pair of epoch and sequence number that passed, and
is meant to let a pair pass exactly if it is above all pairs before.  It marks "nothing passed yet"
by the largest epoch, so a pair of that epoch opens the guard for the pair that comes next.

## Main definitions

* `guardCall`, `guardPasses`, `guardPassed` — calls of the guard one after the other.
* `GuardExact` — each call passes exactly if it should, and leaves the guard alone otherwise.

## Main results

* `guardExact_iff` — **the guard is exact on a sequence of calls if and only if a call of the
  largest epoch is only followed by a call above it.**
-/

namespace LatticeMesh

/-- The order of the pairs is that of their numbers. -/
theorem lex_iff_stampOf {x y : UInt32 × UInt16} :
    Prod.Lex (· < ·) (· < ·) x y ↔ stampOf x.1 x.2 < stampOf y.1 y.2 := by
  rw [Prod.lex_def, ← newer_iff_stampOf, newer_iff]
  simp only [UInt32.lt_iff_toNat_lt, UInt16.lt_iff_toNat_lt, eq_comm]

/-- The last pair that passed, as the guard remembers it. -/
def OutboundSequenceState.sealedPair (t : OutboundSequenceState) : UInt32 × UInt16 :=
  (t.lastSealedEpoch, t.lastSealedSeq)

theorem OutboundSequenceState.stampOf_sealedPair (t : OutboundSequenceState) :
    stampOf t.sealedPair.1 t.sealedPair.2 = t.sealedStamp := rfl

@[simp] theorem OutboundSequenceState.sealedStamp_markSealed (t : OutboundSequenceState)
    (epoch : UInt32) (seq : UInt16) :
    (t.markSealed epoch seq).sealedStamp = stampOf epoch seq := rfl

/-! ### Calls -/

/-- The node after one call of the guard, whether it returns or restarts the device. -/
def guardCall (w : World) (s : Node) (x : UInt32 × UInt16) : Node :=
  match checkEpochRollback w x.1 x.2 s with
  | .ok _ t => t
  | .error _ t => t

/-- Whether the guard lets a pair pass. -/
def guardPasses (w : World) (s : Node) (x : UInt32 × UInt16) : Bool :=
  match checkEpochRollback w x.1 x.2 s with
  | .ok _ _ => true
  | .error _ _ => false

/-- The pairs that pass, of those that are checked one after the other. -/
def guardPassed (w : World) : Node → List (UInt32 × UInt16) → List (UInt32 × UInt16)
  | _, [] => []
  | s, x :: xs => (if guardPasses w s x then [x] else []) ++ guardPassed w (guardCall w s x) xs

/-- On the calls `calls`, started in `s`, a pair passes exactly if it is the first one or above
every pair that passed before, and a pair that does not pass leaves the guard alone. -/
def GuardExact (w : World) (s : Node) (calls : List (UInt32 × UInt16)) : Prop :=
  ∀ before x after, calls = before ++ x :: after →
    (guardPasses w (Runs.run (guardCall w) s before) x = true ↔
      before = [] ∨ ∀ y ∈ guardPassed w s before, Prod.Lex (· < ·) (· < ·) y x) ∧
    (guardPasses w (Runs.run (guardCall w) s before) x = false →
      (guardCall w (Runs.run (guardCall w) s before) x).txState =
        (Runs.run (guardCall w) s before).txState)

variable {w : World} {s : Node} {x y : UInt32 × UInt16} {calls : List (UInt32 × UInt16)}

/-- A crypto error restarts the device and only adds to the history. -/
theorem fail_crypto {m : ModuleDigit} {sub : ℕ} {text : String} :
    ∃ es, fail w .crypto m sub text s = .error .failRestart { s with trace := es ++ s.trace } := by
  show ∃ es, signalError w .crypto (s.emit _) = _
  unfold signalError
  split
  · exact ⟨[_, _], rfl⟩
  · exact ⟨[_], rfl⟩

/-- A pair that advances passes, and is remembered. -/
theorem checkEpochRollback_pass (h : s.txState.sealAdvances x.1 x.2 = true) :
    checkEpochRollback w x.1 x.2 s = .ok () ({ s with
      txState := s.txState.markSealed x.1 x.2 }.emit (.guarded x.1 x.2)) := by
  show (if _ then _ else _ : MeshM Unit) s = _
  rw [if_pos h]
  rfl

/-- A pair that does not advance is refused, and the guard stays as it is. -/
theorem checkEpochRollback_refuse (h : s.txState.sealAdvances x.1 x.2 = false) :
    ∃ es, checkEpochRollback w x.1 x.2 s =
      .error .failRestart { s with trace := es ++ s.trace } := by
  obtain ⟨es, hes⟩ : ∃ es, fail w .crypto .mesh 1 "AEAD epoch rollback — refusing seal" s =
    .error .failRestart { s with trace := es ++ s.trace } := fail_crypto
  refine ⟨es, ?_⟩
  show (if _ then _ else _ : MeshM Unit) s = _
  rw [if_neg (by simp [h])]
  exact hes

theorem guardCall_pass (h : s.txState.sealAdvances x.1 x.2 = true) :
    guardPasses w s x = true ∧
      (guardCall w s x).txState = s.txState.markSealed x.1 x.2 := by
  unfold guardPasses guardCall
  rw [checkEpochRollback_pass h]
  exact ⟨rfl, rfl⟩

theorem guardCall_refuse (h : s.txState.sealAdvances x.1 x.2 = false) :
    guardPasses w s x = false ∧ (guardCall w s x).txState = s.txState := by
  obtain ⟨es, hes⟩ := checkEpochRollback_refuse (w := w) h
  unfold guardPasses guardCall
  rw [hes]
  exact ⟨rfl, rfl⟩

theorem guardPasses_eq : guardPasses w s x = s.txState.sealAdvances x.1 x.2 := by
  cases h : s.txState.sealAdvances x.1 x.2 with
  | true => exact (guardCall_pass h).1
  | false => exact (guardCall_refuse h).1

theorem guardPassed_concat : guardPassed w s (calls ++ [x]) =
    guardPassed w s calls ++
      if guardPasses w (Runs.run (guardCall w) s calls) x then [x] else [] := by
  induction calls generalizing s with
  | nil => exact List.append_nil _
  | cons y ys ih =>
    show (if guardPasses w s y then [y] else []) ++ guardPassed w (guardCall w s y) (ys ++ [x]) = _
    rw [ih, ← List.append_assoc]
    rfl

/-- A pair of the largest epoch always passes. -/
theorem sealAdvances_noSealEpoch {t : OutboundSequenceState} (h : x.1 = noSealEpoch) :
    t.sealAdvances x.1 x.2 = true := by
  by_cases hl : t.lastSealedEpoch = noSealEpoch
  · exact OutboundSequenceState.sealAdvances_of_lt (.inl hl)
  · have hlt := t.lastSealedEpoch.toNat_lt
    have hne : t.lastSealedEpoch.toNat ≠ noSealEpoch.toNat := fun he => hl (UInt32.toNat_inj.1 he)
    have hmax : noSealEpoch.toNat = 2 ^ 32 - 1 := rfl
    have hnew : newer x.1 x.2 t.lastSealedEpoch t.lastSealedSeq = true := by
      rw [newer_iff, h]
      exact .inl (by omega)
    unfold OutboundSequenceState.sealAdvances
    rw [hnew, Bool.or_true]

/-! ### The mark -/

/-- The mark that the guard stands for after some calls: before the first of them there is none. -/
def guardMark (calls : List (UInt32 × UInt16)) (t : OutboundSequenceState) : Option ℕ :=
  if calls = [] then none else some t.sealedStamp

/-- The guard after the calls `calls` of a node that never sealed. -/
structure GuardAfter (w : World) (s : Node) (calls : List (UInt32 × UInt16)) : Prop where
  mark : HighWater.MarkOf ((guardPassed w s calls).map fun y => stampOf y.1 y.2)
    (guardMark calls (Runs.run (guardCall w) s calls).txState)
  /-- The guard is open only at the start or right after a pair of the largest epoch. -/
  opened : (Runs.run (guardCall w) s calls).txState.lastSealedEpoch = noSealEpoch →
    calls = [] ∨ calls.getLast? = some (Runs.run (guardCall w) s calls).txState.sealedPair

/-- A call of the largest epoch is only followed by a call above it. -/
def NotReopened (calls : List (UInt32 × UInt16)) : Prop :=
  calls.IsChain fun y x => y.1 = noSealEpoch → Prod.Lex (· < ·) (· < ·) y x

/-- As long as the guard is not reopened, it lets a pair pass exactly if it is above the mark. -/
theorem GuardAfter.advances_iff (h : GuardAfter w s calls) (hfresh : s.txState = {})
    (hc : NotReopened (calls ++ [x])) :
    (Runs.run (guardCall w) s calls).txState.sealAdvances x.1 x.2 = true ↔
      HighWater.Passes (guardMark calls (Runs.run (guardCall w) s calls).txState)
        (stampOf x.1 x.2) := by
  unfold guardMark
  by_cases hnil : calls = []
  · rw [if_pos hnil, hnil, Runs.run_nil]
    have hopen : s.txState.lastSealedEpoch = noSealEpoch := by rw [hfresh]
    exact iff_of_true (OutboundSequenceState.sealAdvances_of_lt (.inl hopen)) HighWater.passes_none
  · rw [if_neg hnil, HighWater.passes_some]
    by_cases hopen : (Runs.run (guardCall w) s calls).txState.lastSealedEpoch = noSealEpoch
    · -- the guard is open, but what comes next is above the pair that opened it
      have hlast := (h.opened hopen).resolve_left hnil
      have hlt := (List.isChain_append.1 hc).2.2 _ hlast x rfl hopen
      rw [lex_iff_stampOf, OutboundSequenceState.stampOf_sealedPair] at hlt
      exact iff_of_true (OutboundSequenceState.sealAdvances_of_lt (.inl hopen)) hlt
    · unfold OutboundSequenceState.sealAdvances
      rw [beq_false_of_ne hopen, Bool.false_or, newer_iff_stampOf]
      rfl

/-- The step: one more call. -/
theorem GuardAfter.concat (h : GuardAfter w s calls) (hfresh : s.txState = {})
    (hc : NotReopened (calls ++ [x])) : GuardAfter w s (calls ++ [x]) := by
  have hadv := h.advances_iff hfresh hc
  have hmark := h.mark.next (stampOf x.1 x.2)
  have hrun : Runs.run (guardCall w) s (calls ++ [x]) =
      guardCall w (Runs.run (guardCall w) s calls) x := Runs.run_append calls [x]
  have hne : ¬calls ++ [x] = [] := by simp
  unfold HighWater.next at hmark
  cases ha : (Runs.run (guardCall w) s calls).txState.sealAdvances x.1 x.2 with
  | true =>
    obtain ⟨hp, ht⟩ := guardCall_pass (w := w) ha
    rw [if_pos (hadv.1 ha), if_pos (hadv.1 ha)] at hmark
    refine ⟨?_, fun _ => .inr ?_⟩
    · rw [guardPassed_concat, hp, guardMark, if_neg hne, hrun, ht]
      simpa using hmark
    · rw [hrun, ht, List.getLast?_concat]
      rfl
  | false =>
    obtain ⟨hp, ht⟩ := guardCall_refuse (w := w) ha
    have hno := mt hadv.2 (by simp [ha])
    rw [if_neg hno, if_neg hno] at hmark
    have hnil : calls ≠ [] := by
      rintro rfl
      exact hno HighWater.passes_none
    refine ⟨?_, fun hopen => ?_⟩
    · rw [guardPassed_concat, hp, guardMark, if_neg hne, hrun, ht]
      unfold guardMark at hmark
      rw [if_neg hnil] at hmark
      simpa using hmark
    · -- an open guard refuses nothing
      rw [hrun, ht] at hopen
      rw [OutboundSequenceState.sealAdvances_of_lt (.inl hopen)] at ha
      cases ha

/-- The induction over the calls. -/
theorem guardAfter (hfresh : s.txState = {}) (hc : NotReopened calls) : GuardAfter w s calls := by
  induction calls using List.reverseRecOn with
  | nil =>
    refine ⟨?_, fun _ => .inl rfl⟩
    exact HighWater.markOf_nil
  | append_singleton calls x ih =>
    exact (ih (List.isChain_append.1 hc).1).concat hfresh hc

/-- Where the guard is exact, what follows a pair of the largest epoch is above it: that pair
passes, and behind it everything does. -/
theorem GuardExact.above_noSealEpoch (h : GuardExact w s calls)
    {before after : List (UInt32 × UInt16)} (heq : calls = before ++ y :: x :: after)
    (hy : y.1 = noSealEpoch) : Prod.Lex (· < ·) (· < ·) y x := by
  obtain ⟨hp, ht⟩ := guardCall_pass (w := w) (s := Runs.run (guardCall w) s before)
    (sealAdvances_noSealEpoch hy)
  have hrun : (Runs.run (guardCall w) s (before ++ [y])).txState =
      (Runs.run (guardCall w) s before).txState.markSealed y.1 y.2 := by
    rw [Runs.run_append]
    exact ht
  have hx : guardPasses w (Runs.run (guardCall w) s (before ++ [y])) x = true := by
    rw [guardPasses_eq, hrun]
    exact OutboundSequenceState.sealAdvances_of_lt (.inl hy)
  rcases (h (before ++ [y]) x after (by rw [heq]; simp)).1.1 hx with hnil | habove
  · simp at hnil
  · refine habove y ?_
    rw [guardPassed_concat, hp]
    simp

/-- **The guard is exact on a sequence of calls if and only if a call of the largest epoch is only
followed by a call above it.** -/
theorem guardExact_iff (w : World) (s : Node) (calls : List (UInt32 × UInt16)) :
    GuardExact w { s with txState := {} } calls ↔
      calls.IsChain fun y x => y.1 = noSealEpoch → Prod.Lex (· < ·) (· < ·) y x := by
  constructor
  · intro h
    rw [List.isChain_iff_forall_rel_of_append_cons_cons]
    intro y x before after heq hy
    exact h.above_noSealEpoch heq hy
  · rintro hc before x after rfl
    have hcx : NotReopened (before ++ [x]) := (List.isChain_split.1 hc).1
    have hg := guardAfter (w := w) (s := { s with txState := {} }) rfl (List.isChain_append.1 hc).1
    refine ⟨?_, ?_⟩
    · rw [guardPasses_eq, hg.advances_iff rfl hcx, hg.mark.passes_iff]
      constructor
      · intro habove
        refine .inr fun y hy => lex_iff_stampOf.2 (habove _ ?_)
        exact List.mem_map_of_mem hy
      · rintro (rfl | habove) n hn
        · cases hn
        · obtain ⟨y, hy, rfl⟩ := List.mem_map.1 hn
          exact lex_iff_stampOf.1 (habove y hy)
    · intro hno
      rw [guardPasses_eq] at hno
      exact (guardCall_refuse hno).2

/-- **A pair of the largest epoch opens the guard**: a lower pair passes behind it. -/
theorem not_guardExact_reopened :
    ¬GuardExact (Sample.board.world (Sample.env 1 100)) {} [(noSealEpoch, 7), (1, 1)] := by
  intro h
  have hlex := h.above_noSealEpoch (show _ = [] ++ _ :: _ :: [] from rfl) rfl
  rw [lex_iff_stampOf] at hlex
  exact absurd hlex (by decide)

end LatticeMesh
