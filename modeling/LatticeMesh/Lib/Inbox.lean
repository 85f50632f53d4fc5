import LatticeMesh.Lib.Runs
import Mathlib.Data.Nat.Notation

/-!
# A worker behind an inbox

A producer puts messages into a bounded first-in first-out queue and then signals a worker, which
sleeps until it is signalled and then takes messages until the queue is empty.  The two interleave
freely, between any two of their steps other programs may change what the worker works on, and a
restart throws the queue away.

## Main definitions

* `Inbox`, `Inbox.Action`, `Inbox.step` — the queue with its worker, and the steps of both.
* `Inbox.work` — what the worker and the other programs did in a run, in order.
* `Inbox.accepted`, `Inbox.taken` — the messages that went into the queue, and that came out.
* `Inbox.Awake` — the messages in the queue will be looked at.

## Main results

* `Inbox.worker_run` — the worker did what `work` lists, and nothing else.
* `Inbox.queue_run` — **what went in is what came out and what is still there, in order.**
* `Inbox.awake_run` — **no wake-up is lost.**
-/

/-- A worker of state `σ` behind a queue of messages `α`. -/
structure Inbox (σ α : Type*) where
  worker : σ
  queue : List α := []
  /-- The worker takes messages; otherwise it sleeps. -/
  draining : Bool := false
  /-- A signal that the worker has not seen yet. -/
  signalled : Bool := false
  /-- The producer is between putting a message and signalling. -/
  posting : Bool := false
  /-- The producer knows whom to signal. -/
  attached : Bool := false

namespace Inbox

variable {σ α ε ι : Type*}

/-- What can happen next. -/
inductive Action (α ε ι : Type*)
  /-- The producer offers a message, for which the queue may have no space. -/
  | put (fits : Bool) (a : α)
  /-- The producer signals the worker. -/
  | signal
  /-- The producer is told whom to signal. -/
  | attach
  /-- The worker sees a signal. -/
  | wake
  /-- The worker takes the oldest message, or goes to sleep if there is none. -/
  | take (e : ε)
  /-- Another program acts. -/
  | act (i : ι)
  /-- Another program acts, and everything starts over. -/
  | restart (i : ι)

section

variable (consume : σ → ε → α → σ) (act : σ → ι → σ)

/-- One step.  A step that is not possible changes nothing. -/
def step (s : Inbox σ α) : Action α ε ι → Inbox σ α
  | .put fits a =>
    if s.posting then s
    else { s with queue := if fits then s.queue ++ [a] else s.queue, posting := true }
  | .signal =>
    if s.posting then { s with posting := false, signalled := s.signalled || s.attached } else s
  | .attach => { s with attached := true }
  | .wake =>
    if s.signalled && !s.draining then { s with draining := true, signalled := false } else s
  | .take e =>
    if s.draining then
      match s.queue with
      | [] => { s with draining := false }
      | a :: queue => { s with worker := consume s.worker e a, queue := queue }
    else s
  | .act i => { s with worker := act s.worker i }
  | .restart i => { worker := act s.worker i }

/-- A run. -/
def run (s : Inbox σ α) (as : List (Action α ε ι)) : Inbox σ α := Runs.run (step consume act) s as

@[simp] theorem run_nil (s : Inbox σ α) :
    s.run consume act ([] : List (Action α ε ι)) = s := rfl

@[simp] theorem run_cons (s : Inbox σ α) (a : Action α ε ι) (as : List (Action α ε ι)) :
    s.run consume act (a :: as) = (s.step consume act a).run consume act as := rfl

theorem run_append (s : Inbox σ α) (as bs : List (Action α ε ι)) :
    s.run consume act (as ++ bs) = (s.run consume act as).run consume act bs :=
  Runs.run_append as bs

/-! ### What came in and what came out -/

/-- The message that a step puts into the queue. -/
def putBy (s : Inbox σ α) : Action α ε ι → List α
  | .put fits a => if !s.posting && fits then [a] else []
  | _ => []

/-- The message that a step takes from the queue, and with what. -/
def takenBy (s : Inbox σ α) : Action α ε ι → List (ε × α)
  | .take e => if s.draining then s.queue.head?.toList.map (e, ·) else []
  | _ => []

/-- What a step does to what the worker works on: it consumes a message, or another program acts. -/
def workBy (s : Inbox σ α) : Action α ε ι → List (ε × α ⊕ ι)
  | .act i => [.inr i]
  | .restart i => [.inr i]
  | a => (s.takenBy a).map .inl

/-- The messages that went into the queue in a run. -/
def accepted (s : Inbox σ α) : List (Action α ε ι) → List α
  | [] => []
  | a :: as => s.putBy a ++ accepted (s.step consume act a) as

/-- The messages that the worker took in a run. -/
def taken (s : Inbox σ α) : List (Action α ε ι) → List (ε × α)
  | [] => []
  | a :: as => s.takenBy a ++ taken (s.step consume act a) as

/-- What was done in a run to what the worker works on. -/
def work (s : Inbox σ α) : List (Action α ε ι) → List (ε × α ⊕ ι)
  | [] => []
  | a :: as => s.workBy a ++ work (s.step consume act a) as

/-- One piece of that work. -/
def perform (w : σ) : ε × α ⊕ ι → σ
  | .inl (e, a) => consume w e a
  | .inr i => act w i

/-- The messages that a run offers. -/
def offered : List (Action α ε ι) → List α
  | [] => []
  | .put _ a :: as => a :: offered as
  | _ :: as => offered as

/-- Whether a step starts everything over. -/
def Action.isRestart : Action α ε ι → Bool
  | .restart _ => true
  | _ => false

end

variable {consume : σ → ε → α → σ} {act : σ → ι → σ} {s : Inbox σ α} {a : Action α ε ι}
  {as : List (Action α ε ι)}

theorem worker_step (s : Inbox σ α) (a : Action α ε ι) :
    (s.step consume act a).worker = (s.workBy a).foldl (perform consume act) s.worker := by
  cases a with
  | put fits a => cases h : s.posting <;> simp [step, workBy, takenBy, h]
  | signal => cases h : s.posting <;> simp [step, workBy, takenBy, h]
  | wake => cases h : s.signalled && !s.draining <;> simp [step, workBy, takenBy, h]
  | take e =>
    cases hd : s.draining with
    | false => simp [step, workBy, takenBy, hd]
    | true => cases hq : s.queue <;> simp [step, workBy, takenBy, hd, hq, perform]
  | attach => rfl
  | act i => rfl
  | restart i => rfl

/-- **The worker did what the run lists, in that order.** -/
theorem worker_run (s : Inbox σ α) (as : List (Action α ε ι)) :
    (s.run consume act as).worker =
      (s.work consume act as).foldl (perform consume act) s.worker := by
  induction as generalizing s with
  | nil => rfl
  | cons a as ih =>
    rw [run_cons, ih, worker_step, work, List.foldl_append]

/-- The messages that were consumed are the ones that were taken. -/
theorem taken_eq_filterMap (s : Inbox σ α) (as : List (Action α ε ι)) :
    s.taken consume act as = (s.work consume act as).filterMap Sum.getLeft? := by
  induction as generalizing s with
  | nil => rfl
  | cons a as ih =>
    have hstep : s.takenBy a = (s.workBy a).filterMap Sum.getLeft? := by
      cases a <;> simp [takenBy, workBy, List.filterMap_map, Function.comp_def]
    rw [taken, work, List.filterMap_append, ih, hstep]

variable (consume act) in
/-- One step moves a message from one end of the queue to the other. -/
theorem queue_step (s : Inbox σ α) (h : a.isRestart = false) :
    s.queue ++ s.putBy a = (s.takenBy a).map Prod.snd ++ (s.step consume act a).queue := by
  cases a with
  | put fits a => cases hp : s.posting <;> cases fits <;> simp [step, putBy, takenBy, hp]
  | signal => cases hp : s.posting <;> simp [step, putBy, takenBy, hp]
  | wake => cases hw : s.signalled && !s.draining <;> simp [step, putBy, takenBy, hw]
  | take e =>
    cases hd : s.draining with
    | false => simp [step, putBy, takenBy, hd]
    | true => cases hq : s.queue <;> simp [step, putBy, takenBy, hd, hq]
  | attach => simp [step, putBy, takenBy]
  | act i => simp [step, putBy, takenBy]
  | restart i => exact absurd h (by simp [Action.isRestart])

/-- **Without a restart, what was in the queue and what went in is what came out and what is still
there, in order.** -/
theorem queue_run (s : Inbox σ α) (h : ∀ a ∈ as, a.isRestart = false) :
    s.queue ++ s.accepted consume act as =
      (s.taken consume act as).map Prod.snd ++ (s.run consume act as).queue := by
  induction as generalizing s with
  | nil => simp [accepted, taken]
  | cons a as ih =>
    have hstep := queue_step consume act s (h a List.mem_cons_self)
    rw [accepted, taken, run_cons, List.map_append, ← List.append_assoc, hstep, List.append_assoc,
      ih _ fun b hb => h b (List.mem_cons_of_mem a hb), List.append_assoc]

/-- A restart loses what is in the queue, but nothing is taken twice or out of order. -/
theorem taken_sublist (s : Inbox σ α) (as : List (Action α ε ι)) :
    ((s.taken consume act as).map Prod.snd).Sublist (s.queue ++ s.accepted consume act as) := by
  induction as generalizing s with
  | nil => simp [taken]
  | cons a as ih =>
    rw [taken, accepted, List.map_append, ← List.append_assoc]
    cases hr : a.isRestart with
    | false =>
      rw [queue_step consume act s hr, List.append_assoc]
      exact (ih _).append_left _
    | true =>
      -- The queue behind the restart is empty, so what is taken later was put in later.
      obtain ⟨i, rfl⟩ : ∃ i, a = .restart i := by
        cases a <;> simp [Action.isRestart] at hr
        exact ⟨_, rfl⟩
      have hlater := ih (s.step consume act (.restart i))
      simp only [takenBy, putBy, List.map_nil, List.nil_append, List.append_nil] at hlater ⊢
      exact hlater.trans (List.sublist_append_right _ _)

/-- What went into the queue was offered, in that order. -/
theorem accepted_sublist (s : Inbox σ α) (as : List (Action α ε ι)) :
    (s.accepted consume act as).Sublist (offered as) := by
  induction as generalizing s with
  | nil => exact List.Sublist.refl _
  | cons a as ih =>
    cases a with
    | put fits a =>
      cases hp : !s.posting && fits <;> simp only [accepted, putBy, hp, offered]
      · exact (ih _).cons a
      · exact (ih _).cons_cons a
    | _ => exact ih _

/-! ### Wake-ups -/

/-- The messages in the queue will be looked at: the worker is taking them, or it has been
signalled, or the producer is about to signal it. -/
structure Awake (s : Inbox σ α) : Prop where
  attached : s.attached = true
  heard : s.queue ≠ [] → s.draining = true ∨ s.signalled = true ∨ s.posting = true

/-- **No step loses a wake-up.** -/
theorem Awake.step (h : s.Awake) (hr : a.isRestart = false) : (s.step consume act a).Awake := by
  obtain ⟨hat, hq⟩ := h
  cases a with
  | put fits a =>
    cases hp : s.posting with
    | true => simpa [Inbox.step, hp] using Awake.mk hat hq
    | false => exact ⟨by simp [Inbox.step, hp, hat], by simp [Inbox.step, hp]⟩
  | signal =>
    cases hp : s.posting with
    | false => simpa [Inbox.step, hp] using Awake.mk hat hq
    | true => exact ⟨by simp [Inbox.step, hp, hat], by simp [Inbox.step, hp, hat]⟩
  | attach => exact ⟨rfl, hq⟩
  | wake =>
    cases hw : s.signalled && !s.draining with
    | false => simpa [Inbox.step, hw] using Awake.mk hat hq
    | true => exact ⟨by simp [Inbox.step, hw, hat], by simp [Inbox.step, hw]⟩
  | take e =>
    cases hd : s.draining with
    | false => simpa [Inbox.step, hd] using Awake.mk hat hq
    | true =>
      -- The worker only goes to sleep when it found nothing to take.
      cases hs : s.queue with
      | nil => exact ⟨by simp [Inbox.step, hd, hs, hat], by simp [Inbox.step, hd, hs]⟩
      | cons b queue => exact ⟨by simp [Inbox.step, hd, hs, hat], by simp [Inbox.step, hd, hs]⟩
  | act i => exact ⟨hat, hq⟩
  | restart i => exact absurd hr (by simp [Action.isRestart])

/-- **In a run without restarts no wake-up is lost.** -/
theorem awake_run (h : s.Awake) (hr : ∀ a ∈ as, a.isRestart = false) :
    (s.run consume act as).Awake := by
  induction as generalizing s with
  | nil => exact h
  | cons a as ih =>
    exact ih (h.step (hr a List.mem_cons_self)) fun b hb => hr b (List.mem_cons_of_mem a hb)

/-- A producer that knows whom to signal wakes the worker with the first message that it offers,
whether or not the queue has space for it. -/
theorem awake_put (hat : s.attached = true) (fits : Bool) (b : α) :
    (s.step consume act (.put fits b : Action α ε ι)).Awake := by
  cases hp : s.posting with
  | true => exact ⟨by simp [Inbox.step, hp, hat], by simp [Inbox.step, hp]⟩
  | false => exact ⟨by simp [Inbox.step, hp, hat], by simp [Inbox.step, hp]⟩

variable (consume act) in
/-- **A worker that takes messages consumes all of them in order, and goes to sleep.** -/
theorem run_take (e : ε) {queue : List α} (hq : s.queue = queue) (hd : s.draining = true) :
    let t := s.run consume act (List.replicate (queue.length + 1) (.take e : Action α ε ι))
    t.queue = [] ∧ t.draining = false ∧ t.worker = queue.foldl (consume · e ·) s.worker := by
  induction queue generalizing s with
  | nil => simp [Inbox.step, hd, hq]
  | cons b queue ih =>
    have hstep : s.step consume act (.take e : Action α ε ι) =
        { s with worker := consume s.worker e b, queue := queue } := by
      simp [Inbox.step, hd, hq]
    simp only [List.length_cons, List.replicate_succ, run_cons, List.foldl_cons]
    rw [hstep]
    exact ih rfl hd

variable (consume act) in
/-- A worker that sleeps takes nothing. -/
theorem run_take_asleep (e : ε) (n : ℕ) (hd : s.draining = false) :
    s.run consume act (List.replicate n (.take e : Action α ε ι)) = s := by
  induction n with
  | zero => rfl
  | succ n ih => simpa [List.replicate_succ, Inbox.step, hd] using ih

end Inbox
