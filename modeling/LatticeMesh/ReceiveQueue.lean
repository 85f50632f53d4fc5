import LatticeMesh.Lib.Inbox
import LatticeMesh.Device

/-!
# The receive queue

Between the radio and the handler of received frames stands a ring buffer.  The receive callback
puts every frame that is long enough into it and notifies the mesh task; the mesh task sleeps until
it is notified and then takes frames until the buffer is empty.  The steps of the callback and of
the mesh task and the inputs of the other tasks follow each other in any order.  The handler of a
frame is one step, and so is an input of another task: that the tasks interrupt each other inside of
these is not part of the model.  The rest of this development works on the device alone, which takes
a received frame as an input like any other.

## Main definitions

* `Incoming` — what the radio hands to the receive callback.
* `MeshTransport`, `MeshTransport.step` — the device behind the ring buffer, and what can happen.
* `MeshTransport.Stranded` — frames wait, and nothing will make the mesh task look at them.

## Main results

* `MeshTransport.run_device` — **in every order of these steps the device behaves as one that takes
  the frames directly: each accepted frame once, and in the order in which the frames arrived.**
* `MeshTransport.not_stranded` — **once the mesh task is known to the callback, no frame that
  arrives is left in the buffer.**
-/

namespace LatticeMesh

/-- The size of a frame on the air, in bytes. -/
def messageSize : ℕ := 200

/-- What the radio hands to the receive callback: the sender, the number of bytes, and the frame
that the first `messageSize` bytes make up. -/
structure Incoming where
  srcMac : Mac
  len : ℕ
  msg : Message

/-- Whether the callback keeps what it was handed: a short frame is dropped. -/
def Incoming.isWhole (i : Incoming) : Bool := messageSize ≤ i.len

/-- An entry of the receive queue. -/
abbrev RecvQueueEntry := Mac × Message

/-- The entry for what the radio handed over. -/
def Incoming.entry (i : Incoming) : RecvQueueEntry := (i.srcMac, i.msg)

/-- The device behind the receive queue. -/
abbrev MeshTransport := Inbox Device RecvQueueEntry

namespace MeshTransport

/-- The transport of a device, with nothing received yet. -/
def ofDevice (d : Device) : MeshTransport := { worker := d }

/-- What can happen next. -/
inductive Action
  /-- The receive callback runs up to its notification; the ring buffer may have no space. -/
  | onDataRecvCallback (fits : Bool) (incoming : Incoming)
  /-- The receive callback notifies the mesh task, if it knows the task. -/
  | notifyGive
  /-- The boot tells the callback about the mesh task. -/
  | setDrainNotifyHandle
  /-- The mesh task returns from waiting for a notification. -/
  | notifyWait
  /-- The mesh task goes once around the loop of `drain`. -/
  | drain (e : Env)
  /-- Another task hands the device an input. -/
  | task (x : Env × Input)
  /-- The device restarts. -/
  | reboot (e : Env)

/-- The step of the queue behind an action; a short frame leads to none. -/
def Action.toInbox : Action → Option (Inbox.Action RecvQueueEntry Env (Env × Input))
  | .onDataRecvCallback fits i => if i.isWhole then some (.put fits i.entry) else none
  | .notifyGive => some .signal
  | .setDrainNotifyHandle => some .attach
  | .notifyWait => some .wake
  | .drain e => some (.take e)
  | .task x => some (.act x)
  | .reboot e => some (.restart (e, .boot))

/-- The device takes a frame from the queue. -/
def receive (b : Board) (d : Device) (e : Env) (q : RecvQueueEntry) : Device :=
  d.step b (e, .rx q.1 q.2)

/-- One step. -/
def step (b : Board) (t : MeshTransport) (a : Action) : MeshTransport :=
  match a.toInbox with
  | some a => Inbox.step (receive b) (Device.step b) t a
  | none => t

/-- A run. -/
def run (b : Board) (t : MeshTransport) (as : List Action) : MeshTransport := Runs.run (step b) t as

@[simp] theorem run_nil (b : Board) (t : MeshTransport) : run b t [] = t := rfl

@[simp] theorem run_cons (b : Board) (t : MeshTransport) (a : Action) (as : List Action) :
    run b t (a :: as) = run b (step b t a) as := rfl

theorem run_append (b : Board) (t : MeshTransport) (as bs : List Action) :
    run b t (as ++ bs) = run b (run b t as) bs := Runs.run_append as bs

variable {b : Board} {t : MeshTransport} {as : List Action}

/-- A run is a run of the queue. -/
theorem run_eq (t : MeshTransport) (as : List Action) :
    run b t as = Inbox.run (receive b) (Device.step b) t (as.filterMap Action.toInbox) := by
  induction as generalizing t with
  | nil => rfl
  | cons a as ih =>
    rw [run_cons, ih, step]
    cases h : a.toInbox with
    | none => rw [List.filterMap_cons_none h]
    | some x => rw [List.filterMap_cons_some h, Inbox.run_cons]

/-! ### What the device does -/

/-- The whole frames that arrived, in order. -/
def arrived (as : List Action) : List RecvQueueEntry :=
  as.filterMap fun
    | .onDataRecvCallback _ i => if i.isWhole then some i.entry else none
    | _ => none

/-- What the other tasks hand to the device, in order. -/
def handed (as : List Action) : List (Env × Input) :=
  as.filterMap fun
    | .task x => some x
    | .reboot e => some (e, .boot)
    | _ => none

/-- The frames that went into the buffer, in order. -/
def queued (b : Board) (t : MeshTransport) (as : List Action) : List RecvQueueEntry :=
  t.accepted (receive b) (Device.step b) (as.filterMap Action.toInbox)

/-- An input of the device: a frame from the queue, or what another task hands over. -/
def toInput : Env × RecvQueueEntry ⊕ Env × Input → Env × Input
  | .inl (e, q) => (e, .rx q.1 q.2)
  | .inr x => x

theorem foldl_perform (d : Device) (ws : List (Env × RecvQueueEntry ⊕ Env × Input)) :
    ws.foldl (Inbox.perform (receive b) (Device.step b)) d = d.run b (ws.map toInput) := by
  induction ws generalizing d with
  | nil => rfl
  | cons w ws ih => cases w <;> exact ih _

theorem offered_eq_arrived (as : List Action) :
    Inbox.offered (as.filterMap Action.toInbox) = arrived as := by
  induction as with
  | nil => rfl
  | cons a as ih =>
    cases a with
    | onDataRecvCallback fits i =>
      cases h : i.isWhole with
      | false => simpa [Action.toInbox, arrived, h] using ih
      | true => simpa [Action.toInbox, arrived, h, Inbox.offered] using ih
    | _ => simpa [Action.toInbox, arrived, Inbox.offered] using ih

/-- What the other tasks hand over is done as it is handed over. -/
theorem work_getRight (t : MeshTransport) (as : List Action) :
    (t.work (receive b) (Device.step b) (as.filterMap Action.toInbox)).filterMap Sum.getRight? =
      handed as := by
  induction as generalizing t with
  | nil => rfl
  | cons a as ih =>
    have hinl : ∀ l : List (Env × RecvQueueEntry),
        (l.map Sum.inl).filterMap (Sum.getRight? (α := Env × RecvQueueEntry) (β := Env × Input)) =
          [] := by
      intro l
      simp [List.filterMap_map, Function.comp_def]
    cases a with
    | onDataRecvCallback fits i =>
      cases h : i.isWhole with
      | false => simpa [Action.toInbox, handed, h] using ih t
      | true => simpa [Action.toInbox, handed, h, Inbox.work, Inbox.workBy, hinl] using ih _
    | _ => simpa [Action.toInbox, handed, Inbox.work, Inbox.workBy, hinl] using ih _

/-- A step of the queue is a restart only if the device reboots. -/
theorem isRestart_of_mem {x : Inbox.Action RecvQueueEntry Env (Env × Input)}
    (hr : ∀ e, Action.reboot e ∉ as) (hx : x ∈ as.filterMap Action.toInbox) :
    x.isRestart = false := by
  obtain ⟨a, ha, hax⟩ := List.mem_filterMap.1 hx
  cases a with
  | reboot e => exact absurd ha (hr e)
  | onDataRecvCallback fits i =>
    simp only [Action.toInbox, Option.ite_none_right_eq_some, Option.some.injEq] at hax
    rw [← hax.2]
    rfl
  | _ =>
    simp only [Action.toInbox, Option.some.injEq] at hax
    rw [← hax]
    rfl

/-- **In every order of steps the device behaves as one that takes the frames directly**, where each
handler of a frame and each input of another task runs without interruption.  The inputs of the
device are the frames that the mesh task took and what the other tasks handed over, the latter all
of it and in order; the former are some of the whole frames that arrived, in the order in which they
arrived and none twice.  Without a reboot the frames that were taken and the ones that still wait
are exactly the ones that the buffer had space for. -/
theorem run_device (b : Board) (d : Device) (as : List Action) :
    ∃ ws : List (Env × RecvQueueEntry ⊕ Env × Input),
      (run b (ofDevice d) as).worker = d.run b (ws.map toInput) ∧
      ws.filterMap Sum.getRight? = handed as ∧
      ((ws.filterMap Sum.getLeft?).map Prod.snd).Sublist (queued b (ofDevice d) as) ∧
      (queued b (ofDevice d) as).Sublist (arrived as) ∧
      ((∀ e, Action.reboot e ∉ as) →
        (ws.filterMap Sum.getLeft?).map Prod.snd ++ (run b (ofDevice d) as).queue =
          queued b (ofDevice d) as) := by
  refine ⟨(ofDevice d).work (receive b) (Device.step b) (as.filterMap Action.toInbox),
    ?_, work_getRight _ _, ?_, ?_, ?_⟩
  · rw [run_eq, Inbox.worker_run, foldl_perform]
    rfl
  · rw [← Inbox.taken_eq_filterMap]
    exact Inbox.taken_sublist (ofDevice d) _
  · rw [← offered_eq_arrived]
    exact Inbox.accepted_sublist (ofDevice d) _
  · intro hr
    rw [← Inbox.taken_eq_filterMap, run_eq]
    exact (Inbox.queue_run (ofDevice d) fun x hx => isRestart_of_mem hr hx).symm

/-! ### Wake-ups -/

/-- Frames wait in the buffer, but the mesh task sleeps, no notification is pending and the callback
is not about to send one. -/
def Stranded (t : MeshTransport) : Prop :=
  t.queue ≠ [] ∧ t.draining = false ∧ t.signalled = false ∧ t.posting = false

/-- What the mesh task does when it runs alone: it wakes up and takes `n + 1` rounds. -/
def drainAll (e : Env) (n : ℕ) : List Action := .notifyWait :: List.replicate (n + 1) (.drain e)

theorem attached_run (h : t.attached = true) (hr : ∀ e, Action.reboot e ∉ as) :
    (run b t as).attached = true := by
  induction as generalizing t with
  | nil => exact h
  | cons a as ih =>
    refine ih ?_ fun e he => hr e (List.mem_cons_of_mem a he)
    cases a with
    | reboot e => exact absurd List.mem_cons_self (hr e)
    | onDataRecvCallback fits i =>
      cases hw : i.isWhole <;> cases hp : t.posting <;>
        simp [step, Action.toInbox, Inbox.step, hw, hp, h]
    | notifyGive => cases hp : t.posting <;> simp [step, Action.toInbox, Inbox.step, hp, h]
    | setDrainNotifyHandle => rfl
    | notifyWait =>
      cases hp : t.signalled && !t.draining <;> simp [step, Action.toInbox, Inbox.step, hp, h]
    | drain e =>
      cases hd : t.draining <;> cases hq : t.queue <;>
        simp [step, Action.toInbox, Inbox.step, hd, hq, h]
    | task x => exact h

theorem foldl_receive (e : Env) (d : Device) (qs : List RecvQueueEntry) :
    qs.foldl (receive b · e ·) d = d.run b (qs.map fun q => (e, .rx q.1 q.2)) := by
  induction qs generalizing d with
  | nil => rfl
  | cons q qs ih => exact ih _

/-- An awake mesh task that runs alone handles every frame in the buffer, in order. -/
theorem run_drainAll (h : Inbox.Awake t) (hp : t.posting = false) (e : Env) :
    (run b t (drainAll e t.queue.length)).queue = [] ∧
      (run b t (drainAll e t.queue.length)).worker =
        t.worker.run b (t.queue.map fun q => (e, .rx q.1 q.2)) := by
  have hmap : (List.replicate (t.queue.length + 1) (Action.drain e)).filterMap Action.toInbox =
      List.replicate (t.queue.length + 1) (.take e) := by
    rw [List.filterMap_replicate_of_some]
    rfl
  -- The wait only decides whether the task goes around its loop at all.
  have hwait : (step b t .notifyWait).queue = t.queue ∧
      (step b t .notifyWait).worker = t.worker := by
    cases hw : t.signalled && !t.draining <;> simp [step, Action.toInbox, Inbox.step, hw]
  rw [drainAll, run_cons, run_eq, hmap]
  cases hd : (step b t .notifyWait).draining with
  | true =>
    obtain ⟨hq, -, hworker⟩ := Inbox.run_take (receive b) (Device.step b) e hwait.1 hd
    exact ⟨hq, by rw [hworker, hwait.2, foldl_receive]⟩
  | false =>
    have hnone : t.queue = [] := by
      by_contra hq
      rcases h.heard hq with hh | hh | hh
      · simp [step, Action.toInbox, Inbox.step, hh] at hd
      · cases hd' : t.draining <;> simp [step, Action.toInbox, Inbox.step, hh, hd'] at hd
      · rw [hp] at hh
        cases hh
    rw [Inbox.run_take_asleep _ _ e _ hd, hwait.1, hwait.2, hnone]
    exact ⟨rfl, rfl⟩

/-- **Once the callback knows the mesh task, no frame is left in the buffer from the next whole
frame on:** a task that sleeps with frames in the buffer has a notification to see, or the callback
is about to send one; and when the task then runs, it hands all of them to the device, in order. -/
theorem not_stranded (b : Board) (d : Device) (pre mid post : List Action) (fits : Bool)
    (i : Incoming) (hi : i.isWhole = true)
    (hr : ∀ e, Action.reboot e ∉ mid ++ .onDataRecvCallback fits i :: post) :
    let t := run b (ofDevice d)
      (pre ++ .setDrainNotifyHandle :: (mid ++ .onDataRecvCallback fits i :: post))
    ¬ Stranded t ∧ (t.posting = false → ∀ e,
      (run b t (drainAll e t.queue.length)).queue = [] ∧
      (run b t (drainAll e t.queue.length)).worker =
        t.worker.run b (t.queue.map fun q => (e, .rx q.1 q.2))) := by
  intro t
  have hmid : ∀ e, Action.reboot e ∉ mid := fun e he => hr e (List.mem_append_left _ he)
  have hpost : ∀ e, Action.reboot e ∉ post := fun e he =>
    hr e (List.mem_append_right _ (List.mem_cons_of_mem _ he))
  have hawake : Inbox.Awake t := by
    have ht : t = run b (step b (run b (step b (run b (ofDevice d) pre) .setDrainNotifyHandle) mid)
        (.onDataRecvCallback fits i)) post := by
      simp only [t, run_append, run_cons]
    have hat : (run b (step b (run b (ofDevice d) pre) .setDrainNotifyHandle) mid).attached =
        true := attached_run rfl hmid
    rw [ht, run_eq]
    refine Inbox.awake_run ?_ fun x hx => isRestart_of_mem hpost hx
    simp only [step, Action.toInbox, hi, if_true]
    exact Inbox.awake_put hat fits i.entry
  refine ⟨?_, fun hp e => run_drainAll hawake hp e⟩
  rintro ⟨hq, hd, hs, hp⟩
  rcases hawake.heard hq with h | h | h
  · rw [hd] at h
    cases h
  · rw [hs] at h
    cases h
  · rw [hp] at h
    cases h

/-- A whole frame arrives, or the device restarts. -/
def Action.rouses : Action → Bool
  | .onDataRecvCallback _ i => i.isWhole
  | .reboot _ => true
  | _ => false

/-- Nothing makes the mesh task look at the buffer. -/
structure Dormant (t : MeshTransport) : Prop where
  draining : t.draining = false
  signalled : t.signalled = false
  posting : t.posting = false

theorem Dormant.step {a : Action} (h : Dormant t) (ha : a.rouses = false) :
    Dormant (step b t a) ∧ (step b t a).queue = t.queue := by
  obtain ⟨hd, hs, hp⟩ := h
  cases a with
  | onDataRecvCallback fits i =>
    simp only [Action.rouses] at ha
    simp [MeshTransport.step, Action.toInbox, ha, Dormant.mk hd hs hp]
  | reboot e => exact absurd ha (by simp [Action.rouses])
  | setDrainNotifyHandle => exact ⟨⟨hd, hs, hp⟩, rfl⟩
  | task x => exact ⟨⟨hd, hs, hp⟩, rfl⟩
  | _ => simp [MeshTransport.step, Action.toInbox, Inbox.step, hd, hs, hp, Dormant.mk hd hs hp]

/-- A frame that came before the callback knew the mesh task waits for the next frame to arrive:
whatever else happens, until then the buffer stays as it is. -/
theorem dormant_run (h : Dormant t) (ha : ∀ a ∈ as, a.rouses = false) :
    Dormant (run b t as) ∧ (run b t as).queue = t.queue := by
  induction as generalizing t with
  | nil => exact ⟨h, rfl⟩
  | cons a as ih =>
    obtain ⟨hdormant, hqueue⟩ := h.step (b := b) (ha a List.mem_cons_self)
    obtain ⟨hrest, hrestQueue⟩ := ih hdormant fun x hx => ha x (List.mem_cons_of_mem a hx)
    exact ⟨hrest, hrestQueue.trans hqueue⟩

end MeshTransport

namespace Sample

/-- The beacon of the master as the radio hands it over. -/
def heardBeacon : Incoming := ⟨mac 7, 200, beacon⟩

/-- The callback of a leaf learns about the mesh task, then a beacon arrives. -/
def notified : List MeshTransport.Action :=
  [.setDrainNotifyHandle, .onDataRecvCallback true heardBeacon, .notifyGive]

end Sample

namespace MeshTransport

/-- The beacon that is heard after the boot is not left in the buffer. -/
theorem not_stranded_beacon : ¬ Stranded (run Sample.board (ofDevice (Device.blank {}))
    Sample.notified) :=
  (not_stranded Sample.board (Device.blank {}) [] [] [.notifyGive] true Sample.heardBeacon
    (by decide) (by simp)).1

end MeshTransport

end LatticeMesh
