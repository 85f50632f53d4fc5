import LatticeMesh.AdapterBoot
import LatticeMesh.Approval
import LatticeMesh.BootOrder
import LatticeMesh.Reenrollment

/-!
# The requests for the server

A master queues the enrollment requests that it takes in, and the next round of housekeeping writes
them to the serial line.  Nothing else a device does touches the queue, and a restart empties it.

## Main definitions

* `Node.asked` — the requests that the server saw and those that wait for it, in order.
* `Device.taken` — the request that a device takes in a step.

## Main results

* `Device.asked_step` — a step adds the request that it takes, a restart drops those that wait.
* `Device.asked_run` — **no request is lost, doubled or overtaken on the way to the server**, and
  over restarts the server sees a part of them, in their order.
-/

namespace LatticeMesh

open EffectSpec

variable {w : World} {s t : Node} {m : Message}

/-- The requests that the server saw and those that wait for it, the oldest first. -/
def Node.asked (s : Node) : List (Mac × Key) := s.relayed.reverse ++ s.enrollment.relayQueue

theorem asked_congr (h : t.requests = s.requests) : t.asked = s.asked := by
  obtain ⟨hqueue, hrelayed⟩ := Prod.mk.inj h
  unfold Node.asked
  rw [hqueue, hrelayed]

/-! ### What leaves the requests alone -/

theorem keeps_requests_sendBroadcast (m : Message) : Keeps Node.requests (sendBroadcast w m) := by
  refine .bind (.read_bind fun s => .ite (fun _ => ?_) fun _ => .ret _) fun _ => .ret _
  exact .bind (.update fun _ => rfl) fun _ => .ret _

theorem keeps_requests_tickBeaconRelay : Keeps Node.requests (tickBeaconRelay w) := by
  refine .read_bind fun s => .ite (fun _ => ?_) fun _ => .ret _
  exact .bind (.update fun _ => rfl) fun _ => keeps_requests_sendBroadcast _

theorem keeps_requests_broadcastMasterBeacon :
    Keeps Node.requests (broadcastMasterBeacon w) := by
  refine .read_bind fun s => .ite (fun _ => .ret _) fun _ => .bind (.update fun _ => rfl)
    fun _ => ?_
  exact keeps_buildMessage_bind fun _ _ _ => keeps_requests_sendBroadcast _

theorem keeps_requests_checkTimeout : Keeps Node.requests (checkTimeout w) := by
  refine .update fun s => ?_
  split
  · rfl
  · split <;> rfl

theorem keeps_requests_tickConfig : Keeps Node.requests (tickConfig w) := by
  refine .read_bind fun s => .ite (fun _ => .update fun _ => rfl) fun _ => ?_
  exact .bind (keeps_nvsSave _ _) fun _ => .bind (keeps_emit rfl) fun _ => .raise _

/-- A boot leaves the requests alone that the server saw. -/
theorem keeps_requests_initSubsystems : Keeps Node.requests (initSubsystems w) := by
  refine .bind (.update fun _ => rfl) fun _ => .bind keeps_bootstrapPeers fun _ =>
    .bind ?_ fun _ => ?_
  · refine .read_bind fun s => .ite (fun _ => .ret _) fun _ => ?_
    exact .ite (fun _ => keeps_nvsSave _ _) fun _ => .ret _
  · exact .bind keeps_createAdapter fun _ => .bind keeps_initMesh fun _ => .update fun _ => rfl

/-- So does a received frame, unless it is a request that gets through at a master. -/
theorem wp_handleReceivedMessage_requests {srcMac : Mac}
    (h : s.isMaster = true → m.messageType = MessageType.enrollment → passesChecks w s m = false) :
    wp (handleReceivedMessage w srcMac m) (fun _ t => t.requests = s.requests)
      (fun _ t => t.requests = s.requests) s := by
  by_cases htype : m.messageType = MessageType.enrollment
  swap
  · have hkeeps : Keeps Node.requests (handleReceivedMessage w srcMac m) := by
      rw [← handleReceivedMessageTo_deliver]
      exact keeps_handleReceivedMessageTo keeps_deliver fun he => absurd he htype
    exact hkeeps s
  rw [← handleReceivedMessageTo_deliver]
  unfold wp
  cases hpass : passesChecks w s m with
  | false =>
    rw [handleReceivedMessageTo_of_not_passes hpass]
  | true =>
    have hleaf : s.isMaster = false := by
      rw [← Bool.not_eq_true]
      intro hm
      rw [h hm htype] at hpass
      cases hpass
    have hdisp : dispatchMessage w m = processEnrollment w m := if_pos htype
    rw [handleReceivedMessageTo_of_passes hpass, dispatchMessageTo_deliver, hdisp]
    show wp (processEnrollment w m) _ _ (s.received w srcMac m)
    unfold processEnrollment
    rw [wp_bind, wp_get, if_neg (by simp [Node.received, hleaf])]
    exact keeps_relayEnrollmentUplink (f := Node.requests) (htype.trans_ne (by decide))
      (s.received w srcMac m)

/-! ### What does not -/

/-- A round of housekeeping passes the requests on. -/
theorem wp_loop_asked : wp (loop w) (fun _ t => t.asked = s.asked ∧ t.enrollment.relayQueue = [])
    (fun _ t => t.asked = s.asked) s := by
  have hrest : ∀ u : Node, u.asked = s.asked → u.enrollment.relayQueue = [] →
      wp (do
        tickRouteReport w
        tickBeaconRelay w
        let s ← get
        if s.isMaster then broadcastMasterBeacon w else pure () : MeshM Unit)
        (fun _ t => t.asked = s.asked ∧ t.enrollment.relayQueue = []) (fun _ t => t.asked = s.asked)
        u := by
    intro u hu hq
    have hkeeps : Keeps Node.requests (do
        tickRouteReport w
        tickBeaconRelay w
        let s ← get
        if s.isMaster then broadcastMasterBeacon w else pure () : MeshM Unit) := by
      refine .bind keeps_tickRouteReport fun _ => .bind keeps_requests_tickBeaconRelay fun _ => ?_
      exact .read_bind fun s => .ite (fun _ => keeps_requests_broadcastMasterBeacon) fun _ => .ret _
    refine wp_mono _ (fun _ t ht => ⟨(asked_congr ht).trans hu, ?_⟩) (fun _ t ht => ?_) (hkeeps u)
    · exact (congrArg Prod.fst ht).trans hq
    · exact (asked_congr ht).trans hu
  unfold loop
  rw [wp_bind]
  refine wp_mono _ (fun _ u hu => ?_) (fun _ _ hf => hf.elim) wp_drainPendingRelay
  obtain ⟨-, -, hrelayed, hqueue⟩ := hu
  refine hrest u ?_ hqueue
  unfold Node.asked
  rw [hrelayed, hqueue, List.reverse_append, List.reverse_reverse, List.append_nil]

/-- A request at a master goes behind the others, if the buffer takes it. -/
theorem wp_processEnrollment_asked (hm : s.isMaster = true) :
    wp (processEnrollment w m) (fun _ t => t.asked = s.asked ++
      if w.ringbufAccepts s.enrollment.relayQueue.length = true then
        [(m.originMac, m.enrollmentPublicKey)] else []) (fun _ t => t.asked = s.asked) s := by
  unfold processEnrollment
  rw [wp_bind, wp_get, if_pos hm, wp_bind]
  refine wp_mono _ (fun _ u hu => ?_) (fun _ u hu => asked_congr hu)
    (keeps_registerPeerWithKey (f := Node.requests) _ _ _ s)
  have hqueue : u.enrollment.relayQueue = s.enrollment.relayQueue := congrArg Prod.fst hu
  have hasked : u.asked = s.asked := asked_congr hu
  unfold processRequest
  rw [wp_bind, wp_get, hqueue]
  split
  · rw [wp_modify, ← hasked]
    unfold Node.asked
    show u.relayed.reverse ++ (u.enrollment.relayQueue ++ _) = _
    rw [List.append_assoc]
  · rw [wp_pure, List.append_nil]
    exact hasked

/-! ### Runs -/

namespace Device

variable {b : Board} {d : Device} {e : Env} {i : Input} {xs : List (Env × Input)}

/-- The request that a device takes in a step: one that passes the checks of a running master whose
buffer has room. -/
def taken (b : Board) (d : Device) : Env × Input → List (Mac × Key)
  | (e, .rx _ m) =>
    if d.status = .running ∧ d.node.isMaster = true ∧ m.messageType = MessageType.enrollment ∧
        passesChecks (b.world e) d.node m = true ∧
        e.ringbufAccepts d.node.enrollment.relayQueue.length = true then
      [(m.originMac, m.enrollmentPublicKey)]
    else []
  | _ => []

/-- The requests that a device takes in a run, in order. -/
def takenAlong (b : Board) (d : Device) : List (Env × Input) → List (Mac × Key)
  | [] => []
  | x :: xs => taken b d x ++ takenAlong b (step b d x) xs

/-- What a step does to the requests. -/
inductive Asked (b : Board) (d : Device) (x : Env × Input) (d' : Device) : Prop
  | kept (h : d'.node.asked = d.node.asked ++ taken b d x)
      (hloop : d.status = .running → d'.status = .running → x.2 = .loop →
        d'.node.enrollment.relayQueue = []) : Asked b d x d'
  | halted (hs : d'.status ≠ .running) (h : d'.node.asked = d.node.asked) : Asked b d x d'
  | restarted (hi : x.2 = .boot) (h : d'.node.asked = d.node.relayed.reverse) : Asked b d x d'

/-- A step in which nothing is taken. -/
theorem asked_of_keeps (hi : i ≠ .boot) (hrun : d.status = .running) (hl : i ≠ .loop)
    (hnone : taken b d (e, i) = [])
    (h : EffectSpec.Keeps Node.requests (handleInput (b.world e) i)) :
    Asked b d (e, i) (step b d (e, i)) := by
  refine .kept ?_ fun _ _ hl' => absurd hl' hl
  rw [hnone, List.append_nil, step_of_input hi hrun]
  exact ofResult_of_wp (P := fun t => t.asked = d.node.asked)
    (wp_mono _ (fun _ _ ht => asked_congr ht) (fun _ _ ht => asked_congr ht) (h (d.inputNode i)))

/-- A step after which the requests are known, or the device halts. -/
theorem asked_of_wp {Q : Node → Prop} (hi : i ≠ .boot) (hrun : d.status = .running)
    (hq : ∀ t, Q t → t.asked = d.node.asked ++ taken b d (e, i) ∧
      (i = .loop → t.enrollment.relayQueue = []))
    (h : wp (handleInput (b.world e) i) (fun _ t => Q t) (fun _ t => t.asked = d.node.asked)
      (d.inputNode i)) : Asked b d (e, i) (step b d (e, i)) := by
  rw [step_of_input hi hrun]
  unfold wp at h
  cases hr : handleInput (b.world e) i (d.inputNode i) with
  | ok r t =>
    rw [hr] at h
    exact .kept (hq t h).1 fun _ _ hl => (hq t h).2 hl
  | error f t =>
    rw [hr] at h
    exact .halted (fun hs => nomatch hs) h

/-- **What a step does to the requests.** -/
theorem asked_step (b : Board) (d : Device) (x : Env × Input) : Asked b d x (step b d x) := by
  obtain ⟨e, i⟩ := x
  by_cases hi : i = .boot
  -- a boot clears the buffer, so only what the server saw is left
  · subst hi
    refine .restarted rfl ?_
    show (ofResult (initSubsystems (b.world e) (d.bootNode b))).node.asked = _
    have hboot : (d.bootNode b).asked = d.node.relayed.reverse := List.append_nil _
    refine ofResult_of_wp (P := fun t => t.asked = _) ?_
    exact wp_mono _ (fun _ _ ht => (asked_congr ht).trans hboot)
      (fun _ _ ht => (asked_congr ht).trans hboot) (keeps_requests_initSubsystems (d.bootNode b))
  -- a device that does not run takes nothing in
  by_cases hrun : d.status = .running
  swap
  · rw [step_ignored hi hrun]
    refine .kept ?_ fun hs => absurd hs hrun
    have hnone : taken b d (e, i) = [] := by
      cases i with
      | rx srcMac m => exact if_neg fun h => hrun h.1
      | _ => rfl
    rw [hnone, List.append_nil]
  cases i with
  | boot => exact absurd rfl hi
  | rx srcMac m =>
    by_cases ht : d.node.isMaster = true ∧ m.messageType = MessageType.enrollment ∧
        passesChecks (b.world e) d.node m = true
    · -- the request gets through, and the buffer may have room for it
      obtain ⟨hm, htype, hpass⟩ := ht
      have hdisp : dispatchMessage (b.world e) m = processEnrollment (b.world e) m := if_pos htype
      refine asked_of_wp hi hrun (fun t ht => ⟨ht, fun hl => nomatch hl⟩) ?_
      show wp (handleReceivedMessage (b.world e) srcMac m) _ _ _
      rw [← handleReceivedMessageTo_deliver]
      unfold wp
      rw [handleReceivedMessageTo_of_passes (s := d.inputNode (.rx srcMac m)) hpass,
        dispatchMessageTo_deliver, hdisp]
      have htaken : taken b d (e, .rx srcMac m) =
          if e.ringbufAccepts d.node.enrollment.relayQueue.length = true then
            [(m.originMac, m.enrollmentPublicKey)] else [] := by
        simp only [taken, hrun, hm, htype, hpass, true_and]
      rw [htaken]
      exact wp_processEnrollment_asked
        (s := (d.inputNode (.rx srcMac m)).received (b.world e) srcMac m) hm
    -- a frame that is no request at this master, or does not pass the checks
    · have hnone : taken b d (e, .rx srcMac m) = [] :=
        if_neg fun h => ht ⟨h.2.1, h.2.2.1, h.2.2.2.1⟩
      refine asked_of_wp (Q := fun t => t.asked = d.node.asked) hi hrun
        (fun t ht' => ⟨?_, fun hl => nomatch hl⟩) ?_
      · rw [hnone, List.append_nil]
        exact ht'
      · refine wp_mono _ (fun _ _ h => asked_congr h) (fun _ _ h => asked_congr h)
          (wp_handleReceivedMessage_requests (s := d.inputNode (.rx srcMac m)) fun hm htype => ?_)
        rw [← Bool.not_eq_true]
        exact fun hpass => ht ⟨hm, htype, hpass⟩
  -- the housekeeping passes on all that waits
  | loop =>
    refine asked_of_wp hi hrun (fun t ht => ⟨?_, fun _ => ht.2⟩) wp_loop_asked
    exact ht.1.trans (List.append_nil _).symm
  | transmit | transmitSelfOriginated | tickEnrollmentBroadcast | serial | resetButton =>
    exact asked_of_keeps hi hrun (by simp) rfl (keeps_handleInput rfl)
  | checkMasterTimeout => exact asked_of_keeps hi hrun (by simp) rfl keeps_requests_checkTimeout
  | configButton => exact asked_of_keeps hi hrun (by simp) rfl keeps_requests_tickConfig

/-- **No request that is taken in is lost, doubled or overtaken on the way to the server.**  A
request that meets a full buffer is not taken in.  As long as a device runs, without a boot in
between, what the server saw and what waits for it is what it was before and what was taken in
since, in order; a round of housekeeping after which the device still runs leaves nothing to wait.
Whatever happens, restarts and halts included, what the server saw and what waits for it is a part
of that, in the same order. -/
theorem asked_run (b : Board) (d : Device) (xs : List (Env × Input)) :
    (run b d xs).node.asked.Sublist (d.node.asked ++ takenAlong b d xs) ∧
    ((∀ x ∈ xs, x.2 ≠ .boot) → (run b d xs).status = .running →
      (run b d xs).node.asked = d.node.asked ++ takenAlong b d xs ∧
      ∀ e, (step b (run b d xs) (e, .loop)).status = .running →
        (step b (run b d xs) (e, .loop)).node.relayed.reverse =
          d.node.asked ++ takenAlong b d xs) := by
  -- by induction on the run, each step of which splits off the requests that it took in
  induction xs generalizing d with
  | nil =>
    have hnil : d.node.asked ++ takenAlong b d [] = d.node.asked := List.append_nil _
    rw [hnil]
    refine ⟨List.Sublist.refl _, fun _ hrun => ⟨rfl, fun e halive => ?_⟩⟩
    cases asked_step b d (e, .loop) with
    | kept h hloop =>
      have hq := hloop hrun halive rfl
      rw [Node.asked, hq, List.append_nil] at h
      exact h.trans (List.append_nil _)
    | halted hs => exact absurd halive hs
    | restarted hi => cases hi
  | cons x xs ih =>
    obtain ⟨hsub, hexact⟩ := ih (step b d x)
    have hsplit : d.node.asked ++ takenAlong b d (x :: xs) =
        (d.node.asked ++ taken b d x) ++ takenAlong b (step b d x) xs := by
      rw [List.append_assoc]
      rfl
    rw [hsplit]
    refine ⟨hsub.trans (List.Sublist.append_right ?_ _), fun hxs hrun => ?_⟩
    · cases asked_step b d x with
      | kept h =>
        rw [h]
      | halted _ h =>
        rw [h]
        exact List.sublist_append_left _ _
      | restarted _ h =>
        rw [h]
        exact (List.sublist_append_left _ _).trans (List.sublist_append_left _ _)
    -- without a boot, a device that runs at the end ran at every step
    · have hxs' : ∀ y ∈ xs, y.2 ≠ .boot := fun y hy => hxs y (List.mem_cons_of_mem x hy)
      have hnext : (step b d x).status = .running :=
        running_of_run (show (run b (step b d x) ([] ++ xs)).status = .running from hrun) hxs'
      cases asked_step b d x with
      | kept h =>
        rw [← h]
        exact hexact hxs' hrun
      | halted hs => exact absurd hnext hs
      | restarted hi => exact absurd hi (hxs x List.mem_cons_self)

end Device

namespace Sample

/-- A master that booted, and two requests that reach it. -/
def queueingMaster : Device := Device.run serialMaster futureMaster [(env 7 100, .boot)]

def twoRequests : List (Env × Input) :=
  [(env 7 200, .rx (mac 5) request),
    (env 7 210, .rx (mac 6) { request with originMac := mac 6, enrollmentPublicKey := key 6 })]

end Sample

namespace Device

/-- The server sees the two requests in their order. -/
theorem asked_run_two :
    (step Sample.serialMaster (run Sample.serialMaster Sample.queueingMaster Sample.twoRequests)
      (Sample.env 7 300, .loop)).node.relayed.reverse =
        [(Sample.mac 5, Sample.key 5), (Sample.mac 6, Sample.key 6)] := by
  have h := (asked_run Sample.serialMaster Sample.queueingMaster Sample.twoRequests).2
    (by simp [Sample.twoRequests]) (by decide +kernel)
  rw [h.2 _ (by decide +kernel)]
  decide +kernel

end Device

end LatticeMesh
