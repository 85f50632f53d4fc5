import LatticeMesh.Reachable
import LatticeMesh.RelayState
import LatticeMesh.ReplayLog

/-!
# A frame is relayed once

From one boot to the next the replay cache of a node is the cache after the frames that passed its
gate.  So as long as the slots of the cache suffice, the second copy of a frame does nothing at all,
whatever its type and its route fields, unless its epoch is zero: such frames are not checked.

## Main definitions

* `Device.PassesOn` — a step makes the node transmit, or schedule the relay of a beacon.
* `Device.RelaysOnce` — of two copies of a frame, at most one makes it do so.

## Main results

* `Device.replay_eq_after` — the cache of a running node is the cache after the checked frames.
* `Device.step_replayed` — a frame that the gate stops leaves only its mark in the history.
* `Device.relaysOnce` — **a frame of an epoch above zero is relayed at most once.**
-/

namespace LatticeMesh

open EffectSpec

variable {w : World} {s : Node}

/-! ### The replay cache within a step -/

theorem keeps_replay {α : Type} {x : MeshM α} (h : KeepsRelay x) : Keeps Node.replay x :=
  h.comp RelayState.replay

theorem keeps_replay_emit (e : Event) : Keeps Node.replay (emit e) := .update fun _ => rfl

theorem keeps_replay_sendBroadcast (m : Message) : Keeps Node.replay (sendBroadcast w m) := by
  refine .bind (.read_bind fun s => .ite (fun _ => ?_) fun _ => .ret _) fun _ => .ret _
  exact .bind (keeps_replay_emit _) fun _ => .ret _

theorem scheduleRelay_replay (m : Message) : (s.scheduleRelay w m).replay = s.replay := by
  unfold Node.scheduleRelay
  split <;> rfl

theorem keeps_replay_processBeacon (m : Message) : Keeps Node.replay (processBeacon w m) := by
  refine .read_bind fun s => .ite (fun _ => .ret _) fun _ => .bind ?_ fun accepted => ?_
  · exact keeps_replay (keeps_acceptBeaconOrigin _)
  · refine .ite (fun _ => ?_) fun _ => .ret _
    refine .bind (keeps_replay (keeps_warnOtherMaster _)) fun _ => ?_
    exact .update fun s => scheduleRelay_replay m

theorem keeps_replay_loop : Keeps Node.replay (loop w) := by
  refine .bind (keeps_replay keeps_drainPendingRelay) fun _ => ?_
  refine .bind (keeps_replay keeps_tickRouteReport) fun _ => .bind ?_ fun _ => ?_
  · refine .read_bind fun s => .ite (fun _ => .bind (.update fun _ => rfl) fun _ => ?_) fun _ =>
      .ret _
    exact keeps_replay_sendBroadcast _
  · refine .read_bind fun s => .ite (fun _ => ?_) fun _ => .ret _
    refine .read_bind fun s => .ite (fun _ => .ret _) fun _ => ?_
    refine .bind (.update fun _ => rfl) fun _ => ?_
    exact .bind (keeps_replay keeps_buildMessage) fun m => keeps_replay_sendBroadcast _

theorem keeps_replay_checkTimeout : Keeps Node.replay (checkTimeout w) := by
  refine .update fun s => ?_
  split
  · rfl
  · split <;> rfl

theorem keeps_replay_tickConfig : Keeps Node.replay (tickConfig w) := by
  refine .read_bind fun s => .ite (fun _ => .update fun _ => rfl) fun _ => ?_
  refine .bind (keeps_replay (keeps_nvsSave _ _)) fun _ => ?_
  exact .bind (keeps_replay_emit _) fun _ => .raise _

theorem dispatchMessage_beacon {m : Message} (h : m.messageType = MessageType.masterBeacon) :
    dispatchMessage w m = processBeacon w m := by
  unfold dispatchMessage
  rw [if_neg (h.trans_ne (by decide)), if_neg (h.trans_ne (by decide)), if_pos h]

theorem keeps_replay_dispatchMessage (m : Message) : Keeps Node.replay (dispatchMessage w m) := by
  by_cases h : m.messageType = MessageType.masterBeacon
  · rw [dispatchMessage_beacon h]
    exact keeps_replay_processBeacon m
  · exact keeps_replay (keeps_dispatchMessage h)

/-- What is neither a boot nor a received frame leaves the replay cache alone. -/
theorem keeps_replay_handleInput {i : Input} (hi : i ≠ .boot) (hrx : ∀ srcMac m, i ≠ .rx srcMac m) :
    Keeps Node.replay (handleInput w i) := by
  cases i with
  | boot => exact absurd rfl hi
  | rx srcMac m => exact absurd rfl (hrx srcMac m)
  | loop => exact keeps_replay_loop
  | checkMasterTimeout => exact keeps_replay_checkTimeout
  | configButton => exact keeps_replay_tickConfig
  | transmit | transmitSelfOriginated | tickEnrollmentBroadcast | serial | resetButton =>
    exact keeps_replay (keeps_handleInput rfl)

/-! ### Received frames -/

/-- Whether the gate stops a received frame: its version is another one, or it is a replay. -/
def stopsFrame (s : Node) (m : Message) (nowMs : UInt64) : Bool :=
  m.protoVersion ≠ protoVersion || (replayGate s.replay m nowMs).1

/-- A frame that the gate stops leaves the node as it is. -/
theorem handleReceivedMessage_stopped {srcMac : Mac} {m : Message}
    (h : stopsFrame s m w.nowMs = true) : handleReceivedMessage w srcMac m s = .ok () s := by
  have hno : passesChecks w s m = false := by
    simp only [stopsFrame, ne_eq, decide_not, Bool.or_eq_true, Bool.not_eq_true'] at h
    rcases h with h | h <;> simp [passesChecks, h]
  rw [← handleReceivedMessageTo_deliver]
  exact handleReceivedMessageTo_of_not_passes hno

/-- A frame that passes the gate leaves the cache behind that the gate returned. -/
theorem handleReceivedMessage_replay {srcMac : Mac} {m : Message}
    (h : stopsFrame s m w.nowMs = false) :
    wp (handleReceivedMessage w srcMac m)
      (fun _ t => t.replay = (replayGate s.replay m w.nowMs).2)
      (fun _ t => t.replay = (replayGate s.replay m w.nowMs).2) s := by
  have hv : ¬m.protoVersion ≠ protoVersion := fun hv => by simp [stopsFrame, hv] at h
  have hgate : (replayGate s.replay m w.nowMs).1 = false := by simpa [stopsFrame, hv] using h
  unfold handleReceivedMessage
  rw [if_neg hv, wp_bind, wp_get, wp_bind, wp_modify, if_neg (by simp [hgate]), wp_bind, wp_modify]
  exact keeps_replay_dispatchMessage m _

/-! ### Runs -/

/-- The frame of an input. -/
def Input.frame : Input → Option Message
  | .rx _ m => some m
  | _ => none

/-- The frames that are received, each with its time. -/
def receivedFrames (xs : List (Env × Input)) : List Heard :=
  xs.filterMap fun x => x.2.frame.map fun m => (m, x.1.nowMs)

/-- The gate checks a frame against the replay cache. -/
def Heard.checked (q : Heard) : Bool := q.1.protoVersion = protoVersion && q.1.epochNum > 0

/-- The frames that the gate checks, each with its time. -/
def checkedFrames (xs : List (Env × Input)) : List Heard := (receivedFrames xs).filter Heard.checked

theorem checkedFrames_append (xs ys : List (Env × Input)) :
    checkedFrames (xs ++ ys) = checkedFrames xs ++ checkedFrames ys := by
  simp [checkedFrames, receivedFrames]

theorem checkedFrames_cons (x : Env × Input) (xs : List (Env × Input)) :
    checkedFrames (x :: xs) = checkedFrames [x] ++ checkedFrames xs := checkedFrames_append [x] xs

theorem originsOf_checkedFrames (xs : List (Env × Input)) :
    originsOf (checkedFrames xs) ⊆ originsOf (receivedFrames xs) := by
  intro m hm
  obtain ⟨q, hq, ho⟩ := mem_originsOf.1 hm
  exact mem_originsOf.2 ⟨q, (List.mem_filter.1 hq).1, ho⟩

namespace Device

variable {b : Board} {d : Device} {e : Env}

/-- A frame that the gate stops leaves only its mark in the history. -/
theorem step_replayed {srcMac : Mac} {m : Message} (hs : d.status = .running)
    (h : stopsFrame d.node m e.nowMs = true) :
    step b d (e, .rx srcMac m) = ⟨d.inputNode (.rx srcMac m), .running⟩ := by
  rw [step_of_input (by simp) hs]
  have hstop : stopsFrame (d.inputNode (.rx srcMac m)) m (b.world e).nowMs = true := h
  show ofResult (handleReceivedMessage (b.world e) srcMac m _) = _
  rw [handleReceivedMessage_stopped hstop]
  rfl

theorem ofResult_of_wp {x : MeshM Unit} {s : Node} {P : Node → Prop}
    (h : wp x (fun _ t => P t) (fun _ t => P t) s) : P (ofResult (x s)).node := by
  unfold wp at h
  cases hx : x s with
  | ok a t => rw [hx] at h; exact h
  | error a t => rw [hx] at h; exact h

/-- The replay cache after a frame of the right version is the one that the replay check leaves
behind. -/
theorem step_rx_replay {srcMac : Mac} {m : Message} (hs : d.status = .running)
    (hv : m.protoVersion = protoVersion) :
    (step b d (e, .rx srcMac m)).node.replay = (replayGate d.node.replay m e.nowMs).2 := by
  by_cases hstop : stopsFrame d.node m e.nowMs = true
  · rw [step_replayed hs hstop, replayGate_of_replay (by simpa [stopsFrame, hv] using hstop)]
    rfl
  · have hpass : stopsFrame (d.inputNode (.rx srcMac m)) m e.nowMs = false :=
      Bool.eq_false_iff.2 hstop
    rw [step_of_input (by simp) hs]
    exact ofResult_of_wp (handleReceivedMessage_replay hpass)

/-- How one step changes the replay cache of a running node. -/
theorem step_replay {i : Input} (hi : i ≠ .boot) (hs : d.status = .running) {qs : List Heard}
    (h : d.node.replay = ReplayCache.after qs) :
    (step b d (e, i)).node.replay = ReplayCache.after (qs ++ checkedFrames [(e, i)]) := by
  by_cases hrx : ∃ srcMac m, i = .rx srcMac m
  · obtain ⟨srcMac, m, rfl⟩ := hrx
    have hafter : ∀ q : Heard, ReplayCache.after (qs ++ [q]) =
        ((ReplayCache.after qs).isReplay q.1 q.2).2 := fun q => by
      show (ReplayCache.heard (qs ++ [q])).1 = _
      rw [ReplayCache.heard_append]
      rfl
    by_cases hv : m.protoVersion = protoVersion
    · rw [step_rx_replay hs hv, h]
      by_cases he : m.epochNum > 0
      · have hc : checkedFrames [(e, .rx srcMac m)] = [(m, e.nowMs)] := by
          simp [checkedFrames, receivedFrames, Input.frame, Heard.checked, hv, he]
        rw [hc, hafter, replayGate, if_pos he]
      · have hc : checkedFrames [(e, .rx srcMac m)] = [] := by
          simp [checkedFrames, receivedFrames, Input.frame, Heard.checked, he]
        rw [hc, replayGate, if_neg he, List.append_nil]
    · have hc : checkedFrames [(e, .rx srcMac m)] = [] := by
        simp [checkedFrames, receivedFrames, Input.frame, Heard.checked, hv]
      rw [step_replayed hs (by simp [stopsFrame, hv]), hc, List.append_nil]
      exact h
  · have hc : checkedFrames [(e, i)] = [] := by
      cases i with
      | rx srcMac m => exact absurd ⟨srcMac, m, rfl⟩ hrx
      | _ => rfl
    rw [step_of_input hi hs, hc, List.append_nil, ← h]
    exact ofResult_of_wp (keeps_replay_handleInput hi (fun srcMac m he => hrx ⟨srcMac, m, he⟩) _)

variable {xs : List (Env × Input)}

theorem run_snoc (x : Env × Input) : run b d (xs ++ [x]) = step b (run b d xs) x :=
  Runs.run_append xs [x]

/-- A device that runs after some inputs ran all along. -/
theorem running_of_run {ys : List (Env × Input)} (h : (run b d (xs ++ ys)).status = .running)
    (hys : ∀ x ∈ ys, x.2 ≠ .boot) : (run b d xs).status = .running := by
  induction ys using List.reverseRecOn with
  | nil => simpa using h
  | append_singleton ys y ih =>
    refine ih ?_ fun x hx => hys x (List.mem_append_left _ hx)
    by_contra hn
    rw [← List.append_assoc, run_snoc, step_ignored (hys y (by simp)) hn] at h
    exact hn h

/-- The cache of a running node is the cache after the frames that were checked since it booted. -/
theorem replay_eq_after (hxs : ∀ x ∈ xs, x.2 ≠ .boot)
    (hrun : (run b (step b d (e, .boot)) xs).status = .running) :
    (run b (step b d (e, .boot)) xs).node.replay = ReplayCache.after (checkedFrames xs) := by
  induction xs using List.reverseRecOn with
  | nil =>
    have hst := stepTo b d e .boot
    have hrun : (step b d (e, .boot)).status = .running := hrun
    show (step b d (e, .boot)).node.replay = _
    generalize step b d (e, .boot) = d' at hst hrun
    cases hst with
    | booted h => exact h.replay
    | bootHalted => cases hrun
    | ignored hi | ran hi | halted hi => exact absurd rfl hi
  | append_singleton xs x ih =>
    obtain ⟨e', i⟩ := x
    have hxs' : ∀ x ∈ xs, x.2 ≠ .boot := fun x hx => hxs x (List.mem_append_left _ hx)
    have hbefore := running_of_run hrun fun x hx => hxs x (List.mem_append_right _ hx)
    rw [run_snoc, checkedFrames_append]
    exact step_replay (hxs (e', i) (by simp)) hbefore (ih hxs' hbefore)

/-! ### Relays -/

/-- The frames that left the radio, newest first. -/
def transmissions (tr : List Event) : List (Mac × Message) :=
  tr.filterMap fun e => match e with
    | .tx dest m => some (dest, m)
    | _ => none

/-- The beacon relay that is pending, with its time. -/
def pendingRelay (s : Node) : Option (Message × UInt64) :=
  if s.relayPending then some (s.relayPendingMsg, s.relayPendingAt) else none

/-- A step makes the node pass something on: a frame leaves the radio, or the relay of a beacon is
scheduled. -/
def PassesOn (b : Board) (d : Device) (x : Env × Input) : Prop :=
  transmissions (step b d x).node.trace ≠ transmissions d.node.trace ∨
    pendingRelay (step b d x).node ≠ pendingRelay d.node

instance (b : Board) (d : Device) (x : Env × Input) : Decidable (PassesOn b d x) :=
  inferInstanceAs (Decidable (_ ∨ _))

/-- Of two received copies of one frame that `C` admits, at most one makes the node pass something
on. -/
def RelaysOnce (b : Board) (d : Device) (xs : List (Env × Input)) (C : Message → Prop) : Prop :=
  ∀ pre e srcMac m mid e' srcMac' m' post,
    xs = pre ++ (e, .rx srcMac m) :: (mid ++ (e', .rx srcMac' m') :: post) →
    Heard.triple (m, e.nowMs) = Heard.triple (m', e'.nowMs) → C m →
    PassesOn b (run b d pre) (e, .rx srcMac m) →
    ¬PassesOn b (run b d (pre ++ (e, .rx srcMac m) :: mid)) (e', .rx srcMac' m')

/-- A frame that makes the node pass something on passed the gate. -/
theorem PassesOn.passes {srcMac : Mac} {m : Message} (h : PassesOn b d (e, .rx srcMac m)) :
    d.status = .running ∧ stopsFrame d.node m e.nowMs = false := by
  have hs : d.status = .running := by
    by_contra hs
    rw [PassesOn, step_ignored (by simp) hs] at h
    simp at h
  refine ⟨hs, ?_⟩
  by_contra hstop
  rw [PassesOn, step_replayed hs (by simpa using hstop)] at h
  exact h.elim (fun h => h rfl) fun h => h rfl

/-- A frame that passes the gate is accepted by the replay cache, if it is checked at all. -/
theorem log_of_passes {qs : List Heard} (srcMac : Mac) {m : Message}
    (h : stopsFrame d.node m e.nowMs = false) (hc : d.node.replay = ReplayCache.after qs)
    (he : m.epochNum > 0) :
    checkedFrames [(e, .rx srcMac m)] = [(m, e.nowMs)] ∧
      ReplayCache.log (qs ++ [(m, e.nowMs)]) = (m, e.nowMs) :: ReplayCache.log qs := by
  rw [stopsFrame, Bool.or_eq_false_iff] at h
  obtain ⟨hv, hgate⟩ := h
  have hv : m.protoVersion = protoVersion := by simpa using hv
  rw [replayGate, if_pos he, hc] at hgate
  refine ⟨by simp [checkedFrames, receivedFrames, Input.frame, Heard.checked, hv, he], ?_⟩
  show (ReplayCache.heard (qs ++ [(m, e.nowMs)])).2 = _
  rw [ReplayCache.heard_append, ReplayCache.hear_of_accepted hgate]
  rfl

/-- **As long as at most twelve origins are heard, a frame of an epoch above zero is relayed at most
once between two boots.** -/
theorem relaysOnce (hxs : ∀ x ∈ xs, x.2 ≠ .boot)
    (horigins : (originsOf (receivedFrames xs)).card ≤ replayMaxOrigins) :
    RelaysOnce b (step b d (e, .boot)) xs fun m => m.epochNum > 0 := by
  intro pre e₁ src₁ m₁ mid e₂ src₂ m₂ post hsplit htriple hepoch h₁ h₂
  have hsplit' : xs = (pre ++ (e₁, .rx src₁ m₁) :: mid) ++ (e₂, .rx src₂ m₂) :: post := by
    rw [hsplit, List.append_assoc, List.cons_append]
  have hpre : ∀ x ∈ pre, x.2 ≠ .boot := fun x hx => hxs x (by simp [hsplit, hx])
  have hmid : ∀ x ∈ pre ++ (e₁, .rx src₁ m₁) :: mid, x.2 ≠ .boot := fun x hx =>
    hxs x (by rw [hsplit']; exact List.mem_append_left _ hx)
  obtain ⟨hrun₁, hpass₁⟩ := h₁.passes
  obtain ⟨hrun₂, hpass₂⟩ := h₂.passes
  have hepoch₂ : m₂.epochNum > 0 := (Prod.mk.inj (Prod.mk.inj htriple).2).1 ▸ hepoch
  obtain ⟨hf₁, hlog₁⟩ := log_of_passes src₁ hpass₁ (replay_eq_after hpre hrun₁) hepoch
  obtain ⟨hf₂, hlog₂⟩ := log_of_passes src₂ hpass₂ (replay_eq_after hmid hrun₂) hepoch₂
  -- both copies would be in the log, which does not hold two frames of one triple
  have hq₁ : checkedFrames (pre ++ (e₁, .rx src₁ m₁) :: mid) =
      (checkedFrames pre ++ [(m₁, e₁.nowMs)]) ++ checkedFrames mid := by
    rw [checkedFrames_append, checkedFrames_cons, hf₁, List.append_assoc]
  have hq₂ : checkedFrames xs =
      (checkedFrames (pre ++ (e₁, .rx src₁ m₁) :: mid) ++ [(m₂, e₂.nowMs)]) ++
        checkedFrames post := by
    rw [hsplit', checkedFrames_append, checkedFrames_cons (e₂, _), hf₂, List.append_assoc]
  obtain ⟨later₁, hl₁⟩ := ReplayCache.log_append (checkedFrames pre ++ [(m₁, e₁.nowMs)])
    (checkedFrames mid)
  obtain ⟨later₂, hl₂⟩ := ReplayCache.log_append
    (checkedFrames (pre ++ (e₁, .rx src₁ m₁) :: mid) ++ [(m₂, e₂.nowMs)]) (checkedFrames post)
  have hcard := le_trans (Finset.card_le_card (originsOf_checkedFrames xs)) horigins
  have hnodup := (ReplayCache.logExact hcard).nodup
  rw [hq₂, hl₂, hlog₂, hq₁, hl₁, hlog₁, List.map_append, List.map_cons, List.map_append,
    List.map_cons] at hnodup
  have hcopy := (List.nodup_cons.1 (List.nodup_append.1 hnodup).2.1).1
  exact hcopy (by rw [← htriple]; simp)

end Device

namespace Sample

/-- Two copies of an acknowledgement that the master sends to some other node. -/
def acknowledgedTwice (epochNum : UInt32) : List (Env × Input) :=
  let m := { frame 7 MessageType.joinAck epochNum 5 with targetMac := mac 9 }
  [(env 1 200, .rx (mac 8) m), (env 1 300, .rx (mac 10) m)]

end Sample

namespace Device

/-- In an epoch above zero only the first of the two copies is passed on. -/
theorem relaysOnce_acknowledgedTwice :
    RelaysOnce Sample.board (step Sample.board (blank {}) (Sample.env 1 100, .boot))
      (Sample.acknowledgedTwice 1) fun m => m.epochNum > 0 :=
  relaysOnce (by decide +kernel) (by decide +kernel)

/-- **In epoch zero the leaf rebroadcasts both copies.** -/
theorem not_relaysOnce_epochZero :
    let d := step Sample.board (blank {}) (Sample.env 1 100, .boot)
    d.status = .running ∧ d.node.isMaster = false ∧
      (∀ x ∈ Sample.acknowledgedTwice 0, x.2 ≠ .boot) ∧
      (originsOf (receivedFrames (Sample.acknowledgedTwice 0))).card ≤ replayMaxOrigins ∧
      ¬RelaysOnce Sample.board d (Sample.acknowledgedTwice 0) fun _ => True := by
  refine ⟨by decide +kernel, by decide +kernel, by decide +kernel, by decide +kernel, fun h => ?_⟩
  refine h [] (Sample.env 1 200) (Sample.mac 8) _ [] (Sample.env 1 300) (Sample.mac 10) _ [] rfl rfl
    trivial ?_ ?_
  · decide +kernel
  · decide +kernel

end Device

end LatticeMesh
