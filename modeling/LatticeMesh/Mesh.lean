import LatticeMesh.Adapter

/-!
# The mesh

The dispatch of received frames and the periodic housekeeping.

## Main definitions

* `processAdapterData` — a received data frame: route it, or check and deliver it.
* `handleReceivedMessage` — every received frame.
* `handleReceivedMessageTo` — the same before the receive callback is linked.
* `loop`, `tickEnrollmentBroadcast` — the periodic parts.
-/

namespace LatticeMesh

/-! ### Received frames -/

/-- A data frame that is for this node: check it, deliver it, and pass on a broadcast. -/
def deliverAdapterData (w : World) (m : Message) (addressedToSelf isBroadcastTarget : Bool) :
    MeshM Unit := do
  match ← authorize w m addressedToSelf with
  | none => pure ()
  | some opened =>
    deliver w opened
    let s ← get
    if isBroadcastTarget && !s.isMaster then relayDownlink w m else pure ()

/-- Carry out the routing decision for a data frame. -/
def routeAdapterData (w : World) (m : Message) (addressedToSelf isBroadcastTarget : Bool) :
    RouteDecision → MeshM Unit
  | .dropHopLimitExceeded => pure ()
  | .relayTowardMaster => do
    let s ← get
    let relay := m.relayed s.deviceMac
    transmitCore w relay.dataType relay.data MessageType.adapterData (some relay) s.isMaster
  | .forwardOnRoute nextHop => do
    let s ← get
    registerDownlinkPeer w nextHop
    sendMessage w nextHop m.forwarded s.deviceMac
  | .flood => relayDownlink w m
  | .notRouted => deliverAdapterData w m addressedToSelf isBroadcastTarget

/-- Whether a frame is addressed to the master this node knows. -/
def Node.addressedToMaster (s : Node) (m : Message) : Bool :=
  s.enrollment.hasMasterMac && m.targetMac = s.currentMaster.mac

/-- The routing decision of a node for a received data frame. -/
def Node.routeDecision (s : Node) (m : Message) : RouteDecision :=
  classify m s.deviceMac s.isMaster (m.targetMac = s.deviceMac) (m.targetMac = broadcastMac)
    (s.addressedToMaster m)

/-- A received data frame. -/
def processAdapterData (w : World) (m : Message) : MeshM Unit := do
  let s ← get
  routeAdapterData w m (m.targetMac = s.deviceMac) (m.targetMac = broadcastMac) (s.routeDecision m)

/-- A received enrollment request. -/
def processEnrollment (w : World) (m : Message) : MeshM Unit := do
  let s ← get
  if s.isMaster then
    let _ ← registerPeerWithKey w m.originMac m.enrollmentPublicKey false
    processRequest w m
  else
    relayEnrollmentUplink w m

/-- Pass a frame to the handler of its type. -/
def dispatchMessage (w : World) (m : Message) : MeshM Unit :=
  if m.messageType = MessageType.enrollment then processEnrollment w m
  else if m.messageType = MessageType.joinAck then dispatchJoinAck w m
  else if m.messageType = MessageType.masterBeacon then processBeacon w m
  else if m.messageType = MessageType.adapterData then processAdapterData w m
  else if m.messageType = MessageType.routeReport then processRouteReport w m (deliver w)
  else pure ()

/-- The replay check of a received frame, and the cache after it.  Frames of epoch zero are not
checked. -/
def replayGate (c : ReplayCache) (m : Message) (nowMs : UInt64) : Bool × ReplayCache :=
  if m.epochNum > 0 then c.isReplay m nowMs else (false, c)

/-- Whether a frame passes the checks of every frame. -/
def passesChecks (w : World) (s : Node) (m : Message) : Bool :=
  m.protoVersion = protoVersion && !(replayGate s.replay m w.nowMs).1

/-- The state in which a frame that passed the checks is dispatched. -/
def Node.received (s : Node) (w : World) (srcMac : Mac) (m : Message) : Node :=
  { s with
    replay := (replayGate s.replay m w.nowMs).2
    peers := s.peers.updateLastSeen srcMac w.nowMs }

/-- A received frame. -/
def handleReceivedMessage (w : World) (srcMac : Mac) (m : Message) : MeshM Unit := do
  if m.protoVersion ≠ protoVersion then pure ()
  else
    let s ← get
    let gate := replayGate s.replay m w.nowMs
    modify fun s => { s with replay := gate.2 }
    if gate.1 then pure ()
    else
      modify fun s => { s with peers := s.peers.updateLastSeen srcMac w.nowMs }
      dispatchMessage w m

/-! ### Frames before the receive callback is linked -/

/-- The delivery of a data frame to the receive callback that is linked by now. -/
def deliverAdapterDataTo (w : World) (externalRecvCallback : Message → MeshM Unit) (m : Message)
    (addressedToSelf isBroadcastTarget : Bool) : MeshM Unit := do
  match ← authorize w m addressedToSelf with
  | none => pure ()
  | some opened =>
    externalRecvCallback opened
    let s ← get
    if isBroadcastTarget && !s.isMaster then relayDownlink w m else pure ()

/-- A received data frame, with the receive callback that is linked by now. -/
def processAdapterDataTo (w : World) (externalRecvCallback : Message → MeshM Unit) (m : Message) :
    MeshM Unit := do
  let s ← get
  if s.routeDecision m = .notRouted then
    deliverAdapterDataTo w externalRecvCallback m (m.targetMac = s.deviceMac)
      (m.targetMac = broadcastMac)
  else
    routeAdapterData w m (m.targetMac = s.deviceMac) (m.targetMac = broadcastMac)
      (s.routeDecision m)

/-- Pass a frame to the handler of its type; only two of them deliver. -/
def dispatchMessageTo (w : World) (externalRecvCallback : Message → MeshM Unit) (m : Message) :
    MeshM Unit :=
  if m.messageType = MessageType.adapterData then processAdapterDataTo w externalRecvCallback m
  else if m.messageType = MessageType.routeReport then
    processRouteReport w m externalRecvCallback
  else dispatchMessage w m

/-- A received frame, with the receive callback that is linked by now. -/
def handleReceivedMessageTo (w : World) (externalRecvCallback : Message → MeshM Unit)
    (srcMac : Mac) (m : Message) : MeshM Unit := do
  if m.protoVersion ≠ protoVersion then pure ()
  else
    let s ← get
    let gate := replayGate s.replay m w.nowMs
    modify fun s => { s with replay := gate.2 }
    if gate.1 then pure ()
    else
      modify fun s => { s with peers := s.peers.updateLastSeen srcMac w.nowMs }
      dispatchMessageTo w externalRecvCallback m

theorem processAdapterDataTo_deliver (w : World) (m : Message) :
    processAdapterDataTo w (deliver w) m = processAdapterData w m := by
  unfold processAdapterDataTo processAdapterData
  congr 1
  funext s
  split
  · rename_i h
    rw [h]
    rfl
  · rfl

theorem dispatchMessageTo_deliver (w : World) (m : Message) :
    dispatchMessageTo w (deliver w) m = dispatchMessage w m := by
  unfold dispatchMessageTo
  split
  · rename_i h
    rw [processAdapterDataTo_deliver, dispatchMessage, h]
    rfl
  split
  · rename_i h
    rw [dispatchMessage, h]
    rfl
  · rfl

/-- With the adapter linked it is the handler of received frames. -/
theorem handleReceivedMessageTo_deliver (w : World) (srcMac : Mac) (m : Message) :
    handleReceivedMessageTo w (deliver w) srcMac m = handleReceivedMessage w srcMac m := by
  unfold handleReceivedMessageTo handleReceivedMessage
  rw [dispatchMessageTo_deliver]

section Checks

variable {w : World} {s : Node} {m : Message} {srcMac : Mac} {cb : Message → MeshM Unit}

/-- A frame that passes the checks is dispatched. -/
theorem handleReceivedMessageTo_of_passes (h : passesChecks w s m = true) :
    handleReceivedMessageTo w cb srcMac m s = dispatchMessageTo w cb m (s.received w srcMac m) := by
  simp only [passesChecks, Bool.and_eq_true, decide_eq_true_eq, Bool.not_eq_true'] at h
  unfold handleReceivedMessageTo
  rw [if_neg (by simp [h.1])]
  show (if _ then _ else _ : MeshM Unit) _ = _
  rw [if_neg (by simp [h.2])]
  rfl

/-- A frame that the replay check drops leaves the cache alone. -/
theorem replayGate_of_replay {c : ReplayCache} {nowMs : UInt64}
    (h : (replayGate c m nowMs).1 = true) : (replayGate c m nowMs).2 = c := by
  unfold replayGate at h ⊢
  split at h
  · rw [if_pos ‹_›]
    exact ReplayCache.isReplay_snd_of_replay h
  · cases h

/-- A frame that does not changes nothing. -/
theorem handleReceivedMessageTo_of_not_passes (h : passesChecks w s m = false) :
    handleReceivedMessageTo w cb srcMac m s = .ok () s := by
  unfold handleReceivedMessageTo
  by_cases hv : m.protoVersion = protoVersion
  · have hg : (replayGate s.replay m w.nowMs).1 = true := by simpa [passesChecks, hv] using h
    have hs : { s with replay := (replayGate s.replay m w.nowMs).2 } = s := by
      rw [replayGate_of_replay hg]
    rw [if_neg (by simp [hv])]
    show (if _ then _ else _ : MeshM Unit)
      { s with replay := (replayGate s.replay m w.nowMs).2 } = _
    rw [if_pos hg, hs]
    rfl
  · rw [if_pos hv]
    rfl

end Checks

/-! ### Housekeeping -/

/-- The interval between two route reports, in milliseconds. -/
def routeReportIntervalMs : UInt64 := 60000

/-- The interval between two enrollment requests, in milliseconds. -/
def enrollmentIntervalMs : UInt64 := 10000

/-- Report the route when a report is due. -/
def tickRouteReport (w : World) : MeshM Unit := do
  let s ← get
  if !s.isMaster ∧ w.nowMs - s.lastRouteReportMs ≥ routeReportIntervalMs then
    let sent ← sendRouteReport w
    if sent then modify fun s => { s with lastRouteReportMs := w.nowMs } else pure ()
  else
    pure ()

/-- Send the beacon relay that is due. -/
def tickBeaconRelay (w : World) : MeshM Unit := do
  let s ← get
  if s.relayPending ∧ w.nowMs ≥ s.relayPendingAt then
    modify fun s => { s with relayPending := false }
    sendBroadcast w s.relayPendingMsg
  else
    pure ()

/-- One round of the mesh housekeeping. -/
def loop (w : World) : MeshM Unit := do
  drainPendingRelay
  tickRouteReport w
  tickBeaconRelay w
  let s ← get
  if s.isMaster then broadcastMasterBeacon w else pure ()

/-- The periodic enrollment request of a leaf that is not enrolled. -/
def tickEnrollmentBroadcast (w : World) : MeshM Unit := do
  let s ← get
  if s.enrollment.enrolled || s.isMaster then pure ()
  else if w.nowMs - s.lastEnrollmentBroadcastMs > enrollmentIntervalMs then
    modify fun s => { s with lastEnrollmentBroadcastMs := w.nowMs }
    sendEnrollmentRequest w
  else
    pure ()

end LatticeMesh
