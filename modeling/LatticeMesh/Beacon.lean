import LatticeMesh.Messenger

/-!
# Master beacons

What a node learns from a beacon: the master, the distance to it and a forwarding candidate; how a
leaf schedules the relay of a beacon, and how a master that falls silent is forgotten.

## Main definitions

* `acceptBeaconOrigin` — trust on first use and the takeover of a silent master.
* `processBeacon` — a received beacon.
* `checkTimeout`, `broadcastMasterBeacon` — the two periodic parts.
-/

namespace LatticeMesh

/-- The silence after which a master counts as gone, in milliseconds. -/
def staleMasterThresholdMs : UInt64 := 9000

/-- The interval between two beacons, in milliseconds. -/
def masterBeaconIntervalMs : UInt64 := 3000

/-- The window over which relays of one beacon are spread, in milliseconds. -/
def relayJitterMaxMs : UInt32 := 64

/-- Whether a beacon passes the pin of the master's address. -/
def beaconPinned (c : Config) (m : Message) : Bool := c.devMode || m.originMac = c.pinMasterMac

/-- Decide whether the origin of a beacon is trusted, learning it where nothing is known yet or
where the known masters have fallen silent. -/
def acceptBeaconOrigin (w : World) (mac : Mac) : MeshM Bool := do
  let s ← get
  let e := s.enrollment
  let fromPrimary := e.hasMasterMac && mac = e.knownMasterMac
  let fromSecondary :=
    s.dualMasterMode && e.hasMasterMacSecondary && mac = e.knownMasterMacSecondary
  if !e.hasMasterMac then
    learnMasterMac w mac
    pure true
  else if fromPrimary || fromSecondary then
    pure true
  else if s.dualMasterMode && !e.hasMasterMacSecondary then
    learnSecondaryMasterMac w mac
    pure true
  else if w.nowMs - s.beacon.lastMasterBeaconReceivedMs < staleMasterThresholdMs then
    pure false
  else
    learnMasterMac w mac
    pure true

/-- Report a second master, unless the deployment runs two. -/
def warnOtherMaster (w : World) (mac : Mac) : MeshM Unit := do
  let s ← get
  if s.lastSeenMasterMac ≠ mac ∧ s.lastSeenMasterMac.get 0 ≠ 0 ∧ !s.dualMasterMode then
    fail w .config .mesh 7
      "Multiple master nodes detected! Network split or misconfiguration likely."
  else
    pure ()

/-- The state after a trusted beacon: the master is heard, its neighbour is a candidate, and the
distance is one more than that of the closest candidate. -/
def Node.noteBeacon (s : Node) (w : World) (m : Message) : Node :=
  let observed := s.neighbors.observeAndMinDistance m.lastHopMac m.hopCount w.nowMs
  { s with
    lastSeenMasterMac := m.originMac
    beacon := { s.beacon with lastMasterBeaconReceivedMs := w.nowMs }
    neighbors := observed.2
    currentMaster := ⟨m.originMac, if observed.1 = 0xFF then 0xFF else observed.1 + 1⟩ }

/-- Schedule the relay of a beacon that is newer than the last one relayed. -/
def Node.scheduleRelay (s : Node) (w : World) (m : Message) : Node :=
  if s.isMaster || s.txState.wasRelayedBefore m.epochNum m.seqNum then s
  else
    { s with
      txState := s.txState.markRelayed m.epochNum m.seqNum
      relayPendingMsg := { m with hopCount := s.currentMaster.distance, lastHopMac := s.deviceMac }
      relayPendingAt := w.nowMs + 10 + (w.random % relayJitterMaxMs).toUInt64
      relayPending := true }

/-- A received beacon. -/
def processBeacon (w : World) (m : Message) : MeshM Unit := do
  let s ← get
  if m.originMac = s.deviceMac ∨ !beaconPinned w.config m ∨ m.hopCount.toNat ≥ maxHops then
    pure ()
  else
    let accepted ← acceptBeaconOrigin w m.originMac
    if accepted then
      warnOtherMaster w m.originMac
      modify fun s => (s.noteBeacon w m).scheduleRelay w m
    else
      pure ()

/-- Forget a master that has fallen silent. -/
def checkTimeout (w : World) : MeshM Unit :=
  modify fun s =>
    if s.isMaster || s.currentMaster.distance = 0xFF then s
    else if w.nowMs - s.beacon.lastMasterBeaconReceivedMs > staleMasterThresholdMs then
      { s with
        currentMaster := ⟨zeroMac, 0xFF⟩
        lastSeenMasterMac := zeroMac
        beacon := { s.beacon with lastMasterBeaconReceivedMs := 0 } }
    else s

/-- Broadcast a beacon when one is due. -/
def broadcastMasterBeacon (w : World) : MeshM Unit := do
  let s ← get
  if w.nowMs - s.beacon.lastBeaconMillis < masterBeaconIntervalMs then pure ()
  else
    modify fun s => { s with beacon := { s.beacon with lastBeaconMillis := w.nowMs } }
    let m ← buildMessage w AdapterType.unknown (Bytes.zero 64) MessageType.masterBeacon
    sendBroadcast w
      { m with data := Bytes.blit m.data 0 (Bytes.ofList (n := 1) [1]), hopCount := 0 }

end LatticeMesh
