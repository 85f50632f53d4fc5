import LatticeMesh.E2E

/-!
# Routing

The next hop toward the master, the decision what to do with a frame that is not for this node, and
the relaying of downlink frames.

## Main definitions

* `findNextHopToMaster` — the next hop of the uplink.
* `RouteDecision`, `classify` — the routing decision for a received data frame.
* `relayDownlink`, `registerDownlinkPeer` — flooding, and the bounded set of forwarding peers.
-/

namespace LatticeMesh

/-! ### Uplink -/

/-- The master itself, if it is an enrolled peer one hop away and in range. -/
def directHop (s : Node) (nowMs : UInt64) : Option Mac :=
  match s.peers.find s.currentMaster.mac with
  | some direct =>
    if s.currentMaster.distance = 1 && s.peers.isPeerInRange direct.mac nowMs &&
        direct.mac ≠ s.deviceMac then
      some direct.mac
    else none
  | none => none

/-- Whether the forwarding peer registered so far has to leave the radio for `hopMac`. -/
def evictsForwardingPeer (s : Node) (hopMac : Mac) : Bool :=
  s.forwardingPeer ≠ zeroMac && s.forwardingPeer ≠ hopMac &&
    (s.peers.find s.forwardingPeer).isNone && s.forwardingPeer ≠ s.currentMaster.mac

/-- Remove the forwarding peer registered so far, if it has to leave for `hopMac`. -/
def evictForwardingPeer (s : Node) (hopMac : Mac) : MeshM Unit :=
  if evictsForwardingPeer s hopMac then espNowDelPeer s.forwardingPeer else pure ()

/-- The next hop toward the master.  A relay that is chosen is registered with the radio, in the
place of the relay chosen before. -/
def findNextHopToMaster (w : World) : MeshM (Option Mac) := do
  let s ← get
  if s.currentMaster.distance = 0xFF then pure none
  else
    match directHop s w.nowMs with
    | some mac => pure (some mac)
    | none =>
      match s.neighbors.selectNextHop s.currentMaster.distance w.nowMs with
      | none => pure none
      | some hopMac =>
        if hopMac = s.deviceMac then pure none
        else
          evictForwardingPeer s hopMac
          registerPeerWithEspNow w hopMac
          modify fun s => { s with forwardingPeer := hopMac }
          pure (some hopMac)

/-! ### Downlink -/

/-- What to do with a received data frame. -/
inductive RouteDecision
  /-- Not a routing case: check it and deliver it here. -/
  | notRouted
  /-- Pass it on toward the master. -/
  | relayTowardMaster
  /-- Pass it on to the next hop of its source route. -/
  | forwardOnRoute (nextHop : Mac)
  /-- Pass it on to every peer. -/
  | flood
  /-- Drop it: it has made too many hops. -/
  | dropHopLimitExceeded
  deriving DecidableEq

/-- The address behind position `i` of the source route. -/
def nextOnRoute (m : Message) (i : Fin maxHops) : Mac :=
  if h : i.val + 1 < maxHops ∧ i.val + 1 < m.routeLen.toNat then m.hop ⟨i.val + 1, h.1⟩
  else m.targetMac

/-- The routing decision for a data frame. -/
def classify (m : Message) (deviceMac : Mac) (isMaster addressedToSelf isBroadcastTarget
    addressedToMaster : Bool) : RouteDecision :=
  if isMaster || addressedToSelf || isBroadcastTarget then .notRouted
  else if addressedToMaster then
    if m.hopCount.toNat ≥ maxHops then .dropHopLimitExceeded else .relayTowardMaster
  else if m.routeLen > 0 ∧ m.routeLen.toNat ≤ maxHops then
    match m.hopIndices.find? fun i => m.hop i = deviceMac with
    | some i =>
      if m.hopCount.toNat ≥ maxHops then .dropHopLimitExceeded
      else .forwardOnRoute (nextOnRoute m i)
    | none => .flood
  else .flood

/-- The frame as a relay passes it on: one hop more, with this node as the last hop. -/
def Message.relayed (m : Message) (deviceMac : Mac) : Message :=
  { m with hopCount := m.hopCount + 1, lastHopMac := deviceMac }

/-- The frame as the source-route branch passes it on: one hop more, the last hop kept. -/
def Message.forwarded (m : Message) : Message := { m with hopCount := m.hopCount + 1 }

theorem Message.relayOf_relayed (m : Message) (deviceMac : Mac) :
    Message.RelayOf m (m.relayed deviceMac) := rfl

theorem Message.relayOf_forwarded (m : Message) : Message.RelayOf m m.forwarded := rfl

/-- Flood a frame to every peer but this node. -/
def relayDownlink (w : World) (m : Message) : MeshM Unit := do
  let s ← get
  if m.hopCount.toNat ≥ maxHops then pure ()
  else
    s.peers.peers.forM fun p =>
      if p.mac = s.deviceMac then pure ()
      else sendMessage w p.mac (m.relayed s.deviceMac) s.deviceMac

/-- The number of forwarding peers a node registers for downlink frames. -/
def downlinkPeerMax : ℕ := 4

/-- Register the next hop of a downlink frame with the radio.  Enrolled peers and the current
master are not tracked; of the others only the last four stay registered. -/
def registerDownlinkPeer (w : World) (mac : Mac) : MeshM Unit := do
  let s ← get
  let isCurrentMaster := s.currentMaster.distance ≠ 0xFF && mac = s.currentMaster.mac
  if (s.peers.find mac).isSome || isCurrentMaster then
    modify fun s => { s with downlinkPeerLru := s.downlinkPeerLru.erase mac }
    registerPeerWithEspNow w mac
  else if s.downlinkPeerLru.contains mac then
    modify fun s => { s with downlinkPeerLru := mac :: s.downlinkPeerLru.erase mac }
    registerPeerWithEspNow w mac
  else if s.downlinkPeerLru.length ≥ downlinkPeerMax then
    espNowDelPeer (s.downlinkPeerLru.getLastD mac)
    modify fun s => { s with downlinkPeerLru := mac :: s.downlinkPeerLru.dropLast }
    registerPeerWithEspNow w mac
  else
    modify fun s => { s with downlinkPeerLru := mac :: s.downlinkPeerLru }
    registerPeerWithEspNow w mac

end LatticeMesh
