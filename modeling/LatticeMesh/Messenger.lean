import LatticeMesh.Enrollment

/-!
# Sending

How a node builds, seals and routes the frames it originates, how it passes on the frames of other
nodes toward the master, and how a master sends to one node or to all.

## Main definitions

* `buildMessage` — a frame of this node under a fresh sequence number.
* `transmitCore` — seal what is this node's own, then send to the next hop toward the master.
* `sendDownlinkToNode` — seal for one node and send along its recorded route.
* `broadcastAdapterData`, `transmitDispatch` — plaintext broadcast, and the entry of the adapters.
* `enrollPeer`, `relayEnrollmentUplink` — join acknowledgements and relayed enrollment requests.
-/

namespace LatticeMesh

/-! ### Building -/

/-- The frame that `buildMessage` fills in. -/
def builtMessage (s : Node) (type : AdapterType) (data : Payload) (msgType : UInt8)
    (seqNum : UInt16) : Message :=
  { Message.zero with
    protoVersion := protoVersion
    messageType := msgType
    dataType := type
    originMac := s.deviceMac
    targetMac := if msgType = MessageType.masterBeacon then broadcastMac else s.currentMaster.mac
    lastHopMac := s.deviceMac
    data := data
    hopCount := 0
    seqNum := seqNum
    epochNum := s.txState.bootEpoch }

/-- Build a frame of this node under a fresh sequence number. -/
def buildMessage (w : World) (type : AdapterType) (data : Payload) (msgType : UInt8) :
    MeshM Message := do
  let seq ← nextSeqGuarded w
  let s ← get
  let m := builtMessage s type data msgType seq
  emit (.built m)
  pure m

/-! ### Uplink -/

/-- The code with which the origin of a route report starts the chain. -/
def seedAuthPath (c : Crypto) (kUp : Key) (m : Message) (deviceMac : Mac) : Message :=
  if m.messageType = MessageType.routeReport then
    { m with
      authPath := chainStep c kUp (buildHopContext m zeroMac deviceMac) (Bytes.zero 8) }
  else m

/-- Seal an uplink frame of this node for the master, or drop it. -/
def sealUplink (w : World) (m : Message) : MeshM (Option Message) := do
  checkEpochRollback w m.epochNum m.seqNum
  let s ← get
  match ← masterE2EKeys w with
  | none => pure none
  | some keys =>
    emit (.sealed keys.kUp m)
    match sealPayload w.crypto keys.kUp m with
    | none => pure none
    | some sm => pure (some (seedAuthPath w.crypto keys.kUp sm s.deviceMac))

/-- Send a frame to the next hop toward the master, if there is one. -/
def routeToMaster (w : World) (m : Message) : MeshM Unit := do
  let s ← get
  match ← findNextHopToMaster w with
  | some hopMac => if hopMac = s.deviceMac then pure () else sendMessage w hopMac m s.deviceMac
  | none => pure ()

/-- The target of an uplink frame: a data frame of this node goes to the current master, every
other frame keeps its target. -/
def retarget (s : Node) (msgType : UInt8) (m : Message) : Message :=
  if msgType = MessageType.adapterData ∧ m.originMac = s.deviceMac then
    { m with targetMac := s.currentMaster.mac }
  else m

/-- Transmit a given frame toward the master.  A frame whose origin is this node counts as its own
and is sealed. -/
def transmitFrame (w : World) (msgType : UInt8) (isMaster : Bool) (m : Message) :
    MeshM Unit := do
  let s ← get
  let m := retarget s msgType m
  if !isMaster ∧ m.originMac = s.deviceMac ∧ isSealedType m.messageType then
    match ← sealUplink w m with
    | some sm => routeToMaster w sm
    | none => pure ()
  else
    routeToMaster w m

/-- Transmit toward the master: a frame built here, or the given frame in its place. -/
def transmitCore (w : World) (type : AdapterType) (data : Payload) (msgType : UInt8)
    (msgOverride : Option Message) (isMaster : Bool) : MeshM Unit := do
  match msgOverride with
  | some m => transmitFrame w msgType isMaster m
  | none =>
    let m ← buildMessage w type data msgType
    transmitFrame w msgType isMaster m

/-- Relay an enrollment request one hop toward the master. -/
def relayEnrollmentUplink (w : World) (m : Message) : MeshM Unit := do
  let s ← get
  if m.originMac = s.deviceMac ∨ m.hopCount.toNat ≥ maxHops then
    pure ()
  else
    match ← findNextHopToMaster w with
    | none => pure ()
    | some _ =>
      let relay := m.relayed s.deviceMac
      transmitCore w relay.dataType relay.data MessageType.enrollment (some relay) false

/-! ### Downlink -/

/-- Broadcast adapter data of this node to its peers, and deliver it here too if asked. -/
def broadcastAdapterData (w : World) (type : AdapterType) (data : Payload) (deliverLocally : Bool)
    (externalRecvCallback : Message → MeshM Unit) : MeshM Unit := do
  let built ← buildMessage w type data MessageType.adapterData
  let m := { built with targetMac := broadcastMac }
  let s ← get
  broadcastToAllPeers w m s.peers s.deviceMac
  if deliverLocally then externalRecvCallback m else pure ()

/-- Send what an adapter hands over: a master broadcasts, every other node sends uplink. -/
def transmitDispatch (w : World) (type : AdapterType) (data : Payload) (selfOriginated : Bool)
    (externalRecvCallback : Message → MeshM Unit) : MeshM Unit := do
  let s ← get
  if s.isMaster then
    broadcastAdapterData w type data selfOriginated externalRecvCallback
  else
    transmitCore w type data MessageType.adapterData none s.isMaster

/-- Whether a path is too long for a source route. -/
def downlinkRouteLenExceedsMaxHops (pathLen : UInt8) : Bool := pathLen.toNat > maxHops

/-- The frame with the recorded path of its target, in reverse order, as its source route. -/
def withReversedRoute (m : Message) (path : RoutePath) (pathLen : UInt8)
    (h : pathLen.toNat ≤ maxHops) : Message :=
  { m with
    routeLen := pathLen
    routePath := (List.finRange pathLen.toNat).foldl (fun route i =>
      setRouteHop route (i.castLE h) (routeHop path (i.rev.castLE h))) m.routePath }

/-- Send a sealed downlink frame along the recorded route of its target, or flood it. -/
def routeDownlink (w : World) (m : Message) : MeshM Unit := do
  let s ← get
  match s.routes.bind fun routes => routes.lookup m.targetMac with
  | some (path, pathLen) =>
    if pathLen > 0 then
      if h : downlinkRouteLenExceedsMaxHops pathLen then pure ()
      else
        let m := withReversedRoute m path pathLen
          (by simpa [downlinkRouteLenExceedsMaxHops] using h)
        registerDownlinkPeer w (m.hop ⟨0, by decide⟩)
        sendMessage w (m.hop ⟨0, by decide⟩) m s.deviceMac
    else
      broadcastToAllPeers w { m with routeLen := 0 } s.peers s.deviceMac
  | none => broadcastToAllPeers w { m with routeLen := 0 } s.peers s.deviceMac

/-- Seal adapter data of this master for one node and send it there. -/
def sendDownlinkToNode (w : World) (destMac : Mac) (type : AdapterType) (data : Payload) :
    MeshM Unit := do
  let s ← get
  if !s.isMaster then pure ()
  else
    let built ← buildMessage w type data MessageType.adapterData
    let m := { built with targetMac := destMac }
    checkEpochRollback w m.epochNum m.seqNum
    match ← peerE2EKeys w destMac with
    | none => pure ()
    | some keys =>
      emit (.sealed keys.kDown m)
      match sealPayload w.crypto keys.kDown m with
      | none => pure ()
      | some sm => routeDownlink w sm

/-! ### Join acknowledgements -/

/-- The payload of a join acknowledgement: the fingerprint of the admitted node's key and, if the
server named one, the secondary master. -/
def joinAckData (nodePublicKey : Key) (secondary : Option (Mac × Key)) : Payload :=
  let data :=
    Bytes.blit (Bytes.zero 64) 0 (Bytes.slice nodePublicKey 0 4 fingerprint_le) ackFingerprint_le
  match secondary with
  | some (mac, key) =>
    Bytes.blit (Bytes.blit data 4 mac ackSecondaryMac_le) 10 key ackSecondaryKey_le
  | none => data

/-- The join acknowledgement for `mac`. -/
def joinAck (s : Node) (seqNum : UInt16) (mac : Mac) (nodePublicKey : Key)
    (secondary : Option (Mac × Key)) : Message :=
  { Message.zero with
    protoVersion := protoVersion
    seqNum := seqNum
    epochNum := s.txState.bootEpoch
    messageType := MessageType.joinAck
    dataType := AdapterType.unknown
    originMac := s.deviceMac
    targetMac := mac
    lastHopMac := s.deviceMac
    hopCount := 0
    data := joinAckData nodePublicKey secondary
    enrollmentPublicKey := s.enrollment.devicePublicKey }

/-- Admit a node that the server approved: register it under the key cached from its own request
and broadcast the acknowledgement.  The key that the server sends along is not used. -/
def enrollPeer (w : World) (mac : Mac) (secondary : Option (Mac × Key)) : MeshM Unit := do
  let s ← get
  match s.peers.find mac with
  | none => pure ()
  | some cachedPeer =>
    let registered ← registerPeerWithKey w mac cachedPeer.publicKey true
    if registered then
      let seq ← nextSeqGuarded w
      let s ← get
      sendBroadcast w (joinAck s seq mac cachedPeer.publicKey secondary)
    else
      pure ()

end LatticeMesh
