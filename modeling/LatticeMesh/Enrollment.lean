import LatticeMesh.Routing

/-!
# Enrollment

Registration of peers, the requests of nodes that want to join, and the acknowledgement with which
a master admits them.

## Main definitions

* `saveToEEPROM`, `PeerRegistry.loadFromEEPROM` — the registry in flash.
* `registerPeerWithKey` — add a peer or give it a key.
* `addPeer`, `removeAndPersist` — peers added and removed by hand.
* `processJoinAck`, `dispatchJoinAck` — what a join acknowledgement does to a leaf.
* `learnMasterMac`, `learnSecondaryMasterMac` — trust on first use.
* `sendEnrollmentRequest`, `processRequest`, `drainPendingRelay` — enrollment requests.
-/

namespace LatticeMesh

/-! ### The registry in flash -/

/-- Write the given records to their slots and erase the other slots. -/
def writePeerSlots (w : World) (records : Fin maxPeers → Option PeerRecord) : MeshM Unit :=
  (List.finRange maxPeers).forM fun i =>
    match records i with
    | some r => savePeerRecord w i r
    | none => erasePeerRecord w i

/-- The record of the `i`-th peer. -/
def PeerRegistry.records (r : PeerRegistry) (i : Fin maxPeers) : Option PeerRecord :=
  (r.peers[i.val]?).map fun p => PeerRecord.encode p.mac p.publicKey

/-- Write every peer to its slot and erase the slots behind them. -/
def saveToEEPROM (w : World) : MeshM Unit := do
  let s ← get
  writePeerSlots w s.peers.records

namespace PeerRegistry

/-- The peers that the stored records hold; an all-`FF` address marks an empty slot. -/
def storedPeers (v : Nvs) : List PeerInfo :=
  v.peer.toList.filterMap fun r =>
    match r with
    | some r => if r.mac = broadcastMac then none else some ⟨r.mac, r.publicKey, 0⟩
    | none => none

/-- The configured default peers, whose keys are not known yet. -/
def defaultPeers (c : Config) : List PeerInfo :=
  c.defaultPeers.map fun mac => ⟨mac, Bytes.zero 32, 0⟩

/-- The registry that a boot loads: the stored peers, or the default peers if there are none. -/
def loadFromEEPROM (r : PeerRegistry) (c : Config) (v : Nvs) : PeerRegistry :=
  let loaded := storedPeers v
  { r with
    peers := (if loaded = [] then defaultPeers c else loaded).take maxPeers
    length_le := by
      rw [List.length_take]
      exact Nat.min_le_left _ _ }

end PeerRegistry

/-! ### Registration -/

/-- The part of a registration that concerns the radio: register the address afresh. -/
def enrollPeerWithRadio (w : World) (mac : Mac) : MeshM Unit := do
  espNowDelPeer mac
  registerPeerWithEspNow w mac

/-- Whether the registry holds a key for `mac` that must not be replaced over the air. -/
def PeerRegistry.keyEstablished (r : PeerRegistry) (mac : Mac) : Bool :=
  match r.find mac with
  | some p => !p.publicKey.isZero
  | none => false

/-- Add a peer or set the key of a known one.  Without `allowRekey` an established key is kept.
Returns whether the peer is registered afterwards. -/
def registerPeerWithKey (w : World) (mac : Mac) (publicKey : Key) (allowRekey : Bool) :
    MeshM Bool := do
  let s ← get
  if !allowRekey && s.peers.keyEstablished mac then
    modify fun s => { s with peers := s.peers.touch mac w.nowMs }
    pure true
  else if (s.peers.find mac).isSome then
    modify fun s => { s with peers := s.peers.setKey mac publicKey w.nowMs }
    saveToEEPROM w
    enrollPeerWithRadio w mac
    pure true
  else if s.peers.count ≥ maxPeers then
    pure false
  else
    modify fun s => { s with peers := s.peers.append ⟨mac, publicKey, w.nowMs⟩ }
    saveToEEPROM w
    enrollPeerWithRadio w mac
    pure true

/-- Add a peer whose key is not known yet; the full registry is reported. -/
def addAndPersist (w : World) (mac : Mac) : MeshM Unit := do
  let s ← get
  if (s.peers.find mac).isSome || mac = s.peers.deviceMac then pure ()
  else if s.peers.count ≥ maxPeers then
    fail w .memory .mesh 2 "Peer list full! Cannot add new peer. MAX_PEERS reached."
  else
    modify fun s => { s with peers := s.peers.append ⟨mac, Bytes.zero 32, w.nowMs⟩ }
    saveToEEPROM w

/-- Add a peer by hand, and register it with the radio if it is new. -/
def addPeer (w : World) (mac : Mac) : MeshM Unit := do
  let before ← get
  addAndPersist w mac
  let s ← get
  if s.peers.count > before.peers.count then
    match s.peers.peers.getLast? with
    | some p => registerPeerWithEspNow w p.mac
    | none => pure ()
  else
    pure ()

/-- Remove a peer by hand, from the registry, the flash and the radio. -/
def removeAndPersist (w : World) (mac : Mac) : MeshM Unit := do
  modify fun s => { s with peers := s.peers.remove mac }
  saveToEEPROM w
  let s ← get
  if s.radioPeers.contains mac then espNowDelPeer mac
  else checkEsp w false .communicationFail "removePeerFromEEPROM: del_peer failed"

/-! ### Trust on first use -/

/-- Record and store the address of the master. -/
def learnMasterMac (w : World) (mac : Mac) : MeshM Unit := do
  modify fun s =>
    { s with enrollment := { s.enrollment with knownMasterMac := mac, hasMasterMac := true } }
  saveKnownMasterMac w mac

/-- Record and store the address of the secondary master. -/
def learnSecondaryMasterMac (w : World) (mac : Mac) : MeshM Unit := do
  modify fun s =>
    { s with
      enrollment :=
        { s.enrollment with knownMasterMacSecondary := mac, hasMasterMacSecondary := true } }
  saveKnownMasterMacSecondary w mac

/-! ### Join acknowledgements -/

/-- The fingerprint of the addressed node's key in a join acknowledgement. -/
def Message.ackFingerprint (m : Message) : Bytes 4 := Bytes.slice m.data 0 4 ackFingerprint_le

/-- The address of the secondary master in a join acknowledgement. -/
def Message.ackSecondaryMac (m : Message) : Mac := Bytes.slice m.data 4 6 ackSecondaryMac_le

/-- The key of the secondary master in a join acknowledgement. -/
def Message.ackSecondaryKey (m : Message) : Key := Bytes.slice m.data 10 32 ackSecondaryKey_le

/-- The checks a join acknowledgement passes before it has any effect: the fingerprint, the master
key pin, and the origin once a master is known. -/
def joinAckAccepted (c : Config) (e : Enrollment) (m : Message) : Bool :=
  m.ackFingerprint = Bytes.slice e.devicePublicKey 0 4 fingerprint_le &&
    (c.devMode || m.enrollmentPublicKey = c.pinMasterPubkey) &&
    (!e.hasMasterMac || m.originMac = e.knownMasterMac)

/-- Register the secondary master that an acknowledgement names. -/
def processJoinAckSecondary (w : World) (m : Message) : MeshM Unit := do
  if m.ackSecondaryMac = zeroMac then pure ()
  else
    let registered ← registerPeerWithKey w m.ackSecondaryMac m.ackSecondaryKey false
    let s ← get
    if registered && !s.enrollment.hasMasterMacSecondary then
      learnSecondaryMasterMac w m.ackSecondaryMac
    else
      pure ()

/-- Record the sender of a join acknowledgement as the master, if none is known. -/
def learnMasterFromAck (w : World) (mac : Mac) : MeshM Unit := do
  let s ← get
  if s.enrollment.hasMasterMac then pure () else learnMasterMac w mac

/-- A join acknowledgement addressed to this leaf. -/
def processJoinAck (w : World) (m : Message) : MeshM Unit := do
  let s ← get
  if joinAckAccepted w.config s.enrollment m then
    let registered ← registerPeerWithKey w m.originMac m.enrollmentPublicKey false
    if registered then
      saveEnrolledFlag w true
      modify fun s => { s with enrollment := { s.enrollment with enrolled := true } }
      learnMasterFromAck w m.originMac
      processJoinAckSecondary w m
    else
      pure ()
  else
    pure ()

/-- A received join acknowledgement: rebroadcast it, or process it on the leaf it is for. -/
def dispatchJoinAck (w : World) (m : Message) : MeshM Unit := do
  let s ← get
  if m.targetMac = s.deviceMac then
    if s.isMaster then pure () else processJoinAck w m
  else if m.originMac = s.deviceMac ∨ m.hopCount.toNat ≥ maxHops then
    pure ()
  else
    sendBroadcast w (m.relayed s.deviceMac)

/-! ### Enrollment requests -/

/-- The enrollment request of this node. -/
def enrollmentRequest (s : Node) (epochNum : UInt32) (seqNum : UInt16) : Message :=
  { Message.zero with
    protoVersion := protoVersion
    epochNum := epochNum
    seqNum := seqNum
    messageType := MessageType.enrollment
    dataType := AdapterType.unknown
    originMac := s.deviceMac
    targetMac := broadcastMac
    lastHopMac := s.deviceMac
    enrollmentPublicKey := s.enrollment.devicePublicKey }

/-- Broadcast an enrollment request under a fresh sequence number. -/
def sendEnrollmentRequest (w : World) : MeshM Unit := do
  let seq ← nextSeqGuarded w
  let s ← get
  sendBroadcast w (enrollmentRequest s s.txState.bootEpoch seq)

/-- Queue an enrollment request for the serial line; a full queue drops it. -/
def processRequest (w : World) (m : Message) : MeshM Unit := do
  let s ← get
  if w.ringbufAccepts s.enrollment.relayQueue.length then
    modify fun s =>
      { s with
        enrollment :=
          { s.enrollment with
            relayQueue := s.enrollment.relayQueue ++ [(m.originMac, m.enrollmentPublicKey)] } }
  else
    pure ()

/-- Write every queued enrollment request to the serial line. -/
def drainPendingRelay : MeshM Unit := do
  let s ← get
  s.enrollment.relayQueue.forM fun (mac, pubKey) => emit (.relayToServer mac pubKey)
  modify fun s => { s with enrollment := { s.enrollment with relayQueue := [] } }

end LatticeMesh
