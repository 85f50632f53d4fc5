import LatticeMesh.ReplayCache
import LatticeMesh.Tables

/-!
# The state of a node

The record of everything a node holds, in memory and in flash, and the program monad over it.  The
record carries the history of what the node did, newest event first, which the firmware itself
never reads: the properties of a run are properties of that history.

## Main definitions

* `Input` — what can happen to a node: a boot, a received frame, a local send, a tick, a command.
* `Event` — what a node does: flash writes, errors, transmissions, seals, opens, deliveries.
* `Node`, `MeshM` — the state, and programs over it that may halt.
* `fail`, `fatal`, `checkEsp` — error reporting.
* `nvsPut` and the `save…` and `load…` functions — persistence.
* `espNowSend`, `registerPeerWithEspNow` — the radio.
-/

namespace LatticeMesh

/-! ### History -/

/-- What can happen to a node. -/
inductive Input
  /-- Power-up or restart. -/
  | boot
  /-- A frame received from the station `srcMac`. -/
  | rx (srcMac : Mac) (msg : Message)
  /-- An adapter hands data to the mesh. -/
  | transmit (type : AdapterType) (data : Payload)
  /-- An adapter hands the mesh data about the node itself. -/
  | transmitSelfOriginated (type : AdapterType) (data : Payload)
  /-- One round of the mesh housekeeping. -/
  | loop
  /-- The check for a silent master. -/
  | checkMasterTimeout
  /-- The periodic enrollment request of a node that is not enrolled. -/
  | tickEnrollmentBroadcast
  /-- A complete frame decoded from the serial line. -/
  | serial (msg : Message)
  /-- The config button was held: the role toggles. -/
  | configButton
  /-- The reset button was held and confirmed: the flash is wiped. -/
  | resetButton
  deriving DecidableEq

/-- What a node does. -/
inductive Event
  /-- A step begins. -/
  | input (i : Input)
  /-- A flash write succeeded. -/
  | nvs (op : NvsOp)
  /-- `err::fail` was called. -/
  | errFail (t : ErrorTypeDigit) (m : ModuleDigit) (sub : ℕ) (text : String)
  /-- `err::fatal` was called. -/
  | errFatal (t : ErrorTypeDigit) (m : ModuleDigit) (sub : ℕ) (text : String)
  /-- The device restarts on command. -/
  | espRestart
  /-- A frame left the radio. -/
  | tx (dest : Mac) (msg : Message)
  /-- `buildMessage` returned a frame. -/
  | built (msg : Message)
  /-- Dev mode kept a new epoch in memory. -/
  | devEpoch (epoch : UInt32)
  /-- The seal guard let a pair pass. -/
  | guarded (epoch : UInt32) (seq : UInt16)
  /-- `sealPayload` was applied to a frame. -/
  | sealed (key : Key) (msg : Message)
  /-- `openPayload` succeeded on a frame. -/
  | opened (key : Key) (msg : Message)
  /-- A frame was handed to the receive callback. -/
  | deliver (msg : Message)
  /-- A frame was written to the serial line. -/
  | serialOut (msg : Message)
  /-- An enrollment request was written to the serial line. -/
  | relayToServer (mac : Mac) (publicKey : Key)
  deriving DecidableEq

/-- Why a program did not return. -/
inductive Halt
  /-- `err::fatal`: the endless loop. -/
  | fatal
  /-- `err::fail` with a restarting error type. -/
  | failRestart
  /-- `esp_restart` on command. -/
  | espRestart
  /-- An aborting platform check. -/
  | abort
  deriving DecidableEq, Repr

/-! ### State -/

/-- The enrollment state and the node's own keys. -/
structure Enrollment where
  devicePrivateKey : Key := Bytes.zero 32
  devicePublicKey : Key := Bytes.zero 32
  hasMasterMac : Bool := false
  knownMasterMac : Mac := broadcastMac
  hasMasterMacSecondary : Bool := false
  knownMasterMacSecondary : Mac := broadcastMac
  enrolled : Bool := false
  /-- The enrollment requests that wait for the serial line. -/
  relayQueue : List (Mac × Key) := []
  deriving DecidableEq

/-- The timers of the beacon logic. -/
structure MasterBeacon where
  lastBeaconMillis : UInt64 := 0
  lastMasterBeaconReceivedMs : UInt64 := 0
  deriving DecidableEq

/-- The mode of the persistence layer and the epoch counter that dev mode keeps in memory. -/
structure EepromState where
  isDevMode : Bool := false
  devEpoch : UInt32 := 0
  deriving DecidableEq

/-- The number of derived key pairs a master caches. -/
def e2eKeycacheMax : ℕ := 10

/-- The number of derived key pairs a leaf caches. -/
def e2eKeycacheMaxLeaf : ℕ := 2

/-- Everything a node holds. -/
structure Node where
  isMaster : Bool := false
  deviceMac : Mac := zeroMac
  meshKey : Bytes 16 := Bytes.zero 16
  peers : PeerRegistry := {}
  currentMaster : MasterInfo := {}
  lastSeenMasterMac : Mac := zeroMac
  beacon : MasterBeacon := {}
  downlinkPeerLru : List Mac := []
  forwardingPeer : Mac := zeroMac
  replay : ReplayCache := ReplayCache.empty
  txState : OutboundSequenceState := {}
  relayPendingMsg : Message := Message.zero
  relayPendingAt : UInt64 := 0
  relayPending : Bool := false
  dualMasterMode : Bool := false
  lastRouteReportMs : UInt64 := 0
  lastEnrollmentBroadcastMs : UInt64 := 0
  enrollment : Enrollment := {}
  e2eKeys : E2EKeyStore := E2EKeyStore.ofCapacity e2eKeycacheMax
  neighbors : NeighborTable := NeighborTable.empty
  routes : Option RouteTable := none
  adapterType : AdapterType := AdapterType.unknown
  /-- The addresses registered with the ESP-NOW stack. -/
  radioPeers : List Mac := []
  eeprom : EepromState := {}
  /-- The flash, which survives a restart. -/
  nvs : Nvs := {}
  /-- The history of the device, newest event first. -/
  trace : List Event := []

/-- Programs over the state of a node, which may halt. -/
abbrev MeshM := EStateM Halt Node

/-- Append an event to the history. -/
def Node.emit (s : Node) (e : Event) : Node := { s with trace := e :: s.trace }

/-- Record an event. -/
def emit (e : Event) : MeshM Unit := modify fun s => s.emit e

/-! ### Error reporting -/

/-- Report an error class: show it on the display, then restart if its type demands it.  A byte
that the display does not acknowledge is itself reported as a hardware error. -/
def signalError (w : World) (t : ErrorTypeDigit) : MeshM Unit := do
  if w.config.enableSevsegDisplay && !w.displayAck then
    emit (.errFail .hardware .hw 2 "7Seg ACK timeout")
    throw .failRestart
  else if t.restarts then
    throw .failRestart
  else
    pure ()

/-- Report an error and go on, unless it restarts the device. -/
def fail (w : World) (t : ErrorTypeDigit) (m : ModuleDigit) (sub : ℕ) (text : String) :
    MeshM Unit := do
  emit (.errFail t m sub text)
  signalError w t

/-- Report an error and never return. -/
def fatal {α : Type} (w : World) (t : ErrorTypeDigit) (m : ModuleDigit) (sub : ℕ)
    (text : String) : MeshM α := do
  emit (.errFatal t m sub text)
  signalError w t
  throw .fatal

/-- The error class under which `checkEsp` reports an error type. -/
def toDigit : ErrorType → ErrorTypeDigit
  | .generic => .generic
  | .sensorFail => .sensor
  | .communicationFail => .comm
  | .memoryError => .memory
  | .configError => .config
  | .hardwareFailure => .hardware

/-- Report the failure of a platform call. -/
def checkEsp (w : World) (ok : Bool) (type : ErrorType) (text : String) : MeshM Unit :=
  if ok then pure () else fail w (toDigit type) .core 0 text

/-! ### Persistence -/

/-- Write to the flash; only the failure of a security-relevant write is reported. -/
def nvsPut (w : World) (op : NvsOp) (securityRelevant : Bool) : MeshM Unit := do
  if w.nvsOk op then
    modify fun s => { s with nvs := op.apply s.nvs }
    emit (.nvs op)
  else if securityRelevant then
    fail w .memory .eeprom 5 "NVS write failed (security-relevant key)"
  else
    pure ()

/-- Write to the flash unless the node runs in dev mode. -/
def nvsSave (w : World) (op : NvsOp) (securityRelevant : Bool) : MeshM Unit := do
  let s ← get
  if s.eeprom.isDevMode then pure () else nvsPut w op securityRelevant

def savePeerRecord (w : World) (i : Fin maxPeers) (r : PeerRecord) : MeshM Unit :=
  nvsSave w (.peer i r) true

/-- Removing a record is not suppressed in dev mode, and its failure is ignored. -/
def erasePeerRecord (w : World) (i : Fin maxPeers) : MeshM Unit := nvsPut w (.erasePeer i) false

def saveMasterFlag (w : World) (isMaster : Bool) : MeshM Unit :=
  nvsSave w (.masterFlag (if isMaster then 1 else 0)) false

def saveMeshKey (w : World) (k : Bytes 16) : MeshM Unit := nvsSave w (.meshKey k) true

def saveKnownMasterMac (w : World) (mac : Mac) : MeshM Unit :=
  nvsSave w (.knownMasterMac mac) true

def saveKnownMasterMacSecondary (w : World) (mac : Mac) : MeshM Unit :=
  nvsSave w (.knownMasterMacSec mac) true

def saveEnrolledFlag (w : World) (enrolled : Bool) : MeshM Unit :=
  nvsSave w (.enrolledFlag (if enrolled then 1 else 0)) false

def saveAdapterType (w : World) (t : UInt8) : MeshM Unit := nvsSave w (.adapterType t) false

def saveTxPowerPreset (w : World) (p : UInt8) : MeshM Unit := nvsSave w (.txPowerPreset p) false

/-- The node id is saved in dev mode too. -/
def saveNodeId (w : World) (n : UInt8) : MeshM Unit := nvsPut w (.nodeId n) false

/-- In dev mode the epoch is kept in memory. -/
def saveBootEpoch (w : World) (epoch : UInt32) : MeshM Unit := do
  let s ← get
  if s.eeprom.isDevMode then
    modify fun s => { s with eeprom := { s.eeprom with devEpoch := epoch } }
    emit (.devEpoch epoch)
  else
    nvsPut w (.bootEpoch epoch) true

/-- One bit of the checksum register. -/
def crc16Bit (crc : UInt16) : UInt16 :=
  if crc &&& 0x8000 ≠ 0 then (crc <<< 1) ^^^ 0x1021 else crc <<< 1

/-- The checksum of a byte string. -/
def crc16 (data : List UInt8) : UInt16 :=
  data.foldl (fun (crc : UInt16) b =>
    (List.range 8).foldl (fun c _ => crc16Bit c) (crc ^^^ b.toUInt16 <<< (8 : UInt16))) 0xFFFF

/-- The checksum under which a keypair is stored. -/
def crcOfKeypair (priv pub : Key) : UInt16 := crc16 (priv.toList ++ pub.toList)

def saveKeypair (w : World) (priv pub : Key) : MeshM Unit := do
  nvsSave w (.privateKey priv) true
  nvsSave w (.publicKey pub) true
  nvsSave w (.keypairCrc (crcOfKeypair priv pub).toUInt32) true

namespace Nvs

/-- A flag that defaults to false. -/
def flag (v : Option UInt8) : Bool := v.getD 0 != 0

/-- The stored keypair, if its checksum matches. -/
def loadKeypair (v : Nvs) : Option (Key × Key) :=
  match v.privateKey, v.publicKey with
  | some priv, some pub =>
    let stored := v.keypairCrc.getD 0xFFFFFFFF
    if stored = 0xFFFFFFFF then none
    else if stored.toUInt16 ≠ crcOfKeypair priv pub then none
    else some (priv, pub)
  | _, _ => none

/-- The stored address of the master and whether it counts as known. -/
def loadMac (v : Option Mac) (old : Mac) : Mac × Bool :=
  match v with
  | some mac => (mac, mac ≠ broadcastMac)
  | none => (old, false)

/-- Whether any peer record is stored. -/
def hasPeers (v : Nvs) : Bool := v.peer.toList.any Option.isSome

end Nvs

/-- The epoch of the last boot. -/
def Node.loadBootEpoch (s : Node) : UInt32 :=
  if s.eeprom.isDevMode then s.eeprom.devEpoch else s.nvs.bootEpoch.getD 0

/-! ### Radio -/

/-- Hand a frame to the radio; only registered addresses are accepted. -/
def espNowSend (w : World) (target : Mac) (msg : Message) : MeshM Bool := do
  let s ← get
  if s.radioPeers.contains target && w.sendOk target then
    emit (.tx target msg)
    pure true
  else
    pure false

/-- Register an address with the radio, unless it is registered. -/
def registerPeerWithEspNow (w : World) (mac : Mac) : MeshM Unit := do
  let s ← get
  if s.radioPeers.contains mac then pure ()
  else if w.addPeerOk mac then
    modify fun s => { s with radioPeers := s.radioPeers ++ [mac] }
  else
    checkEsp w false .communicationFail "registerPeerWithEspNow: add_peer failed"

/-- Remove an address from the radio, if it is registered. -/
def espNowDelPeer (mac : Mac) : MeshM Unit :=
  modify fun s => { s with radioPeers := s.radioPeers.filter (· ≠ mac) }

/-- Send to one station, never to this node itself. -/
def sendMessage (w : World) (target : Mac) (msg : Message) (deviceMac : Mac) : MeshM Unit := do
  if target = deviceMac then pure ()
  else
    let ok ← espNowSend w target msg
    if ok then pure () else fail w .comm .mesh 5 "MESH: Error sending message"

/-- Send to every registered peer but this node. -/
def broadcastToAllPeers (w : World) (msg : Message) (peers : PeerRegistry) (deviceMac : Mac) :
    MeshM Unit :=
  peers.peers.forM fun p =>
    if p.mac = deviceMac then pure () else sendMessage w p.mac msg deviceMac

/-- Send to the broadcast address; a failure is only logged. -/
def sendBroadcast (w : World) (msg : Message) : MeshM Unit := do
  let _ ← espNowSend w broadcastMac msg
  pure ()

end LatticeMesh
