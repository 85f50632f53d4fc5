import LatticeMesh.Mesh

/-!
# Booting

The start of a device: the default peers of a first boot, the adapter, the stored state of the
mesh, the boot epoch, the radio and the role.

## Main definitions

* `savePeerList` — write the default peers to flash, as raw records.
* `createAdapter` — the adapter of this boot.
* `initMesh` — load the stored state, start a new epoch and bring up the radio.
* `initSubsystems` — the whole boot, which applies the role last: `initBeforeRole`, `applyRole`.
-/

namespace LatticeMesh

/-! ### Default peers -/

/-- The bytes from the default peer table on, as the firmware addresses them: the table, six bytes
a peer, and whatever the linker placed behind it. -/
def Config.defaultPeerBytes (c : Config) (k : ℕ) : UInt8 :=
  ((c.defaultPeers.flatMap fun mac => mac.toList)[k]?).getD
    (c.afterDefaultPeers (k - 6 * c.defaultPeers.length))

/-- The addresses, relative to the list, of the bytes that make up record `i`. -/
def peerRecordOffsets (i : ℕ) : List ℕ := (List.range 38).map (38 * i + ·)

/-- Record `i` of the list of records in memory. -/
def peerRecordAt (bytes : ℕ → UInt8) (i : ℕ) : PeerRecord :=
  ⟨(peerRecordOffsets i).map bytes, by simp [peerRecordOffsets]⟩

/-- Write a list of peer records to flash and erase the slots behind them. -/
def savePeerList (w : World) (peerRecords : ℕ → UInt8) (numPeers : ℕ) : MeshM Unit := do
  let s ← get
  if s.eeprom.isDevMode ∨ numPeers > maxPeers then pure ()
  else
    writePeerSlots w fun i => if i.val < numPeers then some (peerRecordAt peerRecords i) else none

/-- Write the default peers to flash on the first boot of a production device. -/
def bootstrapPeers (w : World) : MeshM Unit := do
  let s ← get
  if s.eeprom.isDevMode ∨ s.nvs.hasPeers then pure ()
  else savePeerList w w.config.defaultPeerBytes w.config.defaultPeers.length

/-! ### Adapter -/

/-- Store the default adapter type if none is stored. -/
def initializeDefaultsIfUnset (w : World) : MeshM Unit := do
  let s ← get
  if s.eeprom.isDevMode then pure ()
  else if s.nvs.adapterType.getD 0 = adapterTypeToEEPROM AdapterType.unknown then
    saveAdapterType w (adapterTypeToEEPROM w.config.defaultAdapter)
  else pure ()

/-- The adapter type of this boot: the default in dev mode, the stored one otherwise. -/
def bootAdapterType (s : Node) (c : Config) : AdapterType :=
  if s.eeprom.isDevMode then c.defaultAdapter
  else adapterTypeFromEEPROM (s.nvs.adapterType.getD 0)

/-- Bring up the PIR sensor. -/
def initPir (w : World) : MeshM Bool := do
  if !w.pirOk then
    fail w .config .adapter 1 "PIR_Adapter: PIR hardware failed to initialize."
    pure false
  else if !w.interruptOk then
    fail w .config .adapter 2 "PIR_Adapter: Failed to attach interrupt."
    pure false
  else
    pure true

/-- Create and initialise the adapter; without one the device halts. -/
def createAdapter (w : World) : MeshM Unit := do
  let s ← get
  let type := bootAdapterType s w.config
  if type = AdapterType.pir ∨ type = AdapterType.serial then
    modify fun s => { s with adapterType := type }
    let ok ← (if type = AdapterType.pir then initPir w else pure true : MeshM Bool)
    if ok then pure ()
    else fatal w .hardware .core 4 "MAIN: Adapter failed to initialize"
  else
    fail w .config .adapter 2 "AdapterFactory: Unknown adapter type"
    fatal w .hardware .core 3 "MAIN: Failed to create PIR adapter"

/-! ### Stored state of the mesh -/

/-- Whether a mesh key was never set. -/
def meshKeyUnset (k : Bytes 16) : Bool := k.toList.all fun b => b == 0xFF || b == 0x00

/-- Load the mesh key, or store the default one. -/
def loadMeshKeyFromEEPROM (w : World) : MeshM Unit := do
  modify fun s =>
    { s with
      meshKey :=
        if w.config.devMode then w.config.defaultMeshKey else s.nvs.meshKey.getD s.meshKey }
  let s ← get
  if meshKeyUnset s.meshKey then
    modify fun s => { s with meshKey := w.config.defaultMeshKey }
    saveMeshKey w w.config.defaultMeshKey
  else
    pure ()

/-- Use the given keypair. -/
def Node.withKeypair (s : Node) (priv pub : Key) : Node :=
  { s with
    enrollment := { s.enrollment with devicePrivateKey := priv, devicePublicKey := pub } }

/-- Load the keypair of the node, or generate and store one. -/
def loadOrGenerateKeypair (w : World) : MeshM Unit := do
  let s ← get
  match s.nvs.loadKeypair with
  | some (priv, pub) => modify fun s => s.withKeypair priv pub
  | none =>
    match w.crypto.x25519Keygen w.entropy with
    | some (priv, pub) =>
      modify fun s => s.withKeypair priv pub
      saveKeypair w priv pub
    | none => fatal w .config .mesh 3 "MESH: keypair gen failed"

/-- Load the masters and the enrolled flag. -/
def Node.loadMasters (s : Node) : Node :=
  let master := Nvs.loadMac s.nvs.knownMasterMac s.enrollment.knownMasterMac
  let secondary := Nvs.loadMac s.nvs.knownMasterMacSec s.enrollment.knownMasterMacSecondary
  { s with
    enrollment :=
      { s.enrollment with
        knownMasterMac := master.1
        hasMasterMac := master.2
        knownMasterMacSecondary := secondary.1
        hasMasterMacSecondary := secondary.2
        enrolled := Nvs.flag s.nvs.enrolledFlag } }

/-- The initialisation of the enrollment state. -/
def initEnrollment (w : World) : MeshM Unit := do
  loadOrGenerateKeypair w
  modify Node.loadMasters

/-- Fit the tables to the role: a master keeps routes and the larger key cache. -/
def Node.reevaluateRouteTable (s : Node) : Node :=
  { s with
    routes := if s.isMaster then some (s.routes.getD RouteTable.empty) else none
    e2eKeys := s.e2eKeys.setCapacity (if s.isMaster then e2eKeycacheMax else e2eKeycacheMaxLeaf) }

/-- Take a role. -/
def Node.setIsMaster (s : Node) (isMaster : Bool) : Node :=
  { s with isMaster := isMaster }.reevaluateRouteTable

/-- Start the next boot epoch. -/
def startEpoch (w : World) : MeshM Unit := do
  let s ← get
  let epoch := s.loadBootEpoch + 1
  saveBootEpoch w epoch
  modify fun s => { s with replay := ReplayCache.empty, txState := s.txState.init epoch }

/-! ### Radio -/

/-- Read the address of this node from the radio. -/
def readMacAddress (w : World) : MeshM Unit :=
  if w.readMacOk then modify fun s => { s with deviceMac := w.stationMac }
  else fail w .hardware .mesh 1 "MESH: Failed to read MAC address"

/-- Bring up the Wi-Fi driver; its checks abort the firmware. -/
def startWifi (w : World) : MeshM Unit := if w.wifiOk then pure () else throw .abort

/-- Bring up the radio and read the address. -/
def setupRadio (w : World) : MeshM Unit := do
  startWifi w
  checkEsp w w.setChannelOk .hardwareFailure "Failed to set WiFi channel"
  readMacAddress w
  modify fun s => { s with peers := s.peers.setDeviceMac s.deviceMac }

/-- Bring up ESP-NOW and register the broadcast address and every peer. -/
def setupEspNow (w : World) : MeshM Bool := do
  if !w.espNowOk then
    fail w .comm .mesh 3 "MESH: esp_now_init failed"
    pure false
  else
    checkEsp w w.setPmkOk .hardwareFailure "Failed to set ESP-NOW PMK"
    modify fun s =>
      { s with radioPeers := if w.addPeerOk broadcastMac then [broadcastMac] else [] }
    let s ← get
    s.peers.peers.forM fun p => registerPeerWithEspNow w p.mac
    pure true

/-- The initialisation of the mesh. -/
def initMesh (w : World) : MeshM Unit := do
  modify fun s => { s with peers := s.peers.loadFromEEPROM w.config s.nvs }
  loadMeshKeyFromEEPROM w
  initEnrollment w
  modify Node.reevaluateRouteTable
  startEpoch w
  setupRadio w
  let ok ← setupEspNow w
  if ok then pure ()
  else fatal w .comm .mesh 1 "MAIN: Mesh init failed — cannot operate without mesh"

/-! ### The whole boot -/

/-- Whether this boot runs in dev mode. -/
def bootsInDevMode (c : Config) (v : Nvs) : Bool := c.devMode || Nvs.flag v.devFlag

/-- The role of this boot. -/
def bootRole (s : Node) (c : Config) : Bool :=
  if s.eeprom.isDevMode then c.defaultDevMaster else Nvs.flag s.nvs.masterFlag

/-- The whole boot. -/
def initSubsystems (w : World) : MeshM Unit := do
  modify fun s =>
    { s with eeprom := { s.eeprom with isDevMode := bootsInDevMode w.config s.nvs } }
  bootstrapPeers w
  initializeDefaultsIfUnset w
  createAdapter w
  initMesh w
  modify fun s => s.setIsMaster (bootRole s w.config)

/-- The boot up to the mesh. -/
def initBeforeRole (w : World) : MeshM Unit := do
  modify fun s =>
    { s with eeprom := { s.eeprom with isDevMode := bootsInDevMode w.config s.nvs } }
  bootstrapPeers w
  initializeDefaultsIfUnset w
  createAdapter w
  initMesh w

/-- The step of the boot that applies the role. -/
def applyRole (w : World) : MeshM Unit := modify fun s => s.setIsMaster (bootRole s w.config)

theorem initSubsystems_eq (w : World) :
    initSubsystems w = initBeforeRole w >>= fun _ => applyRole w := by
  simp only [initSubsystems, initBeforeRole, applyRole, bind_assoc]

end LatticeMesh
