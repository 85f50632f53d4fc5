import LatticeMesh.Boot
import LatticeMesh.Lib.Runs

/-!
# The device

A device is a node that is off, running, or halted.  A step of the device is a boot, which keeps
the flash and nothing else, or one input to a running node.

## Main definitions

* `Device`, `Device.step` — the machine.
* `Device.run` — a run over a list of inputs, each with what the surroundings answer to it.
-/

namespace LatticeMesh

/-- Whether a device runs. -/
inductive Status
  | off
  | running
  | halted (h : Halt)
  deriving DecidableEq

/-- A node and whether it runs. -/
structure Device where
  node : Node := {}
  status : Status := .off

/-- The world of one step. -/
def Board.world (b : Board) (e : Env) : World := { b with toEnv := e }

/-- The node at power-on: only the flash is left, and the history. -/
def Node.powerOn (s : Node) (c : Config) : Node :=
  { dualMasterMode := c.dualMasterMode, nvs := s.nvs, trace := s.trace }

/-- The config button was held: the role toggles, in production by way of a restart. -/
def tickConfig (w : World) : MeshM Unit := do
  let s ← get
  if s.eeprom.isDevMode then modify fun s => s.setIsMaster !s.isMaster
  else
    saveMasterFlag w !Nvs.flag s.nvs.masterFlag
    emit .espRestart
    throw .espRestart

/-- The reset button was held and confirmed: the flash is wiped. -/
def tickReset (w : World) : MeshM Unit := do
  nvsPut w .clear false
  emit .espRestart
  throw .espRestart

/-- What a running node does with an input. -/
def handleInput (w : World) : Input → MeshM Unit
  | .boot => initSubsystems w
  | .rx srcMac msg => handleReceivedMessage w srcMac msg
  | .transmit type data => transmit w type data
  | .transmitSelfOriginated type data => transmitSelfOriginated w type data
  | .loop => loop w
  | .checkMasterTimeout => checkTimeout w
  | .tickEnrollmentBroadcast => tickEnrollmentBroadcast w
  | .serial msg => handleCompleteFrame w msg
  | .configButton => tickConfig w
  | .resetButton => tickReset w

namespace Device

/-- A device that was never switched on. -/
def blank (v : Nvs) : Device := { node := { nvs := v } }

/-- The state in which the program of a step starts, if the device reacts to the input at all: a
boot starts over from the flash, every other input needs a running node. -/
def start (b : Board) (d : Device) (i : Input) : Option Node :=
  if i = .boot then some ((d.node.powerOn b.config).emit (.input i))
  else if d.status = .running then some (d.node.emit (.input i))
  else none

/-- The device after a program. -/
def ofResult : EStateM.Result Halt Node Unit → Device
  | .ok _ s => ⟨s, .running⟩
  | .error h s => ⟨s, .halted h⟩

/-- One step of the device. -/
def step (b : Board) (d : Device) (x : Env × Input) : Device :=
  match start b d x.2 with
  | some s => ofResult (handleInput (b.world x.1) x.2 s)
  | none => d

/-- A run of the device. -/
def run (b : Board) (d : Device) (xs : List (Env × Input)) : Device := Runs.run (step b) d xs

end Device

/-! ### A sample board

A board, a crypto backend and a few frames on which runs can be computed. -/

namespace Sample

def mac (n : UInt8) : Mac := Bytes.fill 6 n

def key (n : UInt8) : Key := Bytes.fill 32 n

def xor {n : ℕ} (a b : Bytes n) : Bytes n := List.Vector.map₂ (· ^^^ ·) a b

/-- The point `u = 1` of low order, which every key agreement rejects; keys are big-endian. -/
def lowOrderKey : Key := Bytes.blit (Bytes.zero 32) 31 (Bytes.fill 1 1)

/-- The authentication tag of the sample cipher. -/
def tag (k : Key) (nonce : Bytes 12) (data : Payload) : AuthTag :=
  nonce ++ Bytes.ofList (n := 4) [k.head, data.head, data.toList.foldl (· + ·) 0, 0]

/-- A crypto backend that is as good as the real one where nobody looks for collisions. -/
def crypto : Crypto where
  x25519Keygen entropy := some (entropy, entropy)
  x25519Shared priv pub := if pub = lowOrderKey then none else some (xor priv pub)
  hkdfSha256 secret label := some (secret.map (· + if label = upLabel then 1 else 2))
  hmacSha256 k msg := some (k.map (· + msg.foldl (· + ·) 0))
  aeadSeal k nonce _ data := some (data.map (· ^^^ k.head), tag k nonce data)
  aeadOpen k nonce _ cipher t :=
    let data := cipher.map (· ^^^ k.head)
    if t = tag k nonce data then some data else none

def config : Config where
  devMode := false
  defaultDevMaster := false
  defaultAdapter := AdapterType.pir
  dualMasterMode := false
  defaultMeshKey := Bytes.fill 16 3
  defaultPeers := []
  afterDefaultPeers _ := 0xFF
  enableSevsegDisplay := false
  pinMasterPubkey := key 7
  pinMasterMac := mac 7

/-- The board of a leaf. -/
def board : Board := ⟨config, crypto, mac 1⟩

/-- The board of the master. -/
def masterBoard : Board := ⟨config, crypto, mac 7⟩

/-- Surroundings in which everything works; key generation draws `seed`. -/
def env (seed : UInt8) (nowMs : UInt64) : Env where
  nowMs := nowMs
  random := 0
  entropy := key seed
  sendOk _ := true
  addPeerOk _ := true
  nvsOk _ := true
  displayAck := true
  readMacOk := true
  wifiOk := true
  setChannelOk := true
  espNowOk := true
  setPmkOk := true
  pirOk := true
  interruptOk := true
  serialEncodes _ := true
  ringbufAccepts _ := true

/-- A frame of the station `n`. -/
def frame (n : UInt8) (messageType : UInt8) (epochNum : UInt32) (seqNum : UInt16) : Message :=
  { Message.zero with
    protoVersion := protoVersion, messageType := messageType, originMac := mac n
    targetMac := broadcastMac, lastHopMac := mac n, epochNum := epochNum, seqNum := seqNum }

/-- The acknowledgement with which the master admits the leaf. -/
def joinAck : Message :=
  { frame 7 MessageType.joinAck 1 1 with
    targetMac := mac 1, data := joinAckData (key 1) none, enrollmentPublicKey := key 7 }

/-- The acknowledgement of the master that names the station 8 as the secondary master. -/
def dualJoinAck : Message :=
  { joinAck with data := joinAckData (key 1) (some (mac 8, key 8)) }

/-- The beacon of the master. -/
def beacon : Message := frame 7 MessageType.masterBeacon 1 2

/-- A leaf that booted for the first time, was admitted and heard the master. -/
def admitted : List (Env × Input) :=
  [(env 1 100, .boot), (env 1 200, .rx (mac 7) joinAck), (env 1 300, .rx (mac 7) beacon)]

/-- A data frame for the master under the address of the leaf. -/
def reflected (epochNum : UInt32) (seqNum : UInt16) : Message :=
  { frame 1 MessageType.adapterData epochNum seqNum with targetMac := mac 7 }

end Sample

end LatticeMesh
