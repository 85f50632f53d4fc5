import LatticeMesh.Wire

/-!
# The platform under the firmware

What the firmware is built with (the project configuration, the crypto backend, the board's own
address) and what the outside decides while it runs (the clock, the random source, and whether a
radio call, a flash write or the display answers).  The non-volatile storage and the single writes
to it are here too, so that the outside can decide on each write.

## Main definitions

* `ErrorTypeDigit`, `ModuleDigit`, `shouldRestart` — the error codes and which of them restart.
* `Nvs`, `NvsOp` — the stored keys and one write to them.
* `Crypto` — the crypto backend: key agreement, key derivation, authentication codes, AEAD.
* `Config`, `Board`, `Env`, `World` — the build, the board, the surroundings of one step, and both.
-/

namespace LatticeMesh

/-! ### Error codes -/

/-- The error classes of the display codes. -/
inductive ErrorTypeDigit
  | generic | sensor | comm | memory | hardware | config | crypto
  deriving DecidableEq, Repr

/-- The modules of the display codes. -/
inductive ModuleDigit
  | core | adapter | mesh | eeprom | hw
  deriving DecidableEq, Repr

/-- The error types that the error core acts on. -/
inductive ErrorType
  | generic | sensorFail | communicationFail | memoryError | configError | hardwareFailure
  deriving DecidableEq, Repr

/-- The error type that `signalError` reports for an error class.  A crypto error counts as a
hardware failure: there is no safe way on past a would-be nonce reuse. -/
def signalledType : ErrorTypeDigit → ErrorType
  | .hardware => .hardwareFailure
  | .comm => .communicationFail
  | .memory => .memoryError
  | .config => .configError
  | .crypto => .hardwareFailure
  | .generic | .sensor => .generic

/-- The error types on which the error core restarts the device. -/
def shouldRestart (t : ErrorType) : Bool := t == .memoryError || t == .hardwareFailure

/-- Whether reporting an error of this class ends in a restart. -/
def ErrorTypeDigit.restarts (t : ErrorTypeDigit) : Bool := shouldRestart (signalledType t)

/-! ### Non-volatile storage -/

/-- The number of peer records. -/
def maxPeers : ℕ := 10

/-- A stored peer: six bytes of address and a 32-byte public key. -/
abbrev PeerRecord := Bytes 38

namespace PeerRecord

/-- The record of a peer. -/
def encode (mac : Mac) (publicKey : Key) : PeerRecord := mac ++ publicKey

/-- The address in a record. -/
def mac (r : PeerRecord) : Mac := Bytes.slice r 0 6

/-- The public key in a record. -/
def publicKey (r : PeerRecord) : Key := Bytes.slice r 6 32

@[simp] theorem mac_encode (a : Mac) (k : Key) : mac (encode a k) = a := by
  apply List.Vector.eq
  show ((a.toList ++ k.toList).drop 0).take 6 = a.toList
  rw [List.drop_zero, List.take_append_of_le_length (by rw [a.toList_length])]
  exact List.take_of_length_le (by rw [a.toList_length])

@[simp] theorem publicKey_encode (a : Mac) (k : Key) : publicKey (encode a k) = k := by
  apply List.Vector.eq
  show ((a.toList ++ k.toList).drop 6).take 32 = k.toList
  rw [List.drop_append_of_le_length (by rw [a.toList_length]),
    List.drop_eq_nil_of_le (by rw [a.toList_length]), List.nil_append]
  exact List.take_of_length_le (by rw [k.toList_length])

end PeerRecord

/-- The contents of the flash namespace `lattice`; a key that was never written is `none`. -/
structure Nvs where
  masterFlag : Option UInt8 := none
  devFlag : Option UInt8 := none
  adapterType : Option UInt8 := none
  meshKey : Option (Bytes 16) := none
  peer : List.Vector (Option PeerRecord) maxPeers := List.Vector.replicate _ none
  privateKey : Option Key := none
  publicKey : Option Key := none
  keypairCrc : Option UInt32 := none
  enrolledFlag : Option UInt8 := none
  bootEpoch : Option UInt32 := none
  knownMasterMac : Option Mac := none
  knownMasterMacSec : Option Mac := none
  txPowerPreset : Option UInt8 := none
  nodeId : Option UInt8 := none
  deriving DecidableEq

/-- One write to the flash: a key and its new value, the removal of a peer record, or the removal
of everything. -/
inductive NvsOp
  | masterFlag (b : UInt8)
  | adapterType (t : UInt8)
  | meshKey (k : Bytes 16)
  | peer (i : Fin maxPeers) (r : PeerRecord)
  | erasePeer (i : Fin maxPeers)
  | privateKey (k : Key)
  | publicKey (k : Key)
  | keypairCrc (c : UInt32)
  | enrolledFlag (b : UInt8)
  | bootEpoch (e : UInt32)
  | knownMasterMac (m : Mac)
  | knownMasterMacSec (m : Mac)
  | txPowerPreset (p : UInt8)
  | nodeId (n : UInt8)
  | clear
  deriving DecidableEq

/-- The flash after a write. -/
def NvsOp.apply : NvsOp → Nvs → Nvs
  | .masterFlag b, v => { v with masterFlag := some b }
  | .adapterType t, v => { v with adapterType := some t }
  | .meshKey k, v => { v with meshKey := some k }
  | .peer i r, v => { v with peer := v.peer.set i (some r) }
  | .erasePeer i, v => { v with peer := v.peer.set i none }
  | .privateKey k, v => { v with privateKey := some k }
  | .publicKey k, v => { v with publicKey := some k }
  | .keypairCrc c, v => { v with keypairCrc := some c }
  | .enrolledFlag b, v => { v with enrolledFlag := some b }
  | .bootEpoch e, v => { v with bootEpoch := some e }
  | .knownMasterMac m, v => { v with knownMasterMac := some m }
  | .knownMasterMacSec m, v => { v with knownMasterMacSec := some m }
  | .txPowerPreset p, v => { v with txPowerPreset := some p }
  | .nodeId n, v => { v with nodeId := some n }
  | .clear, _ => {}

/-! ### Crypto backend -/

/-- The crypto backend.  Each call may fail, which is `none`. -/
structure Crypto where
  /-- A fresh private and public key from the random source. -/
  x25519Keygen : Bytes 32 → Option (Key × Key)
  /-- The shared secret of a private and a peer's public key; fails for invalid peer keys. -/
  x25519Shared : Key → Key → Option Key
  /-- HKDF-SHA256 with an empty salt: input key material and label. -/
  hkdfSha256 : Key → String → Option Key
  /-- HMAC-SHA256: key and message. -/
  hmacSha256 : Key → List UInt8 → Option (Bytes 32)
  /-- ChaCha20-Poly1305: key, nonce, associated data, plaintext. -/
  aeadSeal : Key → Bytes 12 → Bytes 24 → Payload → Option (Payload × AuthTag)
  /-- The inverse, checked against the tag. -/
  aeadOpen : Key → Bytes 12 → Bytes 24 → Payload → AuthTag → Option Payload

/-! ### Build and surroundings -/

/-- The project configuration and the master pin the firmware was built with. -/
structure Config where
  devMode : Bool
  defaultDevMaster : Bool
  defaultAdapter : AdapterType
  dualMasterMode : Bool
  defaultMeshKey : Bytes 16
  /-- The table `DEFAULT_PEERS`. -/
  defaultPeers : List Mac
  /-- The flash bytes that the linker placed behind that table. -/
  afterDefaultPeers : ℕ → UInt8
  enableSevsegDisplay : Bool
  pinMasterPubkey : Key
  pinMasterMac : Mac

/-- One device: its build, its crypto backend and its factory-set station address. -/
structure Board where
  config : Config
  crypto : Crypto
  stationMac : Mac

/-- What the surroundings answer during one step of the firmware. -/
structure Env where
  /-- Milliseconds since boot. -/
  nowMs : UInt64
  /-- The word `esp_random` returns. -/
  random : UInt32
  /-- The bytes `esp_fill_random` returns to key generation. -/
  entropy : Bytes 32
  /-- Whether `esp_now_send` to a registered address succeeds. -/
  sendOk : Mac → Bool
  /-- Whether `esp_now_add_peer` succeeds. -/
  addPeerOk : Mac → Bool
  /-- Whether a flash write succeeds. -/
  nvsOk : NvsOp → Bool
  /-- Whether the display acknowledges every byte. -/
  displayAck : Bool
  /-- Whether reading the station address from the radio succeeds. -/
  readMacOk : Bool
  /-- Whether the Wi-Fi driver comes up. -/
  wifiOk : Bool
  /-- Whether the radio channel is set. -/
  setChannelOk : Bool
  /-- Whether the ESP-NOW stack comes up. -/
  espNowOk : Bool
  /-- Whether the ESP-NOW primary key is set. -/
  setPmkOk : Bool
  /-- Whether the hardware of a PIR adapter comes up. -/
  pirOk : Bool
  /-- Whether the interrupt of a PIR adapter can be attached. -/
  interruptOk : Bool
  /-- Whether the serial encoding of a frame fits its buffer. -/
  serialEncodes : Message → Bool
  /-- Whether the ring buffer takes one more entry behind this many. -/
  ringbufAccepts : ℕ → Bool

/-- A device in its surroundings. -/
structure World extends Board, Env

end LatticeMesh
