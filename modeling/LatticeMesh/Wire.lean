import LatticeMesh.Lib.Bytes

/-!
# The wire format

The mesh frame and the constants that travel in it.  A frame has fifteen fields; enumerated fields
(message type, adapter type, opcode) are plain integers here because a received frame may carry any
value in them.

## Main definitions

* `Mac`, `Key`, `Payload`, `RoutePath` — the fixed-width fields.
* `Message` — the frame `mesh_message`.
* `MessageType`, `AdapterType`, `Opcode` — the values the firmware knows.
* `isSealedType` — the message types whose payload is sealed end to end.
* `routeHop`, `setRouteHop`, `Message.hop` — one entry of a source route.

## Main results

* `Message.RelayOf` — what a relay may change in a frame.
* `Message.RelayOf.trans` — relaying composes.
-/

namespace LatticeMesh

/-- A station address. -/
abbrev Mac := Bytes 6

/-- A Curve25519 key or a derived symmetric key. -/
abbrev Key := Bytes 32

/-- The application payload of a frame. -/
abbrev Payload := Bytes 64

/-- The source route of a frame: eight addresses. -/
abbrev RoutePath := Bytes 48

/-- The detached tag of the sealed payload. -/
abbrev AuthTag := Bytes 16

/-- The truncated chain authentication code of a route report. -/
abbrev AuthPath := Bytes 8

/-- The broadcast address `FF:FF:FF:FF:FF:FF`. -/
def broadcastMac : Mac := Bytes.fill 6 0xFF

/-- The all-zero address. -/
def zeroMac : Mac := Bytes.zero 6

/-- The protocol version every frame of this firmware carries. -/
def protoVersion : UInt8 := 5

/-- The maximum number of hops of a route. -/
def maxHops : ℕ := 8

namespace MessageType

def adapterData : UInt8 := 0
def masterBeacon : UInt8 := 1
def enrollment : UInt8 := 2
def serialCmdBroadcast : UInt8 := 3
def joinAck : UInt8 := 4
def routeReport : UInt8 := 5

end MessageType

/-- The type of the adapter a payload belongs to; any 32-bit value may be received. -/
abbrev AdapterType := Int32

namespace AdapterType

def unknown : AdapterType := 0
def serial : AdapterType := 1
def pir : AdapterType := 2

end AdapterType

namespace Opcode

def healthReq : UInt8 := 0xB0
def healthReport : UInt8 := 0xB1
def nodeHealth : UInt8 := 0xB2
def routeReport : UInt8 := 0xB3
def nodeIdSet : UInt8 := 0xC0
def configSet : UInt8 := 0xC1
def txPowerSet : UInt8 := 0xC2

end Opcode

/-- The `i`-th address of a source route. -/
def routeHop (path : RoutePath) (i : Fin maxHops) : Mac :=
  Bytes.slice path (6 * i) 6 (by have := i.isLt; simp only [maxHops] at this; omega)

/-- The source route with its `i`-th address replaced. -/
def setRouteHop (path : RoutePath) (i : Fin maxHops) (mac : Mac) : RoutePath :=
  Bytes.blit path (6 * i) mac (by have := i.isLt; simp only [maxHops] at this; omega)

/-- An address that was written into a source route is read back from it. -/
theorem routeHop_setRouteHop (path : RoutePath) (i : Fin maxHops) (mac : Mac) :
    routeHop (setRouteHop path i mac) i = mac :=
  Bytes.slice_blit path _ mac _

/-- The other addresses stay. -/
theorem routeHop_setRouteHop_of_ne (path : RoutePath) {i j : Fin maxHops} (mac : Mac) (h : i ≠ j) :
    routeHop (setRouteHop path i mac) j = routeHop path j := by
  refine Bytes.slice_blit_of_disjoint path mac _ _ ?_
  have hij : i.val ≠ j.val := fun he => h (Fin.ext he)
  omega

/-- The frame that travels over the radio. -/
structure Message where
  protoVersion : UInt8
  messageType : UInt8
  dataType : AdapterType
  originMac : Mac
  targetMac : Mac
  lastHopMac : Mac
  data : Payload
  hopCount : UInt8
  epochNum : UInt32
  seqNum : UInt16
  enrollmentPublicKey : Key
  routeLen : UInt8
  routePath : RoutePath
  authTag : AuthTag
  authPath : AuthPath
  deriving DecidableEq

namespace Message

/-- The zero-initialised frame. -/
def zero : Message where
  protoVersion := 0
  messageType := 0
  dataType := 0
  originMac := zeroMac
  targetMac := zeroMac
  lastHopMac := zeroMac
  data := Bytes.zero 64
  hopCount := 0
  epochNum := 0
  seqNum := 0
  enrollmentPublicKey := Bytes.zero 32
  routeLen := 0
  routePath := Bytes.zero 48
  authTag := Bytes.zero 16
  authPath := Bytes.zero 8

/-- The payload has a byte for every literal index below its size. -/
instance payloadSize_neZero : @NeZero ℕ Zero.ofOfNat0 64 := ⟨Nat.succ_ne_zero 63⟩

/-- The byte `i` of the payload. -/
def byte (m : Message) (i : Fin 64) : UInt8 := m.data.get i

/-- The `i`-th address of the source route. -/
def hop (m : Message) (i : Fin maxHops) : Mac := routeHop m.routePath i

/-- The indices of the source route that the frame says are in use. -/
def hopIndices (m : Message) : List (Fin maxHops) :=
  (List.finRange maxHops).take m.routeLen.toNat

/-- The fields a relay may rewrite, copied from `n` onto `m`. -/
def withRouting (m n : Message) : Message :=
  { m with
    hopCount := n.hopCount, lastHopMac := n.lastHopMac, routeLen := n.routeLen,
    routePath := n.routePath, authPath := n.authPath }

/-- The frame `r` is a relayed copy of `m`: they differ at most in the hop count, the last hop, the
source route and the route authentication code. -/
def RelayOf (m r : Message) : Prop := r.withRouting m = m

theorem RelayOf.refl (m : Message) : RelayOf m m := rfl

theorem relayOf_iff {m r : Message} : RelayOf m r ↔ r = m.withRouting r := by
  constructor
  · intro h
    rw [← h]
    rfl
  · intro h
    rw [h]
    rfl

/-- Relaying composes. -/
theorem RelayOf.trans {m r q : Message} (h₁ : RelayOf m r) (h₂ : RelayOf r q) : RelayOf m q := by
  rw [relayOf_iff] at h₁ h₂ ⊢
  rw [h₂, h₁]
  rfl

end Message

/-! ### Layout of payloads

Where the fields of the structured payloads lie. -/

theorem opcode_le : 0 + 2 ≤ 64 := by decide

theorem ackFingerprint_le : 0 + 4 ≤ 64 := by decide

theorem ackSecondaryMac_le : 4 + 6 ≤ 64 := by decide

theorem ackSecondaryKey_le : 10 + 32 ≤ 64 := by decide

theorem fingerprint_le : 0 + 4 ≤ 32 := by decide

theorem authPath_le : 0 + 8 ≤ 32 := by decide

/-- The message types whose payload is sealed end to end. -/
def isSealedType (messageType : UInt8) : Bool :=
  messageType == MessageType.adapterData || messageType == MessageType.routeReport

end LatticeMesh
