import LatticeMesh.Device
import LatticeMesh.Lib.EffectSpec

/-!
# What one input can do to a running node

Every handler of the firmware is a sequence of a few kinds of change, and it is abandoned for a few
reasons only.  This file names them, with what is known where each of them happens; the next one
shows that the handlers do nothing else.  Invariants are then checked against this list.

## Main definitions

* `Quiet` — a change of housekeeping fields alone.
* `reflectsUplink`, `resealsUplink` — the input is a frame under this node's own address that the
  transmit path takes for one of its own, up to the seal guard or up to the seal.
* `MayRegister`, `MayLearn`, `MayLearnSecondary`, `MayEnroll` — what each change of the trust state
  rests on.
* `Effect` — one change, `Stop` — one reason to abandon a handler.

## Main results

* `Effect.sameDevice`, `Effect.isMaster` — what no change touches, and the role.
* `Effect.history` — a change only adds to the history.
-/

namespace LatticeMesh

/-! ### Housekeeping -/

/-- The state `s` with the housekeeping fields of `t`. -/
def Node.withHousekeeping (s t : Node) : Node :=
  { s with
    currentMaster := t.currentMaster
    lastSeenMasterMac := t.lastSeenMasterMac
    beacon := t.beacon
    downlinkPeerLru := t.downlinkPeerLru
    forwardingPeer := t.forwardingPeer
    replay := t.replay
    txState :=
      { s.txState with
        lastRelayedEpoch := t.txState.lastRelayedEpoch
        lastRelayedSeqNum := t.txState.lastRelayedSeqNum }
    relayPendingMsg := t.relayPendingMsg
    relayPendingAt := t.relayPendingAt
    relayPending := t.relayPending
    lastRouteReportMs := t.lastRouteReportMs
    lastEnrollmentBroadcastMs := t.lastEnrollmentBroadcastMs
    enrollment := { s.enrollment with relayQueue := t.enrollment.relayQueue }
    neighbors := t.neighbors
    routes := t.routes
    radioPeers := t.radioPeers }

/-- From `s` to `t` only housekeeping fields change. -/
def Quiet (s t : Node) : Prop := s.withHousekeeping t = t

/-- Who the node is: what no input of a running node changes. -/
structure SameDevice (s t : Node) : Prop where
  deviceMac : t.deviceMac = s.deviceMac
  adapterType : t.adapterType = s.adapterType
  isDevMode : t.eeprom.isDevMode = s.eeprom.isDevMode
  devicePrivateKey : t.enrollment.devicePrivateKey = s.enrollment.devicePrivateKey
  devicePublicKey : t.enrollment.devicePublicKey = s.enrollment.devicePublicKey
  dualMasterMode : t.dualMasterMode = s.dualMasterMode

theorem SameDevice.refl (s : Node) : SameDevice s s := ⟨rfl, rfl, rfl, rfl, rfl, rfl⟩

theorem SameDevice.trans {s t u : Node} (h : SameDevice s t) (h' : SameDevice t u) :
    SameDevice s u :=
  ⟨h'.1.trans h.1, h'.2.trans h.2, h'.3.trans h.3, h'.4.trans h.4, h'.5.trans h.5,
    h'.6.trans h.6⟩

theorem Quiet.sameDevice {s t : Node} (h : Quiet s t) : SameDevice s t := by
  rw [← h]
  exact ⟨rfl, rfl, rfl, rfl, rfl, rfl⟩

/-! ### Sequence numbers -/

/-- Whether an event is the start of an epoch. -/
def Event.isEpoch : Event → Bool
  | .nvs (.bootEpoch _) | .devEpoch _ => true
  | _ => false

/-- The number of epochs drawn in a history. -/
def epochDraws (tr : List Event) : ℕ := tr.countP Event.isEpoch

@[simp] theorem epochDraws_append (es tr : List Event) :
    epochDraws (es ++ tr) = epochDraws es + epochDraws tr := List.countP_append

theorem epochDraws_cons (e : Event) (tr : List Event) :
    epochDraws (e :: tr) = epochDraws tr + if e.isEpoch then 1 else 0 := List.countP_cons

/-- The state after an epoch was stored: in flash, or in dev mode in memory. -/
def Node.savedEpoch (s : Node) (epoch : UInt32) : Node :=
  if s.eeprom.isDevMode then
    { s with eeprom := { s.eeprom with devEpoch := epoch } }.emit (.devEpoch epoch)
  else { s with nvs := { s.nvs with bootEpoch := some epoch } }.emit (.nvs (.bootEpoch epoch))

/-- The state after a sequence number was drawn. -/
def Node.drawn (s : Node) : Node :=
  if s.txState.txSeqNum + 1 = 0 then
    { s.savedEpoch (s.txState.bootEpoch + 1) with
      txState := { s.txState with bootEpoch := s.txState.bootEpoch + 1, txSeqNum := 1 } }
  else
    { s with txState := { s.txState with txSeqNum := s.txState.txSeqNum + 1 } }

theorem Node.savedEpoch_sameDevice (s : Node) (epoch : UInt32) :
    SameDevice s (s.savedEpoch epoch) := by
  unfold Node.savedEpoch
  split <;> exact ⟨rfl, rfl, rfl, rfl, rfl, rfl⟩

@[simp] theorem Node.savedEpoch_isMaster (s : Node) (epoch : UInt32) :
    (s.savedEpoch epoch).isMaster = s.isMaster := by
  unfold Node.savedEpoch
  split <;> rfl

@[simp] theorem Node.drawn_isMaster (s : Node) : s.drawn.isMaster = s.isMaster := by
  unfold Node.drawn
  split <;> simp

theorem Node.drawn_sameDevice (s : Node) : SameDevice s s.drawn := by
  have h := s.savedEpoch_sameDevice (s.txState.bootEpoch + 1)
  unfold Node.drawn
  split
  · exact ⟨h.1, h.2, h.3, h.4, h.5, h.6⟩
  · exact ⟨rfl, rfl, rfl, rfl, rfl, rfl⟩

/-- Where the payload of a frame comes from that this node builds: a health report about itself,
what an adapter or the server handed over, a route report, or an empty beacon. -/
def OwnPayload (w : World) (i : Input) (s : Node) (data : Payload) : Prop :=
  data = buildHealthFrame s Opcode.healthReport w.nowMs ∨
    match i with
    | .transmit _ d => data = d
    | .transmitSelfOriginated _ d => data = d
    | .loop => data = routeReportData ∨ data = Bytes.zero 64
    | .serial m => data = m.data ∨ data = txPowerData (m.byte 1)
    | _ => False

/-! ### Sealing -/

/-- Whether the input is a frame that carries this node's own address as its origin, passes the
version and replay checks and reaches the seal guard of a leaf. -/
def reflectsUplink (w : World) (s : Node) : Input → Bool
  | .rx _ m =>
    m.protoVersion = protoVersion && !(replayGate s.replay m w.nowMs).1 &&
      m.originMac = s.deviceMac && !s.isMaster &&
      ((m.messageType = MessageType.adapterData && s.routeDecision m = .relayTowardMaster) ||
        (m.messageType = MessageType.routeReport && m.hopCount.toNat < maxHops &&
          m.routeLen.toNat < maxHops && (s.masterKeys w.crypto).isSome))
  | _ => false

/-- Whether the input is such a frame that also passes the seal guard and finds the keys of the
master, so that it is sealed. -/
def resealsUplink (w : World) (s : Node) (i : Input) : Bool :=
  reflectsUplink w s i && (s.masterKeys w.crypto).isSome &&
    match i with
    | .rx _ m => s.txState.sealAdvances m.epochNum m.seqNum
    | _ => false

/-- The frame `m` was just built here, up to its target. -/
def JustBuilt (s : Node) (m : Message) : Prop :=
  ∃ m', s.trace.head? = some (.built m') ∧ m = { m' with targetMac := m.targetMac }

/-- What a frame is that gets as far as the seal guard: just built, or reflected. -/
def Guardable (w : World) (s₀ : Node) (i : Input) (s : Node) (m : Message) : Prop :=
  JustBuilt s m ∨ reflectsUplink w s₀ i = true

/-- The frame `m` was built here and passed the seal guard, and nothing happened in between. -/
def JustGuarded (s : Node) (m : Message) : Prop :=
  ∃ m' tr, s.trace = .guarded m.epochNum m.seqNum :: .built m' :: tr ∧
    m = { m' with targetMac := m.targetMac }

/-- What a frame is that gets as far as the seal: built here and passed by the guard, or
reflected. -/
def Sealable (w : World) (s₀ : Node) (i : Input) (s : Node) (m : Message) : Prop :=
  JustGuarded s m ∨ resealsUplink w s₀ i = true

/-- The keys shared with a registered peer: from the cache, or derived from its public key. -/
def KeysFor (c : Crypto) (s : Node) (mac : Mac) (keys : E2EKeys) : Prop :=
  s.e2eKeys.capacity ≠ 0 ∧ ∃ key, s.peers.keyOf mac = some key ∧
    (s.e2eKeys.cached mac = some keys ∨
      key.isZero = false ∧ e2eKeysOf c s.enrollment.devicePrivateKey key = some keys)

/-! ### Trust state -/

/-- The input is a join acknowledgement for this leaf that it accepts. -/
def AcceptsJoinAck (w : World) (i : Input) (s : Node) (m : Message) : Prop :=
  (∃ srcMac, i = .rx srcMac m) ∧ m.messageType = MessageType.joinAck ∧ s.isMaster = false ∧
    m.targetMac = s.deviceMac ∧ joinAckAccepted w.config s.enrollment m = true

/-- The sender of a frame is registered, under an established key if the frame carries one. -/
def OriginRegistered (s : Node) (m : Message) : Prop :=
  (s.peers.find m.originMac).isSome ∧
    (m.enrollmentPublicKey.isZero = false → s.peers.keyEstablished m.originMac = true)

/-- Who may register the address `mac` under the key `key`. -/
inductive MayRegister (w : World) (i : Input) (s : Node) : Mac → Key → Prop
  /-- Any enrollment request that reaches a master. -/
  | enrollment {srcMac m} (hi : i = .rx srcMac m) (ht : m.messageType = MessageType.enrollment)
      (hm : s.isMaster = true) (hk : s.peers.keyEstablished m.originMac = false) :
      MayRegister w i s m.originMac m.enrollmentPublicKey
  /-- The sender of an accepted join acknowledgement. -/
  | joinAck {m} (h : AcceptsJoinAck w i s m) (hk : s.peers.keyEstablished m.originMac = false) :
      MayRegister w i s m.originMac m.enrollmentPublicKey
  /-- The secondary master that an accepted join acknowledgement names. -/
  | secondary {m} (h : AcceptsJoinAck w i s m) (ho : OriginRegistered s m)
      (hz : m.ackSecondaryMac ≠ zeroMac)
      (hk : s.peers.keyEstablished m.ackSecondaryMac = false) :
      MayRegister w i s m.ackSecondaryMac m.ackSecondaryKey
  /-- A node that the server approved, under the key it is registered with already. -/
  | approved {m p} (hi : i = .serial m) (ht : m.messageType = MessageType.joinAck)
      (hz : m.enrollmentPublicKey.isZero = false) (hp : s.peers.find m.targetMac = some p) :
      MayRegister w i s m.targetMac p.publicKey

/-- Whose address may be learned as the master's. -/
inductive MayLearn (w : World) (i : Input) (s : Node) : Mac → Prop
  | beacon {srcMac m} (hi : i = .rx srcMac m) (ht : m.messageType = MessageType.masterBeacon)
      (hp : beaconPinned w.config m = true) : MayLearn w i s m.originMac
  | joinAck {m} (h : AcceptsJoinAck w i s m) (ho : OriginRegistered s m)
      (hm : s.enrollment.hasMasterMac = false) : MayLearn w i s m.originMac

/-- Whose address may be learned as the secondary master's, if none is known. -/
inductive MayLearnSecondary (w : World) (i : Input) (s : Node) : Mac → Prop
  | beacon {srcMac m} (hi : i = .rx srcMac m) (ht : m.messageType = MessageType.masterBeacon)
      (hp : beaconPinned w.config m = true)
      (hn : s.enrollment.hasMasterMacSecondary = false) : MayLearnSecondary w i s m.originMac
  | joinAck {m} (h : AcceptsJoinAck w i s m)
      (hn : s.enrollment.hasMasterMacSecondary = false) : MayLearnSecondary w i s m.ackSecondaryMac

/-- What enrolls a leaf: an accepted join acknowledgement whose sender is registered. -/
def MayEnroll (w : World) (i : Input) (s : Node) : Prop :=
  ∃ m, AcceptsJoinAck w i s m ∧ OriginRegistered s m

/-- What lets a received frame reconfigure the node: it is a data frame for this node, which opens
to such a command with the keys shared with its origin, or at a leaf with the master, and it comes
from a known master as soon as one is known.  Local commands are not restricted. -/
def MayConfigure (w : World) (i : Input) (s : Node) : Prop :=
  ∀ srcMac m, i = .rx srcMac m → m.messageType = MessageType.adapterData ∧
    m.targetMac = s.deviceMac ∧
    (∃ keys opened,
      KeysFor w.crypto s (if s.isMaster then m.originMac else s.currentMaster.mac) keys ∧
      openPayload w.crypto (if s.isMaster then keys.kUp else keys.kDown) m = some opened ∧
      isConfigOpcode opened = true) ∧
    (s.enrollment.hasMasterMac = true → s.enrollment.isKnownMaster m.originMac = true)

/-- The registry after a registration that stores the key. -/
def PeerRegistry.register (r : PeerRegistry) (mac : Mac) (key : Key) (nowMs : UInt64) :
    PeerRegistry :=
  if (r.find mac).isSome then r.setKey mac key nowMs else r.append ⟨mac, key, nowMs⟩

/-- Whether a registration stores the key it is given. -/
def PeerRegistry.stores (r : PeerRegistry) (mac : Mac) (allowRekey : Bool) : Bool :=
  (allowRekey || !r.keyEstablished mac) && ((r.find mac).isSome || r.count < maxPeers)

/-- The registry after any registration: an established key is kept, a full registry too. -/
def PeerRegistry.registered (r : PeerRegistry) (mac : Mac) (key : Key) (allowRekey : Bool)
    (nowMs : UInt64) : PeerRegistry :=
  if r.stores mac allowRekey then r.register mac key nowMs
  else if r.keyEstablished mac then r.touch mac nowMs
  else r

/-- A slot of the stored registry after it was written: it holds the given record, or if there is
none it is empty, or as before if it could not be erased.  Dev mode stores no record. -/
def SlotSaved (isDevMode : Bool) (record old new : Option PeerRecord) : Prop :=
  match record with
  | some r => new = if isDevMode then old else some r
  | none => new = none ∨ new = old

theorem slotSaved_some {isDevMode : Bool} {r : PeerRecord} {old new : Option PeerRecord} :
    SlotSaved isDevMode (some r) old new ↔ new = if isDevMode then old else some r := Iff.rfl

theorem slotSaved_none {isDevMode : Bool} {old new : Option PeerRecord} :
    SlotSaved isDevMode none old new ↔ new = none ∨ new = old := Iff.rfl

/-- Whether an event is a write to a slot of the stored registry. -/
def Event.isPeerWrite : Event → Bool
  | .nvs (.peer _ _) => true
  | .nvs (.erasePeer _) => true
  | _ => false

/-- The flash and the history after some slots of the registry were written. -/
structure PeersWritten (s t : Node) : Prop where
  nvs : t.nvs = { s.nvs with peer := t.nvs.peer }
  trace : ∃ es, t.trace = es ++ s.trace ∧ ∀ e ∈ es, e.isPeerWrite = true

/-- The state after the master's address was learned. -/
def Node.learnedMaster (s : Node) (mac : Mac) : Node :=
  { s with enrollment := { s.enrollment with knownMasterMac := mac, hasMasterMac := true } }

/-- The state after the secondary master's address was learned. -/
def Node.learnedSecondary (s : Node) (mac : Mac) : Node :=
  { s with
    enrollment :=
      { s.enrollment with knownMasterMacSecondary := mac, hasMasterMacSecondary := true } }

/-- The state after a write to the flash, which dev mode skips. -/
def Node.saved (s : Node) (op : NvsOp) : Node :=
  if s.eeprom.isDevMode then s else { s with nvs := op.apply s.nvs }.emit (.nvs op)

theorem Node.saved_of_dev {s : Node} (h : s.eeprom.isDevMode = true) (op : NvsOp) :
    s.saved op = s := if_pos h

theorem Node.saved_of_not_dev {s : Node} (h : ¬s.eeprom.isDevMode = true) (op : NvsOp) :
    s.saved op = { s with nvs := op.apply s.nvs }.emit (.nvs op) := if_neg h

theorem Node.saved_sameDevice (s : Node) (op : NvsOp) : SameDevice s (s.saved op) := by
  unfold Node.saved
  split <;> exact ⟨rfl, rfl, rfl, rfl, rfl, rfl⟩

@[simp] theorem Node.saved_isMaster (s : Node) (op : NvsOp) :
    (s.saved op).isMaster = s.isMaster := by
  unfold Node.saved
  split <;> rfl

/-- The writes that touch neither the registry nor the trust state nor the epoch. -/
def NvsOp.isSetting : NvsOp → Bool
  | .masterFlag _ | .adapterType _ | .txPowerPreset _ | .nodeId _ => true
  | _ => false

/-- The writes that reconfigure the node. -/
def NvsOp.isConfig : NvsOp → Bool
  | .adapterType _ | .nodeId _ => true
  | _ => false

/-- The writes that change the role of the next boot. -/
def NvsOp.isRole : NvsOp → Bool
  | .masterFlag _ => true
  | _ => false

/-! ### Changes -/

/-- Whether an event starts a step. -/
def Event.isInput : Event → Bool
  | .input _ => true
  | _ => false

/-- The events of the step that is going on. -/
def Node.stepEvents (s : Node) : List Event := s.trace.takeWhile fun e => !e.isInput

/-- A frame of this node that was built in the step that is going on. -/
def BuiltInStep (s : Node) (out : Message) : Prop :=
  out.originMac = s.deviceMac ∧ ∃ b, .built b ∈ s.stepEvents ∧ buildNonce out = buildNonce b

/-- A frame that is sent while a frame of another node is processed is a relayed copy of it, or was
built here in the same step. -/
def MaySend (i : Input) (s : Node) (out : Message) : Prop :=
  ∀ srcMac m, i = .rx srcMac m → m.originMac ≠ s.deviceMac →
    Message.RelayOf m out ∨ BuiltInStep s out

/-- Events that only report trouble or a restart. -/
def Event.isFault : Event → Bool
  | .errFail .. | .errFatal .. | .espRestart => true
  | _ => false

/-- One change of a running node, where the program of its step was started in `s₀` with the input
`i`. -/
inductive Effect (w : World) (s₀ : Node) (i : Input) : Node → Node → Prop
  | quiet {s t} (h : Quiet s t) : Effect w s₀ i s t
  | touch (s mac nowMs) : Effect w s₀ i s { s with peers := s.peers.touch mac nowMs }
  | warn (s t m sub text) (h : ErrorTypeDigit.restarts t = false) :
      Effect w s₀ i s (s.emit (.errFail t m sub text))
  | tx (s dest out) (h : MaySend i s out) : Effect w s₀ i s (s.emit (.tx dest out))
  | deliver (s m) : Effect w s₀ i s (s.emit (.deliver m))
  | serialOut (s m) : Effect w s₀ i s (s.emit (.serialOut m))
  | relayToServer (s mac key) : Effect w s₀ i s (s.emit (.relayToServer mac key))
  | setting (s op) (h : NvsOp.isSetting op = true)
      (hc : NvsOp.isConfig op = true → MayConfigure w i s)
      (hr : NvsOp.isRole op = true → i = .configButton) :
      Effect w s₀ i s ({ s with nvs := op.apply s.nvs }.emit (.nvs op))
  | wipe (s) (hi : i = .resetButton) :
      Effect w s₀ i s ({ s with nvs := {} }.emit (.nvs .clear))
  | role (s) (hi : i = .configButton) : Effect w s₀ i s (s.setIsMaster !s.isMaster)
  | draw (s) : Effect w s₀ i s s.drawn
  | build (s type data msgType) (h : OwnPayload w i s data) :
      Effect w s₀ i s
        (s.drawn.emit (.built (builtMessage s.drawn type data msgType s.drawn.txState.txSeqNum)))
  | guardSeal (s m) (h : Guardable w s₀ i s m)
      (ha : s.txState.sealAdvances m.epochNum m.seqNum = true) :
      Effect w s₀ i s
        ({ s with txState := s.txState.markSealed m.epochNum m.seqNum }.emit
          (.guarded m.epochNum m.seqNum))
  | sealed (s key m) (h : Sealable w s₀ i s m) : Effect w s₀ i s (s.emit (.sealed key m))
  | cacheKeys (s mac) {p keys} (hp : s.peers.find mac = some p)
      (hz : p.publicKey.isZero = false)
      (hk : e2eKeysOf w.crypto s.enrollment.devicePrivateKey p.publicKey = some keys) :
      Effect w s₀ i s { s with e2eKeys := s.e2eKeys.insert mac keys }
  /-- A master opens a frame with the keys of its origin. -/
  | opened (s key m) (hi : ∃ srcMac, i = .rx srcMac m)
      (h : s.isMaster = true → ∃ keys, KeysFor w.crypto s m.originMac keys ∧ key = keys.kUp) :
      Effect w s₀ i s (s.emit (.opened key m))
  | register {s t mac key} (h : MayRegister w i s mac key)
      (hc : (s.peers.find mac).isSome ∨ s.peers.count < maxPeers)
      (hp : t = { s with
        peers := s.peers.register mac key w.nowMs, nvs := t.nvs, trace := t.trace })
      (hw : PeersWritten s t)
      (hs : ∀ j, SlotSaved s.eeprom.isDevMode (t.peers.records j) (s.nvs.peer.get j)
        (t.nvs.peer.get j)) :
      Effect w s₀ i s t
  | learnMaster (s mac) (h : MayLearn w i s mac) :
      Effect w s₀ i s ((s.learnedMaster mac).saved (.knownMasterMac mac))
  | learnSecondary (s mac) (h : MayLearnSecondary w i s mac) :
      Effect w s₀ i s ((s.learnedSecondary mac).saved (.knownMasterMacSec mac))
  | storeEnrolled (s) (h : MayEnroll w i s) : Effect w s₀ i s (s.saved (.enrolledFlag 1))
  | enroll (s) (h : MayEnroll w i s) :
      Effect w s₀ i s { s with enrollment := { s.enrollment with enrolled := true } }

theorem Effect.sameDevice {w : World} {s₀ s t : Node} {i : Input} (h : Effect w s₀ i s t) :
    SameDevice s t := by
  cases h with
  | quiet h => exact h.sameDevice
  | draw => exact s.drawn_sameDevice
  | build =>
    have h := s.drawn_sameDevice
    exact ⟨h.1, h.2, h.3, h.4, h.5, h.6⟩
  | register _ _ hp =>
    rw [hp]
    exact ⟨rfl, rfl, rfl, rfl, rfl, rfl⟩
  | learnMaster mac =>
    have h := (s.learnedMaster mac).saved_sameDevice (.knownMasterMac mac)
    exact ⟨h.1, h.2, h.3, h.4, h.5, h.6⟩
  | learnSecondary mac =>
    have h := (s.learnedSecondary mac).saved_sameDevice (.knownMasterMacSec mac)
    exact ⟨h.1, h.2, h.3, h.4, h.5, h.6⟩
  | storeEnrolled => exact s.saved_sameDevice _
  | _ => exact ⟨rfl, rfl, rfl, rfl, rfl, rfl⟩

/-- Events that start no step, concern no payload and end no life. -/
def Event.isRoutine : Event → Bool
  | .input _ | .built _ | .guarded .. | .sealed .. | .opened .. | .errFatal .. => false
  | .errFail t .. => !t.restarts
  | _ => true

/-- Events that start no step and concern no payload. -/
def Event.isPlain : Event → Bool
  | .input _ | .built _ | .guarded .. | .sealed .. | .opened .. => false
  | _ => true

theorem Event.isPlain_of_isRoutine {e : Event} (h : e.isRoutine = true) : e.isPlain = true := by
  cases e with
  | input | built | guarded | sealed | opened => cases h
  | _ => rfl

theorem Event.isPlain_of_isFault {e : Event} (h : e.isFault = true) : e.isPlain = true := by
  cases e with
  | input | built | guarded | sealed | opened => cases h
  | _ => rfl

theorem Event.isPlain_of_isPeerWrite {e : Event} (h : e.isPeerWrite = true) :
    e.isPlain = true := by
  cases e with
  | nvs => rfl
  | _ => cases h

theorem Event.isInput_of_isPlain {e : Event} (h : e.isPlain = true) : e.isInput = false := by
  cases e with
  | input => cases h
  | _ => rfl

theorem Event.isRoutine_of_isPeerWrite {e : Event} (h : e.isPeerWrite = true) :
    e.isRoutine = true := by
  cases e with
  | nvs => rfl
  | _ => cases h

/-- What a change adds to the history. -/
inductive Adds (w : World) (s₀ : Node) (i : Input) (s t : Node) : List Event → Prop
  | routine {es} (h : ∀ e ∈ es, Event.isRoutine e = true) : Adds w s₀ i s t es
  | built {es type data msgType} (h : OwnPayload w i s data)
      (ht : t = s.drawn.emit
        (.built (builtMessage s.drawn type data msgType s.drawn.txState.txSeqNum)))
      (hes : ∀ e ∈ es, Event.isRoutine e = true) :
      Adds w s₀ i s t
        (.built (builtMessage s.drawn type data msgType s.drawn.txState.txSeqNum) :: es)
  | guarded {m} (h : Guardable w s₀ i s m) : Adds w s₀ i s t [.guarded m.epochNum m.seqNum]
  | sealed {key m} (h : Sealable w s₀ i s m) : Adds w s₀ i s t [.sealed key m]
  | opened {key m} (hi : ∃ srcMac, i = .rx srcMac m)
      (h : s.isMaster = true → ∃ keys, KeysFor w.crypto s m.originMac keys ∧ key = keys.kUp) :
      Adds w s₀ i s t [.opened key m]

theorem Node.saved_trace (s : Node) (op : NvsOp) :
    ∃ es, (s.saved op).trace = es ++ s.trace ∧ ∀ e ∈ es, e.isRoutine = true := by
  unfold Node.saved
  split
  · exact ⟨[], rfl, by simp⟩
  · exact ⟨[_], rfl, by simp [Event.isRoutine]⟩

theorem Node.drawn_trace (s : Node) :
    ∃ es, s.drawn.trace = es ++ s.trace ∧ ∀ e ∈ es, e.isRoutine = true := by
  unfold Node.drawn Node.savedEpoch
  split
  · split <;> exact ⟨[_], rfl, by simp [Event.isRoutine]⟩
  · exact ⟨[], rfl, by simp⟩

/-- A change only adds to the history. -/
theorem Effect.history {w : World} {s₀ s t : Node} {i : Input} (h : Effect w s₀ i s t) :
    ∃ es, t.trace = es ++ s.trace ∧ Adds w s₀ i s t es := by
  cases h with
  | quiet h => exact ⟨[], by rw [← h]; rfl, .routine (by simp)⟩
  | touch | role | cacheKeys | enroll => exact ⟨[], rfl, .routine (by simp)⟩
  | warn t m sub text hr => exact ⟨[_], rfl, .routine (by simp [Event.isRoutine, hr])⟩
  | draw =>
    obtain ⟨es, he, hes⟩ := s.drawn_trace
    exact ⟨es, he, .routine hes⟩
  | build type data msgType h =>
    obtain ⟨es, he, hes⟩ := s.drawn_trace
    exact ⟨_ :: es, congrArg (_ :: ·) he, .built h rfl hes⟩
  | guardSeal m h => exact ⟨_, rfl, .guarded h⟩
  | sealed key m h => exact ⟨_, rfl, .sealed h⟩
  | opened key m hi h => exact ⟨_, rfl, .opened hi h⟩
  | register _ _ _ hw =>
    obtain ⟨es, he, hes⟩ := hw.trace
    exact ⟨es, he, .routine fun e hm => Event.isRoutine_of_isPeerWrite (hes e hm)⟩
  | learnMaster mac =>
    obtain ⟨es, he, hes⟩ := (s.learnedMaster mac).saved_trace (.knownMasterMac mac)
    exact ⟨es, he, .routine hes⟩
  | learnSecondary mac =>
    obtain ⟨es, he, hes⟩ := (s.learnedSecondary mac).saved_trace (.knownMasterMacSec mac)
    exact ⟨es, he, .routine hes⟩
  | storeEnrolled =>
    obtain ⟨es, he, hes⟩ := s.saved_trace (.enrolledFlag 1)
    exact ⟨es, he, .routine hes⟩
  | _ => exact ⟨[_], rfl, .routine (by simp [Event.isRoutine])⟩

/-- Events that end the life of a device, or keep it from going on. -/
def Event.isCrash : Event → Bool
  | .errFatal .. => true
  | .errFail t .. => t.restarts
  | _ => false

/-- No change starts a step or reports a crash. -/
theorem Adds.forall {w : World} {s₀ s t : Node} {i : Input} {es : List Event}
    (h : Adds w s₀ i s t es) : ∀ e ∈ es, e.isInput = false ∧ e.isCrash = false := by
  have hr : ∀ e : Event, e.isRoutine = true → e.isInput = false ∧ e.isCrash = false := by
    intro e he
    cases e with
    | input | errFatal => cases he
    | errFail t => exact ⟨rfl, by simpa [Event.isRoutine, Event.isCrash] using he⟩
    | _ => exact ⟨rfl, rfl⟩
  cases h with
  | routine h => exact fun e he => hr e (h e he)
  | built _ _ hes =>
    rintro e (_ | ⟨_, he⟩)
    · exact ⟨rfl, rfl⟩
    · exact hr e (hes e he)
  | _ => simp [Event.isInput, Event.isCrash]

/-- Only the config button changes the role. -/
theorem Effect.isMaster {w : World} {s₀ s t : Node} {i : Input} (h : Effect w s₀ i s t)
    (hi : i ≠ .configButton) : t.isMaster = s.isMaster := by
  cases h with
  | quiet h => rw [← h]; rfl
  | role hi' => exact absurd hi' hi
  | draw => exact s.drawn_isMaster
  | build => exact s.drawn_isMaster
  | register _ _ hp => rw [hp]
  | learnMaster => exact Node.saved_isMaster _ _
  | learnSecondary => exact Node.saved_isMaster _ _
  | storeEnrolled => exact s.saved_isMaster _
  | _ => rfl

/-- An abandoned program leaves the flash alone and reports only trouble. -/
structure Aborted (s u : Node) : Prop where
  nvs : u.nvs = s.nvs
  eeprom : u.eeprom = s.eeprom
  trace : ∃ es, u.trace = es ++ s.trace ∧ ∀ e ∈ es, e.isFault = true

/-- One reason to abandon the program of a step. -/
inductive Stop (w : World) (s₀ : Node) (i : Input) : Halt → Node → Node → Prop
  /-- The display did not acknowledge an error code. -/
  | display {h s u} (he : w.config.enableSevsegDisplay = true) (hd : w.displayAck = false)
      (ha : Aborted s u) : Stop w s₀ i h s u
  /-- A write to the flash failed. -/
  | nvs {h s u op} (ho : w.nvsOk op = false) (ha : Aborted s u) : Stop w s₀ i h s u
  /-- A write to the flash failed in the middle of a registration: the slots below `k` are written,
  the others are as before. -/
  | register {h s u mac key op} (k : ℕ) (hm : MayRegister w i s mac key)
      (hc : (s.peers.find mac).isSome ∨ s.peers.count < maxPeers) (ho : w.nvsOk op = false)
      (hn : u.nvs = { s.nvs with peer := u.nvs.peer })
      (hs : ∀ j : Fin maxPeers, if j.val < k then
          SlotSaved s.eeprom.isDevMode ((s.peers.register mac key w.nowMs).records j)
            (s.nvs.peer.get j) (u.nvs.peer.get j)
        else u.nvs.peer.get j = s.nvs.peer.get j)
      (ht : ∃ es, u.trace = es ++ s.trace ∧ ∀ e ∈ es, e.isFault = true ∨ e.isPeerWrite = true) :
      Stop w s₀ i h s u
  /-- The seal guard refused a frame. -/
  | sealRefused {h s m} (hm : Guardable w s₀ i s m) (hl : s.isMaster = false ∨ ∃ f, i = .serial f)
      (ha : s.txState.sealAdvances m.epochNum m.seqNum = false) :
      Stop w s₀ i h s
        (s.emit (.errFail .crypto .mesh 1 "AEAD epoch rollback — refusing seal"))
  /-- A registered key is rejected by the key derivation. -/
  | keyRejected {h s mac p sub text} (hp : s.peers.find mac = some p)
      (hz : p.publicKey.isZero = false)
      (hk : e2eKeysOf w.crypto s.enrollment.devicePrivateKey p.publicKey = none) :
      Stop w s₀ i h s (s.emit (.errFatal .config .mesh sub text))
  /-- A restart on command. -/
  | restart {s} : Stop w s₀ i .espRestart s (s.emit .espRestart)

/-- An abandoned program adds only faults and slots of the registry to the history. -/
theorem Stop.history {w : World} {s₀ s u : Node} {i : Input} {h : Halt} (hu : Stop w s₀ i h s u) :
    ∃ es, u.trace = es ++ s.trace ∧ ∀ e ∈ es, e.isFault = true ∨ e.isPeerWrite = true := by
  have haborted : Aborted s u →
      ∃ es, u.trace = es ++ s.trace ∧ ∀ e ∈ es, e.isFault = true ∨ e.isPeerWrite = true := by
    intro ha
    obtain ⟨es, he, hes⟩ := ha.trace
    exact ⟨es, he, fun e hm => .inl (hes e hm)⟩
  cases hu with
  | display _ _ ha => exact haborted ha
  | nvs _ ha => exact haborted ha
  | register _ _ _ _ _ _ ht => exact ht
  | _ => exact ⟨[_], rfl, by simp [Event.isFault]⟩

/-- An abandoned program leaves the flash alone, up to the registry. -/
theorem Stop.nvs_eq {w : World} {s₀ s u : Node} {i : Input} {h : Halt} (hu : Stop w s₀ i h s u) :
    u.nvs = { s.nvs with peer := u.nvs.peer } := by
  cases hu with
  | display _ _ ha => rw [ha.nvs]
  | nvs _ ha => rw [ha.nvs]
  | register _ _ _ _ hn => exact hn
  | _ => rfl

/-- The reasons that are left while the flash and the display work: the seal guard, the key
derivation, and a restart on command. -/
theorem Stop.of_works {w : World} {s₀ s u : Node} {i : Input} {h : Halt} (hu : Stop w s₀ i h s u)
    (hnvs : ∀ op, w.nvsOk op = true)
    (hdisplay : w.config.enableSevsegDisplay = true → w.displayAck = true) :
    (∃ m, Guardable w s₀ i s m ∧ (s.isMaster = false ∨ ∃ f, i = .serial f) ∧
        s.txState.sealAdvances m.epochNum m.seqNum = false ∧
        u = s.emit (.errFail .crypto .mesh 1 "AEAD epoch rollback — refusing seal")) ∨
      (∃ mac p sub text, s.peers.find mac = some p ∧ p.publicKey.isZero = false ∧
        e2eKeysOf w.crypto s.enrollment.devicePrivateKey p.publicKey = none ∧
        u = s.emit (.errFatal .config .mesh sub text)) ∨
      h = .espRestart ∧ u = s.emit .espRestart := by
  cases hu with
  | display he hd => rw [hdisplay he] at hd; cases hd
  | @nvs _ _ _ op ho => rw [hnvs op] at ho; cases ho
  | @register _ _ _ _ _ op _ _ _ ho => rw [hnvs op] at ho; cases ho
  | sealRefused hm hl ha => exact .inl ⟨_, hm, hl, ha, rfl⟩
  | keyRejected hp hz hk => exact .inr (.inl ⟨_, _, _, _, hp, hz, hk, rfl⟩)
  | restart => exact .inr (.inr ⟨rfl, rfl⟩)

theorem Stop.plain {w : World} {s₀ s u : Node} {i : Input} {h : Halt} (hu : Stop w s₀ i h s u) :
    ∃ es, u.trace = es ++ s.trace ∧ ∀ e ∈ es, e.isPlain = true := by
  obtain ⟨es, he, hes⟩ := hu.history
  exact ⟨es, he, fun e hm =>
    (hes e hm).elim Event.isPlain_of_isFault Event.isPlain_of_isPeerWrite⟩

/-- The program `x`, run in `s` within the step that started in `s₀` with the input `i`, is a
sequence of changes, is abandoned for one of the reasons above, and returns values that meet `Q`. -/
abbrev Does {α : Type} (w : World) (s₀ : Node) (i : Input) (s : Node) (x : MeshM α)
    (Q : α → Node → Prop) : Prop :=
  EffectSpec.Spec (Effect w s₀ i) (Stop w s₀ i) s x Q

end LatticeMesh
