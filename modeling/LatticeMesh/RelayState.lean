import LatticeMesh.QuietFrames

/-!
# Relays and routes

Most handlers leave alone what decides about relays and routes, and transmit no beacon: only the
replay gate, the beacon logic, the housekeeping round and the boot do.

## Main definitions

* `Input.keepsRelay` — the inputs that leave the relay state alone.

## Main results

* `keeps_dispatchMessage` — a received frame that is no beacon leaves the relay state alone.
* `keeps_handleInput` — **so do a local send, a command, an enrollment request and a reset.**
-/

namespace LatticeMesh

open EffectSpec

/-- What sending a frame leaves alone, unless the frame is a beacon: the part above, and the
requests for the server. -/
def Node.sendPart (s : Node) :
    RelayState × (Option UInt8 × Option UInt8 × Bool) × List (Mac × Key) × List (Mac × Key) :=
  (s.relayState, s.bootSettings, s.enrollment.relayQueue, s.relayed)

/-- A part of a node that this one determines. -/
class SendFrame {δ : Type} (f : Node → δ) : Prop where
  congr : ∀ {s t : Node}, t.sendPart = s.sendPart → f t = f s

instance sendFrame_of_relayFrame {δ : Type} (f : Node → δ) [RelayFrame f] : SendFrame f :=
  ⟨fun h => RelayFrame.congr (congrArg Prod.fst h) (congrArg (fun x => x.2.1) h)⟩

instance quietFrame_of_sendFrame {δ : Type} (f : Node → δ) [SendFrame f] : QuietFrame f := by
  refine ⟨fun h => SendFrame.congr ?_⟩
  simp only [Node.quietPart, Prod.mk.injEq] at h
  obtain ⟨hrelay, hboot, -, hqueue, hrelayed, -⟩ := h
  unfold Node.sendPart
  rw [hrelay, hboot, hqueue, hrelayed]

/-- Such a part that is not about the flash. -/
class MemoryFrame {δ : Type} (f : Node → δ) : Prop extends SendFrame f where
  flash : ∀ (s : Node) (v : Nvs), f { s with nvs := v } = f s

instance memoryFrame_relayState : MemoryFrame Node.relayState := ⟨fun _ _ => rfl⟩

/-- What the handlers of beacons leave alone as well. -/
def Node.ledger (s : Node) :
    (Option UInt8 × Option UInt8 × Bool) × List (Mac × Key) × List (Mac × Key) :=
  (s.bootSettings, s.enrollment.relayQueue, s.relayed)

/-- A part of a node that this one determines. -/
class LedgerFrame {δ : Type} (f : Node → δ) : Prop where
  congr : ∀ {s t : Node}, t.ledger = s.ledger → f t = f s

instance sendFrame_of_ledgerFrame {δ : Type} (f : Node → δ) [LedgerFrame f] : SendFrame f :=
  ⟨fun h => LedgerFrame.congr (congrArg Prod.snd h)⟩

instance ledgerFrame_bootSettings : LedgerFrame Node.bootSettings := ⟨congrArg Prod.fst⟩

/-- The requests that wait for the server, and those that it saw. -/
def Node.requests (s : Node) : List (Mac × Key) × List (Mac × Key) :=
  (s.enrollment.relayQueue, s.relayed)

instance ledgerFrame_requests : LedgerFrame Node.requests := ⟨congrArg Prod.snd⟩

instance memoryFrame_requests : MemoryFrame Node.requests := ⟨fun _ _ => rfl⟩

/-- An update of the fields that such a part is not about. -/
theorem keeps_ledger {δ : Type} {f : Node → δ} [LedgerFrame f] {g : Node → Node}
    (h : ∀ s, (g s).ledger = s.ledger) : Keeps f (modify g : MeshM Unit) :=
  .update fun s => LedgerFrame.congr (h s)

variable {w : World} {δ : Type} {f : Node → δ} [SendFrame f] {m : Message} {msgType : UInt8}

theorem keeps_update {g : Node → Node} (h : ∀ s, (g s).sendPart = s.sendPart) :
    Keeps f (modify g : MeshM Unit) := .update fun s => SendFrame.congr (h s)

theorem keeps_emit {e : Event} (h : e.beaconSent = none) (h' : e.relayed? = none := by rfl) :
    Keeps f (emit e) := by
  refine .update fun s => SendFrame.congr ?_
  unfold Node.sendPart Node.relayState Node.relayed
  simp only [Node.emit, beaconsSent_cons_of_none h, List.filterMap_cons_none h']
  rfl

/-! ### Persistence -/

section

variable {g : Node → δ} [MemoryFrame g]

theorem keeps_nvsPut (op : NvsOp) (securityRelevant : Bool) :
    Keeps g (nvsPut w op securityRelevant) := keeps_putAny MemoryFrame.flash op securityRelevant

theorem keeps_nvsSave (op : NvsOp) (securityRelevant : Bool) :
    Keeps g (nvsSave w op securityRelevant) := keeps_saveAny MemoryFrame.flash op securityRelevant

end

/-! ### Radio -/

theorem keeps_espNowSend {target : Mac} {m : Message}
    (h : m.messageType ≠ MessageType.masterBeacon) : Keeps f (espNowSend w target m) := by
  refine .read_bind fun s => .ite (fun _ => ?_) fun _ => .ret _
  exact .bind (keeps_emit (if_neg h)) fun _ => .ret _

theorem keeps_sendMessage {target deviceMac : Mac} {m : Message}
    (h : m.messageType ≠ MessageType.masterBeacon) :
    Keeps f (sendMessage w target m deviceMac) := by
  refine .ite (fun _ => .ret _) fun _ => .bind (keeps_espNowSend h) fun ok => ?_
  exact .ite (fun _ => .ret _) fun _ => keeps_fail _ _ _ _

theorem keeps_broadcastToAllPeers {peers : PeerRegistry} {deviceMac : Mac} {m : Message}
    (h : m.messageType ≠ MessageType.masterBeacon) :
    Keeps f (broadcastToAllPeers w m peers deviceMac) :=
  .forM fun _ _ => .ite (fun _ => .ret _) fun _ => keeps_sendMessage h

theorem keeps_sendBroadcast {m : Message} (h : m.messageType ≠ MessageType.masterBeacon) :
    Keeps f (sendBroadcast w m) :=
  .bind (keeps_espNowSend h) fun _ => .ret _

/-! ### Routing and enrollment -/

theorem keeps_relayDownlink {m : Message} (h : m.messageType ≠ MessageType.masterBeacon) :
    Keeps f (relayDownlink w m) := by
  refine .read_bind fun s => .ite (fun _ => .ret _) fun _ => .forM fun p _ => ?_
  exact .ite (fun _ => .ret _) fun _ => keeps_sendMessage h

theorem keeps_dispatchJoinAck {m : Message} (h : m.messageType ≠ MessageType.masterBeacon) :
    Keeps f (dispatchJoinAck w m) := by
  refine .read_bind fun s => .ite (fun _ => ?_) fun _ => ?_
  · exact .ite (fun _ => .ret _) fun _ => keeps_processJoinAck m
  · exact .ite (fun _ => .ret _) fun _ => keeps_sendBroadcast h

section

variable {g : Node → δ} [RelayFrame g]

theorem keeps_processRequest (m : Message) : Keeps g (processRequest w m) :=
  .read_bind fun _ => .ite (fun _ => .update fun _ => RelayFrame.congr rfl rfl) fun _ => .ret _

theorem keeps_drainPendingRelay : Keeps g drainPendingRelay := by
  have hrelay : ∀ x : Mac × Key, Keeps g (emit (.relayToServer x.1 x.2)) := fun _ =>
    .update fun _ => RelayFrame.congr rfl rfl
  refine .read_bind fun _ => .bind (.forM fun x _ => hrelay x) fun _ => ?_
  exact .update fun _ => RelayFrame.congr rfl rfl

end

theorem enrollmentRequest_ne_beacon (s : Node) (epochNum : UInt32) (seqNum : UInt16) :
    (enrollmentRequest s epochNum seqNum).messageType ≠ MessageType.masterBeacon :=
  show MessageType.enrollment ≠ MessageType.masterBeacon by decide

theorem keeps_sendEnrollmentRequest : Keeps f (sendEnrollmentRequest w) :=
  .bind keeps_nextSeqGuarded fun _ => .read_bind fun _ =>
    keeps_sendBroadcast (enrollmentRequest_ne_beacon _ _ _)

/-! ### Sending -/

/-- What `buildMessage` does: it leaves the relay state alone and returns a frame of the type asked
for, with this node as its origin and its last hop. -/
theorem wp_buildMessage_relayState {s : Node} {type : AdapterType} {data : Payload} :
    wp (buildMessage w type data msgType)
      (fun m t => t.relayState = s.relayState ∧ m.messageType = msgType ∧
        m.originMac = s.deviceMac ∧ m.lastHopMac = s.deviceMac)
      (fun _ t => t.relayState = s.relayState) s := by
  unfold buildMessage
  simp only [wp_bind]
  refine wp_mono _ (fun seq t ht => ?_) (fun _ _ h => h) (keeps_nextSeqGuarded s)
  rw [wp_get]
  refine wp_mono _ (fun _ u hu => ?_) (fun _ _ hu => hu.trans ht)
    (keeps_emit (e := .built (builtMessage t type data msgType seq)) rfl rfl t)
  have hmac : t.deviceMac = s.deviceMac := congrArg RelayState.deviceMac ht
  exact ⟨hu.trans ht, rfl, hmac, hmac⟩

theorem keeps_routeToMaster (h : m.messageType ≠ MessageType.masterBeacon) :
    Keeps f (routeToMaster w m) := by
  refine .read_bind fun s => .bind keeps_findNextHopToMaster fun r => ?_
  split
  · exact .ite (fun _ => .ret _) fun _ => keeps_sendMessage h
  · exact .ret _

theorem keeps_transmitFrame {isMaster : Bool} (h : m.messageType ≠ MessageType.masterBeacon) :
    Keeps f (transmitFrame w msgType isMaster m) := by
  refine .read_bind fun s => ?_
  have hr : (retarget s msgType m).messageType ≠ MessageType.masterBeacon := by
    rwa [retarget_messageType]
  refine .ite (fun _ => ?_) fun _ => keeps_routeToMaster hr
  refine yields_sealUplink.bind_keeps fun r hsm => ?_
  split
  · rename_i sm
    exact keeps_routeToMaster (by rwa [(hsm sm rfl).messageType])
  · exact .ret _

/-- Transmitting a frame that is given. -/
theorem keeps_transmitRelay {type : AdapterType} {data : Payload} {isMaster : Bool}
    (h : m.messageType ≠ MessageType.masterBeacon) :
    Keeps f (transmitCore w type data msgType (some m) isMaster) :=
  keeps_transmitFrame h

/-- Transmitting a frame that is built here. -/
theorem keeps_transmitBuilt {type : AdapterType} {data : Payload} {isMaster : Bool}
    (h : msgType ≠ MessageType.masterBeacon) :
    Keeps f (transmitCore w type data msgType none isMaster) :=
  keeps_buildMessage_bind fun _ hm _ => keeps_transmitFrame (by rwa [hm])

theorem keeps_relayEnrollmentUplink (h : m.messageType ≠ MessageType.masterBeacon) :
    Keeps f (relayEnrollmentUplink w m) := by
  refine .read_bind fun s => .ite (fun _ => .ret _) fun _ => ?_
  refine .bind keeps_findNextHopToMaster fun r => ?_
  split
  · exact .ret _
  · exact keeps_transmitRelay (m := m.relayed s.deviceMac) h

/-- A broadcast of adapter data, which is delivered here too if that is asked for. -/
theorem keeps_broadcastAdapterData {type : AdapterType} {data : Payload} {deliverLocally : Bool}
    {cb : Message → MeshM Unit}
    (hcb : deliverLocally = true → ∀ m, m.data = data → Keeps f (cb m)) :
    Keeps f (broadcastAdapterData w type data deliverLocally cb) := by
  refine keeps_buildMessage_bind fun m hm hd => .read_bind fun s => .bind ?_ fun _ => ?_
  · exact keeps_broadcastToAllPeers (hm.trans_ne (by decide))
  · exact .ite (fun hl => hcb hl _ hd) fun _ => .ret _

theorem keeps_transmitDispatch {type : AdapterType} {data : Payload} {selfOriginated : Bool}
    {cb : Message → MeshM Unit}
    (hcb : selfOriginated = true → ∀ m, m.data = data → Keeps f (cb m)) :
    Keeps f (transmitDispatch w type data selfOriginated cb) :=
  .read_bind fun _ => .ite (fun _ => keeps_broadcastAdapterData hcb) fun _ =>
    keeps_transmitBuilt (by decide)

theorem keeps_routeDownlink (h : m.messageType ≠ MessageType.masterBeacon) :
    Keeps f (routeDownlink w m) := by
  refine .read_bind fun s => ?_
  split
  · rename_i path pathLen _
    refine .ite (fun _ => ?_) fun _ => keeps_broadcastToAllPeers h
    split
    · exact .ret _
    · exact .bind (keeps_registerDownlinkPeer _) fun _ => keeps_sendMessage h
  · exact keeps_broadcastToAllPeers h

theorem keeps_sendDownlinkToNode (destMac : Mac) (type : AdapterType) (data : Payload) :
    Keeps f (sendDownlinkToNode w destMac type data) := by
  refine .read_bind fun s => .ite (fun _ => .ret _) fun _ => ?_
  refine keeps_buildMessage_bind fun built hb _ => .bind (keeps_checkEpochRollback _ _) fun _ => ?_
  refine .bind (keeps_peerE2EKeys _) fun r => ?_
  split
  · exact .ret _
  · refine .bind (keeps_emit rfl) fun _ => ?_
    split
    · exact .ret _
    · rename_i sm hsm
      refine keeps_routeDownlink ?_
      rw [(sealOf_sealPayload hsm).messageType]
      exact hb.trans_ne (by decide)

theorem joinAck_ne_beacon (s : Node) (seqNum : UInt16) (mac : Mac) (nodePublicKey : Key)
    (secondary : Option (Mac × Key)) :
    (joinAck s seqNum mac nodePublicKey secondary).messageType ≠ MessageType.masterBeacon :=
  show MessageType.joinAck ≠ MessageType.masterBeacon by decide

theorem keeps_enrollPeer (mac : Mac) (secondary : Option (Mac × Key)) :
    Keeps f (enrollPeer w mac secondary) := by
  refine .read_bind fun s => ?_
  split
  · exact .ret _
  · refine .bind (keeps_registerPeerWithKey _ _ _) fun r => .ite (fun _ => ?_) fun _ => .ret _
    refine .bind keeps_nextSeqGuarded fun seq => .read_bind fun s => ?_
    exact keeps_sendBroadcast (joinAck_ne_beacon _ _ _ _ _)

/-! ### Route reports -/

theorem keeps_acceptRouteReport {cb : Message → MeshM Unit} (hcb : ∀ m, Keeps f (cb m)) :
    Keeps f (acceptRouteReport w m cb) := by
  refine .bind (keeps_peerE2EKeys _) fun r => ?_
  split
  · exact .ret _
  refine .bind (keeps_openWith _) fun r => ?_
  split
  · exact .ret _
  refine .ite (fun _ => .ret _) fun _ => .bind (keeps_verifyHops _ _ _) fun computed => ?_
  refine .ite (fun _ => ?_) fun _ => .ret _
  exact .bind (keeps_update fun _ => rfl) fun _ => hcb _

theorem appendHop_messageType (deviceMac : Mac) :
    (appendHop m deviceMac).messageType = m.messageType := by
  unfold appendHop
  split <;> rfl

theorem keeps_relayRouteReport (h : m.messageType ≠ MessageType.masterBeacon) :
    Keeps f (relayRouteReport w m) := by
  refine .read_bind fun s => .ite (fun _ => .ret _) fun _ => .bind keeps_masterE2EKeys fun r => ?_
  split
  · exact .ret _
  · refine keeps_transmitRelay (m := extendAuthPath _ _ (appendHop m s.deviceMac) _ _) ?_
    show (appendHop m s.deviceMac).messageType ≠ MessageType.masterBeacon
    rwa [appendHop_messageType]

theorem keeps_processRouteReport {cb : Message → MeshM Unit}
    (h : m.messageType ≠ MessageType.masterBeacon) (hcb : ∀ m, Keeps f (cb m)) :
    Keeps f (processRouteReport w m cb) :=
  .read_bind fun _ => .ite (fun _ => keeps_acceptRouteReport hcb) fun _ => keeps_relayRouteReport h

theorem keeps_sendRouteReport : Keeps f (sendRouteReport w) := by
  refine .read_bind fun s => .ite (fun _ => .ret _) fun _ => ?_
  refine .bind keeps_findNextHopToMaster fun r => ?_
  split
  · exact .ret _
  · exact .bind (keeps_transmitBuilt (by decide)) fun _ => .ret _

/-! ### The adapter -/

theorem keeps_opTxPowerSet (rebroadcastOnMaster : Bool) :
    Keeps f (opTxPowerSet w m rebroadcastOnMaster) := by
  refine .read_bind fun s => .ite (fun _ => .ret _) fun _ => ?_
  refine .bind (keeps_save (fun _ => ⟨rfl, rfl⟩) _) fun _ => ?_
  exact .ite (fun _ => keeps_broadcastAdapterData (by simp)) fun _ => .ret _

theorem keeps_opConfigSet {g : Node → δ} [MemoryFrame g] (m : Message) :
    Keeps g (opConfigSet w m) := by
  refine .read_bind fun s => .ite (fun _ => .bind (keeps_nvsSave _ _) fun _ => ?_) fun _ => .ret _
  exact .bind (keeps_emit rfl) fun _ => .raise _

/-- The control opcodes; only one of them changes the boot settings. -/
theorem keeps_dispatchControlOp {transmitSelf : AdapterType → Payload → MeshM Unit}
    {rebroadcastOnMaster : Bool} (hc : m.byte 0 = Opcode.configSet → Keeps f (opConfigSet w m))
    (ht : ∀ (s : Node) type,
      Keeps f (transmitSelf type (buildHealthFrame s Opcode.healthReport w.nowMs))) :
    Keeps f (dispatchControlOp w transmitSelf m rebroadcastOnMaster) := by
  refine .ite hc fun _ => .ite (fun _ => ?_) fun _ => .ite (fun _ => ?_) fun _ => ?_
  · exact .read_bind fun s => .ite (fun _ => keeps_put (fun _ => ⟨rfl, rfl⟩) _) fun _ => .ret _
  · exact .read_bind fun s => .ite (fun _ => ht s _) fun _ => .ret _
  · exact .ite (fun _ => keeps_opTxPowerSet _) fun _ => .ret _

theorem keeps_onMeshData {transmitSelf : AdapterType → Payload → MeshM Unit}
    (hc : m.dataType = AdapterType.serial → m.byte 0 = Opcode.configSet →
      Keeps f (opConfigSet w m))
    (ht : ∀ (s : Node) type,
      Keeps f (transmitSelf type (buildHealthFrame s Opcode.healthReport w.nowMs))) :
    Keeps f (onMeshData w transmitSelf m) := by
  refine .read_bind fun s => .ite (fun hs => ?_) fun _ => ?_
  · refine .bind (keeps_dispatchControlOp (hc hs) ht) fun _ => ?_
    exact .ite (fun _ => keeps_onMeshDataImpl) fun _ => .ret _
  · exact .ite (fun _ => keeps_onMeshDataImpl) fun _ => .ret _

theorem byte_ne_configSet {m : Message} {s : Node} {nowMs : UInt64}
    (h : m.data = buildHealthFrame s Opcode.healthReport nowMs) : m.byte 0 ≠ Opcode.configSet := by
  rw [byte_buildHealthFrame h]
  decide

theorem keeps_externalRecvCallback : ∀ (n : ℕ) (m : Message),
    (m.dataType = AdapterType.serial → m.byte 0 = Opcode.configSet → Keeps f (opConfigSet w m)) →
      Keeps f (externalRecvCallback w n m)
  | 0, _, _ => .ret _
  | n + 1, _, hc => .bind (keeps_emit rfl) fun _ => keeps_onMeshData hc fun _ _ =>
      keeps_transmitDispatch fun _ m hm =>
        keeps_externalRecvCallback n m fun _ hb => absurd hb (byte_ne_configSet hm)

theorem keeps_deliver {g : Node → δ} [MemoryFrame g] (m : Message) : Keeps g (deliver w m) :=
  keeps_externalRecvCallback 2 m fun _ _ => keeps_opConfigSet m

/-- The health report of this node, delivered to itself. -/
theorem keeps_transmitSelf (s : Node) (type : AdapterType) :
    Keeps f (transmitSelfOriginated w type (buildHealthFrame s Opcode.healthReport w.nowMs)) :=
  keeps_transmitDispatch fun _ m hm =>
    keeps_externalRecvCallback 2 m fun _ hb => absurd hb (byte_ne_configSet hm)

theorem keeps_serverJoinAck (m : Message) : Keeps f (serverJoinAck w m) :=
  .ite (fun _ => .ret _) fun _ => keeps_enrollPeer _ _

theorem keeps_forwardServerFrame (m : Message) : Keeps f (forwardServerFrame w m) := by
  refine .ite (fun _ => keeps_transmitDispatch (by simp)) fun _ => ?_
  refine .ite (fun _ => .ite (fun _ => ?_) fun _ => ?_) fun _ => .ret _
  · exact keeps_broadcastAdapterData (by simp)
  · exact keeps_sendDownlinkToNode _ _ _

theorem keeps_handleCompleteFrame {g : Node → δ} [MemoryFrame g] (m : Message) :
    Keeps g (handleCompleteFrame w m) := by
  refine .read_bind fun s => .ite (fun _ => .ret _) fun _ => ?_
  refine .ite (fun _ => keeps_serverJoinAck m) fun _ => .bind (keeps_forwardServerFrame m)
    fun _ => ?_
  exact .ite (fun _ => keeps_dispatchControlOp (fun _ => keeps_opConfigSet m) keeps_transmitSelf)
    fun _ => .ret _

/-! ### Received frames -/

theorem keeps_routeAdapterData {addressedToSelf isBroadcastTarget : Bool} {d : RouteDecision}
    (hd : d ≠ .notRouted) (h : m.messageType ≠ MessageType.masterBeacon) :
    Keeps f (routeAdapterData w m addressedToSelf isBroadcastTarget d) := by
  cases d with
  | notRouted => exact absurd rfl hd
  | relayTowardMaster =>
    exact .read_bind fun s => keeps_transmitRelay (m := m.relayed s.deviceMac) h
  | forwardOnRoute nextHop =>
    refine .read_bind fun s => .bind (keeps_registerDownlinkPeer _) fun _ => ?_
    exact keeps_sendMessage (m := m.forwarded) h
  | flood => exact keeps_relayDownlink h
  | dropHopLimitExceeded => exact .ret _

/-- A data frame that is for this node reaches more than the radio only through the callback. -/
theorem keeps_processAdapterDataTo {cb : Message → MeshM Unit} (hcb : ∀ m, Keeps f (cb m))
    (h : m.messageType ≠ MessageType.masterBeacon) : Keeps f (processAdapterDataTo w cb m) := by
  refine .read_bind fun s => .ite (fun _ => ?_) fun hd => keeps_routeAdapterData hd h
  refine .bind (keeps_authorize _) fun r => ?_
  split
  · exact .ret _
  · refine .bind (hcb _) fun _ => .read_bind fun s => ?_
    exact .ite (fun _ => keeps_relayDownlink h) fun _ => .ret _

theorem keeps_processEnrollment {g : Node → δ} [RelayFrame g]
    (h : m.messageType ≠ MessageType.masterBeacon) : Keeps g (processEnrollment w m) := by
  refine .read_bind fun s => .ite (fun _ => ?_) fun _ => keeps_relayEnrollmentUplink h
  exact .bind (keeps_registerPeerWithKey _ _ _) fun _ => keeps_processRequest m

/-- A received frame that is no beacon, with the receive callback that is linked by now. -/
theorem keeps_dispatchMessageTo {cb : Message → MeshM Unit} (hcb : ∀ m, Keeps f (cb m))
    (he : m.messageType = MessageType.enrollment → Keeps f (processEnrollment w m))
    (h : m.messageType ≠ MessageType.masterBeacon) : Keeps f (dispatchMessageTo w cb m) := by
  refine .ite (fun _ => keeps_processAdapterDataTo hcb h) fun ha => ?_
  refine .ite (fun _ => keeps_processRouteReport h hcb) fun hr => ?_
  refine .ite he fun _ => .ite (fun _ => keeps_dispatchJoinAck h) fun _ => ?_
  refine .ite (fun hb => absurd hb h) fun _ => .ite (fun h' => absurd h' ha) fun _ => ?_
  exact .ite (fun h' => absurd h' hr) fun _ => .ret _

/-- A received frame that is no beacon leaves the relay state alone. -/
theorem keeps_dispatchMessage (h : m.messageType ≠ MessageType.masterBeacon) :
    KeepsRelay (dispatchMessage w m) := by
  rw [← dispatchMessageTo_deliver]
  exact keeps_dispatchMessageTo keeps_deliver (fun _ => keeps_processEnrollment h) h

/-! ### Housekeeping -/

theorem keeps_tickRouteReport : Keeps f (tickRouteReport w) := by
  refine .read_bind fun s => .ite (fun _ => ?_) fun _ => .ret _
  refine .bind keeps_sendRouteReport fun sent => ?_
  exact .ite (fun _ => keeps_update fun _ => rfl) fun _ => .ret _

theorem keeps_tickEnrollmentBroadcast : Keeps f (tickEnrollmentBroadcast w) := by
  refine .read_bind fun s => .ite (fun _ => .ret _) fun _ => .ite (fun _ => ?_) fun _ => .ret _
  exact .bind (keeps_update fun _ => rfl) fun _ => keeps_sendEnrollmentRequest

theorem keeps_tickReset {g : Node → δ} [MemoryFrame g] : Keeps g (tickReset w) :=
  .bind (keeps_nvsPut _ _) fun _ => .bind (keeps_emit rfl) fun _ => .raise _

/-- The inputs that leave the relay state alone: everything but a boot, a received frame, a
housekeeping round, a check for a silent master and a change of the role. -/
def Input.keepsRelay : Input → Bool
  | .transmit .. | .transmitSelfOriginated .. | .tickEnrollmentBroadcast | .serial _
  | .resetButton => true
  | _ => false

/-- **These inputs leave the relay state alone.** -/
theorem keeps_handleInput {g : Node → δ} [MemoryFrame g] {i : Input} (h : i.keepsRelay = true) :
    Keeps g (handleInput w i) := by
  cases i with
  | transmit type data => exact keeps_transmitDispatch fun _ m _ => keeps_deliver m
  | transmitSelfOriginated type data => exact keeps_transmitDispatch fun _ m _ => keeps_deliver m
  | tickEnrollmentBroadcast => exact keeps_tickEnrollmentBroadcast
  | serial msg => exact keeps_handleCompleteFrame msg
  | resetButton => exact keeps_tickReset
  | boot | rx | loop | checkMasterTimeout | configButton => cases h

end LatticeMesh
