import LatticeMesh.DownlinkChecks
import LatticeMesh.RelayOnce
import LatticeMesh.Lib.Calls

/-!
# What leaves a node is bounded

Whatever a node receives, every frame that it transmits has made at most as many hops as a source
route has entries, and a route report has at most that many relays in its path.  A recorded route is
no longer either.

## Main definitions

* `Message.Bounded` — the counters of a frame are within the limits.
* `BoundedSince base s` — what a node sent, recorded and is about to relay since `base` is bounded.

## Main results

* `bounded_handleReceivedMessageTo` — processing a frame keeps that, from every state.
* `bounded_handleInput` — **so does every input**, the boot included.
-/

namespace LatticeMesh

open EffectSpec

/-- The counters of a frame are within the limits. -/
structure Message.Bounded (m : Message) : Prop where
  hopCount : m.hopCount.toNat ≤ maxHops
  routeLen : m.messageType = MessageType.routeReport → m.routeLen.toNat ≤ maxHops

/-- The routes that a node has recorded. -/
def Node.routeEntries (s : Node) : List RouteTable.Entry :=
  (s.routes.map List.Vector.toList).getD []

/-- What a node sent, recorded and is about to relay, unless it was so in `base` already, is
bounded. -/
structure BoundedSince (base s : Node) : Prop where
  sent : ∃ l, s.sentFrames = l ++ base.sentFrames ∧ ∀ x ∈ l, x.2.Bounded
  routes : ∀ e ∈ s.routeEntries, e ∈ base.routeEntries ∨ e.pathLen.toNat ≤ maxHops
  pending : s.relayPendingMsg = base.relayPendingMsg ∨ s.relayPendingMsg.Bounded

theorem BoundedSince.refl (s : Node) : BoundedSince s s :=
  ⟨⟨[], rfl, by simp⟩, fun _ he => .inl he, .inl rfl⟩

variable {w : World} {base s t : Node} {m : Message} {msgType : UInt8}

/-- The part of a node that this is about. -/
def Node.hopPart (s : Node) : Option RouteTable × List (Mac × Message) × Message :=
  (s.routes, s.sentFrames, s.relayPendingMsg)

instance quietFrame_hopPart : QuietFrame Node.hopPart := by
  refine ⟨fun {s t} h => ?_⟩
  have hroutes : t.routes = s.routes := congrArg (fun x => x.2.2.1) h
  have hsent : t.sentFrames = s.sentFrames := congrArg (fun x => x.2.2.2.2.2) h
  have hpending : t.relayPendingMsg = s.relayPendingMsg :=
    congrArg (fun x => x.1.relayPendingMsg) h
  rw [Node.hopPart, hroutes, hsent, hpending, Node.hopPart]

theorem BoundedSince.congr (ht : t.hopPart = s.hopPart) (h : BoundedSince base s) :
    BoundedSince base t := by
  rw [Node.hopPart, Node.hopPart, Prod.mk.injEq, Prod.mk.injEq] at ht
  obtain ⟨hroutes, hsent, hpending⟩ := ht
  refine ⟨by rw [hsent]; exact h.sent, ?_, by rw [hpending]; exact h.pending⟩
  rw [Node.routeEntries, hroutes]
  exact h.routes

/-- The program keeps bounded what is bounded. -/
abbrev KeepsBounded (base : Node) {α : Type} (x : MeshM α) : Prop := Maintains (BoundedSince base) x

/-- What sends nothing and records nothing keeps it bounded. -/
theorem bounded_of_keeps {α : Type} {x : MeshM α} (h : Keeps Node.hopPart x) :
    KeepsBounded base x :=
  h.maintains BoundedSince.congr

theorem bounded_quiet {g : Node → Node} (h : ∀ s, (g s).hopPart = s.hopPart) :
    KeepsBounded base (modify g : MeshM Unit) := bounded_of_keeps (.update h)

/-! ### Frames -/

/-- Frames that agree in their counters and in their type are bounded alike. -/
theorem Message.Bounded.congr {m' : Message} (h : m.Bounded) (hhops : m'.hopCount = m.hopCount)
    (hlen : m'.routeLen = m.routeLen) (htype : m'.messageType = m.messageType) : m'.Bounded :=
  ⟨hhops ▸ h.hopCount, fun ht => hlen ▸ h.routeLen (htype ▸ ht)⟩

theorem Message.SealOf.bounded {sm : Message} (h : m.SealOf sm) (hm : m.Bounded) : sm.Bounded := by
  rw [h]
  exact ⟨hm.hopCount, hm.routeLen⟩

/-- A frame whose counters start from zero. -/
theorem bounded_of_zero (hhops : m.hopCount = 0) (hlen : m.routeLen = 0) : m.Bounded := by
  refine ⟨?_, fun _ => ?_⟩
  · rw [hhops]
    exact Nat.zero_le _
  · rw [hlen]
    exact Nat.zero_le _

theorem bounded_builtMessage (s : Node) (type : AdapterType) (data : Payload) (msgType : UInt8)
    (seqNum : UInt16) : (builtMessage s type data msgType seqNum).Bounded := bounded_of_zero rfl rfl

/-- A copy with one hop more of a frame that may make one, but for its route. -/
theorem bounded_succ {m' : Message} (hhops : m.hopCount.toNat < maxHops)
    (hsucc : m'.hopCount = m.hopCount + 1)
    (hlen : m'.messageType = MessageType.routeReport → m'.routeLen.toNat ≤ maxHops) :
    m'.Bounded := by
  refine ⟨?_, hlen⟩
  rw [hsucc, toNat_inc (hhops.trans (by decide))]
  exact hhops

theorem bounded_relayed (hhops : m.hopCount.toNat < maxHops) (deviceMac : Mac)
    (ht : m.messageType ≠ MessageType.routeReport) : (m.relayed deviceMac).Bounded :=
  bounded_succ hhops rfl fun h => absurd h ht

theorem bounded_forwarded (hhops : m.hopCount.toNat < maxHops)
    (ht : m.messageType ≠ MessageType.routeReport) : m.forwarded.Bounded :=
  bounded_succ hhops rfl fun h => absurd h ht

/-- A route report with one relay more of one that has room for it. -/
theorem bounded_appendHop (hhops : m.hopCount.toNat < maxHops) (hlen : m.routeLen.toNat < maxHops)
    (deviceMac : Mac) : (appendHop m deviceMac).Bounded := by
  rw [appendHop, dif_pos hlen]
  refine bounded_succ hhops rfl fun _ => ?_
  show (m.routeLen + 1).toNat ≤ maxHops
  rw [toNat_inc (hlen.trans (by decide))]
  exact hlen

theorem bounded_retarget (h : m.Bounded) (s : Node) : (retarget s msgType m).Bounded := by
  unfold retarget
  split
  · exact h.congr rfl rfl rfl
  · exact h

/-! ### Sending -/

theorem bounded_espNowSend {target : Mac} (h : m.Bounded) :
    KeepsBounded base (espNowSend w target m) := by
  refine .read_bind fun s _ => .ite (fun _ => ?_) fun _ => .ret _
  refine .bind (.update fun t ht => ⟨?_, ht.routes, ht.pending⟩) fun _ => .ret _
  obtain ⟨l, hl, hbounded⟩ := ht.sent
  refine ⟨(target, m) :: l, congrArg ((target, m) :: ·) hl, fun x hx => ?_⟩
  rcases List.mem_cons.1 hx with rfl | hx
  · exact h
  · exact hbounded x hx

theorem bounded_sendMessage {target deviceMac : Mac} (h : m.Bounded) :
    KeepsBounded base (sendMessage w target m deviceMac) := by
  refine .ite (fun _ => .ret _) fun _ => .bind (bounded_espNowSend h) fun ok => ?_
  exact .ite (fun _ => .ret _) fun _ => bounded_of_keeps (keeps_fail _ _ _ _)

theorem bounded_broadcastToAllPeers {peers : PeerRegistry} {deviceMac : Mac} (h : m.Bounded) :
    KeepsBounded base (broadcastToAllPeers w m peers deviceMac) :=
  .forM fun _ _ => .ite (fun _ => .ret _) fun _ => bounded_sendMessage h

theorem bounded_sendBroadcast (h : m.Bounded) : KeepsBounded base (sendBroadcast w m) :=
  .bind (bounded_espNowSend h) fun _ => .ret _

/-- What is done with a frame that is built here. -/
theorem bounded_buildMessage_bind {α : Type} {type : AdapterType} {data : Payload}
    {k : Message → MeshM α}
    (h : ∀ u seqNum, KeepsBounded base (k (builtMessage u type data msgType seqNum))) :
    KeepsBounded base (buildMessage w type data msgType >>= k) := by
  refine .yields_bind (f := Node.hopPart) yields_buildMessage BoundedSince.congr ?_
  rintro _ ⟨u, seqNum, rfl⟩
  exact h u seqNum

theorem bounded_routeToMaster (h : m.Bounded) : KeepsBounded base (routeToMaster w m) := by
  refine .read_bind fun s _ => .bind (bounded_of_keeps keeps_findNextHopToMaster) fun r => ?_
  cases r with
  | none => exact .ret _
  | some hopMac => exact .ite (fun _ => .ret _) fun _ => bounded_sendMessage h

theorem bounded_transmitFrame {isMaster : Bool} (h : m.Bounded) :
    KeepsBounded base (transmitFrame w msgType isMaster m) := by
  refine .read_bind fun s _ => .ite (fun _ => ?_) fun _ =>
    bounded_routeToMaster (bounded_retarget h s)
  refine .yields_bind (f := Node.hopPart) yields_sealUplink BoundedSince.congr fun r hr => ?_
  cases r with
  | none => exact .ret _
  | some sm => exact bounded_routeToMaster ((hr sm rfl).bounded (bounded_retarget h s))

/-- Transmitting a frame that is built here. -/
theorem bounded_transmitBuilt {type : AdapterType} {data : Payload} {isMaster : Bool} :
    KeepsBounded base (transmitCore w type data msgType none isMaster) :=
  bounded_buildMessage_bind fun u seqNum =>
    bounded_transmitFrame (bounded_builtMessage u type data msgType seqNum)

theorem bounded_broadcastAdapterData {type : AdapterType} {data : Payload} {deliverLocally : Bool}
    {cb : Message → MeshM Unit} (hcb : deliverLocally = true → ∀ m, KeepsBounded base (cb m)) :
    KeepsBounded base (broadcastAdapterData w type data deliverLocally cb) := by
  refine bounded_buildMessage_bind fun u seqNum => .read_bind fun s _ => .bind ?_ fun _ => ?_
  · refine bounded_broadcastToAllPeers ?_
    exact (bounded_builtMessage u type data _ seqNum).congr rfl rfl rfl
  · exact .ite (fun hl => hcb hl _) fun _ => .ret _

theorem bounded_transmitDispatch {type : AdapterType} {data : Payload} {selfOriginated : Bool}
    {cb : Message → MeshM Unit} (hcb : selfOriginated = true → ∀ m, KeepsBounded base (cb m)) :
    KeepsBounded base (transmitDispatch w type data selfOriginated cb) :=
  .read_bind fun _ _ => .ite (fun _ => bounded_broadcastAdapterData hcb) fun _ =>
    bounded_transmitBuilt

/-- A source route is no longer than the path that it was made of. -/
theorem bounded_routeDownlink (h : m.Bounded) : KeepsBounded base (routeDownlink w m) := by
  have hflood : ∀ peers deviceMac,
      KeepsBounded base (broadcastToAllPeers w { m with routeLen := 0 } peers deviceMac) :=
        fun _ _ =>
    bounded_broadcastToAllPeers ⟨h.hopCount, fun _ => Nat.zero_le _⟩
  refine .read_bind fun s _ => ?_
  cases s.routes.bind fun routes => routes.lookup m.targetMac with
  | none => exact hflood _ _
  | some x =>
    obtain ⟨path, pathLen⟩ := x
    refine .ite (fun _ => ?_) fun _ => hflood _ _
    split
    · exact .ret _
    · rename_i hlen
      have hlen : pathLen.toNat ≤ maxHops := by simpa [downlinkRouteLenExceedsMaxHops] using hlen
      refine .bind (bounded_of_keeps (keeps_registerDownlinkPeer _)) fun _ => bounded_sendMessage ?_
      exact ⟨h.hopCount, fun _ => hlen⟩

theorem bounded_sendDownlinkToNode {destMac : Mac} {type : AdapterType} {data : Payload} :
    KeepsBounded base (sendDownlinkToNode w destMac type data) := by
  refine .read_bind fun s _ => .ite (fun _ => .ret _) fun _ => ?_
  refine bounded_buildMessage_bind fun u seqNum => ?_
  have hbuilt : ({ builtMessage u type data MessageType.adapterData seqNum with
      targetMac := destMac } : Message).Bounded := bounded_of_zero rfl rfl
  refine .bind (bounded_of_keeps (keeps_checkEpochRollback _ _)) fun _ => ?_
  refine .bind (bounded_of_keeps (keeps_peerE2EKeys _)) fun r => ?_
  cases r with
  | none => exact .ret _
  | some keys =>
    refine .bind (bounded_of_keeps (keeps_event rfl rfl)) fun _ => ?_
    split
    · exact .ret _
    · exact bounded_routeDownlink ((sealOf_sealPayload ‹_›).bounded hbuilt)

/-! ### Enrollment -/

theorem bounded_enrollPeer {mac : Mac} {secondary : Option (Mac × Key)} :
    KeepsBounded base (enrollPeer w mac secondary) := by
  refine .read_bind fun s _ => ?_
  cases s.peers.find mac with
  | none => exact .ret _
  | some p =>
    refine .bind (bounded_of_keeps (keeps_registerPeerWithKey _ _ _)) fun r => ?_
    refine .ite (fun _ => ?_) fun _ => .ret _
    refine .bind (bounded_of_keeps keeps_nextSeqGuarded) fun seq => .read_bind fun s _ => ?_
    exact bounded_sendBroadcast (bounded_of_zero rfl rfl)

theorem bounded_sendEnrollmentRequest : KeepsBounded base (sendEnrollmentRequest w) :=
  .bind (bounded_of_keeps keeps_nextSeqGuarded) fun _ => .read_bind fun _ _ =>
    bounded_sendBroadcast (bounded_of_zero rfl rfl)

theorem bounded_processRequest : KeepsBounded base (processRequest w m) :=
  .read_bind fun _ _ => .ite (fun _ => bounded_quiet fun _ => rfl) fun _ => .ret _

theorem bounded_drainPendingRelay : KeepsBounded base drainPendingRelay :=
  .read_bind fun _ _ => .bind (.forM fun _ _ => bounded_quiet fun _ => rfl) fun _ =>
    bounded_quiet fun _ => rfl

theorem bounded_relayEnrollmentUplink (ht : m.messageType ≠ MessageType.routeReport) :
    KeepsBounded base (relayEnrollmentUplink w m) := by
  refine .read_bind fun s _ => .ite (fun _ => .ret _) fun h => ?_
  refine .bind (bounded_of_keeps keeps_findNextHopToMaster) fun r => ?_
  cases r with
  | none => exact .ret _
  | some hop =>
    have hhops : m.hopCount.toNat < maxHops := Nat.lt_of_not_le fun hc => h (.inr hc)
    exact bounded_transmitFrame (bounded_relayed hhops s.deviceMac ht)

theorem bounded_dispatchJoinAck (ht : m.messageType ≠ MessageType.routeReport) :
    KeepsBounded base (dispatchJoinAck w m) := by
  refine .read_bind fun s _ => .ite (fun _ => ?_) fun _ => .ite (fun _ => .ret _) fun h => ?_
  · exact .ite (fun _ => .ret _) fun _ => bounded_of_keeps (keeps_processJoinAck m)
  · have hhops : m.hopCount.toNat < maxHops := Nat.lt_of_not_le fun hc => h (.inr hc)
    exact bounded_sendBroadcast (bounded_relayed hhops s.deviceMac ht)

theorem bounded_processEnrollment (ht : m.messageType ≠ MessageType.routeReport) :
    KeepsBounded base (processEnrollment w m) := by
  refine .read_bind fun s _ => .ite (fun _ => ?_) fun _ => bounded_relayEnrollmentUplink ht
  exact .bind (bounded_of_keeps (keeps_registerPeerWithKey _ _ _)) fun _ => bounded_processRequest

/-! ### The adapter -/

theorem bounded_opConfigSet : KeepsBounded base (opConfigSet w m) := by
  refine .read_bind fun s _ => .ite (fun _ => ?_) fun _ => .ret _
  refine .bind (bounded_of_keeps (keeps_saveAny (fun _ _ => rfl) _ _)) fun _ => ?_
  exact .bind (bounded_of_keeps (keeps_event rfl rfl)) fun _ => .raise _

theorem bounded_opTxPowerSet {rebroadcastOnMaster : Bool} :
    KeepsBounded base (opTxPowerSet w m rebroadcastOnMaster) := by
  refine .read_bind fun s _ => .ite (fun _ => .ret _) fun _ => ?_
  refine .bind (bounded_of_keeps (keeps_saveAny (fun _ _ => rfl) _ _)) fun _ => ?_
  exact .ite (fun _ => bounded_broadcastAdapterData (by simp)) fun _ => .ret _

theorem bounded_dispatchControlOp {transmitSelf : AdapterType → Payload → MeshM Unit}
    {rebroadcastOnMaster : Bool} (ht : ∀ type data, KeepsBounded base (transmitSelf type data)) :
    KeepsBounded base (dispatchControlOp w transmitSelf m rebroadcastOnMaster) := by
  refine .ite (fun _ => bounded_opConfigSet) fun _ => .ite (fun _ => ?_) fun _ => ?_
  · refine .read_bind fun s _ => .ite (fun _ => ?_) fun _ => .ret _
    exact bounded_of_keeps (keeps_putAny (fun _ _ => rfl) _ _)
  refine .ite (fun _ => ?_) fun _ => .ite (fun _ => bounded_opTxPowerSet) fun _ => .ret _
  exact .read_bind fun s _ => .ite (fun _ => ht _ _) fun _ => .ret _

theorem bounded_onMeshData {transmitSelf : AdapterType → Payload → MeshM Unit}
    (ht : ∀ type data, KeepsBounded base (transmitSelf type data)) :
    KeepsBounded base (onMeshData w transmitSelf m) := by
  have himpl : KeepsBounded base (onMeshDataImpl w m) := bounded_of_keeps keeps_onMeshDataImpl
  refine .read_bind fun s _ => .ite (fun _ => ?_) fun _ => .ite (fun _ => himpl) fun _ => .ret _
  refine .bind (bounded_dispatchControlOp ht) fun _ => ?_
  exact .ite (fun _ => himpl) fun _ => .ret _

theorem bounded_externalRecvCallback : ∀ (n : ℕ) (m : Message),
    KeepsBounded base (externalRecvCallback w n m)
  | 0, _ => .ret _
  | n + 1, _ => .bind (bounded_of_keeps (keeps_event rfl rfl)) fun _ =>
      bounded_onMeshData fun _ _ =>
        bounded_transmitDispatch fun _ m => bounded_externalRecvCallback n m

theorem bounded_deliver (m : Message) : KeepsBounded base (deliver w m) :=
  bounded_externalRecvCallback 2 m

theorem bounded_transmitSelfOriginated (type : AdapterType) (data : Payload) :
    KeepsBounded base (transmitSelfOriginated w type data) :=
  bounded_transmitDispatch fun _ m => bounded_deliver m

theorem bounded_forwardServerFrame : KeepsBounded base (forwardServerFrame w m) := by
  refine .ite (fun _ => bounded_transmitDispatch (by simp)) fun _ => .ite (fun _ => ?_) fun _ =>
    .ret _
  exact .ite (fun _ => bounded_broadcastAdapterData (by simp)) fun _ => bounded_sendDownlinkToNode

theorem bounded_handleCompleteFrame : KeepsBounded base (handleCompleteFrame w m) := by
  refine .read_bind fun s _ => .ite (fun _ => .ret _) fun _ => .ite (fun _ => ?_) fun _ => ?_
  · exact .ite (fun _ => .ret _) fun _ => bounded_enrollPeer
  · refine .bind bounded_forwardServerFrame fun _ => .ite (fun _ => ?_) fun _ => .ret _
    exact bounded_dispatchControlOp bounded_transmitSelfOriginated

/-! ### Route reports -/

/-- The entries of a table after a record are old ones, and one that is no longer than a source
route. -/
theorem RouteTable.mem_record {t : RouteTable} {nodeMac : Mac} {path : RoutePath} {pathLen : UInt8}
    {nowMs : UInt64} {e : Entry} (h : e ∈ (t.record nodeMac path pathLen nowMs).toList) :
    e ∈ t.toList ∨ e.pathLen.toNat ≤ maxHops := by
  unfold record at h
  split at h
  · exact .inl h
  · rename_i hlen
    rw [List.Vector.toList_set] at h
    rcases List.mem_or_eq_of_mem_set h with h | rfl
    · exact .inl h
    · exact .inr (Nat.le_of_not_lt hlen)

theorem bounded_recordRoute {nowMs : UInt64} : KeepsBounded base (modify fun s : Node =>
    { s with
      routes := s.routes.map fun routes =>
        routes.record m.originMac m.routePath m.routeLen nowMs } : MeshM Unit) := by
  refine .update fun s hs => ⟨hs.sent, fun e he => ?_, hs.pending⟩
  have hold := hs.routes e
  unfold Node.routeEntries at he hold
  dsimp only at he
  cases hr : s.routes with
  | none =>
    rw [hr] at he
    simp at he
  | some t =>
    rw [hr] at he hold
    rcases RouteTable.mem_record he with he | he
    · exact hold he
    · exact .inr he

section Callback

variable {cb : Message → MeshM Unit} (hcb : ∀ m, KeepsBounded base (cb m))

include hcb

theorem bounded_acceptRouteReport : KeepsBounded base (acceptRouteReport w m cb) := by
  refine .bind (bounded_of_keeps (keeps_peerE2EKeys _)) fun r => ?_
  cases r with
  | none => exact .ret _
  | some keys =>
    refine .bind (bounded_of_keeps (keeps_openWith _)) fun r => ?_
    cases r with
    | none => exact .ret _
    | some opened =>
      refine .ite (fun _ => .ret _) fun _ => ?_
      refine .bind (bounded_of_keeps (keeps_verifyHops _ _ _)) fun computed => ?_
      exact .ite (fun _ => .bind bounded_recordRoute fun _ => hcb _) fun _ => .ret _

omit hcb in
theorem bounded_relayRouteReport : KeepsBounded base (relayRouteReport w m) := by
  refine .read_bind fun s _ => .ite (fun _ => .ret _) fun h => ?_
  rw [not_or, not_le, not_le] at h
  refine .bind (bounded_of_keeps keeps_masterE2EKeys) fun r => ?_
  cases r with
  | none => exact .ret _
  | some keys =>
    exact bounded_transmitFrame ((bounded_appendHop h.1 h.2 s.deviceMac).congr rfl rfl rfl)

theorem bounded_processRouteReport : KeepsBounded base (processRouteReport w m cb) :=
  .read_bind fun _ _ => .ite (fun _ => bounded_acceptRouteReport hcb) fun _ =>
    bounded_relayRouteReport

/-! ### Data frames -/

omit hcb in
theorem bounded_relayDownlink (ht : m.messageType ≠ MessageType.routeReport) :
    KeepsBounded base (relayDownlink w m) := by
  refine .read_bind fun s _ => .ite (fun _ => .ret _) fun h => .forM fun p _ => ?_
  refine .ite (fun _ => .ret _) fun _ => bounded_sendMessage ?_
  exact bounded_relayed (Nat.lt_of_not_le h) s.deviceMac ht

theorem bounded_processAdapterDataTo (ht : m.messageType ≠ MessageType.routeReport) :
    KeepsBounded base (processAdapterDataTo w cb m) := by
  refine .read_bind fun s _ => .ite (fun _ => ?_) fun hn => ?_
  · refine .bind (bounded_of_keeps (keeps_authorize _)) fun r => ?_
    cases r with
    | none => exact .ret _
    | some opened =>
      refine .bind (hcb _) fun _ => .read_bind fun s _ => ?_
      exact .ite (fun _ => bounded_relayDownlink ht) fun _ => .ret _
  cases hd : s.routeDecision m with
  | notRouted => exact absurd hd hn
  | dropHopLimitExceeded => exact .ret _
  | relayTowardMaster =>
    have hhops := hopCount_lt_of_classify hd (.inl rfl)
    exact .read_bind fun s _ => bounded_transmitFrame (bounded_relayed hhops s.deviceMac ht)
  | forwardOnRoute nextHop =>
    have hhops := hopCount_lt_of_classify hd (.inr ⟨nextHop, rfl⟩)
    refine .read_bind fun s _ => .bind (bounded_of_keeps (keeps_registerDownlinkPeer _)) fun _ => ?_
    exact bounded_sendMessage (bounded_forwarded hhops ht)
  | flood => exact bounded_relayDownlink ht

end Callback

/-! ### Beacons -/

theorem NeighborTable.observe_le (t : NeighborTable) (mac : Mac) (d : UInt8) (nowMs : UInt64) :
    (t.observeAndMinDistance mac d nowMs).1.toNat ≤ d.toNat := by
  unfold observeAndMinDistance
  dsimp only
  split
  · exact le_rfl
  · exact UInt8.le_iff_toNat_le.1 (UInt8.not_lt.1 ‹_›)

/-- A beacon that may make one more hop leaves a node no further from the master than a route is
long. -/
theorem distance_noteBeacon (hhops : m.hopCount.toNat < maxHops) :
    (s.noteBeacon w m).currentMaster.distance.toNat ≤ maxHops := by
  have hle := s.neighbors.observe_le m.lastHopMac m.hopCount w.nowMs
  have hne : (s.neighbors.observeAndMinDistance m.lastHopMac m.hopCount w.nowMs).1 ≠ 0xFF := by
    intro h
    rw [h] at hle
    exact absurd (hle.trans_lt hhops) (by decide)
  show (if (s.neighbors.observeAndMinDistance m.lastHopMac m.hopCount w.nowMs).1 = 0xFF then 0xFF
    else (s.neighbors.observeAndMinDistance m.lastHopMac m.hopCount w.nowMs).1 + 1 :
      UInt8).toNat ≤ _
  rw [if_neg hne, toNat_inc ((hle.trans_lt hhops).trans (by decide))]
  exact hle.trans_lt hhops

/-- Hearing a beacon and scheduling its relay. -/
theorem BoundedSince.hear (hs : BoundedSince base s) (hhops : m.hopCount.toNat < maxHops)
    (ht : m.messageType ≠ MessageType.routeReport) :
    BoundedSince base ((s.noteBeacon w m).scheduleRelay w m) := by
  have hnoted : BoundedSince base (s.noteBeacon w m) := BoundedSince.congr (s := s) rfl hs
  unfold Node.scheduleRelay
  split
  · exact hnoted
  · exact ⟨hnoted.sent, hnoted.routes, .inr ⟨distance_noteBeacon hhops, fun h => absurd h ht⟩⟩

theorem bounded_processBeacon (ht : m.messageType ≠ MessageType.routeReport) :
    KeepsBounded base (processBeacon w m) := by
  refine .read_bind fun s _ => .ite (fun _ => .ret _) fun h => ?_
  have hhops : m.hopCount.toNat < maxHops := Nat.lt_of_not_le fun hc => h (.inr (.inr hc))
  refine .bind (bounded_of_keeps (keeps_acceptBeaconOrigin _)) fun accepted => ?_
  refine .ite (fun _ => ?_) fun _ => .ret _
  refine .bind (bounded_of_keeps (keeps_warnOtherMaster _)) fun _ => ?_
  exact .update fun s hs => hs.hear hhops ht

/-! ### Received frames -/

section Callback

variable {cb : Message → MeshM Unit} (hcb : ∀ m, KeepsBounded base (cb m))

include hcb

theorem bounded_dispatchMessageTo : KeepsBounded base (dispatchMessageTo w cb m) := by
  refine .ite (fun ht => bounded_processAdapterDataTo hcb (by rw [ht]; decide)) fun hdata => ?_
  refine .ite (fun _ => bounded_processRouteReport hcb) fun hreport => ?_
  refine .ite (fun _ => bounded_processEnrollment hreport) fun _ => ?_
  refine .ite (fun _ => bounded_dispatchJoinAck hreport) fun _ => ?_
  refine .ite (fun _ => bounded_processBeacon hreport) fun _ => ?_
  rw [if_neg hdata, if_neg hreport]
  exact .ret _

/-- A received frame, in any state. -/
theorem bounded_handleReceivedMessageTo {srcMac : Mac} :
    KeepsBounded base (handleReceivedMessageTo w cb srcMac m) := by
  refine .ite (fun _ => .ret _) fun _ => .read_bind fun s _ => ?_
  refine .bind (bounded_quiet fun _ => rfl) fun _ => .ite (fun _ => .ret _) fun _ => ?_
  exact .bind (bounded_quiet fun _ => rfl) fun _ => bounded_dispatchMessageTo hcb

end Callback

/-! ### Housekeeping -/

theorem bounded_tickRouteReport : KeepsBounded base (tickRouteReport w) := by
  have hsend : KeepsBounded base (sendRouteReport w) := by
    refine .read_bind fun s _ => .ite (fun _ => .ret _) fun _ => ?_
    refine .bind (bounded_of_keeps keeps_findNextHopToMaster) fun r => ?_
    cases r with
    | none => exact .ret _
    | some hop => exact .bind bounded_transmitBuilt fun _ => .ret _
  refine .read_bind fun s _ => .ite (fun _ => .bind hsend fun sent => ?_) fun _ => .ret _
  exact .ite (fun _ => bounded_quiet fun _ => rfl) fun _ => .ret _

/-- A relay that is due was scheduled as a bounded one. -/
theorem bounded_tickBeaconRelay (hb : base.relayPendingMsg.Bounded) :
    KeepsBounded base (tickBeaconRelay w) := by
  refine .read_bind fun s hs => .ite (fun _ => ?_) fun _ => .ret _
  refine .bind (bounded_quiet fun _ => rfl) fun _ => bounded_sendBroadcast ?_
  exact hs.pending.elim (fun h => h ▸ hb) id

theorem bounded_broadcastMasterBeacon : KeepsBounded base (broadcastMasterBeacon w) := by
  refine .read_bind fun s _ => .ite (fun _ => .ret _) fun _ => ?_
  refine .bind (bounded_quiet fun _ => rfl) fun _ => bounded_buildMessage_bind fun u seqNum => ?_
  exact bounded_sendBroadcast (bounded_of_zero rfl rfl)

theorem bounded_loop (hb : base.relayPendingMsg.Bounded) : KeepsBounded base (loop w) := by
  refine .bind bounded_drainPendingRelay fun _ => .bind bounded_tickRouteReport fun _ => ?_
  refine .bind (bounded_tickBeaconRelay hb) fun _ => .read_bind fun s _ => ?_
  exact .ite (fun _ => bounded_broadcastMasterBeacon) fun _ => .ret _

theorem bounded_checkTimeout : KeepsBounded base (checkTimeout w) := by
  refine bounded_quiet fun s => ?_
  split
  · rfl
  · split <;> rfl

theorem bounded_tickEnrollmentBroadcast : KeepsBounded base (tickEnrollmentBroadcast w) := by
  refine .read_bind fun s _ => .ite (fun _ => .ret _) fun _ => .ite (fun _ => ?_) fun _ => .ret _
  exact .bind (bounded_quiet fun _ => rfl) fun _ => bounded_sendEnrollmentRequest

/-! ### Roles and the boot -/

/-- A table that is created with a role is empty. -/
theorem BoundedSince.reevaluate (hs : BoundedSince base s) :
    BoundedSince base s.reevaluateRouteTable := by
  refine ⟨hs.sent, fun e he => ?_, hs.pending⟩
  have hold := hs.routes e
  unfold Node.routeEntries Node.reevaluateRouteTable at he
  unfold Node.routeEntries at hold
  dsimp only at he
  split at he
  · cases hr : s.routes with
    | none =>
      rw [hr] at he
      have hempty : e ∈ List.replicate routeTableMax ({} : RouteTable.Entry) := he
      rw [List.eq_of_mem_replicate hempty]
      exact .inr (Nat.zero_le _)
    | some t =>
      rw [hr] at he hold
      exact hold he
  · simp at he

theorem bounded_setIsMaster {f : Node → Bool} :
    KeepsBounded base (modify fun s : Node => s.setIsMaster (f s) : MeshM Unit) :=
  .update fun s hs => BoundedSince.reevaluate (BoundedSince.congr (s := s) rfl hs)

theorem bounded_tickConfig : KeepsBounded base (tickConfig w) := by
  refine .read_bind fun s _ => .ite (fun _ => bounded_setIsMaster) fun _ => ?_
  refine .bind (bounded_of_keeps (keeps_saveAny (fun _ _ => rfl) _ _)) fun _ => ?_
  exact .bind (bounded_of_keeps (keeps_event rfl rfl)) fun _ => .raise _

theorem bounded_tickReset : KeepsBounded base (tickReset w) :=
  .bind (bounded_of_keeps (keeps_putAny (fun _ _ => rfl) _ _)) fun _ =>
    .bind (bounded_of_keeps (keeps_event rfl rfl)) fun _ => .raise _

theorem bounded_initMesh : KeepsBounded base (initMesh w) := by
  refine .bind (bounded_quiet fun _ => rfl) fun _ => ?_
  refine .bind (bounded_of_keeps keeps_loadMeshKeyFromEEPROM) fun _ => ?_
  refine .bind (bounded_of_keeps keeps_initEnrollment) fun _ => ?_
  refine .bind (.update fun _ hs => hs.reevaluate) fun _ => .bind ?_ fun _ => .bind ?_ fun _ => ?_
  · refine .read_bind fun s _ => .bind (bounded_of_keeps (keeps_saveBootEpoch _)) fun _ => ?_
    exact bounded_quiet fun _ => rfl
  · refine .bind (.ite (fun _ => .ret _) fun _ => .raise _) fun _ => ?_
    refine .bind (bounded_of_keeps (keeps_checkEsp _ _ _)) fun _ => .bind ?_ fun _ => ?_
    · exact .ite (fun _ => bounded_quiet fun _ => rfl) fun _ =>
        bounded_of_keeps (keeps_fail _ _ _ _)
    · exact bounded_quiet fun _ => rfl
  · refine .bind (bounded_of_keeps keeps_setupEspNow) fun ok => .ite (fun _ => .ret _) fun _ => ?_
    exact bounded_of_keeps (keeps_fatal _ _ _ _)

theorem bounded_initSubsystems : KeepsBounded base (initSubsystems w) := by
  refine .bind (bounded_quiet fun _ => rfl) fun _ => ?_
  refine .bind (bounded_of_keeps keeps_bootstrapPeers) fun _ => .bind ?_ fun _ => ?_
  · refine .read_bind fun s _ => .ite (fun _ => .ret _) fun _ => .ite (fun _ => ?_) fun _ => .ret _
    exact bounded_of_keeps (keeps_saveAny (fun _ _ => rfl) _ _)
  · refine .bind (bounded_of_keeps keeps_createAdapter) fun _ => .bind bounded_initMesh fun _ => ?_
    exact bounded_setIsMaster

/-- **Every input keeps bounded what is bounded.** -/
theorem bounded_handleInput (hb : base.relayPendingMsg.Bounded) (i : Input) :
    KeepsBounded base (handleInput w i) := by
  cases i with
  | boot => exact bounded_initSubsystems
  | rx srcMac m =>
    show KeepsBounded base (handleReceivedMessage w srcMac m)
    rw [← handleReceivedMessageTo_deliver]
    exact bounded_handleReceivedMessageTo bounded_deliver
  | transmit type data => exact bounded_transmitDispatch (by simp)
  | transmitSelfOriginated type data => exact bounded_transmitSelfOriginated type data
  | loop => exact bounded_loop hb
  | checkMasterTimeout => exact bounded_checkTimeout
  | tickEnrollmentBroadcast => exact bounded_tickEnrollmentBroadcast
  | serial m => exact bounded_handleCompleteFrame
  | configButton => exact bounded_tickConfig
  | resetButton => exact bounded_tickReset

/-! ### Runs -/

namespace Device

variable {b : Board} {d : Device}

/-- The program of a step starts from what the node has sent, and from a route table that is as
bounded as it was. -/
theorem bounded_start {i : Input} (h : BoundedSince {} d.node) (hs : start b d i = some s) :
    BoundedSince {} s := by
  unfold start at hs
  split at hs
  · -- a boot keeps nothing but the flash and the history
    obtain rfl := Option.some.inj hs
    exact ⟨h.sent, fun e he => .inl he, .inl rfl⟩
  · split at hs
    · obtain rfl := Option.some.inj hs
      exact BoundedSince.congr (s := d.node) rfl h
    · cases hs

theorem bounded_step (h : BoundedSince {} d.node) (x : Env × Input) :
    BoundedSince {} (step b d x).node := by
  unfold step
  cases hs : start b d x.2 with
  | none => exact h
  | some s =>
    have hzero : ({} : Node).relayPendingMsg.Bounded := bounded_of_zero rfl rfl
    exact ofResult_of_wp (bounded_handleInput hzero x.2 s (bounded_start h hs))

theorem bounded_run (v : Nvs) (xs : List (Env × Input)) :
    BoundedSince {} (run b (blank v) xs).node := by
  have h0 : BoundedSince {} (blank v).node := BoundedSince.congr (s := {}) rfl (.refl {})
  exact Runs.run_invariant (I := fun d : Device => BoundedSince {} d.node) (C := fun _ _ => True) h0
    (fun d x hd _ => bounded_step hd x) (Runs.along_of_forall (fun _ _ => trivial) _ _)

/-- The frames that a device transmitted are bounded, and no check fails in a step that it takes
next. -/
structure HopSafe (b : Board) (d : Device) : Prop where
  sent : ∀ x ∈ d.node.sentFrames, x.2.Bounded
  checked : ∀ e i s, start b d i = some s → ∀ pathOut,
    Checked.Passes s (handleInputChecked (b.world e) pathOut i) (handleInput (b.world e) i)

/-- What is bounded since nothing was sent and recorded is bounded. -/
theorem hopSafe_of_bounded (h : BoundedSince {} d.node) : HopSafe b d := by
  constructor
  · intro x hx
    obtain ⟨l, hl, hbounded⟩ := h.sent
    rw [hl, List.mem_append] at hx
    exact hx.elim (hbounded x) fun hx => absurd hx List.not_mem_nil
  · intro e i s hs pathOut
    have hbounded := bounded_start h hs
    refine passes_handleInput (fun t ht j => ?_) i
    have hmem : t.get j ∈ s.routeEntries := by
      rw [Node.routeEntries, ht]
      exact (List.Vector.mem_iff_get _ _).2 ⟨j, rfl⟩
    exact (hbounded.routes _ hmem).resolve_left List.not_mem_nil

end Device

/-- **Whatever a node receives, its accesses stay inside the buffers and its counters do not wrap.**
Processing a frame passes every check from any state and with any receive callback, and what it
sends, records and schedules is bounded.  In every state that a device reaches, every frame that
left it is bounded, and no check fails in the step that it takes next. -/
theorem hops_bounded :
    (∀ (w : World) (cb : Message → MeshM Unit) (srcMac : Mac) (m : Message) (s : Node),
      Checked.Passes s (handleReceivedMessageToChecked w cb srcMac m)
        (handleReceivedMessageTo w cb srcMac m)) ∧
    (∀ (w : World) (srcMac : Mac) (m : Message) (s : Node),
      BoundedSince s (Calls.final (handleReceivedMessage w srcMac m s))) ∧
    ∀ (b : Board) (v : Nvs) (xs : List (Env × Input)),
      (Device.run b (Device.blank v) xs).HopSafe b := by
  refine ⟨fun w cb srcMac m s => passes_handleReceivedMessageTo, fun w srcMac m s => ?_,
    fun b v xs => Device.hopSafe_of_bounded (Device.bounded_run v xs)⟩
  rw [← handleReceivedMessageTo_deliver]
  exact Calls.wp_final (bounded_handleReceivedMessageTo bounded_deliver s (.refl s))

end LatticeMesh
