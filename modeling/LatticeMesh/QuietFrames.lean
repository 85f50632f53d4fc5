import LatticeMesh.Inputs

/-!
# What most programs leave alone

The replay cache, the route toward the master, the recorded routes and the pending beacon relay are
written in a handful of places: the replay gate, the beacon logic, route reports, the housekeeping
round and the boot.  Frames and requests for the server are sent in a handful of places, too.  The
programs of this file do none of this.

## Main definitions

* `RelayState`, `Node.relayState` — the part of a node that decides about relays and routes,
  together with the beacons that it transmitted.
* `Node.bootSettings` — what decides about the adapter of the next boot.
* `RelayFrame` — a part of a node that these two determine.
* `QuietFrame` — a part of a node that these two, the recorded routes and what was sent determine;
  the frames are shown for any of them.

## Main results

* `keeps_registerPeerWithKey`, `keeps_processJoinAck` — a registration leaves that part alone.
* `yields_buildMessage`, `yields_sealUplink` — so does building or sealing a frame.
-/

namespace LatticeMesh

open EffectSpec

/-- The beacon that an event transmits, with its destination. -/
def Event.beaconSent : Event → Option (Mac × Message)
  | .tx dest m => if m.messageType = MessageType.masterBeacon then some (dest, m) else none
  | _ => none

/-- The beacons that were transmitted, newest first. -/
def beaconsSent (tr : List Event) : List (Mac × Message) := tr.filterMap Event.beaconSent

theorem beaconsSent_cons_of_none {e : Event} {tr : List Event} (h : e.beaconSent = none) :
    beaconsSent (e :: tr) = beaconsSent tr := List.filterMap_cons_none h

/-- What a history tells about a request that was passed on. -/
def Event.relayed? : Event → Option (Mac × Key)
  | .relayToServer mac key => some (mac, key)
  | _ => none

/-- What a history tells about a frame that was sent. -/
def Event.sent? : Event → Option (Mac × Message)
  | .tx dest m => some (dest, m)
  | _ => none

/-- The requests that the server saw, latest first. -/
def Node.relayed (s : Node) : List (Mac × Key) := s.trace.filterMap Event.relayed?

/-- The frames that were sent, latest first. -/
def Node.sentFrames (s : Node) : List (Mac × Message) := s.trace.filterMap Event.sent?

/-- The part of a node that decides about relays and routes. -/
structure RelayState where
  isMaster : Bool
  deviceMac : Mac
  currentMaster : MasterInfo
  lastMasterBeaconReceivedMs : UInt64
  neighbors : NeighborTable
  replay : ReplayCache
  lastRelayedEpoch : UInt32
  lastRelayedSeqNum : UInt16
  relayPendingMsg : Message
  relayPendingAt : UInt64
  relayPending : Bool
  beaconsSent : List (Mac × Message)

/-- The part of a node that decides about relays and routes. -/
def Node.relayState (s : Node) : RelayState where
  isMaster := s.isMaster
  deviceMac := s.deviceMac
  currentMaster := s.currentMaster
  lastMasterBeaconReceivedMs := s.beacon.lastMasterBeaconReceivedMs
  neighbors := s.neighbors
  replay := s.replay
  lastRelayedEpoch := s.txState.lastRelayedEpoch
  lastRelayedSeqNum := s.txState.lastRelayedSeqNum
  relayPendingMsg := s.relayPendingMsg
  relayPendingAt := s.relayPendingAt
  relayPending := s.relayPending
  beaconsSent := LatticeMesh.beaconsSent s.trace

/-- The program leaves the relay state alone. -/
abbrev KeepsRelay {α : Type} (x : MeshM α) : Prop := Keeps Node.relayState x

/-- What decides about the adapter of the next boot: the stored adapter type, the stored dev flag,
and whether the node runs in dev mode. -/
def Node.bootSettings (s : Node) : Option UInt8 × Option UInt8 × Bool :=
  (s.nvs.adapterType, s.nvs.devFlag, s.eeprom.isDevMode)

/-- A part of a node that the relay state and the boot settings determine.  What leaves both of them
alone is shown once, for any such part. -/
class RelayFrame {δ : Type} (f : Node → δ) : Prop where
  congr : ∀ {s t : Node}, t.relayState = s.relayState → t.bootSettings = s.bootSettings → f t = f s

/-- The part of a node that only the handlers of frames, the housekeeping and the role touch: the
part above, the recorded routes, the requests for the server, and what was sent. -/
def Node.quietPart (s : Node) :
    RelayState × (Option UInt8 × Option UInt8 × Bool) × Option RouteTable × List (Mac × Key) ×
      List (Mac × Key) × List (Mac × Message) :=
  (s.relayState, s.bootSettings, s.routes, s.enrollment.relayQueue, s.relayed, s.sentFrames)

/-- A part of a node that this one determines.  What leaves all of it alone is shown once, for any
such part. -/
class QuietFrame {δ : Type} (f : Node → δ) : Prop where
  congr : ∀ {s t : Node}, t.quietPart = s.quietPart → f t = f s

instance quietFrame_of_relayFrame {δ : Type} (f : Node → δ) [RelayFrame f] : QuietFrame f :=
  ⟨fun h => RelayFrame.congr (congrArg Prod.fst h) (congrArg (fun x => x.2.1) h)⟩

instance relayFrame_relayState : RelayFrame Node.relayState := ⟨fun h _ => h⟩

instance relayFrame_bootSettings : RelayFrame Node.bootSettings := ⟨fun _ h => h⟩

variable {w : World} {δ : Type} {f : Node → δ} [QuietFrame f]

/-- An update of the other fields. -/
theorem keeps_quiet {g : Node → Node} (h : ∀ s, (g s).quietPart = s.quietPart) :
    Keeps f (modify g : MeshM Unit) := .update fun s => QuietFrame.congr (h s)

/-- An event that is neither a frame nor a request for the server. -/
theorem keeps_event {e : Event} (h : e.sent? = none) (h' : e.relayed? = none) :
    Keeps f (emit e) := by
  have hbeacon : e.beaconSent = none := by
    cases e with
    | tx => cases h
    | _ => rfl
  refine .update fun s => QuietFrame.congr ?_
  unfold Node.quietPart Node.relayState Node.sentFrames Node.relayed
  simp only [Node.emit, beaconsSent_cons_of_none hbeacon, List.filterMap_cons_none h,
    List.filterMap_cons_none h']
  rfl

/-! ### Events and errors -/

theorem keeps_signalError (t : ErrorTypeDigit) : Keeps f (signalError w t) := by
  unfold signalError
  refine .ite (fun _ => .bind (keeps_event rfl rfl) fun _ => .raise _) fun _ => ?_
  exact .ite (fun _ => .raise _) fun _ => .ret _

theorem keeps_fail (t : ErrorTypeDigit) (m : ModuleDigit) (sub : ℕ) (text : String) :
    Keeps f (fail w t m sub text) :=
  .bind (keeps_event rfl rfl) fun _ => keeps_signalError t

theorem keeps_fatal {α : Type} (t : ErrorTypeDigit) (m : ModuleDigit) (sub : ℕ) (text : String) :
    Keeps f (fatal w t m sub text : MeshM α) :=
  .bind (keeps_event rfl rfl) fun _ => .bind (keeps_signalError t) fun _ => .raise _

theorem keeps_checkEsp (ok : Bool) (type : ErrorType) (text : String) :
    Keeps f (checkEsp w ok type text) :=
  .ite (fun _ => .ret _) fun _ => keeps_fail _ _ _ _

/-! ### Persistence -/

/-- A write that the adapter of the next boot does not depend on. -/
def NvsOp.Unrelated (op : NvsOp) : Prop :=
  ∀ v, (op.apply v).adapterType = v.adapterType ∧ (op.apply v).devFlag = v.devFlag

theorem keeps_put {op : NvsOp} (h : op.Unrelated) (securityRelevant : Bool) :
    Keeps f (nvsPut w op securityRelevant) := by
  unfold nvsPut
  refine .ite (fun _ => ?_) fun _ => ?_
  · refine .bind (.update fun s => QuietFrame.congr ?_) fun _ => keeps_event rfl rfl
    obtain ⟨ha, hd⟩ := h s.nvs
    have hset : ({ s with nvs := op.apply s.nvs } : Node).bootSettings = s.bootSettings := by
      unfold Node.bootSettings
      dsimp only
      rw [ha, hd]
    unfold Node.quietPart
    rw [hset]
    rfl
  · exact .ite (fun _ => keeps_fail _ _ _ _) fun _ => .ret _

theorem keeps_save {op : NvsOp} (h : op.Unrelated) (securityRelevant : Bool) :
    Keeps f (nvsSave w op securityRelevant) :=
  .read_bind fun _ => .ite (fun _ => .ret _) fun _ => keeps_put h securityRelevant

/-- Any write, for a part of the node that is not about the flash. -/
theorem keeps_putAny (hf : ∀ (s : Node) v, f { s with nvs := v } = f s) (op : NvsOp)
    (securityRelevant : Bool) : Keeps f (nvsPut w op securityRelevant) := by
  unfold nvsPut
  refine .ite (fun _ => ?_) fun _ => ?_
  · exact .bind (.update fun s => hf s _) fun _ => keeps_event rfl rfl
  · exact .ite (fun _ => keeps_fail _ _ _ _) fun _ => .ret _

theorem keeps_saveAny (hf : ∀ (s : Node) v, f { s with nvs := v } = f s) (op : NvsOp)
    (securityRelevant : Bool) : Keeps f (nvsSave w op securityRelevant) :=
  .read_bind fun _ => .ite (fun _ => .ret _) fun _ => keeps_putAny hf op securityRelevant

theorem keeps_saveBootEpoch (epoch : UInt32) : Keeps f (saveBootEpoch w epoch) := by
  refine .read_bind fun s => .ite (fun _ => ?_) fun _ => keeps_put (fun _ => ⟨rfl, rfl⟩) _
  exact .bind (keeps_quiet fun _ => rfl) fun _ => keeps_event rfl rfl

theorem keeps_saveToEEPROM : Keeps f (saveToEEPROM w) := by
  refine .read_bind fun s => .forM fun i _ => ?_
  split
  · exact keeps_save (fun _ => ⟨rfl, rfl⟩) _
  · exact keeps_put (fun _ => ⟨rfl, rfl⟩) _

/-! ### Radio peers -/

theorem keeps_registerPeerWithEspNow (mac : Mac) : Keeps f (registerPeerWithEspNow w mac) := by
  refine .read_bind fun s => .ite (fun _ => .ret _) fun _ => ?_
  exact .ite (fun _ => keeps_quiet fun _ => rfl) fun _ => keeps_checkEsp _ _ _

theorem keeps_espNowDelPeer (mac : Mac) : Keeps f (espNowDelPeer mac) := keeps_quiet fun _ => rfl

/-! ### Keys and sequence numbers -/

theorem keeps_deriveE2EKeys (ownPrivateKey peerPublicKey : Key) :
    Keeps f (deriveE2EKeys w ownPrivateKey peerPublicKey) := by
  refine .bind ?_ fun secret => ?_
  · unfold computeSharedSecret
    split
    · exact .ret _
    · exact keeps_fatal _ _ _ _
  · split
    · exact .ret _
    · exact keeps_fatal _ _ _ _

theorem keeps_getKeys (mac : Mac) (ownPrivateKey peerPublicKey : Key) :
    Keeps f (getKeys w mac ownPrivateKey peerPublicKey) := by
  refine .read_bind fun s => .ite (fun _ => .ret _) fun _ => ?_
  split
  · exact .ret _
  · refine .ite (fun _ => .ret _) fun _ => .bind (keeps_deriveE2EKeys _ _) fun keys => ?_
    exact .bind (keeps_quiet fun _ => rfl) fun _ => .ret _

theorem keeps_peerE2EKeys (originMac : Mac) : Keeps f (peerE2EKeys w originMac) := by
  refine .read_bind fun s => ?_
  split
  · exact keeps_getKeys _ _ _
  · exact .ret _

theorem keeps_masterE2EKeys : Keeps f (masterE2EKeys w) :=
  .read_bind fun _ => .ite (fun _ => keeps_peerE2EKeys _) fun _ => .ret _

theorem keeps_nextSeq : Keeps f nextSeq :=
  .bind (keeps_quiet fun _ => rfl) fun _ => .read_bind fun _ => .ret _

theorem keeps_nextSeqGuarded : Keeps f (nextSeqGuarded w) := by
  refine .bind keeps_nextSeq fun seq => .ite (fun _ => .read_bind fun s => ?_) fun _ => .ret _
  refine .bind (keeps_saveBootEpoch _) fun _ => ?_
  exact .bind (keeps_quiet fun _ => rfl) fun _ => keeps_nextSeq

theorem keeps_checkEpochRollback (epoch : UInt32) (seq : UInt16) :
    Keeps f (checkEpochRollback w epoch seq) := by
  refine .read_bind fun s => .ite (fun _ => ?_) fun _ => keeps_fail _ _ _ _
  exact .bind (keeps_quiet fun _ => rfl) fun _ => keeps_event rfl rfl

/-! ### Routing -/

theorem keeps_findNextHopToMaster : Keeps f (findNextHopToMaster w) := by
  refine .read_bind fun s => .ite (fun _ => .ret _) fun _ => ?_
  split
  · exact .ret _
  split
  · exact .ret _
  refine .ite (fun _ => .ret _) fun _ => .bind ?_ fun _ => ?_
  · exact .ite (fun _ => keeps_espNowDelPeer _) fun _ => .ret _
  · refine .bind (keeps_registerPeerWithEspNow _) fun _ => ?_
    exact .bind (keeps_quiet fun _ => rfl) fun _ => .ret _

theorem keeps_registerDownlinkPeer (mac : Mac) : Keeps f (registerDownlinkPeer w mac) := by
  have hreg : ∀ g : Node → Node, (∀ s, f (g s) = f s) →
      Keeps f (modify g >>= fun _ => registerPeerWithEspNow w mac) := fun g hg =>
    .bind (.update hg) fun _ => keeps_registerPeerWithEspNow mac
  refine .read_bind fun s => .ite (fun _ => hreg _ fun _ => QuietFrame.congr rfl) fun _ => ?_
  refine .ite (fun _ => hreg _ fun _ => QuietFrame.congr rfl) fun _ => ?_
  refine .ite (fun _ => .bind (keeps_espNowDelPeer _) fun _ => hreg _ fun _ => QuietFrame.congr rfl)
    fun _ => ?_
  exact hreg _ fun _ => QuietFrame.congr rfl

/-! ### Enrollment -/

theorem keeps_registerPeerWithKey (mac : Mac) (publicKey : Key) (allowRekey : Bool) :
    Keeps f (registerPeerWithKey w mac publicKey allowRekey) := by
  have hreg : ∀ g : Node → Node, (∀ s, f (g s) = f s) →
      Keeps f (do
        modify g
        saveToEEPROM w
        enrollPeerWithRadio w mac
        pure true) := fun g hg => by
    refine .bind (.update hg) fun _ => .bind keeps_saveToEEPROM fun _ => .bind ?_ fun _ => .ret _
    exact .bind (keeps_espNowDelPeer _) fun _ => keeps_registerPeerWithEspNow mac
  refine .read_bind fun s => .ite (fun _ => .bind (keeps_quiet fun _ => rfl) fun _ => .ret _)
    fun _ => ?_
  refine .ite (fun _ => hreg _ fun _ => QuietFrame.congr rfl) fun _ => ?_
  exact .ite (fun _ => .ret _) fun _ => hreg _ fun _ => QuietFrame.congr rfl

theorem keeps_addAndPersist (mac : Mac) : Keeps f (addAndPersist w mac) := by
  refine .read_bind fun s => .ite (fun _ => .ret _) fun _ => .ite (fun _ => keeps_fail _ _ _ _) ?_
  exact fun _ => .bind (keeps_quiet fun _ => rfl) fun _ => keeps_saveToEEPROM

theorem keeps_addPeer (mac : Mac) : Keeps f (addPeer w mac) := by
  refine .read_bind fun before => .bind (keeps_addAndPersist mac) fun _ => .read_bind fun s => ?_
  refine .ite (fun _ => ?_) fun _ => .ret _
  split
  · exact keeps_registerPeerWithEspNow _
  · exact .ret _

theorem keeps_removeAndPersist (mac : Mac) : Keeps f (removeAndPersist w mac) := by
  refine .bind (keeps_quiet fun _ => rfl) fun _ => .bind keeps_saveToEEPROM fun _ =>
    .read_bind fun s => ?_
  exact .ite (fun _ => keeps_espNowDelPeer _) fun _ => keeps_checkEsp _ _ _

theorem keeps_learnMasterMac (mac : Mac) : Keeps f (learnMasterMac w mac) :=
  .bind (keeps_quiet fun _ => rfl) fun _ => keeps_save (fun _ => ⟨rfl, rfl⟩) _

theorem keeps_learnSecondaryMasterMac (mac : Mac) : Keeps f (learnSecondaryMasterMac w mac) :=
  .bind (keeps_quiet fun _ => rfl) fun _ => keeps_save (fun _ => ⟨rfl, rfl⟩) _

theorem keeps_processJoinAckSecondary (m : Message) : Keeps f (processJoinAckSecondary w m) := by
  refine .ite (fun _ => .ret _) fun _ => .bind (keeps_registerPeerWithKey _ _ _) fun r => ?_
  exact .read_bind fun s => .ite (fun _ => keeps_learnSecondaryMasterMac _) fun _ => .ret _

theorem keeps_processJoinAck (m : Message) : Keeps f (processJoinAck w m) := by
  refine .read_bind fun s => .ite (fun _ => ?_) fun _ => .ret _
  refine .bind (keeps_registerPeerWithKey _ _ _) fun r => .ite (fun _ => ?_) fun _ => .ret _
  refine .bind (keeps_save (fun _ => ⟨rfl, rfl⟩) _) fun _ => .bind (keeps_quiet fun _ => rfl)
    fun _ => .bind ?_ fun _ =>
    keeps_processJoinAckSecondary m
  exact .read_bind fun s => .ite (fun _ => .ret _) fun _ => keeps_learnMasterMac _

/-! ### Building and sealing -/

variable {m : Message} {msgType : UInt8}

/-- A frame that is built is one that this node fills in. -/
theorem yields_buildMessage {type : AdapterType} {data : Payload} :
    Yields f (buildMessage w type data msgType) fun m =>
      ∃ u seqNum, m = builtMessage u type data msgType seqNum := by
  refine .bind (.of_keeps keeps_nextSeqGuarded) fun seq _ => .read_bind fun u => ?_
  exact .bind (.of_keeps (keeps_event rfl rfl)) fun _ _ => .ret ⟨u, seq, rfl⟩

theorem keeps_buildMessage_bind {α : Type} {type : AdapterType} {data : Payload}
    {k : Message → MeshM α} (h : ∀ m, m.messageType = msgType → m.data = data → Keeps f (k m)) :
    Keeps f (buildMessage w type data msgType >>= k) := by
  refine yields_buildMessage.bind_keeps ?_
  rintro _ ⟨u, seqNum, rfl⟩
  exact h _ rfl rfl

theorem keeps_buildMessage {type : AdapterType} {data : Payload} :
    Keeps f (buildMessage w type data msgType) :=
  .bind keeps_nextSeqGuarded fun _ => .read_bind fun _ => .bind (keeps_event rfl rfl) fun _ =>
    .ret _

/-- The frame `sm` is `m` with another payload and other authentication codes, as sealing has it. -/
def Message.SealOf (m sm : Message) : Prop :=
  sm = { m with data := sm.data, authTag := sm.authTag, authPath := sm.authPath }

theorem Message.SealOf.messageType {m sm : Message} (h : m.SealOf sm) :
    sm.messageType = m.messageType := by rw [h]

theorem sealOf_sealPayload {c : Crypto} {key : Key} {sm : Message}
    (h : sealPayload c key m = some sm) : m.SealOf sm := by
  obtain ⟨_, _, rfl⟩ := Option.map_eq_some_iff.1 h
  rfl

theorem Message.SealOf.seedAuthPath {sm : Message} (h : m.SealOf sm) (c : Crypto) (kUp : Key)
    (deviceMac : Mac) : m.SealOf (seedAuthPath c kUp sm deviceMac) := by
  unfold LatticeMesh.seedAuthPath
  split
  · unfold SealOf
    rw [h]
  · exact h

/-- A frame that is sealed for the master stays the same up to its payload and its codes. -/
theorem yields_sealUplink : Yields f (sealUplink w m) fun r => ∀ sm, r = some sm → m.SealOf sm := by
  refine .bind (.of_keeps (keeps_checkEpochRollback _ _)) fun _ _ => .read_bind fun s => ?_
  refine .bind (.of_keeps keeps_masterE2EKeys) fun r _ => ?_
  split
  · exact .ret (by simp)
  refine .bind (.of_keeps (keeps_event rfl rfl)) fun _ _ => ?_
  split
  · exact .ret (by simp)
  · refine .ret fun sm hsm => ?_
    obtain rfl := Option.some.inj hsm
    exact (sealOf_sealPayload ‹_›).seedAuthPath _ _ _

/-! ### Opening -/

theorem keeps_openWith (key : Key) : Keeps f (openWith w key m) := by
  unfold openWith
  split
  · exact .bind (keeps_event rfl rfl) fun _ => .ret _
  · exact .ret _

theorem keeps_openUplink : Keeps f (openUplink w m) := by
  refine .bind (keeps_peerE2EKeys _) fun r => ?_
  split
  · exact keeps_openWith _
  · exact .ret _

theorem keeps_openDownlink : Keeps f (openDownlink w m) := by
  refine .bind keeps_masterE2EKeys fun r => ?_
  split
  · exact keeps_openWith _
  · exact .ret _

theorem keeps_authorize (addressedToSelf : Bool) : Keeps f (authorize w m addressedToSelf) := by
  refine .read_bind fun s => .ite (fun _ => .ret _) fun _ => .bind ?_ fun r => ?_
  · exact .ite (fun _ => keeps_openUplink) fun _ => .ite (fun _ => keeps_openDownlink) fun _ =>
      .ret _
  · split
    · exact .ite (fun _ => .ret _) fun _ => .ret _
    · exact .ret _

theorem keeps_verifyHops : ∀ (hops : List Mac) (prevHop : Mac) (computed : AuthPath),
    Keeps f (verifyHops w m hops prevHop computed)
  | [], _, _ => .ret _
  | hopMac :: hops, prevHop, computed => by
    refine .bind (keeps_peerE2EKeys _) fun r => ?_
    split
    · exact keeps_verifyHops hops hopMac _
    · exact .ret _

/-! ### Booting -/

theorem keeps_bootstrapPeers : Keeps f (bootstrapPeers w) := by
  refine .read_bind fun s => .ite (fun _ => .ret _) fun _ => .read_bind fun s => ?_
  refine .ite (fun _ => .ret _) fun _ => .forM fun i _ => ?_
  split
  · exact keeps_save (fun _ => ⟨rfl, rfl⟩) _
  · exact keeps_put (fun _ => ⟨rfl, rfl⟩) _

theorem keeps_createAdapter : Keeps f (createAdapter w) := by
  refine .read_bind fun s => .ite (fun _ => ?_) fun _ => ?_
  · refine .bind (keeps_quiet fun _ => rfl) fun _ => .bind ?_ fun ok => ?_
    · refine .ite (fun _ => ?_) fun _ => .ret _
      refine .ite (fun _ => .bind (keeps_fail _ _ _ _) fun _ => .ret _) fun _ => ?_
      exact .ite (fun _ => .bind (keeps_fail _ _ _ _) fun _ => .ret _) fun _ => .ret _
    · exact .ite (fun _ => .ret _) fun _ => keeps_fatal _ _ _ _
  · exact .bind (keeps_fail _ _ _ _) fun _ => keeps_fatal _ _ _ _

theorem keeps_loadMeshKeyFromEEPROM : Keeps f (loadMeshKeyFromEEPROM w) := by
  refine .bind (keeps_quiet fun _ => rfl) fun _ => .read_bind fun s => .ite (fun _ => ?_) fun _ =>
    .ret _
  exact .bind (keeps_quiet fun _ => rfl) fun _ => keeps_save (fun _ => ⟨rfl, rfl⟩) _

theorem keeps_initEnrollment : Keeps f (initEnrollment w) := by
  refine .bind ?_ fun _ => keeps_quiet fun _ => rfl
  refine .read_bind fun s => ?_
  split
  · exact keeps_quiet fun _ => rfl
  · split
    · refine .bind (keeps_quiet fun _ => rfl) fun _ => .bind (keeps_save (fun _ => ⟨rfl, rfl⟩) _)
        fun _ => ?_
      exact .bind (keeps_save (fun _ => ⟨rfl, rfl⟩) _) fun _ => keeps_save (fun _ => ⟨rfl, rfl⟩) _
    · exact keeps_fatal _ _ _ _

theorem keeps_setupEspNow : Keeps f (setupEspNow w) := by
  refine .ite (fun _ => .bind (keeps_fail _ _ _ _) fun _ => .ret _) fun _ => ?_
  refine .bind (keeps_checkEsp _ _ _) fun _ => .bind (keeps_quiet fun _ => rfl) fun _ => ?_
  refine .read_bind fun s => .bind (.forM fun p _ => ?_) fun _ => .ret _
  exact keeps_registerPeerWithEspNow _

/-! ### The adapter and beacons -/

theorem keeps_onMeshDataImpl : Keeps f (onMeshDataImpl w m) := by
  refine .read_bind fun s => .ite (fun _ => ?_) fun _ => .ret _
  exact .ite (fun _ => keeps_event rfl rfl) fun _ => keeps_fail _ _ _ _

theorem keeps_acceptBeaconOrigin (mac : Mac) : Keeps f (acceptBeaconOrigin w mac) := by
  have hlearn : ∀ x : MeshM Unit, Keeps f x → Keeps f (x >>= fun _ => pure true) :=
    fun x hx => .bind hx fun _ => .ret _
  refine .read_bind fun s => .ite (fun _ => hlearn _ (keeps_learnMasterMac mac)) fun _ => ?_
  refine .ite (fun _ => .ret _) fun _ => ?_
  refine .ite (fun _ => hlearn _ (keeps_learnSecondaryMasterMac mac)) fun _ => ?_
  exact .ite (fun _ => .ret _) fun _ => hlearn _ (keeps_learnMasterMac mac)

theorem keeps_warnOtherMaster (mac : Mac) : Keeps f (warnOtherMaster w mac) :=
  .read_bind fun _ => .ite (fun _ => keeps_fail _ _ _ _) fun _ => .ret _

end LatticeMesh
