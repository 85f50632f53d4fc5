import LatticeMesh.Handlers

/-!
# What the inputs do

The second half of the lemmas that show each function to be a sequence of changes: downlink,
beacons, opening, the adapter, and the handlers of the inputs themselves.

## Main results

* `does_handleReceivedMessage` — a received frame.
* `does_handleInput` — **every input of a running node is a sequence of changes, abandoned only for
  the listed reasons.**
-/

namespace LatticeMesh

open EffectSpec Relation

variable {w : World} {s₀ s : Node} {i : Input}

/-! ### Enrollment requests -/

theorem does_dispatchJoinAck {srcMac : Mac} {m : Message} (hi : i = .rx srcMac m)
    (ht : m.messageType = MessageType.joinAck) :
    Does w s₀ i s (dispatchJoinAck w m) fun _ _ => True := by
  refine Spec.read_bind (Spec.ite (fun hto => ?_) fun _ => ?_)
  · exact Spec.ite (fun _ => Spec.ret trivial) fun hl =>
      does_processJoinAck hi ht (by simpa using hl) hto
  · refine Spec.ite (fun _ => Spec.ret trivial) fun _ => ?_
    exact does_sendBroadcast (.relay hi (m.relayOf_relayed _))

theorem does_relayEnrollmentUplink {srcMac : Mac} {m : Message} (hi : i = .rx srcMac m) :
    Does w s₀ i s (relayEnrollmentUplink w m) fun _ _ => True := by
  refine Spec.read_bind (Spec.ite (fun _ => Spec.ret trivial) fun hown => ?_)
  refine Spec.bind does_findNextHopToMaster fun r t ht _ => ?_
  cases r with
  | none => exact Spec.ret trivial
  | some hop =>
    have hne : m.originMac ≠ t.deviceMac := by
      rw [(effects_sameDevice ht).deviceMac]
      exact fun h => hown (.inl h)
    exact does_transmitFrame (fun h => absurd h hne) (.relay hi (m.relayOf_relayed _))

theorem does_sendEnrollmentRequest (hi : ∀ srcMac m, i ≠ .rx srcMac m) :
    Does w s₀ i s (sendEnrollmentRequest w) fun _ _ => True :=
  Spec.bind does_nextSeqGuarded fun _ _ _ _ => Spec.read_bind (does_sendBroadcast (.of_not_rx hi))

theorem does_processRequest {m : Message} :
    Does w s₀ i s (processRequest w m) fun _ _ => True :=
  Spec.read_bind (Spec.ite (fun _ => does_any (does_quiet rfl)) fun _ => Spec.ret trivial)

theorem does_drainPendingRelay : Does w s₀ i s drainPendingRelay fun _ _ => True := by
  refine Spec.read_bind (Spec.bind (Q := fun _ _ => True) (Spec.forM trivial ?_) ?_)
  · exact fun x _ t _ _ => does_any (does_emit (.relayToServer t x.1 x.2))
  · exact fun _ _ _ _ => does_any (does_quiet rfl)

/-! ### Downlink -/

theorem does_relayDownlink {srcMac : Mac} {m : Message} (hi : i = .rx srcMac m) :
    Does w s₀ i s (relayDownlink w m) fun _ _ => True := by
  refine Spec.read_bind (Spec.ite (fun _ => Spec.ret trivial) fun _ => ?_)
  exact does_sendToPeers (.relay hi (m.relayOf_relayed _))

theorem does_registerDownlinkPeer {mac : Mac} :
    Does w s₀ i s (registerDownlinkPeer w mac) fun _ _ => True := by
  refine Spec.read_bind (Spec.ite (fun _ => ?_) fun _ => Spec.ite (fun _ => ?_) fun _ =>
    Spec.ite (fun _ => ?_) fun _ => ?_)
  · exact Spec.update_bind (.quiet rfl) (does_any does_registerPeerWithEspNow)
  · exact Spec.update_bind (.quiet rfl) (does_any does_registerPeerWithEspNow)
  · refine Spec.bind does_espNowDelPeer fun _ _ _ _ => ?_
    exact Spec.update_bind (.quiet rfl) (does_any does_registerPeerWithEspNow)
  · exact Spec.update_bind (.quiet rfl) (does_any does_registerPeerWithEspNow)

theorem does_broadcastAdapterData {type : AdapterType} {data : Payload} {deliverLocally : Bool}
    {cb : Message → MeshM Unit} (h : OwnPayload w i s data)
    (hcb : ∀ t m, m.data = data → ReflTransGen (Effect w s₀ i) s t →
      Does w s₀ i t (cb m) fun _ _ => True) :
    Does w s₀ i s (broadcastAdapterData w type data deliverLocally cb) fun _ _ => True := by
  refine Spec.bind (does_buildMessage h) ?_
  rintro b _ hst ⟨hb, rfl⟩
  have ho : b.originMac = s.drawn.deviceMac := by rw [hb, builtMessage_originMac]
  have hm : MaySend i (s.drawn.emit (.built b)) { b with targetMac := broadcastMac } :=
    (MaySend.built ho).own ho rfl
  refine Spec.read_bind (Spec.bind (does_broadcastToAllPeers hm) fun _ u htu _ => ?_)
  exact Spec.ite (fun _ => hcb u _ (by rw [hb]; rfl) (hst.trans htu)) fun _ => Spec.ret trivial

theorem does_transmitDispatch {type : AdapterType} {data : Payload} {selfOriginated : Bool}
    {cb : Message → MeshM Unit} (h : OwnPayload w i s data)
    (hcb : ∀ t m, m.data = data → ReflTransGen (Effect w s₀ i) s t →
      Does w s₀ i t (cb m) fun _ _ => True) :
    Does w s₀ i s (transmitDispatch w type data selfOriginated cb) fun _ _ => True :=
  Spec.read_bind (Spec.ite (fun _ => does_broadcastAdapterData h hcb) fun _ => does_transmitBuilt h)

theorem does_routeDownlink {m : Message} (hi : ∀ srcMac m', i ≠ .rx srcMac m') :
    Does w s₀ i s (routeDownlink w m) fun _ _ => True := by
  refine Spec.read_bind ?_
  split
  · refine Spec.ite (fun _ => ?_) fun _ => does_broadcastToAllPeers (.of_not_rx hi)
    split
    · exact Spec.ret trivial
    · exact Spec.bind does_registerDownlinkPeer fun _ _ _ _ => does_sendMessage (.of_not_rx hi)
  · exact does_broadcastToAllPeers (.of_not_rx hi)

theorem does_sendDownlinkToNode {f : Message} {destMac : Mac} {type : AdapterType} {data : Payload}
    (hi : i = .serial f) (h : OwnPayload w i s data) :
    Does w s₀ i s (sendDownlinkToNode w destMac type data) fun _ _ => True := by
  refine Spec.read_bind (Spec.ite (fun _ => Spec.ret trivial) fun _ => ?_)
  refine Spec.bind (does_buildMessage h) ?_
  rintro _ _ - ⟨rfl, rfl⟩
  set b := builtMessage s.drawn type data MessageType.adapterData s.drawn.txState.txSeqNum with hb
  have hm : JustBuilt (s.drawn.emit (.built b)) { b with targetMac := destMac } := ⟨b, rfl, rfl⟩
  refine Spec.bind (does_checkEpochRollback (.inl hm) (.inr ⟨f, hi⟩)) ?_
  rintro _ _ - ⟨-, rfl⟩
  refine Spec.bind does_peerE2EKeys ?_
  rintro r _ - ⟨⟨c, rfl⟩, -, -⟩
  cases r with
  | none => exact Spec.ret trivial
  | some keys =>
    refine Spec.bind (does_emit (.sealed _ _ _ (.inl (hm.guarded rfl)))) fun _ _ _ _ => ?_
    split
    · exact Spec.ret trivial
    · exact does_routeDownlink (by simp [hi])

theorem does_enrollPeer {f : Message} {secondary : Option (Mac × Key)} (hi : i = .serial f)
    (ht : f.messageType = MessageType.joinAck) (hz : f.enrollmentPublicKey.isZero = false) :
    Does w s₀ i s (enrollPeer w f.targetMac secondary) fun _ _ => True := by
  refine Spec.read_bind ?_
  cases hp : s.peers.find f.targetMac with
  | none => exact Spec.ret trivial
  | some p =>
    refine Spec.bind (does_registerPeerWithKey fun _ => .approved hi ht hz hp) fun r t _ _ => ?_
    refine Spec.ite (fun _ => ?_) fun _ => Spec.ret trivial
    refine Spec.bind does_nextSeqGuarded fun _ _ _ _ => Spec.read_bind ?_
    exact does_sendBroadcast (.of_not_rx (by simp [hi]))

/-! ### Beacons -/

theorem does_acceptBeaconOrigin {srcMac : Mac} {m : Message} (hi : i = .rx srcMac m)
    (ht : m.messageType = MessageType.masterBeacon) (hp : beaconPinned w.config m = true) :
    Does w s₀ i s (acceptBeaconOrigin w m.originMac) fun _ _ => True := by
  have hlearn : Does w s₀ i s (do learnMasterMac w m.originMac; pure true) fun _ _ => True :=
    Spec.bind (does_learnMasterMac (.beacon hi ht hp)) fun _ _ _ _ => Spec.ret trivial
  refine Spec.read_bind (Spec.ite (fun _ => hlearn) fun _ => ?_)
  refine Spec.ite (fun _ => Spec.ret trivial) fun _ => Spec.ite (fun hc => ?_) fun _ => ?_
  · simp only [Bool.and_eq_true, Bool.not_eq_true'] at hc
    exact Spec.bind (does_learnSecondaryMasterMac (.beacon hi ht hp hc.2)) fun _ _ _ _ =>
      Spec.ret trivial
  · exact Spec.ite (fun _ => Spec.ret trivial) fun _ => hlearn

theorem quiet_noteBeacon (m : Message) : Quiet s ((s.noteBeacon w m).scheduleRelay w m) := by
  unfold Node.scheduleRelay
  split <;> rfl

theorem does_processBeacon {srcMac : Mac} {m : Message} (hi : i = .rx srcMac m)
    (ht : m.messageType = MessageType.masterBeacon) :
    Does w s₀ i s (processBeacon w m) fun _ _ => True := by
  refine Spec.read_bind (Spec.ite (fun _ => Spec.ret trivial) fun hc => ?_)
  have hp : beaconPinned w.config m = true := by
    by_contra hn
    exact hc (.inr (.inl (by simpa using hn)))
  refine Spec.bind (does_acceptBeaconOrigin hi ht hp) fun _ t _ _ => ?_
  refine Spec.ite (fun _ => ?_) fun _ => Spec.ret trivial
  refine Spec.bind (Q := fun _ _ => True) ?_ fun _ u _ _ =>
    does_any (does_quiet (quiet_noteBeacon m))
  refine Spec.read_bind (Spec.ite (fun _ => ?_) fun _ => Spec.ret trivial)
  exact does_any (does_warn rfl)

theorem does_checkTimeout : Does w s₀ i s (checkTimeout w) fun _ _ => True := by
  refine does_any (does_quiet ?_)
  split
  · rfl
  · split <;> rfl

theorem does_broadcastMasterBeacon (hi : i = .loop) :
    Does w s₀ i s (broadcastMasterBeacon w) fun _ _ => True := by
  refine Spec.read_bind (Spec.ite (fun _ => Spec.ret trivial) fun _ => ?_)
  refine Spec.update_bind (.quiet rfl) (Spec.bind (does_buildMessage (.inr ?_)) fun _ _ _ _ => ?_)
  · subst hi
    exact .inr rfl
  · exact does_sendBroadcast (.of_not_rx (by simp [hi]))

/-! ### Opening -/

theorem does_openWith {key : Key} {m : Message} (hi : ∃ srcMac, i = .rx srcMac m)
    (h : s.isMaster = true → ∃ keys, KeysFor w.crypto s m.originMac keys ∧ key = keys.kUp) :
    Does w s₀ i s (openWith w key m) fun r t => ∀ opened, r = some opened →
      openPayload w.crypto key m = some opened ∧ t = s.emit (.opened key m) := by
  unfold openWith
  split
  · rename_i opened ho
    refine Spec.bind (does_emit (.opened s key m hi h)) ?_
    rintro _ _ - rfl
    refine Spec.ret fun o h => ?_
    obtain rfl := Option.some.inj h
    exact ⟨ho, rfl⟩
  · exact Spec.ret (by simp)

/-- The frame `m` was opened with the half `half` of the keys shared with `mac`. -/
def OpensWith (c : Crypto) (s : Node) (mac : Mac) (half : E2EKeys → Key) (m : Message)
    (r : Option Message) (t : Node) : Prop :=
  ∀ opened, r = some opened → ∃ keys, KeysFor c t mac keys ∧
    openPayload c (half keys) m = some opened ∧ ∃ st tr, t = { s with e2eKeys := st, trace := tr }

theorem does_openUplink {m : Message} (hi : ∃ srcMac, i = .rx srcMac m) :
    Does w s₀ i s (openUplink w m) (OpensWith w.crypto s m.originMac E2EKeys.kUp m) := by
  refine Spec.bind does_peerE2EKeys fun r t _ hr => ?_
  obtain ⟨st, rfl⟩ := hr.keysOnly
  cases r with
  | none => exact Spec.ret fun _ h => by cases h
  | some keys =>
    have hk := hr.keysFor keys rfl
    refine Spec.mono (does_openWith hi fun _ => ⟨keys, hk, rfl⟩) fun r t _ h opened ho => ?_
    obtain ⟨hopen, rfl⟩ := h opened ho
    exact ⟨keys, hk, hopen, st, _, rfl⟩

theorem does_openDownlink {m : Message} (hi : ∃ srcMac, i = .rx srcMac m)
    (hl : s.isMaster = false) : Does w s₀ i s (openDownlink w m)
      (OpensWith w.crypto s s.currentMaster.mac E2EKeys.kDown m) := by
  refine Spec.bind does_masterE2EKeys ?_
  rintro r _ - ⟨⟨st, rfl⟩, -, hk⟩
  cases r with
  | none => exact Spec.ret fun _ h => by cases h
  | some keys =>
    refine Spec.mono (does_openWith hi fun hm => absurd hm (by simp [hl]))
      fun r t _ h opened ho => ?_
    obtain ⟨hopen, rfl⟩ := h opened ho
    exact ⟨keys, hk keys rfl, hopen, st, _, rfl⟩

/-- An opened frame that may reconfigure the node. -/
theorem mayConfigure_opened {srcMac : Mac} {m opened : Message} {t : Node} {wasOpened : Bool}
    (hi : i = .rx srcMac m) (ht : m.messageType = MessageType.adapterData)
    (hto : m.targetMac = s.deviceMac)
    (ho : OpensWith w.crypto s (if s.isMaster then m.originMac else s.currentMaster.mac)
      (fun keys => if s.isMaster then keys.kUp else keys.kDown) m (some opened) t)
    (ha : configAllowed s.enrollment opened wasOpened = true) (hc : isConfigOpcode opened = true) :
    MayConfigure w i t := by
  obtain ⟨keys, hk, hopen, st, tr, rfl⟩ := ho opened rfl
  have horigin := openPayload_originMac hopen
  intro srcMac' m' hi'
  obtain ⟨-, rfl⟩ := Input.rx.inj (hi.symm.trans hi')
  refine ⟨ht, hto, ⟨keys, opened, hk, hopen, hc⟩, fun hm => ?_⟩
  have hm : s.enrollment.hasMasterMac = true := hm
  simp only [configAllowed, hc, hm, Bool.not_true, Bool.false_or, Bool.and_eq_true] at ha
  exact horigin ▸ ha.2

theorem does_authorize {srcMac : Mac} {m : Message} (hi : i = .rx srcMac m)
    (ht : m.messageType = MessageType.adapterData) :
    Does w s₀ i s (authorize w m (m.targetMac = s.deviceMac)) fun r t =>
      ∀ opened, r = some opened → isConfigOpcode opened = true → MayConfigure w i t := by
  refine Spec.read_bind (Spec.ite (fun _ => Spec.ret (by simp)) fun _ => ?_)
  have hsealed : isSealedType m.messageType = true := by rw [ht]; rfl
  by_cases hto : m.targetMac = s.deviceMac
  · -- opened, with the keys of the origin or of the master
    refine Spec.bind (Q := OpensWith w.crypto s
      (if s.isMaster then m.originMac else s.currentMaster.mac)
      -- the role says whose keys open it
      (fun keys => if s.isMaster then keys.kUp else keys.kDown) m) ?_ fun r t _ hr => ?_
    · by_cases hm : s.isMaster = true
      · rw [if_pos (by simp [hm, hto, hsealed])]
        refine Spec.mono (does_openUplink ⟨srcMac, hi⟩) fun r t _ h => ?_
        simp only [if_pos hm]
        exact h
      · rw [if_neg (by simp [hm]), if_pos (by simp [hm, hto, ht])]
        refine Spec.mono (does_openDownlink ⟨srcMac, hi⟩ (by simpa using hm)) fun r t _ h => ?_
        simp only [if_neg hm]
        exact h
    · cases r with
      | none => exact Spec.ret (by simp)
      | some opened =>
        refine Spec.ite (fun ha => Spec.ret fun o h hc => ?_) fun _ => Spec.ret (by simp)
        obtain rfl := Option.some.inj h
        exact mayConfigure_opened hi ht hto hr ha hc
  · -- a frame that was not opened reconfigures nothing
    refine Spec.bind (Q := fun _ _ => True) ?_ fun r t _ _ => ?_
    · simpa [hto] using Spec.ret trivial
    · cases r with
      | none => exact Spec.ret (by simp)
      | some opened =>
        refine Spec.ite (fun ha => Spec.ret fun o h hc => ?_) fun _ => Spec.ret (by simp)
        obtain rfl := Option.some.inj h
        simp [configAllowed, hto, hc] at ha

/-! ### Route reports -/

theorem does_verifyHops {m : Message} : ∀ {hops : List Mac} {prevHop : Mac} {computed : AuthPath}
    {s : Node}, Does w s₀ i s (verifyHops w m hops prevHop computed) fun _ _ => True
  | [], _, _, _ => Spec.ret trivial
  | _ :: _, _, _, _ => Spec.bind does_peerE2EKeys fun r _ _ _ => by
    cases r with
    | none => exact Spec.ret trivial
    | some keys => exact does_verifyHops

theorem does_acceptRouteReport {m : Message} {cb : Message → MeshM Unit}
    (hi : ∃ srcMac, i = .rx srcMac m)
    (hcb : ∀ t m, m.byte 0 = Opcode.routeReport → Does w s₀ i t (cb m) fun _ _ => True) :
    Does w s₀ i s (acceptRouteReport w m cb) fun _ _ => True := by
  refine Spec.bind does_peerE2EKeys fun r t _ hr => ?_
  cases r with
  | none => exact Spec.ret trivial
  | some keys =>
    refine Spec.bind (does_openWith hi fun _ => ⟨keys, hr.keysFor keys rfl, rfl⟩)
      fun r u _ _ => ?_
    cases r with
    | none => exact Spec.ret trivial
    | some opened =>
      refine Spec.ite (fun _ => Spec.ret trivial) fun hop => ?_
      rw [not_or, not_not] at hop
      refine Spec.bind does_verifyHops fun _ _ _ _ => Spec.ite (fun _ => ?_) fun _ =>
        Spec.ret trivial
      exact Spec.update_bind (.quiet rfl) (hcb _ _ hop.1)

theorem relayOf_appendHop {m : Message} {deviceMac : Mac} :
    Message.RelayOf m (appendHop m deviceMac) := by
  unfold appendHop
  split <;> rfl

theorem relayOf_extendAuthPath {c : Crypto} {kUp : Key} {m r : Message} {prevHop deviceMac : Mac}
    (h : Message.RelayOf m r) : Message.RelayOf m (extendAuthPath c kUp r prevHop deviceMac) :=
  h.trans rfl

/-- A relay keeps the origin, the type and the number of a frame. -/
theorem Message.RelayOf.fixed {m r : Message} (h : Message.RelayOf m r) :
    r.originMac = m.originMac ∧ r.messageType = m.messageType ∧ r.epochNum = m.epochNum ∧
      r.seqNum = m.seqNum := by
  rw [Message.relayOf_iff.1 h]
  exact ⟨rfl, rfl, rfl, rfl⟩

/-- A frame of this node's own address that the transmit path takes for one of its own: it reaches
the guard, and the seal if the guard lets it pass and the keys are there. -/
def Reflected (w : World) (s₀ : Node) (i : Input) (s : Node) (m : Message) : Prop :=
  reflectsUplink w s₀ i = true ∧
    (s.txState.sealAdvances m.epochNum m.seqNum = true → (s.masterKeys w.crypto).isSome = true →
      resealsUplink w s₀ i = true)

/-- Passing on a relayed copy of the frame that is being processed. -/
theorem does_transmitRelay {srcMac : Mac} {m r : Message} {msgType : UInt8}
    (hi : i = .rx srcMac m) (h : Message.RelayOf m r)
    (hown : m.originMac = s.deviceMac → s.isMaster = false → Reflected w s₀ i s m) :
    Does w s₀ i s (transmitCore w r.dataType r.data msgType (some r) s.isMaster)
      fun _ _ => True := by
  obtain ⟨ho, -, he, hq⟩ := h.fixed
  refine does_transmitFrame (fun hself hm _ => ?_) (.relay hi h)
  obtain ⟨hg, hs⟩ := hown (by rw [← ho]; exact hself) hm
  refine ⟨.inr hg, .inl hm, fun ha hk => .inr (hs ?_ hk)⟩
  rwa [he, hq] at ha

theorem does_relayRouteReport {srcMac : Mac} {m : Message} (hi : i = .rx srcMac m)
    (hown : m.originMac = s.deviceMac → s.isMaster = false → m.hopCount.toNat < maxHops →
      m.routeLen.toNat < maxHops → (s.masterKeys w.crypto).isSome = true →
      Reflected w s₀ i s m) :
    Does w s₀ i s (relayRouteReport w m) fun _ _ => True := by
  refine Spec.read_bind (Spec.ite (fun _ => Spec.ret trivial) fun hc => ?_)
  rw [not_or, not_le, not_le] at hc
  refine Spec.bind does_masterE2EKeys ?_
  rintro r _ - ⟨⟨c, rfl⟩, hr, -⟩
  cases r with
  | none => exact Spec.ret trivial
  | some keys =>
    have hk : (s.masterKeys w.crypto).isSome = true := (congrArg Option.isSome hr).symm
    refine does_transmitRelay hi (relayOf_extendAuthPath relayOf_appendHop) fun ho hm => ?_
    obtain ⟨hg, hs⟩ := hown ho hm hc.1 hc.2 hk
    exact ⟨hg, fun ha _ => hs ha hk⟩

theorem does_processRouteReport {srcMac : Mac} {m : Message} {cb : Message → MeshM Unit}
    (hi : i = .rx srcMac m)
    (hcb : ∀ t m, m.byte 0 = Opcode.routeReport → Does w s₀ i t (cb m) fun _ _ => True)
    (hown : m.originMac = s.deviceMac → s.isMaster = false → m.hopCount.toNat < maxHops →
      m.routeLen.toNat < maxHops → (s.masterKeys w.crypto).isSome = true →
      Reflected w s₀ i s m) :
    Does w s₀ i s (processRouteReport w m cb) fun _ _ => True :=
  Spec.read_bind (Spec.ite (fun _ => does_acceptRouteReport ⟨srcMac, hi⟩ hcb) fun _ =>
    does_relayRouteReport hi hown)

theorem does_sendRouteReport (hi : i = .loop) :
    Does w s₀ i s (sendRouteReport w) fun _ _ => True := by
  refine Spec.read_bind (Spec.ite (fun _ => Spec.ret trivial) fun hm => ?_)
  refine Spec.bind does_findNextHopToMaster fun r t ht _ => ?_
  cases r with
  | none => exact Spec.ret trivial
  | some hop =>
    have hpayload : OwnPayload w i t routeReportData := .inr (by subst hi; exact .inl rfl)
    have hrole : t.isMaster = s.isMaster := effects_isMaster (by simp [hi]) ht
    rw [← hrole]
    exact Spec.bind (does_transmitBuilt hpayload) fun _ _ _ _ => Spec.ret trivial

/-! ### The adapter -/

theorem does_opConfigSet {m : Message} (hc : MayConfigure w i s) :
    Does w s₀ i s (opConfigSet w m) fun _ _ => True := by
  refine Spec.read_bind (Spec.ite (fun _ => ?_) fun _ => Spec.ret trivial)
  exact Spec.bind (does_nvsSave_setting rfl (fun _ => hc) nofun) fun _ t _ _ =>
    ⟨t, .refl, .restart⟩

theorem does_opNodeIdSet {m : Message} (hc : MayConfigure w i s) :
    Does w s₀ i s (opNodeIdSet w m) fun _ _ => True :=
  Spec.read_bind (Spec.ite (fun _ => does_setting rfl (fun _ => hc) nofun) fun _ =>
    Spec.ret trivial)

theorem does_opTxPowerSet {m : Message} {rebroadcastOnMaster : Bool}
    (h : rebroadcastOnMaster = true → ∀ t, OwnPayload w i t (txPowerData (m.byte 1))) :
    Does w s₀ i s (opTxPowerSet w m rebroadcastOnMaster) fun _ _ => True := by
  refine Spec.read_bind (Spec.ite (fun _ => Spec.ret trivial) fun _ => ?_)
  refine Spec.bind (does_nvsSave_setting rfl nofun nofun) fun _ t _ _ =>
    Spec.ite (fun hr => ?_) fun _ => Spec.ret trivial
  simp only [Bool.and_eq_true] at hr
  exact does_broadcastAdapterData (h hr.1 t) fun _ _ _ _ => Spec.ret trivial

theorem does_dispatchControlOp {transmitSelf : AdapterType → Payload → MeshM Unit} {m : Message}
    {rebroadcastOnMaster : Bool}
    (hc : m.byte 0 = Opcode.configSet ∨ m.byte 0 = Opcode.nodeIdSet → MayConfigure w i s)
    (hself : ∀ type, Does w s₀ i s
      (transmitSelf type (buildHealthFrame s Opcode.healthReport w.nowMs)) fun _ _ => True)
    (h : rebroadcastOnMaster = true → ∀ t, OwnPayload w i t (txPowerData (m.byte 1))) :
    Does w s₀ i s (dispatchControlOp w transmitSelf m rebroadcastOnMaster) fun _ _ => True := by
  refine Spec.ite (fun ho => does_opConfigSet (hc (.inl ho))) fun _ =>
    Spec.ite (fun ho => does_opNodeIdSet (hc (.inr ho))) fun _ =>
    Spec.ite (fun _ => ?_) fun _ => Spec.ite (fun _ => does_opTxPowerSet h) fun _ =>
      Spec.ret trivial
  exact Spec.read_bind (Spec.ite (fun _ => hself _) fun _ => Spec.ret trivial)

theorem does_onMeshDataImpl {m : Message} :
    Does w s₀ i s (onMeshDataImpl w m) fun _ _ => True := by
  refine Spec.read_bind (Spec.ite (fun _ => Spec.ite (fun _ => ?_) fun _ => ?_) fun _ =>
    Spec.ret trivial)
  · exact does_any (does_emit (.serialOut s m))
  · exact does_any (does_warn rfl)

theorem does_onMeshData {transmitSelf : AdapterType → Payload → MeshM Unit} {m : Message}
    (hc : isConfigOpcode m = true → MayConfigure w i s)
    (hself : ∀ type, Does w s₀ i s
      (transmitSelf type (buildHealthFrame s Opcode.healthReport w.nowMs)) fun _ _ => True) :
    Does w s₀ i s (onMeshData w transmitSelf m) fun _ _ => True := by
  refine Spec.read_bind (Spec.ite (fun ht => ?_) fun _ => Spec.ite (fun _ => does_onMeshDataImpl)
    fun _ => Spec.ret trivial)
  refine Spec.bind (does_dispatchControlOp (fun ho => hc ?_) hself (by simp)) fun _ _ _ _ => ?_
  · simpa [isConfigOpcode, ht] using ho
  · exact Spec.ite (fun _ => does_onMeshDataImpl) fun _ => Spec.ret trivial

theorem byte_buildHealthFrame {m : Message} {t : Node} {opcode : UInt8} {nowMs : UInt64}
    (h : m.data = buildHealthFrame t opcode nowMs) : m.byte 0 = opcode := by
  unfold Message.byte
  rw [h]
  rfl

/-- A health report is no command. -/
theorem isConfigOpcode_buildHealthFrame {m : Message} {t : Node} {nowMs : UInt64}
    (h : m.data = buildHealthFrame t Opcode.healthReport nowMs) : isConfigOpcode m = false := by
  unfold isConfigOpcode
  rw [byte_buildHealthFrame h, Bool.and_eq_false_iff]
  exact .inr (by decide)

theorem does_externalRecvCallback : ∀ {n : ℕ} {s : Node} {m : Message},
    (isConfigOpcode m = true → MayConfigure w i s) →
    Does w s₀ i s (externalRecvCallback w n m) fun _ _ => True
  | 0, _, _, _ => Spec.ret trivial
  | _ + 1, s, m, hc => by
    refine Spec.bind (does_emit (.deliver s m)) ?_
    rintro _ _ - rfl
    refine does_onMeshData hc fun type => does_transmitDispatch (.inl rfl) fun t m' hd _ => ?_
    refine does_externalRecvCallback fun hc' => ?_
    rw [isConfigOpcode_buildHealthFrame hd] at hc'
    cases hc'

theorem does_deliver {m : Message} (hc : isConfigOpcode m = true → MayConfigure w i s) :
    Does w s₀ i s (deliver w m) fun _ _ => True := does_externalRecvCallback hc

/-- A local command is not restricted. -/
theorem mayConfigure_local (hi : ∀ srcMac m, i ≠ .rx srcMac m) : MayConfigure w i s :=
  fun srcMac m h => absurd h (hi srcMac m)

theorem does_handleCompleteFrame {m : Message} (hi : i = .serial m) :
    Does w s₀ i s (handleCompleteFrame w m) fun _ _ => True := by
  have hdata : ∀ t, OwnPayload w i t m.data := fun t => .inr (by subst hi; exact .inl rfl)
  have hlocal : ∀ t, MayConfigure w i t := fun _ => mayConfigure_local (by simp [hi])
  refine Spec.read_bind (Spec.ite (fun _ => Spec.ret trivial) fun _ => Spec.ite (fun ht => ?_)
    fun _ => ?_)
  · refine Spec.ite (fun _ => Spec.ret trivial) fun hz => ?_
    exact does_enrollPeer hi ht (by simpa using hz)
  · refine Spec.bind (Q := fun _ _ => True) ?_ fun _ t _ _ => Spec.ite (fun _ => ?_) fun _ =>
      Spec.ret trivial
    · refine Spec.ite (fun _ => ?_) fun _ => Spec.ite (fun _ => Spec.ite (fun _ => ?_) fun _ => ?_)
        fun _ => Spec.ret trivial
      · exact does_transmitDispatch (hdata s) fun _ _ _ _ => does_deliver fun _ => hlocal _
      · exact does_broadcastAdapterData (hdata s) fun _ _ _ _ => does_deliver fun _ => hlocal _
      · exact does_sendDownlinkToNode hi (hdata s)
    · refine does_dispatchControlOp (fun _ => hlocal _) (fun _ => does_transmitDispatch (.inl rfl)
        fun _ _ _ _ => does_deliver fun _ => hlocal _) fun _ _ => .inr ?_
      subst hi
      exact .inr rfl

/-! ### The mesh -/

/-- The receive callback does what a delivery of this input may do. -/
def CallbackDoes (w : World) (s₀ : Node) (i : Input) (externalRecvCallback : Message → MeshM Unit) :
    Prop :=
  ∀ t m, (isConfigOpcode m = true → MayConfigure w i t) →
    Does w s₀ i t (externalRecvCallback m) fun _ _ => True

section Callback

variable {cb : Message → MeshM Unit}

theorem does_deliverAdapterDataTo {srcMac : Mac} {m : Message} {broadcast : Bool}
    (hcb : CallbackDoes w s₀ i cb) (hi : i = .rx srcMac m)
    (ht : m.messageType = MessageType.adapterData) :
    Does w s₀ i s (deliverAdapterDataTo w cb m (m.targetMac = s.deviceMac) broadcast)
      fun _ _ => True := by
  refine Spec.bind (does_authorize hi ht) fun r t _ hr => ?_
  cases r with
  | none => exact Spec.ret trivial
  | some opened =>
    refine Spec.bind (hcb _ _ (hr opened rfl)) fun _ u _ _ => Spec.read_bind ?_
    exact Spec.ite (fun _ => does_relayDownlink hi) fun _ => Spec.ret trivial

theorem does_processAdapterDataTo {srcMac : Mac} {m : Message} (hcb : CallbackDoes w s₀ i cb)
    (hi : i = .rx srcMac m) (ht : m.messageType = MessageType.adapterData)
    (hown : m.originMac = s.deviceMac → s.isMaster = false →
      s.routeDecision m = .relayTowardMaster → Reflected w s₀ i s m) :
    Does w s₀ i s (processAdapterDataTo w cb m) fun _ _ => True := by
  refine Spec.read_bind (Spec.ite (fun _ => does_deliverAdapterDataTo hcb hi ht) fun hn => ?_)
  cases hr : s.routeDecision m with
  | notRouted => exact absurd hr hn
  | relayTowardMaster =>
    refine Spec.read_bind (does_transmitRelay hi (m.relayOf_relayed _) fun ho hm => ?_)
    exact hown ho hm hr
  | forwardOnRoute nextHop =>
    refine Spec.read_bind (Spec.bind does_registerDownlinkPeer fun _ t ht _ => ?_)
    exact does_sendMessage (.relay hi m.relayOf_forwarded)
  | flood => exact does_relayDownlink hi
  | dropHopLimitExceeded => exact Spec.ret trivial

end Callback

theorem does_processEnrollment {srcMac : Mac} {m : Message} (hi : i = .rx srcMac m)
    (ht : m.messageType = MessageType.enrollment) :
    Does w s₀ i s (processEnrollment w m) fun _ _ => True := by
  refine Spec.read_bind (Spec.ite (fun hm => ?_) fun _ => does_relayEnrollmentUplink hi)
  refine Spec.bind (does_registerPeerWithKey fun hk => ?_) fun _ _ _ _ => does_processRequest
  exact .enrollment hi ht hm (hk.resolve_left (by simp))

/-- The part of the state that the routing decision and the seal look at is the one at the start of
the step. -/
structure RoutesAs (s₀ s : Node) : Prop where
  deviceMac : s.deviceMac = s₀.deviceMac
  isMaster : s.isMaster = s₀.isMaster
  currentMaster : s.currentMaster = s₀.currentMaster
  hasMasterMac : s.enrollment.hasMasterMac = s₀.enrollment.hasMasterMac
  txState : s.txState = s₀.txState
  masterKeys : ∀ c, s.masterKeys c = s₀.masterKeys c

theorem RoutesAs.routeDecision (h : RoutesAs s₀ s) (m : Message) :
    s.routeDecision m = s₀.routeDecision m := by
  unfold Node.routeDecision Node.addressedToMaster
  rw [h.deviceMac, h.isMaster, h.currentMaster, h.hasMasterMac]

section Callback

variable {cb : Message → MeshM Unit}

theorem does_dispatchMessageTo {srcMac : Mac} {m : Message} (hcb : CallbackDoes w s₀ i cb)
    (hi : i = .rx srcMac m) (hv : m.protoVersion = protoVersion)
    (hg : (replayGate s₀.replay m w.nowMs).1 = false) (h : RoutesAs s₀ s) :
    Does w s₀ i s (dispatchMessageTo w cb m) fun _ _ => True := by
  have hrefl : m.originMac = s.deviceMac → s.isMaster = false →
      (m.messageType = MessageType.adapterData ∧ s.routeDecision m = .relayTowardMaster) ∨
        (m.messageType = MessageType.routeReport ∧ m.hopCount.toNat < maxHops ∧
          m.routeLen.toNat < maxHops ∧ (s.masterKeys w.crypto).isSome = true) →
      Reflected w s₀ i s m := by
    intro ho hl hc
    rw [h.routeDecision, h.masterKeys] at hc
    rw [h.deviceMac] at ho
    rw [h.isMaster] at hl
    subst hi
    have hg' : reflectsUplink w s₀ (.rx srcMac m) = true := by
      simp only [reflectsUplink, hv, hg, ho, hl, Bool.and_eq_true, Bool.or_eq_true,
        decide_eq_true_eq]
      exact ⟨by simp, by tauto⟩
    refine ⟨hg', fun ha hk => ?_⟩
    rw [h.txState] at ha
    rw [h.masterKeys] at hk
    simp [resealsUplink, hg', ha, hk]
  refine Spec.ite (fun ht => ?_) fun hdata => Spec.ite (fun ht => ?_) fun hreport => ?_
  · exact does_processAdapterDataTo hcb hi ht fun ho hl hr => hrefl ho hl (.inl ⟨ht, hr⟩)
  · refine does_processRouteReport hi (fun t m hb => hcb t m fun hc => ?_) fun ho hl hh hr hk =>
      hrefl ho hl (.inr ⟨ht, hh, hr, hk⟩)
    -- a route report is no command
    rw [isConfigOpcode, hb, Bool.and_eq_true] at hc
    exact absurd hc.2 (by decide)
  · refine Spec.ite (fun ht => does_processEnrollment hi ht) fun _ => ?_
    refine Spec.ite (fun ht => does_dispatchJoinAck hi ht) fun _ => ?_
    refine Spec.ite (fun ht => does_processBeacon hi ht) fun _ => ?_
    rw [if_neg hdata, if_neg hreport]
    exact Spec.ret trivial

theorem does_handleReceivedMessageTo {srcMac : Mac} {m : Message} (hcb : CallbackDoes w s i cb)
    (hi : i = .rx srcMac m) :
    Does w s i s (handleReceivedMessageTo w cb srcMac m) fun _ _ => True := by
  refine Spec.ite (fun _ => Spec.ret trivial) fun hv => Spec.read_bind ?_
  refine Spec.update_bind (.quiet rfl) (Spec.ite (fun _ => Spec.ret trivial) fun hg => ?_)
  have hg' : (replayGate s.replay m w.nowMs).1 = false := by simpa using hg
  have hv' : m.protoVersion = protoVersion := by simpa using hv
  refine Spec.bind (Q := fun _ t => RoutesAs s t) ?_ fun _ t _ ht =>
    does_dispatchMessageTo hcb hi hv' hg' ht
  -- hearing the sender is a change only if the sender is another station
  refine Spec.update ?_ ⟨rfl, rfl, rfl, rfl, rfl, fun c => ?_⟩
  · unfold PeerRegistry.updateLastSeen
    by_cases hself : srcMac = s.peers.deviceMac
    · simp only [hself, if_true]
      exact .quiet rfl
    · simp only [if_neg hself]
      exact .touch _ srcMac w.nowMs
  · simp only [Node.masterKeys, Node.keysOf, PeerRegistry.keyOf_updateLastSeen]

end Callback

/-- A received frame. -/
theorem does_handleReceivedMessage {srcMac : Mac} {m : Message} (hi : i = .rx srcMac m) :
    Does w s i s (handleReceivedMessage w srcMac m) fun _ _ => True := by
  rw [← handleReceivedMessageTo_deliver]
  exact does_handleReceivedMessageTo (fun _ _ hc => does_deliver hc) hi

theorem does_loop (hi : i = .loop) : Does w s₀ i s (loop w) fun _ _ => True := by
  refine Spec.bind does_drainPendingRelay fun _ t _ _ => ?_
  refine Spec.bind (Q := fun _ _ => True) ?_ fun _ u _ _ => ?_
  · refine Spec.read_bind (Spec.ite (fun _ => ?_) fun _ => Spec.ret trivial)
    refine Spec.bind (does_sendRouteReport hi) fun _ v _ _ => ?_
    exact Spec.ite (fun _ => does_any (does_quiet rfl)) fun _ => Spec.ret trivial
  refine Spec.bind (Q := fun _ _ => True) ?_ fun _ v _ _ => ?_
  · refine Spec.read_bind (Spec.ite (fun _ => ?_) fun _ => Spec.ret trivial)
    refine Spec.update_bind (.quiet rfl) (does_sendBroadcast (.of_not_rx ?_))
    simp [hi]
  · exact Spec.read_bind (Spec.ite (fun _ => does_broadcastMasterBeacon hi) fun _ =>
      Spec.ret trivial)

theorem does_tickEnrollmentBroadcast (hi : ∀ srcMac m, i ≠ .rx srcMac m) :
    Does w s₀ i s (tickEnrollmentBroadcast w) fun _ _ => True := by
  refine Spec.read_bind (Spec.ite (fun _ => Spec.ret trivial) fun _ => Spec.ite (fun _ => ?_)
    fun _ => Spec.ret trivial)
  exact Spec.update_bind (.quiet rfl) (does_sendEnrollmentRequest hi)

theorem does_tickConfig (hi : i = .configButton) :
    Does w s₀ i s (tickConfig w) fun _ _ => True := by
  refine Spec.read_bind (Spec.ite (fun _ => ?_) fun _ => ?_)
  · exact Spec.update (.role s hi) trivial
  · exact Spec.bind (does_nvsSave_setting rfl nofun fun _ => hi) fun _ t _ _ =>
      ⟨t, .refl, .restart⟩

theorem does_tickReset (hi : i = .resetButton) :
    Does w s₀ i s (tickReset w) fun _ _ => True := by
  refine Spec.bind (Q := fun _ _ => True) ?_ fun _ t _ _ => ⟨t, .refl, .restart⟩
  unfold nvsPut
  refine Spec.ite (fun _ => ?_) fun _ => Spec.ret trivial
  exact ⟨.single (.wipe s hi), trivial⟩

/-- **Every input of a running node is a sequence of changes, abandoned only for the listed
reasons.** -/
theorem does_handleInput (hi : i ≠ .boot) : Does w s i s (handleInput w i) fun _ _ => True := by
  cases i with
  | boot => exact absurd rfl hi
  | rx srcMac m => exact does_handleReceivedMessage rfl
  | transmit type data =>
    exact does_transmitDispatch (.inr rfl) fun _ _ _ _ =>
      does_deliver fun _ => mayConfigure_local (by simp)
  | transmitSelfOriginated type data =>
    exact does_transmitDispatch (.inr rfl) fun _ _ _ _ =>
      does_deliver fun _ => mayConfigure_local (by simp)
  | loop => exact does_loop rfl
  | checkMasterTimeout => exact does_checkTimeout
  | tickEnrollmentBroadcast => exact does_tickEnrollmentBroadcast (by simp)
  | serial m => exact does_handleCompleteFrame rfl
  | configButton => exact does_tickConfig rfl
  | resetButton => exact does_tickReset rfl

end LatticeMesh
