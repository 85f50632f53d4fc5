import LatticeMesh.RadioPeers
import LatticeMesh.RelayOnce

/-!
# How beacons move a node

The places that write the relay state: a beacon that is taken note of, the check for a silent
master, the housekeeping round, and the boot, which starts without any of it.

## Main definitions

* `Node.routeState`, `RelayState.learned` — the relay state apart from the replay cache, and the
  part of it that a boot clears.
* `Node.heard` — the state after a beacon that is taken note of.
* `chosenHop` — the next hop toward the master.

## Main results

* `wp_processBeacon_routeState` — **a beacon is either taken note of or changes nothing here.**
* `Device.routeStep` — **what one step of a running node does to the route state.**
* `Device.boot_learned` — a boot starts without neighbours, route and pending relay.
-/

namespace LatticeMesh

open EffectSpec

variable {w : World} {s : Node} {E : Halt → Node → Prop}

/-! ### Beacons -/

/-- The relay state apart from the replay cache. -/
def RelayState.route (r : RelayState) : RelayState := { r with replay := ReplayCache.empty }

/-- The relay state apart from the replay cache. -/
def Node.routeState (s : Node) : RelayState := s.relayState.route

/-- The state after a beacon that is taken note of. -/
def Node.heard (s : Node) (w : World) (m : Message) : Node := (s.noteBeacon w m).scheduleRelay w m

theorem heedsBeacon_hops {m : Message} (h : heedsBeacon w s m = true) :
    m.hopCount.toNat < maxHops := by
  simp only [heedsBeacon, Bool.and_eq_true, decide_eq_true_eq] at h
  exact h.1.2

theorem heard_neighbors (w : World) (s : Node) (m : Message) : (s.heard w m).neighbors =
    (s.neighbors.observeAndMinDistance m.lastHopMac m.hopCount w.nowMs).2 := by
  unfold Node.heard Node.scheduleRelay
  split <;> rfl

theorem heard_currentMaster (w : World) (s : Node) (m : Message) : (s.heard w m).currentMaster =
    ⟨m.originMac, let r := (s.neighbors.observeAndMinDistance m.lastHopMac m.hopCount w.nowMs).1
      if r = 0xFF then 0xFF else r + 1⟩ := by
  unfold Node.heard Node.scheduleRelay
  split <;> rfl

theorem heard_deviceMac (w : World) (s : Node) (m : Message) :
    (s.heard w m).deviceMac = s.deviceMac := by
  unfold Node.heard Node.scheduleRelay
  split <;> rfl

theorem heard_isMaster (w : World) (s : Node) (m : Message) :
    (s.heard w m).isMaster = s.isMaster := by
  unfold Node.heard Node.scheduleRelay
  split <;> rfl

theorem heard_beaconsSent (w : World) (s : Node) (m : Message) :
    beaconsSent (s.heard w m).trace = beaconsSent s.trace := by
  unfold Node.heard Node.scheduleRelay
  split <;> rfl

/-- The pending relay stays, or a relay of the beacon takes its place with the new distance. -/
theorem heard_pending (w : World) (s : Node) (m : Message) :
    (s.heard w m).relayPending = s.relayPending ∧
        (s.heard w m).relayPendingMsg = s.relayPendingMsg ∨
      (s.heard w m).relayPending = true ∧ (s.heard w m).relayPendingMsg =
        { m with hopCount := (s.heard w m).currentMaster.distance, lastHopMac := s.deviceMac } := by
  unfold Node.heard Node.scheduleRelay
  split
  · exact .inl ⟨rfl, rfl⟩
  · exact .inr ⟨rfl, rfl⟩

/-- What a beacon does to the route state depends on the route state alone. -/
theorem Node.routeState_heard {u : Node} (h : u.routeState = s.routeState) (m : Message) :
    (u.heard w m).routeState = (s.heard w m).routeState := by
  have hmaster : u.isMaster = s.isMaster := congrArg RelayState.isMaster h
  have hmac : u.deviceMac = s.deviceMac := congrArg RelayState.deviceMac h
  have hnb : u.neighbors = s.neighbors := congrArg RelayState.neighbors h
  have hre : u.txState.lastRelayedEpoch = s.txState.lastRelayedEpoch :=
    congrArg RelayState.lastRelayedEpoch h
  have hrs : u.txState.lastRelayedSeqNum = s.txState.lastRelayedSeqNum :=
    congrArg RelayState.lastRelayedSeqNum h
  have hpm : u.relayPendingMsg = s.relayPendingMsg := congrArg RelayState.relayPendingMsg h
  have hpa : u.relayPendingAt = s.relayPendingAt := congrArg RelayState.relayPendingAt h
  have hp : u.relayPending = s.relayPending := congrArg RelayState.relayPending h
  have hsent : beaconsSent u.trace = beaconsSent s.trace := congrArg RelayState.beaconsSent h
  unfold Node.heard Node.scheduleRelay Node.noteBeacon OutboundSequenceState.wasRelayedBefore
  unfold Node.routeState RelayState.route Node.relayState
  simp only [hmaster, hnb, hre, hrs]
  split
  · simp only [hmac, hre, hrs, hpm, hpa, hp, hsent]
  · simp only [OutboundSequenceState.markRelayed, hmac, hsent]

/-- **A beacon is either taken note of or changes nothing here.** -/
theorem wp_processBeacon_routeState {m : Message} :
    wp (processBeacon w m)
      (fun _ t => t.routeState =
        if heedsBeacon w s m then (s.heard w m).routeState else s.routeState)
      (fun _ t => t.routeState = s.routeState) s := by
  unfold processBeacon
  rw [wp_bind, wp_get]
  split
  -- a beacon of this node itself, of an unpinned master, or from too far away
  · rename_i hdrop
    have hheed : heedsBeacon w s m = false := by
      rcases hdrop with h | h | h
      · simp [heedsBeacon, h]
      · simp only [Bool.not_eq_true'] at h
        simp [heedsBeacon, h]
      · have : ¬m.hopCount.toNat < maxHops := by omega
        simp [heedsBeacon, this]
    rw [hheed]
    rfl
  rename_i hpass
  rw [wp_bind]
  have haccept : wp (acceptBeaconOrigin w m.originMac)
      (fun r u => (r = trustsBeaconOrigin w s m.originMac ∧ SameRadio s u) ∧
        u.routeState = s.routeState)
      (fun _ u => True ∧ u.routeState = s.routeState) s :=
    wp_and _ sameRadio_acceptBeaconOrigin
      ((keeps_acceptBeaconOrigin m.originMac).comp RelayState.route s)
  refine wp_mono _ (fun r u hu => ?_) (fun _ _ h => h.2) haccept
  obtain ⟨⟨hr, -⟩, hu⟩ := hu
  have hheed : heedsBeacon w s m = r := by
    simp only [not_or, Bool.not_eq_true', Bool.not_eq_false] at hpass
    have hhops : m.hopCount.toNat < maxHops := by omega
    rw [hr]
    simp [heedsBeacon, hpass.1, hpass.2.1, hhops]
  rw [hheed]
  -- an origin that is not trusted changes nothing here
  cases r with
  | false => exact hu
  | true =>
    rw [if_pos rfl, wp_bind]
    refine wp_mono _ (fun _ v hv => ?_) (fun _ _ hv => hv.trans hu)
      ((keeps_warnOtherMaster (w := w) m.originMac).comp RelayState.route u)
    exact Node.routeState_heard (hv.trans hu) m

/-- A received frame that is no beacon leaves the route state alone. -/
theorem keeps_route_handleReceivedMessage {srcMac : Mac} {m : Message}
    (h : m.messageType ≠ MessageType.masterBeacon) :
    Keeps Node.routeState (handleReceivedMessage w srcMac m) := by
  refine .ite (fun _ => .ret _) fun _ => .read_bind fun s => .bind (.update fun s => ?_) fun _ => ?_
  · rfl
  · refine .ite (fun _ => .ret _) fun _ => .bind (.update fun _ => rfl) fun _ => ?_
    exact (keeps_dispatchMessage h).comp RelayState.route

/-! ### The next hop -/

theorem directHop_eq_some {nowMs : UInt64} {hop : Mac} (h : directHop s nowMs = some hop) :
    hop = s.currentMaster.mac := by
  unfold directHop at h
  split at h
  · rename_i p hp
    split at h
    · have hmac : p.mac = s.currentMaster.mac := by simpa using List.find?_some hp
      rw [← Option.some.inj h, hmac]
    · cases h
  · cases h

/-- The next hop toward the master that a node chooses in a state. -/
def chosenHop (w : World) (s : Node) : Option Mac :=
  match findNextHopToMaster w s with
  | .ok hop _ => hop
  | .error _ _ => none

/-- What is known of a next hop that is chosen. -/
theorem chosenHop_eq_some {hop : Mac} (h : chosenHop w s = some hop) :
    s.currentMaster.distance ≠ 0xFF ∧ (directHop s w.nowMs = some hop ∨
      s.neighbors.selectNextHop s.currentMaster.distance w.nowMs = some hop) := by
  have hwp : wp (findNextHopToMaster w) (fun r _ => ∀ hop, r = some hop →
      s.currentMaster.distance ≠ 0xFF ∧ (directHop s w.nowMs = some hop ∨
        s.neighbors.selectNextHop s.currentMaster.distance w.nowMs = some hop))
      (fun _ _ => True) s := by
    unfold findNextHopToMaster
    rw [wp_bind, wp_get]
    split
    -- without a distance there is no next hop
    · intro hop hr
      cases hr
    rename_i hd
    split
    · rename_i mac hdir
      intro hop hr
      exact ⟨hd, .inl (hdir.trans hr)⟩
    -- no neighbour, or only the node itself
    split
    · intro hop hr
      cases hr
    rename_i hopMac hsel
    split
    · intro hop hr
      cases hr
    -- registering the neighbour with the radio does not change the choice
    rw [wp_bind]
    refine wp_mono _ (fun _ u _ => ?_) (fun _ _ _ => trivial)
      (wp_true (evictForwardingPeer s hopMac) s)
    rw [wp_bind]
    refine wp_mono _ (fun _ u _ => ?_) (fun _ _ _ => trivial)
      (wp_true (registerPeerWithEspNow w hopMac) u)
    intro hop hr
    exact ⟨hd, .inr (hsel.trans hr)⟩
  unfold chosenHop at h
  cases hres : findNextHopToMaster w s with
  | ok r t =>
    rw [hres] at h
    exact wp_ok hres hwp hop h
  | error e t =>
    rw [hres] at h
    cases h

/-! ### The check for a silent master -/

/-- A check for a silent master forgets the route or leaves everything as it is. -/
theorem wp_checkTimeout_relayState :
    wp (checkTimeout w)
      (fun _ t => t.relayState = s.relayState ∨ t.relayState =
        { s.relayState with currentMaster := ⟨zeroMac, 0xFF⟩, lastMasterBeaconReceivedMs := 0 })
      E s := by
  unfold checkTimeout
  rw [wp_modify]
  split
  · exact .inl rfl
  · split
    · exact .inr rfl
    · exact .inl rfl

/-! ### The housekeeping round -/

/-- A beacon that a housekeeping round may send: the relay that is pending, or a beacon of this
master. -/
def RelayState.MaySendBeacon (r : RelayState) (x : Mac × Message) : Prop :=
  r.relayPending = true ∧ x.2 = r.relayPendingMsg ∨
    r.isMaster = true ∧ x.2.originMac = r.deviceMac ∧ x.2.lastHopMac = r.deviceMac ∧
      x.2.hopCount = 0

/-- What a housekeeping round does to the relay state. -/
structure HouseKept (r r' : RelayState) : Prop where
  rest : r' = { r with relayPending := r'.relayPending, beaconsSent := r'.beaconsSent }
  pending : r'.relayPending = true → r.relayPending = true
  sent : ∃ new, r'.beaconsSent = new ++ r.beaconsSent ∧ ∀ x ∈ new, r.MaySendBeacon x

theorem HouseKept.refl (r : RelayState) : HouseKept r r := ⟨rfl, id, [], rfl, by simp⟩

/-- What the round may send it may send all along. -/
theorem HouseKept.trans {r r' r'' : RelayState} (h : HouseKept r r') (h' : HouseKept r' r'') :
    HouseKept r r'' := by
  obtain ⟨hrest, hp, new, hn, hs⟩ := h
  obtain ⟨hrest', hp', new', hn', hs'⟩ := h'
  have hmay : ∀ x, r'.MaySendBeacon x → r.MaySendBeacon x := by
    rintro x (⟨hx, hm⟩ | hx)
    · refine .inl ⟨hp hx, ?_⟩
      rw [hrest] at hm
      exact hm
    · rw [hrest] at hx
      exact .inr hx
  refine ⟨?_, fun h => hp (hp' h), new' ++ new, ?_, fun x hx => ?_⟩
  · rw [hrest', hrest]
  · rw [hn', hn, List.append_assoc]
  · rcases List.mem_append.1 hx with hx | hx
    · exact hmay x (hs' x hx)
    · exact hs x hx

theorem HouseKept.route {r r' : RelayState} (h : HouseKept r r') : HouseKept r.route r'.route := by
  obtain ⟨hrest, hp, hs⟩ := h
  exact ⟨by rw [hrest]; rfl, hp, hs⟩

theorem KeepsRelay.houseKept {α : Type} {x : MeshM α} (h : KeepsRelay x) {r : RelayState}
    (hr : HouseKept r s.relayState) :
    wp x (fun _ t => HouseKept r t.relayState) (fun _ t => HouseKept r t.relayState) s := by
  refine wp_mono x (fun _ t ht => ?_) (fun _ t ht => ?_) (h s)
  · rwa [ht]
  · rwa [ht]

/-- Broadcasting a frame. -/
theorem houseKept_sendBroadcast {m : Message} {r : RelayState} (hr : HouseKept r s.relayState)
    (hm : m.messageType = MessageType.masterBeacon → r.MaySendBeacon (broadcastMac, m)) :
    wp (sendBroadcast w m) (fun _ t => HouseKept r t.relayState)
      (fun _ t => HouseKept r t.relayState) s := by
  -- only a beacon is on the record, and only if the radio takes it
  by_cases hb : m.messageType = MessageType.masterBeacon
  · unfold sendBroadcast espNowSend
    simp only [wp_bind, wp_get]
    split
    · rw [wp_bind, wp_emit]
      obtain ⟨hrest, hp, new, hn, hs⟩ := hr
      have hsent : (s.emit (.tx broadcastMac m)).relayState =
          { s.relayState with beaconsSent := (broadcastMac, m) :: s.relayState.beaconsSent } := by
        unfold Node.relayState
        congr 1
        exact List.filterMap_cons_some (if_pos hb)
      refine ⟨?_, ?_, (broadcastMac, m) :: new, ?_, fun x hx => ?_⟩
      · rw [hsent, hrest]
      · rw [hsent]
        exact hp
      · rw [hsent]
        exact congrArg _ hn
      · rcases List.mem_cons.1 hx with rfl | hx
        · exact hm hb
        · exact hs x hx
    · exact hr
  · exact KeepsRelay.houseKept (keeps_sendBroadcast hb) hr

theorem wp_loop_relayState :
    wp (loop w) (fun _ t => HouseKept s.relayState t.relayState)
      (fun _ t => HouseKept s.relayState t.relayState) s := by
  unfold loop
  rw [wp_bind]
  refine wp_mono _ (fun _ t ht => ?_) (fun _ _ h => h)
    (KeepsRelay.houseKept keeps_drainPendingRelay (.refl _))
  rw [wp_bind]
  refine wp_mono _ (fun _ u hu => ?_) (fun _ _ h => h)
    (KeepsRelay.houseKept keeps_tickRouteReport ht)
  rw [wp_bind]
  refine wp_mono _ (fun _ v hv => ?_) (fun _ _ h => h)
    (?_ : wp (tickBeaconRelay w) (fun _ v => HouseKept s.relayState v.relayState)
      (fun _ v => HouseKept s.relayState v.relayState) u)
  -- a master sends a beacon of its own when one is due
  · rw [wp_bind, wp_get]
    split
    · rename_i hmaster
      unfold broadcastMasterBeacon
      rw [wp_bind, wp_get]
      split
      · exact hv
      rw [wp_bind, wp_modify, wp_bind]
      refine wp_mono _ (fun m x hx => ?_) (fun _ x hx => ?_) wp_buildMessage_relayState
      · obtain ⟨hx, -, horigin, hlast⟩ := hx
        have hm := congrArg RelayState.isMaster hv.rest
        have hd := congrArg RelayState.deviceMac hv.rest
        exact houseKept_sendBroadcast (by rw [hx]; exact hv) fun _ =>
          .inr ⟨hm.symm.trans hmaster, horigin.trans hd, hlast.trans hd, rfl⟩
      · rw [hx]
        exact hv
    · exact hv
  · unfold tickBeaconRelay
    rw [wp_bind, wp_get]
    split
    · rename_i hp
      rw [wp_bind, wp_modify]
      refine houseKept_sendBroadcast ?_ ?_
      · refine hu.trans ⟨rfl, by simp [Node.relayState], [], rfl, by simp⟩
      · intro _
        have := hu.pending hp.1
        refine .inl ⟨this, ?_⟩
        have hm := hu.rest
        exact congrArg RelayState.relayPendingMsg hm
    · exact hu

/-! ### The boot -/

/-- The part of the relay state that a boot clears. -/
structure Learned where
  currentMaster : MasterInfo
  neighbors : NeighborTable
  relayPending : Bool
  beaconsSent : List (Mac × Message)

def RelayState.learned (r : RelayState) : Learned :=
  ⟨r.currentMaster, r.neighbors, r.relayPending, r.beaconsSent⟩

/-- The program leaves alone what a boot clears. -/
abbrev KeepsLearned {α : Type} (x : MeshM α) : Prop := Keeps (fun s => s.relayState.learned) x

theorem keeps_learned {α : Type} {x : MeshM α} (h : KeepsRelay x) : KeepsLearned x :=
  h.comp RelayState.learned

theorem keeps_initializeDefaultsIfUnset : KeepsRelay (initializeDefaultsIfUnset w) := by
  refine .read_bind fun s => .ite (fun _ => .ret _) fun _ => ?_
  exact .ite (fun _ => keeps_nvsSave _ _) fun _ => .ret _

theorem keeps_learned_setupRadio : KeepsLearned (setupRadio w) := by
  refine .bind (.ite (fun _ => .ret _) fun _ => .raise _) fun _ => ?_
  refine .bind (keeps_learned (keeps_checkEsp _ _ _)) fun _ =>
    .bind ?_ fun _ => .update fun _ => rfl
  exact .ite (fun _ => .update fun _ => rfl) fun _ => keeps_learned (keeps_fail _ _ _ _)

theorem keeps_learned_initMesh : KeepsLearned (initMesh w) := by
  refine .bind (.update fun _ => rfl) fun _ => ?_
  refine .bind (keeps_learned keeps_loadMeshKeyFromEEPROM) fun _ => ?_
  refine .bind (keeps_learned keeps_initEnrollment) fun _ => .bind (.update fun _ => rfl)
    fun _ => ?_
  refine .bind ?_ fun _ => .bind keeps_learned_setupRadio fun _ => ?_
  · refine .read_bind fun s => .bind (keeps_learned (keeps_saveBootEpoch _)) fun _ => ?_
    exact .update fun _ => rfl
  · refine .bind (keeps_learned keeps_setupEspNow) fun ok => .ite (fun _ => .ret _) fun _ => ?_
    exact keeps_learned (keeps_fatal _ _ _ _)

theorem keeps_learned_initSubsystems : KeepsLearned (initSubsystems w) := by
  refine .bind (.update fun _ => rfl) fun _ => .bind (keeps_learned keeps_bootstrapPeers)
    fun _ => ?_
  refine .bind (keeps_learned keeps_initializeDefaultsIfUnset) fun _ => ?_
  refine .bind (keeps_learned keeps_createAdapter) fun _ => .bind keeps_learned_initMesh fun _ => ?_
  exact .update fun _ => rfl

namespace Device

variable {b : Board} {d : Device} {e : Env}

/-- A boot starts without neighbours, route and pending relay. -/
theorem boot_learned : (step b d (e, .boot)).node.relayState.learned =
    ⟨{}, NeighborTable.empty, false, beaconsSent d.node.trace⟩ :=
  ofResult_of_wp (P := fun t => t.relayState.learned = _)
    (keeps_learned_initSubsystems (d.bootNode b))

/-! ### Steps -/

/-- The beacon that a running node takes note of in a step. -/
def notedBeacon (b : Board) (d : Device) : Env × Input → Option Message
  | (e, .rx _ m) =>
    if m.messageType = MessageType.masterBeacon ∧ stopsFrame d.node m e.nowMs = false ∧
        heedsBeacon (b.world e) d.node m = true then some m
    else none
  | _ => none

theorem notedBeacon_eq_some {x : Env × Input} {m : Message} (h : notedBeacon b d x = some m) :
    heedsBeacon (b.world x.1) d.node m = true := by
  obtain ⟨e, i⟩ := x
  cases i with
  | rx srcMac m' =>
    unfold notedBeacon at h
    dsimp only at h
    split at h
    · rename_i hc
      rw [← Option.some.inj h]
      exact hc.2.2
    · cases h
  | _ => cases h

/-- What one step of a running node does to its route state. -/
inductive RouteStep (b : Board) (d : Device) (x : Env × Input) (d' : Device) : Prop
  | kept (h : d'.node.routeState = d.node.routeState)
      (hn : d'.status = .running → notedBeacon b d x = none) : RouteStep b d x d'
  | heard {m : Message} (hm : notedBeacon b d x = some m)
      (h : d'.node.routeState = (d.node.heard (b.world x.1) m).routeState) : RouteStep b d x d'
  | forgot (hi : x.2 = .checkMasterTimeout)
      (h : d'.node.routeState = { d.node.routeState with
        currentMaster := ⟨zeroMac, 0xFF⟩, lastMasterBeaconReceivedMs := 0 }) : RouteStep b d x d'
  | housekept (hi : x.2 = .loop) (h : HouseKept d.node.routeState d'.node.routeState) :
      RouteStep b d x d'
  | toggled (hi : x.2 = .configButton)
      (h : d'.node.routeState = { d.node.routeState with isMaster := !d.node.isMaster }) :
      RouteStep b d x d'

/-- A received beacon. -/
theorem routeStep_beacon {srcMac : Mac} {m : Message} (hs : d.status = .running)
    (hm : m.messageType = MessageType.masterBeacon) (hstop : stopsFrame d.node m e.nowMs = false) :
    RouteStep b d (e, .rx srcMac m) (step b d (e, .rx srcMac m)) := by
  have hwp : wp (handleReceivedMessage (b.world e) srcMac m)
      (fun _ t => t.routeState = if heedsBeacon (b.world e) d.node m
        then (d.node.heard (b.world e) m).routeState else d.node.routeState)
      (fun _ t => t.routeState = d.node.routeState) (d.inputNode (.rx srcMac m)) := by
    rw [stopsFrame, Bool.or_eq_false_iff] at hstop
    have hgate : (replayGate (d.inputNode (.rx srcMac m)).replay m (b.world e).nowMs).1 = false :=
      hstop.2
    unfold handleReceivedMessage
    rw [if_neg (by simpa using hstop.1), wp_bind, wp_get, wp_bind, wp_modify,
      if_neg (by simp [hgate]), wp_bind, wp_modify, dispatchMessage_beacon hm]
    refine wp_mono _ (fun _ t ht => ?_) (fun _ _ ht => ht) wp_processBeacon_routeState
    rw [ht]
    refine if_congr Iff.rfl (Node.routeState_heard ?_ m) rfl
    rfl
  rw [step_of_input (by simp) hs]
  show RouteStep b d _ (ofResult (handleReceivedMessage (b.world e) srcMac m _))
  cases hres : handleReceivedMessage (b.world e) srcMac m (d.inputNode (.rx srcMac m)) with
  | error h t =>
    have ht := wp_error hres hwp
    exact .kept ht fun hr => by cases hr
  | ok _ t =>
    have ht := wp_ok hres hwp
    by_cases hheed : heedsBeacon (b.world e) d.node m = true
    · rw [if_pos hheed] at ht
      exact .heard (if_pos ⟨hm, hstop, hheed⟩) ht
    · rw [if_neg hheed] at ht
      exact .kept ht fun _ => if_neg fun h => hheed h.2.2

/-- **What one step of a running node does to its route state.** -/
theorem routeStep {i : Input} (hi : i ≠ .boot) (hs : d.status = .running) :
    RouteStep b d (e, i) (step b d (e, i)) := by
  have hstep := step_of_input (b := b) (e := e) hi hs
  -- an input that leaves the relay state alone and is no beacon
  have hkept : KeepsRelay (handleInput (b.world e) i) → notedBeacon b d (e, i) = none →
      RouteStep b d (e, i) (step b d (e, i)) := by
    intro h hn
    rw [hstep]
    exact .kept (ofResult_of_wp (h.comp RelayState.route _)) fun _ => hn
  cases i with
  | boot => exact absurd rfl hi
  | transmit | transmitSelfOriginated | tickEnrollmentBroadcast | serial | resetButton =>
    exact hkept (keeps_handleInput rfl) rfl
  | loop =>
    rw [hstep]
    exact .housekept rfl (ofResult_of_wp (P := fun t => HouseKept d.node.routeState t.routeState)
      (wp_mono _ (fun _ _ h => h.route) (fun _ _ h => h.route) wp_loop_relayState))
  | checkMasterTimeout =>
    rw [hstep]
    have h := ofResult_of_wp (P := fun t => t.relayState = d.node.relayState ∨ t.relayState =
        { d.node.relayState with
          currentMaster := ⟨zeroMac, 0xFF⟩, lastMasterBeaconReceivedMs := 0 })
      (wp_checkTimeout_relayState (w := b.world e) (s := d.inputNode .checkMasterTimeout))
    rcases h with h | h
    · exact .kept (congrArg RelayState.route h) fun _ => rfl
    · exact .forgot rfl (congrArg RelayState.route h)
  | configButton =>
    -- switching the role restarts the node before anything else changes
    have hsave : KeepsRelay (do
        saveMasterFlag (b.world e) !Nvs.flag d.node.nvs.masterFlag
        emit .espRestart
        throw .espRestart : MeshM Unit) :=
      .bind (keeps_nvsSave _ _) fun _ => .bind (keeps_emit rfl) fun _ => .raise _
    rw [hstep]
    show RouteStep b d _ (ofResult ((if d.node.eeprom.isDevMode then _ else _ : MeshM Unit) _))
    split
    · exact .toggled rfl rfl
    · exact .kept (ofResult_of_wp (hsave.comp RelayState.route _)) fun _ => rfl
  | rx srcMac m =>
    -- a frame that the gate stops only leaves its mark
    by_cases hstop : stopsFrame d.node m e.nowMs = true
    · rw [step_replayed hs hstop]
      exact .kept rfl fun _ => if_neg fun h => by rw [hstop] at h; cases h.2.1
    rw [Bool.not_eq_true] at hstop
    by_cases hm : m.messageType = MessageType.masterBeacon
    · exact routeStep_beacon hs hm hstop
    · have hn : notedBeacon b d (e, .rx srcMac m) = none := if_neg fun h => hm h.1
      rw [hstep]
      refine .kept (ofResult_of_wp (P := fun t => t.routeState = d.node.routeState) ?_) fun _ => hn
      exact keeps_route_handleReceivedMessage hm _

end Device

end LatticeMesh
