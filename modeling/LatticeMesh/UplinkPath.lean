import LatticeMesh.BootOrder
import LatticeMesh.Lib.NextHop
import LatticeMesh.Neighbors
import LatticeMesh.PirMotion
import LatticeMesh.RelayTransparency
import LatticeMesh.RouteChain
import LatticeMesh.SerialFraming

/-!
# Delivery along the uplink

What a sensor hands to the mesh at a leaf travels from next hop to next hop until it reaches the
master, which opens it and writes it to the serial line.  The leaf seals the payload, no relay looks
into it, and the server finds in the message what the sensor handed over, with the address of the
leaf and the number of hops.

## Main definitions

* `Node.nextHopToMaster`, `Node.Reaches` — the next hop of a node, and that the radio takes a frame
  for it.
* `MeshStation`, `MeshStation.does`, `MeshStation.sends` — a device as an input finds it, and what
  it does then.
* `UplinkReady`, `Relays`, `Collects` — what the leaf, a relay and the master need.
* `Climbs` — the way of a frame from station to station.
* `SettledMesh` — a mesh whose routing has settled.

## Main results

* `does_relay` — **a relay transmits the frame once, to its next hop, and does nothing else.**
* `does_master` — **the master opens it and writes it to the serial line.**
* `climbs` — **a frame climbs over the stations that the next hops lead over.**
* `uplink_delivered` — **what a leaf hands to the mesh arrives at the server.**
-/

namespace LatticeMesh

open EffectSpec

variable {w : World} {s t : Node} {m : Message} {hop : Mac}

/-! ### The next hop -/

/-- The next hop of a node toward its master. -/
def Node.nextHopToMaster (s : Node) (nowMs : UInt64) : Option Mac :=
  if s.currentMaster.distance = 0xFF then none
  else (directHop s nowMs).or
    ((s.neighbors.selectNextHop s.currentMaster.distance nowMs).filter (· ≠ s.deviceMac))

/-- The radio takes a frame for `hop`: it is registered, or will be when it is chosen. -/
structure Node.Reaches (w : World) (s : Node) (hop : Mac) : Prop where
  sendOk : w.sendOk hop = true
  registered : hop ∈ s.radioPeers ∨ directHop s w.nowMs = none ∧ w.addPeerOk hop = true

/-- A node is not its own next hop. -/
theorem nextHopToMaster_ne {now : UInt64} (h : s.nextHopToMaster now = some hop) :
    hop ≠ s.deviceMac := by
  unfold Node.nextHopToMaster at h
  split at h
  · cases h
  · cases hd : directHop s now with
    | none =>
      rw [hd, Option.none_or] at h
      simpa using (Option.filter_eq_some_iff.1 h).2
    | some mac =>
      rw [hd, Option.some_or] at h
      obtain rfl := Option.some.inj h
      unfold directHop at hd
      split at hd
      · rename_i direct _
        obtain ⟨hc, hmac⟩ := Option.ite_none_right_eq_some.1 hd
        simp only [Bool.and_eq_true, decide_eq_true_eq] at hc
        rw [← Option.some.inj hmac]
        exact hc.2
      · cases hd

/-- What the choice of a next hop leaves as it was. -/
structure HopSelected (s : Node) (hop : Mac) (t : Node) : Prop where
  radioPeers : hop ∈ t.radioPeers
  trace : t.trace = s.trace
  deviceMac : t.deviceMac = s.deviceMac

/-- The next hop is found, and the radio knows it afterwards. -/
theorem wp_findNextHopToMaster_reaches (h : s.nextHopToMaster w.nowMs = some hop)
    (hr : s.Reaches w hop) :
    wp (findNextHopToMaster w) (fun r t => r = some hop ∧ HopSelected s hop t)
      (fun _ _ => False) s := by
  unfold Node.nextHopToMaster at h
  unfold findNextHopToMaster
  rw [wp_bind, wp_get]
  split at h
  · cases h
  · rename_i hdist
    rw [if_neg hdist]
    cases hd : directHop s w.nowMs with
    | some mac =>
      rw [hd, Option.some_or] at h
      have hin : hop ∈ s.radioPeers := hr.registered.resolve_right fun hc => by
        rw [hd] at hc
        cases hc.1
      exact ⟨h, hin, rfl, rfl⟩
    | none =>
      rw [hd, Option.none_or] at h
      obtain ⟨hsel, hne⟩ := Option.filter_eq_some_iff.1 h
      have hne' : hop ≠ s.deviceMac := by simpa using hne
      simp only [hsel, if_neg hne']
      rw [wp_bind]
      -- The relay that leaves the radio is not the one that is chosen.
      have hev : wp (evictForwardingPeer s hop) (fun _ t => t.trace = s.trace ∧
          t.deviceMac = s.deviceMac ∧ (hop ∈ s.radioPeers → hop ∈ t.radioPeers))
          (fun _ _ => False) s := by
        unfold evictForwardingPeer
        by_cases hc : evictsForwardingPeer s hop = true
        · rw [if_pos hc]
          refine ⟨rfl, rfl, fun hin => List.mem_filter.2 ⟨hin, ?_⟩⟩
          simp only [evictsForwardingPeer, Bool.and_eq_true, decide_eq_true_eq] at hc
          simpa using fun he => hc.1.1.2 he.symm
        · rw [if_neg hc]
          exact ⟨rfl, rfl, id⟩
      refine wp_mono _ (fun _ t ht => ?_) (fun _ _ hf => hf) hev
      obtain ⟨htrace, hmac, hkeep⟩ := ht
      unfold registerPeerWithEspNow
      simp only [wp_bind, wp_get]
      by_cases hin : t.radioPeers.contains hop = true
      · rw [if_pos hin]
        exact ⟨rfl, List.contains_iff_mem.1 hin, htrace, hmac⟩
      · have hadd : w.addPeerOk hop = true := by
          rcases hr.registered with hreg | ⟨-, hadd⟩
          · exact absurd (List.contains_iff_mem.2 (hkeep hreg)) hin
          · exact hadd
        rw [if_neg hin, if_pos hadd]
        exact ⟨rfl, List.mem_append_right _ (List.mem_singleton.2 rfl), htrace, hmac⟩

/-- A frame for the master is sent to the next hop, and that is all that happens. -/
theorem wp_routeToMaster (h : s.nextHopToMaster w.nowMs = some hop) (hr : s.Reaches w hop) :
    wp (routeToMaster w m) (fun _ t => t.trace = .tx hop m :: s.trace) (fun _ _ => False) s := by
  have hne := nextHopToMaster_ne h
  unfold routeToMaster
  rw [wp_bind, wp_get, wp_bind]
  refine wp_mono _ (fun r t ht => ?_) (fun _ _ hf => hf) (wp_findNextHopToMaster_reaches h hr)
  obtain ⟨rfl, hsel⟩ := ht
  dsimp only
  rw [if_neg hne]
  unfold sendMessage espNowSend
  rw [if_neg hne, wp_bind, wp_bind, wp_get]
  have hok : (t.radioPeers.contains hop && w.sendOk hop) = true := by
    rw [List.contains_iff_mem.2 hsel.radioPeers, hr.sendOk]
    rfl
  rw [if_pos hok]
  show (t.emit (.tx hop m)).trace = _
  rw [Node.emit, hsel.trace]

/-! ### What the choice of a next hop depends on -/

/-- The states agree in everything that the next hop depends on. -/
structure SameHops (s t : Node) : Prop where
  deviceMac : t.deviceMac = s.deviceMac
  currentMaster : t.currentMaster = s.currentMaster
  neighbors : t.neighbors = s.neighbors
  radioPeers : t.radioPeers = s.radioPeers
  directHop : ∀ now, LatticeMesh.directHop t now = LatticeMesh.directHop s now

theorem SameHops.refl (s : Node) : SameHops s s := ⟨rfl, rfl, rfl, rfl, fun _ => rfl⟩

theorem SameHops.trans {u : Node} (h : SameHops s t) (h' : SameHops t u) : SameHops s u :=
  ⟨h'.1.trans h.1, h'.2.trans h.2, h'.3.trans h.3, h'.4.trans h.4,
    fun now => (h'.5 now).trans (h.5 now)⟩

theorem SameHops.nextHopToMaster (h : SameHops s t) (now : UInt64) :
    t.nextHopToMaster now = s.nextHopToMaster now := by
  unfold Node.nextHopToMaster
  rw [h.currentMaster, h.neighbors, h.deviceMac, h.directHop]

theorem SameHops.reaches (h : SameHops s t) (hr : s.Reaches w hop) : t.Reaches w hop := by
  refine ⟨hr.sendOk, ?_⟩
  rw [h.radioPeers, h.directHop]
  exact hr.registered

/-- Drawing a sequence number chooses no other next hop. -/
theorem sameHops_drawn (s : Node) : SameHops s s.drawn := by
  unfold Node.drawn Node.savedEpoch
  split
  · split <;> exact ⟨rfl, rfl, rfl, rfl, fun _ => rfl⟩
  · exact ⟨rfl, rfl, rfl, rfl, fun _ => rfl⟩

/-- The direct hop depends on the entry of the master among the peers. -/
theorem directHop_congr {now : UInt64} (hm : t.currentMaster = s.currentMaster)
    (hd : t.deviceMac = s.deviceMac)
    (hf : t.peers.find s.currentMaster.mac = s.peers.find s.currentMaster.mac) :
    directHop t now = directHop s now := by
  unfold directHop
  rw [hm, hd, hf]
  cases hp : s.peers.find s.currentMaster.mac with
  | none => rfl
  | some direct =>
    have hmac := PeerRegistry.find_mac hp
    dsimp only
    rw [hmac, PeerRegistry.isPeerInRange, PeerRegistry.isPeerInRange, hf]

/-- Hearing a station other than the master chooses no other next hop. -/
theorem sameHops_received {src : Mac} (h : src ≠ s.currentMaster.mac) :
    SameHops s (s.received w src m) := by
  refine ⟨rfl, rfl, rfl, rfl, fun now => directHop_congr rfl rfl ?_⟩
  show (s.peers.updateLastSeen src w.nowMs).find s.currentMaster.mac = _
  unfold PeerRegistry.updateLastSeen
  split
  · rfl
  · rw [PeerRegistry.touch, PeerRegistry.find_update s.peers
      (f := fun p => { p with lastSeenMs := w.nowMs }) fun _ => rfl, if_neg h.symm]

/-- The next hop is the master itself, or a neighbour that says it is closer to the master. -/
theorem nextHopToMaster_closer {now : UInt64} (h : s.nextHopToMaster now = some hop) :
    1 ≤ s.currentMaster.distance.toNat ∧ (hop = s.currentMaster.mac ∨
      ∃ e ∈ s.neighbors.toList, e.valid = true ∧ e.mac = hop ∧
        e.masterDistance < s.currentMaster.distance) := by
  unfold Node.nextHopToMaster at h
  split at h
  · cases h
  cases hd : directHop s now with
  | some mac =>
    rw [hd, Option.some_or] at h
    obtain rfl := Option.some.inj h
    unfold directHop at hd
    split at hd
    · rename_i direct hfind
      obtain ⟨hc, hmac⟩ := Option.ite_none_right_eq_some.1 hd
      simp only [Bool.and_eq_true, decide_eq_true_eq] at hc
      refine ⟨by rw [hc.1.1]; decide, .inl ?_⟩
      rw [← Option.some.inj hmac]
      exact PeerRegistry.find_mac hfind
    · cases hd
  | none =>
    rw [hd, Option.none_or] at h
    obtain ⟨e, he, hmac, -⟩ :=
      NeighborTable.selectNextHop_eq_some (Option.filter_eq_some_iff.1 h).1
    have hlt := UInt8.lt_iff_toNat_lt.1 he.closer
    exact ⟨by omega, .inr ⟨e, he.mem, he.valid, hmac, he.closer⟩⟩

/-! ### Stations -/

/-- A station: its board, its device as an input finds it, and the surroundings of that step. -/
structure MeshStation where
  board : Board
  device : Device
  env : Env

namespace MeshStation

/-- The node of a station. -/
def node (x : MeshStation) : Node := x.device.node

/-- The world of the step. -/
def world (x : MeshStation) : World := x.board.world x.env

/-- What the station does in the step `i`, newest event first. -/
def does (x : MeshStation) (i : Input) : List Event :=
  (Device.step x.board x.device (x.env, i)).node.stepEvents

/-- The frames that the station sends in the step `i`, each with its next hop. -/
def sends (x : MeshStation) (i : Input) : List (Mac × Message) :=
  (x.does i).filterMap fun
    | .tx hop m => some (hop, m)
    | _ => none

/-- The next hop of a station toward its master. -/
def next (x : MeshStation) : Option Mac := x.node.nextHopToMaster x.env.nowMs

/-- The distance of a station from its master, as it knows it. -/
def distance (x : MeshStation) : UInt8 := x.node.currentMaster.distance

variable {x : MeshStation} {i : Input} {es : List Event}

/-- What a step does is what its program adds to the history. -/
theorem does_of_wp (hrun : x.device.status = .running) (hi : i ≠ .boot)
    (hes : ∀ e ∈ es, e.isInput = false)
    (h : wp (handleInput x.world i) (fun _ t => t.trace = es ++ (x.device.inputNode i).trace)
      (fun _ _ => False) (x.device.inputNode i)) :
    x.does i = es := by
  obtain ⟨⟨⟩, t, ht, htrace⟩ := exists_ok h
  have hstep : Device.step x.board x.device (x.env, i) = ⟨t, .running⟩ := by
    rw [Device.step_of_input hi hrun]
    exact congrArg Device.ofResult ht
  unfold does
  rw [hstep, Node.stepEvents_append htrace hes]
  exact List.append_nil es

/-- A station that does one transmission and nothing else to the radio sends that frame. -/
theorem sends_of_does (h : x.does i = .tx hop m :: es) (hes : ∀ e ∈ es, e.isTx = false) :
    x.sends i = [(hop, m)] := by
  unfold sends
  rw [h, List.filterMap_cons]
  refine congrArg _ (List.filterMap_eq_nil_iff.2 fun e he => ?_)
  have hno := hes e he
  cases e with
  | tx => cases hno
  | _ => rfl

end MeshStation

/-- A leaf that knows the master, and whose radio takes a frame for its next hop. -/
structure Relays (x : MeshStation) (master hop : Mac) : Prop where
  running : x.device.status = .running
  deviceMac : x.node.deviceMac = hop
  leaf : x.node.isMaster = false
  hasMaster : x.node.enrollment.hasMasterMac = true
  master : x.node.currentMaster.mac = master
  reaches : ∀ next, x.next = some next → x.node.Reaches x.world next

/-- A data frame on its way up to the master. -/
structure GoesUp (m : Message) (master : Mac) : Prop where
  messageType : m.messageType = MessageType.adapterData
  targetMac : m.targetMac = master

/-- A data frame that passes the checks is routed in the state in which its sender was heard. -/
theorem wp_receive {src : Mac} {Q : Unit → Node → Prop} {E : Halt → Node → Prop}
    (ht : m.messageType = MessageType.adapterData) (hpass : passesChecks w s m = true)
    (h : wp (processAdapterData w m) Q E (s.received w src m)) :
    wp (handleReceivedMessage w src m) Q E s := by
  have hdisp : dispatchMessage w m = processAdapterData w m := by
    unfold dispatchMessage
    rw [ht]
    rfl
  rw [← handleReceivedMessageTo_deliver]
  unfold wp
  rw [handleReceivedMessageTo_of_passes hpass, dispatchMessageTo_deliver, hdisp]
  exact h

/-- **A relay transmits the frame once, to its next hop, and does nothing else.** -/
theorem does_relay {x : MeshStation} {master src next : Mac} (h : Relays x master hop)
    (hm : GoesUp m master) (hb : master ≠ broadcastMac) (hhop : hop ≠ master)
    (horigin : m.originMac ≠ hop) (hsrc : src ≠ master) (hcount : m.hopCount.toNat < maxHops)
    (hpass : passesChecks x.world x.node m = true) (hnext : x.next = some next) :
    x.does (.rx src m) = [.tx next (m.relayed hop)] := by
  refine MeshStation.does_of_wp h.running (by simp) (by simp [Event.isInput]) ?_
  set s := x.device.inputNode (.rx src m) with hs
  refine wp_receive (s := s) hm.messageType hpass ?_
  have hmac : (s.received x.world src m).deviceMac = hop := h.deviceMac
  have hleaf : (s.received x.world src m).isMaster = false := h.leaf
  have hmaster : src ≠ s.currentMaster.mac := by
    show src ≠ x.node.currentMaster.mac
    rwa [h.master]
  have hinput : SameHops x.node s := ⟨rfl, rfl, rfl, rfl, fun _ => rfl⟩
  have hhops : SameHops x.node (s.received x.world src m) :=
    hinput.trans (sameHops_received hmaster)
  -- a leaf knows the frame for the master's by its target
  have hdec : (s.received x.world src m).routeDecision m = .relayTowardMaster := by
    have hto : (s.received x.world src m).addressedToMaster m = true := by
      show (x.node.enrollment.hasMasterMac && m.targetMac = x.node.currentMaster.mac) = true
      rw [h.hasMaster, h.master, hm.targetMac]
      simp
    unfold Node.routeDecision classify
    rw [hmac, hleaf, hm.targetMac, if_neg (by simp [hhop.symm, hb]), if_pos hto,
      if_neg (by omega)]
  unfold processAdapterData
  rw [wp_bind, wp_get, hdec]
  unfold routeAdapterData transmitCore transmitFrame
  have hother : (m.relayed hop).originMac ≠ (s.received x.world src m).deviceMac := by
    rw [hmac]
    exact horigin
  simp only [wp_bind, wp_get, hmac, retarget_of_ne hother]
  rw [if_neg fun hc => hother (hc.2.1.trans hmac.symm)]
  -- receiving the frame leaves the choice of a next hop alone
  have hnext' : (s.received x.world src m).nextHopToMaster x.world.nowMs = some next := by
    rw [hhops.nextHopToMaster]
    exact hnext
  refine wp_mono _ (fun _ t ht => ?_) (fun _ _ hf => hf)
    (wp_routeToMaster hnext' (hhops.reaches (h.reaches next hnext)))
  rw [ht]
  rfl

/-! ### The leaf -/

variable {type : AdapterType} {data : Payload} {frame : Message} {keys : E2EKeys}

/-- The data frame that a node builds for its master. -/
def Node.buildsUplink (s : Node) (type : AdapterType) (data : Payload) : Message :=
  builtMessage s.drawn type data MessageType.adapterData s.drawn.txState.txSeqNum

/-- What a leaf needs to send a sealed frame: a flash that works where the sequence number wraps, a
number above the last one that was sealed, and the keys that it shares with the master. -/
structure UplinkReady (w : World) (s : Node) (type : AdapterType) (data : Payload) (frame : Message)
    (keys : E2EKeys) : Prop where
  flash : s.txState.txSeqNum + 1 = 0 → ∀ op, w.nvsOk op = true
  guarded : s.drawn.txState.sealAdvances (s.buildsUplink type data).epochNum
    (s.buildsUplink type data).seqNum = true
  hasKeys : s.masterKeys w.crypto = some keys
  isSealed : sealPayload w.crypto keys.kUp (s.buildsUplink type data) = some frame

theorem Node.drawn_masterKeys (s : Node) (c : Crypto) : s.drawn.masterKeys c = s.masterKeys c := by
  unfold Node.drawn Node.savedEpoch
  split
  · split <;> rfl
  · rfl

theorem Node.drawn_quietly (s : Node) : ∃ es, s.drawn.trace = es ++ s.trace ∧
    ∀ e ∈ es, e.isInput = false ∧ e.isTx = false := by
  unfold Node.drawn Node.savedEpoch
  split
  · split <;> exact ⟨[_], rfl, by simp [Event.isInput, Event.isTx]⟩
  · exact ⟨[], rfl, by simp⟩

/-- With a flash that works where it has to, a frame is built. -/
theorem wp_buildMessage {msgType : UInt8}
    (hflash : s.txState.txSeqNum + 1 = 0 → ∀ op, w.nvsOk op = true) :
    wp (buildMessage w type data msgType)
      (fun m t => m = builtMessage s.drawn type data msgType s.drawn.txState.txSeqNum ∧
        t = s.drawn.emit (.built m)) (fun _ _ => False) s := by
  have hseq : wp (nextSeqGuarded w) (fun seq t => seq = s.drawn.txState.txSeqNum ∧ t = s.drawn)
      (fun _ _ => False) s := by
    by_cases h0 : s.txState.txSeqNum + 1 = 0
    · refine wp_nextSeqGuarded ⟨rfl, rfl⟩ fun op hop => ?_
      rw [hflash h0 op] at hop
      cases hop
    · unfold nextSeqGuarded nextSeq
      simp only [wp_bind, wp_modify, wp_get, wp_pure]
      rw [if_neg h0, Node.drawn_of_ne h0]
      exact ⟨rfl, rfl⟩
  unfold buildMessage
  rw [wp_bind]
  refine wp_mono _ (fun seq t ht => ?_) (fun _ _ hf => hf) hseq
  obtain ⟨rfl, rfl⟩ := ht
  exact ⟨rfl, rfl⟩

/-- Sealing a frame adds two events and leaves the choice of a next hop alone. -/
theorem wp_sealUplink {sm : Message}
    (hg : s.txState.sealAdvances m.epochNum m.seqNum = true)
    (hk : s.masterKeys w.crypto = some keys) (hs : sealPayload w.crypto keys.kUp m = some sm) :
    wp (sealUplink w m) (fun r t =>
      r = some (seedAuthPath w.crypto keys.kUp sm s.deviceMac) ∧ SameHops s t ∧
        t.trace = .sealed keys.kUp m :: .guarded m.epochNum m.seqNum :: s.trace)
      (fun _ _ => False) s := by
  unfold sealUplink checkEpochRollback
  rw [wp_bind, wp_bind, wp_get, if_pos hg, wp_bind, wp_modify, wp_emit, wp_bind, wp_get, wp_bind]
  refine wp_mono _ (fun r t ht => ?_) (fun _ _ hf => hf) (wp_masterE2EKeys hk)
  obtain ⟨rfl, hlook⟩ := ht
  dsimp only
  rw [wp_bind, wp_emit, hs]
  refine ⟨rfl, ?_, ?_⟩
  · rcases hlook with rfl | ⟨_, -, rfl⟩ <;> exact ⟨rfl, rfl, rfl, rfl, fun _ => rfl⟩
  · rcases hlook with rfl | ⟨_, -, rfl⟩ <;> rfl

/-- The frame that a leaf builds goes out sealed, to its next hop, and no other frame does. -/
theorem wp_uplink (h : UplinkReady w s type data frame keys) (hleaf : s.isMaster = false)
    (hnext : s.nextHopToMaster w.nowMs = some hop) (hr : s.Reaches w hop) :
    wp (transmit w type data) (fun _ t => ∃ es, t.trace = .tx hop frame :: es ++ s.trace ∧
      ∀ e ∈ es, e.isInput = false ∧ e.isTx = false) (fun _ _ => False) s := by
  obtain ⟨es, hes, hquiet⟩ := s.drawn_quietly
  have hmaster : s.drawn.isMaster = false := by rw [Node.drawn_isMaster, hleaf]
  unfold transmit transmitDispatch
  rw [wp_bind, wp_get, if_neg (by simp [hleaf])]
  unfold transmitCore
  rw [wp_bind]
  refine wp_mono _ (fun m t ht => ?_) (fun _ _ hf => hf) (wp_buildMessage h.flash)
  obtain ⟨rfl, rfl⟩ := ht
  set m := builtMessage s.drawn type data MessageType.adapterData s.drawn.txState.txSeqNum with hm
  have hown : m.originMac = s.drawn.deviceMac := rfl
  -- A frame that was built here is for the current master already.
  have hretarget : retarget (s.drawn.emit (.built m)) MessageType.adapterData m = m :=
    if_pos ⟨rfl, hown⟩
  unfold transmitFrame
  rw [wp_bind, wp_get, hretarget, hleaf, if_pos ⟨rfl, hown, rfl⟩, wp_bind]
  have hk : (s.drawn.emit (.built m)).masterKeys w.crypto = some keys :=
    (s.drawn_masterKeys _).trans h.hasKeys
  have hseal : wp (sealUplink w m) _ (fun _ _ => False) (s.drawn.emit (.built m)) :=
    wp_sealUplink h.guarded hk h.isSealed
  have hseed : seedAuthPath w.crypto keys.kUp frame s.drawn.deviceMac = frame := by
    obtain ⟨_, -, hs⟩ := Option.map_eq_some_iff.1 h.isSealed
    rw [← hs]
    rfl
  refine wp_mono _ (fun r t ht => ?_) (fun _ _ hf => hf) hseal
  obtain ⟨rfl, hhops, htrace⟩ := ht
  have hemit : SameHops s.drawn (s.drawn.emit (.built m)) := ⟨rfl, rfl, rfl, rfl, fun _ => rfl⟩
  have hhops' : SameHops s t := ((sameHops_drawn s).trans hemit).trans hhops
  dsimp only
  rw [show seedAuthPath _ _ _ (s.drawn.emit (.built m)).deviceMac = frame from hseed]
  refine wp_mono _ (fun _ u hu => ?_) (fun _ _ hf => hf) (wp_routeToMaster
    ((hhops'.nextHopToMaster _).trans hnext) (hhops'.reaches hr))
  refine ⟨.sealed keys.kUp m :: .guarded m.epochNum m.seqNum :: .built m :: es, ?_, ?_⟩
  · rw [hu, htrace]
    show _ :: _ :: _ :: _ :: s.drawn.trace = _
    rw [hes]
    rfl
  · simpa [Event.isInput, Event.isTx] using hquiet

/-! ### The master -/

/-- A master with a serial line that shares the uplink key `kUp` with `leaf`. -/
structure Collects (x : MeshStation) (master leaf : Mac) (kUp : Key) : Prop where
  running : x.device.status = .running
  deviceMac : x.node.deviceMac = master
  isMaster : x.node.isMaster = true
  serial : x.node.adapterType = AdapterType.serial
  hasKeys : (x.node.keysOf x.world.crypto leaf).map E2EKeys.kUp = some kUp
  encodes : ∀ m, x.world.serialEncodes m = (SerialFraming.encode m 256).isSome

/-- The keys of an address depend on its public key, the cache and the own key. -/
theorem keysOf_congr {c : Crypto} {mac : Mac} (hp : t.peers.keyOf mac = s.peers.keyOf mac)
    (hc : t.e2eKeys = s.e2eKeys) (he : t.enrollment = s.enrollment) :
    t.keysOf c mac = s.keysOf c mac := by
  unfold Node.keysOf
  rw [hp, hc, he]

/-- A delivered frame that is no command goes to the serial line. -/
theorem wp_deliver_serial (hs : s.adapterType = AdapterType.serial)
    (hm : isControlOp m.dataType m.data = false) (he : w.serialEncodes m = true) :
    wp (deliver w m) (fun _ t => t = (s.emit (.deliver m)).emit (.serialOut m))
      (fun _ _ => False) s := by
  have hs' : (s.emit (.deliver m)).adapterType = AdapterType.serial := hs
  have himpl : wp (onMeshDataImpl w m) (fun _ t => t = (s.emit (.deliver m)).emit (.serialOut m))
      (fun _ _ => False) (s.emit (.deliver m)) := by
    unfold onMeshDataImpl
    rw [wp_bind, wp_get, if_pos hs', if_pos he, wp_emit]
  unfold deliver externalRecvCallback onMeshData
  rw [wp_bind, wp_emit, wp_bind, wp_get]
  by_cases ht : m.dataType = AdapterType.serial
  · rw [if_pos ht, dispatchControlOp_of_not_control ht hm, wp_bind, wp_pure, if_pos hs']
    exact himpl
  · rw [if_neg ht, if_pos (.inl hs')]
    exact himpl

/-- A master authorises a data frame that opens under the key of its origin. -/
theorem wp_authorize_uplink {out : Message} (hmaster : s.isMaster = true)
    (ht : m.messageType = MessageType.adapterData)
    (hk : s.keysOf w.crypto m.originMac = some keys)
    (hopen : openPayload w.crypto keys.kUp m = some out)
    (hout : isControlOp out.dataType out.data = false) :
    wp (authorize w m true) (fun r t => r = some out ∧ t.trace = .opened keys.kUp m :: s.trace ∧
      t.adapterType = s.adapterType) (fun _ _ => False) s := by
  have hsealed : isSealedType MessageType.adapterData = true := rfl
  have hconfig : isConfigOpcode out = false := isConfigOpcode_of_not_control hout
  unfold authorize openUplink
  rw [wp_bind, wp_get]
  simp only [hmaster, ht, hsealed, Bool.not_true, Bool.and_false, Bool.false_and,
    Bool.false_eq_true, if_false, Bool.and_self, if_true, wp_bind]
  refine wp_mono _ (fun r t hr => ?_) (fun _ _ hno => ?_) wp_peerE2EKeys
  · obtain ⟨rfl, hlook⟩ := hr
    rw [hk]
    dsimp only
    unfold openWith
    rw [hopen]
    simp only [wp_bind, wp_emit, wp_pure]
    rw [if_pos (by simp [configAllowed, hconfig])]
    rcases hlook with rfl | ⟨_, -, rfl⟩ <;> exact ⟨rfl, rfl, rfl⟩
  · rw [hk] at hno
    cases hno

/-- **A master opens the frame and writes it to the serial line**, and does nothing else. -/
theorem does_master {x : MeshStation} {master leaf src : Mac} {kUp : Key} {out : Message}
    (h : Collects x master leaf kUp) (hm : GoesUp m master) (hb : master ≠ broadcastMac)
    (hleaf : m.originMac = leaf) (hpass : passesChecks x.world x.node m = true)
    (hopen : openPayload x.world.crypto kUp m = some out)
    (hout : isControlOp out.dataType out.data = false) :
    x.does (.rx src m) = [.serialOut out, .deliver out, .opened kUp m] := by
  refine MeshStation.does_of_wp h.running (by simp) (by simp [Event.isInput]) ?_
  set s := x.device.inputNode (.rx src m) with hs
  refine wp_receive (s := s) hm.messageType hpass ?_
  set t := s.received x.world src m with ht
  have hmac : t.deviceMac = master := h.deviceMac
  have hmaster : t.isMaster = true := h.isMaster
  -- the master routes nothing
  have hdec : t.routeDecision m = .notRouted := by
    unfold Node.routeDecision classify
    rw [if_pos (by simp [hmaster])]
  obtain ⟨keys, hkeys, rfl⟩ := Option.map_eq_some_iff.1 h.hasKeys
  have hlook : t.keysOf x.world.crypto m.originMac = some keys := by
    rw [hleaf, ← hkeys]
    exact keysOf_congr (PeerRegistry.keyOf_updateLastSeen _ _ _ _) rfl rfl
  unfold processAdapterData
  rw [wp_bind, wp_get, hdec]
  unfold routeAdapterData deliverAdapterData
  rw [hm.targetMac, hmac, decide_eq_true rfl, wp_bind]
  -- the frame opens, and then goes out on the serial line
  refine wp_mono _ (fun r u hu => ?_) (fun _ _ hf => hf)
    (wp_authorize_uplink hmaster hm.messageType hlook hopen hout)
  obtain ⟨rfl, htrace, hadapter⟩ := hu
  have hencodes : x.world.serialEncodes out = true := by
    rw [h.encodes, (SerialFraming.encode_line out).1]
    rfl
  dsimp only
  rw [wp_bind]
  refine wp_mono _ (fun _ v hv => ?_) (fun _ _ hf => hf)
    (wp_deliver_serial (hadapter.trans h.serial) hout hencodes)
  subst hv
  rw [wp_bind, wp_get, if_neg (by simp [hb])]
  show .serialOut out :: .deliver out :: u.trace = _
  rw [htrace]
  rfl

/-! ### The way of a frame -/

section

variable {stationAt : Mac → MeshStation} {stations : Set Mac} {master leaf src : Mac} {l : List Mac}

/-- The frame `m` that `src` sent to the first argument after it is passed on by the stations of the
list, one after the other, and reaches the master as `m'` from `last`. -/
inductive Climbs (stationAt : Mac → MeshStation) (master : Mac) :
    Mac → Mac → Message → List Mac → Mac → Message → Prop
  | arrive (src : Mac) (m : Message) : Climbs stationAt master src master m [] src m
  | relay {src hop next last : Mac} {m m' : Message} {l : List Mac}
      (hs : (stationAt hop).does (.rx src m) = [.tx next (m.relayed hop)])
      (h : Climbs stationAt master hop next (m.relayed hop) l last m') :
      Climbs stationAt master src hop m (hop :: l) last m'

/-- **A frame climbs over the stations that the next hops lead over**, in order. -/
theorem climbs (hl : NextHop.Path (fun mac => (stationAt mac).next) master hop l)
    (hrelays : ∀ mac ∈ l, Relays (stationAt mac) master mac) (hb : master ≠ broadcastMac)
    (hm : GoesUp m master) (horigin : m.originMac ∉ l) (hsrc : src ≠ master)
    (hcount : m.hopCount.toNat + l.length ≤ maxHops)
    (hpass : ∀ mac ∈ l, passesChecks (stationAt mac).world (stationAt mac).node m = true) :
    ∃ last m', Climbs stationAt master src hop m l last m' ∧ Message.RelayOf m m' ∧
      m'.hopCount.toNat = m.hopCount.toNat + l.length := by
  induction hl generalizing src m with
  | arrive => exact ⟨src, m, .arrive src m, .refl m, rfl⟩
  | @hop hop next l hne hnext _ ih =>
    rw [List.length_cons] at hcount ⊢
    have hlt : m.hopCount.toNat < maxHops := by omega
    have hdoes := does_relay (hrelays hop List.mem_cons_self) hm hb hne
      (fun he => horigin (he ▸ List.mem_cons_self)) hsrc hlt (hpass hop List.mem_cons_self) hnext
    have hone : (m.relayed hop).hopCount.toNat = m.hopCount.toNat + 1 := by
      simp only [maxHops] at hlt
      show (m.hopCount + 1).toNat = _
      rw [UInt8.toNat_add]
      show (m.hopCount.toNat + 1) % 256 = _
      omega
    obtain ⟨last, m', hclimb, hrel, hm'⟩ := ih (m := m.relayed hop)
      (fun mac hmac => hrelays mac (List.mem_cons_of_mem hop hmac)) ⟨hm.messageType, hm.targetMac⟩
      (fun ho => horigin (List.mem_cons_of_mem hop ho)) hne (by omega)
      (fun mac hmac => hpass mac (List.mem_cons_of_mem hop hmac))
    exact ⟨last, m', .relay hdoes hclimb, (m.relayOf_relayed hop).trans hrel, by omega⟩

/-- A mesh in which the routing has settled: every station but the master is a relay that has a next
hop, and what its neighbour table says of another station is not below what that station knows. -/
structure SettledMesh (stationAt : Mac → MeshStation) (stations : Set Mac) (master : Mac) :
    Prop where
  master_mem : master ∈ stations
  relays : ∀ hop ∈ stations, hop ≠ master → Relays (stationAt hop) master hop
  next : ∀ hop ∈ stations, hop ≠ master → (stationAt hop).next.isSome = true
  neighbors : ∀ hop ∈ stations, hop ≠ master → ∀ e ∈ (stationAt hop).node.neighbors.toList,
    e.valid = true → e.mac ∈ stations ∧
      (e.mac ≠ master → (stationAt e.mac).distance ≤ e.masterDistance)

/-- In a settled mesh the distance falls from every station to its next hop. -/
theorem SettledMesh.ranked (h : SettledMesh stationAt stations master) :
    NextHop.Ranked (fun mac => (stationAt mac).next) master stations
      fun mac => (stationAt mac).distance.toNat := by
  refine ⟨fun hop hin hne => ?_, fun hop hin hne => ?_⟩
  · obtain ⟨next, hnext⟩ := Option.isSome_iff_exists.1 (h.next hop hin hne)
    exact (nextHopToMaster_closer hnext).1
  · obtain ⟨next, hnext⟩ := Option.isSome_iff_exists.1 (h.next hop hin hne)
    rcases (nextHopToMaster_closer hnext).2 with rfl | ⟨e, he, hv, rfl, hlt⟩
    · refine ⟨_, ?_, hnext, fun hc => absurd (h.relays hop hin hne).master hc⟩
      rw [show _ = master from (h.relays hop hin hne).master]
      exact h.master_mem
    · obtain ⟨hmem, hle⟩ := h.neighbors hop hin hne e he hv
      refine ⟨e.mac, hmem, hnext, fun hc => ?_⟩
      exact (UInt8.le_iff_toNat_le.1 (hle hc)).trans_lt (UInt8.lt_iff_toNat_lt.1 hlt)

/-- The server reads from the line the message of the frame that the adapter wrote to it. -/
theorem server_reads (out : Message) : ∃ line, SerialAdapter.onMeshDataImpl out = some line ∧
    (Framing.payloads maxPayload line).map MeshMessage.pbDecode =
      [some (SerialFraming.toMeshMessage out)] := by
  obtain ⟨hline, hlen⟩ := SerialFraming.encode_line out
  refine ⟨SerialAdapter.framed (SerialFraming.encoded out), ?_, ?_⟩
  · rw [SerialAdapter.onMeshDataImpl, hline, Option.map_some]
  · have hmax : maxPayload < 65536 := by decide
    have hpay := Framing.payloads_frames hmax [SerialFraming.encoded out] (by simpa using hlen)
    rw [List.map_singleton, List.flatten_singleton] at hpay
    rw [show SerialAdapter.framed _ = Framing.frame (SerialFraming.encoded out) from rfl, hpay,
      List.map_singleton, SerialFraming.pbDecode_encoded]

/-- A leaf that is ready transmits the sealed frame once, to its next hop. -/
theorem sends_uplink {next : Mac} (h : Relays x master leaf)
    (hready : UplinkReady x.world (x.device.inputNode (.transmit type data)) type data frame keys)
    (hnext : x.next = some next) : x.sends (.transmit type data) = [(next, frame)] := by
  set s := x.device.inputNode (.transmit type data) with hs
  have hhops : SameHops x.node s := ⟨rfl, rfl, rfl, rfl, fun _ => rfl⟩
  obtain ⟨⟨⟩, t, hrun, es, htrace, hquiet⟩ := exists_ok (wp_uplink hready h.leaf
    ((hhops.nextHopToMaster _).trans hnext) (hhops.reaches (h.reaches next hnext)))
  have hdoes : x.does (.transmit type data) = .tx next frame :: es := by
    refine MeshStation.does_of_wp h.running (by simp) ?_ ?_
    · rintro e (_ | ⟨_, he⟩)
      · rfl
      · exact (hquiet e he).1
    · show wp (transmit x.world type data) _ _ s
      unfold wp
      rw [hrun]
      exact htrace
  exact MeshStation.sends_of_does hdoes fun e he => (hquiet e he).2

/-- The sealed frame is one of the leaf for the master, and starts without a relay. -/
theorem UplinkReady.goesUp
    (hready : UplinkReady x.world (x.device.inputNode (.transmit type data)) type data frame keys)
    (h : Relays x master leaf) :
    GoesUp frame master ∧ frame.originMac = leaf ∧ frame.dataType = type ∧
      frame.hopCount.toNat = 0 := by
  set s := x.device.inputNode (.transmit type data) with hs
  -- sealing replaces the payload and the tag alone
  obtain ⟨⟨cipher, tag⟩, -, rfl⟩ := Option.map_eq_some_iff.1 hready.isSealed
  refine ⟨⟨rfl, ?_⟩, ?_, rfl, rfl⟩
  · show s.drawn.currentMaster.mac = master
    rw [(sameHops_drawn s).currentMaster]
    exact h.master
  · exact s.drawn_sameDevice.deviceMac.trans h.deviceMac

/-- **What a leaf hands to the mesh arrives at the server**, unless it is a control opcode.  In a
settled mesh, where every radio takes the frames for its next hop, the leaf sends the sealed frame
once, to its next hop; it climbs over the stations that the next hops lead over, each of which
transmits it once and does nothing else; the master opens it and writes it to the serial line; and
the server reads the payload, the address of the leaf and the number of relays from it.  The leaf is
at most nine hops away, and ready: it seals under a number above the last one, with keys that the
master shares.  The master has a serial line that works, and at every other station the frame is of
this version and no replay. -/
theorem uplink_delivered (hset : SettledMesh stationAt stations master) (hb : master ≠ broadcastMac)
    (hin : leaf ∈ stations) (hne : leaf ≠ master)
    (hdist : (stationAt leaf).distance.toNat ≤ maxHops + 1)
    (hplain : isControlOp type data = false)
    (hready : UplinkReady (stationAt leaf).world ((stationAt leaf).device.inputNode
      (.transmit type data)) type data frame keys)
    (hmaster : Collects (stationAt master) master leaf keys.kUp)
    (hcrypto : (stationAt master).world.crypto = (stationAt leaf).world.crypto)
    (hopens : (stationAt leaf).world.crypto.OpensSealed)
    (hpass : ∀ mac ∈ stations, mac ≠ leaf →
      passesChecks (stationAt mac).world (stationAt mac).node frame = true) :
    ∃ first l last arrived, (stationAt leaf).sends (.transmit type data) = [(first, frame)] ∧
      Climbs stationAt master leaf first frame l last arrived ∧
      l.length < (stationAt leaf).distance.toNat ∧
      ∃ out, (stationAt master).does (.rx last arrived) =
          [.serialOut out, .deliver out, .opened keys.kUp arrived] ∧
        out = { arrived with data := data } ∧ out.originMac = leaf ∧
        out.hopCount.toNat = l.length ∧
        ∃ line, SerialAdapter.onMeshDataImpl out = some line ∧
          (Framing.payloads maxPayload line).map MeshMessage.pbDecode =
            [some (SerialFraming.toMeshMessage out)] := by
  have hrel := hset.relays leaf hin hne
  -- The path, which begins at the leaf itself.
  obtain ⟨path, hpath, hfalls⟩ := hset.ranked.exists_path leaf hin
  obtain ⟨hmem, -, hpw, hlen⟩ := hfalls hne
  cases hpath with
  | arrive => exact absurd rfl hne
  | @hop _ first l _ hnext hl =>
  rw [List.length_cons] at hlen
  have hbelow := (List.pairwise_cons.1 hpw).1
  have hnotin : leaf ∉ l := fun hc => absurd (hbelow leaf hc) (lt_irrefl _)
  -- The leaf sends the frame, and it climbs.
  have hsends := sends_uplink hrel hready hnext
  obtain ⟨hup, horigin, htype, hcount⟩ := hready.goesUp hrel
  have hl_ne := hl.ne_dest
  obtain ⟨last, arrived, hclimb, hrelay, hhop⟩ := climbs hl
    (fun mac hmac => hset.relays mac (hmem mac (List.mem_cons_of_mem leaf hmac)) (hl_ne mac hmac))
    hb hup (by rwa [horigin]) hne (by omega) fun mac hmac =>
      hpass mac (hmem mac (List.mem_cons_of_mem leaf hmac)) fun he => hnotin (he ▸ hmac)
  -- The master opens it.
  have harr := Message.relayOf_iff.1 hrelay
  have hopen : openPayload (stationAt master).world.crypto keys.kUp arrived =
      some { arrived with data := data } := by
    rw [hcrypto]
    exact openPayload_of_relay hrelay (openPayload_sealPayload hopens hready.isSealed)
  have hup' : GoesUp arrived master := by
    rw [harr]
    exact ⟨hup.messageType, hup.targetMac⟩
  have hplain' : isControlOp arrived.dataType data = false := by
    rw [harr]
    show isControlOp frame.dataType data = false
    rwa [htype]
  have hdoes' : (stationAt master).does (.rx last arrived) = _ :=
    does_master hmaster hup' hb (by rw [harr]; exact horigin)
      (by rw [harr]; exact hpass master hset.master_mem hne.symm) hopen hplain'
  refine ⟨first, l, last, arrived, hsends, hclimb, by omega, _, hdoes', rfl, ?_, ?_, server_reads _⟩
  · show arrived.originMac = leaf
    rw [harr]
    exact horigin
  · show arrived.hopCount.toNat = l.length
    omega

end

namespace Sample

/-- A table with one neighbour. -/
def oneNeighbor (n distance : UInt8) : NeighborTable :=
  (NeighborTable.empty.observeAndMinDistance (mac n) distance 50).2

/-- The surroundings of a station whose serial line works. -/
def lineEnv (n : UInt8) : Env :=
  { env n 100 with serialEncodes := fun m => (SerialFraming.encode m 256).isSome }

/-- The leaf `n`, at a distance from the master, with one neighbour. -/
def farLeaf (n distance neighbor neighborDistance : UInt8) : Node :=
  { leafNode n with
    currentMaster := ⟨mac 7, distance⟩
    neighbors := oneNeighbor neighbor neighborDistance
    radioPeers := [broadcastMac, mac 7] }

/-- The leaves 1, 2 and 3 in a row before the master 7. -/
def rowNode (n : UInt8) : Node :=
  if n = 1 then farLeaf 1 3 2 2
  else if n = 2 then farLeaf 2 2 3 1
  else if n = 3 then farLeaf 3 1 7 0
  else { masterNode [1, 2, 3] with adapterType := AdapterType.serial }

/-- The stations of the row. -/
def rowStation (m : Mac) : MeshStation := ⟨board, ⟨rowNode m.head, .running⟩, lineEnv m.head⟩

/-- The node health report of the leaf 1. -/
def rowHealth : Payload := PirAdapter.nodeHealthData (rowNode 1) 100

/-- The frame that the leaf 1 seals. -/
def rowFrame : Message :=
  let built := (rowNode 1).buildsUplink AdapterType.serial rowHealth
  { built with
    data := built.data.map (· ^^^ (sharedKeys 1).kUp.head)
    authTag := tag (sharedKeys 1).kUp (buildNonce built) built.data }

/-- The row has settled. -/
theorem settled_row : SettledMesh rowStation {m | m ∈ [mac 1, mac 2, mac 3, mac 7]} (mac 7) := by
  refine ⟨by simp, fun hop hin hne => ?_, fun hop hin hne => ?_, fun hop hin hne => ?_⟩
  · simp only [Set.mem_ofPred_eq, List.mem_cons, List.not_mem_nil, or_false] at hin
    rcases hin with rfl | rfl | rfl | rfl
    · refine ⟨rfl, rfl, rfl, rfl, rfl, fun next hnext => ⟨rfl, .inr ⟨by decide, rfl⟩⟩⟩
    · refine ⟨rfl, rfl, rfl, rfl, rfl, fun next hnext => ⟨rfl, .inr ⟨by decide, rfl⟩⟩⟩
    · refine ⟨rfl, rfl, rfl, rfl, rfl, fun next hnext => ⟨rfl, .inl ?_⟩⟩
      obtain rfl : mac 7 = next := Option.some.inj (Eq.trans (by decide) hnext)
      decide
    · exact absurd rfl hne
  · simp only [Set.mem_ofPred_eq, List.mem_cons, List.not_mem_nil, or_false] at hin
    rcases hin with rfl | rfl | rfl | rfl
    · decide
    · decide
    · decide
    · exact absurd rfl hne
  · simp only [Set.mem_ofPred_eq, List.mem_cons, List.not_mem_nil, or_false] at hin ⊢
    rcases hin with rfl | rfl | rfl | rfl
    · decide
    · decide
    · decide
    · exact absurd rfl hne

end Sample

/-- The node health report of the leaf 1 arrives by way of the leaves 2 and 3. -/
theorem uplink_delivered_row : ∃ first l last arrived,
    (Sample.rowStation (Sample.mac 1)).sends (.transmit AdapterType.serial Sample.rowHealth) =
      [(first, Sample.rowFrame)] ∧
    Climbs Sample.rowStation (Sample.mac 7) (Sample.mac 1) first Sample.rowFrame l last arrived ∧
    l.length < 3 ∧
    ∃ out, (Sample.rowStation (Sample.mac 7)).does (.rx last arrived) =
        [.serialOut out, .deliver out, .opened (Sample.sharedKeys 1).kUp arrived] ∧
      out = { arrived with data := Sample.rowHealth } ∧ out.originMac = Sample.mac 1 ∧
      out.hopCount.toNat = l.length ∧
      ∃ line, SerialAdapter.onMeshDataImpl out = some line ∧
        (Framing.payloads maxPayload line).map MeshMessage.pbDecode =
          [some (SerialFraming.toMeshMessage out)] := by
  have hready : UplinkReady (Sample.rowStation (Sample.mac 1)).world
      ((Sample.rowStation (Sample.mac 1)).device.inputNode
        (.transmit AdapterType.serial Sample.rowHealth)) AdapterType.serial Sample.rowHealth
      Sample.rowFrame (Sample.sharedKeys 1) := ⟨fun _ _ => rfl, by decide, by decide, rfl⟩
  have hmaster : Collects (Sample.rowStation (Sample.mac 7)) (Sample.mac 7) (Sample.mac 1)
      (Sample.sharedKeys 1).kUp := ⟨rfl, rfl, rfl, rfl, by decide, fun _ => rfl⟩
  have hsent : (AdapterType.serial, Sample.rowHealth) ∈
      PirAdapter.Event.sent (Sample.rowNode 1) 100 .healthSent := List.mem_singleton_self _
  have hplain : isControlOp AdapterType.serial Sample.rowHealth = false :=
    PirAdapter.Event.not_control_of_sent hsent
  refine uplink_delivered Sample.settled_row (by decide) (by simp) (by decide) (by decide) hplain
    hready hmaster rfl Sample.opensSealed fun m hm _ => ?_
  simp only [Set.mem_ofPred_eq, List.mem_cons, List.not_mem_nil, or_false] at hm
  rcases hm with rfl | rfl | rfl | rfl <;> decide

end LatticeMesh
