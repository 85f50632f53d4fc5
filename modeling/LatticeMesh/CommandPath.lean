import LatticeMesh.AdapterBoot
import LatticeMesh.LeafControl
import LatticeMesh.SourceRoute
import LatticeMesh.UplinkPath

/-!
# Obedience to a command

The server re-types the adapter of a leaf with one message on the serial line of the master.  The
master seals the command for the leaf and sends it along the recorded path, every relay passes it to
the next one, and the leaf opens it, stores the new type and restarts; the boot that follows comes
up with an adapter of that type.

## Main definitions

* `RadioTakes` — the radio of a node takes a frame for an address.
* `Forwards`, `Instructs`, `Obeys` — what a relay, the master and the leaf need.
* `Descends` — the way of a frame down the source route.

## Main results

* `does_forward` — **a relay transmits the frame once, to the hop behind it, and does nothing
  else.**
* `sends_command` — **the master transmits the sealed command once, to the first hop.**
* `does_obey` — **the leaf opens the command, stores the type and restarts.**
* `boots_retyped` — the next boot that comes up has an adapter of that type.
* `command_obeyed` — **a command on the serial line re-types the leaf.**
-/

namespace LatticeMesh

open EffectSpec

variable {w : World} {s t : Node} {m : Message} {hop next : Mac}

/-! ### The radio -/

/-- The radio takes a frame for `next`: it is registered, or will be when a downlink frame is for
it. -/
structure RadioTakes (w : World) (s : Node) (next : Mac) : Prop where
  other : next ≠ s.deviceMac
  sendOk : w.sendOk next = true
  registered : next ∈ s.radioPeers ∨ w.addPeerOk next = true

/-- What the registration of the next hop of a downlink frame leaves as it was. -/
structure DownlinkSelected (s : Node) (next : Mac) (t : Node) : Prop where
  radioPeers : next ∈ t.radioPeers
  trace : t.trace = s.trace
  deviceMac : t.deviceMac = s.deviceMac

theorem wp_registerPeerWithEspNow_takes (h : next ∈ s.radioPeers ∨ w.addPeerOk next = true) :
    wp (registerPeerWithEspNow w next) (fun _ t => DownlinkSelected s next t)
      (fun _ _ => False) s := by
  unfold registerPeerWithEspNow
  rw [wp_bind, wp_get]
  by_cases hin : s.radioPeers.contains next = true
  · rw [if_pos hin]
    exact ⟨List.contains_iff_mem.1 hin, rfl, rfl⟩
  · have hadd : w.addPeerOk next = true :=
      h.resolve_left fun hc => hin (List.contains_iff_mem.2 hc)
    rw [if_neg hin, if_pos hadd]
    exact ⟨List.mem_append_right _ (List.mem_singleton.2 rfl), rfl, rfl⟩

/-- The next hop of a downlink frame is registered afterwards: the relay that leaves the radio is
another one. -/
theorem wp_registerDownlinkPeer_takes (h : next ∈ s.radioPeers ∨ w.addPeerOk next = true) :
    wp (registerDownlinkPeer w next) (fun _ t => DownlinkSelected s next t)
      (fun _ _ => False) s := by
  have hreg : ∀ u : Node, u.trace = s.trace → u.deviceMac = s.deviceMac →
      (next ∈ s.radioPeers → next ∈ u.radioPeers) →
      wp (registerPeerWithEspNow w next) (fun _ t => DownlinkSelected s next t)
        (fun _ _ => False) u := by
    intro u htrace hmac hkeep
    refine wp_mono _ (fun _ t ht => ?_) (fun _ _ hf => hf)
      (wp_registerPeerWithEspNow_takes (h.imp_left hkeep))
    exact ⟨ht.radioPeers, ht.trace.trans htrace, ht.deviceMac.trans hmac⟩
  unfold registerDownlinkPeer
  rw [wp_bind, wp_get]
  dsimp only
  split
  · rw [wp_bind, wp_modify]
    exact hreg _ rfl rfl id
  split
  · rw [wp_bind, wp_modify]
    exact hreg _ rfl rfl id
  split
  · rename_i hfree _
    rw [wp_bind]
    unfold espNowDelPeer
    rw [wp_modify, wp_bind, wp_modify]
    refine hreg _ rfl rfl fun hin => List.mem_filter.2 ⟨hin, ?_⟩
    -- The last relay of the list is in it, and `next` is not.
    have hlast : s.downlinkPeerLru.getLastD next ∈ s.downlinkPeerLru := by
      rw [List.getLastD_eq_getLast?]
      cases hl : s.downlinkPeerLru.getLast? with
      | none =>
        rename_i hfull
        rw [List.getLast?_eq_none_iff.1 hl] at hfull
        exact absurd hfull (by decide)
      | some mac => exact List.mem_of_getLast? hl
    have hne : next ≠ s.downlinkPeerLru.getLastD next := by
      intro he
      exact hfree (List.contains_iff_mem.2 (he ▸ hlast))
    simpa using hne
  · rw [wp_bind, wp_modify]
    exact hreg _ rfl rfl id

/-- A frame for a next hop on the route is transmitted to it, and that is all that happens. -/
theorem wp_sendOn (h : RadioTakes w s next) :
    wp (do registerDownlinkPeer w next; sendMessage w next m s.deviceMac : MeshM Unit)
      (fun _ t => t.trace = .tx next m :: s.trace ∧ t.deviceMac = s.deviceMac)
      (fun _ _ => False) s := by
  rw [wp_bind]
  refine wp_mono _ (fun _ t ht => ?_) (fun _ _ hf => hf)
    (wp_registerDownlinkPeer_takes h.registered)
  unfold sendMessage espNowSend
  rw [if_neg h.other, wp_bind, wp_bind, wp_get]
  have hok : (t.radioPeers.contains next && w.sendOk next) = true := by
    rw [List.contains_iff_mem.2 ht.radioPeers, h.sendOk]
    rfl
  rw [if_pos hok]
  show (t.emit (.tx next m)).trace = _ ∧ t.deviceMac = s.deviceMac
  rw [Node.emit, ht.trace]
  exact ⟨rfl, ht.deviceMac⟩

/-! ### The relays -/

/-- A leaf that relays what the master sends to `target`. -/
structure Forwards (x : MeshStation) (target hop : Mac) : Prop where
  running : x.device.status = .running
  deviceMac : x.node.deviceMac = hop
  relays : RelaysFor x.node target

/-- **A relay transmits the frame once, to the hop behind it, and does nothing else.** -/
theorem does_forward {x : MeshStation} {target src : Mac} {pre post : List Mac}
    (h : Forwards x target hop) (hm : GoesUp m target) (hb : target ≠ broadcastMac)
    (hp : m.path = pre ++ hop :: post) (hnd : m.path.Nodup) (hlen : m.routeLen.toNat ≤ maxHops)
    (hcount : m.hopCount.toNat = pre.length)
    (hpass : passesChecks x.world x.node m = true)
    (htakes : RadioTakes x.world x.node (post.headD target)) :
    x.does (.rx src m) = [.tx (post.headD target) m.forwarded] := by
  refine MeshStation.does_of_wp h.running (by simp) (by simp [Event.isInput]) ?_
  set s := x.device.inputNode (.rx src m) with hs
  refine wp_receive (s := s) hm.messageType hpass ?_
  have hmac : (s.received x.world src m).deviceMac = hop := h.deviceMac
  have hrelays : RelaysFor (s.received x.world src m) m.targetMac := by
    rw [hm.targetMac]
    exact ⟨h.relays.leaf, h.relays.other, h.relays.master⟩
  have hdec : (s.received x.world src m).routeDecision m = .forwardOnRoute (post.headD target) := by
    rw [← hm.targetMac]
    exact routeDecision_on_route hrelays (by rwa [hm.targetMac]) (by rw [hmac]; exact hp) hnd hlen
      hcount
  unfold processAdapterData
  rw [wp_bind, wp_get, hdec]
  have hsend : wp (do registerDownlinkPeer x.world (post.headD target)
                      sendMessage x.world (post.headD target) m.forwarded
                        (s.received x.world src m).deviceMac : MeshM Unit) _ (fun _ _ => False)
      (s.received x.world src m) :=
    wp_sendOn ⟨htakes.other, htakes.sendOk, htakes.registered⟩
  unfold routeAdapterData
  rw [wp_bind, wp_get]
  refine wp_mono _ (fun _ t ht => ?_) (fun _ _ hf => hf) hsend
  rw [ht.1]
  rfl

/-! ### The master -/

variable {type : AdapterType} {data : Payload} {target : Mac} {frame : Message} {keys : E2EKeys}
  {path : RoutePath} {pathLen : UInt8}

/-- The data frame that a master builds for `target`. -/
def Node.buildsDownlink (s : Node) (target : Mac) (type : AdapterType) (data : Payload) : Message :=
  { builtMessage s.drawn type data MessageType.adapterData s.drawn.txState.txSeqNum with
    targetMac := target }

/-- The counters after a draw depend on the counters alone. -/
theorem Node.drawn_txState_congr (h : t.txState = s.txState) :
    t.drawn.txState = s.drawn.txState := by
  unfold Node.drawn
  rw [h]
  split <;> rfl

/-- The frame that a master builds depends on its counters and its address. -/
theorem Node.buildsDownlink_congr (h : t.txState = s.txState) (hd : t.deviceMac = s.deviceMac) :
    t.buildsDownlink target type data = s.buildsDownlink target type data := by
  have hb : ∀ u : Node, u.buildsDownlink target type data =
      { Message.zero with
        protoVersion := protoVersion, messageType := MessageType.adapterData, dataType := type
        originMac := u.drawn.deviceMac, targetMac := target, lastHopMac := u.drawn.deviceMac
        data := data, hopCount := 0, seqNum := u.drawn.txState.txSeqNum
        epochNum := u.drawn.txState.bootEpoch } := fun _ => rfl
  rw [hb, hb, Node.drawn_txState_congr h, t.drawn_sameDevice.deviceMac,
    s.drawn_sameDevice.deviceMac, hd]

/-- What a master needs to send a sealed frame down a recorded path: a flash that works where the
sequence number wraps, a number above the last one that was sealed, the keys that it shares with the
target, and a radio that takes a frame for the last relay of the path. -/
structure Instructs (w : World) (s : Node) (target : Mac) (type : AdapterType) (data : Payload)
    (frame : Message) (keys : E2EKeys) (path : RoutePath) (pathLen : UInt8) : Prop where
  isMaster : s.isMaster = true
  flash : s.txState.txSeqNum + 1 = 0 → ∀ op, w.nvsOk op = true
  guarded : s.drawn.txState.sealAdvances (s.buildsDownlink target type data).epochNum
    (s.buildsDownlink target type data).seqNum = true
  hasKeys : s.keysOf w.crypto target = some keys
  isSealed : sealPayload w.crypto keys.kDown (s.buildsDownlink target type data) = some frame
  route : (s.routes.bind fun routes => routes.lookup target) = some (path, pathLen)
  isRelayed : 1 ≤ pathLen.toNat
  length_le : pathLen.toNat ≤ maxHops

/-- The states agree in everything that the way down from the master depends on. -/
structure SameDownlink (s t : Node) : Prop where
  deviceMac : t.deviceMac = s.deviceMac
  radioPeers : t.radioPeers = s.radioPeers
  routes : t.routes = s.routes

theorem sameDownlink_drawn (s : Node) : SameDownlink s s.drawn := by
  refine ⟨s.drawn_sameDevice.deviceMac, ?_, s.drawn_routes⟩
  unfold Node.drawn Node.savedEpoch
  split
  · split <;> rfl
  · rfl

theorem SameDownlink.emit (h : SameDownlink s t) (e : Event) : SameDownlink s (t.emit e) :=
  ⟨h.deviceMac, h.radioPeers, h.routes⟩

theorem SameDownlink.takes (h : SameDownlink s t) (hr : RadioTakes w s next) :
    RadioTakes w t next := by
  refine ⟨?_, hr.sendOk, ?_⟩
  · rw [h.deviceMac]
    exact hr.other
  · rw [h.radioPeers]
    exact hr.registered

theorem Node.drawn_keysOf (s : Node) (c : Crypto) (mac : Mac) :
    s.drawn.keysOf c mac = s.keysOf c mac := by
  unfold Node.drawn Node.savedEpoch
  split
  · split <;> rfl
  · rfl

/-- A frame that may be sealed passes the guard, and only the guard's mark changes. -/
theorem wp_checkEpochRollback_advances {t : Node} {epoch : UInt32} {seq : UInt16}
    (hsame : SameDownlink s t) (h : t.txState.sealAdvances epoch seq = true) :
    wp (checkEpochRollback w epoch seq) (fun _ u => SameDownlink s u ∧
        (∀ mac, u.keysOf w.crypto mac = t.keysOf w.crypto mac) ∧
        u.trace = .guarded epoch seq :: t.trace) (fun _ _ => False) t := by
  unfold checkEpochRollback
  rw [wp_bind, wp_get, if_pos h, wp_bind, wp_modify, wp_emit]
  exact ⟨⟨hsame.deviceMac, hsame.radioPeers, hsame.routes⟩, fun _ => rfl, rfl⟩

/-- A sealed frame for a node whose path is recorded goes out along the reversed path. -/
theorem wp_routeDownlink
    (hl : (s.routes.bind fun routes => routes.lookup m.targetMac) = some (path, pathLen))
    (hpos : 1 ≤ pathLen.toNat) (hlen : pathLen.toNat ≤ maxHops)
    (hr : RadioTakes w s ((withReversedRoute m path pathLen hlen).hop ⟨0, by decide⟩)) :
    wp (routeDownlink w m) (fun _ t => t.trace =
        .tx ((withReversedRoute m path pathLen hlen).hop ⟨0, by decide⟩)
          (withReversedRoute m path pathLen hlen) :: s.trace ∧ t.deviceMac = s.deviceMac)
      (fun _ _ => False) s := by
  have hpos' : pathLen > 0 := UInt8.lt_iff_toNat_lt.2 hpos
  unfold routeDownlink
  rw [wp_bind, wp_get, hl]
  dsimp only
  rw [if_pos hpos', dif_neg (by simpa [downlinkRouteLenExceedsMaxHops] using hlen)]
  exact wp_sendOn hr

/-- The frame that a master builds for a recorded node goes out sealed, to the first hop of the
reversed path, and no other frame does. -/
theorem wp_sendDownlink (h : Instructs w s target type data frame keys path pathLen)
    (hr : RadioTakes w s ((withReversedRoute frame path pathLen h.length_le).hop ⟨0, by decide⟩)) :
    wp (sendDownlinkToNode w target type data) (fun _ t => (∃ es, t.trace =
        .tx ((withReversedRoute frame path pathLen h.length_le).hop ⟨0, by decide⟩)
          (withReversedRoute frame path pathLen h.length_le) :: es ++ s.trace ∧
        ∀ e ∈ es, e.isInput = false ∧ e.isTx = false) ∧ t.deviceMac = s.deviceMac)
      (fun _ _ => False) s := by
  obtain ⟨es, hes, hquiet⟩ := s.drawn_quietly
  unfold sendDownlinkToNode
  rw [wp_bind, wp_get, if_neg (by simp [h.isMaster]), wp_bind]
  -- the frame is built under the next number
  refine wp_mono _ (fun built t ht => ?_) (fun _ _ hf => hf) (wp_buildMessage h.flash)
  obtain ⟨rfl, rfl⟩ := ht
  set built := builtMessage s.drawn type data MessageType.adapterData s.drawn.txState.txSeqNum
    with hbuilt
  have hto : frame.targetMac = target := by
    obtain ⟨_, -, hs⟩ := Option.map_eq_some_iff.1 h.isSealed
    rw [← hs]
    rfl
  have hdrawn : SameDownlink s (s.drawn.emit (.built built)) := (sameDownlink_drawn s).emit _
  -- the guard lets the number pass
  rw [wp_bind]
  refine wp_mono _ (fun _ u hu => ?_) (fun _ _ hf => hf)
    (wp_checkEpochRollback_advances hdrawn h.guarded)
  obtain ⟨hsame, hkeys', htrace⟩ := hu
  have hkeys : u.keysOf w.crypto target = some keys :=
    (hkeys' target).trans ((s.drawn_keysOf _ _).trans h.hasKeys)
  -- the keys of the target are found, in the cache or by deriving them
  rw [wp_bind]
  refine wp_mono _ (fun r v hv => ?_) (fun _ _ hno => by rw [hkeys] at hno; cases hno)
    wp_peerE2EKeys
  obtain ⟨hr', hlook⟩ := hv
  obtain rfl : r = some keys := hr'.trans hkeys
  have hsame' : SameDownlink s v ∧ v.trace = u.trace := by
    rcases hlook with rfl | ⟨_, -, rfl⟩
    · exact ⟨hsame, rfl⟩
    · exact ⟨⟨hsame.1, hsame.2, hsame.3⟩, rfl⟩
  dsimp only
  rw [wp_bind, wp_emit, show sealPayload w.crypto keys.kDown { built with targetMac := target } =
    some frame from h.isSealed]
  -- the path is recorded still, so the frame is routed along it
  have hroute : (v.routes.bind fun routes => routes.lookup frame.targetMac) =
      some (path, pathLen) := by
    rw [hsame'.1.routes, hto]
    exact h.route
  have hemit : SameDownlink s (v.emit (.sealed keys.kDown { built with targetMac := target })) :=
    ⟨hsame'.1.1, hsame'.1.2, hsame'.1.3⟩
  refine wp_mono _ (fun _ t ht => ?_) (fun _ _ hf => hf)
    (wp_routeDownlink (s := v.emit _) hroute h.isRelayed h.length_le (hemit.takes hr))
  refine ⟨⟨.sealed keys.kDown { built with targetMac := target } ::
    .guarded built.epochNum built.seqNum :: .built built :: es, ?_, ?_⟩, ht.2.trans hemit.deviceMac⟩
  · rw [ht.1]
    show _ :: _ :: v.trace = _
    rw [hsame'.2, htrace]
    show _ :: _ :: _ :: _ :: s.drawn.trace = _
    rw [hes]
    rfl
  -- the events behind the transmission: a seal, the guard, the built frame, the drawn number
  · rintro e (_ | ⟨_, _ | ⟨_, _ | ⟨_, he⟩⟩⟩)
    · exact ⟨rfl, rfl⟩
    · exact ⟨rfl, rfl⟩
    · exact ⟨rfl, rfl⟩
    · exact hquiet e he

/-- A message of the server that gives `target` an adapter of another type. -/
structure Retypes (m : Message) (target : Mac) (raw : UInt8) : Prop where
  messageType : m.messageType = MessageType.serialCmdBroadcast
  dataType : m.dataType = AdapterType.serial
  unicast : m.targetMac ≠ broadcastMac
  opcode : m.byte 0 = Opcode.configSet
  commandTarget : m.commandTarget = target
  type : m.byte 7 = raw

/-- **The master transmits the sealed command once, to the first hop.** -/
theorem sends_command {x : MeshStation} {cmd : Message} {raw : UInt8}
    (hrun : x.device.status = .running) (hserial : x.node.adapterType = AdapterType.serial)
    (hcmd : Retypes cmd target raw) (hb : target ≠ broadcastMac) (hself : target ≠ x.node.deviceMac)
    (h : Instructs x.world (x.device.inputNode (.serial cmd)) target AdapterType.serial cmd.data
      frame keys path pathLen)
    (hr : RadioTakes x.world x.node
      ((withReversedRoute frame path pathLen h.length_le).hop ⟨0, by decide⟩)) :
    x.sends (.serial cmd) = [((withReversedRoute frame path pathLen h.length_le).hop ⟨0, by decide⟩,
      withReversedRoute frame path pathLen h.length_le)] := by
  set s := x.device.inputNode (.serial cmd) with hs
  have hr' : RadioTakes x.world s
      ((withReversedRoute frame path pathLen h.length_le).hop ⟨0, by decide⟩) :=
    ⟨hr.other, hr.sendOk, hr.registered⟩
  have hwp : wp (handleCompleteFrame x.world cmd) (fun _ t => ∃ es, t.trace =
      .tx ((withReversedRoute frame path pathLen h.length_le).hop ⟨0, by decide⟩)
        (withReversedRoute frame path pathLen h.length_le) :: es ++ s.trace ∧
      ∀ e ∈ es, e.isInput = false ∧ e.isTx = false) (fun _ _ => False) s := by
    unfold handleCompleteFrame forwardServerFrame
    rw [wp_bind, wp_get, if_neg (not_not.2 (show s.adapterType = _ from hserial)), hcmd.messageType,
      if_neg (by decide), if_neg (by decide), if_pos rfl, if_neg hcmd.unicast, wp_bind,
      hcmd.commandTarget, hcmd.dataType]
    refine wp_mono _ (fun _ t ht => ?_) (fun _ _ hf => hf) (wp_sendDownlink h hr')
    obtain ⟨hes, hmac⟩ := ht
    -- The command is not for the master itself.
    have hother : isTargetedAtSelf t cmd.commandTarget = false := by
      have hmac' : t.deviceMac = x.node.deviceMac := hmac
      unfold isTargetedAtSelf
      rw [hcmd.commandTarget, hmac', decide_eq_false hb, decide_eq_false hself]
      rfl
    unfold dispatchControlOp opConfigSet
    rw [if_pos rfl, if_pos hcmd.opcode, wp_bind, wp_get, hother]
    exact hes
  obtain ⟨⟨⟩, t, hok, es, htrace, hquiet⟩ := exists_ok hwp
  have hdoes : x.does (.serial cmd) =
      .tx ((withReversedRoute frame path pathLen h.length_le).hop ⟨0, by decide⟩)
        (withReversedRoute frame path pathLen h.length_le) :: es := by
    refine MeshStation.does_of_wp hrun (by simp) ?_ ?_
    · rintro e (_ | ⟨_, he⟩)
      · rfl
      · exact (hquiet e he).1
    · unfold wp
      rw [show handleInput x.world (.serial cmd) (x.device.inputNode (.serial cmd)) = .ok () t
        from hok]
      exact htrace
  exact MeshStation.sends_of_does hdoes fun e he => (hquiet e he).2

/-! ### The leaf -/

/-- A production leaf that shares the downlink key `kDown` with its master, and knows `master`. -/
structure Obeys (x : MeshStation) (target master : Mac) (kDown : Key) : Prop where
  running : x.device.status = .running
  deviceMac : x.node.deviceMac = target
  leaf : x.node.isMaster = false
  production : x.node.eeprom.isDevMode = false
  hasKeys : (x.node.masterKeys x.world.crypto).map E2EKeys.kDown = some kDown
  known : x.node.enrollment.isKnownMaster master = true
  flash : ∀ raw, x.world.nvsOk (.adapterType raw) = true

/-- A leaf authorises a command of a master that it knows. -/
theorem wp_authorize_downlink {out : Message} (hleaf : s.isMaster = false)
    (ht : m.messageType = MessageType.adapterData)
    (hknown : s.enrollment.isKnownMaster m.originMac = true)
    (hk : s.masterKeys w.crypto = some keys)
    (hopen : openPayload w.crypto keys.kDown m = some out) :
    wp (authorize w m true) (fun r t => r = some out ∧ t.trace = .opened keys.kDown m :: s.trace ∧
      t.deviceMac = s.deviceMac ∧ t.eeprom = s.eeprom ∧ t.nvs = s.nvs) (fun _ _ => False) s := by
  have horigin : out.originMac = m.originMac := by rw [openPayload_data hopen]
  unfold authorize openDownlink
  rw [wp_bind, wp_get]
  simp only [hleaf, ht, Bool.not_false, Bool.and_true, Bool.false_and, Bool.false_eq_true,
    if_false, decide_true, if_true, wp_bind]
  refine wp_mono _ (fun r t hr => ?_) (fun _ _ hf => hf) (wp_masterE2EKeys hk)
  obtain ⟨rfl, hlook⟩ := hr
  dsimp only
  unfold openWith
  rw [hopen]
  simp only [wp_bind, wp_emit, wp_pure]
  rw [if_pos (by simp [configAllowed, horigin, hknown])]
  rcases hlook with rfl | ⟨_, -, rfl⟩ <;> exact ⟨rfl, rfl, rfl, rfl, rfl⟩

/-- A delivered command for this node stores the type and restarts. -/
theorem wp_deliver_retype {raw : UInt8} (hprod : s.eeprom.isDevMode = false)
    (hdata : m.dataType = AdapterType.serial) (hop : m.byte 0 = Opcode.configSet)
    (hself : m.commandTarget = s.deviceMac) (htype : m.byte 7 = raw)
    (hflash : ∀ raw, w.nvsOk (.adapterType raw) = true) :
    wp (deliver w m) (fun _ _ => False) (fun e t => e = .espRestart ∧
      t.trace = .espRestart :: .nvs (.adapterType (adapterTypeToEEPROM (adapterTypeFromEEPROM raw)))
        :: .deliver m :: s.trace ∧
      t.nvs = { s.nvs with
        adapterType := some (adapterTypeToEEPROM (adapterTypeFromEEPROM raw)) }) s := by
  have htarget : isTargetedAtSelf (s.emit (.deliver m)) m.commandTarget = true := by
    unfold isTargetedAtSelf
    rw [hself]
    exact Bool.or_eq_true_iff.2 (.inr (decide_eq_true rfl))
  unfold deliver externalRecvCallback onMeshData dispatchControlOp opConfigSet saveAdapterType
    nvsSave nvsPut
  rw [wp_bind, wp_emit, wp_bind, wp_get, if_pos hdata, wp_bind, if_pos hop, wp_bind, wp_get,
    htarget, if_pos rfl, wp_bind, wp_bind, wp_get,
    if_neg (ne_true_of_eq_false (show (s.emit (.deliver m)).eeprom.isDevMode = false from hprod)),
    if_pos (hflash _), htype]
  exact ⟨rfl, rfl, rfl⟩

/-- **The leaf opens the command, stores the type and restarts.** -/
theorem does_obey {x : MeshStation} (src : Mac) {target master : Mac} {kDown : Key} {out : Message}
    {raw : UInt8} (h : Obeys x target master kDown) (hm : GoesUp m target)
    (horigin : m.originMac = master) (hpass : passesChecks x.world x.node m = true)
    (hopen : openPayload x.world.crypto kDown m = some out)
    (hdata : m.dataType = AdapterType.serial)
    (hop : out.byte 0 = Opcode.configSet) (hto : out.commandTarget = target)
    (htype : out.byte 7 = raw) :
    x.does (.rx src m) = [.espRestart,
        .nvs (.adapterType (adapterTypeToEEPROM (adapterTypeFromEEPROM raw))), .deliver out,
        .opened kDown m] ∧
      (Device.step x.board x.device (x.env, .rx src m)).status = .halted .espRestart ∧
      (Device.step x.board x.device (x.env, .rx src m)).node.nvs = { x.node.nvs with
        adapterType := some (adapterTypeToEEPROM (adapterTypeFromEEPROM raw)) } := by
  set s := x.device.inputNode (.rx src m) with hs
  obtain ⟨keys, hkeys, rfl⟩ := Option.map_eq_some_iff.1 h.hasKeys
  have hwp : wp (handleReceivedMessage x.world src m) (fun _ _ => False) (fun e t =>
      e = .espRestart ∧ t.trace = [.espRestart,
        .nvs (.adapterType (adapterTypeToEEPROM (adapterTypeFromEEPROM raw))), .deliver out,
        .opened keys.kDown m] ++ s.trace ∧ t.nvs = { x.node.nvs with
          adapterType := some (adapterTypeToEEPROM (adapterTypeFromEEPROM raw)) }) s := by
    -- the checks are passed, and the sender is noted
    refine wp_receive (s := s) hm.messageType hpass ?_
    set t := s.received x.world src m with ht
    have hmac : t.deviceMac = target := h.deviceMac
    -- the frame is for this node, so it is not routed on
    have hdec : t.routeDecision m = .notRouted := by
      unfold Node.routeDecision classify
      rw [if_pos (by simp [hm.targetMac, hmac])]
    have hlook : t.masterKeys x.world.crypto = some keys := by
      rw [← hkeys]
      unfold Node.masterKeys
      congr 1
      exact keysOf_congr (PeerRegistry.keyOf_updateLastSeen _ _ _ _) rfl rfl
    -- the command opens and is authorised, since its origin is the known master
    have hauth : wp (authorize x.world m true) _ (fun _ _ => False) t :=
      wp_authorize_downlink h.leaf hm.messageType (by rw [horigin]; exact h.known) hlook hopen
    unfold processAdapterData
    rw [wp_bind, wp_get, hdec]
    unfold routeAdapterData deliverAdapterData
    rw [hm.targetMac, hmac, decide_eq_true rfl, wp_bind]
    refine wp_mono _ (fun r u hu => ?_) (fun _ _ hf => hf.elim) hauth
    obtain ⟨rfl, htrace, hmac', heeprom, hnvs⟩ := hu
    have hprod : u.eeprom.isDevMode = false := by
      rw [heeprom]
      exact h.production
    have hserial : out.dataType = AdapterType.serial := by rwa [openPayload_data hopen]
    dsimp only
    -- the adapter carries it out
    rw [wp_bind]
    refine wp_mono _ (fun _ _ hf => hf.elim) (fun e v hv => ?_)
      (wp_deliver_retype hprod hserial hop (hto.trans (hmac.symm.trans hmac'.symm)) htype h.flash)
    obtain ⟨rfl, htrace', hnvs'⟩ := hv
    refine ⟨rfl, ?_, ?_⟩
    · rw [htrace', htrace]
      rfl
    · rw [hnvs', hnvs]
      rfl
  -- the step ends with the restart, and with the new type in the flash
  obtain ⟨e, t, hrun, rfl, htrace, hnvs⟩ := exists_error hwp
  have hstep : Device.step x.board x.device (x.env, .rx src m) = ⟨t, .halted .espRestart⟩ := by
    rw [Device.step_of_input (by simp) h.running]
    exact congrArg Device.ofResult hrun
  rw [hstep]
  refine ⟨?_, rfl, hnvs⟩
  unfold MeshStation.does
  rw [hstep, Node.stepEvents_append htrace (by simp [Event.isInput])]
  exact List.append_nil _

/-! ### The next boot -/

/-- The adapter that a boot creates is of the type that it asks for. -/
theorem boots_createAdapter_type {s₀ : Node} (h : BootFrame w.config s₀ s) :
    Boots w s₀ s (createAdapter w) fun _ t =>
      ∃ tr, t = { s with adapterType := bootAdapterType s w.config, trace := tr } := by
  refine Spec.read_bind (Spec.ite (fun _ => ?_) fun _ => ?_)
  · have h' : BootFrame w.config s₀ { s with adapterType := bootAdapterType s w.config } :=
      h.congr rfl rfl rfl
    refine Spec.update_bind h' (boots_bind (Q := fun _ t => ∃ tr, t =
      { s with adapterType := bootAdapterType s w.config, trace := tr }) h' ?_ ?_)
    · exact Spec.ite (fun _ => boots_initPir h') fun _ => Spec.ret ⟨_, rfl⟩
    · rintro ok t ht ⟨tr, rfl⟩
      exact Spec.ite (fun _ => Spec.ret ⟨_, rfl⟩) fun _ => boots_fatal ht
  · exact boots_bind h (boots_fail h) fun _ _ ht _ => boots_fatal ht

/-- A boot that comes up has an adapter of the stored type. -/
theorem boots_retyped {s₀ d : Node} {raw : UInt8}
    (hs : s₀ = (d.powerOn w.config).emit (.input .boot))
    (hp : bootsInDevMode w.config s₀.nvs = false) (ha : s₀.nvs.adapterType = some raw)
    (h0 : raw ≠ 0) :
    Boots w s₀ s₀ (initSubsystems w) fun _ t => t.adapterType = adapterTypeFromEEPROM raw := by
  have h := BootFrame.refl w.config s₀
  refine Spec.update_bind (h.congr rfl rfl rfl) ?_
  rw [hp]
  refine boots_bind (h.congr rfl rfl rfl)
    (boots_bootstrapPeers ⟨h.congr rfl rfl rfl, rfl, hp.symm⟩) ?_
  rintro _ _ h₁ ⟨p, tr₁, rfl, -⟩
  -- A type is stored, so that the default is not.
  have hstored : s₀.nvs.adapterType.getD 0 = raw := by rw [ha]; rfl
  refine boots_bind (Q := fun _ t => ∃ tr, t = { s₀ with
    eeprom := { s₀.eeprom with isDevMode := false }
    nvs := { s₀.nvs with peer := p }
    trace := tr }) h₁ ?_ ?_
  · refine Spec.read_bind (Spec.ite (fun _ => Spec.ret ⟨_, rfl⟩) fun _ => ?_)
    exact Spec.ite (fun hc => absurd (hstored.symm.trans hc) h0) fun _ => Spec.ret ⟨_, rfl⟩
  rintro _ _ h₂ ⟨tr₂, rfl⟩
  refine boots_bind h₂ (boots_createAdapter_type h₂) ?_
  rintro _ _ h₃ ⟨tr₃, rfl⟩
  have htype : bootAdapterType { s₀ with
      eeprom := { s₀.eeprom with isDevMode := false }
      nvs := { s₀.nvs with peer := p }
      trace := tr₂ } w.config = adapterTypeFromEEPROM raw := by
    unfold bootAdapterType
    rw [if_neg (by simp), hstored]
  refine boots_bind h₃ (boots_initMesh h₃ rfl rfl hp.symm ?_) ?_
  · rw [hs]
    rfl
  rintro _ t ht ⟨v, r, m, tr₄, priv, pub, rfl, -⟩
  exact Spec.update (ht.congr rfl rfl rfl) htype

/-- The byte that a command stores stands for the type that it carries. -/
theorem adapterTypeFromEEPROM_stored (raw : UInt8) :
    adapterTypeFromEEPROM (adapterTypeToEEPROM (adapterTypeFromEEPROM raw)) =
      adapterTypeFromEEPROM raw := by
  by_cases h : raw = 0xFF
  · subst h
    decide
  · simp [adapterTypeFromEEPROM, adapterTypeToEEPROM, h]

/-- A type other than zero is not stored as zero. -/
theorem stored_ne_zero {raw : UInt8} (h0 : raw ≠ 0) :
    adapterTypeToEEPROM (adapterTypeFromEEPROM raw) ≠ 0 := by
  by_cases h : raw = 0xFF
  · subst h
    decide
  · simpa [adapterTypeFromEEPROM, adapterTypeToEEPROM, h] using h0

/-- A device that stored another type and boots has an adapter of that type, if it comes up. -/
theorem adapterType_of_boot {b : Board} {d : Device} {e : Env} {raw : UInt8}
    (hp : bootsInDevMode b.config d.node.nvs = false)
    (ha : d.node.nvs.adapterType = some (adapterTypeToEEPROM (adapterTypeFromEEPROM raw)))
    (h0 : raw ≠ 0) (hrun : (Device.step b d (e, .boot)).status = .running) :
    (Device.step b d (e, .boot)).node.adapterType = adapterTypeFromEEPROM raw := by
  have hboot : Boots (b.world e) ((d.node.powerOn b.config).emit (.input .boot))
      ((d.node.powerOn b.config).emit (.input .boot)) (initSubsystems (b.world e)) _ :=
    boots_retyped rfl hp ha (stored_ne_zero h0)
  have hstep : Device.step b d (e, .boot) =
      Device.ofResult
        (initSubsystems (b.world e) ((d.node.powerOn b.config).emit (.input .boot))) :=
    rfl
  rw [hstep] at hrun ⊢
  cases hres : initSubsystems (b.world e) ((d.node.powerOn b.config).emit (.input .boot)) with
  | ok a t => exact (wp_ok hres hboot).2.trans (adapterTypeFromEEPROM_stored raw)
  | error h t =>
    rw [hres] at hrun
    cases hrun

/-! ### The way of a command -/

section

variable {stationAt : Mac → MeshStation} {master src : Mac} {relays : List Mac}

/-- The frame `m` that `src` sent to the first argument after it is passed on by the stations of the
list, one after the other, and reaches `target` as `m'` from `last`. -/
inductive Descends (stationAt : Mac → MeshStation) (target : Mac) :
    Mac → Mac → Message → List Mac → Mac → Message → Prop
  | arrive (src : Mac) (m : Message) : Descends stationAt target src target m [] src m
  | forward {src hop next last : Mac} {m m' : Message} {l : List Mac}
      (hs : (stationAt hop).does (.rx src m) = [.tx next m.forwarded])
      (h : Descends stationAt target hop next m.forwarded l last m') :
      Descends stationAt target src hop m (hop :: l) last m'

/-- **A frame descends over the stations of its route**, in order. -/
theorem descends (src : Mac) {pre post : List Mac} (hp : m.path = pre ++ post) (hnd : m.path.Nodup)
    (hlen : m.routeLen.toNat ≤ maxHops) (hb : target ≠ broadcastMac) (hm : GoesUp m target)
    (hh : m.hopCount.toNat = pre.length)
    (hf : ∀ hop ∈ m.path, Forwards (stationAt hop) target hop)
    (hr : ∀ pre hop post, m.path = pre ++ hop :: post →
      RadioTakes (stationAt hop).world (stationAt hop).node (post.headD target))
    (hpass : ∀ hop ∈ m.path, passesChecks (stationAt hop).world (stationAt hop).node m = true) :
    ∃ last m', Descends stationAt target src (post.headD target) m post last m' ∧
      m' = { m with hopCount := m'.hopCount } ∧ m'.hopCount.toNat = m.path.length := by
  -- by induction on the part of the route that is ahead, with the part behind in the hop count
  induction post generalizing src pre m with
  | nil =>
    refine ⟨src, m, .arrive src m, rfl, ?_⟩
    rw [hh, hp, List.append_nil]
  | cons hop post ih =>
    have hin : hop ∈ m.path := by
      rw [hp]
      exact List.mem_append_right _ List.mem_cons_self
    have hdoes : (stationAt hop).does (.rx src m) = [.tx (post.headD target) m.forwarded] :=
      does_forward (hf hop hin) hm hb hp hnd hlen hh (hpass hop hin) (hr pre hop post hp)
    have hlt : pre.length < maxHops := by
      have := Message.path_length hlen
      rw [hp, List.length_append, List.length_cons] at this
      omega
    -- forwarding counts one hop more
    have hcount : m.forwarded.hopCount.toNat = (pre ++ [hop]).length := by
      simp only [maxHops] at hlt
      show (m.hopCount + 1).toNat = _
      rw [UInt8.toNat_add, hh, List.length_append, List.length_singleton]
      show (pre.length + 1) % 256 = _
      omega
    have hp' : m.forwarded.path = (pre ++ [hop]) ++ post := by
      rw [List.append_assoc]
      exact hp
    obtain ⟨last, m', hdesc, hm', hc⟩ := ih (m := m.forwarded) hop hp' hnd hlen
      ⟨hm.messageType, hm.targetMac⟩ hcount hf hr hpass
    exact ⟨last, m', .forward hdoes hdesc, hm', hc⟩

/-- The relays of a recorded path, and that the radio of each station takes a frame for the next
one on the way down. -/
structure StandingRoute (stationAt : Mac → MeshStation) (master target : Mac)
    (relays : List Mac) : Prop where
  nodup : relays.Nodup
  forwards : ∀ hop ∈ relays, Forwards (stationAt hop) target hop
  first : RadioTakes (stationAt master).world (stationAt master).node (relays.reverse.headD target)
  takes : ∀ pre hop post, relays.reverse = pre ++ hop :: post →
    RadioTakes (stationAt hop).world (stationAt hop).node (post.headD target)

/-- A master on the serial line of the server. -/
structure Gateway (x : MeshStation) (master : Mac) : Prop where
  running : x.device.status = .running
  deviceMac : x.node.deviceMac = master
  serial : x.node.adapterType = AdapterType.serial

/-- The input of a step does not bear on what a master sends in it. -/
theorem Instructs.input {x : MeshStation} {i : Input}
    (h : Instructs x.world x.node target type data frame keys path pathLen) :
    Instructs x.world (x.device.inputNode i) target type data frame keys path pathLen := by
  have hb : (x.device.inputNode i).buildsDownlink target type data =
      x.node.buildsDownlink target type data := Node.buildsDownlink_congr rfl rfl
  have ht := Node.drawn_txState_congr (s := x.node) (t := x.device.inputNode i) rfl
  refine ⟨h.isMaster, h.flash, ?_, h.hasKeys, ?_, h.route, h.isRelayed, h.length_le⟩
  · rw [hb, ht]
    exact h.guarded
  · rw [hb]
    exact h.isSealed

/-- The adapter takes one frame from the line for one message of the server, however the line cuts
it up, and that frame is the command. -/
theorem command_of_line {msg : Message} {raw : UInt8} (ownMac : Mac) (h : Retypes msg target raw) :
    ∃ cmd, Retypes cmd target raw ∧ cmd.data = msg.data ∧
      ∀ chunks, chunks.flatten = SerialAdapter.framed (SerialFraming.encoded msg) →
        (SerialAdapter.loop {} chunks).1.map (SerialFraming.decode ownMac) = [some cmd] := by
  obtain ⟨cmd, hdec, hres⟩ := SerialFraming.decode_encoded ownMac (.inr h.messageType)
  have hbyte : ∀ i, cmd.byte i = msg.byte i := fun i => by
    unfold Message.byte
    rw [hres.data]
  refine ⟨cmd, ⟨?_, ?_, ?_, ?_, ?_, ?_⟩, hres.data, fun chunks hc => ?_⟩
  · rw [hres.messageType, h.messageType]
  · rw [hres.dataType, h.dataType]
  · rw [hres.targetMac]
    exact h.unicast
  · rw [hbyte, h.opcode]
  · rw [Message.commandTarget, hres.data]
    exact h.commandTarget
  · rw [hbyte, h.type]
  · have hlen := (SerialFraming.encode_line msg).2
    have hmax : maxPayload < 65536 := by decide
    have hpay := Framing.payloads_frames hmax [SerialFraming.encoded msg] (by simpa using hlen)
    rw [List.map_singleton, List.flatten_singleton] at hpay
    rw [SerialAdapter.loop_eq_payloads, hc,
      show SerialAdapter.framed _ = Framing.frame (SerialFraming.encoded msg) from rfl, hpay,
      List.map_singleton, hdec]

/-- What a master seals for a node: a data frame of its own for that node, not relayed yet. -/
structure Downlink (master target : Mac) (type : AdapterType) (frame : Message) : Prop where
  originMac : frame.originMac = master
  goesUp : GoesUp frame target
  hopCount : frame.hopCount.toNat = 0
  dataType : frame.dataType = type

theorem Instructs.downlink {w : World} {s : Node}
    (h : Instructs w s target type data frame keys path pathLen) (hmac : s.deviceMac = master) :
    Downlink master target type frame := by
  obtain ⟨⟨cipher, tag⟩, -, hframe⟩ := Option.map_eq_some_iff.1 h.isSealed
  have hown : s.drawn.deviceMac = master := s.drawn_sameDevice.deviceMac.trans hmac
  rw [← hframe]
  exact ⟨hown, ⟨rfl, rfl⟩, rfl, rfl⟩

/-- What goes up or down a path is still such a frame, apart from the hops. -/
theorem Downlink.goesUp_relayed {m : Message} (h : Downlink master target type frame)
    (hm : Message.RelayOf frame m) : GoesUp m target := by
  rw [Message.relayOf_iff.1 hm]
  exact ⟨h.goesUp.messageType, h.goesUp.targetMac⟩

/-- **The frame descends over the relays of the recorded path**, from the last one to the first. -/
theorem descends_recorded {w : World} {s : Node}
    (h : Instructs w s target type data frame keys path pathLen)
    (hd : Downlink master target type frame)
    (hrelays : ((List.finRange maxHops).take pathLen.toNat).map (routeHop path) = relays)
    (hroute : StandingRoute stationAt master target relays) (hb : target ≠ broadcastMac)
    (hpass : ∀ mac ∈ relays,
      passesChecks (stationAt mac).world (stationAt mac).node frame = true) :
    (withReversedRoute frame path pathLen h.length_le).hop ⟨0, by decide⟩ =
        relays.reverse.headD target ∧
      ∃ last arrived, Descends stationAt target master (relays.reverse.headD target)
          (withReversedRoute frame path pathLen h.length_le) relays.reverse last arrived ∧
        Message.RelayOf frame arrived ∧ arrived.hopCount.toNat = relays.length := by
  set sent := withReversedRoute frame path pathLen h.length_le with hsent
  have hpath : sent.path = relays.reverse := by
    rw [← hrelays]
    exact path_withReversedRoute frame path h.length_le
  have hin : ∀ hop ∈ sent.path, hop ∈ relays := fun hop hhop => by
    rw [hpath] at hhop
    exact List.mem_reverse.1 hhop
  have hsplit : sent.path = [] ++ relays.reverse := hpath
  -- the frame goes down the path hop by hop
  obtain ⟨last, arrived, hdesc, harr, hhop⟩ := descends master hsplit
    (by rw [hpath]; exact List.nodup_reverse.2 hroute.nodup) h.length_le hb
    ⟨hd.goesUp.messageType, hd.goesUp.targetMac⟩ hd.hopCount
    (fun hop hh => hroute.forwards hop (hin hop hh))
    (fun pre hop post hp => hroute.takes pre hop post (hpath.symm.trans hp))
    (fun hop hh => hpass hop (hin hop hh))
  refine ⟨?_, last, arrived, hdesc, ?_, ?_⟩
  · have hget := sent.path_getElem? ⟨0, by decide⟩
    rw [if_pos (show 0 < sent.routeLen.toNat from h.isRelayed), hpath] at hget
    rw [List.headD_eq_head?_getD, List.head?_eq_getElem?]
    exact (congrArg (fun o => o.getD target) hget).symm
  · rw [harr]
    rfl
  · rw [hhop, hpath, List.length_reverse]

/-- **A command on the serial line re-types the leaf.**  The server writes one message to the line
of the master; the adapter takes one frame from it, however the line cuts it up; the master
transmits the sealed command once, to the last relay of the recorded path; it descends over the
relays, each of which transmits it once and does nothing else; the leaf opens it, stores the new
type and restarts; and the next boot that comes up has an adapter of that type.  The leaf is a
production device, and the type byte is not zero.  The master has recorded a path of one relay at
least to the leaf, shares its keys, and seals under a number above the last one; every radio takes
the frame for the next station; and at every station on the way the frame is of this version and no
replay. -/
theorem command_obeyed {msg : Message} {raw : UInt8} (hmsg : Retypes msg target raw) (h0 : raw ≠ 0)
    (hb : target ≠ broadcastMac) (hne : target ≠ master) (hgate : Gateway (stationAt master) master)
    (hsend : Instructs (stationAt master).world (stationAt master).node target AdapterType.serial
      msg.data frame keys path pathLen)
    (hrelays : ((List.finRange maxHops).take pathLen.toNat).map (routeHop path) = relays)
    (hroute : StandingRoute stationAt master target relays)
    (hleaf : Obeys (stationAt target) target master keys.kDown)
    (hcrypto : (stationAt target).world.crypto = (stationAt master).world.crypto)
    (hopens : (stationAt master).world.crypto.OpensSealed)
    (hprod : bootsInDevMode (stationAt target).board.config (stationAt target).node.nvs = false)
    (hpass : ∀ mac ∈ target :: relays,
      passesChecks (stationAt mac).world (stationAt mac).node frame = true) :
    ∃ cmd first sent last arrived out,
      (∀ chunks, chunks.flatten = SerialAdapter.framed (SerialFraming.encoded msg) →
        (SerialAdapter.loop {} chunks).1.map (SerialFraming.decode master) = [some cmd]) ∧
      (stationAt master).sends (.serial cmd) = [(first, sent)] ∧
      Descends stationAt target master first sent relays.reverse last arrived ∧
      arrived.hopCount.toNat = relays.length ∧ out = { arrived with data := msg.data } ∧
      (stationAt target).does (.rx last arrived) = [.espRestart,
        .nvs (.adapterType (adapterTypeToEEPROM (adapterTypeFromEEPROM raw))), .deliver out,
        .opened keys.kDown arrived] ∧
      ∃ d, Device.step (stationAt target).board (stationAt target).device
          ((stationAt target).env, .rx last arrived) = d ∧ d.status = .halted .espRestart ∧
        ∀ e, (Device.step (stationAt target).board d (e, .boot)).status = .running →
          (Device.step (stationAt target).board d (e, .boot)).node.adapterType =
            adapterTypeFromEEPROM raw := by
  obtain ⟨cmd, hcmd, hdata, hline⟩ := command_of_line master hmsg
  have hdown := hsend.downlink hgate.deviceMac
  obtain ⟨hfirst, last, arrived, hdesc, hrel, hhop⟩ :=
    descends_recorded hsend hdown hrelays hroute hb
      fun mac hmac => hpass mac (List.mem_cons_of_mem target hmac)
  -- The leaf opens what the relays left as it was.
  have harr := Message.relayOf_iff.1 hrel
  have hopen : openPayload (stationAt target).world.crypto keys.kDown arrived =
      some { arrived with data := msg.data } := by
    rw [hcrypto]
    have hsealed := openPayload_of_relay hrel (openPayload_sealPayload hopens hsend.isSealed)
    exact hsealed
  have hbytes : ∀ i, ({ arrived with data := msg.data } : Message).byte i = msg.byte i :=
    fun _ => rfl
  obtain ⟨hdoes, hstatus, hnvs⟩ := does_obey last hleaf (hdown.goesUp_relayed hrel)
    (by rw [harr]; exact hdown.originMac)
    (by rw [harr]; exact hpass target List.mem_cons_self) hopen
    (by rw [harr]; exact hdown.dataType) (by rw [hbytes, hmsg.opcode]) hmsg.commandTarget
    (by rw [hbytes, hmsg.type])
  refine ⟨cmd, _, _, last, arrived, _, hline, ?_, hdesc, hhop, rfl, hdoes, _, rfl, hstatus,
    fun e hrun => ?_⟩
  · have hsend' : Instructs (stationAt master).world ((stationAt master).device.inputNode
        (.serial cmd)) target AdapterType.serial cmd.data frame keys path pathLen := by
      rw [hdata]
      exact hsend.input
    rw [← hfirst]
    refine sends_command hgate.running hgate.serial hcmd hb ?_ hsend' ?_
    · rw [hgate.deviceMac]
      exact hne
    · rw [hfirst]
      exact hroute.first
  · refine adapterType_of_boot ?_ (by rw [hnvs]) h0 hrun
    rw [hnvs]
    exact hprod

end

namespace Sample

theorem retypeData_length : ([Opcode.configSet] ++ (mac 1).toList ++ [1]).length = 8 := rfl

/-- The payload that gives the leaf 1 a serial adapter. -/
def retypeData : Payload :=
  Bytes.blit (Bytes.zero 64) 0 (⟨[Opcode.configSet] ++ (mac 1).toList ++ [1], retypeData_length⟩ :
    Bytes 8)

/-- The message of the server. -/
def retypeMessage : Message :=
  { Message.zero with
    messageType := MessageType.serialCmdBroadcast, dataType := AdapterType.serial
    targetMac := mac 1, data := retypeData }

/-- The leaves 1, 2 and 3, and the master 7 that recorded the path of the leaf 1. -/
def commandNode (n : UInt8) : Node :=
  if n = 7 then { recordingMaster with adapterType := AdapterType.serial } else leafNode n

/-- The stations between the server and the leaf 1. -/
def commandStation (m : Mac) : MeshStation :=
  ⟨board, ⟨commandNode m.head, .running⟩, env m.head 100⟩

/-- The frame that the master seals for the leaf 1. -/
def commandFrame : Message :=
  let built := (commandNode 7).buildsDownlink (mac 1) AdapterType.serial retypeData
  { built with
    data := built.data.map (· ^^^ (sharedKeys 1).kDown.head)
    authTag := tag (sharedKeys 1).kDown (buildNonce built) built.data }

theorem standing_route : StandingRoute commandStation (mac 7) (mac 1) [mac 2, mac 3] := by
  refine ⟨by decide, fun hop hin => ?_, ⟨by decide, rfl, .inr rfl⟩, fun pre hop post hp => ?_⟩
  · simp only [List.mem_cons, List.not_mem_nil, or_false] at hin
    rcases hin with rfl | rfl
    · exact ⟨rfl, rfl, rfl, by decide, by decide⟩
    · exact ⟨rfl, rfl, rfl, by decide, by decide⟩
  · have hp' : [mac 3, mac 2] = pre ++ hop :: post := hp
    rcases pre with _ | ⟨a, _ | ⟨b, pre⟩⟩
    · obtain ⟨rfl, rfl⟩ := List.cons.inj hp'
      exact ⟨by decide, rfl, .inr rfl⟩
    · obtain ⟨rfl, hp''⟩ := List.cons.inj hp'
      obtain ⟨rfl, rfl⟩ := List.cons.inj hp''
      exact ⟨by decide, rfl, .inr rfl⟩
    · obtain ⟨-, hp''⟩ := List.cons.inj hp'
      obtain ⟨-, hnil⟩ := List.cons.inj hp''
      exact absurd hnil (by simp)

end Sample

set_option maxRecDepth 100000 in
/-- The server gives the leaf 1 a serial adapter, by way of the leaves 3 and 2. -/
theorem command_obeyed_two_relays : ∃ cmd first sent last arrived out,
    (∀ chunks, chunks.flatten =
        SerialAdapter.framed (SerialFraming.encoded Sample.retypeMessage) →
      (SerialAdapter.loop {} chunks).1.map (SerialFraming.decode (Sample.mac 7)) = [some cmd]) ∧
    (Sample.commandStation (Sample.mac 7)).sends (.serial cmd) = [(first, sent)] ∧
    Descends Sample.commandStation (Sample.mac 1) (Sample.mac 7) first sent
      [Sample.mac 3, Sample.mac 2] last arrived ∧
    arrived.hopCount.toNat = 2 ∧ out = { arrived with data := Sample.retypeData } ∧
    (Sample.commandStation (Sample.mac 1)).does (.rx last arrived) = [.espRestart,
      .nvs (.adapterType 1), .deliver out, .opened (Sample.sharedKeys 1).kDown arrived] ∧
    ∃ d, Device.step Sample.board (Sample.commandStation (Sample.mac 1)).device
        (Sample.env 1 100, .rx last arrived) = d ∧ d.status = .halted .espRestart ∧
      ∀ e, (Device.step Sample.board d (e, .boot)).status = .running →
        (Device.step Sample.board d (e, .boot)).node.adapterType = AdapterType.serial := by
  have hmsg : Retypes Sample.retypeMessage (Sample.mac 1) 1 :=
    ⟨rfl, rfl, by decide, by decide, by decide, by decide⟩
  have hsend : Instructs (Sample.commandStation (Sample.mac 7)).world
      (Sample.commandStation (Sample.mac 7)).node (Sample.mac 1) AdapterType.serial
      Sample.retypeMessage.data Sample.commandFrame (Sample.sharedKeys 1) Sample.recordedPath 2 :=
    ⟨rfl, fun _ _ => rfl, by decide, by decide, rfl, by decide, by decide, by decide⟩
  have hleaf : Obeys (Sample.commandStation (Sample.mac 1)) (Sample.mac 1) (Sample.mac 7)
      (Sample.sharedKeys 1).kDown := ⟨rfl, rfl, rfl, rfl, by decide, by decide, fun _ => rfl⟩
  have hpath : ((List.finRange maxHops).take (2 : UInt8).toNat).map
      (routeHop Sample.recordedPath) = [Sample.mac 2, Sample.mac 3] := by decide
  refine command_obeyed hmsg (by decide) (by decide) (by decide) ⟨rfl, rfl, rfl⟩ hsend hpath
    Sample.standing_route hleaf rfl Sample.opensSealed rfl fun m hm => ?_
  simp only [List.mem_cons, List.not_mem_nil, or_false] at hm
  rcases hm with rfl | rfl | rfl <;> decide

end LatticeMesh
