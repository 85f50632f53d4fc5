import LatticeMesh.PeerKeys
import LatticeMesh.QuietFrames
import LatticeMesh.RadioPeers

/-!
# The two roles of a node

A leaf passes frames on: enrollment requests and route reports toward the master, beacons, and data
frames in every direction.  A master does none of this; it takes frames for itself.  Only an
acknowledgement for another node is passed on in both roles.

## Main definitions

* `isRoleBlind` — the frames that a leaf handles as a master does.
* `Node.relays` — what a node passed on, and what it has scheduled to be passed on.
* `MasterSilent` — a program by which a master passes nothing on.

## Main results

* `dispatchMessageTo_roleBlind` — **a frame that a leaf handles as a master does changes nothing**,
  unless it is an acknowledgement for another node.
* `rolePart_dispatchMessageTo` — **by no other frame does a master pass anything on.**
-/

namespace LatticeMesh

open EffectSpec

variable {w : World} {s t : Node} {m : Message} {cb : Message → MeshM Unit}

/-! ### Frames that both roles handle alike -/

/-- The node in the role of a master. -/
def Node.asMaster (s : Node) : Node := { s with isMaster := true }

theorem Node.asMaster_of_isMaster (h : s.isMaster = true) : s.asMaster = s := by
  show ({ s with isMaster := true } : Node) = s
  rw [← h]

/-- The device in the role of a master. -/
def Device.asMaster (d : Device) : Device := { d with node := d.node.asMaster }

/-- Whether a data frame is a broadcast that reconfigures: no node takes such a command. -/
def isBroadcastCommand (s : Node) (m : Message) : Bool :=
  m.targetMac = broadcastMac && m.targetMac ≠ s.deviceMac && isConfigOpcode m

/-- Whether a data frame is for another node and has used up its hops. -/
def hasUsedUpHops (s : Node) (m : Message) : Bool :=
  m.targetMac ≠ s.deviceMac && m.hopCount.toNat ≥ maxHops

/-- Whether a leaf refuses an acknowledgement: it fails the checks, or its sender finds no room. -/
def refusesJoinAck (w : World) (s : Node) (m : Message) : Bool :=
  !joinAckAccepted w.config s.enrollment m || s.peers.Refuses m.originMac

/-- Whether a leaf handles a frame as a master does, before the receive callback is linked: an
acknowledgement that is for another node or refused, a beacon that is not heeded, a data frame that
is a command in a broadcast or has used up its hops, or a frame of a type that nobody handles. -/
def isRoleBlind (w : World) (s : Node) (m : Message) : Bool :=
  m.messageType ≠ MessageType.enrollment && m.messageType ≠ MessageType.routeReport &&
    (m.messageType ≠ MessageType.joinAck || m.targetMac ≠ s.deviceMac || refusesJoinAck w s m) &&
    (m.messageType ≠ MessageType.masterBeacon || !heedsBeacon w s m) &&
    (m.messageType ≠ MessageType.adapterData || isBroadcastCommand s m || hasUsedUpHops s m)

/-- Whether a frame is an acknowledgement for another node, which every node passes on. -/
def isForeignAck (s : Node) (m : Message) : Bool :=
  m.messageType = MessageType.joinAck && m.targetMac ≠ s.deviceMac

/-- The reception of the frame itself does not matter. -/
theorem isRoleBlind_received {srcMac : Mac} (h : isRoleBlind w s m = true) :
    isRoleBlind w (s.received w srcMac m) m = true := by
  have hfull : decide ((s.received w srcMac m).peers.Refuses m.originMac) =
      decide (s.peers.Refuses m.originMac) := by
    refine decide_eq_decide.2 ?_
    rw [PeerRegistry.Refuses, PeerRegistry.find_eq_none_iff_keyOf, Node.received,
      PeerRegistry.keyOf_updateLastSeen, ← PeerRegistry.find_eq_none_iff_keyOf]
    exact and_congr_right fun _ => by rw [PeerRegistry.count_updateLastSeen]
  unfold isRoleBlind refusesJoinAck at h ⊢
  rw [hfull]
  exact h

/-- An acknowledgement for another node is handled alike in both roles. -/
theorem dispatchJoinAck_asMaster (h : m.targetMac ≠ s.deviceMac) :
    ∃ t, dispatchJoinAck w m s = .ok () t ∧ dispatchJoinAck w m s.asMaster = .ok () t.asMaster ∧
      t.enrollment = s.enrollment ∧ t.peers = s.peers := by
  -- the send reads the radio alone
  have hsend : ∀ u : Node, sendBroadcast w (m.relayed s.deviceMac) u = .ok ()
      (if u.radioPeers.contains broadcastMac && w.sendOk broadcastMac then
        u.emit (.tx broadcastMac (m.relayed s.deviceMac)) else u) := by
    intro u
    have hwp : wp (sendBroadcast w (m.relayed s.deviceMac)) (fun _ t => t =
        if u.radioPeers.contains broadcastMac && w.sendOk broadcastMac then
          u.emit (.tx broadcastMac (m.relayed s.deviceMac)) else u) (fun _ _ => False) u := by
      unfold sendBroadcast espNowSend
      rw [wp_bind, wp_bind, wp_get]
      split
      · rw [wp_bind, wp_emit]
        rfl
      · exact Eq.refl u
    obtain ⟨⟨⟩, t, hr, ht⟩ := exists_ok hwp
    rw [hr, ht]
  have hrun : ∀ u : Node, u.deviceMac = s.deviceMac → dispatchJoinAck w m u = .ok ()
      (if m.originMac = s.deviceMac ∨ m.hopCount.toNat ≥ maxHops then u
      else if u.radioPeers.contains broadcastMac && w.sendOk broadcastMac then
        u.emit (.tx broadcastMac (m.relayed s.deviceMac)) else u) := by
    intro u hu
    show (if _ then _ else _ : MeshM Unit) u = _
    rw [hu, if_neg h]
    split
    · rfl
    · exact hsend u
  -- so both nodes do the same, and neither touches the enrollment
  refine ⟨_, hrun s rfl, ?_, ?_, ?_⟩
  · rw [hrun s.asMaster rfl]
    show EStateM.Result.ok () (if _ then _ else if (s.radioPeers.contains broadcastMac &&
      w.sendOk broadcastMac) then _ else _) = _
    split
    · rfl
    · split <;> rfl
  all_goals
    split
    · rfl
    · split <;> rfl

/-- A master ignores an acknowledgement for itself. -/
theorem dispatchJoinAck_of_isMaster (hm : s.isMaster = true) (h : m.targetMac = s.deviceMac) :
    dispatchJoinAck w m s = .ok () s := by
  show (if _ then _ else _ : MeshM Unit) s = _
  rw [if_pos h, if_pos hm]
  rfl

theorem dispatchMessageTo_joinAck (h : m.messageType = MessageType.joinAck) :
    dispatchMessageTo w cb m = dispatchJoinAck w m := by
  unfold dispatchMessageTo dispatchMessage
  rw [h]
  rfl

/-- An acknowledgement that is refused changes nothing. -/
theorem processJoinAck_of_refuses (h : refusesJoinAck w s m = true) :
    processJoinAck w m s = .ok () s := by
  simp only [refusesJoinAck, Bool.or_eq_true, Bool.not_eq_true', decide_eq_true_eq] at h
  show (if _ then _ else _ : MeshM Unit) s = _
  by_cases hacc : joinAckAccepted w.config s.enrollment m = true
  · rw [if_pos hacc]
    have hfull : s.peers.Refuses m.originMac := h.resolve_left (by simp [hacc])
    have hkey : s.peers.keyEstablished m.originMac = false := by
      unfold PeerRegistry.keyEstablished
      rw [hfull.1]
    have hreg : registerPeerWithKey w m.originMac m.enrollmentPublicKey false s = .ok false s := by
      show (if _ then _ else if _ then _ else if _ then _ else _ : MeshM Bool) s = _
      rw [if_neg (by simp [hkey]), if_neg (by simp [hfull.1]), if_pos hfull.2]
      rfl
    rw [bind_ok hreg]
    rfl
  · rw [if_neg hacc]
    rfl

/-- A beacon of an origin that is not trusted is refused, and nothing is learned from it. -/
theorem acceptBeaconOrigin_of_not_trusts {mac : Mac} (h : trustsBeaconOrigin w s mac = false) :
    acceptBeaconOrigin w mac s = .ok false s := by
  simp only [trustsBeaconOrigin, Bool.or_eq_false_iff, Bool.not_eq_false',
    decide_eq_false_iff_not, ge_iff_le, UInt64.not_le] at h
  obtain ⟨⟨⟨hknown, hne⟩, hdual⟩, halive⟩ := h
  show (if _ then _ else _ : MeshM Bool) s = _
  rw [if_neg (by simp [hknown]), if_neg, if_neg, if_pos halive]
  · rfl
  · cases hd : s.dualMasterMode with
    | false => simp
    | true =>
      simp only [hd, Bool.true_and, Bool.or_eq_false_iff, Bool.not_eq_false'] at hdual
      simp [hdual.1]
  · cases hd : s.dualMasterMode with
    | false => simp [hne]
    | true => simp only [hd, Bool.true_and, Bool.or_eq_false_iff] at hdual; simp [hne, hdual.2]

/-- A beacon that is not heeded is dropped by any node. -/
theorem processBeacon_of_not_heeds (h : heedsBeacon w s m = false) :
    processBeacon w m s = .ok () s := by
  show (if _ then _ else _ : MeshM Unit) s = _
  split
  · rfl
  · rename_i hno
    simp only [not_or, Bool.not_eq_true', Bool.not_eq_false, not_le] at hno
    have htrust : trustsBeaconOrigin w s m.originMac = false := by
      simpa [heedsBeacon, hno.1, hno.2.1, hno.2.2] using h
    rw [bind_ok (acceptBeaconOrigin_of_not_trusts htrust)]
    rfl

/-- A command in a broadcast is dropped by any node: the leaf wants it sealed, the master wants it
addressed. -/
theorem processAdapterDataTo_of_broadcastCommand (ht : m.messageType = MessageType.adapterData)
    (h : isBroadcastCommand s m = true) : processAdapterDataTo w cb m s = .ok () s := by
  simp only [isBroadcastCommand, Bool.and_eq_true, decide_eq_true_eq] at h
  obtain ⟨⟨hbc, hne⟩, hcmd⟩ := h
  have hself : (decide (m.targetMac = s.deviceMac)) = false := by simpa using hne
  have hroute : s.routeDecision m = .notRouted := by
    simp [Node.routeDecision, classify, hbc]
  have hauth : authorize w m false s = .ok none s := by
    show (if _ then _ else _ : MeshM (Option Message)) s = _
    cases hm : s.isMaster with
    | true =>
      simp only [isSealedType, ht]
      rfl
    | false =>
      have hconf : configAllowed s.enrollment m false = false := by simp [configAllowed, hcmd]
      simp only [Bool.false_and, Bool.and_false, Bool.false_eq_true, if_false, pure_bind,
        Bool.or_self, hconf]
      rfl
  show (if _ then _ else _ : MeshM Unit) s = _
  rw [if_pos hroute, hself, deliverAdapterDataTo, bind_ok hauth]
  rfl

/-- A data frame that has used up its hops goes no further. -/
theorem routeDecision_of_usedUpHops (h : m.hopCount.toNat ≥ maxHops) :
    s.routeDecision m = .notRouted ∨ s.routeDecision m = .dropHopLimitExceeded ∨
      s.routeDecision m = .flood := by
  unfold Node.routeDecision classify
  simp only [if_pos h]
  split
  · exact .inl rfl
  split
  · exact .inr (.inl rfl)
  split
  · split
    · exact .inr (.inl rfl)
    · exact .inr (.inr rfl)
  · exact .inr (.inr rfl)

/-- A data frame for another node that has used up its hops is dropped by any node, as long as no
receive callback is linked. -/
theorem processAdapterDataTo_of_usedUpHops (h : hasUsedUpHops s m = true) :
    processAdapterDataTo w (fun _ => pure ()) m s = .ok () s := by
  simp only [hasUsedUpHops, Bool.and_eq_true, decide_eq_true_eq] at h
  obtain ⟨hne, hhops⟩ := h
  have hself : (decide (m.targetMac = s.deviceMac)) = false := by simpa using hne
  have hflood : relayDownlink w m s = .ok () s := by
    show (if _ then _ else _ : MeshM Unit) s = _
    rw [if_pos hhops]
    rfl
  have hauth : wp (authorize w m false) (fun _ t => t = s) (fun _ _ => False) s := by
    unfold authorize
    rw [wp_bind, wp_get]
    simp only [Bool.and_false, Bool.false_and, Bool.false_eq_true, if_false, pure_bind]
    split
    · exact Eq.refl s
    · split <;> exact Eq.refl s
  show (if _ then _ else _ : MeshM Unit) s = _
  rcases routeDecision_of_usedUpHops (s := s) hhops with hroute | hroute | hroute
  · obtain ⟨o, t, ho, ht⟩ := exists_ok hauth
    rw [ht] at ho
    rw [if_pos hroute, hself, deliverAdapterDataTo, bind_ok ho]
    cases o with
    | none => rfl
    | some opened =>
      show (if _ then _ else _ : MeshM Unit) s = _
      split
      · exact hflood
      · rfl
  · rw [hroute]
    rfl
  · rw [hroute]
    exact hflood

/-- **A frame that both roles handle alike changes nothing**, unless it is an acknowledgement for
another node. -/
theorem dispatchMessageTo_roleBlind (h : isRoleBlind w s m = true) (hf : isForeignAck s m = false) :
    dispatchMessageTo w (fun _ => pure ()) m s = .ok () s := by
  simp only [isRoleBlind, Bool.and_eq_true, Bool.or_eq_true, decide_eq_true_eq,
    Bool.not_eq_true'] at h
  obtain ⟨⟨⟨⟨hne, hnr⟩, hjoin⟩, hbeacon⟩, hdata⟩ := h
  unfold dispatchMessageTo dispatchMessage
  by_cases hd : m.messageType = MessageType.adapterData
  · rw [if_pos hd]
    rcases hdata with (hd' | hcmd) | hhops
    · exact absurd hd hd'
    · exact processAdapterDataTo_of_broadcastCommand hd hcmd
    · exact processAdapterDataTo_of_usedUpHops hhops
  rw [if_neg hd, if_neg hnr, if_neg hne]
  by_cases hj : m.messageType = MessageType.joinAck
  · have hto : m.targetMac = s.deviceMac := by simpa [isForeignAck, hj] using hf
    have hrefuse : refusesJoinAck w s m = true :=
      hjoin.resolve_left fun h => h.elim (absurd hj) (absurd hto)
    rw [if_pos hj]
    show (if _ then _ else _ : MeshM Unit) s = _
    rw [if_pos hto]
    split
    · rfl
    · exact processJoinAck_of_refuses hrefuse
  rw [if_neg hj]
  by_cases hb : m.messageType = MessageType.masterBeacon
  · rw [if_pos hb]
    exact processBeacon_of_not_heeds (hbeacon.resolve_left (absurd hb))
  · rw [if_neg hb, if_neg hd, if_neg hnr]
    rfl

/-! ### A master passes nothing on -/

/-- The frames that a node passed on: all that it sent but its own data frames.  Then the beacon
that waits to be passed on. -/
def Node.relays (s : Node) : List (Mac × Message) × Bool × Message × UInt64 :=
  (s.sentFrames.filter fun x =>
      x.2.messageType ≠ MessageType.adapterData || x.2.originMac ≠ s.deviceMac,
    s.relayPending, s.relayPendingMsg, s.relayPendingAt)

/-- The role of a node, its address, and its relays. -/
def Node.rolePart (s : Node) :
    Bool × Mac × List (Mac × Message) × Bool × Message × UInt64 :=
  (s.isMaster, s.deviceMac, s.relays)

instance quietFrame_rolePart : QuietFrame Node.rolePart := by
  refine ⟨fun {s t} h => ?_⟩
  simp only [Node.quietPart, Prod.mk.injEq] at h
  obtain ⟨hrelay, -, -, -, -, hsent⟩ := h
  have hmaster : t.isMaster = s.isMaster := congrArg RelayState.isMaster hrelay
  have hmac : t.deviceMac = s.deviceMac := congrArg RelayState.deviceMac hrelay
  have hpending : t.relayPending = s.relayPending := congrArg RelayState.relayPending hrelay
  have hmsg : t.relayPendingMsg = s.relayPendingMsg := congrArg RelayState.relayPendingMsg hrelay
  have hat : t.relayPendingAt = s.relayPendingAt := congrArg RelayState.relayPendingAt hrelay
  unfold Node.rolePart Node.relays
  rw [hmaster, hmac, hpending, hmsg, hat, hsent]

/-- The node is the master of that address and has those relays. -/
def MasterWith (p : Bool × Mac × List (Mac × Message) × Bool × Message × UInt64)
    (s : Node) : Prop :=
  s.isMaster = true ∧ s.rolePart = p

/-- The program leaves a master one, which passes nothing on. -/
abbrev MasterSilent {α : Type} (x : MeshM α) : Prop := ∀ p, Maintains (MasterWith p) x

variable {p : Bool × Mac × List (Mac × Message) × Bool × Message × UInt64}

theorem MasterWith.congr (h : t.rolePart = s.rolePart) (hs : MasterWith p s) : MasterWith p t :=
  ⟨(congrArg Prod.fst h).trans hs.1, h.trans hs.2⟩

/-- Programs that send nothing. -/
theorem masterSilent_of_keeps {α : Type} {x : MeshM α} (h : Keeps Node.rolePart x) :
    MasterSilent x := fun _ => h.maintains MasterWith.congr

/-- A data frame of this node is none that it passes on. -/
theorem masterWith_emit_own {dest : Mac} (ht : m.messageType = MessageType.adapterData)
    (ho : m.originMac = p.2.1) (hs : MasterWith p s) : MasterWith p (s.emit (.tx dest m)) := by
  refine ⟨hs.1, ?_⟩
  rw [← hs.2] at ho ⊢
  show (_, _, ((dest, m) :: s.sentFrames).filter _, _) = _
  rw [List.filter_cons_of_neg]
  · rfl
  · simp [ht, show m.originMac = (s.emit (.tx dest m)).deviceMac from ho]

theorem maintains_sendOwn {target deviceMac : Mac} (ht : m.messageType = MessageType.adapterData)
    (ho : m.originMac = p.2.1) :
    Maintains (MasterWith p) (sendMessage w target m deviceMac) := by
  have hsend : Maintains (MasterWith p) (espNowSend w target m) := by
    refine .read_bind fun s _ => .ite (fun _ => .bind ?_ fun _ => .ret _) fun _ => .ret _
    exact .update fun _ hs => masterWith_emit_own ht ho hs
  refine .ite (fun _ => .ret _) fun _ => .bind hsend fun ok => .ite (fun _ => .ret _) fun _ => ?_
  exact masterSilent_of_keeps (keeps_fail _ _ _ _) p

/-- A broadcast of adapter data of this node. -/
theorem masterSilent_broadcastAdapterData {type : AdapterType} {data : Payload}
    {deliverLocally : Bool} (hcb : ∀ m, MasterSilent (cb m)) :
    MasterSilent (broadcastAdapterData w type data deliverLocally cb) := by
  intro p s hs
  unfold broadcastAdapterData buildMessage
  rw [wp_bind, wp_bind]
  refine wp_mono _ (fun seq t ht => ?_) (fun _ _ hu => hs.congr hu)
    (keeps_nextSeqGuarded (f := Node.rolePart) s)
  rw [wp_bind, wp_get, wp_bind]
  have hte : MasterWith p t := hs.congr ht
  refine wp_mono _ (fun _ u hu => ?_) (fun _ _ hu => hte.congr hu)
    (keeps_event (f := Node.rolePart)
      (e := .built (builtMessage t type data MessageType.adapterData seq)) rfl rfl t)
  rw [wp_pure]
  have hown : (builtMessage t type data MessageType.adapterData seq).originMac = p.2.1 := by
    rw [← hte.2]
    rfl
  have hue : MasterWith p u := hte.congr hu
  have hrest : Maintains (MasterWith p) (do
      let s ← get
      broadcastToAllPeers w { builtMessage t type data MessageType.adapterData seq with
        targetMac := broadcastMac } s.peers s.deviceMac
      if deliverLocally then cb { builtMessage t type data MessageType.adapterData seq with
        targetMac := broadcastMac } else pure () : MeshM Unit) := by
    refine .read_bind fun v _ => .bind (.forM fun q _ => ?_) fun _ => ?_
    · exact .ite (fun _ => .ret _) fun _ => maintains_sendOwn rfl hown
    · exact .ite (fun _ => hcb _ p) fun _ => .ret _
  exact hrest u hue

/-- A master sends what an adapter hands over as a broadcast. -/
theorem masterSilent_transmitDispatch {type : AdapterType} {data : Payload} {selfOriginated : Bool}
    (hcb : ∀ m, MasterSilent (cb m)) :
    MasterSilent (transmitDispatch w type data selfOriginated cb) := by
  refine fun p => .read_bind fun s hs => .ite (fun _ => ?_) fun hl => absurd hs.1 hl
  exact masterSilent_broadcastAdapterData hcb p

/-- The control opcodes; one of them answers with a frame of this node. -/
theorem masterSilent_dispatchControlOp {transmitSelf : AdapterType → Payload → MeshM Unit}
    (ht : ∀ type data, MasterSilent (transmitSelf type data)) :
    MasterSilent (dispatchControlOp w transmitSelf m false) := by
  have hflash : ∀ (s : Node) v, ({ s with nvs := v } : Node).rolePart = s.rolePart := fun _ _ => rfl
  refine fun p => .ite (fun _ => ?_) fun _ => .ite (fun _ => ?_) fun _ =>
    .ite (fun _ => ?_) fun _ =>
    .ite (fun _ => ?_) fun _ => .ret _
  · refine .read_bind fun s _ => .ite (fun _ => .bind ?_ fun _ => .bind ?_ fun _ => .raise _)
      fun _ => .ret _
    · exact masterSilent_of_keeps (keeps_saveAny hflash _ _) p
    · exact masterSilent_of_keeps (keeps_event rfl rfl) p
  · refine .read_bind fun s _ => .ite (fun _ => ?_) fun _ => .ret _
    exact masterSilent_of_keeps (keeps_putAny hflash _ _) p
  · exact .read_bind fun s _ => .ite (fun _ => ht _ _ p) fun _ => .ret _
  · refine .read_bind fun s _ => .ite (fun _ => .ret _) fun _ => .bind ?_ fun _ => .ret _
    exact masterSilent_of_keeps (keeps_saveAny hflash _ _) p

theorem masterSilent_externalRecvCallback :
    ∀ (n : ℕ) (m : Message), MasterSilent (externalRecvCallback w n m)
  | 0, _ => fun _ => .ret _
  | n + 1, m => by
    have himpl : MasterSilent (onMeshDataImpl w m) := masterSilent_of_keeps keeps_onMeshDataImpl
    refine fun p => .bind (masterSilent_of_keeps (keeps_event rfl rfl) p) fun _ => ?_
    refine .read_bind fun s _ => .ite (fun _ => .bind ?_ fun _ => ?_) fun _ => ?_
    · exact masterSilent_dispatchControlOp (fun _ _ =>
        masterSilent_transmitDispatch (masterSilent_externalRecvCallback n)) p
    · exact .ite (fun _ => himpl p) fun _ => .ret _
    · exact .ite (fun _ => himpl p) fun _ => .ret _

/-- A master takes every data frame for itself. -/
theorem masterSilent_processAdapterDataTo (hcb : ∀ m, MasterSilent (cb m)) :
    MasterSilent (processAdapterDataTo w cb m) := by
  refine fun p => .read_bind fun s hs => .ite (fun _ => ?_) fun hroute => ?_
  · refine .bind (masterSilent_of_keeps (keeps_authorize _) p) fun r => ?_
    split
    · exact .ret _
    · refine .bind (hcb _ p) fun _ => .read_bind fun t ht => .ite (fun hl => ?_) fun _ => .ret _
      simp [ht.1] at hl
  · refine absurd ?_ hroute
    simp [Node.routeDecision, classify, hs.1]

/-- A master takes every route report for itself. -/
theorem masterSilent_processRouteReport (hcb : ∀ m, MasterSilent (cb m)) :
    MasterSilent (processRouteReport w m cb) := by
  refine fun p => .read_bind fun s hs => .ite (fun _ => ?_) fun hl => absurd hs.1 hl
  refine .bind (masterSilent_of_keeps (keeps_peerE2EKeys _) p) fun r => ?_
  split
  · exact .ret _
  refine .bind (masterSilent_of_keeps (keeps_openWith _) p) fun r => ?_
  split
  · exact .ret _
  refine .ite (fun _ => .ret _) fun _ =>
    .bind (masterSilent_of_keeps (keeps_verifyHops _ _ _) p) fun computed => ?_
  refine .ite (fun _ => .bind (.update fun _ hs => hs) fun _ => hcb _ p) fun _ => .ret _

/-- A master takes note of a beacon, but does not schedule its relay. -/
theorem masterSilent_processBeacon : MasterSilent (processBeacon w m) := by
  refine fun p => .read_bind fun s _ => .ite (fun _ => .ret _) fun _ => ?_
  refine .bind (masterSilent_of_keeps (keeps_acceptBeaconOrigin _) p) fun r => ?_
  refine .ite (fun _ => ?_) fun _ => .ret _
  refine .bind (masterSilent_of_keeps (keeps_warnOtherMaster _) p) fun _ => .update fun t ht => ?_
  have hno : (t.noteBeacon w m).scheduleRelay w m = t.noteBeacon w m := by
    unfold Node.scheduleRelay
    rw [if_pos (by simp [show (t.noteBeacon w m).isMaster = true from ht.1])]
  rw [hno]
  exact ht

/-- A master registers who asks for enrollment, and keeps the request for the server. -/
theorem masterSilent_processEnrollment : MasterSilent (processEnrollment w m) := by
  refine fun p => .read_bind fun s hs => .ite (fun _ => ?_) fun hl => absurd hs.1 hl
  refine .bind (masterSilent_of_keeps (keeps_registerPeerWithKey _ _ _) p) fun _ => ?_
  exact .read_bind fun t _ => .ite (fun _ => .update fun _ ht => ht) fun _ => .ret _

/-- **By no frame but an acknowledgement for another node does a master pass anything on.** -/
theorem rolePart_dispatchMessageTo (hcb : ∀ m, MasterSilent (cb m))
    (hf : isForeignAck s m = false) (hm : s.isMaster = true) :
    wp (dispatchMessageTo w cb m) (fun _ t => t.rolePart = s.rolePart)
      (fun _ t => t.rolePart = s.rolePart) s := by
  have hmaster : MasterWith s.rolePart s := ⟨hm, rfl⟩
  suffices h : wp (dispatchMessageTo w cb m) (fun _ t => MasterWith s.rolePart t)
      (fun _ t => MasterWith s.rolePart t) s from
    wp_mono _ (fun _ _ h => h.2) (fun _ _ h => h.2) h
  unfold dispatchMessageTo dispatchMessage
  by_cases hj : m.messageType = MessageType.joinAck
  · have hto : m.targetMac = s.deviceMac := by simpa [isForeignAck, hj] using hf
    rw [hj]
    show wp (dispatchJoinAck w m) _ _ s
    unfold wp
    rw [dispatchJoinAck_of_isMaster hm hto]
    exact hmaster
  refine Maintains.ite (fun _ => masterSilent_processAdapterDataTo hcb _) (fun hd => ?_) s hmaster
  refine .ite (fun _ => masterSilent_processRouteReport hcb _) fun hr => ?_
  refine .ite (fun _ => masterSilent_processEnrollment _) fun _ => .ite (absurd · hj) fun _ => ?_
  refine .ite (fun _ => masterSilent_processBeacon _) fun _ => ?_
  exact .ite (absurd · hd) fun _ => .ite (absurd · hr) fun _ => .ret _

end LatticeMesh
