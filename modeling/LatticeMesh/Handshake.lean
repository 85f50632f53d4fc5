import LatticeMesh.Approval
import LatticeMesh.KeyCache
import LatticeMesh.Reenrollment
import LatticeMesh.RelayTransparency
import LatticeMesh.SelfEnrollment
import LatticeMesh.UplinkPath

/-!
# The enrollment handshake

A leaf that is not enrolled asks with its public key; the request may pass any relays.  The master
registers the key and queues the request for the server.  When the server approves, the master
acknowledges with its own public key, and the leaf, once the acknowledgement has reached it,
registers that key.  From then on both find the same keys for each other, whatever else happens to
them, until one of them boots.

## Main definitions

* `RequestOf`, `AckFor` — what a request and an acknowledgement say, however often they were
  relayed.
* `Identity`, `HoldsKey` — a node with its own key pair, and one that has registered a key for an
  address.
* `Device.Parties` — two key pairs that agree on a shared secret.

## Main results

* `Device.holdsKey_run` — **a registered key and the own key pair stay until the next boot.**
* `Device.asks`, `Device.hears_request`, `Device.answers`, `Device.hears_ack` — the four steps.
* `Device.handshake` — **after the handshake both sides find the same keys for each other.**
-/

namespace LatticeMesh

open EffectSpec Relation

/-! ### What stays until the next boot -/

/-- A node at the address `own` with the key pair `priv`, `pub`; the keys it has cached are derived
from the registered ones. -/
structure Identity (c : Crypto) (own : Mac) (priv pub : Key) (s : Node) : Prop where
  deviceMac : s.deviceMac = own
  devicePrivateKey : s.enrollment.devicePrivateKey = priv
  devicePublicKey : s.enrollment.devicePublicKey = pub
  capacity : s.e2eKeys.capacity ≠ 0
  coherent : CacheCoherent c s

/-- Such a node that has registered the key `key` for the address `mac`. -/
structure HoldsKey (c : Crypto) (own : Mac) (priv pub : Key) (mac : Mac) (key : Key) (s : Node) :
    Prop extends Identity c own priv pub s where
  keyOf : s.peers.keyOf mac = some key
  isZero : key.isZero = false

section

variable {w : World} {c : Crypto} {s₀ s t : Node} {i : Input} {own mac : Mac} {priv pub key : Key}

theorem E2EKeyStore.capacity_resized (st : E2EKeyStore) (n : ℕ) :
    (st.setCapacity n).capacity = n := by
  unfold setCapacity
  split
  · exact Eq.symm ‹_›
  · rfl

theorem capacity_setIsMaster (s : Node) (v : Bool) : (s.setIsMaster v).e2eKeys.capacity ≠ 0 := by
  show (s.e2eKeys.setCapacity _).capacity ≠ 0
  rw [E2EKeyStore.capacity_resized]
  cases v
  · exact Nat.succ_ne_zero 1
  · exact Nat.succ_ne_zero 9

/-- The cache of derived keys has room after every change, if it had before. -/
theorem Effect.capacity (h : Effect w s₀ i s t) (hs : s.e2eKeys.capacity ≠ 0) :
    t.e2eKeys.capacity ≠ 0 := by
  cases h with
  | quiet h =>
    rw [← h]
    exact hs
  | role => exact capacity_setIsMaster s _
  | cacheKeys mac =>
    rw [E2EKeyStore.capacity_insert]
    exact hs
  | draw | build =>
    show s.drawn.e2eKeys.capacity ≠ 0
    rw [s.drawn_e2eKeys]
    exact hs
  | register _ _ hp =>
    rw [hp]
    exact hs
  | learnMaster mac =>
    rw [Node.saved_e2eKeys]
    exact hs
  | learnSecondary mac =>
    rw [Node.saved_e2eKeys]
    exact hs
  | storeEnrolled =>
    rw [Node.saved_e2eKeys]
    exact hs
  | _ => exact hs

/-- Every change keeps the address and the own key pair. -/
theorem Identity.effect (h : Identity w.crypto own priv pub s) (ht : Effect w s₀ i s t) :
    Identity w.crypto own priv pub t where
  deviceMac := ht.sameDevice.deviceMac.trans h.deviceMac
  devicePrivateKey := ht.sameDevice.devicePrivateKey.trans h.devicePrivateKey
  devicePublicKey := ht.sameDevice.devicePublicKey.trans h.devicePublicKey
  capacity := ht.capacity h.capacity
  coherent := h.coherent.effect ht

/-- Every change keeps a registered key. -/
theorem HoldsKey.effect (h : HoldsKey w.crypto own priv pub mac key s) (ht : Effect w s₀ i s t) :
    HoldsKey w.crypto own priv pub mac key t :=
  ⟨h.toIdentity.effect ht, ht.peerChange.keyOf h.keyOf h.isZero, h.isZero⟩

/-- The keys that such a node finds are derived from its own private and the registered key. -/
theorem HoldsKey.keysOf (h : HoldsKey c own priv pub mac key s) :
    s.keysOf c mac = e2eKeysOf c priv key := by
  unfold Node.keysOf
  rw [h.keyOf]
  dsimp only
  rw [if_neg h.capacity, if_neg (by simp [h.isZero]), h.devicePrivateKey]
  cases hc : s.e2eKeys.cached mac with
  | none => rw [Option.none_or]
  | some keys =>
    rw [Option.some_or]
    obtain ⟨key', hkey, -, hkeys⟩ := E2EKeyStore.Holds.of_cached h.coherent hc
    obtain rfl := Option.some.inj (h.keyOf.symm.trans hkey)
    rw [← h.devicePrivateKey]
    exact hkeys.symm

end

namespace Device

variable {b : Board} {d : Device} {own mac : Mac} {priv pub key : Key} {xs : List (Env × Input)}

/-- The inputs are those of a device that is not switched off. -/
def NoBoot (xs : List (Env × Input)) : Prop := ∀ x ∈ xs, x.2 ≠ .boot

theorem along_noBoot (hxs : NoBoot xs) :
    Runs.Along (step b) (fun _ x => x.2 ≠ .boot) d xs := by
  induction xs generalizing d with
  | nil => exact Runs.along_nil
  | cons x xs ih =>
    exact ⟨hxs x List.mem_cons_self, ih fun y hy => hxs y (List.mem_cons_of_mem x hy)⟩

theorem identity_invariant (b : Board) (own : Mac) (priv pub : Key) :
    Invariant b (fun _ x => x.2 ≠ .boot) (Identity b.crypto own priv pub) fun _ => True where
  weaken _ _ := trivial
  boot _ _ _ hc _ _ := absurd rfl hc
  bootHalt _ _ _ _ _ _ := trivial
  input _ _ _ _ _ h := ⟨h.1, h.2, h.3, h.4, h.5⟩
  effect _ _ _ _ _ _ h ht := h.effect ht
  stop _ _ _ _ _ _ _ _ _ := trivial

theorem holdsKey_invariant (b : Board) (own mac : Mac) (priv pub key : Key) :
    Invariant b (fun _ x => x.2 ≠ .boot) (HoldsKey b.crypto own priv pub mac key)
      fun _ => True where
  weaken _ _ := trivial
  boot _ _ _ hc _ _ := absurd rfl hc
  bootHalt _ _ _ _ _ _ := trivial
  input _ _ _ _ _ h := ⟨⟨h.1.1, h.1.2, h.1.3, h.1.4, h.1.5⟩, h.2, h.3⟩
  effect _ _ _ _ _ _ h ht := h.effect ht
  stop _ _ _ _ _ _ _ _ _ := trivial

/-- The address and the own key pair stay until the next boot. -/
theorem identity_run (hd : Identity b.crypto own priv pub d.node) (hxs : NoBoot xs)
    (hrun : (run b d xs).status = .running) : Identity b.crypto own priv pub (run b d xs).node :=
  ((identity_invariant b own priv pub).run ⟨trivial, fun _ => hd⟩ (along_noBoot hxs)).2 hrun

/-- **A registered key and the own key pair stay until the next boot.** -/
theorem holdsKey_run (hd : HoldsKey b.crypto own priv pub mac key d.node) (hxs : NoBoot xs)
    (hrun : (run b d xs).status = .running) :
    HoldsKey b.crypto own priv pub mac key (run b d xs).node :=
  ((holdsKey_invariant b own mac priv pub key).run ⟨trivial, fun _ => hd⟩ (along_noBoot hxs)).2 hrun

/-- A boot leaves room in the cache of derived keys. -/
theorem wp_boot_capacity {w : World} {s : Node} : wp (initSubsystems w)
    (fun _ t => t.e2eKeys.capacity ≠ 0) (fun _ _ => True) s := by
  rw [initSubsystems_eq, wp_bind]
  have hall : wp (initBeforeRole w) (fun _ _ => True) (fun _ _ => True) s := by
    unfold wp
    cases initBeforeRole w s <;> trivial
  refine wp_mono _ (fun _ t _ => ?_) (fun _ _ h => h) hall
  exact capacity_setIsMaster t _

theorem capacity_step {x : Env × Input} (hd : d.status = .running → d.node.e2eKeys.capacity ≠ 0)
    (hrun : (step b d x).status = .running) : (step b d x).node.e2eKeys.capacity ≠ 0 := by
  obtain ⟨e, i⟩ := x
  by_cases hi : i = .boot
  · subst hi
    have hstep : step b d (e, .boot) = ofResult (initSubsystems (b.world e) (d.bootNode b)) := rfl
    have hboot : wp (initSubsystems (b.world e)) (fun _ t => t.e2eKeys.capacity ≠ 0)
        (fun _ _ => True) (d.bootNode b) := wp_boot_capacity
    unfold wp at hboot
    rw [hstep] at hrun ⊢
    cases hr : initSubsystems (b.world e) (d.bootNode b) with
    | ok r t =>
      rw [hr] at hboot
      exact hboot
    | error f t =>
      rw [hr] at hrun
      cases hrun
  · have hst := stepTo b d e i
    generalize step b d (e, i) = d' at hst hrun ⊢
    cases hst with
    | ignored => exact hd hrun
    | booted | bootHalted => exact absurd rfl hi
    | @ran _ t _ hs ht =>
      clear hrun
      induction ht with
      | refl => exact hd hs
      | tail _ h ih => exact h.capacity ih
    | halted => cases hrun

/-- **Every running device has the address and the key pair that it has.** -/
theorem identity_reachable {v : Nvs} (hrun : (run b (blank v) xs).status = .running) :
    Identity b.crypto (run b (blank v) xs).node.deviceMac
      (run b (blank v) xs).node.enrollment.devicePrivateKey
      (run b (blank v) xs).node.enrollment.devicePublicKey (run b (blank v) xs).node where
  deviceMac := rfl
  devicePrivateKey := rfl
  devicePublicKey := rfl
  capacity := by
    have hblank : (blank v).status = .running → (blank v).node.e2eKeys.capacity ≠ 0 := by
      intro h
      cases h
    exact Runs.run_invariant (C := fun _ _ => True)
      (I := fun d : Device => d.status = .running → d.node.e2eKeys.capacity ≠ 0) hblank
      (fun d x hd _ => capacity_step hd) (Runs.along_of_forall (fun _ _ => trivial) _ _) hrun
  coherent := by
    have hmeets : (run b (blank v) xs).Meets _ _ := (cacheCoherent_invariant b fun _ _ => True).run
      (meets_blank trivial) (Runs.along_of_forall (fun _ _ => trivial) _ _)
    exact hmeets.2 hrun

/-! ### What a step sends -/

/-- A step adds to the history, behind its input. -/
theorem step_trace {e : Env} {i : Input} (hi : i ≠ .boot) (hrun : d.status = .running) :
    ∃ es, (step b d (e, i)).node.trace = es ++ .input i :: d.node.trace ∧
      ∀ ev ∈ es, ev.isInput = false := by
  have hst := stepTo b d e i
  generalize step b d (e, i) = d' at hst ⊢
  cases hst with
  | ignored _ hs => exact absurd hrun hs
  | booted | bootHalted => exact absurd rfl hi
  | ran _ _ ht =>
    obtain ⟨es, he, hes⟩ := effects_trace ht
    exact ⟨es, he, fun ev hev => (hes ev hev).1⟩
  | halted _ _ ht hu =>
    obtain ⟨es, he, hes⟩ := effects_trace ht
    obtain ⟨es', he', hes'⟩ := hu.plain
    refine ⟨es' ++ es, by rw [he', he, List.append_assoc]; rfl, fun ev hev => ?_⟩
    rcases List.mem_append.1 hev with hev | hev
    · exact Event.isInput_of_isPlain (hes' ev hev)
    · exact (hes ev hev).1

/-- What a step sends lies on top of what was sent before. -/
theorem transmits_of_sent {e : Env} {i : Input} {l : List (Mac × Message)} (hi : i ≠ .boot)
    (hrun : d.status = .running)
    (h : (step b d (e, i)).node.sentFrames = l ++ d.node.sentFrames) :
    transmits b d (e, i) = l.map Prod.snd := by
  obtain ⟨es, he, hes⟩ := step_trace (b := b) (e := e) hi hrun
  have hsent : es.filterMap Event.sent? = l := by
    unfold Node.sentFrames at h
    rw [he, List.filterMap_append, List.filterMap_cons] at h
    exact List.append_cancel_right h
  have hevents : (step b d (e, i)).node.stepEvents = es := by
    unfold Node.stepEvents
    rw [he, List.takeWhile_append_of_pos fun ev hev => by simp [hes ev hev]]
    simp [Event.isInput]
  unfold transmits
  rw [hevents, ← hsent, List.map_filterMap]
  refine List.filterMap_congr fun ev _ => ?_
  cases ev <;> rfl

end Device

/-! ### What the messages say -/

/-- A request of the station `mac` for the key `pub`, as it was sent or as it was relayed. -/
structure RequestOf (mac : Mac) (pub : Key) (m : Message) : Prop where
  messageType : m.messageType = MessageType.enrollment
  originMac : m.originMac = mac
  enrollmentPublicKey : m.enrollmentPublicKey = pub

/-- An acknowledgement of the master `master` with the key `masterPub` for the station `mac` with
the key `pub`, as it was sent or as it was relayed. -/
structure AckFor (master : Mac) (masterPub : Key) (mac : Mac) (pub : Key) (m : Message) : Prop where
  messageType : m.messageType = MessageType.joinAck
  originMac : m.originMac = master
  targetMac : m.targetMac = mac
  enrollmentPublicKey : m.enrollmentPublicKey = masterPub
  fingerprint : m.ackFingerprint = fingerprintOf pub

theorem RequestOf.relayed {mac : Mac} {pub : Key} {m r : Message} (h : RequestOf mac pub m)
    (hr : Message.RelayOf m r) : RequestOf mac pub r := by
  rw [Message.relayOf_iff.1 hr]
  exact ⟨h.1, h.2, h.3⟩

theorem AckFor.relayed {master mac : Mac} {masterPub pub : Key} {m r : Message}
    (h : AckFor master masterPub mac pub m) (hr : Message.RelayOf m r) :
    AckFor master masterPub mac pub r := by
  rw [Message.relayOf_iff.1 hr]
  exact ⟨h.1, h.2, h.3, h.4, h.5⟩

section

variable {w : World} {s t : Node} {m : Message} {mac : Mac} {key : Key}
  {secondary : Option (Mac × Key)}

/-- The radio takes a broadcast. -/
structure CanBroadcast (w : World) (s : Node) : Prop where
  registered : broadcastMac ∈ s.radioPeers
  sendOk : w.sendOk broadcastMac = true

/-- A broadcast that the radio takes goes out, and nothing else happens. -/
theorem wp_sendBroadcast {E : Halt → Node → Prop} (h : CanBroadcast w s) :
    wp (sendBroadcast w m) (fun _ t => t = s.emit (.tx broadcastMac m)) E s := by
  have hok : (s.radioPeers.contains broadcastMac && w.sendOk broadcastMac) = true := by
    rw [List.contains_iff_mem.2 h.registered, h.sendOk]
    rfl
  unfold sendBroadcast espNowSend
  rw [wp_bind, wp_bind, wp_get, if_pos hok]
  exact rfl

/-! ### The leaf asks -/

/-- A leaf at which a request is due. -/
structure AskDue (w : World) (s : Node) : Prop where
  leaf : s.isMaster = false
  waiting : s.enrollment.enrolled = false
  due : w.nowMs - s.lastEnrollmentBroadcastMs > enrollmentIntervalMs
  radio : CanBroadcast w s

theorem Node.drawn_sentFrames (s : Node) : s.drawn.sentFrames = s.sentFrames := by
  unfold Node.drawn Node.savedEpoch
  split
  · split <;> rfl
  · rfl

/-- A leaf at which a request is due broadcasts one with its address and its key. -/
theorem wp_tickEnrollmentBroadcast (h : AskDue w s) :
    wp (tickEnrollmentBroadcast w)
    (fun _ t => ∃ m, t.sentFrames = (broadcastMac, m) :: s.sentFrames ∧
      RequestOf s.deviceMac s.enrollment.devicePublicKey m) (fun _ _ => True) s := by
  unfold tickEnrollmentBroadcast sendEnrollmentRequest
  rw [wp_bind, wp_get, if_neg (by simp [h.leaf, h.waiting]), if_pos h.due, wp_bind, wp_modify,
    wp_bind]
  refine wp_nextSeqGuarded ?_ fun _ _ _ _ => trivial
  set u : Node := { s with lastEnrollmentBroadcastMs := w.nowMs } with hu
  have hcan : CanBroadcast w u.drawn := by
    refine ⟨?_, h.radio.sendOk⟩
    rw [(sameHops_drawn u).radioPeers]
    exact h.radio.registered
  rw [wp_bind, wp_get]
  refine wp_mono _ (fun _ t ht => ?_) (fun _ _ hf => hf)
    (wp_sendBroadcast (E := fun _ _ => True) hcan)
  refine ⟨enrollmentRequest u.drawn u.drawn.txState.bootEpoch u.drawn.txState.txSeqNum, ?_, rfl, ?_,
    ?_⟩
  · rw [ht]
    exact congrArg _ u.drawn_sentFrames
  · exact (sameHops_drawn u).deviceMac
  · exact u.drawn_sameDevice.devicePublicKey

/-! ### The master hears the request -/

/-- A request that passes the checks is registered, and queued if the buffer takes it. -/
theorem wp_hears_request {srcMac : Mac} (hm : s.isMaster = true)
    (ht : m.messageType = MessageType.enrollment) (hpass : passesChecks w s m = true) :
    wp (handleReceivedMessage w srcMac m) (fun _ t => RequestHeard w s m t)
    (fun _ _ => True) s := by
  rw [← handleReceivedMessageTo_deliver]
  unfold wp
  rw [handleReceivedMessageTo_of_passes hpass, dispatchMessageTo_deliver]
  have hdisp : dispatchMessage w m = processEnrollment w m := by
    unfold dispatchMessage
    rw [if_pos ht]
  rw [hdisp]
  have hheard : wp (processEnrollment w m) _ (fun _ _ => True) (s.received w srcMac m) :=
    wp_processEnrollment hm
  refine wp_mono _ (fun _ t ht => ⟨ht.isMaster, ht.relayed, ht.queue, fun mac => ?_⟩)
    (fun _ _ h => h) hheard
  have hstores : (s.received w srcMac m).peers.stores m.originMac false =
      s.peers.stores m.originMac false := PeerRegistry.stores_updateLastSeen _ _ _ _ _
  have hkey : (s.received w srcMac m).peers.keyOf mac = s.peers.keyOf mac :=
    PeerRegistry.keyOf_updateLastSeen _ _ _ _
  rw [ht.keyOf, hkey]
  simp only [hstores]

/-- The registry takes the key `key` for `mac`, or has it already. -/
def Takes (s : Node) (mac : Mac) (key : Key) : Prop :=
  s.peers.stores mac false = true ∨ s.peers.keyOf mac = some key

/-! ### The master approves -/

/-- Registering another station leaves the broadcast address registered with the radio. -/
theorem wp_registerPeerWithKey_radio {allowRekey : Bool} (hb : broadcastMac ∈ s.radioPeers)
    (hm : mac ≠ broadcastMac) :
    wp (registerPeerWithKey w mac key allowRekey) (fun _ t => broadcastMac ∈ t.radioPeers)
      (fun _ _ => True) s := by
  -- the broadcast address stays, since only the address of the other station is taken out
  refine wp_registration (fun _ => ?_) fun _ => hb
  set u : Node := { s with peers := s.peers.registered mac key allowRekey w.nowMs } with hu
  have hsave : wp (saveToEEPROM w) (fun _ v => v.radioPeers = u.radioPeers)
      (fun _ _ => True) u := by
    unfold saveToEEPROM
    rw [wp_bind, wp_get]
    refine wp_mono _ (fun _ v hv => ?_) (fun _ _ _ => trivial) (wp_writePeerSlots u.peers.records)
    rw [hv.rest]
  rw [wp_bind]
  refine wp_mono _ (fun _ v hv => ?_) (fun _ _ h => h) hsave
  unfold enrollPeerWithRadio espNowDelPeer registerPeerWithEspNow
  have hkept : broadcastMac ∈ v.radioPeers.filter (· ≠ mac) := by
    rw [hv]
    exact List.mem_filter.2 ⟨hb, by simpa using hm.symm⟩
  rw [wp_bind, wp_bind, wp_modify, wp_bind, wp_get]
  split
  · exact hkept
  split
  · exact List.mem_append_left _ hkept
  · show wp (fail w _ _ _ _) _ _ _
    exact wp_signalError (fun _ _ => trivial) (fun _ => trivial) fun _ => hkept

/-- The approval of a registered node is one acknowledgement for it. -/
theorem wp_enrollPeer (hk : s.peers.keyOf mac = some key) (hm : mac ≠ broadcastMac)
    (h : CanBroadcast w s) :
    wp (enrollPeer w mac secondary)
    (fun _ t => ∃ m, t.sentFrames = (broadcastMac, m) :: s.sentFrames ∧
      AckFor s.deviceMac s.enrollment.devicePublicKey mac key m) (fun _ _ => True) s := by
  obtain ⟨p, hp, rfl⟩ := Option.map_eq_some_iff.1 hk
  unfold enrollPeer
  rw [wp_bind, wp_get, hp]
  dsimp only
  rw [wp_bind]
  -- the registration succeeds, and sends nothing
  have hreg : wp (registerPeerWithKey w mac p.publicKey true) (fun r u => r = true ∧
      u.sentFrames = s.sentFrames ∧ u.enrollment = s.enrollment ∧ u.deviceMac = s.deviceMac ∧
        broadcastMac ∈ u.radioPeers) (fun _ _ => True) s := by
    have hradio : wp (registerPeerWithKey w mac p.publicKey true)
        (fun _ u => broadcastMac ∈ u.radioPeers) (fun _ _ => True) s :=
      wp_registerPeerWithKey_radio h.registered hm
    have hall := wp_and _ registered_registerPeerWithKey
      (wp_and _ keyRegistered_registerPeerWithKey hradio)
    have htalk := keeps_registerPeerWithKey (w := w) (f := Node.talk) mac p.publicKey true s
    have hstate := keeps_registerPeerWithKey (w := w) (f := Node.relayState) mac p.publicKey true s
    refine wp_mono _ (fun r u hu => ?_) (fun _ _ _ => trivial)
      (wp_and _ hall (wp_and _ htalk hstate))
    obtain ⟨⟨hr, hkeys, hradio⟩, htalk, hstate⟩ := hu
    refine ⟨?_, (talk_eq_iff.1 htalk).2.2.2, hkeys.enrollment, congrArg RelayState.deviceMac hstate,
      hradio⟩
    rw [hr.result, hp]
    rfl
  -- then the acknowledgement is stamped and broadcast
  refine wp_mono _ (fun r u hu => ?_) (fun _ _ h => h) hreg
  obtain ⟨rfl, hsent, henr, hmac, hradio⟩ := hu
  rw [if_pos rfl, wp_bind]
  refine wp_nextSeqGuarded ?_ fun _ _ _ _ => trivial
  have hcan : CanBroadcast w u.drawn := by
    refine ⟨?_, h.sendOk⟩
    rw [(sameHops_drawn u).radioPeers]
    exact hradio
  rw [wp_bind, wp_get]
  refine wp_mono _ (fun _ t ht => ?_) (fun _ _ hf => hf)
    (wp_sendBroadcast (E := fun _ _ => True) hcan)
  refine ⟨joinAck u.drawn u.drawn.txState.txSeqNum mac p.publicKey secondary, ?_, rfl, ?_, rfl, ?_,
    fingerprint_joinAckData _⟩
  · rw [ht, ← hsent]
    exact congrArg _ u.drawn_sentFrames
  · exact (sameHops_drawn u).deviceMac.trans hmac
  · exact u.drawn_sameDevice.devicePublicKey.trans (congrArg _ henr)

/-! ### The leaf hears the acknowledgement -/

/-- The registry and what a node knows about its enrollment. -/
def Node.roster (s : Node) : PeerRegistry × Enrollment := (s.peers, s.enrollment)

theorem keepsRoster_nvsSave (op : NvsOp) (securityRelevant : Bool) :
    Keeps Node.roster (nvsSave w op securityRelevant) := by
  have hfail : ∀ ty mo sub text, Keeps Node.roster (fail w ty mo sub text) := by
    intro ty mo sub text
    refine .bind (.update fun _ => rfl) fun _ => .ite (fun _ => ?_) fun _ => ?_
    · exact .bind (.update fun _ => rfl) fun _ => .raise _
    · exact .ite (fun _ => .raise _) fun _ => .ret _
  refine .read_bind fun _ => .ite (fun _ => .ret _) fun _ => .ite (fun _ => ?_) fun _ => ?_
  · exact .bind (.update fun _ => rfl) fun _ => .update fun _ => rfl
  · exact .ite (fun _ => hfail _ _ _ _) fun _ => .ret _

/-- A leaf that is enrolled with the master `master` and has registered its key. -/
structure EnrolledWith (master : Mac) (masterPub : Key) (s : Node) : Prop where
  enrolled : s.enrollment.enrolled = true
  hasMasterMac : s.enrollment.hasMasterMac = true
  knownMasterMac : s.enrollment.knownMasterMac = master
  keyOf : s.peers.keyOf master = some masterPub

theorem EnrolledWith.of_roster {master : Mac} {masterPub : Key}
    (h : EnrolledWith master masterPub s)
    (ht : t.roster = s.roster) : EnrolledWith master masterPub t := by
  obtain ⟨hp, he⟩ := Prod.mk.inj ht
  exact ⟨by rw [he]; exact h.1, by rw [he]; exact h.2, by rw [he]; exact h.3, by rw [hp]; exact h.4⟩

/-- The secondary master of an acknowledgement takes nothing from the first one. -/
theorem wp_processJoinAckSecondary_enrolled {master : Mac} {masterPub : Key}
    (h : EnrolledWith master masterPub s) (hz : masterPub.isZero = false) :
    wp (processJoinAckSecondary w m) (fun _ t => EnrolledWith master masterPub t) (fun _ _ => True)
      s := by
  have hest : s.peers.keyEstablished master = true := by
    rw [PeerRegistry.keyEstablished_eq, h.keyOf]
    simp [hz]
  unfold processJoinAckSecondary
  split
  · exact h
  rw [wp_bind]
  refine wp_mono _ (fun r u hu => ?_) (fun _ _ h => h) keyRegistered_registerPeerWithKey
  have hu' : EnrolledWith master masterPub u := by
    refine ⟨by rw [hu.enrollment]; exact h.1, by rw [hu.enrollment]; exact h.2,
      by rw [hu.enrollment]; exact h.3, ?_⟩
    rw [hu.keyOf, if_neg, h.keyOf]
    rintro ⟨hs, rfl⟩
    simp [PeerRegistry.stores, hest] at hs
  rw [wp_bind, wp_get]
  split
  · unfold learnSecondaryMasterMac saveKnownMasterMacSecondary
    rw [wp_bind, wp_modify]
    refine wp_mono _ (fun _ t ht => EnrolledWith.of_roster ?_ ht) (fun _ _ _ => trivial)
      (keepsRoster_nvsSave _ _ _)
    exact ⟨hu'.1, hu'.2, hu'.3, hu'.4⟩
  · exact hu'

/-- An acknowledgement that a leaf accepts enrolls it. -/
theorem wp_processJoinAck_enrolls (hacc : joinAckAccepted w.config s.enrollment m = true)
    (ht : Takes s m.originMac m.enrollmentPublicKey) (hz : m.enrollmentPublicKey.isZero = false) :
    wp (processJoinAck w m) (fun _ t => EnrolledWith m.originMac m.enrollmentPublicKey t)
      (fun _ _ => True) s := by
  -- a known master is the one that acknowledges
  have hknown : s.enrollment.hasMasterMac = true → m.originMac = s.enrollment.knownMasterMac := by
    intro hm
    simp only [joinAckAccepted, Bool.and_eq_true, hm, Bool.not_true, Bool.false_or,
      decide_eq_true_eq] at hacc
    exact hacc.2
  have hlisted : ((s.peers.find m.originMac).isSome || s.peers.count < maxPeers) = true := by
    rcases ht with hs | hk
    · simp only [PeerRegistry.stores, Bool.and_eq_true] at hs
      exact hs.2
    · rw [← PeerRegistry.isSome_keyOf, hk]
      rfl
  unfold processJoinAck
  rw [wp_bind, wp_get, if_pos hacc, wp_bind]
  refine wp_mono _ (fun r u hu => ?_) (fun _ _ _ => trivial)
    (wp_and _ registered_registerPeerWithKey keyRegistered_registerPeerWithKey)
  obtain ⟨hr, hkeys⟩ := hu
  obtain rfl : r = true := hr.result.trans hlisted
  have hkey : u.peers.keyOf m.originMac = some m.enrollmentPublicKey := by
    rw [hkeys.keyOf]
    rcases ht with hs | hk
    · rw [if_pos ⟨hs, rfl⟩]
    · rw [hk, ite_self]
  -- the sender has the key of the acknowledgement by now
  rw [if_pos rfl, wp_bind]
  refine wp_mono _ (fun _ v hv => ?_) (fun _ _ _ => trivial) (keepsRoster_nvsSave _ _ u)
  obtain ⟨hvp, hve⟩ := Prod.mk.inj hv
  rw [wp_bind, wp_modify, wp_bind]
  unfold learnMasterFromAck
  rw [wp_bind, wp_get]
  split
  -- the master was known before
  · rename_i hm
    have hm' : s.enrollment.hasMasterMac = true := by
      rw [← hkeys.enrollment, ← hve]
      exact hm
    refine wp_processJoinAckSecondary_enrolled ⟨rfl, hm, ?_, ?_⟩ hz
    · rw [hve, hkeys.enrollment]
      exact (hknown hm').symm
    · rw [hvp]
      exact hkey
  -- the sender becomes the known master
  · unfold learnMasterMac saveKnownMasterMac
    rw [wp_bind, wp_modify]
    refine wp_mono _ (fun _ x hx => ?_) (fun _ _ _ => trivial) (keepsRoster_nvsSave _ _ _)
    refine wp_processJoinAckSecondary_enrolled (EnrolledWith.of_roster ?_ hx) hz
    exact ⟨rfl, rfl, rfl, by rw [hvp]; exact hkey⟩

/-- An acknowledgement that passes the checks and that the leaf it is for accepts enrolls the
leaf. -/
theorem wp_hears_ack {srcMac : Mac} (hleaf : s.isMaster = false) (hown : m.targetMac = s.deviceMac)
    (ht : m.messageType = MessageType.joinAck) (hpass : passesChecks w s m = true)
    (hacc : joinAckAccepted w.config s.enrollment m = true)
    (htakes : Takes s m.originMac m.enrollmentPublicKey)
    (hz : m.enrollmentPublicKey.isZero = false) :
    wp (handleReceivedMessage w srcMac m)
      (fun _ t => EnrolledWith m.originMac m.enrollmentPublicKey t) (fun _ _ => True) s := by
  rw [← handleReceivedMessageTo_deliver]
  unfold wp
  rw [handleReceivedMessageTo_of_passes hpass, dispatchMessageTo_deliver]
  have hdisp : dispatchMessage w m = dispatchJoinAck w m := by
    unfold dispatchMessage
    rw [if_neg (by rw [ht]; decide), if_pos ht]
  -- hearing the sender changes no key
  have htakes' : Takes (s.received w srcMac m) m.originMac m.enrollmentPublicKey := by
    refine htakes.imp (fun h => ?_) fun h => ?_
    · exact (PeerRegistry.stores_updateLastSeen _ _ _ _ _).trans h
    · exact (PeerRegistry.keyOf_updateLastSeen _ _ _ _).trans h
  rw [hdisp]
  unfold dispatchJoinAck
  have hall : wp (processJoinAck w m)
      (fun _ t => EnrolledWith m.originMac m.enrollmentPublicKey t) (fun _ _ => True)
      (s.received w srcMac m) := wp_processJoinAck_enrolls hacc htakes' hz
  show wp (get >>= _) _ _ _
  rw [wp_bind, wp_get, if_pos (show m.targetMac = (s.received w srcMac m).deviceMac from hown),
    if_neg (by simp [Node.received, hleaf])]
  exact hall

end

/-! ### The steps of the two devices -/

namespace Device

variable {b : Board} {d : Device} {e : Env} {i : Input} {own mac : Mac} {priv pub key : Key}
  {m : Message}

/-- What the program of a step ends with holds of a device that still runs. -/
theorem step_ok {Q : Node → Prop} (hi : i ≠ .boot) (hrun : d.status = .running)
    (halive : (step b d (e, i)).status = .running)
    (h : wp (handleInput (b.world e) i) (fun _ t => Q t) (fun _ _ => True) (d.inputNode i)) :
    Q (step b d (e, i)).node := by
  rw [step_of_input hi hrun] at halive ⊢
  unfold wp at h
  cases hr : handleInput (b.world e) i (d.inputNode i) with
  | ok r t =>
    rw [hr] at h
    exact h
  | error f t =>
    rw [hr] at halive
    cases halive

/-- A single step other than a boot. -/
theorem noBoot_single (hi : i ≠ .boot) : NoBoot [(e, i)] := by
  intro x hx
  obtain rfl := List.mem_singleton.1 hx
  exact hi

theorem identity_step (hd : Identity b.crypto own priv pub d.node) (hi : i ≠ .boot)
    (halive : (step b d (e, i)).status = .running) :
    Identity b.crypto own priv pub (step b d (e, i)).node :=
  identity_run hd (noBoot_single hi) halive

/-- **A leaf at which a request is due transmits one**, with its address and its key. -/
theorem asks (hd : Identity b.crypto own priv pub d.node) (hrun : d.status = .running)
    (h : AskDue (b.world e) d.node)
    (halive : (step b d (e, .tickEnrollmentBroadcast)).status = .running) :
    ∃ request, transmits b d (e, .tickEnrollmentBroadcast) = [request] ∧
      RequestOf own pub request := by
  have hdue : AskDue (b.world e) (d.inputNode .tickEnrollmentBroadcast) :=
    ⟨h.leaf, h.waiting, h.due, h.radio.registered, h.radio.sendOk⟩
  obtain ⟨request, hsent, hreq⟩ := step_ok (by simp) hrun halive (wp_tickEnrollmentBroadcast hdue)
  refine ⟨request, transmits_of_sent (l := [(broadcastMac, request)]) (by simp) hrun hsent, ?_⟩
  rw [← hd.deviceMac, ← hd.devicePublicKey]
  exact hreq

/-- **The master that hears the request registers the key of the leaf**, and queues the request for
the server if the buffer takes it. -/
theorem hears_request {srcMac : Mac} (hd : Identity b.crypto own priv pub d.node)
    (hrun : d.status = .running) (hmaster : d.node.isMaster = true) (hm : RequestOf mac key m)
    (hpass : passesChecks (b.world e) d.node m = true) (htakes : Takes d.node mac key)
    (hz : key.isZero = false) (halive : (step b d (e, .rx srcMac m)).status = .running) :
    HoldsKey b.crypto own priv pub mac key (step b d (e, .rx srcMac m)).node ∧
      ((b.world e).ringbufAccepts d.node.enrollment.relayQueue.length = true →
        (step b d (e, .rx srcMac m)).node.enrollment.relayQueue =
          d.node.enrollment.relayQueue ++ [(mac, key)]) := by
  have hheard : RequestHeard (b.world e) (d.inputNode (.rx srcMac m)) m
      (step b d (e, .rx srcMac m)).node :=
    step_ok (by simp) hrun halive (wp_hears_request hmaster hm.messageType hpass)
  refine ⟨⟨identity_step hd (by simp) halive, ?_, hz⟩, fun hroom => ?_⟩
  -- the key is stored now, or it was there before
  · rw [hheard.keyOf, hm.originMac, hm.enrollmentPublicKey]
    rcases htakes with hs | hk
    · exact if_pos ⟨hs, rfl⟩
    · exact ite_eq_left_iff.2 fun _ => hk
  · rw [hheard.queue, hm.originMac, hm.enrollmentPublicKey]
    exact if_pos hroom

/-- **The master that the server tells to admit a registered leaf transmits one acknowledgement**,
with its own address and key. -/
theorem answers {reply : Message} (hd : HoldsKey b.crypto own priv pub mac key d.node)
    (hmac : mac ≠ broadcastMac) (happ : approves d mac (.serial reply) = true)
    (hradio : CanBroadcast (b.world e) d.node)
    (halive : (step b d (e, .serial reply)).status = .running) :
    ∃ ack, transmits b d (e, .serial reply) = [ack] ∧ AckFor own pub mac key ack := by
  simp only [approves, Bool.and_eq_true, decide_eq_true_eq, Bool.not_eq_true'] at happ
  obtain ⟨⟨⟨⟨hrun, hserial⟩, htype⟩, hkey⟩, htarget⟩ := happ
  have henroll : wp (handleCompleteFrame (b.world e) reply) (fun _ t =>
      ∃ ack, t.sentFrames = (broadcastMac, ack) :: d.node.sentFrames ∧
        AckFor d.node.deviceMac d.node.enrollment.devicePublicKey mac key ack) (fun _ _ => True)
      (d.inputNode (.serial reply)) := by
    have hadapter : (d.inputNode (.serial reply)).adapterType = AdapterType.serial := hserial
    unfold handleCompleteFrame serverJoinAck
    rw [wp_bind, wp_get, if_neg (not_not.2 hadapter), if_pos htype, if_neg (by simp [hkey]),
      htarget]
    exact wp_enrollPeer (s := d.inputNode (.serial reply)) hd.keyOf hmac
      ⟨hradio.registered, hradio.sendOk⟩
  obtain ⟨ack, hsent, hack⟩ := step_ok (by simp) hrun halive henroll
  refine ⟨ack, transmits_of_sent (l := [(broadcastMac, ack)]) (by simp) hrun hsent, ?_⟩
  rw [← hd.deviceMac, ← hd.devicePublicKey]
  exact hack

/-- A leaf accepts the master `master` with the key `masterPub`: it is the pinned one, and no other
master is known. -/
structure Accepts (c : Config) (s : Node) (master : Mac) (masterPub : Key) : Prop where
  leaf : s.isMaster = false
  pinned : (c.devMode || masterPub = c.pinMasterPubkey) = true
  noOther : s.enrollment.hasMasterMac = true → s.enrollment.knownMasterMac = master
  takes : Takes s master masterPub

/-- **The leaf that hears the acknowledgement is enrolled** and has registered the key of the
master. -/
theorem hears_ack {srcMac : Mac} (hd : Identity b.crypto own priv pub d.node)
    (hrun : d.status = .running) (hacc : Accepts b.config d.node mac key)
    (hm : AckFor mac key own pub m) (hpass : passesChecks (b.world e) d.node m = true)
    (hz : key.isZero = false) (halive : (step b d (e, .rx srcMac m)).status = .running) :
    EnrolledWith mac key (step b d (e, .rx srcMac m)).node ∧
      HoldsKey b.crypto own priv pub mac key (step b d (e, .rx srcMac m)).node := by
  have haccepted : joinAckAccepted b.config d.node.enrollment m = true := by
    unfold joinAckAccepted
    have hfinger : m.ackFingerprint =
        Bytes.slice d.node.enrollment.devicePublicKey 0 4 fingerprint_le := by
      rw [hm.fingerprint, hd.devicePublicKey]
      rfl
    rw [hm.enrollmentPublicKey, hacc.pinned, hm.originMac, decide_eq_true hfinger]
    cases hknown : d.node.enrollment.hasMasterMac with
    | false => rfl
    | true => simp [hacc.noOther hknown]
  have henr : EnrolledWith m.originMac m.enrollmentPublicKey (step b d (e, .rx srcMac m)).node := by
    refine step_ok (by simp) hrun halive (wp_hears_ack (s := d.inputNode (.rx srcMac m)) hacc.leaf
      ?_ hm.messageType hpass haccepted ?_ ?_)
    · exact hm.targetMac.trans hd.deviceMac.symm
    · rw [hm.originMac, hm.enrollmentPublicKey]
      exact hacc.takes
    · rw [hm.enrollmentPublicKey]
      exact hz
  rw [hm.originMac, hm.enrollmentPublicKey] at henr
  exact ⟨henr, identity_step hd (by simp) halive, henr.keyOf, hz⟩

/-! ### The whole handshake -/

/-- The parties of a handshake: the leaf `mac` with the key pair `priv`, `pub` on the first board,
and the master `master` on the second one.  Their key pairs agree on a secret. -/
structure Parties (leafBoard masterBoard : Board) (mac master : Mac)
    (priv pub masterPriv masterPub : Key) : Prop where
  crypto : masterBoard.crypto = leafBoard.crypto
  agree : leafBoard.crypto.x25519Shared masterPriv pub =
    leafBoard.crypto.x25519Shared priv masterPub
  unicast : mac ≠ broadcastMac
  pub_ne : pub.isZero = false
  masterPub_ne : masterPub.isZero = false

/-- A device that runs receives the frame `m`: it passes the checks, and the device runs on. -/
structure Receives (b : Board) (d : Device) (e : Env) (srcMac : Mac) (m : Message) : Prop where
  running : d.status = .running
  passes : passesChecks (b.world e) d.node m = true
  alive : (step b d (e, .rx srcMac m)).status = .running

variable {leafBoard masterBoard : Board} {master : Mac} {masterPriv masterPub : Key} {leaf : Device}

/-- Both parties derive the same keys. -/
theorem Parties.e2eKeysOf
    (h : Parties leafBoard masterBoard mac master priv pub masterPriv masterPub) :
    e2eKeysOf leafBoard.crypto masterPriv pub = e2eKeysOf leafBoard.crypto priv masterPub := by
  unfold LatticeMesh.e2eKeysOf
  rw [h.agree]

/-- **The handshake**, between two parties whose key pairs agree and whose radios take a broadcast.
A leaf at which a request is due transmits one.  A master that it reaches, over any relays, and that
has room for the leaf and no other key established for it, registers the key and queues the request
if the buffer takes it.  When the server approves the leaf later, the master transmits one
acknowledgement.  A leaf that this reaches, over any relays, is enrolled if it accepts the master:
the key is the pinned one, no other master is known, and the registry takes the key.  From then on
both parties find the same keys for each other, whatever else they do, until one of them boots. -/
theorem handshake (hp : Parties leafBoard masterBoard mac master priv pub masterPriv masterPub)
    (hleaf : Identity leafBoard.crypto mac priv pub leaf.node) (hrun : leaf.status = .running)
    (hdue : AskDue (leafBoard.world e) leaf.node)
    (hasked : (step leafBoard leaf (e, .tickEnrollmentBroadcast)).status = .running) :
    ∃ request, transmits leafBoard leaf (e, .tickEnrollmentBroadcast) = [request] ∧
      RequestOf mac pub request ∧
      ∀ (m₀ : Device) (e₁ : Env) (src₁ : Mac) (r : Message), ReflTransGen Relays request r →
        Identity leafBoard.crypto master masterPriv masterPub m₀.node → m₀.node.isMaster = true →
        Takes m₀.node mac pub → Receives masterBoard m₀ e₁ src₁ r →
        let m₁ := step masterBoard m₀ (e₁, .rx src₁ r)
        m₁.node.peers.keyOf mac = some pub ∧
        (e₁.ringbufAccepts m₀.node.enrollment.relayQueue.length = true →
          m₁.node.enrollment.relayQueue = m₀.node.enrollment.relayQueue ++ [(mac, pub)]) ∧
        ∀ (xs : List (Env × Input)) (e₂ : Env) (reply : Message), NoBoot xs →
          let m₂ := run masterBoard m₁ xs
          let m₃ := step masterBoard m₂ (e₂, .serial reply)
          approves m₂ mac (.serial reply) = true → CanBroadcast (masterBoard.world e₂) m₂.node →
          m₃.status = .running →
          ∃ ack, transmits masterBoard m₂ (e₂, .serial reply) = [ack] ∧
            AckFor master masterPub mac pub ack ∧
            ∀ (ys : List (Env × Input)) (e₃ : Env) (src₃ : Mac) (a : Message), NoBoot ys →
              ReflTransGen Relays ack a →
              let l₂ := run leafBoard (step leafBoard leaf (e, .tickEnrollmentBroadcast)) ys
              let l₃ := step leafBoard l₂ (e₃, .rx src₃ a)
              Accepts leafBoard.config l₂.node master masterPub →
              Receives leafBoard l₂ e₃ src₃ a →
              EnrolledWith master masterPub l₃.node ∧
              ∀ xs' ys', NoBoot xs' → NoBoot ys' → (run masterBoard m₃ xs').status = .running →
                (run leafBoard l₃ ys').status = .running →
                (run leafBoard l₃ ys').node.keysOf leafBoard.crypto master =
                    e2eKeysOf leafBoard.crypto priv masterPub ∧
                  (run masterBoard m₃ xs').node.keysOf masterBoard.crypto mac =
                    e2eKeysOf leafBoard.crypto priv masterPub := by
  -- the leaf asks
  obtain ⟨request, hsent, hreq⟩ := asks hleaf hrun hdue hasked
  refine ⟨request, hsent, hreq, ?_⟩
  intro m₀ e₁ src₁ r hr hmid hmaster htakes hrecv m₁
  -- the master hears the request and keeps the key until it answers
  rw [← hp.crypto] at hmid
  obtain ⟨hholds₁, hqueue⟩ := hears_request (e := e₁) hmid hrecv.running hmaster
    (hreq.relayed (relayOf_chain hr)) hrecv.passes htakes hp.pub_ne hrecv.alive
  refine ⟨hholds₁.keyOf, hqueue, ?_⟩
  intro xs e₂ reply hxs m₂ m₃ happ hradio hrun₃
  have hrun₂ : m₂.status = .running := by
    simp only [approves, Bool.and_eq_true, decide_eq_true_eq] at happ
    exact happ.1.1.1.1
  have hholds₂ : HoldsKey masterBoard.crypto master masterPriv masterPub mac pub m₂.node :=
    holdsKey_run hholds₁ hxs hrun₂
  -- the server approves, and the master answers
  obtain ⟨ack, hack, hfor⟩ := answers hholds₂ hp.unicast happ hradio hrun₃
  have hholds₃ : HoldsKey masterBoard.crypto master masterPriv masterPub mac pub m₃.node :=
    holdsKey_run hholds₂ (noBoot_single (by simp)) hrun₃
  refine ⟨ack, hack, hfor, ?_⟩
  -- the leaf hears the answer
  intro ys e₃ src₃ a hys ha l₂ l₃ hacc hrecv₃
  have hid₂ : Identity leafBoard.crypto mac priv pub l₂.node :=
    identity_run (identity_step hleaf (by simp) hasked) hys hrecv₃.running
  obtain ⟨henrolled, hleaf₃⟩ := hears_ack (e := e₃) hid₂ hrecv₃.running hacc
    (hfor.relayed (relayOf_chain ha)) hrecv₃.passes hp.masterPub_ne hrecv₃.alive
  refine ⟨henrolled, ?_⟩
  -- both keep the key of the other from here on
  intro xs' ys' hxs' hys' hmrun hlrun
  refine ⟨(holdsKey_run hleaf₃ hys' hlrun).keysOf, ?_⟩
  rw [(holdsKey_run hholds₃ hxs' hmrun).keysOf, hp.crypto]
  exact hp.e2eKeysOf

end Device

namespace Sample

/-- A leaf after its first boot. -/
def askingLeaf : Device := Device.run board (Device.blank {}) [(env 1 100, .boot)]

/-- A master after its first boot. -/
def askedMaster : Device := Device.run serialMaster futureMaster [(env 7 100, .boot)]

/-- The request of the leaf, the answer of the server, and the acknowledgement of the master. -/
def leafRequest : Message :=
  { frame 1 MessageType.enrollment 1 1 with enrollmentPublicKey := key 1 }

def leafApproval : Message :=
  { frame 0 MessageType.joinAck 0 0 with targetMac := mac 1, enrollmentPublicKey := key 1 }

def leafAck : Message := { joinAck with seqNum := 2 }

/-- The master has heard the request, and a round of housekeeping later the approval. -/
def heardMaster : Device :=
  Device.step serialMaster askedMaster (env 7 20100, .rx (mac 1) leafRequest)

def toldMaster : Device := Device.run serialMaster heardMaster [(env 7 20200, .loop)]

def ackedMaster : Device := Device.step serialMaster toldMaster (env 7 20300, .serial leafApproval)

/-- The leaf has asked, and then heard the acknowledgement. -/
def waitingLeaf : Device := Device.step board askingLeaf (env 1 20000, .tickEnrollmentBroadcast)

def enrolledLeaf : Device := Device.step board waitingLeaf (env 1 20400, .rx (mac 7) leafAck)

theorem identity_askingLeaf : Identity crypto (mac 1) (key 1) (key 1) askingLeaf.node := by
  have h : Identity crypto _ _ _ askingLeaf.node :=
    Device.identity_reachable (b := board) (v := {}) (by decide +kernel)
  exact ⟨by decide +kernel, by decide +kernel, by decide +kernel, h.capacity, h.coherent⟩

theorem identity_askedMaster : Identity crypto (mac 7) (key 7) (key 7) askedMaster.node := by
  have h : Identity crypto _ _ _ askedMaster.node :=
    Device.identity_reachable (b := serialMaster) (v := { masterFlag := some 1 })
      (by decide +kernel)
  exact ⟨by decide +kernel, by decide +kernel, by decide +kernel, h.capacity, h.coherent⟩

theorem parties : Device.Parties board serialMaster (mac 1) (mac 7) (key 1) (key 1) (key 7)
    (key 7) :=
  ⟨rfl, by decide +kernel, by decide, by decide, by decide⟩

end Sample

namespace Device

/-- The leaf and the master of the sample find the same keys after the handshake. -/
theorem handshake_sample :
    EnrolledWith (Sample.mac 7) (Sample.key 7) Sample.enrolledLeaf.node ∧
      Sample.enrolledLeaf.node.keysOf Sample.crypto (Sample.mac 7) =
          e2eKeysOf Sample.crypto (Sample.key 1) (Sample.key 7) ∧
        Sample.ackedMaster.node.keysOf Sample.crypto (Sample.mac 1) =
          e2eKeysOf Sample.crypto (Sample.key 1) (Sample.key 7) := by
  have hno : NoBoot [(Sample.env 7 20200, .loop)] := noBoot_single (by simp)
  have hdone : NoBoot [] := fun _ hx => nomatch hx
  obtain ⟨request, hsent, -, hasked⟩ := handshake (e := Sample.env 1 20000) Sample.parties
    Sample.identity_askingLeaf (by decide +kernel)
    ⟨by decide +kernel, by decide +kernel, by decide +kernel, by decide +kernel, by decide +kernel⟩
    (by decide +kernel)
  have hrequest : transmits Sample.board Sample.askingLeaf
      (Sample.env 1 20000, .tickEnrollmentBroadcast) = [Sample.leafRequest] := by decide +kernel
  obtain rfl : request = Sample.leafRequest := by
    rw [hrequest] at hsent
    exact (List.cons.inj hsent).1.symm
  obtain ⟨ack, hsent, -, hacked⟩ := (hasked Sample.askedMaster (Sample.env 7 20100) (Sample.mac 1)
    Sample.leafRequest .refl Sample.identity_askedMaster (by decide +kernel)
    (.inl (by decide +kernel)) ⟨by decide +kernel, by decide +kernel, by decide +kernel⟩).2.2
    [(Sample.env 7 20200, .loop)] (Sample.env 7 20300) Sample.leafApproval hno (by decide +kernel)
    ⟨by decide +kernel, by decide +kernel⟩ (by decide +kernel)
  have hack : transmits Sample.serialMaster Sample.toldMaster
      (Sample.env 7 20300, .serial Sample.leafApproval) = [Sample.leafAck] := by decide +kernel
  obtain rfl : ack = Sample.leafAck := by
    have := hack.symm.trans hsent
    exact (List.cons.inj this).1.symm
  obtain ⟨henrolled, hkeys⟩ := hacked [] (Sample.env 1 20400) (Sample.mac 7) Sample.leafAck hdone
    .refl ⟨by decide +kernel, by decide +kernel, fun h => absurd h (by decide +kernel),
      .inl (by decide +kernel)⟩ ⟨by decide +kernel, by decide +kernel, by decide +kernel⟩
  exact ⟨henrolled, hkeys [] [] hdone hdone (by decide +kernel) (by decide +kernel)⟩

end Device

end LatticeMesh
