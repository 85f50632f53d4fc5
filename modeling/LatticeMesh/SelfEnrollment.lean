import LatticeMesh.KeyCache
import LatticeMesh.PeerMirror
import LatticeMesh.RelayState

/-!
# The registry and the node's own address

Peers that are added by hand are compared with the node's own address, peers that are registered
under a key are not.  The address of a registration comes from a frame: the origin of an enrollment
request at a master, the origin and the secondary master of a join acknowledgement at a leaf.

## Main definitions

* `RegistryMove` — an input of a running node, or a call of the registry.
* `Node.OwnUnlisted` — the registry knows the node's own address and does not list it.
* `registersSelf` — the move registers the node itself.

## Main results

* `ownUnlisted_step` — **a move that returns lists the node itself exactly when it registers it.**
* `ownUnlisted_run` — **so in a run without such moves the node is never listed.**
-/

namespace LatticeMesh

open EffectSpec Relation

variable {w : World} {s t : Node}

/-! ### Moves -/

/-- What can happen to the registry of a running node: an input, or a call made by hand. -/
inductive RegistryMove
  | input (i : Input) (hi : i ≠ .boot)
  | call (c : PeerCall)

/-- What a node does with a move. -/
def RegistryMove.run (w : World) : RegistryMove → MeshM Unit
  | .input i _ => handleInput w i
  | .call c => c.run w

/-- One move, each with its own surroundings. -/
def registryMove (x : World × RegistryMove) : MeshM Unit := x.2.run x.1

/-- The node's own address is `own`, the registry was told so, and does not list it. -/
structure Node.OwnUnlisted (own : Mac) (s : Node) : Prop where
  deviceMac : s.deviceMac = own
  registry : s.peers.deviceMac = own
  unlisted : own ∉ s.peers.macs

/-- Whether a received frame passes the version check and the replay check. -/
def passesGate (w : World) (s : Node) (m : Message) : Bool :=
  m.protoVersion = protoVersion && !(replayGate s.replay m w.nowMs).1

/-- Whether there is room for another peer once `mac` is registered. -/
def PeerRegistry.hasRoomBeside (r : PeerRegistry) (mac : Mac) : Bool :=
  if (r.find mac).isSome then r.count < maxPeers else r.count + 1 < maxPeers

/-- Whether a frame is an enrollment request that reaches the registry of this master. -/
def enrolls (s : Node) (m : Message) : Bool :=
  m.messageType = MessageType.enrollment && s.isMaster

/-- Whether a frame is a join acknowledgement for this leaf. -/
def acknowledges (s : Node) (m : Message) : Bool :=
  m.messageType = MessageType.joinAck && !s.isMaster && m.targetMac = s.deviceMac

/-- Whether a join acknowledgement registers this node itself: as its origin, or as the secondary
master that it names. -/
def joinAckNamesSelf (w : World) (s : Node) (m : Message) : Bool :=
  joinAckAccepted w.config s.enrollment m &&
    (m.originMac = s.deviceMac && s.peers.count < maxPeers ||
      m.ackSecondaryMac = s.deviceMac && m.ackSecondaryMac ≠ zeroMac &&
        s.peers.hasRoomBeside m.originMac)

/-- Whether a move registers the node itself: an enrollment request under the own address of a
master, a join acknowledgement that names the leaf it is for, or a registration by hand. -/
def registersSelf (w : World) (s : Node) : RegistryMove → Bool
  | .input (.rx _ m) _ => passesGate w s m &&
    (enrolls s m && m.originMac = s.deviceMac && s.peers.count < maxPeers ||
      acknowledges s m && joinAckNamesSelf w s m)
  | .call (.registerPeerWithKey mac _ _) => mac = s.deviceMac && s.peers.count < maxPeers
  | _ => false

/-! ### The addresses of the registry -/

theorem PeerRegistry.find_isSome_iff {r : PeerRegistry} {mac : Mac} :
    (r.find mac).isSome ↔ mac ∈ r.macs := by
  rw [← not_iff_not, Option.not_isSome_iff_eq_none, find_eq_none_iff]

/-- A registration lists its address if there is room, and no other one. -/
theorem PeerRegistry.mem_macs_registered (r : PeerRegistry) {mac x : Mac} (key : Key)
    (allowRekey : Bool) (nowMs : UInt64) :
    x ∈ (r.registered mac key allowRekey nowMs).macs ↔
      x ∈ r.macs ∨ x = mac ∧ r.count < maxPeers := by
  cases h : r.stores mac allowRekey with
  | true =>
    rw [registered, if_pos h]
    simp only [stores, Bool.and_eq_true, Bool.or_eq_true, decide_eq_true_eq] at h
    rw [r.macs_register_eq key nowMs h.2]
    split
    · rename_i hsome
      refine ⟨.inl, ?_⟩
      rintro (hx | ⟨rfl, -⟩)
      · exact hx
      · exact find_isSome_iff.1 hsome
    · rename_i hnew
      rw [List.mem_append, List.mem_singleton, and_iff_left (h.2.resolve_left hnew)]
  | false =>
    rw [r.macs_of_not_stores key nowMs h]
    refine ⟨.inl, ?_⟩
    rintro (hx | ⟨rfl, hlt⟩)
    · exact hx
    · -- with room, a registration that stores nothing finds an established key
      by_contra hx
      have hest : r.keyEstablished x = false := by rw [keyEstablished, find_eq_none_iff.2 hx]
      simp [stores, hest, hlt] at h

/-- The room that a registration leaves. -/
theorem PeerRegistry.count_registered (r : PeerRegistry) {mac : Mac} (key : Key) (nowMs : UInt64)
    (h : (r.find mac).isSome ∨ r.count < maxPeers) :
    (r.registered mac key false nowMs).count < maxPeers ↔ r.hasRoomBeside mac = true := by
  unfold hasRoomBeside registered
  split
  · unfold register
    split
    · rw [setKey, count_update]
      simp
    · rename_i hnew
      rw [append, dif_pos (show r.peers.length < maxPeers from h.resolve_left hnew),
        decide_eq_true_eq]
      simp [count]
  · rename_i hno
    have hsome : (r.find mac).isSome = true := by
      refine h.elim id fun hlt => ?_
      by_contra hnew
      have hest : r.keyEstablished mac = false := by
        rw [keyEstablished, Option.not_isSome_iff_eq_none.1 hnew]
      exact hno (by simp [stores, hest, hlt])
    rw [if_pos hsome]
    split
    · rw [touch, count_update]
      simp
    · simp

theorem PeerRegistry.deviceMac_register (r : PeerRegistry) {mac : Mac} (key : Key)
    (nowMs : UInt64) : (r.register mac key nowMs).deviceMac = r.deviceMac := by
  unfold register
  split
  · rfl
  · unfold append
    split <;> rfl

theorem PeerRegistry.deviceMac_registered (r : PeerRegistry) {mac : Mac} (key : Key)
    (allowRekey : Bool) (nowMs : UInt64) :
    (r.registered mac key allowRekey nowMs).deviceMac = r.deviceMac := by
  unfold registered
  split
  · exact r.deviceMac_register key nowMs
  · split <;> rfl

/-! ### Registrations -/

/-- What a registration that returned did to the registry, and what it returned. -/
structure Registered (w : World) (s : Node) (mac : Mac) (key : Key) (allowRekey : Bool) (r : Bool)
    (t : Node) : Prop where
  peers : t.peers = s.peers.registered mac key allowRekey w.nowMs
  result : r = ((s.peers.find mac).isSome || s.peers.count < maxPeers)

theorem registered_registerPeerWithKey {mac : Mac} {key : Key} {allowRekey : Bool} :
    wp (registerPeerWithKey w mac key allowRekey) (Registered w s mac key allowRekey)
      (fun _ _ => True) s := by
  refine wp_registration (fun hs => ?_) fun _ => ⟨rfl, rfl⟩
  rw [wp_bind]
  refine wp_mono _ (fun _ u hu => ?_) (fun _ _ h => h) keysKept_saveToEEPROM
  rw [wp_bind]
  refine wp_mono _ (fun _ t ht => ?_) (fun _ _ h => h) keysKept_enrollPeerWithRadio
  simp only [PeerRegistry.stores, Bool.and_eq_true] at hs
  exact ⟨(hu.trans ht).peers, hs.2.symm⟩

/-! ### Join acknowledgements -/

/-- A program after which the registry is as it was. -/
theorem wp_keepsDev {α : Type} {x : MeshM α} (h : KeepsDev x) :
    wp x (fun _ t => t.peers = s.peers) (fun _ _ => True) s :=
  wp_mono x (fun _ _ ht => congrArg Prod.snd ht) (fun _ _ _ => trivial) (h s)

theorem keepsDev_learnMasterFromAck (mac : Mac) : KeepsDev (learnMasterFromAck w mac) :=
  .read_bind fun _ => .ite (fun _ => .ret _) fun _ => keepsDev_learnMasterMac mac

/-- The registry after the secondary master of an acknowledgement was registered. -/
theorem wp_processJoinAckSecondary_peers {m : Message} :
    wp (processJoinAckSecondary w m) (fun _ t => ∀ x, x ∈ t.peers.macs ↔ x ∈ s.peers.macs ∨
      m.ackSecondaryMac ≠ zeroMac ∧ x = m.ackSecondaryMac ∧ s.peers.count < maxPeers)
      (fun _ _ => True) s := by
  unfold processJoinAckSecondary
  split
  · rename_i hz
    intro x
    simp [hz]
  · rename_i hz
    rw [wp_bind]
    refine wp_mono _ (fun r t ht => ?_) (fun _ _ h => h) registered_registerPeerWithKey
    have hmem : ∀ x, x ∈ t.peers.macs ↔ x ∈ s.peers.macs ∨
        m.ackSecondaryMac ≠ zeroMac ∧ x = m.ackSecondaryMac ∧ s.peers.count < maxPeers := by
      intro x
      rw [ht.peers, PeerRegistry.mem_macs_registered]
      simp [hz]
    rw [wp_bind, wp_get]
    split
    · refine wp_mono _ (fun _ u hu => ?_) (fun _ _ h => h)
        (wp_keepsDev (keepsDev_learnSecondaryMasterMac _))
      rw [hu]
      exact hmem
    · exact hmem

/-- The registry after an acknowledgement for this leaf. -/
theorem wp_processJoinAck_peers {m : Message} (h : s.deviceMac ∉ s.peers.macs) :
    wp (processJoinAck w m) (fun _ t => s.deviceMac ∈ t.peers.macs ↔ joinAckNamesSelf w s m = true)
      (fun _ _ => True) s := by
  unfold processJoinAck
  rw [wp_bind, wp_get]
  split
  · rename_i hacc
    rw [wp_bind]
    refine wp_mono _ (fun r t ht => ?_) (fun _ _ h => h) registered_registerPeerWithKey
    have hmem : s.deviceMac ∈ t.peers.macs ↔
        m.originMac = s.deviceMac ∧ s.peers.count < maxPeers := by
      rw [ht.peers, PeerRegistry.mem_macs_registered, or_iff_right h]
      tauto
    have hnames : joinAckNamesSelf w s m = true ↔
        m.originMac = s.deviceMac ∧ s.peers.count < maxPeers ∨
          (m.ackSecondaryMac = s.deviceMac ∧ m.ackSecondaryMac ≠ zeroMac) ∧
            s.peers.hasRoomBeside m.originMac = true := by
      simp [joinAckNamesSelf, hacc]
    rw [hnames]
    split
    · rename_i hr
      have hroom : (s.peers.find m.originMac).isSome ∨ s.peers.count < maxPeers := by
        rw [ht.result, Bool.or_eq_true, decide_eq_true_eq] at hr
        exact hr
      rw [wp_bind]
      refine wp_mono _ (fun _ u hu => ?_) (fun _ _ h => h) (wp_keepsDev (keepsDev_nvsSave _ _))
      rw [wp_bind, wp_modify, wp_bind]
      refine wp_mono _ (fun _ v hv => ?_) (fun _ _ h => h)
        (wp_keepsDev (keepsDev_learnMasterFromAck m.originMac))
      have hvt : v.peers = t.peers := hv.trans hu
      refine wp_mono _ (fun _ z hz => ?_) (fun _ _ h => h) wp_processJoinAckSecondary_peers
      rw [hz, hvt, hmem, ht.peers, s.peers.count_registered m.enrollmentPublicKey w.nowMs hroom]
      refine or_congr_right ⟨fun ⟨h₁, h₂, h₃⟩ => ⟨⟨h₂.symm, h₁⟩, h₃⟩, ?_⟩
      exact fun ⟨⟨h₁, h₂⟩, h₃⟩ => ⟨h₂, h₁.symm, h₃⟩
    · rename_i hr
      -- the sender is new and there is no room, neither for it nor for anyone else
      rw [ht.result, Bool.or_eq_true, not_or, decide_eq_true_eq] at hr
      have hfull : s.peers.hasRoomBeside m.originMac = false := by
        rw [PeerRegistry.hasRoomBeside, if_neg hr.1, decide_eq_false_iff_not]
        omega
      rw [wp_pure, hmem, hfull]
      simp
  · rename_i hacc
    rw [wp_pure, joinAckNamesSelf]
    simp [hacc, h]

/-! ### Received frames -/

/-- Receiving a frame makes no difference to what an acknowledgement does. -/
theorem joinAckNamesSelf_received {srcMac : Mac} {m : Message} :
    joinAckNamesSelf w (s.received w srcMac m) m = joinAckNamesSelf w s m := by
  have hcount : (s.received w srcMac m).peers.count = s.peers.count :=
    s.peers.count_updateLastSeen srcMac w.nowMs
  have hfound : ((s.received w srcMac m).peers.find m.originMac).isSome =
      (s.peers.find m.originMac).isSome := by
    rw [Bool.eq_iff_iff, PeerRegistry.find_isSome_iff, PeerRegistry.find_isSome_iff]
    exact iff_of_eq (congrArg _ (macs_updateLastSeen s.peers srcMac w.nowMs))
  unfold joinAckNamesSelf PeerRegistry.hasRoomBeside
  rw [hcount, hfound]
  rfl

theorem wp_handleReceivedMessage_peers {srcMac : Mac} {m : Message} {P : PeerRegistry → Prop}
    (hdrop : passesGate w s m = false → P s.peers)
    (hpass : passesGate w s m = true → wp (dispatchMessage w m) (fun _ t => P t.peers)
      (fun _ _ => True) (s.received w srcMac m)) :
    wp (handleReceivedMessage w srcMac m) (fun _ t => P t.peers) (fun _ _ => True) s := by
  unfold handleReceivedMessage
  split
  · rename_i hv
    exact hdrop (by simp [passesGate, hv])
  · rename_i hv
    have hv : m.protoVersion = protoVersion := not_not.1 hv
    rw [wp_bind, wp_get, wp_bind, wp_modify]
    split
    · rename_i hr
      exact hdrop (by simp [passesGate, hr])
    · rename_i hr
      rw [wp_bind, wp_modify]
      exact hpass (by simp [passesGate, hv, hr])

/-- An enrollment request at a master lists its origin if there is room. -/
theorem wp_processEnrollment_peers {m : Message} (hm : s.isMaster = true)
    (h : s.deviceMac ∉ s.peers.macs) :
    wp (processEnrollment w m) (fun _ t => s.deviceMac ∈ t.peers.macs ↔
      m.originMac = s.deviceMac ∧ s.peers.count < maxPeers) (fun _ _ => True) s := by
  unfold processEnrollment
  rw [wp_bind, wp_get, if_pos hm, wp_bind]
  refine wp_mono _ (fun r t ht => ?_) (fun _ _ h => h) registered_registerPeerWithKey
  have hreq : KeepsDev (processRequest w m) :=
    .read_bind fun _ => .ite (fun _ => .update fun _ => rfl) fun _ => .ret _
  refine wp_mono _ (fun _ u hu => ?_) (fun _ _ h => h) (wp_keepsDev hreq)
  rw [hu, ht.peers, PeerRegistry.mem_macs_registered, or_iff_right h]
  exact and_congr_left' eq_comm

/-! ### The other inputs -/

theorem PeerChange.deviceMac {i : Input} (h : PeerChange w i s t) :
    t.peers.deviceMac = s.peers.deviceMac := by
  cases h with
  | same hp | wiped _ hp => rw [hp]
  | touched hp =>
    rw [hp]
    rfl
  | registered _ hc hp =>
    rw [hp]
    exact s.peers.deviceMac_register _ _

theorem effects_registryMac {i : Input} (h : ReflTransGen (Effect w s i) s t) :
    t.peers.deviceMac = s.peers.deviceMac := by
  induction h with
  | refl => rfl
  | tail _ h ih => exact h.peerChange.deviceMac.trans ih

/-- Whether an input may register a peer that the server did not ask for. -/
def Input.mayEnroll (s : Node) : Input → Bool
  | .rx _ m => enrolls s m || acknowledges s m
  | _ => false

/-- Any other input lists no new address. -/
theorem effects_macs {i : Input} (hi : i.mayEnroll s = false)
    (h : ReflTransGen (Effect w s i) s t) : ∀ x ∈ t.peers.macs, x ∈ s.peers.macs := by
  induction h with
  | refl => exact fun _ hx => hx
  | @tail u v hu h ih =>
    intro x hx
    refine ih x ?_
    have hdev := (effects_sameDevice hu).deviceMac
    cases h.peerChange with
    | same hp | wiped _ hp => rwa [hp] at hx
    | touched hp =>
      rw [hp] at hx
      rwa [show (u.peers.touch _ _).macs = u.peers.macs from
        PeerRegistry.macs_update _ fun _ => rfl] at hx
    | registered hr hc hp =>
      have hrole : i ≠ .configButton → u.isMaster = s.isMaster := fun h => effects_isMaster h hu
      have hack : ∀ m, AcceptsJoinAck w i u m → False := by
        rintro m ⟨⟨srcMac, rfl⟩, ht, hm, hto, -⟩
        rw [hrole (by simp)] at hm
        rw [hdev] at hto
        simp [Input.mayEnroll, acknowledges, ht, hm, hto] at hi
      cases hr with
      | enrollment hi' ht hm =>
        subst hi'
        rw [hrole (by simp)] at hm
        simp [Input.mayEnroll, enrolls, ht, hm] at hi
      | joinAck h => exact (hack _ h).elim
      | secondary h => exact (hack _ h).elim
      | approved _ _ _ hfound =>
        rw [hp, PeerRegistry.macs_register_eq _ _ _ hc, hfound] at hx
        exact hx

/-! ### Calls -/

theorem wp_addAndPersist_peers {mac : Mac} :
    wp (addAndPersist w mac) (fun _ t => mac ≠ s.peers.deviceMac ∧
      t.peers = s.peers.append ⟨mac, Bytes.zero 32, w.nowMs⟩ ∨ t.peers = s.peers)
      (fun _ _ => True) s := by
  unfold addAndPersist
  rw [wp_bind, wp_get]
  split
  · exact .inr rfl
  · rename_i hnew
    rw [Bool.or_eq_true, not_or, decide_eq_true_eq] at hnew
    split
    · exact wp_mono _ (fun _ _ h => .inr h) (fun _ _ h => h) (wp_keepsDev (keepsDev_fail _ _ _ _))
    · rw [wp_bind, wp_modify]
      exact wp_mono _ (fun _ _ h => .inl ⟨hnew.2, h.peers⟩) (fun _ _ h => h) keysKept_saveToEEPROM

/-- A call lists the node itself only if it registers it under a key. -/
theorem wp_call_peers {c : PeerCall} {own : Mac} (h : s.OwnUnlisted own) :
    wp (c.run w) (fun _ t => t.peers.deviceMac = own ∧
      (own ∈ t.peers.macs ↔ registersSelf w s (.call c) = true)) (fun _ _ => True) s := by
  have hkept : ∀ r : PeerRegistry, r.deviceMac = s.peers.deviceMac → own ∉ r.macs →
      r.deviceMac = own ∧ (own ∈ r.macs ↔ false = true) := fun r hr hno =>
    ⟨hr.trans h.registry, by simp [hno]⟩
  cases c with
  | addAndPersist mac =>
    refine wp_mono _ (fun _ t ht => ?_) (fun _ _ h => h) wp_addAndPersist_peers
    rcases ht with ⟨hne, ht⟩ | ht
    · have hother : own ≠ mac := fun hm => hne (hm.symm.trans h.registry.symm)
      rw [ht]
      unfold PeerRegistry.append
      split
      · refine hkept _ rfl ?_
        simpa [PeerRegistry.macs, hother] using h.unlisted
      · exact hkept _ rfl h.unlisted
    · rw [ht]
      exact hkept _ rfl h.unlisted
  | removeAndPersist mac =>
    refine wp_mono _ (fun _ t ht => ?_) (fun _ _ h => h) wp_removeAndPersist
    rw [ht.macs]
    refine hkept _ rfl fun hown => h.unlisted ?_
    exact PeerRegistry.mem_of_mem_macs_remove hown
  | registerPeerWithKey mac key allowRekey =>
    show wp (registerPeerWithKey w mac key allowRekey >>= fun _ => pure ()) _ _ s
    rw [wp_bind]
    refine wp_mono _ (fun _ t ht => ?_) (fun _ _ h => h) registered_registerPeerWithKey
    rw [wp_pure, ht.peers]
    refine ⟨?_, ?_⟩
    · rw [PeerRegistry.deviceMac_registered]
      exact h.registry
    · rw [PeerRegistry.mem_macs_registered, or_iff_right h.unlisted]
      show _ ↔ (decide (mac = s.deviceMac) && decide (s.peers.count < maxPeers)) = true
      rw [Bool.and_eq_true, decide_eq_true_eq, decide_eq_true_eq, h.deviceMac]
      exact and_congr_left' eq_comm

/-! ### One move -/

theorem keeps_call (c : PeerCall) : KeepsRelay (c.run w) := by
  cases c with
  | addAndPersist mac => exact keeps_addAndPersist mac
  | removeAndPersist mac => exact keeps_removeAndPersist mac
  | registerPeerWithKey mac key allowRekey =>
    exact .bind (keeps_registerPeerWithKey mac key allowRekey) fun _ => .ret _

/-- What an input does to the registry, up to the peers that it lists. -/
theorem wp_input_device {i : Input} (hi : i ≠ .boot) :
    wp (handleInput w i) (fun _ t => t.deviceMac = s.deviceMac ∧
      t.peers.deviceMac = s.peers.deviceMac) (fun _ _ => True) s := by
  refine wp_mono _ (fun _ t ht => ?_) (fun _ _ _ => trivial) (does_handleInput hi)
  exact ⟨(effects_sameDevice ht.1).deviceMac, effects_registryMac ht.1⟩

/-- An enrollment request at a master, once it is received. -/
theorem wp_received_enrollment {srcMac : Mac} {m : Message} (hi : Input.rx srcMac m ≠ .boot)
    (h : s.deviceMac ∉ (s.received w srcMac m).peers.macs) (hpass : passesGate w s m = true)
    (hen : enrolls s m = true) :
    wp (dispatchMessage w m) (fun _ t => s.deviceMac ∈ t.peers.macs ↔
      registersSelf w s (.input (.rx srcMac m) hi) = true) (fun _ _ => True)
      (s.received w srcMac m) := by
  have hself : registersSelf w s (.input (.rx srcMac m) hi) =
      (decide (m.originMac = s.deviceMac) && decide (s.peers.count < maxPeers)) := by
    have hack : acknowledges s m = false := by
      simp only [enrolls, Bool.and_eq_true] at hen
      simp [acknowledges, hen.2]
    simp [registersSelf, hpass, hen, hack]
  simp only [enrolls, Bool.and_eq_true, decide_eq_true_eq] at hen
  rw [dispatchMessage, if_pos hen.1, hself, Bool.and_eq_true, decide_eq_true_eq, decide_eq_true_eq]
  refine wp_mono _ (fun _ t ht => ?_) (fun _ _ h => h)
    (wp_processEnrollment_peers (s := s.received w srcMac m) hen.2 h)
  rwa [show (s.received w srcMac m).peers.count = s.peers.count from
    s.peers.count_updateLastSeen srcMac w.nowMs] at ht

/-- A join acknowledgement at the leaf that it is for, once it is received. -/
theorem wp_received_joinAck {srcMac : Mac} {m : Message} (hi : Input.rx srcMac m ≠ .boot)
    (h : s.deviceMac ∉ (s.received w srcMac m).peers.macs) (hpass : passesGate w s m = true)
    (hack : acknowledges s m = true) :
    wp (dispatchMessage w m) (fun _ t => s.deviceMac ∈ t.peers.macs ↔
      registersSelf w s (.input (.rx srcMac m) hi) = true) (fun _ _ => True)
      (s.received w srcMac m) := by
  have hself : registersSelf w s (.input (.rx srcMac m) hi) = joinAckNamesSelf w s m := by
    have hen : enrolls s m = false := by
      simp only [acknowledges, Bool.and_eq_true, Bool.not_eq_true'] at hack
      simp [enrolls, hack.1.2]
    simp [registersSelf, hpass, hack, hen]
  simp only [acknowledges, Bool.and_eq_true, Bool.not_eq_true', decide_eq_true_eq] at hack
  obtain ⟨⟨ht, hm⟩, hto⟩ := hack
  have hto : m.targetMac = (s.received w srcMac m).deviceMac := hto
  have hleaf : (s.received w srcMac m).isMaster = false := hm
  rw [dispatchMessage, if_neg (by rw [ht]; decide), if_pos ht, hself]
  unfold dispatchJoinAck
  rw [wp_bind, wp_get, if_pos hto, if_neg (by simp [hleaf])]
  refine wp_mono _ (fun _ t ht => ?_) (fun _ _ h => h) (wp_processJoinAck_peers h)
  rw [joinAckNamesSelf_received] at ht
  exact ht

/-- An input lists the node itself exactly when it registers it. -/
theorem wp_input_listed {i : Input} (hi : i ≠ .boot) {own : Mac} (h : s.OwnUnlisted own) :
    wp (handleInput w i) (fun _ t => own ∈ t.peers.macs ↔ registersSelf w s (.input i hi) = true)
      (fun _ _ => True) s := by
  obtain rfl := h.deviceMac
  cases hmay : i.mayEnroll s with
  | false =>
    refine wp_mono _ (fun _ t ht => ?_) (fun _ _ _ => trivial) (does_handleInput hi)
    have hno : s.deviceMac ∉ t.peers.macs := fun hx => h.unlisted (effects_macs hmay ht.1 _ hx)
    refine ⟨fun hx => absurd hx hno, fun hr => ?_⟩
    cases i with
    | rx srcMac m =>
      simp only [Input.mayEnroll, Bool.or_eq_false_iff] at hmay
      simp [registersSelf, hmay.1, hmay.2] at hr
    | _ => cases hr
  | true =>
    cases i with
    | rx srcMac m =>
      have hun : s.deviceMac ∉ (s.received w srcMac m).peers.macs := by
        rw [show (s.received w srcMac m).peers.macs = s.peers.macs from
          macs_updateLastSeen s.peers srcMac w.nowMs]
        exact h.unlisted
      refine wp_handleReceivedMessage_peers (P := fun r => s.deviceMac ∈ r.macs ↔ _)
        (fun hdrop => ?_) fun hpass => ?_
      · simp [registersSelf, hdrop, h.unlisted]
      · simp only [Input.mayEnroll, Bool.or_eq_true] at hmay
        rcases hmay with hen | hack
        · exact wp_received_enrollment hi hun hpass hen
        · exact wp_received_joinAck hi hun hpass hack
    | _ => cases hmay

/-- **One move.**  A move that returns lists the node itself exactly when it registers it. -/
theorem ownUnlisted_step {x : World × RegistryMove} {own : Mac} (h : s.OwnUnlisted own) :
    wp (registryMove x) (fun _ t => t.OwnUnlisted own ↔ registersSelf x.1 s x.2 = false)
      (fun _ _ => True) s := by
  obtain ⟨w, mv⟩ := x
  have hiff : ∀ t : Node, t.deviceMac = own → t.peers.deviceMac = own →
      (own ∈ t.peers.macs ↔ registersSelf w s mv = true) →
      (t.OwnUnlisted own ↔ registersSelf w s mv = false) := by
    intro t hd hr hlisted
    rw [← Bool.not_eq_true, ← hlisted]
    exact ⟨fun ht => ht.unlisted, fun hno => ⟨hd, hr, hno⟩⟩
  cases mv with
  | input i hi =>
    refine wp_mono _ (fun _ t ht => ?_) (fun _ _ _ => trivial)
      (wp_and _ (wp_input_device hi) (wp_input_listed hi h))
    exact hiff t (ht.1.1.trans h.deviceMac) (ht.1.2.trans h.registry) ht.2
  | call c =>
    refine wp_mono _ (fun _ t ht => ?_) (fun _ _ _ => trivial)
      (wp_and _ (wp_call_peers h) (keeps_call c s))
    exact hiff t ((congrArg RelayState.deviceMac ht.2).trans h.deviceMac) ht.1.1 ht.1.2

/-! ### Runs -/

/-- In every state that the moves reach, the registry does not list the node itself. -/
def NeverListed (own : Mac) (s : Node) (xs : List (World × RegistryMove)) : Prop :=
  Runs.Along (Calls.step registryMove)
    (fun o x => ∀ t, Calls.step registryMove o x = some t → t.OwnUnlisted own) (some s) xs

/-- No move of the run registers the node itself. -/
def NeverRegistersSelf (s : Node) (xs : List (World × RegistryMove)) : Prop :=
  Calls.Admits registryMove (fun s x => registersSelf x.1 s x.2 = false) s xs

/-- **A node is never listed in a run in which no move registers it**, and as long as every move
returns, in no other run. -/
theorem ownUnlisted_run {own : Mac} {xs : List (World × RegistryMove)} (h : s.OwnUnlisted own) :
    (NeverRegistersSelf s xs → NeverListed own s xs) ∧
      ((Runs.run (Calls.step registryMove) (some s) xs).isSome → NeverListed own s xs →
        NeverRegistersSelf s xs) := by
  refine ⟨fun hc => ?_, fun ht hn => ?_⟩
  · refine Runs.along_of_invariant (I := fun o => ∀ u, o = some u → u.OwnUnlisted own) ?_ ?_ hc
    · rintro _ ⟨⟩
      exact h
    · intro o x ho hx
      have hstep : ∀ t, Calls.step registryMove o x = some t → t.OwnUnlisted own := by
        intro t ht
        obtain ⟨u, rfl, hu⟩ := Option.bind_eq_some_iff.1 ht
        obtain ⟨-, hiff⟩ := Calls.wp_returned (ownUnlisted_step (ho u rfl)) hu
        exact hiff.2 (hx u rfl)
      exact ⟨hstep, hstep⟩
  · induction xs generalizing s with
    | nil => trivial
    | cons x xs ih =>
      obtain ⟨hx, hxs⟩ := hn
      cases hu : Calls.step registryMove (some s) x with
      | none =>
        rw [Runs.run_cons, hu, Calls.run_none] at ht
        cases ht
      | some u =>
        have hown := hx u hu
        obtain ⟨-, hiff⟩ := Calls.wp_returned (ownUnlisted_step h) hu
        rw [hu] at hxs
        rw [Runs.run_cons, hu] at ht
        refine ⟨?_, ?_⟩
        · rintro _ ⟨⟩
          exact hiff.1 hown
        · rw [hu]
          exact ih hown ht hxs

namespace Sample

/-- The leaf after its first boot. -/
def bootedLeaf : Node := (Device.run board (Device.blank {}) [(env 1 100, .boot)]).node

/-- The surroundings of the leaf. -/
def leafWorld : World := board.world (env 1 200)

/-- The leaf hears an enrollment request of its neighbour, is admitted by the master and is told
about another node. -/
def leafMoves : List (World × RegistryMove) :=
  [(leafWorld, .input (.rx (mac 2) (frame 2 MessageType.enrollment 1 1)) (by simp)),
    (leafWorld, .input (.rx (mac 7) joinAck) (by simp)),
    (leafWorld, .call (.addAndPersist (mac 1)))]

/-- An acknowledgement that names the leaf it admits as the secondary master. -/
def selfNamingAck : Message := { joinAck with data := joinAckData (key 1) (some (mac 1, key 9)) }

end Sample

theorem Sample.bootedLeaf_ownUnlisted : Sample.bootedLeaf.OwnUnlisted (Sample.mac 1) :=
  ⟨by decide +kernel, by decide +kernel, by decide +kernel⟩

/-- A leaf that is admitted and told to add itself does not list itself. -/
theorem ownUnlisted_run_admitted :
    NeverListed (Sample.mac 1) Sample.bootedLeaf Sample.leafMoves := by
  refine (ownUnlisted_run Sample.bootedLeaf_ownUnlisted).1 ?_
  refine ⟨Calls.forall_of_all ?_, Calls.forall_of_all ?_, Calls.forall_of_all ?_, trivial⟩
  · decide +kernel
  · decide +kernel
  · decide +kernel

/-- **An acknowledgement that names the leaf itself as the secondary master** makes the leaf a peer
of its own. -/
theorem not_ownUnlisted_run_named : ¬∀ (s : Node) (own : Mac) (xs : List (World × RegistryMove)),
    s.OwnUnlisted own → NeverListed own s xs := by
  intro h
  have hn := h Sample.bootedLeaf (Sample.mac 1)
    [(Sample.leafWorld, .input (.rx (Sample.mac 7) Sample.selfNamingAck) (by simp))]
    Sample.bootedLeaf_ownUnlisted
  have hlisted : ((Calls.step registryMove (some Sample.bootedLeaf) (Sample.leafWorld,
      .input (.rx (Sample.mac 7) Sample.selfNamingAck) (by simp))).any
        fun t => decide (Sample.mac 1 ∈ t.peers.macs)) = true := by decide +kernel
  obtain ⟨t, ht, hmem⟩ := Option.any_eq_true _ _ |>.1 hlisted
  exact (hn.1 t ht).unlisted (by simpa using hmem)

end LatticeMesh
