import LatticeMesh.ForgedMarks
import LatticeMesh.Twins
import LatticeMesh.RelayOnce
import LatticeMesh.MasterOnly

/-!
# Forged frames

A node checks a frame against its replay cache before it opens it.  A frame that is forged and does
not open is dropped, but by then it has raised the mark of the origin whose address it bears, or has
taken a slot of the cache.  The replay cache is the only way in which it reaches the frames that
come later: whatever else it touches makes no difference to what they do.

## Main definitions

* `Node.rejects` — the frame is sealed, addressed to this node, and does not open.
* `Device.Forged` — every extra frame of a sequence is rejected where it arrives.
* `Device.SparesGenuine` — every extra frame that raises a mark where it arrives is below the
  genuine frames of its origin that are to come, and no origin loses its slot from there on.

## Main results

* `hush_handleReceivedMessage` — a frame that is rejected leaves a twin behind.
* `Device.deliveries_receiveAll` — **extra frames that are rejected change no delivery if they spare
  the marks and the slots of the genuine ones.**
-/

namespace LatticeMesh

open EffectSpec TwoRuns

variable {w : World} {s t : Node} {m : Message}

/-! ### Frames that do not open -/

/-- The program returned, and it returned nothing. -/
def returnsNone : EStateM.Result Halt Node (Option Message) → Bool
  | .ok none _ => true
  | _ => false

/-- The frame is of a sealed type and addressed to this node, and it does not open: at a master with
the keys of its origin, at a leaf, for which only data is sealed, with those of its master. -/
def Node.rejects (s : Node) (w : World) (m : Message) : Bool :=
  isSealedType m.messageType && m.targetMac = s.deviceMac &&
    if s.isMaster then returnsNone (openUplink w m s)
    else m.messageType = MessageType.adapterData && returnsNone (openDownlink w m s)

theorem exists_of_returnsNone {r : EStateM.Result Halt Node (Option Message)}
    (h : returnsNone r = true) : ∃ t, r = .ok none t := by
  cases r with
  | ok a t =>
    cases a with
    | none => exact ⟨t, rfl⟩
    | some o => simp [returnsNone] at h
  | error e t => simp [returnsNone] at h

/-- A program that ends alike returns nothing from a twin if it returns nothing. -/
theorem returnsNone_twin {c : Crypto} {x : MeshM (Option Message)} (hx : Alike (Twin c) x)
    (h : Twin c s t) : returnsNone (x t) = returnsNone (x s) := by
  have hsame := hx s t h
  unfold Twice at hsame
  cases hxs : x s with
  | ok a s' =>
    cases hxt : x t with
    | ok a' t' =>
      rw [hxs, hxt] at hsame
      cases hsame with
      | ok _ => cases a <;> rfl
    | error e t' => rw [hxs, hxt] at hsame; cases hsame
  | error e s' =>
    cases hxt : x t with
    | ok a' t' => rw [hxs, hxt] at hsame; cases hsame
    | error e' t' => rfl

/-- Twins reject the same frames. -/
theorem Twin.rejects (h : Twin w.crypto s t) : t.rejects w m = s.rejects w m := by
  unfold Node.rejects
  rw [h.deviceMac, h.isMaster, returnsNone_twin (alike_openUplink m) h,
    returnsNone_twin (alike_openDownlink m) h]

/-- What a lookup leaves behind is a twin. -/
theorem Twin.of_lookedUp {c : Crypto} {mac : Mac} {r : Option E2EKeys} (h : CacheCoherent c s)
    (hr : r = s.keysOf c mac) (ht : LookedUp s mac r t) : Twin c s t := by
  refine ⟨?_, h, h.lookedUp hr ht⟩
  rcases ht with rfl | ⟨keys, -, rfl⟩
  · rfl
  · exact s.visible_insert mac keys

theorem hush_openWith (key : Key) : Hush w s (openWith w key m) := by
  unfold openWith
  split
  · exact .bind (hush_emit rfl) fun _ _ _ => .ret
  · exact .ret

theorem wp_twin_peerE2EKeys {mac : Mac} (h : CacheCoherent w.crypto s) :
    wp (peerE2EKeys w mac) (fun _ t => Twin w.crypto s t) (fun _ _ => True) s :=
  wp_mono _ (fun _ _ ht => .of_lookedUp h ht.1 ht.2) (fun _ _ _ => trivial) wp_peerE2EKeys

theorem wp_twin_masterE2EKeys (h : CacheCoherent w.crypto s) :
    wp (masterE2EKeys w) (fun _ t => Twin w.crypto s t) (fun _ _ => True) s := by
  unfold masterE2EKeys
  rw [wp_bind, wp_get]
  split
  · exact wp_twin_peerE2EKeys h
  · exact Twin.refl h

/-- Opening a frame with the keys that a lookup finds leaves a twin behind, if the lookup does. -/
theorem wp_twin_open {x : MeshM (Option E2EKeys)} {half : E2EKeys → Key}
    (hx : wp x (fun _ t => Twin w.crypto s t) (fun _ _ => True) s) :
    wp (x >>= fun keys? =>
      match keys? with
      | some keys => openWith w (half keys) m
      | none => pure none) (fun _ t => Twin w.crypto s t) (fun _ _ => True) s := by
  rw [wp_bind]
  refine wp_mono x (fun keys? t ht => ?_) (fun _ _ h => h) hx
  cases keys? with
  | none => exact ht
  | some keys =>
    exact wp_mono _ (fun _ u hu => ht.trans hu) (fun _ _ _ => trivial)
      (hush_openWith (half keys) (.refl ht.right))

/-- A program that returns nothing, in terms of its postcondition. -/
theorem wp_of_returnsNone {x : MeshM (Option Message)} (hr : returnsNone (x s) = true)
    (hx : wp x (fun _ t => Twin w.crypto s t) (fun _ _ => True) s) :
    wp x (fun r t => r = none ∧ Twin w.crypto s t) (fun _ _ => False) s := by
  obtain ⟨t, ht⟩ := exists_of_returnsNone hr
  have htwin := wp_ok (Q := fun _ t => Twin w.crypto s t) ht hx
  unfold wp
  rw [ht]
  exact ⟨rfl, htwin⟩

/-- A data frame that does not open is dropped where it is addressed. -/
theorem hush_deliverAdapterData {isBroadcastTarget : Bool} (h : s.rejects w m = true)
    (hm : m.messageType = MessageType.adapterData) :
    Hush w s (deliverAdapterData w m true isBroadcastTarget) := by
  intro hs
  have hsealed : isSealedType m.messageType = true := by rw [hm]; rfl
  have hopen : wp (authorize w m true) (fun r t => r = none ∧ Twin w.crypto s t)
      (fun _ _ => False) s := by
    unfold authorize
    rw [wp_bind, wp_get]
    simp only [Node.rejects, Bool.and_eq_true] at h
    cases hmaster : s.isMaster with
    -- at the master the keys of the origin do not open it
    | true =>
      rw [hmaster, if_pos rfl] at h
      simp only [hsealed, Bool.not_true, Bool.and_false, Bool.false_and, Bool.true_and, if_true,
        Bool.false_eq_true, if_false]
      have hnone := wp_of_returnsNone h.2 (wp_twin_open (wp_twin_peerE2EKeys hs.left))
      rw [wp_bind]
      refine wp_mono _ ?_ (fun _ _ hf => hf) hnone
      rintro _ t ⟨rfl, ht⟩
      exact ⟨rfl, ht⟩
    | false =>
      -- at a leaf those of the master do not
      rw [hmaster, if_neg (by simp)] at h
      simp only [Bool.and_eq_true] at h
      simp only [hm, Bool.not_false, Bool.and_true, Bool.false_and, if_true, Bool.false_eq_true,
        if_false, decide_true]
      have hnone := wp_of_returnsNone h.2.2 (wp_twin_open (wp_twin_masterE2EKeys hs.left))
      rw [wp_bind]
      refine wp_mono _ ?_ (fun _ _ hf => hf) hnone
      rintro _ t ⟨rfl, ht⟩
      exact ⟨rfl, ht⟩
  unfold deliverAdapterData
  rw [wp_bind]
  refine wp_mono _ ?_ (fun _ _ hf => hf) hopen
  rintro _ t ⟨rfl, ht⟩
  exact ht

/-- A data frame that is addressed to this node is not routed. -/
theorem routeDecision_addressed (h : m.targetMac = s.deviceMac) :
    s.routeDecision m = .notRouted := by
  unfold Node.routeDecision classify
  rw [if_pos (by simp [h])]

/-- A route report that does not open is dropped at the master. -/
theorem hush_acceptRouteReport {externalRecvCallback : Message → MeshM Unit}
    (h : returnsNone (openUplink w m s) = true) :
    Hush w s (acceptRouteReport w m externalRecvCallback) := by
  intro hs
  have hopen := wp_of_returnsNone h (wp_twin_open (wp_twin_peerE2EKeys hs.left))
  unfold openUplink at hopen
  unfold acceptRouteReport
  rw [wp_bind] at hopen ⊢
  refine wp_mono _ (fun keys? t ht => ?_) (fun _ _ hf => hf) hopen
  cases keys? with
  | none => exact ht.2
  | some keys =>
    dsimp only at ht ⊢
    rw [wp_bind]
    refine wp_mono _ ?_ (fun _ _ hf => hf) ht
    rintro _ u ⟨rfl, hu⟩
    exact hu

theorem hush_dispatchMessage (h : s.rejects w m = true) : Hush w s (dispatchMessage w m) := by
  have hparts := h
  simp only [Node.rejects, Bool.and_eq_true, decide_eq_true_eq] at hparts
  obtain ⟨⟨hsealed, hto⟩, hopen⟩ := hparts
  simp only [isSealedType, Bool.or_eq_true, beq_iff_eq] at hsealed
  unfold dispatchMessage
  rcases hsealed with hm | hm
  · rw [if_neg (hm ▸ by decide), if_neg (hm ▸ by decide), if_neg (hm ▸ by decide), if_pos hm]
    refine .read_bind ?_
    rw [routeDecision_addressed hto, hto, decide_eq_true rfl]
    exact hush_deliverAdapterData h hm
  · rw [if_neg (hm ▸ by decide), if_neg (hm ▸ by decide), if_neg (hm ▸ by decide),
      if_neg (hm ▸ by decide), if_pos hm]
    refine .read_bind ?_
    -- a leaf does not reject route reports, it passes them on
    cases hmaster : s.isMaster with
    | true =>
      rw [hmaster, if_pos rfl] at hopen
      rw [if_pos rfl]
      exact hush_acceptRouteReport hopen
    | false =>
      rw [hmaster, if_neg (by simp), hm] at hopen
      simp [MessageType.routeReport, MessageType.adapterData] at hopen

/-! ### The checks of a received frame -/

/-- A new state of the replay cache is not visible. -/
theorem Twin.withReplay {c : Crypto} (h : Twin c s t) (r : ReplayCache) :
    Twin c s { t with replay := r } := ⟨h.visible, h.left, h.right⟩

/-- Nor is the time at which a peer was heard. -/
theorem Twin.heard {c : Crypto} (h : Twin c s t) (mac : Mac) (nowMs : UInt64) :
    Twin c s { t with peers := t.peers.updateLastSeen mac nowMs } := by
  refine ⟨?_, h.left, h.right.congr (fun mac' key' hk _ => by simpa using hk) rfl rfl⟩
  show { t.visible with peers := (t.peers.updateLastSeen mac nowMs).timeless } = s.visible
  rw [PeerRegistry.timeless_updateLastSeen]
  exact h.visible

/-- **A frame that is rejected leaves a twin behind**, whether it gets past the checks or not. -/
theorem hush_handleReceivedMessage (srcMac : Mac) (h : s.rejects w m = true) :
    Hush w s (handleReceivedMessage w srcMac m) := by
  refine .ite (fun _ => .ret) fun _ => .read_bind ?_
  refine .bind (.update fun hs => hs.withReplay _) fun _ t ht => ?_
  refine .ite (fun _ => .ret) fun _ => .bind (.update fun ht => ht.heard _ _) fun _ u hu => ?_
  exact hush_dispatchMessage (by rw [hu.rejects, ht.rejects, h])

/-- A frame that the replay check answers alike does the same to twins. -/
theorem twice_handleReceivedMessage
    (hdisplay : w.config.enableSevsegDisplay = true → w.displayAck = true) {srcMac : Mac}
    (h : Twin w.crypto s t) (hgate : m.protoVersion = protoVersion →
      (replayGate s.replay m w.nowMs).1 = (replayGate t.replay m w.nowMs).1) :
    Twice (Twin w.crypto) (handleReceivedMessage w srcMac m) (handleReceivedMessage w srcMac m)
      s t := by
  unfold handleReceivedMessage
  by_cases hv : m.protoVersion = protoVersion
  · rw [if_neg (not_not.2 hv)]
    refine Twice.read_bind (Twice.update_bind ?_)
    rw [hgate hv]
    have hreplay := ((h.withReplay (replayGate t.replay m w.nowMs).2).symm.withReplay
      (replayGate s.replay m w.nowMs).2).symm
    split
    · exact .ret hreplay
    · refine Twice.update_bind (alike_dispatchMessage hdisplay m _ _ ?_)
      exact ((hreplay.heard srcMac w.nowMs).symm.heard srcMac w.nowMs).symm
  · rw [if_pos hv]
    exact .ret h

/-! ### Sequences of frames -/

namespace Device

variable {b : Board} {d d' : Device} {r : Reception} {rs : List Reception}

/-- The device after it received a frame. -/
def receive (b : Board) (d : Device) (r : Reception) : Device :=
  step b d (r.env, .rx r.srcMac r.msg)

/-- The device after it received a sequence of frames. -/
def receiveAll (b : Board) (d : Device) (rs : List Reception) : Device := Runs.run (receive b) d rs

/-- Every extra frame of the sequence is rejected where it arrives. -/
def Forged (b : Board) (d : Device) (rs : List Reception) : Prop :=
  Runs.Along (receive b) (fun d r => r.extra = true → d.status = .running →
    d.node.rejects (b.world r.env) r.msg = true) d rs

instance (b : Board) (d : Device) (rs : List Reception) : Decidable (Forged b d rs) :=
  Runs.decidableAlong _ _

/-- Every extra frame of the sequence that raises a mark where it arrives, or takes a slot, is below
the later genuine frames of its origin, and the slots suffice from there on. -/
def SparesGenuine (b : Board) : Device → List Reception → Prop
  | _, [] => True
  | d, r :: rs =>
    (r.extra = true → d.status = .running → d.node.replay.Raises r →
      d.node.replay.Harmless r rs) ∧ SparesGenuine b (receive b d r) rs

instance decidableSparesGenuine (b : Board) : ∀ (d : Device) (rs : List Reception),
    Decidable (SparesGenuine b d rs)
  | _, [] => isTrue trivial
  | d, r :: rs =>
    have : Decidable (SparesGenuine b (receive b d r) rs) := decidableSparesGenuine b _ _
    inferInstanceAs (Decidable (_ ∧ _))

/-- A device that does not run ignores every frame. -/
theorem receiveAll_of_not_running (hs : d.status ≠ .running) : receiveAll b d rs = d := by
  induction rs with
  | nil => rfl
  | cons r rs ih =>
    have hstep : receive b d r = d := step_ignored (by simp) hs
    show receiveAll b (receive b d r) rs = d
    rw [hstep, ih]

/-- Devices in the same state whose nodes are twins. -/
structure Twins (c : Crypto) (d d' : Device) : Prop where
  status : d'.status = d.status
  node : Twin c d.node d'.node

theorem Twins.of_sameEnd {c : Crypto} {x y : EStateM.Result Halt Node Unit}
    (h : SameEnd (Twin c) x y) : Twins c (ofResult x) (ofResult y) := by
  cases h with
  | ok h => exact ⟨rfl, h⟩
  | error h => exact ⟨rfl, h⟩

theorem receive_running (hs : d.status = .running) :
    receive b d r = ofResult (handleReceivedMessage (b.world r.env) r.srcMac r.msg
      (d.inputNode (.rx r.srcMac r.msg))) :=
  step_of_input (by simp) hs

/-- The mark of an input in the history is not visible. -/
theorem twin_inputNode {c : Crypto} {i : Input} (h : CacheCoherent c d.node) :
    Twin c d.node (d.inputNode i) := by
  refine ⟨?_, h, h⟩
  unfold inputNode
  rw [Node.visible_emit]
  rfl

/-- The replay cache after a frame is the one that the checks leave behind. -/
theorem receive_replay (hs : d.status = .running) :
    (receive b d r).node.replay = (d.node.replay.check r).2 := by
  unfold ReplayCache.check
  split
  · have hstop : stopsFrame d.node r.msg r.env.nowMs = true := by simp [stopsFrame, *]
    have hstep : receive b d r = _ := step_replayed hs hstop
    rw [hstep]
    rfl
  · exact step_rx_replay hs (not_not.1 ‹_›)

/-- A forged frame turns the device into a twin of itself. -/
theorem twins_forged (h : Twins b.crypto d d') (hs : d.status = .running)
    (hr : d.node.rejects (b.world r.env) r.msg = true) :
    Twins b.crypto (receive b d r) d' := by
  have htwin : Twin b.crypto d.node (d.inputNode (.rx r.srcMac r.msg)) :=
    twin_inputNode h.node.left
  have hrej : (d.inputNode (.rx r.srcMac r.msg)).rejects (b.world r.env) r.msg = true := by
    rw [Twin.rejects (w := b.world r.env) htwin, hr]
  obtain ⟨⟨⟩, t, ht, htt⟩ :=
    exists_ok (hush_handleReceivedMessage r.srcMac hrej (.refl htwin.right))
  rw [receive_running hs, ht]
  exact ⟨h.status.trans hs, (htwin.trans htt).symm.trans h.node⟩

/-- A frame that the replay check answers alike keeps twins twins. -/
theorem twins_receive (h : Twins b.crypto d d') (hs : d.status = .running)
    (hdisplay : b.config.enableSevsegDisplay = true → r.env.displayAck = true)
    (hcheck : (d.node.replay.check r).1 = (d'.node.replay.check r).1) :
    Twins b.crypto (receive b d r) (receive b d' r) := by
  have hboth : Twin b.crypto (d.inputNode (.rx r.srcMac r.msg))
      (d'.inputNode (.rx r.srcMac r.msg)) :=
    (twin_inputNode h.node.left).symm.trans (h.node.trans (twin_inputNode h.node.right))
  have hsame : Twice (Twin (b.world r.env).crypto)
      (handleReceivedMessage (b.world r.env) r.srcMac r.msg)
      (handleReceivedMessage (b.world r.env) r.srcMac r.msg) (d.inputNode (.rx r.srcMac r.msg))
      (d'.inputNode (.rx r.srcMac r.msg)) := by
    refine twice_handleReceivedMessage hdisplay hboth fun hv => ?_
    unfold ReplayCache.check at hcheck
    rwa [if_neg (not_not.2 hv), if_neg (not_not.2 hv)] at hcheck
  rw [receive_running hs, receive_running (h.status.trans hs)]
  exact .of_sameEnd hsame

/-- **Extra frames that are rejected keep twins twins**, as long as they spare the genuine ones. -/
theorem twins_receiveAll (h : Twins b.crypto d d') (hforged : Forged b d rs)
    (hdisplay : b.config.enableSevsegDisplay = true → ∀ r ∈ rs, r.env.displayAck = true)
    (hspares : SparesGenuine b d rs)
    (hagree : ReplayCache.Agree d.node.replay d'.node.replay rs) :
    Twins b.crypto (receiveAll b d rs) (receiveAll b d' (genuine rs)) := by
  induction rs generalizing d d' with
  | nil => exact h
  | cons r rs ih =>
    by_cases hs : d.status = .running
    · have hs' : d'.status = .running := h.status.trans hs
      have hlater : b.config.enableSevsegDisplay = true → ∀ r ∈ rs, r.env.displayAck = true :=
        fun he q hq => hdisplay he q (List.mem_cons_of_mem r hq)
      cases hr : r.extra with
      | true =>
        -- only the first device receives the frame
        rw [genuine_cons_extra rs hr]
        refine ih (twins_forged h hs (hforged.1 hr hs)) hforged.2 hlater hspares.2 ?_
        rw [receive_replay hs]
        exact hagree.extra (hspares.1 hr hs)
      | false =>
        rw [genuine_cons rs hr]
        have hnow := fun he => hdisplay he r List.mem_cons_self
        refine ih (twins_receive h hs hnow (hagree.answer hr)) hforged.2 hlater hspares.2 ?_
        rw [receive_replay hs, receive_replay hs']
        exact hagree.genuine hr
    · rw [receiveAll_of_not_running hs, receiveAll_of_not_running (by rwa [h.status])]
      exact h

/-- While a node runs its replay cache is well formed. -/
theorem wellFormed_step {x : Env × Input}
    (h : d.status = .running → ReplayCache.WellFormed d.node.replay)
    (hrun : (step b d x).status = .running) :
    ReplayCache.WellFormed (step b d x).node.replay := by
  obtain ⟨e, i⟩ := x
  by_cases hi : i = .boot
  · subst hi
    have hempty : (run b (step b d (e, .boot)) []).node.replay = ReplayCache.empty :=
      replay_eq_after (by simp) hrun
    rw [show (step b d (e, .boot)).node.replay = ReplayCache.empty from hempty]
    exact ReplayCache.wellFormed_empty
  · have hs : d.status = .running := by
      by_contra hs
      rw [step_ignored hi hs] at hrun
      exact hs hrun
    by_cases hrx : ∃ srcMac m, i = .rx srcMac m
    · obtain ⟨srcMac, m, rfl⟩ := hrx
      rw [show (step b d (e, .rx srcMac m)).node.replay = _ from
        receive_replay (r := ⟨e, srcMac, m, false⟩) hs]
      exact ReplayCache.wellFormed_check (h hs)
    · rw [step_of_input hi hs,
        ofResult_of_wp (keeps_replay_handleInput hi (fun srcMac m he => hrx ⟨srcMac, m, he⟩) _)]
      exact h hs

theorem wellFormed_run {v : Nvs} {xs : List (Env × Input)}
    (hrun : (run b (blank v) xs).status = .running) :
    ReplayCache.WellFormed (run b (blank v) xs).node.replay := by
  induction xs using List.reverseRecOn with
  | nil => cases hrun
  | append_singleton xs x ih =>
    rw [run_snoc] at hrun ⊢
    exact wellFormed_step ih hrun

/-- **Extra frames that are rejected change no delivery**, if they spare the marks and the slots of
the genuine frames. -/
theorem deliveries_receiveAll {v : Nvs} {xs : List (Env × Input)}
    (hforged : Forged b (run b (blank v) xs) rs)
    (hdisplay : b.config.enableSevsegDisplay = true → ∀ r ∈ rs, r.env.displayAck = true)
    (hspares : SparesGenuine b (run b (blank v) xs) rs) :
    (receiveAll b (run b (blank v) xs) rs).node.deliveries =
      (receiveAll b (run b (blank v) xs) (genuine rs)).node.deliveries := by
  have hmeets : (run b (blank v) xs).Meets _ _ := (cacheCoherent_invariant b fun _ _ => True).run
    (meets_blank trivial) (Runs.along_of_forall (fun _ _ => trivial) _ _)
  have hwf : (run b (blank v) xs).status = .running →
      ReplayCache.WellFormed (run b (blank v) xs).node.replay := wellFormed_run
  generalize run b (blank v) xs = d at hforged hspares hmeets hwf ⊢
  by_cases hs : d.status = .running
  · have htwins : Twins b.crypto d d := ⟨rfl, .refl (hmeets.2 hs)⟩
    have hagree : ReplayCache.Agree d.node.replay d.node.replay rs := .refl (hwf hs)
    exact (twins_receiveAll htwins hforged hdisplay hspares hagree).node.deliveries.symm
  · rw [receiveAll_of_not_running hs, receiveAll_of_not_running hs]

end Device

/-! ### Forgeries at a sample master -/

namespace Sample

/-- A data frame that the station 5 seals for the master. -/
def sealedReading : Message :=
  let m := { frame 5 MessageType.adapterData 1 4 with targetMac := mac 7 }
  (sealPayload crypto ((xor (key 1) (key 5)).map (· + 1)) m).getD m

/-- A data frame for the master under the address of a station, which nobody sealed. -/
def forgedReading (origin : UInt8) (epochNum : UInt32) (seqNum : UInt16) : Message :=
  { frame origin MessageType.adapterData epochNum seqNum with targetMac := mac 7 }

/-- Forged frames arrive before the genuine one. -/
def forgedFirst (forged : List Message) : List Reception :=
  forged.map (fun m => ⟨env 1 500, mac 9, m, true⟩) ++ [⟨env 1 600, mac 5, sealedReading, false⟩]

end Sample

namespace Device

set_option maxRecDepth 100000 in
/-- A forged frame that takes a slot of its own and one that is below the genuine frame leave that
frame to be delivered. -/
theorem deliveries_spared :
    let d := run Sample.masterBoard (blank {}) Sample.newMaster
    let rs := Sample.forgedFirst [Sample.forgedReading 9 9 9, Sample.forgedReading 5 1 3]
    (receiveAll Sample.masterBoard d rs).node.deliveries =
        (receiveAll Sample.masterBoard d (genuine rs)).node.deliveries ∧
      (receiveAll Sample.masterBoard d rs).node.deliveries ≠ [] :=
  ⟨deliveries_receiveAll (by decide +kernel) (by decide) (by decide +kernel), by decide +kernel⟩

set_option maxRecDepth 100000 in
/-- **A forged frame suppresses the genuine one** under whose address it was sent. -/
theorem not_deliveries_forged : ¬∀ (b : Board) (v : Nvs) (xs : List (Env × Input))
    (rs : List Reception), Forged b (run b (blank v) xs) rs →
      (b.config.enableSevsegDisplay = true → ∀ r ∈ rs, r.env.displayAck = true) →
      (receiveAll b (run b (blank v) xs) rs).node.deliveries =
        (receiveAll b (run b (blank v) xs) (genuine rs)).node.deliveries := by
  intro h
  have hsame := h Sample.masterBoard {} Sample.newMaster
    (Sample.forgedFirst [Sample.forgedReading 5 9 9]) (by decide +kernel) (by decide)
  revert hsame
  decide +kernel

end Device

end LatticeMesh
