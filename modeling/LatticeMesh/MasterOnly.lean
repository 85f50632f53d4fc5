import LatticeMesh.MasterHalts
import LatticeMesh.KeyLookup

/-!
# Commands for a master

A frame can reconfigure a node: its adapter type, or its node id.  A master opens such a frame with
the keys of its origin, which any enrolled node has, and compares the origin with the masters it
knows.  A master that knows no other one skips the comparison.

## Main definitions

* `Node.openedUplink` — what a frame for this master opens to.
* `Device.MasterOnly` — a command takes effect only if a known master sent it.
* `Device.Guarded` — a master is known, or no command is at hand.

## Main results

* `Effect.sameConfig` — a change reconfigures the node only where `MayConfigure` says so.
* `Device.masterOnly_iff` — **in every reachable state of a master, commands are for masters only if
  and only if a master is known or no command is at hand.**
* `Device.not_masterOnly_enrolled` — a master that knows no other one obeys any enrolled node.
-/

namespace LatticeMesh

open EffectSpec Relation

variable {w : World} {s₀ s t : Node} {i : Input} {c : Crypto} {m opened : Message}

/-! ### What reconfigures a node -/

/-- The stored adapter type and node id are the same. -/
structure SameConfig (s t : Node) : Prop where
  adapterType : t.nvs.adapterType = s.nvs.adapterType
  nodeId : t.nvs.nodeId = s.nvs.nodeId

theorem SameConfig.trans {u : Node} (h : SameConfig s t) (h' : SameConfig t u) : SameConfig s u :=
  ⟨h'.1.trans h.1, h'.2.trans h.2⟩

theorem Node.savedEpoch_config (s : Node) (epoch : UInt32) : SameConfig s (s.savedEpoch epoch) := by
  unfold Node.savedEpoch
  split <;> exact ⟨rfl, rfl⟩

theorem Node.drawn_config (s : Node) : SameConfig s s.drawn := by
  have h := s.savedEpoch_config (s.txState.bootEpoch + 1)
  unfold Node.drawn
  split
  · exact ⟨h.1, h.2⟩
  · exact ⟨rfl, rfl⟩

theorem Node.saved_config (op : NvsOp) (h : SameConfig s { s with nvs := op.apply s.nvs }) :
    SameConfig s (s.saved op) := by
  unfold Node.saved
  split
  · exact ⟨rfl, rfl⟩
  · exact ⟨h.1, h.2⟩

/-- A change reconfigures the node only where it may. -/
theorem Effect.sameConfig (h : Effect w s₀ i s t) (hi : i ≠ .resetButton) :
    SameConfig s t ∨ MayConfigure w i s := by
  cases h with
  | quiet h =>
    rw [← h]
    exact .inl ⟨rfl, rfl⟩
  | setting op h hc =>
    cases op with
    | adapterType | nodeId => exact .inr (hc rfl)
    | masterFlag | txPowerPreset => exact .inl ⟨rfl, rfl⟩
    | _ => cases h
  | wipe hi' => exact absurd hi' hi
  | draw => exact .inl s.drawn_config
  | build =>
    have h := s.drawn_config
    exact .inl ⟨h.1, h.2⟩
  | register _ _ _ hw =>
    have hn := hw.nvs
    refine .inl ⟨?_, ?_⟩
    · rw [hn]
    · rw [hn]
  | learnMaster mac =>
    have h := (s.learnedMaster mac).saved_config (.knownMasterMac mac) ⟨rfl, rfl⟩
    exact .inl ⟨h.1, h.2⟩
  | learnSecondary mac =>
    have h := (s.learnedSecondary mac).saved_config (.knownMasterMacSec mac) ⟨rfl, rfl⟩
    exact .inl ⟨h.1, h.2⟩
  | storeEnrolled => exact .inl (s.saved_config _ ⟨rfl, rfl⟩)
  | _ => exact .inl ⟨rfl, rfl⟩

/-- A step that reconfigures the node was in a state in which it may. -/
theorem effects_config (hi : i ≠ .resetButton) (hst : ReflTransGen (Effect w s₀ i) s₀ t) :
    SameConfig s₀ t ∨ ∃ s, ReflTransGen (Effect w s₀ i) s₀ s ∧ MayConfigure w i s := by
  induction hst with
  | refl => exact .inl ⟨rfl, rfl⟩
  | tail hst h ih =>
    rcases ih with ih | ih
    · rcases h.sameConfig hi with h | h
      · exact .inl (ih.trans h)
      · exact .inr ⟨_, hst, h⟩
    · exact .inr ih

/-! ### What a data frame leaves alone -/

/-- The masters that are known are the same. -/
structure SameMasters (s t : Node) : Prop where
  hasMasterMac : t.enrollment.hasMasterMac = s.enrollment.hasMasterMac
  knownMasterMac : t.enrollment.knownMasterMac = s.enrollment.knownMasterMac
  hasMasterMacSecondary :
    t.enrollment.hasMasterMacSecondary = s.enrollment.hasMasterMacSecondary
  knownMasterMacSecondary :
    t.enrollment.knownMasterMacSecondary = s.enrollment.knownMasterMacSecondary

theorem SameMasters.trans {u : Node} (h : SameMasters s t) (h' : SameMasters t u) :
    SameMasters s u := ⟨h'.1.trans h.1, h'.2.trans h.2, h'.3.trans h.3, h'.4.trans h.4⟩

theorem sameMasters_of_enrollment (h : t.enrollment = s.enrollment) : SameMasters s t := by
  constructor <;> rw [h]

theorem Node.savedEpoch_enrollment (s : Node) (epoch : UInt32) :
    (s.savedEpoch epoch).enrollment = s.enrollment := by
  unfold Node.savedEpoch
  split <;> rfl

theorem Node.drawn_enrollment (s : Node) : s.drawn.enrollment = s.enrollment := by
  unfold Node.drawn
  split
  · exact s.savedEpoch_enrollment _
  · rfl

/-- A change leaves the known masters alone, or learns one. -/
theorem Effect.sameMasters (h : Effect w s₀ i s t) :
    SameMasters s t ∨ (∃ mac, MayLearn w i s mac) ∨ ∃ mac, MayLearnSecondary w i s mac := by
  cases h with
  | quiet h =>
    rw [← h]
    exact .inl ⟨rfl, rfl, rfl, rfl⟩
  | draw => exact .inl (sameMasters_of_enrollment s.drawn_enrollment)
  | build => exact .inl (sameMasters_of_enrollment s.drawn_enrollment)
  | register _ _ hp => exact .inl (sameMasters_of_enrollment (by rw [hp]))
  | learnMaster mac h => exact .inr (.inl ⟨mac, h⟩)
  | learnSecondary mac h => exact .inr (.inr ⟨mac, h⟩)
  | storeEnrolled => exact .inl (sameMasters_of_enrollment (s.saved_enrollment _))
  | _ => exact .inl ⟨rfl, rfl, rfl, rfl⟩

/-- What a data frame leaves alone: the known masters, and all keys. -/
structure SameKeys (s t : Node) : Prop where
  masters : SameMasters s t
  keyOf : ∀ mac, t.peers.keyOf mac = s.peers.keyOf mac
  capacity : t.e2eKeys.capacity = s.e2eKeys.capacity

/-- A data frame is no acknowledgement. -/
theorem not_acceptsJoinAck {srcMac : Mac} {m' : Message} (hi : i = .rx srcMac m)
    (ht : m.messageType = MessageType.adapterData) : ¬AcceptsJoinAck w i s m' := by
  rintro ⟨⟨_, hi'⟩, ht', -⟩
  obtain ⟨-, rfl⟩ := Input.rx.inj (hi.symm.trans hi')
  exact absurd (ht.symm.trans ht') (by decide)

theorem sameKeys_effect {srcMac : Mac} (hi : i = .rx srcMac m)
    (ht : m.messageType = MessageType.adapterData) (h : Effect w s₀ i s t) : SameKeys s t := by
  -- the effects of other message types are none of this frame's
  have hack : ∀ {m'}, ¬AcceptsJoinAck w i s m' := not_acceptsJoinAck hi ht
  have htype : ∀ {srcMac' m' : _} {type : UInt8}, i = .rx srcMac' m' → m'.messageType = type →
      type ≠ MessageType.adapterData → False := by
    intro srcMac' m' type hi' ht' hne
    obtain ⟨-, rfl⟩ := Input.rx.inj (hi.symm.trans hi')
    exact hne (ht'.symm.trans ht)
  refine ⟨?_, ?_, ?_⟩
  · rcases h.sameMasters with h | ⟨mac, h⟩ | ⟨mac, h⟩
    · exact h
    · cases h with
      | beacon hi' ht' => exact (htype hi' ht' (by decide)).elim
      | joinAck ha => exact (hack ha).elim
    · cases h with
      | beacon hi' ht' => exact (htype hi' ht' (by decide)).elim
      | joinAck ha => exact (hack ha).elim
  · intro mac
    cases h.peerChange with
    | same hp => rw [hp]
    | touched hp => rw [hp, PeerRegistry.keyOf_touch]
    | wiped hi' => cases hi.symm.trans hi'
    | registered hr =>
      cases hr with
      | enrollment hi' ht' => exact (htype hi' ht' (by decide)).elim
      | joinAck ha | secondary ha => exact (hack ha).elim
      | approved hi' => cases hi.symm.trans hi'
  · cases h.cacheChange with
    | same he => rw [he]
    | inserted _ _ _ hc =>
      rw [hc]
      exact E2EKeyStore.capacity_insert _ _ _
    | resized hi' => cases hi.symm.trans hi'

theorem sameKeys_effects {srcMac : Mac} (hi : i = .rx srcMac m)
    (ht : m.messageType = MessageType.adapterData) (hst : ReflTransGen (Effect w s₀ i) s₀ t) :
    SameKeys s₀ t := by
  induction hst with
  | refl => exact ⟨⟨rfl, rfl, rfl, rfl⟩, fun _ => rfl, rfl⟩
  | tail _ h ih =>
    have h := sameKeys_effect hi ht h
    exact ⟨ih.masters.trans h.masters, fun mac => (h.keyOf mac).trans (ih.keyOf mac),
      h.capacity.trans ih.capacity⟩

/-! ### Frames that a master opens -/

/-- What a frame for this master opens to under the keys that it shares with the origin. -/
def Node.openedUplink (c : Crypto) (s : Node) (m : Message) : Option Message :=
  if m.targetMac = s.deviceMac then
    (s.keysOf c m.originMac).bind fun keys => openPayload c keys.kUp m
  else none

/-- What a master authorises: the opened frame, unless the gates forbid it. -/
theorem wp_authorize_master (hm : s.isMaster = true)
    (ht : m.messageType = MessageType.adapterData) :
    wp (authorize w m (m.targetMac = s.deviceMac))
      (fun r _ => r = (s.openedUplink w.crypto m).filter fun o => configAllowed s.enrollment o true)
      (fun _ _ => s.openedUplink w.crypto m = none) s := by
  have hsealed : isSealedType m.messageType = true := by rw [ht]; rfl
  unfold authorize
  rw [wp_bind, wp_get]
  by_cases hto : m.targetMac = s.deviceMac
  · simp only [hm, hto, hsealed, decide_true, Bool.true_and, Bool.not_true, Bool.false_and,
      Bool.true_or, Bool.false_eq_true, if_false, if_true]
    unfold openUplink Node.openedUplink
    rw [if_pos hto]
    simp only [wp_bind]
    refine wp_mono _ (fun r t hr => ?_) (fun _ _ hno => by rw [hno]; rfl) wp_peerE2EKeys
    obtain ⟨rfl, -⟩ := hr
    cases s.keysOf w.crypto m.originMac with
    | none => rfl
    | some keys =>
      dsimp only [Option.bind_some]
      unfold openWith
      cases openPayload w.crypto keys.kUp m with
      | none => rfl
      | some opened =>
        simp only [wp_bind, wp_emit, wp_pure, Option.filter_some]
        split <;> rfl
  · simp only [hm, hto, hsealed, decide_false, Bool.not_false, Bool.and_true, if_true]
    unfold Node.openedUplink
    rw [if_neg hto]
    rfl

/-- The address is that of a master which is known, the primary or the secondary one. -/
def Enrollment.KnowsMaster (e : Enrollment) (mac : Mac) : Prop :=
  e.hasMasterMac = true ∧ mac = e.knownMasterMac ∨
    e.hasMasterMacSecondary = true ∧ mac = e.knownMasterMacSecondary

instance (e : Enrollment) (mac : Mac) : Decidable (e.KnowsMaster mac) :=
  inferInstanceAs (Decidable (_ ∨ _))

theorem Enrollment.knowsMaster_iff {e : Enrollment} {mac : Mac} (h : e.hasMasterMac = true) :
    e.KnowsMaster mac ↔ e.isKnownMaster mac = true := by
  simp [KnowsMaster, isKnownMaster, h]

theorem SameMasters.knowsMaster (h : SameMasters s t) (mac : Mac) :
    t.enrollment.KnowsMaster mac ↔ s.enrollment.KnowsMaster mac := by
  unfold Enrollment.KnowsMaster
  rw [h.hasMasterMac, h.knownMasterMac, h.hasMasterMacSecondary, h.knownMasterMacSecondary]

/-- A command that was opened passes the gates if it comes from a known master, as soon as one is
known. -/
theorem configAllowed_opened (hc : isConfigOpcode opened = true) {e : Enrollment} :
    configAllowed e opened true = true ↔
      (e.hasMasterMac = true → e.isKnownMaster opened.originMac = true) := by
  simp only [configAllowed, hc, Bool.not_true, Bool.false_or, Bool.true_and, Bool.or_eq_true,
    Bool.not_eq_true']
  cases e.hasMasterMac <;> simp

namespace Device

variable {b : Board} {d : Device} {e : Env} {srcMac : Mac}

/-- The payload was opened under the key that the registry has of its origin. -/
def OpenedUnderRegistry (c : Crypto) (s : Node) (m opened : Message) : Prop :=
  ∃ key keys, s.peers.keyOf m.originMac = some key ∧
    e2eKeysOf c s.enrollment.devicePrivateKey key = some keys ∧
    openPayload c keys.kUp m = some opened

/-- A command that the master authorises was sent to it by a known master and opened under its key,
and the step reconfigures the master only if the frame comes from a known master. -/
structure MasterOnly (b : Board) (d : Device) (e : Env) (srcMac : Mac) (m : Message) : Prop where
  authorized : ∀ opened t,
    authorize (b.world e) m (m.targetMac = d.node.deviceMac) d.node = .ok (some opened) t →
    isConfigOpcode opened = true → m.targetMac = d.node.deviceMac ∧
      OpenedUnderRegistry b.crypto d.node m opened ∧ d.node.enrollment.KnowsMaster m.originMac
  reconfigured : SameConfig d.node (step b d (e, .rx srcMac m)).node ∨
    d.node.enrollment.KnowsMaster m.originMac

/-- A primary master is known, or the frame comes from the secondary one, or it is no command for
this master under the key of its origin. -/
def Guarded (c : Crypto) (s : Node) (m : Message) : Prop :=
  s.enrollment.hasMasterMac = true ∨
    s.enrollment.hasMasterMacSecondary = true ∧
      m.originMac = s.enrollment.knownMasterMacSecondary ∨
    ∀ opened ∈ s.openedUplink c m, isConfigOpcode opened = false

instance (c : Crypto) (s : Node) (m : Message) : Decidable (Guarded c s m) :=
  inferInstanceAs (Decidable (_ ∨ _ ∨ _))

/-- A command that opens, and that the gates let pass, comes from a known master. -/
theorem Guarded.knowsMaster (h : Guarded c s m) (ho : s.openedUplink c m = some opened)
    (hc : isConfigOpcode opened = true)
    (ha : s.enrollment.hasMasterMac = true → s.enrollment.isKnownMaster m.originMac = true) :
    s.enrollment.KnowsMaster m.originMac := by
  rcases h with h | h | h
  · exact (Enrollment.knowsMaster_iff h).2 (ha h)
  · exact .inr h
  · rw [h opened ho] at hc
    cases hc

theorem openedUplink_eq_some (h : s.openedUplink c m = some opened) : m.targetMac = s.deviceMac ∧
    ∃ keys, s.keysOf c m.originMac = some keys ∧ openPayload c keys.kUp m = some opened := by
  unfold Node.openedUplink at h
  split at h
  · exact ⟨‹_›, Option.bind_eq_some_iff.1 h⟩
  · cases h

/-- What a master authorises. -/
theorem authorized_master {t : Node} (hm : s.isMaster = true)
    (ht : m.messageType = MessageType.adapterData)
    (h : authorize w m (m.targetMac = s.deviceMac) s = .ok (some opened) t) :
    s.openedUplink w.crypto m = some opened ∧ configAllowed s.enrollment opened true = true := by
  have hr := wp_ok h (wp_authorize_master hm ht)
  obtain ⟨ho, ha⟩ := Option.filter_eq_some_iff.1 hr.symm
  exact ⟨ho, ha⟩

/-- A command that takes effect within a step opens and passes the gates in its first state. -/
theorem opened_of_mayConfigure {s : Node} (hm : d.node.isMaster = true)
    (hcoh : CacheCoherent b.crypto s) (hd : CacheCoherent b.crypto d.node)
    (hkeys : SameKeys (d.inputNode (.rx srcMac m)) s)
    (hdev : SameDevice (d.inputNode (.rx srcMac m)) s)
    (hrole : s.isMaster = (d.inputNode (.rx srcMac m)).isMaster)
    (h : MayConfigure (b.world e) (.rx srcMac m) s) :
    ∃ opened, d.node.openedUplink b.crypto m = some opened ∧ isConfigOpcode opened = true ∧
      (d.node.enrollment.hasMasterMac = true →
        d.node.enrollment.isKnownMaster m.originMac = true) := by
  obtain ⟨-, hto, ⟨keys, opened, hk, hopen, hc⟩, ha⟩ := h srcMac m rfl
  have hm' : s.isMaster = true := hrole.trans hm
  rw [if_pos hm'] at hk hopen
  obtain ⟨key, hkey, hz, hder⟩ := hcoh.keysFor hk
  have hfound : d.node.keysOf b.crypto m.originMac = some keys := by
    refine hd.keysOf_eq ?_ ((hkeys.keyOf _).symm.trans hkey) hz ?_
    · exact hkeys.capacity ▸ hk.1
    · rw [← hder, hdev.devicePrivateKey]
      rfl
  refine ⟨opened, ?_, hc, fun hhas => ?_⟩
  · unfold Node.openedUplink
    rw [if_pos (show m.targetMac = d.node.deviceMac from hto.trans hdev.deviceMac), hfound]
    exact hopen
  · have hknown := ha (hkeys.masters.hasMasterMac.trans hhas)
    rw [← Enrollment.knowsMaster_iff (hkeys.masters.hasMasterMac.trans hhas),
      hkeys.masters.knowsMaster] at hknown
    exact (Enrollment.knowsMaster_iff hhas).1 hknown

/-- **Commands for a master are for masters only, exactly if a master is known or no command is at
hand.** -/
theorem masterOnly_iff {xs : List (Env × Input)} {e : Env} {srcMac : Mac} {m : Message}
    (hrun : (run b (blank {}) xs).status = .running)
    (hm : (run b (blank {}) xs).node.isMaster = true)
    (ht : m.messageType = MessageType.adapterData) :
    MasterOnly b (run b (blank {}) xs) e srcMac m ↔
      Guarded b.crypto (run b (blank {}) xs).node m := by
  have hmeets : (run b (blank {}) xs).Meets _ _ := (cacheCoherent_invariant b fun _ _ => True).run
    (meets_blank trivial) (Runs.along_of_forall (fun _ _ => trivial) _ _)
  generalize run b (blank {}) xs = d at hrun hm hmeets ⊢
  have hcoh := hmeets.2 hrun
  constructor
  -- without a known master, a command that opens passes the gate
  · intro h
    by_contra hno
    simp only [Guarded, not_or, not_forall, Bool.not_eq_true, Bool.not_eq_false] at hno
    obtain ⟨hhas, hsec, opened, ho, hc⟩ := hno
    have hr := wp_authorize_master (w := b.world e) hm ht
    have ho' : d.node.openedUplink b.crypto m = some opened := ho
    cases hres : authorize (b.world e) m (m.targetMac = d.node.deviceMac) d.node with
    | ok r t =>
      have hr := wp_ok hres hr
      rw [show d.node.openedUplink (b.world e).crypto m = some opened from ho', Option.filter_some,
        if_pos ((configAllowed_opened hc).2 fun h => by rw [hhas] at h; cases h)] at hr
      rw [hr] at hres
      rcases (h.authorized opened t hres hc).2.2 with hk | hk
      · rw [hhas] at hk
        cases hk.1
      · exact hsec hk
    | error =>
      have hno := wp_error hres hr
      rw [show d.node.openedUplink (b.world e).crypto m = some opened from ho'] at hno
      cases hno
  · intro h
    refine ⟨fun opened t hres hc => ?_, ?_⟩
    -- what is authorised opened under the key of its origin
    · obtain ⟨ho, ha⟩ := authorized_master hm ht hres
      obtain ⟨hto, keys, hk, hopen⟩ := openedUplink_eq_some ho
      obtain ⟨key, hkey, -, hd⟩ := hcoh.keysOf hk
      refine ⟨hto, ⟨key, keys, hkey, hd, hopen⟩, h.knowsMaster ho hc fun hhas => ?_⟩
      rw [← openPayload_originMac hopen]
      exact (configAllowed_opened hc).1 ha hhas
    · have hst := stepTo b d e (.rx srcMac m)
      generalize step b d (e, .rx srcMac m) = d' at hst
      have hmain : ∀ t, ReflTransGen
          (Effect (b.world e) (d.inputNode (.rx srcMac m)) (.rx srcMac m))
          (d.inputNode (.rx srcMac m)) t →
          SameConfig d.node t ∨ d.node.enrollment.KnowsMaster m.originMac := by
        intro t hst
        rcases effects_config (by simp) hst with hsame | ⟨s, hs, hmay⟩
        -- the configuration only changes in a state in which the frame opened as a command
        · exact .inl ⟨hsame.adapterType, hsame.nodeId⟩
        · right
          have hcoh' := (cacheCoherent_invariant b fun _ _ => True).within hmeets
            ⟨trivial, by simp, hrun, hs⟩
          obtain ⟨opened, ho, hc, ha⟩ := opened_of_mayConfigure hm hcoh' hcoh
            (sameKeys_effects rfl ht hs) (effects_sameDevice hs)
            (effects_isMaster (by simp) hs) hmay
          exact h.knowsMaster ho hc ha
      cases hst with
      | ignored => exact .inl ⟨rfl, rfl⟩
      | ran _ _ ht => exact hmain _ ht
      | halted _ _ ht hu =>
        -- a halt writes no configuration
        have hn := hu.nvs_eq
        refine (hmain _ ht).imp_left fun hsame => ⟨?_, ?_⟩
        · rw [hn]
          exact hsame.adapterType
        · rw [hn]
          exact hsame.nodeId

end Device

namespace Sample

theorem command_le : 0 + (1 + 6 + 1) ≤ 64 := by decide

theorem commandType_length : [(1 : UInt8)].length = 1 := rfl

/-- The command to take up another adapter type, which the station 5 seals for a master. -/
def sealedCommand (target : Mac) : Message :=
  let data := Bytes.ofList (n := 1) [Opcode.configSet] ++ target ++
    Bytes.ofList [1] commandType_length
  let m :=
    { frame 5 MessageType.adapterData 1 2 with
      targetMac := target, dataType := AdapterType.serial
      data := Bytes.blit (Bytes.zero 64) 0 data command_le }
  (sealPayload crypto ((xor (key 1) (key 5)).map (· + 1)) m).getD m

/-- A leaf that was admitted by the master of another mesh, and became a master itself. -/
def promoted : List (Env × Input) :=
  admitted ++ [(env 1 400, .configButton), (env 1 500, .boot),
    (env 1 600, .rx (mac 5) (enrollRequest (key 5)))]

/-- A master out of the box, with the station 5 enrolled. -/
def newMaster : List (Env × Input) :=
  becomesMaster ++ [(env 1 400, .rx (mac 5) (enrollRequest (key 5)))]

end Sample

namespace Device

set_option maxRecDepth 100000 in
/-- A master that knows another one does not obey the station 5. -/
theorem masterOnly_promoted :
    MasterOnly Sample.board (run Sample.board (blank {}) Sample.promoted) (Sample.env 1 700)
      (Sample.mac 5) (Sample.sealedCommand (Sample.mac 1)) :=
  (masterOnly_iff (by decide +kernel) (by decide +kernel) (by decide +kernel)).2 (by decide +kernel)

set_option maxRecDepth 100000 in
/-- **A master out of the box obeys any enrolled node**: the station 5 changes its adapter type. -/
theorem not_masterOnly_enrolled :
    let d := run Sample.masterBoard (blank {}) Sample.newMaster
    let m := Sample.sealedCommand (Sample.mac 7)
    let d' := step Sample.masterBoard d (Sample.env 1 500, .rx (Sample.mac 5) m)
    d.status = .running ∧ d.node.isMaster = true ∧ m.messageType = MessageType.adapterData ∧
      ¬MasterOnly Sample.masterBoard d (Sample.env 1 500) (Sample.mac 5) m ∧
      d.node.nvs.adapterType ≠ some 1 ∧ d'.node.nvs.adapterType = some 1 := by
  refine ⟨by decide +kernel, by decide +kernel, by decide +kernel, fun h => ?_, by decide +kernel,
    by decide +kernel⟩
  rcases h.reconfigured with hsame | hknown
  · have htype := hsame.adapterType
    revert htype
    decide +kernel
  · revert hknown
    decide +kernel

end Device

end LatticeMesh
