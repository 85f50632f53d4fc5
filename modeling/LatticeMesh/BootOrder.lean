import LatticeMesh.Roles

/-!
# The mesh task during the boot

The mesh task starts to drain received frames as soon as the mesh is up.  The boot applies the
stored role only after that, so in between a board that is stored as a master is a leaf: it handles
the frames of this window as a leaf.

## Main definitions

* `Booting`, `Booting.step` — the steps of a boot, and frames that are drained between them.
* `Booting.ActsAsMaster` — a drained frame ends as at a master, nothing is passed on, and no
  acknowledgement enrolls the board.
* `Booting.WindowBlind` — a frame drained before the role is applied is one that a leaf handles as a
  master does.

## Main results

* `Booting.boot_eq` — without frames in between it is the boot of the device.
* `Booting.actsAsMaster_run` — **a board that is stored as a master acts as one, if every frame that
  is drained before the role is applied is such a frame.**
-/

namespace LatticeMesh

open EffectSpec Relation

variable {w : World} {s t : Node}

/-! ### The boot, step by step -/

/-- Only the two buttons change the stored role. -/
theorem Effect.masterFlag {s₀ : Node} {i : Input} (hc : i ≠ .configButton) (hr : i ≠ .resetButton)
    (h : Effect w s₀ i s t) : t.nvs.masterFlag = s.nvs.masterFlag := by
  cases h with
  | quiet h => rw [← h]; rfl
  | setting op hs _ hrole =>
    cases op with
    | masterFlag => exact absurd (hrole rfl) hc
    | adapterType | txPowerPreset | nodeId => rfl
    | _ => cases hs
  | wipe hi => exact absurd hi hr
  | draw | build =>
    show s.drawn.nvs.masterFlag = _
    unfold Node.drawn Node.savedEpoch
    split <;> [split; skip] <;> rfl
  | register _ _ _ hw => rw [hw.nvs]
  | learnMaster | learnSecondary | storeEnrolled =>
    unfold Node.saved
    split <;> rfl
  | _ => rfl

theorem effects_masterFlag {s₀ : Node} {i : Input} (hc : i ≠ .configButton)
    (hr : i ≠ .resetButton) (h : ReflTransGen (Effect w s₀ i) s t) :
    t.nvs.masterFlag = s.nvs.masterFlag := by
  induction h with
  | refl => rfl
  | tail _ h ih => exact (h.masterFlag hc hr).trans ih

/-- How far a boot has come. -/
inductive BootStage
  | start
  | meshUp
  /-- The mesh task exists; it is woken for every frame. -/
  | taskUp
  | roleApplied
  /-- The receive callback is linked, and the housekeeping task starts. -/
  | linked
  deriving DecidableEq

/-- Whether received frames are drained. -/
def BootStage.draining : BootStage → Bool
  | .start | .meshUp => false
  | .taskUp | .roleApplied | .linked => true

/-- The receive callback at a stage of the boot. -/
def BootStage.externalRecvCallback (w : World) : BootStage → Message → MeshM Unit
  | .linked => deliver w
  | _ => fun _ => pure ()

/-- Whether an input is one of the housekeeping task. -/
def Input.isHousekeeping : Input → Bool
  | .boot | .rx .. => false
  | _ => true

/-- A device in the middle of a boot, or after it. -/
structure Booting where
  device : Device
  stage : BootStage := .start

/-- What happens next at a device that boots. -/
inductive BootAct
  /-- The boot goes on. -/
  | advance
  /-- The mesh task drains a frame. -/
  | drain (srcMac : Mac) (m : Message)
  /-- The housekeeping task takes an input. -/
  | housekeeping (i : Input)

namespace Booting

variable {b : Board} {d : Device} {st : Booting} {e : Env}

/-- The next step of the boot. -/
def advance (b : Board) (e : Env) (st : Booting) : Booting :=
  match st.stage with
  | .start => ⟨Device.ofResult (initBeforeRole (b.world e) (st.device.bootNode b)), .meshUp⟩
  | .meshUp => { st with stage := .taskUp }
  | .taskUp =>
    if st.device.status = .running then
      ⟨Device.ofResult (applyRole (b.world e) st.device.node), .roleApplied⟩
    else st
  | .roleApplied => { st with stage := .linked }
  | .linked => st

/-- Whether the mesh task drains frames. -/
def drains (st : Booting) : Bool := st.stage.draining && st.device.status = .running

/-- One step of a device that boots. -/
def step (b : Board) (st : Booting) (x : Env × BootAct) : Booting :=
  match x.2 with
  | .advance => st.advance b x.1
  | .drain srcMac m =>
    if st.drains then
      { st with
        device := Device.ofResult (handleReceivedMessageTo (b.world x.1)
          (st.stage.externalRecvCallback (b.world x.1)) srcMac m
          (st.device.inputNode (.rx srcMac m))) }
    else st
  | .housekeeping i =>
    if st.stage = .linked ∧ i.isHousekeeping then
      { st with device := Device.step b st.device (x.1, i) }
    else st

@[simp] theorem step_advance (b : Board) (st : Booting) (e : Env) :
    step b st (e, .advance) = st.advance b e := rfl

theorem step_drain {srcMac : Mac} {m : Message} (h : st.drains = true) :
    step b st (e, .drain srcMac m) =
      { st with
        device := Device.ofResult (handleReceivedMessageTo (b.world e)
          (st.stage.externalRecvCallback (b.world e)) srcMac m
          (st.device.inputNode (.rx srcMac m))) } := if_pos h

theorem step_drain_ok {srcMac : Mac} {m : Message} {t : Node} (h : st.drains = true)
    (ht : handleReceivedMessageTo (b.world e) (st.stage.externalRecvCallback (b.world e)) srcMac m
      (st.device.inputNode (.rx srcMac m)) = .ok () t) :
    step b st (e, .drain srcMac m) = { st with device := ⟨t, .running⟩ } := by
  rw [step_drain h, ht]
  rfl

theorem step_drain_of_not_drains {srcMac : Mac} {m : Message} (h : st.drains = false) :
    step b st (e, .drain srcMac m) = st := if_neg (by simp [h])

/-- Without frames in between, and once it is through, the boot is a step of the device. -/
theorem boot_eq (b : Board) (d : Device) (e₁ e₂ e₃ e₄ : Env) :
    (Runs.run (step b) ⟨d, .start⟩
      [(e₁, .advance), (e₂, .advance), (e₃, .advance), (e₄, .advance)]).device =
      Device.step b d (e₁, .boot) := by
  have hboot : Device.step b d (e₁, .boot) =
      Device.ofResult ((initBeforeRole (b.world e₁) >>= fun _ => applyRole (b.world e₁))
        (d.bootNode b)) := by
    rw [← initSubsystems_eq]
    rfl
  have hrun : Runs.run (step b) ⟨d, .start⟩
      [(e₁, .advance), (e₂, .advance), (e₃, .advance), (e₄, .advance)] =
      advance b e₄ (advance b e₃
        ⟨Device.ofResult (initBeforeRole (b.world e₁) (d.bootNode b)), .taskUp⟩) := rfl
  rw [hrun, hboot]
  cases hr : initBeforeRole (b.world e₁) (d.bootNode b) with
  | ok a t =>
    rw [bind_ok hr]
    rfl
  | error h u =>
    show _ = Device.ofResult (EStateM.bind _ _ _)
    simp only [EStateM.bind, hr]
    rfl

/-- After the boot a drained frame is a step of the device. -/
theorem drain_linked {srcMac : Mac} {m : Message} (hl : st.stage = .linked) :
    (step b st (e, .drain srcMac m)).device = Device.step b st.device (e, .rx srcMac m) := by
  by_cases hr : st.device.status = .running
  · rw [step_drain (by simp [drains, hl, hr, BootStage.draining]), hl]
    show Device.ofResult (handleReceivedMessageTo (b.world e) (deliver (b.world e)) srcMac m _) = _
    rw [handleReceivedMessageTo_deliver, Device.step_of_input (by simp) hr]
    rfl
  · rw [step_drain_of_not_drains (by simp [drains, hr]), Device.step_ignored (by simp) hr]

/-! ### The role over the boot -/

/-- What is known at each stage of a production boot with the stored role of a master. -/
def MasterToBe (c : Config) (st : Booting) : Prop :=
  match st.stage with
  | .start => bootsInDevMode c st.device.node.nvs = false ∧
      Nvs.flag st.device.node.nvs.masterFlag = true
  | .meshUp | .taskUp => st.device.status = .running →
      st.device.node.isMaster = false ∧ st.device.node.eeprom.isDevMode = false ∧
        Nvs.flag st.device.node.nvs.masterFlag = true
  | .roleApplied | .linked => st.device.status = .running →
      st.device.node.isMaster = true ∧ st.device.node.eeprom.isDevMode = false

/-- A receive callback is linked only at the end; before that nothing is delivered. -/
theorem callbackDoes_externalRecvCallback (w : World) (s₀ : Node) (i : Input) (stage : BootStage) :
    CallbackDoes w s₀ i (stage.externalRecvCallback w) := by
  intro t m hc
  cases stage with
  | linked => exact does_deliver hc
  | _ => exact Spec.ret trivial

/-- A drained frame changes neither the role nor the mode nor the stored role. -/
theorem drain_role {srcMac : Mac} {m : Message}
    (hr : (step b st (e, .drain srcMac m)).device.status = .running) :
    st.device.status = .running ∧
      (step b st (e, .drain srcMac m)).device.node.isMaster = st.device.node.isMaster ∧
      (step b st (e, .drain srcMac m)).device.node.eeprom.isDevMode =
        st.device.node.eeprom.isDevMode ∧
      (step b st (e, .drain srcMac m)).device.node.nvs.masterFlag =
        st.device.node.nvs.masterFlag := by
  cases hd : st.drains with
  | false =>
    rw [step_drain_of_not_drains hd] at hr ⊢
    exact ⟨hr, rfl, rfl, rfl⟩
  | true =>
    rw [step_drain hd] at hr ⊢
    have hdoes : Does (b.world e) _ _ _ (handleReceivedMessageTo (b.world e)
        (st.stage.externalRecvCallback (b.world e)) srcMac m) _ :=
      does_handleReceivedMessageTo (s := st.device.inputNode (.rx srcMac m))
        (callbackDoes_externalRecvCallback _ _ _ st.stage) rfl
    simp only [drains, Bool.and_eq_true, decide_eq_true_eq] at hd
    refine ⟨hd.2, ?_⟩
    cases hres : handleReceivedMessageTo (b.world e) (st.stage.externalRecvCallback (b.world e))
        srcMac m (st.device.inputNode (.rx srcMac m)) with
    | error h u =>
      rw [hres] at hr
      cases hr
    | ok a t =>
      have ht := (wp_ok hres hdoes).1
      have hc : Input.rx srcMac m ≠ .configButton := by simp
      have hrole := effects_isMaster hc ht
      have hflag := effects_masterFlag hc (by simp) ht
      exact ⟨hrole, (effects_sameDevice ht).isDevMode, hflag⟩

/-- In production the config button ends in a restart. -/
theorem tickConfig_restarts {w : World} {s : Node} (h : s.eeprom.isDevMode = false) :
    wp (tickConfig w) (fun _ _ => False) (fun _ _ => True) s := by
  unfold tickConfig
  rw [wp_bind, wp_get, if_neg (by simp [h]), wp_bind]
  exact wp_mono _ (fun _ _ _ => trivial) (fun _ _ _ => trivial) (wp_true _ _)

/-- The housekeeping task does not make a leaf of a master that goes on. -/
theorem housekeeping_role {i : Input} (hi : i.isHousekeeping = true)
    (hdev : st.device.status = .running → st.device.node.eeprom.isDevMode = false)
    (hr : (Device.step b st.device (e, i)).status = .running) :
    st.device.status = .running ∧
      (Device.step b st.device (e, i)).node.isMaster = st.device.node.isMaster ∧
      (Device.step b st.device (e, i)).node.eeprom.isDevMode =
        st.device.node.eeprom.isDevMode := by
  have hboot : i ≠ .boot := by
    rintro rfl
    cases hi
  by_cases hs : st.device.status = .running
  · refine ⟨hs, ?_⟩
    -- the config button is the only one that changes the role, and it restarts the device
    by_cases hc : i = .configButton
    · subst hc
      have hwp := tickConfig_restarts (w := b.world e) (s := st.device.inputNode .configButton)
        (hdev hs)
      rw [Device.step_of_input hboot hs] at hr
      change (Device.ofResult (tickConfig (b.world e) _)).status = _ at hr
      cases hres : tickConfig (b.world e) (st.device.inputNode .configButton) with
      | ok a t => exact (wp_ok hres hwp).elim
      | error h u =>
        rw [hres] at hr
        cases hr
    · have hst := Device.stepTo b st.device e i
      generalize Device.step b st.device (e, i) = d' at hst hr
      cases hst with
      | ignored _ hn => exact absurd hs hn
      | booted => exact absurd rfl hboot
      | bootHalted => exact absurd rfl hboot
      | ran _ _ ht =>
        have hrole := effects_isMaster hc ht
        exact ⟨hrole, (effects_sameDevice ht).isDevMode⟩
      | halted => cases hr
  · rw [Device.step_ignored hboot hs] at hr
    exact absurd hr hs

/-- The boot goes on: the mesh comes up as a leaf, whatever role is stored, and later the role is
applied. -/
theorem masterToBe_advance (h : MasterToBe b.config st) (e : Env) :
    MasterToBe b.config (step b st (e, .advance)) := by
  obtain ⟨d, stage⟩ := st
  cases stage with
  | start =>
    obtain ⟨hprod, hflag⟩ := h
    have hup : Boots (b.world e) (d.bootNode b) (d.bootNode b) (initBeforeRole (b.world e)) _ :=
      boots_initBeforeRole rfl
    intro hr
    show (Device.ofResult (initBeforeRole (b.world e) (d.bootNode b))).node.isMaster = false ∧
      (Device.ofResult
        (initBeforeRole (b.world e) (d.bootNode b))).node.eeprom.isDevMode = false ∧
      Nvs.flag (Device.ofResult (initBeforeRole (b.world e) (d.bootNode b))).node.nvs.masterFlag =
        true
    change (Device.ofResult (initBeforeRole (b.world e) (d.bootNode b))).status = _ at hr
    cases hres : initBeforeRole (b.world e) (d.bootNode b) with
    | error h u =>
      rw [hres] at hr
      cases hr
    | ok a t =>
      have ht := (wp_ok hres hup).2
      exact ⟨ht.isMaster, ht.isDevMode.trans hprod, (congrArg Nvs.flag ht.masterFlag).trans hflag⟩
  | meshUp => exact h
  | taskUp =>
    -- the stored role is applied
    show MasterToBe b.config (if d.status = .running then _ else _)
    split
    · rename_i hr
      obtain ⟨-, hdev, hflag⟩ := h hr
      have hdev : d.node.eeprom.isDevMode = false := hdev
      refine fun _ => ⟨?_, hdev⟩
      show bootRole d.node b.config = true
      rw [bootRole, hdev]
      exact hflag
    · exact h
  | roleApplied => exact h
  | linked => exact h

/-- A drained frame leaves the role, the mode and the stored flag alone, and does not move the boot
on. -/
theorem masterToBe_drain (h : MasterToBe b.config st) (e : Env) (srcMac : Mac) (m : Message) :
    MasterToBe b.config (step b st (e, .drain srcMac m)) := by
  obtain ⟨d, stage⟩ := st
  have hstage : (step b ⟨d, stage⟩ (e, .drain srcMac m)).stage = stage := by
    cases hd : drains ⟨d, stage⟩ with
    | true => rw [step_drain hd]
    | false => rw [step_drain_of_not_drains hd]
  cases stage with
  | start => exact h
  | meshUp => exact h
  | taskUp =>
    unfold MasterToBe
    rw [hstage]
    intro hr
    obtain ⟨hs, hm, hdev, hflag⟩ := drain_role hr
    rw [hm, hdev, hflag]
    exact h hs
  | roleApplied | linked =>
    unfold MasterToBe
    rw [hstage]
    intro hr
    obtain ⟨hs, hm, hdev, -⟩ := drain_role hr
    rw [hm, hdev]
    exact h hs

/-- **Every step of the boot, and after it, keeps what is known at its stage.** -/
theorem masterToBe_step (h : MasterToBe b.config st) (x : Env × BootAct) :
    MasterToBe b.config (step b st x) := by
  obtain ⟨e, act⟩ := x
  cases act with
  | advance => exact masterToBe_advance h e
  | drain srcMac m => exact masterToBe_drain h e srcMac m
  -- no housekeeping before the boot is through
  | housekeeping i =>
    obtain ⟨d, stage⟩ := st
    show MasterToBe b.config (if stage = .linked ∧ i.isHousekeeping = true then _ else _)
    split
    · rename_i hi
      obtain ⟨rfl, hi⟩ := hi
      intro hr
      have hdev : d.status = .running → d.node.eeprom.isDevMode = false := fun hs => (h hs).2
      obtain ⟨hs, hm, hdev⟩ := housekeeping_role hi hdev hr
      show (Device.step b d (e, i)).node.isMaster = _ ∧
        (Device.step b d (e, i)).node.eeprom.isDevMode = _
      rw [hm, hdev]
      exact h hs
    · exact h

/-! ### Frames drained by a board that is to be a master -/

/-- The device in the role of a master. -/
def asMaster (st : Booting) : Booting := { st with device := st.device.asMaster }

/-- A drained frame is handled as by a master. -/
structure ActsAsMaster (b : Board) (st : Booting) (x : Env × BootAct) : Prop where
  /-- The device ends up as from the role of a master: it sends, schedules, opens and stores the
  same. -/
  role : ∀ srcMac m, x.2 = .drain srcMac m → (step b st x).asMaster = step b st.asMaster x
  /-- Nothing is passed on, or scheduled for it, but an acknowledgement for another node. -/
  relays : ∀ srcMac m, x.2 = .drain srcMac m → isForeignAck st.device.node m = false →
    (step b st x).device.node.relays = st.device.node.relays
  /-- An acknowledgement neither enrolls the board, nor teaches it a master, nor registers a
  peer. -/
  joinAck : ∀ srcMac m, x.2 = .drain srcMac m → m.messageType = MessageType.joinAck →
    (step b st x).device.node.enrollment = st.device.node.enrollment ∧
      (step b st x).device.node.peers.macs = st.device.node.peers.macs ∧
      ∀ mac, (step b st x).device.node.peers.keyOf mac = st.device.node.peers.keyOf mac

/-- A frame that is drained before the role is applied, and that is not dropped unread, is one that
a leaf handles as a master does. -/
def WindowBlind (b : Board) (st : Booting) (x : Env × BootAct) : Prop :=
  ∀ srcMac m, x.2 = .drain srcMac m → st.stage = .taskUp → st.drains = true →
    passesChecks (b.world x.1) st.device.node m = true →
    isRoleBlind (b.world x.1) st.device.node m = true

/-- A frame that the leaf drops, or handles as a master does. -/
theorem drain_blind {s : Node} (srcMac : Mac) {m : Message} {w : World}
    (h : passesChecks w s m = true → isRoleBlind w s m = true) :
    ∃ t, handleReceivedMessageTo w (fun _ => pure ()) srcMac m s = .ok () t ∧
      handleReceivedMessageTo w (fun _ => pure ()) srcMac m s.asMaster = .ok () t.asMaster ∧
      (isForeignAck s m = false → t.relays = s.relays) ∧ t.enrollment = s.enrollment ∧
      t.peers.macs = s.peers.macs ∧ ∀ mac, t.peers.keyOf mac = s.peers.keyOf mac := by
  cases hp : passesChecks w s m with
  | false =>
    have hp' : passesChecks w s.asMaster m = false := hp
    exact ⟨s, handleReceivedMessageTo_of_not_passes hp, handleReceivedMessageTo_of_not_passes hp',
      fun _ => rfl, rfl, rfl, fun _ => rfl⟩
  | true =>
    have hp' : passesChecks w s.asMaster m = true := hp
    rw [handleReceivedMessageTo_of_passes hp, handleReceivedMessageTo_of_passes hp']
    have hmacs : (s.received w srcMac m).peers.macs = s.peers.macs := macs_updateLastSeen _ _ _
    have hkeys : ∀ mac, (s.received w srcMac m).peers.keyOf mac = s.peers.keyOf mac :=
      fun mac => PeerRegistry.keyOf_updateLastSeen _ _ mac _
    cases hf : isForeignAck s m with
    | true =>
      simp only [isForeignAck, Bool.and_eq_true, decide_eq_true_eq] at hf
      obtain ⟨t, ht, htm, he, hpeers⟩ :=
        dispatchJoinAck_asMaster (s := s.received w srcMac m) (w := w) hf.2
      rw [dispatchMessageTo_joinAck hf.1]
      exact ⟨t, ht, htm, fun hno => absurd hno (by decide), he, hpeers ▸ hmacs,
        fun mac => hpeers ▸ hkeys mac⟩
    | false =>
      have hblind : isRoleBlind w (s.received w srcMac m) m = true := isRoleBlind_received (h hp)
      refine ⟨s.received w srcMac m, dispatchMessageTo_roleBlind hblind hf, ?_, fun _ => rfl, rfl,
        hmacs, hkeys⟩
      exact dispatchMessageTo_roleBlind (s := (s.received w srcMac m).asMaster) hblind hf

/-- Before the role is applied. -/
theorem actsAsMaster_window {srcMac : Mac} {m : Message} (hstage : st.stage = .taskUp)
    (hd : st.drains = true) (h : WindowBlind b st (e, .drain srcMac m)) :
    ActsAsMaster b st (e, .drain srcMac m) := by
  have hblind : passesChecks (b.world e) (st.device.inputNode (.rx srcMac m)) m = true →
      isRoleBlind (b.world e) (st.device.inputNode (.rx srcMac m)) m = true :=
    h srcMac m rfl hstage hd
  obtain ⟨t, ht, htm, hrel, hen, hmacs, hkeys⟩ := drain_blind srcMac hblind
  have hstep : step b st (e, .drain srcMac m) = { st with device := ⟨t, .running⟩ } :=
    step_drain_ok hd (by rw [hstage]; exact ht)
  have hstep' : step b st.asMaster (e, .drain srcMac m) =
      { st with device := ⟨t.asMaster, .running⟩ } := by
    have hstage' : st.asMaster.stage = .taskUp := hstage
    exact step_drain_ok hd (by rw [hstage']; exact htm)
  refine ⟨fun _ _ h => ?_, ?_, ?_⟩
  · rw [hstep, hstep']
    rfl
  · rintro _ _ ⟨⟩ hf
    rw [hstep]
    exact hrel hf
  · rintro _ _ ⟨⟩ -
    rw [hstep]
    exact ⟨hen, hmacs, hkeys⟩

/-- A frame that a master drains. -/
theorem drain_master {s : Node} (srcMac : Mac) (m : Message) {w : World} {cb : Message → MeshM Unit}
    (hcb : ∀ m, MasterSilent (cb m)) (hm : s.isMaster = true) :
    let d := Device.ofResult (handleReceivedMessageTo w cb srcMac m s)
    d.node.isMaster = true ∧ (isForeignAck s m = false → d.node.relays = s.relays) ∧
      (m.messageType = MessageType.joinAck → d.node.enrollment = s.enrollment ∧
        d.node.peers.macs = s.peers.macs ∧ ∀ mac, d.node.peers.keyOf mac = s.peers.keyOf mac) := by
  cases hp : passesChecks w s m with
  -- a frame that is dropped unread does nothing
  | false =>
    rw [handleReceivedMessageTo_of_not_passes hp]
    exact ⟨hm, fun _ => rfl, fun _ => ⟨rfl, rfl, fun _ => rfl⟩⟩
  | true =>
    rw [handleReceivedMessageTo_of_passes hp]
    have hm' : (s.received w srcMac m).isMaster = true := hm
    have hmacs : (s.received w srcMac m).peers.macs = s.peers.macs := macs_updateLastSeen _ _ _
    have hkeys : ∀ mac, (s.received w srcMac m).peers.keyOf mac = s.peers.keyOf mac :=
      fun mac => PeerRegistry.keyOf_updateLastSeen _ _ mac _
    by_cases hj : m.messageType = MessageType.joinAck
    -- a master leaves its own acknowledgement alone, and passes on that of another node
    · rw [dispatchMessageTo_joinAck hj]
      by_cases hto : m.targetMac = s.deviceMac
      · rw [dispatchJoinAck_of_isMaster hm' hto]
        exact ⟨hm, fun _ => rfl, fun _ => ⟨rfl, hmacs, hkeys⟩⟩
      · obtain ⟨t, ht, htm, he, hpeers⟩ :=
          dispatchJoinAck_asMaster (s := s.received w srcMac m) (w := w) hto
        rw [Node.asMaster_of_isMaster hm', ht] at htm
        rw [ht]
        refine ⟨?_, fun hf => absurd hf (by simp [isForeignAck, hj, hto]), fun _ =>
          ⟨he, hpeers ▸ hmacs, fun mac => hpeers ▸ hkeys mac⟩⟩
        have hself : t = t.asMaster := by injection htm
        exact congrArg Node.isMaster hself
    · have hf : isForeignAck (s.received w srcMac m) m = false := by simp [isForeignAck, hj]
      have hwp := rolePart_dispatchMessageTo (w := w) hcb hf hm'
      have hpart : (Device.ofResult (dispatchMessageTo w cb m
          (s.received w srcMac m))).node.rolePart = s.rolePart := by
        unfold wp at hwp
        cases hr : dispatchMessageTo w cb m (s.received w srcMac m) <;>
          rw [hr] at hwp <;> exact hwp
      exact ⟨(congrArg Prod.fst hpart).trans hm, fun _ => congrArg (fun x => x.2.2) hpart,
        fun h => absurd h hj⟩

/-- Once the role is applied. -/
theorem actsAsMaster_master {srcMac : Mac} {m : Message} (hm : st.device.node.isMaster = true)
    (hd : st.drains = true) : ActsAsMaster b st (e, .drain srcMac m) := by
  have hcb : ∀ m, MasterSilent (st.stage.externalRecvCallback (b.world e) m) := by
    intro m
    cases st.stage with
    | linked => exact masterSilent_externalRecvCallback 2 m
    | _ => exact fun _ => .ret _
  have hself : st.asMaster = st := by
    obtain ⟨⟨s, status⟩, stage⟩ := st
    show (⟨⟨s.asMaster, status⟩, stage⟩ : Booting) = _
    rw [Node.asMaster_of_isMaster hm]
  have hrun := drain_master (s := st.device.inputNode (.rx srcMac m)) (w := b.world e) srcMac m
    hcb hm
  refine ⟨?_, ?_, ?_⟩
  · rintro _ _ ⟨⟩
    rw [hself, step_drain hd]
    show (⟨⟨Node.asMaster _, _⟩, _⟩ : Booting) = _
    rw [Node.asMaster_of_isMaster hrun.1]
  · rintro _ _ ⟨⟩ hf
    rw [step_drain hd]
    exact hrun.2.1 hf
  · rintro _ _ ⟨⟩ hj
    rw [step_drain hd]
    exact hrun.2.2 hj

/-- Each step of a board that is to be a master. -/
theorem actsAsMaster_step {x : Env × BootAct} (h : MasterToBe b.config st)
    (hx : WindowBlind b st x) : ActsAsMaster b st x := by
  obtain ⟨e, act⟩ := x
  cases act with
  | advance | housekeeping => exact ⟨nofun, nofun, nofun⟩
  | drain srcMac m =>
    cases hd : st.drains with
    | false =>
      have hstep : step b st (e, .drain srcMac m) = st := step_drain_of_not_drains hd
      have hstep' : step b st.asMaster (e, .drain srcMac m) = st.asMaster :=
        step_drain_of_not_drains hd
      exact ⟨fun _ _ h => by rw [hstep, hstep'], fun _ _ _ _ => by rw [hstep],
        fun _ _ _ _ => by rw [hstep]; exact ⟨rfl, rfl, fun _ => rfl⟩⟩
    | true =>
      have hr := hd
      simp only [drains, Bool.and_eq_true, decide_eq_true_eq] at hr
      cases hstage : st.stage with
      | start | meshUp => simp [hstage, BootStage.draining] at hr
      | taskUp => exact actsAsMaster_window hstage hd hx
      | roleApplied | linked =>
        simp only [MasterToBe, hstage] at h
        exact actsAsMaster_master (h hr.2).1 hd

/-- **A board that is stored as a master acts as one over a production boot and after it, if every
frame that is drained before the role is applied is one that a leaf handles as a master does.** -/
theorem actsAsMaster_run {xs : List (Env × BootAct)}
    (hprod : bootsInDevMode b.config d.node.nvs = false)
    (hflag : Nvs.flag d.node.nvs.masterFlag = true)
    (hxs : Runs.Along (step b) (WindowBlind b) ⟨d, .start⟩ xs) :
    Runs.Along (step b) (ActsAsMaster b) ⟨d, .start⟩ xs := by
  have hstart : MasterToBe b.config ⟨d, .start⟩ := ⟨hprod, hflag⟩
  exact Runs.along_of_invariant hstart
    (fun _ x h hx => ⟨masterToBe_step h x, actsAsMaster_step h hx⟩) hxs

end Booting

/-! ### A forged acknowledgement in the window -/

namespace Sample

/-- The flash of a board that is stored as a master. -/
def masterNvs : Nvs := { masterFlag := some 1 }

/-- The board of the master, switched on. -/
def switchedOn : Booting := ⟨Device.blank masterNvs, .start⟩

/-- An acknowledgement for the master itself, forged by the station 9. -/
def forgedJoinAck : Message :=
  { frame 9 MessageType.joinAck 1 1 with
    targetMac := mac 7, data := joinAckData (key 1) none, enrollmentPublicKey := key 7 }

/-- The mesh task drains it before the role is applied. -/
def bootWithForgery : List (Env × BootAct) :=
  [(env 1 100, .advance), (env 1 100, .advance), (env 1 100, .drain (mac 9) forgedJoinAck),
    (env 1 100, .advance), (env 1 100, .advance)]

/-- An acknowledgement for the station 3. -/
def foreignJoinAck : Message := { forgedJoinAck with targetMac := mac 3 }

/-- The mesh task drains it after the role is applied; before that, it drains one for another
station. -/
def bootThenForgery : List (Env × BootAct) :=
  [(env 1 100, .advance), (env 1 100, .advance), (env 1 100, .drain (mac 9) foreignJoinAck),
    (env 1 100, .advance), (env 1 100, .drain (mac 9) { forgedJoinAck with seqNum := 2 }),
    (env 1 100, .advance)]

end Sample

namespace Booting

open Sample

set_option maxRecDepth 100000 in
/-- After the role is applied the forgery is ignored. -/
theorem actsAsMaster_bootThenForgery :
    Runs.Along (step masterBoard) (ActsAsMaster masterBoard) switchedOn bootThenForgery := by
  refine actsAsMaster_run (by decide) (by decide) ⟨nofun, nofun, ?_, nofun, ?_, nofun, trivial⟩
  · rintro _ _ ⟨⟩ - - -
    decide +kernel
  · intro srcMac m _ hstage
    exact absurd hstage (by decide +kernel)

set_option maxRecDepth 100000 in
/-- **Before that it makes an enrolled leaf of the board, which trusts the forger as its master and
registers it as a peer; with that it becomes the master.** -/
theorem not_actsAsMaster_bootWithForgery :
    bootsInDevMode masterBoard.config masterNvs = false ∧ Nvs.flag masterNvs.masterFlag = true ∧
      ¬Runs.Along (step masterBoard) (ActsAsMaster masterBoard) switchedOn bootWithForgery ∧
      (Runs.run (step masterBoard) switchedOn bootWithForgery).device.node.isMaster = true ∧
      (Runs.run (step masterBoard) switchedOn bootWithForgery).device.node.enrollment.enrolled =
        true ∧
      (Runs.run (step masterBoard) switchedOn bootWithForgery
        ).device.node.enrollment.knownMasterMac = Sample.mac 9 ∧
      Sample.mac 9 ∈
        (Runs.run (step masterBoard) switchedOn bootWithForgery).device.node.peers.macs := by
  refine ⟨by decide, by decide, ?_, by decide +kernel, by decide +kernel, by decide +kernel,
    by decide +kernel⟩
  rintro ⟨-, -, hacts, -⟩
  have hmacs := (hacts.joinAck (Sample.mac 9) forgedJoinAck rfl rfl).2.1
  revert hmacs
  decide +kernel

end Booting

end LatticeMesh
