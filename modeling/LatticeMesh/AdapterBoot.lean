import LatticeMesh.MasterOnly
import LatticeMesh.RelayOnce

/-!
# The adapter of the next boot

The type of the adapter is stored as one byte.  A blank device stores its default type when it
boots, a `CONFIG_SET` command stores the byte that it carries and restarts the device, and the boot
asks the factory for an adapter of the stored type.  The factory knows two types; for any other one
the boot stops, and a device that stops there takes no command that could store a better byte.

## Main definitions

* `createFromEEPROM` — what the factory returns for the stored byte.
* `Device.control` — a device under control frames, reboots and its two buttons.
* `Device.keepsAdapter` — the moves that leave a byte behind which leads to an adapter.

## Main results

* `Device.createsAdapter_run` — **after such moves every boot creates an adapter.**
* `Device.bricked_run` — **after a byte that the factory does not know no boot ever does.**
-/

namespace LatticeMesh

open EffectSpec

variable {w : World} {s t : Node} {c : Config} {m : Message}

/-! ### The factory -/

/-- Whether the factory has an adapter of a type. -/
def factoryKnows (type : AdapterType) : Bool :=
  type = AdapterType.pir || type = AdapterType.serial

/-- The type that the factory reads from flash. -/
def loadAdapterTypeFromEEPROM (s : Node) : AdapterType :=
  if s.eeprom.isDevMode then AdapterType.pir
  else adapterTypeFromEEPROM (s.nvs.adapterType.getD 0)

/-- The adapter that the factory returns for it: none for a type that it does not know. -/
def createFromEEPROM (s : Node) : Option AdapterType :=
  if factoryKnows (loadAdapterTypeFromEEPROM s) then some (loadAdapterTypeFromEEPROM s) else none

/-- In production the boot asks for that adapter. -/
theorem bootAdapterType_of_production (h : s.eeprom.isDevMode = false) :
    bootAdapterType s c = loadAdapterTypeFromEEPROM s := by
  unfold bootAdapterType loadAdapterTypeFromEEPROM
  rw [h]
  rfl

/-- Without an adapter the boot reports that and stops. -/
theorem createAdapter_of_none (hd : s.eeprom.isDevMode = false) (h : createFromEEPROM s = none) :
    createAdapter w s = (do
      fail w .config .adapter 2 "AdapterFactory: Unknown adapter type"
      fatal w .hardware .core 3 "MAIN: Failed to create PIR adapter" : MeshM Unit) s := by
  have hk : ¬(bootAdapterType s w.config = AdapterType.pir ∨
      bootAdapterType s w.config = AdapterType.serial) := by
    rw [bootAdapterType_of_production hd]
    simpa [createFromEEPROM, factoryKnows] using h
  exact congrFun (if_neg hk) s

/-- Whether a stored byte leads to an adapter: it is unset, or the factory knows its type. -/
def leadsToAdapter (raw : UInt8) : Bool := raw = 0 || factoryKnows (adapterTypeFromEEPROM raw)

/-- The byte that a command stores leads to an adapter if the byte that it carries does. -/
theorem leadsToAdapter_stored (raw : UInt8) :
    leadsToAdapter (adapterTypeToEEPROM (adapterTypeFromEEPROM raw)) = leadsToAdapter raw := by
  by_cases h : raw = 0xFF
  · subst h
    decide
  · congr 1
    simp [adapterTypeFromEEPROM, adapterTypeToEEPROM, h]

/-! ### The boot up to the adapter -/

/-- The boot up to the adapter. -/
def initBeforeAdapter (w : World) : MeshM Unit := do
  modify fun s =>
    { s with eeprom := { s.eeprom with isDevMode := bootsInDevMode w.config s.nvs } }
  bootstrapPeers w
  initializeDefaultsIfUnset w

theorem initSubsystems_eq_adapter (w : World) : initSubsystems w =
    initBeforeAdapter w >>= fun _ => createAdapter w >>= fun _ => initMesh w >>= fun _ =>
      applyRole w := by
  simp only [initSubsystems, initBeforeAdapter, applyRole, bind_assoc]

/-! ### The stored byte -/

/-- The flash of a node in production. -/
def Nvs.InProduction (v : Nvs) : Prop := Nvs.flag v.devFlag = false

/-- A node in production, with a byte in flash that leads to an adapter. -/
structure Bootable (s : Node) : Prop where
  production : s.nvs.InProduction
  leads : leadsToAdapter (s.nvs.adapterType.getD 0) = true

/-- A node in production, with a byte in flash that leads to none. -/
structure Bricked (s : Node) : Prop where
  production : s.nvs.InProduction
  unknown : leadsToAdapter (s.nvs.adapterType.getD 0) = false

variable {dev : Bool}

/-- The boot settings decide about both. -/
theorem Bootable.congr (hs : Bootable s)
    (h : t.bootSettings = (s.nvs.adapterType, s.nvs.devFlag, dev)) : Bootable t := by
  obtain ⟨ha, hd, -⟩ := Prod.mk.inj h |>.imp_right Prod.mk.inj
  exact ⟨(congrArg Nvs.flag hd).trans hs.1, ha ▸ hs.2⟩

theorem Bricked.congr (hs : Bricked s)
    (h : t.bootSettings = (s.nvs.adapterType, s.nvs.devFlag, dev)) : Bricked t := by
  obtain ⟨ha, hd, -⟩ := Prod.mk.inj h |>.imp_right Prod.mk.inj
  exact ⟨(congrArg Nvs.flag hd).trans hs.1, ha ▸ hs.2⟩

/-- A program that leaves the boot settings alone keeps what they decide. -/
theorem wp_of_keeps {α : Type} {x : MeshM α} {P : Node → Prop} (hk : Keeps Node.bootSettings x)
    (hP : ∀ t, t.bootSettings = s.bootSettings → P t) :
    wp x (fun _ t => P t) (fun _ t => P t) s :=
  wp_mono x (fun _ t => hP t) (fun _ t => hP t) (hk s)

theorem Bootable.keeps {α : Type} {x : MeshM α} (hs : Bootable s)
    (hk : Keeps Node.bootSettings x) : wp x (fun _ t => Bootable t) (fun _ t => Bootable t) s :=
  wp_of_keeps hk fun _ => hs.congr

/-! ### Booting -/

/-- The write of the default, if the boot makes it, succeeds and leads to an adapter. -/
def defaultLeads (b : Board) (e : Env) (v : Nvs) : Bool :=
  v.adapterType.getD 0 ≠ 0 ||
    (e.nvsOk (.adapterType (adapterTypeToEEPROM b.config.defaultAdapter)) &&
      factoryKnows (adapterTypeFromEEPROM (adapterTypeToEEPROM b.config.defaultAdapter)))

/-- A byte that leads to an adapter, once the default is stored. -/
theorem createFromEEPROM_isSome (hd : s.eeprom.isDevMode = false)
    (h : factoryKnows (adapterTypeFromEEPROM (s.nvs.adapterType.getD 0)) = true) :
    (createFromEEPROM s).isSome = true := by
  have hl : loadAdapterTypeFromEEPROM s = _ := if_neg (ne_true_of_eq_false hd)
  unfold createFromEEPROM
  rw [hl, if_pos h]
  rfl

/-- A byte that leads to none. -/
theorem createFromEEPROM_eq_none (hd : s.eeprom.isDevMode = false)
    (h : leadsToAdapter (s.nvs.adapterType.getD 0) = false) : createFromEEPROM s = none := by
  have hl : loadAdapterTypeFromEEPROM s = _ := if_neg (ne_true_of_eq_false hd)
  unfold createFromEEPROM
  rw [hl]
  exact if_neg (ne_true_of_eq_false (Bool.or_eq_false_iff.1 h).2)

/-- The boot stores the default where no type is stored. -/
theorem wp_initializeDefaultsIfUnset (hs : Bootable s) (hd : s.eeprom.isDevMode = false)
    (hb : defaultLeads w.toBoard w.toEnv s.nvs = true) :
    wp (initializeDefaultsIfUnset w)
      (fun _ t => Bootable t ∧ (createFromEEPROM t).isSome = true) (fun _ t => Bootable t) s := by
  unfold initializeDefaultsIfUnset
  rw [wp_bind, wp_get, if_neg (by simp [hd])]
  split
  · rename_i h0
    have h0 : s.nvs.adapterType.getD 0 = 0 := h0
    rw [defaultLeads, h0] at hb
    simp only [ne_eq, not_true_eq_false, decide_false, Bool.false_or, Bool.and_eq_true] at hb
    unfold saveAdapterType nvsSave nvsPut
    rw [wp_bind, wp_get, if_neg (by simp [hd]), if_pos hb.1, wp_bind, wp_modify, wp_emit]
    have hleads : leadsToAdapter (adapterTypeToEEPROM w.config.defaultAdapter) = true := by
      simp [leadsToAdapter, hb.2]
    exact ⟨⟨hs.1, hleads⟩, createFromEEPROM_isSome hd hb.2⟩
  · rename_i h0
    have h0 : s.nvs.adapterType.getD 0 ≠ 0 := h0
    refine ⟨hs, createFromEEPROM_isSome hd ?_⟩
    have hl := hs.leads
    simpa [leadsToAdapter, h0] using hl

/-- A byte that leads to none is not replaced. -/
theorem wp_initializeDefaultsIfUnset_bricked (hs : Bricked s) (hd : s.eeprom.isDevMode = false) :
    wp (initializeDefaultsIfUnset w)
      (fun _ t => Bricked t ∧ t.eeprom.isDevMode = false ∧ createFromEEPROM t = none)
      (fun _ t => Bricked t) s := by
  unfold initializeDefaultsIfUnset
  have h0 : s.nvs.adapterType.getD 0 ≠ 0 := by
    intro h0
    simpa [h0, leadsToAdapter] using hs.unknown
  rw [wp_bind, wp_get, if_neg (by simp [hd]), if_neg (by exact h0)]
  exact ⟨hs, hd, createFromEEPROM_eq_none hd hs.unknown⟩

/-- The boot settings, once the boot chose its mode. -/
theorem wp_initBeforeAdapter {Q E : Node → Prop} (hp : w.config.devMode = false)
    (hs : s.nvs.InProduction)
    (h : ∀ t, t.bootSettings = (s.nvs.adapterType, s.nvs.devFlag, false) →
      wp (initializeDefaultsIfUnset w) (fun _ u => Q u) (fun _ u => E u) t)
    (hE : ∀ t, t.bootSettings = (s.nvs.adapterType, s.nvs.devFlag, false) → E t) :
    wp (initBeforeAdapter w) (fun _ t => Q t) (fun _ t => E t) s := by
  have hmode : bootsInDevMode w.config s.nvs = false := by
    rw [bootsInDevMode, hp, hs]
    rfl
  unfold initBeforeAdapter
  rw [wp_bind, wp_modify, wp_bind, hmode]
  exact wp_mono _ (fun _ t ht => h t ht) (fun _ t ht => hE t ht)
    (keeps_bootstrapPeers (f := Node.bootSettings) _)

theorem keeps_initMesh {δ : Type} {f : Node → δ} [LedgerFrame f] : Keeps f (initMesh w) := by
  refine .bind (keeps_ledger fun _ => rfl) fun _ => .bind keeps_loadMeshKeyFromEEPROM fun _ => ?_
  refine .bind keeps_initEnrollment fun _ => .bind (keeps_ledger fun _ => rfl) fun _ => ?_
  refine .bind ?_ fun _ => ?_
  · refine .read_bind fun s => .bind (keeps_saveBootEpoch _) fun _ => keeps_ledger fun _ => rfl
  refine .bind ?_ fun _ => .bind keeps_setupEspNow fun ok =>
    .ite (fun _ => .ret _) fun _ => keeps_fatal _ _ _ _
  refine .bind (.ite (fun _ => .ret _) fun _ => .raise _) fun _ => ?_
  refine .bind (keeps_checkEsp _ _ _) fun _ => .bind ?_ fun _ => keeps_ledger fun _ => rfl
  exact .ite (fun _ => keeps_ledger fun _ => rfl) fun _ => keeps_fail _ _ _ _

/-- The boot behind the default leaves the boot settings alone. -/
theorem keeps_initAfterDefault : Keeps Node.bootSettings (do
    createAdapter w
    initMesh w
    applyRole w) :=
  .bind keeps_createAdapter fun _ => .bind keeps_initMesh fun _ => .update fun _ => rfl

/-- A boot keeps a byte that leads to an adapter, and gets one from the factory. -/
theorem wp_boot (hp : w.config.devMode = false) (hs : Bootable s)
    (hb : defaultLeads w.toBoard w.toEnv s.nvs = true) :
    wp (initBeforeAdapter w)
      (fun _ t => Bootable t ∧ (createFromEEPROM t).isSome = true) (fun _ t => Bootable t) s := by
  refine wp_initBeforeAdapter hp hs.production (fun t ht => ?_) fun t ht => hs.congr ht
  have ha : t.nvs.adapterType = s.nvs.adapterType := congrArg Prod.fst ht
  refine wp_initializeDefaultsIfUnset (hs.congr ht) (congrArg (fun p => p.2.2) ht) ?_
  rwa [defaultLeads, ha]

/-- A boot keeps a byte that leads to none, and gets no adapter from the factory. -/
theorem wp_boot_bricked (hp : w.config.devMode = false) (hs : Bricked s) :
    wp (initBeforeAdapter w)
      (fun _ t => Bricked t ∧ t.eeprom.isDevMode = false ∧ createFromEEPROM t = none)
      (fun _ t => Bricked t) s := by
  refine wp_initBeforeAdapter hp hs.production (fun t ht => ?_) fun t ht => hs.congr ht
  exact wp_initializeDefaultsIfUnset_bricked (hs.congr ht) (congrArg (fun p => p.2.2) ht)

/-- Without an adapter the boot never returns. -/
theorem wp_createAdapter_of_none (hd : s.eeprom.isDevMode = false)
    (h : createFromEEPROM s = none) :
    wp (createAdapter w) (fun _ _ => False) (fun _ _ => True) s := by
  unfold EffectSpec.wp
  rw [createAdapter_of_none hd h]
  exact wp_bind_any fun _ _ => wp_bind_any fun _ _ => wp_bind_any fun _ _ => trivial

/-! ### Control frames -/

/-- The frame is a command to this node to store a type that no adapter has. -/
def storesUnknown (s : Node) (m : Message) : Bool :=
  m.dataType = AdapterType.serial && m.byte 0 = Opcode.configSet &&
    isTargetedAtSelf s m.commandTarget && !leadsToAdapter (m.byte 7)

/-- The write with which a node carries out a command to change its type. -/
def configWrite (m : Message) : NvsOp :=
  .adapterType (adapterTypeToEEPROM (adapterTypeFromEEPROM (m.byte 7)))

theorem keeps_restart : Keeps Node.bootSettings (do
    emit .espRestart
    throw .espRestart : MeshM Unit) := .bind (keeps_emit rfl) fun _ => .raise _

/-- A write of a byte that leads to an adapter. -/
theorem Bootable.wp_saveAdapterType {raw : UInt8} (hs : Bootable s)
    (h : w.nvsOk (.adapterType raw) = true → leadsToAdapter raw = true) :
    wp (saveAdapterType w raw) (fun _ t => Bootable t) (fun _ t => Bootable t) s := by
  unfold saveAdapterType nvsSave nvsPut
  rw [wp_bind, wp_get]
  split
  · exact hs
  split
  · rename_i ho
    exact ⟨hs.1, h ho⟩
  · exact hs

theorem Bootable.wp_opConfigSet (hs : Bootable s)
    (hm : isTargetedAtSelf s m.commandTarget = true → leadsToAdapter (m.byte 7) = false →
      w.nvsOk (configWrite m) = false) :
    wp (opConfigSet w m) (fun _ t => Bootable t) (fun _ t => Bootable t) s := by
  unfold opConfigSet
  rw [wp_bind, wp_get]
  split
  · rename_i ht
    rw [wp_bind]
    refine wp_mono _ (fun _ t hb => hb.keeps keeps_restart) (fun _ _ hb => hb)
      (hs.wp_saveAdapterType ?_)
    intro ho
    rw [leadsToAdapter_stored]
    cases hl : leadsToAdapter (m.byte 7) with
    | true => rfl
    | false => exact absurd ho (ne_true_of_eq_false (hm ht hl))
  · exact hs

/-- The frame leads to no write, or to the write of a byte that leads to an adapter. -/
def StoresKnown (w : World) (s : Node) (m : Message) : Prop :=
  storesUnknown s m = true → w.nvsOk (configWrite m) = false

theorem StoresKnown.configSet (h : StoresKnown w s m) (hs : m.dataType = AdapterType.serial)
    (hc : m.byte 0 = Opcode.configSet) (ht : isTargetedAtSelf s m.commandTarget = true)
    (hl : leadsToAdapter (m.byte 7) = false) : w.nvsOk (configWrite m) = false :=
  h (by simp [storesUnknown, hs, hc, ht, hl])

/-- The control opcodes; only the command to change the type writes it. -/
theorem Bootable.wp_dispatchControlOp {transmitSelf : AdapterType → Payload → MeshM Unit}
    {rebroadcastOnMaster : Bool} (hs : Bootable s) (h : StoresKnown w s m)
    (hd : m.dataType = AdapterType.serial)
    (ht : ∀ (s : Node) type, Keeps Node.bootSettings
      (transmitSelf type (buildHealthFrame s Opcode.healthReport w.nowMs))) :
    wp (dispatchControlOp w transmitSelf m rebroadcastOnMaster) (fun _ t => Bootable t)
      (fun _ t => Bootable t) s := by
  by_cases hc : m.byte 0 = Opcode.configSet
  · unfold dispatchControlOp
    rw [if_pos hc]
    exact hs.wp_opConfigSet (h.configSet hd hc)
  · exact hs.keeps (keeps_dispatchControlOp (fun h => absurd h hc) ht)

/-- A frame that the mesh accepted. -/
theorem Bootable.wp_deliver (hs : Bootable s) (h : StoresKnown w s m) :
    wp (deliver w m) (fun _ t => Bootable t) (fun _ t => Bootable t) s := by
  by_cases hd : m.dataType = AdapterType.serial
  · unfold deliver externalRecvCallback onMeshData
    rw [wp_bind, wp_emit, wp_bind, wp_get, if_pos hd, wp_bind]
    have hs' : Bootable (s.emit (.deliver m)) := ⟨hs.1, hs.2⟩
    refine wp_mono _ (fun _ t hb => ?_) (fun _ _ hb => hb) (hs'.wp_dispatchControlOp h hd ?_)
    · exact hb.keeps (.ite (fun _ => keeps_onMeshDataImpl) fun _ => .ret _)
    · exact fun _ _ => keeps_transmitDispatch fun _ m hm =>
        keeps_externalRecvCallback 1 m fun _ hb => absurd hb (byte_ne_configSet hm)
  · exact hs.keeps (keeps_externalRecvCallback 2 m fun h => absurd h hd)

/-- A frame from the server. -/
theorem Bootable.wp_handleCompleteFrame (hs : Bootable s)
    (h : s.adapterType = AdapterType.serial → m.messageType ≠ MessageType.joinAck →
      StoresKnown w s m) :
    wp (handleCompleteFrame w m) (fun _ t => Bootable t) (fun _ t => Bootable t) s := by
  unfold handleCompleteFrame
  rw [wp_bind, wp_get]
  split
  · exact hs
  rename_i ha
  split
  · exact hs.keeps (keeps_serverJoinAck m)
  rename_i hj
  -- passing the frame on changes neither the boot settings nor the address of the node
  rw [wp_bind]
  refine wp_mono _ (fun _ t ht => ?_) (fun _ t ht => ht.1) (wp_and _
    (hs.keeps (keeps_forwardServerFrame m)) (keeps_forwardServerFrame (f := Node.relayState) m s))
  obtain ⟨hb, hr⟩ := ht
  have hmac : t.deviceMac = s.deviceMac := congrArg RelayState.deviceMac hr
  split
  · rename_i hd
    refine hb.wp_dispatchControlOp (fun hu => h (not_not.1 ha) hj ?_) hd keeps_transmitSelf
    rwa [storesUnknown, isTargetedAtSelf, ← hmac]
  · exact hb

/-! ### The buttons -/

theorem keeps_tickConfig : Keeps Node.bootSettings (tickConfig w) := by
  refine .read_bind fun s => .ite (fun _ => .update fun _ => rfl) fun _ => ?_
  exact .bind (keeps_save (fun _ => ⟨rfl, rfl⟩) _) fun _ => keeps_restart

/-- A wiped flash is blank: the next boot stores the default. -/
theorem Bootable.wp_tickReset (hs : Bootable s) :
    wp (tickReset w) (fun _ t => Bootable t) (fun _ t => Bootable t) s := by
  unfold tickReset nvsPut
  rw [wp_bind]
  split
  · exact (⟨rfl, rfl⟩ : Bootable { s with nvs := {}, trace := _ })
  · exact hs.keeps keeps_restart

/-! ### Runs -/

/-- What is left of a received frame without its callback leaves the boot settings alone: it is the
callback that a control frame has to reach. -/
theorem keeps_handleReceivedMessageTo {δ : Type} {f : Node → δ} [LedgerFrame f]
    {cb : Message → MeshM Unit} {srcMac : Mac} (hcb : ∀ m, Keeps f (cb m))
    (he : m.messageType = MessageType.enrollment → Keeps f (processEnrollment w m)) :
    Keeps f (handleReceivedMessageTo w cb srcMac m) := by
  refine .ite (fun _ => .ret _) fun _ => .read_bind fun s => ?_
  refine .bind (keeps_ledger fun _ => rfl) fun _ => .ite (fun _ => .ret _) fun _ => ?_
  refine .bind (keeps_ledger fun _ => rfl) fun _ => ?_
  by_cases h : m.messageType = MessageType.masterBeacon
  · unfold dispatchMessageTo
    rw [if_neg (h.trans_ne (by decide)), if_neg (h.trans_ne (by decide)), dispatchMessage_beacon h]
    refine .read_bind fun s => .ite (fun _ => .ret _) fun _ => ?_
    refine .bind (keeps_acceptBeaconOrigin _) fun _ => .ite (fun _ => ?_) fun _ => .ret _
    refine .bind (keeps_warnOtherMaster _) fun _ => keeps_ledger fun s => ?_
    unfold Node.scheduleRelay
    split <;> rfl
  · exact keeps_dispatchMessageTo hcb he h

/-- What can happen to the stored byte: a boot, a control frame that the mesh accepted, a frame
from the server, and the two buttons. -/
inductive ControlMove
  | boot
  | accepted (m : Message)
  | server (m : Message)
  | configButton
  | resetButton

namespace Device

variable {b : Board} {d : Device} {e : Env} {x : Env × ControlMove}

/-- A device under control frames, reboots and its two buttons. -/
def control (b : Board) (d : Device) : Env × ControlMove → Device
  | (e, .boot) => step b d (e, .boot)
  | (e, .accepted m) =>
    if d.status = .running then ofResult (deliver (b.world e) m d.node) else d
  | (e, .server m) => step b d (e, .serial m)
  | (e, .configButton) => step b d (e, .configButton)
  | (e, .resetButton) => step b d (e, .resetButton)

/-- What the factory returns in a boot, or nothing if the boot ends before it asks. -/
def factoryReturns (b : Board) (d : Device) (e : Env) : Option (Option AdapterType) :=
  match initBeforeAdapter (b.world e) (d.bootNode b) with
  | .ok _ s => some (createFromEEPROM s)
  | .error _ _ => none

/-- The move leaves a byte behind which leads to an adapter.  A boot that has to store the default
can store it, and the factory knows it; a command to a running node stores no other byte. -/
def keepsAdapter (b : Board) (d : Device) : Env × ControlMove → Bool
  | (e, .boot) => defaultLeads b e d.node.nvs
  | (e, .accepted m) =>
    !(d.status = .running && storesUnknown d.node m && e.nvsOk (configWrite m))
  | (e, .server m) =>
    !(d.status = .running && d.node.adapterType = AdapterType.serial &&
      m.messageType ≠ MessageType.joinAck && storesUnknown d.node m && e.nvsOk (configWrite m))
  | (_, .configButton) => true
  | (_, .resetButton) => true

/-- An input keeps what its handler keeps. -/
theorem bootable_input {i : Input} (hi : i ≠ .boot) (hd : Bootable d.node)
    (h : d.status = .running → Bootable (d.inputNode i) →
      wp (handleInput (b.world e) i) (fun _ t => Bootable t) (fun _ t => Bootable t)
        (d.inputNode i)) : Bootable (step b d (e, i)).node := by
  by_cases hs : d.status = .running
  · rw [step_of_input hi hs]
    exact ofResult_of_wp (h hs ⟨hd.1, hd.2⟩)
  · rwa [step_ignored hi hs]

/-- What the factory returns in a boot is what it returns at the end of its first part. -/
theorem of_factoryReturns {P : Option AdapterType → Prop} {r : Option AdapterType}
    (h : wp (initBeforeAdapter (b.world e)) (fun _ t => P (createFromEEPROM t))
      (fun _ _ => True) (d.bootNode b)) (hr : d.factoryReturns b e = some r) : P r := by
  unfold factoryReturns at hr
  cases hx : initBeforeAdapter (b.world e) (d.bootNode b) with
  | ok _ t =>
    rw [hx] at hr
    exact Option.some.inj hr ▸ wp_ok hx h
  | error _ t =>
    rw [hx] at hr
    cases hr

/-- A boot keeps a byte that leads to an adapter, and gets one from the factory. -/
theorem bootable_boot (hp : b.config.devMode = false) (hd : Bootable d.node)
    (h : defaultLeads b e d.node.nvs = true) :
    Bootable (step b d (e, .boot)).node ∧ d.factoryReturns b e ≠ some none := by
  have hstart : Bootable (d.bootNode b) := ⟨hd.1, hd.2⟩
  have hboot := wp_boot (w := b.world e) hp hstart h
  constructor
  · show Bootable (ofResult (initSubsystems (b.world e) (d.bootNode b))).node
    refine ofResult_of_wp ?_
    rw [initSubsystems_eq_adapter, wp_bind]
    exact wp_mono _ (fun _ t ht => ht.1.keeps keeps_initAfterDefault) (fun _ _ ht => ht) hboot
  · intro hn
    have := of_factoryReturns (P := fun r => r.isSome = true)
      (wp_mono _ (fun _ _ ht => ht.2) (fun _ _ _ => trivial) hboot) hn
    cases this

/-- Every move that keeps an adapter keeps the byte, and a boot gets an adapter. -/
theorem bootable_control (hp : b.config.devMode = false) (hd : Bootable d.node)
    (h : d.keepsAdapter b x = true) : Bootable (control b d x).node ∧
      (x.2 = .boot → d.factoryReturns b x.1 ≠ some none) := by
  obtain ⟨e, i⟩ := x
  cases i with
  | boot =>
    obtain ⟨hn, hf⟩ := bootable_boot hp hd h
    exact ⟨hn, fun _ => hf⟩
  | accepted m =>
    refine ⟨?_, fun hb => nomatch hb⟩
    show Bootable (if d.status = .running then _ else d).node
    split
    · rename_i hs
      refine ofResult_of_wp (hd.wp_deliver fun hu => ?_)
      show e.nvsOk (configWrite m) = false
      simpa [keepsAdapter, hs, hu] using h
    · exact hd
  | server m =>
    refine ⟨bootable_input (fun h => nomatch h) hd fun hs hd' => ?_, fun hb => nomatch hb⟩
    refine hd'.wp_handleCompleteFrame fun ha hj hu => ?_
    have ha : d.node.adapterType = AdapterType.serial := ha
    have hu : storesUnknown d.node m = true := hu
    show e.nvsOk (configWrite m) = false
    simpa [keepsAdapter, hs, ha, hj, hu] using h
  | configButton =>
    refine ⟨bootable_input (fun h => nomatch h) hd fun _ hd' => ?_, fun hb => nomatch hb⟩
    exact hd'.keeps keeps_tickConfig
  | resetButton =>
    refine ⟨bootable_input (fun h => nomatch h) hd fun _ hd' => ?_, fun hb => nomatch hb⟩
    exact hd'.wp_tickReset

theorem bootable_blank : Bootable (blank {}).node := ⟨rfl, rfl⟩

/-- **No command bricks a node**, in a run from a blank flash in production whose commands store
only bytes that the factory knows: every boot creates an adapter. -/
theorem createsAdapter_run {xs : List (Env × ControlMove)} (hp : b.config.devMode = false)
    (h : Runs.Along (control b) (fun d x => d.keepsAdapter b x = true) (blank {}) xs) :
    Runs.Along (control b) (fun d x => x.2 = .boot → d.factoryReturns b x.1 ≠ some none)
      (blank {}) xs :=
  Runs.along_of_invariant (I := fun d : Device => Bootable d.node) bootable_blank
    (fun _ _ hd hx => bootable_control hp hd hx) h

end Device

namespace Sample

/-- The board of a node that talks to the server out of the box. -/
def serialBoard : Board :=
  { board with config := { config with defaultAdapter := AdapterType.serial } }

/-- The command of the server to every node to take up an adapter type. -/
def typeCommand (type : UInt8) : Message :=
  let data := Bytes.fill 1 Opcode.configSet ++ broadcastMac ++ Bytes.fill 1 type
  { Message.zero with
    protoVersion := protoVersion, messageType := MessageType.serialCmdBroadcast
    targetMac := broadcastMac, dataType := AdapterType.serial
    data := Bytes.blit (Bytes.zero 64) 0 data command_le }

/-- A node that the server turns into a PIR sensor, and a command from the mesh into a PIR sensor
once more. -/
def retyped : List (Env × ControlMove) :=
  [(env 1 100, .boot), (env 1 200, .server (typeCommand 2)), (env 1 100, .boot),
    (env 1 200, .accepted (typeCommand 0xFF)), (env 1 100, .boot)]

/-- A node that the server turns into a relay, a type that the protocol reserves. -/
def retypedReserved : List (Env × ControlMove) :=
  [(env 1 100, .boot), (env 1 200, .server (typeCommand 4)), (env 1 100, .boot)]

end Sample

namespace Device

variable {b : Board} {d : Device} {e : Env} {x : Env × ControlMove}

set_option maxRecDepth 100000 in
theorem createsAdapter_run_retyped : Runs.Along (control Sample.serialBoard)
    (fun d x => x.2 = .boot → d.factoryReturns Sample.serialBoard x.1 ≠ some none)
    (blank {}) Sample.retyped :=
  createsAdapter_run rfl (by decide +kernel)

set_option maxRecDepth 100000 in
/-- **A command with a reserved type bricks a node:** the boot after it gets no adapter. -/
theorem not_createsAdapter_run_reserved : ¬∀ (b : Board) (xs : List (Env × ControlMove)),
    b.config.devMode = false →
      Runs.Along (control b) (fun d x => x.2 = .boot → d.factoryReturns b x.1 ≠ some none)
        (blank {}) xs := by
  intro h
  have hrun := h Sample.serialBoard Sample.retypedReserved rfl
  exact hrun.2.2.1 rfl (by decide +kernel)

/-! ### Bricked nodes -/

/-- A boot without an adapter in flash ends before the node runs. -/
theorem bricked_boot (hp : b.config.devMode = false) (hd : Bricked d.node) :
    (step b d (e, .boot)).status ≠ .running ∧ Bricked (step b d (e, .boot)).node ∧
      ∀ type, d.factoryReturns b e ≠ some (some type) := by
  have hstart : Bricked (d.bootNode b) := ⟨hd.1, hd.2⟩
  have hboot := wp_boot_bricked (w := b.world e) hp hstart
  have hall : wp (initSubsystems (b.world e)) (fun _ _ => False) (fun _ t => Bricked t)
      (d.bootNode b) := by
    rw [initSubsystems_eq_adapter, wp_bind]
    refine wp_mono _ (fun _ t ht => ?_) (fun _ _ ht => ht) hboot
    rw [wp_bind]
    exact wp_mono _ (fun _ _ h => h.1.elim) (fun _ _ h => h.2) (wp_and _
      (wp_createAdapter_of_none ht.2.1 ht.2.2)
      (wp_of_keeps keeps_createAdapter fun _ => ht.1.congr))
  have hstep : step b d (e, .boot) = ofResult (initSubsystems (b.world e) (d.bootNode b)) := rfl
  rw [hstep]
  refine ⟨?_, ?_, fun type => ?_⟩
  · cases hr : initSubsystems (b.world e) (d.bootNode b) with
    | ok _ t => exact (wp_ok hr hall).elim
    | error _ t => exact fun h => nomatch h
  · exact ofResult_of_wp (wp_mono _ (fun _ _ h => h.elim) (fun _ _ h => h) hall)
  · intro hn
    have := of_factoryReturns (P := fun r => r = none)
      (wp_mono _ (fun _ _ ht => ht.2.2) (fun _ _ _ => trivial) hboot) hn
    cases this

/-- A device that does not run takes nothing but a boot. -/
theorem control_of_not_running (hs : d.status ≠ .running) (hx : x.2 ≠ .boot) :
    control b d x = d := by
  obtain ⟨e, i⟩ := x
  cases i with
  | boot => exact absurd rfl hx
  | accepted m => exact if_neg hs
  | server | configButton | resetButton => exact step_ignored (fun h => nomatch h) hs

/-- A command with a byte that the factory does not know bricks a running node in production. -/
theorem bricked_accepted (hs : d.status = .running) (hp : d.node.nvs.InProduction)
    (hd : d.node.eeprom.isDevMode = false) (hu : storesUnknown d.node m = true)
    (ho : e.nvsOk (configWrite m) = true) :
    (control b d (e, .accepted m)).status ≠ .running ∧
      Bricked (control b d (e, .accepted m)).node := by
  simp only [storesUnknown, Bool.and_eq_true, decide_eq_true_eq, Bool.not_eq_true'] at hu
  obtain ⟨⟨⟨hser, hc⟩, ht⟩, hl⟩ := hu
  have hrun : wp (deliver (b.world e) m) (fun _ _ => False) (fun _ t => Bricked t) d.node := by
    unfold deliver externalRecvCallback onMeshData
    rw [wp_bind, wp_emit, wp_bind, wp_get, if_pos hser, wp_bind]
    unfold dispatchControlOp opConfigSet saveAdapterType nvsSave nvsPut
    rw [if_pos hc, wp_bind, wp_get, if_pos (by exact ht), wp_bind, wp_bind, wp_get,
      if_neg (by exact ne_true_of_eq_false hd), if_pos (by exact ho)]
    exact ⟨hp, (leadsToAdapter_stored _).trans hl⟩
  have hstep : control b d (e, .accepted m) = ofResult (deliver (b.world e) m d.node) := if_pos hs
  rw [hstep]
  constructor
  · cases hr : deliver (b.world e) m d.node with
    | ok _ t => exact (wp_ok hr hrun).elim
    | error _ t => exact fun h => nomatch h
  · exact ofResult_of_wp (wp_mono _ (fun _ _ h => h.elim) (fun _ _ h => h) hrun)

/-- **A bricked node stays bricked:** whatever happens to it, no boot creates an adapter. -/
theorem bricked_run {xs : List (Env × ControlMove)} (hp : b.config.devMode = false)
    (hs : d.status ≠ .running) (hd : Bricked d.node) :
    Runs.Along (control b)
      (fun d x => x.2 = .boot → ∀ type, d.factoryReturns b x.1 ≠ some (some type)) d xs := by
  refine Runs.along_of_invariant (I := fun d : Device => d.status ≠ .running ∧ Bricked d.node)
    ⟨hs, hd⟩ (fun d x ⟨hs, hd⟩ _ => ?_) (Runs.along_of_forall (fun _ _ => trivial) d xs)
  by_cases hx : x.2 = .boot
  · obtain ⟨e, i⟩ := x
    cases hx
    obtain ⟨hs', hd', hf⟩ := bricked_boot hp hd
    exact ⟨⟨hs', hd'⟩, fun _ => hf⟩
  · rw [control_of_not_running hs hx]
    exact ⟨⟨hs, hd⟩, fun h => absurd h hx⟩

end Device

end LatticeMesh
