import LatticeMesh.RadioPeers
import LatticeMesh.Boot

/-!
# Dev mode and the flash

Dev mode is to leave the flash alone.  Every function that saves a setting looks at the mode by
itself; the ones that save the node id and that erase a peer record do not, and with them every save
of the registry, which erases the slots behind the last peer.

## Main definitions

* `Store` — a node and the reset diagnostics, which share the flash with it.
* `StoreOp`, `StoreOp.run` — the calls that reach the flash.
* `StoreOp.Spares` — a call erases no stored record and stores no new node id.

## Main results

* `flash_run` — **in dev mode the flash stays as it is, as long as every call spares it.**
* `not_flash_run_removed` — the removal of a peer erases its stored record.
-/

namespace LatticeMesh

open EffectSpec

variable {w : World} {s t : Node}

/-! ### Calls -/

/-- The reset diagnostics in flash, which the mesh never reads. -/
structure Diagnostics where
  rebootCount : Option UInt8 := none
  rebootReason : Option UInt8 := none
  deriving DecidableEq

/-- A node and the part of the flash that it does not use itself. -/
structure Store where
  node : Node
  diagnostics : Diagnostics := {}

/-- Everything that the flash holds. -/
def Store.flash (st : Store) : Nvs × Diagnostics := (st.node.nvs, st.diagnostics)

/-- Programs over a node and the diagnostics. -/
abbrev StoreM := EStateM Halt Store

/-- Run a program of the node. -/
def onNode {α : Type} (x : MeshM α) : StoreM Unit := fun st =>
  match x st.node with
  | .ok _ s => .ok () { st with node := s }
  | .error e s => .error e { st with node := s }

/-- Change the flash unless the node runs in dev mode; `ok` says whether the write succeeds, and a
failure is not reported. -/
def saveGuarded (ok : Bool) (f : Store → Store) : StoreM Unit := do
  let st ← get
  if st.node.eeprom.isDevMode then pure () else if ok then modify f else pure ()

/-- The store with changed flash contents of the node. -/
def Store.withNvs (st : Store) (f : Nvs → Nvs) : Store :=
  { st with node := { st.node with nvs := f st.node.nvs } }

def saveRebootCount (ok : Bool) (count : UInt8) : StoreM Unit :=
  saveGuarded ok fun st =>
    { st with diagnostics := { st.diagnostics with rebootCount := some count } }

def saveRebootReason (ok : Bool) (reason : UInt8) : StoreM Unit :=
  saveGuarded ok fun st =>
    { st with diagnostics := { st.diagnostics with rebootReason := some reason } }

def saveDevFlag (ok : Bool) (isDev : Bool) : StoreM Unit :=
  saveGuarded ok fun st => st.withNvs fun v => { v with devFlag := some (if isDev then 1 else 0) }

def clearKnownMasterMac (ok : Bool) : StoreM Unit :=
  saveGuarded ok fun st => st.withNvs fun v => { v with knownMasterMac := none }

def clearKnownMasterMacSecondary (ok : Bool) : StoreM Unit :=
  saveGuarded ok fun st => st.withNvs fun v => { v with knownMasterMacSec := none }

/-- Erase all peer records; like the removal of a single one, it does not look at the mode. -/
def clearPeerList (w : World) : MeshM Unit := (List.finRange maxPeers).forM (erasePeerRecord w)

/-- The calls that reach the flash: the persistence layer, the registry, the trust on first use and
the control opcodes. -/
inductive StoreOp
  | saveKeypair (priv pub : Key)
  | saveNodeId (nodeId : UInt8)
  | saveBootEpoch (epoch : UInt32)
  | saveRebootCount (ok : Bool) (count : UInt8)
  | saveRebootReason (ok : Bool) (reason : UInt8)
  | savePeerRecord (index : UInt8) (record : PeerRecord)
  | erasePeerRecord (index : UInt8)
  | savePeerList (peerRecords : ℕ → UInt8) (numPeers : ℕ)
  | clearPeerList
  | saveMeshKey (key : Bytes 16)
  | saveKnownMasterMac (mac : Mac)
  | clearKnownMasterMac (ok : Bool)
  | saveKnownMasterMacSecondary (mac : Mac)
  | clearKnownMasterMacSecondary (ok : Bool)
  | saveEnrolledFlag (enrolled : Bool)
  | saveMasterFlag (isMaster : Bool)
  | saveDevFlag (ok : Bool) (isDev : Bool)
  | saveAdapterType (adapterType : UInt8)
  | saveTxPowerPreset (preset : UInt8)
  | nextSeqGuarded
  | saveToEEPROM
  | addAndPersist (mac : Mac)
  | removeAndPersist (mac : Mac)
  | registerPeerWithKey (mac : Mac) (publicKey : Key) (allowRekey : Bool)
  | learnMasterMac (mac : Mac)
  | learnSecondaryMasterMac (mac : Mac)
  | processJoinAck (m : Message)
  | processBeacon (m : Message)
  | opConfigSet (m : Message)
  | opNodeIdSet (m : Message)
  | opTxPowerSet (m : Message) (rebroadcastOnMaster : Bool)

/-- What a call does. -/
def StoreOp.run (w : World) : StoreOp → StoreM Unit
  | .saveKeypair priv pub => onNode (LatticeMesh.saveKeypair w priv pub)
  | .saveNodeId n => onNode (LatticeMesh.saveNodeId w n)
  | .saveBootEpoch epoch => onNode (LatticeMesh.saveBootEpoch w epoch)
  | .saveRebootCount ok n => LatticeMesh.saveRebootCount ok n
  | .saveRebootReason ok r => LatticeMesh.saveRebootReason ok r
  | .savePeerRecord i r =>
    if h : i.toNat < maxPeers then onNode (LatticeMesh.savePeerRecord w ⟨i.toNat, h⟩ r) else pure ()
  | .erasePeerRecord i =>
    if h : i.toNat < maxPeers then onNode (LatticeMesh.erasePeerRecord w ⟨i.toNat, h⟩) else pure ()
  | .savePeerList bytes n => onNode (LatticeMesh.savePeerList w bytes n)
  | .clearPeerList => onNode (LatticeMesh.clearPeerList w)
  | .saveMeshKey k => onNode (LatticeMesh.saveMeshKey w k)
  | .saveKnownMasterMac mac => onNode (LatticeMesh.saveKnownMasterMac w mac)
  | .clearKnownMasterMac ok => LatticeMesh.clearKnownMasterMac ok
  | .saveKnownMasterMacSecondary mac => onNode (LatticeMesh.saveKnownMasterMacSecondary w mac)
  | .clearKnownMasterMacSecondary ok => LatticeMesh.clearKnownMasterMacSecondary ok
  | .saveEnrolledFlag b => onNode (LatticeMesh.saveEnrolledFlag w b)
  | .saveMasterFlag b => onNode (LatticeMesh.saveMasterFlag w b)
  | .saveDevFlag ok b => LatticeMesh.saveDevFlag ok b
  | .saveAdapterType n => onNode (LatticeMesh.saveAdapterType w n)
  | .saveTxPowerPreset n => onNode (LatticeMesh.saveTxPowerPreset w n)
  | .nextSeqGuarded => onNode (LatticeMesh.nextSeqGuarded w)
  | .saveToEEPROM => onNode (LatticeMesh.saveToEEPROM w)
  | .addAndPersist mac => onNode (LatticeMesh.addAndPersist w mac)
  | .removeAndPersist mac => onNode (LatticeMesh.removeAndPersist w mac)
  | .registerPeerWithKey mac key rekey => onNode (LatticeMesh.registerPeerWithKey w mac key rekey)
  | .learnMasterMac mac => onNode (LatticeMesh.learnMasterMac w mac)
  | .learnSecondaryMasterMac mac => onNode (LatticeMesh.learnSecondaryMasterMac w mac)
  | .processJoinAck m => onNode (LatticeMesh.processJoinAck w m)
  | .processBeacon m => onNode (LatticeMesh.processBeacon w m)
  | .opConfigSet m => onNode (LatticeMesh.opConfigSet w m)
  | .opNodeIdSet m => onNode (LatticeMesh.opNodeIdSet w m)
  | .opTxPowerSet m rebroadcast => onNode (LatticeMesh.opTxPowerSet w m rebroadcast)

/-- The state after a call, however it ends. -/
def storeStep (st : Store) (x : World × StoreOp) : Store := Calls.final (x.2.run x.1 st)

/-! ### Calls that spare the flash -/

/-- No record that can be erased is stored from the `n`-th slot on. -/
def TailClear (w : World) (s : Node) (n : ℕ) : Prop :=
  ∀ i : Fin maxPeers, n ≤ i.val → w.nvsOk (.erasePeer i) = true → s.nvs.peer.get i = none

instance (w : World) (s : Node) (n : ℕ) : Decidable (TailClear w s n) :=
  inferInstanceAs (Decidable (∀ _, _ → _ → _))

/-- The node id is stored already, or cannot be stored. -/
def NodeIdStored (w : World) (s : Node) (n : UInt8) : Prop :=
  w.nvsOk (.nodeId n) = true → s.nvs.nodeId = some n

/-- A registration that saves the registry `r` finds no record behind its peers. -/
def RegistrationSpares (w : World) (s : Node) (r : PeerRegistry) (mac : Mac) (key : Key)
    (allowRekey : Bool) : Prop :=
  r.stores mac allowRekey = true → TailClear w s (r.register mac key w.nowMs).count

/-- The addresses after a registration that has room. -/
theorem PeerRegistry.macs_register_eq (r : PeerRegistry) {mac : Mac} (key : Key) (nowMs : UInt64)
    (h : (r.find mac).isSome ∨ r.count < maxPeers) :
    (r.register mac key nowMs).macs = if (r.find mac).isSome then r.macs else r.macs ++ [mac] := by
  unfold register
  split
  · exact macs_update r fun _ => rfl
  · rename_i hnew
    exact macs_append (h.resolve_left hnew)

/-- A registration that stores nothing at most touches a peer. -/
theorem PeerRegistry.registered_of_not_stores (r : PeerRegistry) {mac : Mac} (key : Key)
    {allowRekey : Bool} (nowMs : UInt64) (h : r.stores mac allowRekey = false) :
    r.registered mac key allowRekey nowMs = r.touch mac nowMs ∨
      r.registered mac key allowRekey nowMs = r := by
  rw [registered, if_neg (by simp [h])]
  split
  · exact .inl rfl
  · exact .inr rfl

theorem PeerRegistry.macs_of_not_stores (r : PeerRegistry) {mac : Mac} (key : Key)
    {allowRekey : Bool} (nowMs : UInt64) (h : r.stores mac allowRekey = false) :
    (r.registered mac key allowRekey nowMs).macs = r.macs := by
  rcases r.registered_of_not_stores key nowMs h with hr | hr
  · rw [hr]
    exact macs_update r fun _ => rfl
  · rw [hr]

/-- A call erases no stored record and stores no new node id. -/
def StoreOp.Spares (w : World) (s : Node) : StoreOp → Prop
  | .saveNodeId n => NodeIdStored w s n
  | .opNodeIdSet m => isTargetedAtSelf s m.commandTarget = true → NodeIdStored w s (m.byte 7)
  | .erasePeerRecord i => ∀ h : i.toNat < maxPeers,
    w.nvsOk (.erasePeer ⟨i.toNat, h⟩) = true → s.nvs.peer.get ⟨i.toNat, h⟩ = none
  | .clearPeerList => TailClear w s 0
  | .saveToEEPROM => TailClear w s s.peers.count
  | .addAndPersist mac => mac ∉ s.peers.macs → mac ≠ s.peers.deviceMac →
    s.peers.count < maxPeers → TailClear w s (s.peers.count + 1)
  | .removeAndPersist mac => TailClear w s (s.peers.remove mac).count
  | .registerPeerWithKey mac key allowRekey => RegistrationSpares w s s.peers mac key allowRekey
  | .processJoinAck m => joinAckAccepted w.config s.enrollment m = true →
    RegistrationSpares w s s.peers m.originMac m.enrollmentPublicKey false ∧
      (m.ackSecondaryMac ≠ zeroMac → RegistrationSpares w s
        (s.peers.registered m.originMac m.enrollmentPublicKey false w.nowMs)
        m.ackSecondaryMac m.ackSecondaryKey false)
  | _ => True

/-! ### Programs that dev mode keeps off the flash -/

/-- The registry, and the flash as long as the node runs in dev mode. -/
def Node.devView (s : Node) : Option Nvs × PeerRegistry :=
  (if s.eeprom.isDevMode then some s.nvs else none, s.peers)

theorem devView_eq (hd : s.eeprom.isDevMode = true) :
    t.devView = s.devView ↔ t.eeprom.isDevMode = true ∧ t.nvs = s.nvs ∧ t.peers = s.peers := by
  unfold Node.devView
  rw [Prod.mk.injEq, if_pos hd]
  cases ht : t.eeprom.isDevMode <;> simp

theorem devView_withPeers (hd : s.eeprom.isDevMode = true) {r : PeerRegistry} :
    t.devView = ({ s with peers := r } : Node).devView ↔
      t.eeprom.isDevMode = true ∧ t.nvs = s.nvs ∧ t.peers = r :=
  devView_eq (s := { s with peers := r }) hd

/-- The program leaves the flash alone in dev mode, and the registry in any mode. -/
abbrev KeepsDev {α : Type} (x : MeshM α) : Prop := Keeps Node.devView x

theorem keepsDev_emit (e : Event) : KeepsDev (emit e) := .update fun _ => rfl

theorem keepsDev_signalError (t : ErrorTypeDigit) : KeepsDev (signalError w t) := by
  unfold signalError
  refine .ite (fun _ => .bind (keepsDev_emit _) fun _ => .raise _) fun _ => ?_
  exact .ite (fun _ => .raise _) fun _ => .ret _

theorem keepsDev_fail (t : ErrorTypeDigit) (m : ModuleDigit) (sub : ℕ) (text : String) :
    KeepsDev (fail w t m sub text) :=
  .bind (keepsDev_emit _) fun _ => keepsDev_signalError t

theorem keepsDev_checkEsp (ok : Bool) (type : ErrorType) (text : String) :
    KeepsDev (checkEsp w ok type text) :=
  .ite (fun _ => .ret _) fun _ => keepsDev_fail _ _ _ _

/-- Outside dev mode a write changes nothing that is looked at here. -/
theorem keepsDev_nvsPut (hd : s.eeprom.isDevMode = false) (op : NvsOp) (securityRelevant : Bool) :
    wp (nvsPut w op securityRelevant) (fun _ t => t.devView = s.devView)
      (fun _ t => t.devView = s.devView) s := by
  unfold nvsPut
  split
  · rw [wp_bind, wp_modify, wp_emit]
    simp [Node.devView, Node.emit, hd]
  · split
    · exact keepsDev_fail _ _ _ _ s
    · exact Eq.refl _

theorem keepsDev_nvsSave (op : NvsOp) (securityRelevant : Bool) :
    KeepsDev (nvsSave w op securityRelevant) := by
  intro s
  unfold nvsSave
  rw [wp_bind, wp_get]
  split
  · exact Eq.refl _
  · rename_i hd
    exact keepsDev_nvsPut (by simpa using hd) op securityRelevant

theorem keepsDev_saveBootEpoch (epoch : UInt32) : KeepsDev (saveBootEpoch w epoch) := by
  intro s
  unfold saveBootEpoch
  rw [wp_bind, wp_get]
  split
  · rw [wp_bind, wp_modify, wp_emit]
    exact Eq.refl _
  · rename_i hd
    exact keepsDev_nvsPut (by simpa using hd) _ _

theorem keepsDev_saveKeypair (priv pub : Key) : KeepsDev (saveKeypair w priv pub) :=
  .bind (keepsDev_nvsSave _ _) fun _ => .bind (keepsDev_nvsSave _ _) fun _ => keepsDev_nvsSave _ _

theorem keepsDev_nextSeqGuarded : KeepsDev (nextSeqGuarded w) := by
  unfold nextSeqGuarded nextSeq
  refine .bind (.bind (.update fun _ => rfl) fun _ => .read_bind fun _ => .ret _) fun seq => ?_
  refine .ite (fun _ => .read_bind fun s => ?_) fun _ => .ret _
  refine .bind (keepsDev_saveBootEpoch _) fun _ => .bind (.update fun _ => rfl) fun _ => ?_
  exact .bind (.update fun _ => rfl) fun _ => .read_bind fun _ => .ret _

/-! ### The radio -/

theorem keepsDev_espNowSend (target : Mac) (m : Message) : KeepsDev (espNowSend w target m) :=
  .read_bind fun _ => .ite (fun _ => .bind (keepsDev_emit _) fun _ => .ret _) fun _ => .ret _

theorem keepsDev_sendMessage (target deviceMac : Mac) (m : Message) :
    KeepsDev (sendMessage w target m deviceMac) := by
  refine .ite (fun _ => .ret _) fun _ => .bind (keepsDev_espNowSend _ _) fun ok => ?_
  exact .ite (fun _ => .ret _) fun _ => keepsDev_fail _ _ _ _

theorem keepsDev_enrollPeerWithRadio (mac : Mac) : KeepsDev (enrollPeerWithRadio w mac) := by
  refine .bind (.update fun _ => rfl) fun _ => .read_bind fun s => .ite (fun _ => .ret _)
    fun _ => ?_
  exact .ite (fun _ => .update fun _ => rfl) fun _ => keepsDev_checkEsp _ _ _

/-- A broadcast of adapter data that is not delivered here. -/
theorem keepsDev_broadcastAdapterData (type : AdapterType) (data : Payload)
    (cb : Message → MeshM Unit) :
    KeepsDev (broadcastAdapterData w type data false cb) := by
  have hbuild : KeepsDev (buildMessage w type data MessageType.adapterData) :=
    .bind keepsDev_nextSeqGuarded fun _ => .read_bind fun _ => .bind (keepsDev_emit _) fun _ =>
      .ret _
  refine .bind hbuild fun built => .read_bind fun s => .bind ?_ fun _ => .ret _
  exact .forM fun p _ => .ite (fun _ => .ret _) fun _ => keepsDev_sendMessage _ _ _

/-! ### Trust on first use and settings -/

theorem keepsDev_learnMasterMac (mac : Mac) : KeepsDev (learnMasterMac w mac) :=
  .bind (.update fun _ => rfl) fun _ => keepsDev_nvsSave _ _

theorem keepsDev_learnSecondaryMasterMac (mac : Mac) : KeepsDev (learnSecondaryMasterMac w mac) :=
  .bind (.update fun _ => rfl) fun _ => keepsDev_nvsSave _ _

theorem keepsDev_acceptBeaconOrigin (mac : Mac) : KeepsDev (acceptBeaconOrigin w mac) := by
  refine .read_bind fun s => .ite (fun _ => .bind (keepsDev_learnMasterMac mac) fun _ => .ret _) ?_
  refine fun _ => .ite (fun _ => .ret _) fun _ => .ite (fun _ => ?_) fun _ =>
    .ite (fun _ => .ret _) ?_
  · exact .bind (keepsDev_learnSecondaryMasterMac mac) fun _ => .ret _
  · exact fun _ => .bind (keepsDev_learnMasterMac mac) fun _ => .ret _

theorem keepsDev_processBeacon (m : Message) : KeepsDev (processBeacon w m) := by
  refine .read_bind fun s => .ite (fun _ => .ret _) fun _ => ?_
  refine .bind (keepsDev_acceptBeaconOrigin _) fun ok => .ite (fun _ => ?_) fun _ => .ret _
  refine .bind (.read_bind fun s => .ite (fun _ => keepsDev_fail _ _ _ _) fun _ => .ret _)
    fun _ => ?_
  refine .update fun s => ?_
  unfold Node.scheduleRelay
  split <;> rfl

theorem keepsDev_opConfigSet (m : Message) : KeepsDev (opConfigSet w m) := by
  refine .read_bind fun s => .ite (fun _ => ?_) fun _ => .ret _
  exact .bind (keepsDev_nvsSave _ _) fun _ => .bind (keepsDev_emit _) fun _ => .raise _

theorem keepsDev_opTxPowerSet (m : Message) (rebroadcast : Bool) :
    KeepsDev (opTxPowerSet w m rebroadcast) := by
  refine .read_bind fun s => .ite (fun _ => .ret _) fun _ => .bind (keepsDev_nvsSave _ _)
    fun _ => ?_
  exact .ite (fun _ => keepsDev_broadcastAdapterData _ _ _) fun _ => .ret _

/-! ### The slots of the registry -/

/-- Erasing a slot that is empty, or that cannot be erased. -/
theorem erasePeerRecord_dev (hd : s.eeprom.isDevMode = true) {i : Fin maxPeers}
    (h : w.nvsOk (.erasePeer i) = true → s.nvs.peer.get i = none) :
    wp (erasePeerRecord w i) (fun _ t => t.devView = s.devView) (fun _ t => t.devView = s.devView)
      s := by
  unfold erasePeerRecord nvsPut
  split
  · rename_i hok
    rw [wp_bind, wp_modify, wp_emit]
    have hsame : s.nvs.peer.set i none = s.nvs.peer := by
      refine List.Vector.ext fun j => ?_
      by_cases hij : i = j
      · rw [← hij, List.Vector.get_set_same, h hok]
      · rw [List.Vector.get_set_of_ne hij]
    refine (devView_eq hd).2 ⟨hd, ?_, rfl⟩
    show { s.nvs with peer := s.nvs.peer.set i none } = s.nvs
    rw [hsame]
  · exact Eq.refl _

/-- The condition of a slot holds as long as the flash stays as it is. -/
theorem writePeerSlots_dev (records : Fin maxPeers → Option PeerRecord)
    (hd : s.eeprom.isDevMode = true)
    (h : ∀ i, records i = none → w.nvsOk (.erasePeer i) = true → s.nvs.peer.get i = none) :
    wp (writePeerSlots w records) (fun _ t => t.devView = s.devView)
      (fun _ t => t.devView = s.devView) s := by
  refine wp_finRange_forM (I := fun _ (t : Node) => t.devView = s.devView) rfl fun i t ht => ?_
  obtain ⟨htd, htn, -⟩ := (devView_eq hd).1 ht
  cases hr : records i with
  | some r =>
    exact wp_mono _ (fun _ _ hu => hu.trans ht) (fun _ _ hu => hu.trans ht)
      (keepsDev_nvsSave _ _ t)
  | none =>
    refine wp_mono _ (fun _ _ hu => hu.trans ht) (fun _ _ hu => hu.trans ht)
      (erasePeerRecord_dev htd fun hok => ?_)
    rw [htn]
    exact h i hr hok

/-- Saving the registry writes no slot, and erases those behind the last peer. -/
theorem saveToEEPROM_dev (hd : s.eeprom.isDevMode = true) (h : TailClear w s s.peers.count) :
    wp (saveToEEPROM w) (fun _ t => t.devView = s.devView)
    (fun _ t => t.devView = s.devView) s := by
  unfold saveToEEPROM
  rw [wp_bind, wp_get]
  refine writePeerSlots_dev _ hd fun i hi hok => h i ?_ hok
  unfold PeerRegistry.records at hi
  rw [Option.map_eq_none_iff, List.getElem?_eq_none_iff] at hi
  exact hi

/-- Only the part of the flash of a view counts. -/
def Node.devFlash (s : Node) : Option Nvs := s.devView.1

theorem devFlash_of_devView {r : PeerRegistry}
    (h : t.devView = ({ s with peers := r } : Node).devView) : t.devFlash = s.devFlash := by
  unfold Node.devFlash
  rw [h]
  rfl

/-- The rule of a registration.  Either it stores the key, saves the registry and registers the
address afresh, or it stops with the registry in memory. -/
theorem wp_registration {mac : Mac} {key : Key} {allowRekey : Bool} {Q : Bool → Node → Prop}
    {E : Halt → Node → Prop}
    (hsaved : s.peers.stores mac allowRekey = true →
      wp (saveToEEPROM w >>= fun _ => do enrollPeerWithRadio w mac; pure true) Q E
        { s with peers := s.peers.registered mac key allowRekey w.nowMs })
    (hkept : s.peers.stores mac allowRekey = false →
      Q ((s.peers.find mac).isSome || s.peers.count < maxPeers)
        { s with peers := s.peers.registered mac key allowRekey w.nowMs }) :
    wp (registerPeerWithKey w mac key allowRekey) Q E s := by
  unfold registerPeerWithKey
  rw [wp_bind, wp_get]
  split
  -- the key that is established may not be replaced
  · rename_i hest
    simp only [Bool.and_eq_true, Bool.not_eq_true'] at hest
    have hno : s.peers.stores mac allowRekey = false := by simp [PeerRegistry.stores, hest]
    have hreg : s.peers.registered mac key allowRekey w.nowMs = s.peers.touch mac w.nowMs := by
      rw [PeerRegistry.registered, if_neg (by simp [hno]), if_pos hest.2]
    have hQ := hkept hno
    rw [hreg, PeerRegistry.isSome_of_keyEstablished hest.2, Bool.true_or] at hQ
    exact hQ
  rename_i hest
  have hmay : (allowRekey || !s.peers.keyEstablished mac) = true := by
    cases allowRekey <;> simp_all
  split
  -- a known address gets the key
  · rename_i hfound
    have hs : s.peers.stores mac allowRekey = true := by
      simp [PeerRegistry.stores, hmay, hfound]
    have hw := hsaved hs
    rw [PeerRegistry.registered, if_pos hs, PeerRegistry.register, if_pos hfound] at hw
    exact hw
  rename_i hnew
  have hnone : (s.peers.find mac).isSome = false := by simpa using hnew
  split
  -- a new address finds no room
  · rename_i hfull
    have hopen : s.peers.keyEstablished mac = false := by
      rw [← Bool.not_eq_true]
      exact fun hk => hnew (PeerRegistry.isSome_of_keyEstablished hk)
    have hlt : ¬s.peers.count < maxPeers := by omega
    have hno : s.peers.stores mac allowRekey = false := by
      simp [PeerRegistry.stores, hnone, hlt]
    have hQ := hkept hno
    rw [PeerRegistry.registered, if_neg (by simp [hno]), if_neg (by simp [hopen]), hnone,
      decide_eq_false hlt] at hQ
    exact hQ
  -- a new address is put at the end
  · rename_i hroom
    have hlt : s.peers.count < maxPeers := by omega
    have hs : s.peers.stores mac allowRekey = true := by simp [PeerRegistry.stores, hmay, hlt]
    have hw := hsaved hs
    rw [PeerRegistry.registered, if_pos hs, PeerRegistry.register, if_neg hnew] at hw
    exact hw

theorem registerPeerWithKey_dev (hd : s.eeprom.isDevMode = true) {mac : Mac} {key : Key}
    {allowRekey : Bool} (h : RegistrationSpares w s s.peers mac key allowRekey) :
    wp (registerPeerWithKey w mac key allowRekey)
      (fun _ t => t.devView =
        ({ s with peers := s.peers.registered mac key allowRekey w.nowMs } : Node).devView)
      (fun _ t => t.devFlash = s.devFlash) s := by
  refine wp_registration (fun hs => ?_) fun _ => Eq.refl _
  have hreg : s.peers.registered mac key allowRekey w.nowMs = s.peers.register mac key w.nowMs := by
    rw [PeerRegistry.registered, if_pos hs]
  rw [wp_bind, hreg]
  refine wp_mono _ (fun _ t ht => ?_) (fun _ _ hu => devFlash_of_devView hu)
    (saveToEEPROM_dev (s := { s with peers := s.peers.register mac key w.nowMs }) hd (h hs))
  rw [wp_bind]
  refine wp_mono _ (fun _ u hu => hu.trans ht) (fun _ u hu => ?_)
    (keepsDev_enrollPeerWithRadio mac t)
  exact devFlash_of_devView (hu.trans ht)

/-! ### The other calls that erase or store -/

/-- What is kept of the view is kept of the flash. -/
theorem KeepsDev.flash {α : Type} {x : MeshM α} (h : KeepsDev x) (s : Node) :
    wp x (fun _ t => t.devFlash = s.devFlash) (fun _ t => t.devFlash = s.devFlash) s :=
  wp_mono _ (fun _ _ ht => congrArg Prod.fst ht) (fun _ _ ht => congrArg Prod.fst ht) (h s)

theorem saveNodeId_dev {n : UInt8} (h : NodeIdStored w s n) :
    wp (saveNodeId w n) (fun _ t => t.devFlash = s.devFlash) (fun _ t => t.devFlash = s.devFlash)
      s := by
  unfold saveNodeId nvsPut
  split
  · rename_i hok
    rw [wp_bind, wp_modify, wp_emit]
    have hsame : { s.nvs with nodeId := some n } = s.nvs := by rw [← h hok]
    show (if s.eeprom.isDevMode then some { s.nvs with nodeId := some n } else none) = s.devFlash
    rw [hsame]
    rfl
  · exact Eq.refl _

theorem addAndPersist_dev (hd : s.eeprom.isDevMode = true) {mac : Mac}
    (h : mac ∉ s.peers.macs → mac ≠ s.peers.deviceMac → s.peers.count < maxPeers →
      TailClear w s (s.peers.count + 1)) :
    wp (addAndPersist w mac) (fun _ t => t.devFlash = s.devFlash)
      (fun _ t => t.devFlash = s.devFlash) s := by
  unfold addAndPersist
  rw [wp_bind, wp_get]
  split
  · exact Eq.refl _
  rename_i hnew
  split
  · exact KeepsDev.flash (keepsDev_fail _ _ _ _) s
  · rename_i hfull
    rw [Bool.or_eq_true, not_or] at hnew
    have hroom : s.peers.count < maxPeers := by omega
    rw [wp_bind, wp_modify]
    set r := s.peers.append ⟨mac, Bytes.zero 32, w.nowMs⟩ with hr
    have hcount : r.count = s.peers.count + 1 := by
      rw [hr, PeerRegistry.append, dif_pos (show s.peers.peers.length < maxPeers from hroom)]
      exact List.length_append
    have hclear : TailClear w s r.count := by
      rw [hcount]
      refine h (PeerRegistry.find_eq_none_iff.1 (by simpa using hnew.1)) ?_ hroom
      simpa using hnew.2
    exact wp_mono _ (fun _ _ ht => devFlash_of_devView ht) (fun _ _ ht => devFlash_of_devView ht)
      (saveToEEPROM_dev (s := { s with peers := r }) hd hclear)

theorem removeAndPersist_dev (hd : s.eeprom.isDevMode = true) {mac : Mac}
    (h : TailClear w s (s.peers.remove mac).count) :
    wp (removeAndPersist w mac) (fun _ t => t.devFlash = s.devFlash)
      (fun _ t => t.devFlash = s.devFlash) s := by
  unfold removeAndPersist
  rw [wp_bind, wp_modify, wp_bind]
  refine wp_mono _ (fun _ t ht => ?_) (fun _ _ ht => devFlash_of_devView ht)
    (saveToEEPROM_dev (s := { s with peers := s.peers.remove mac }) hd h)
  have htf := devFlash_of_devView ht
  rw [wp_bind, wp_get]
  split
  · exact htf
  · exact wp_mono _ (fun _ _ hu => hu.trans htf) (fun _ _ hu => hu.trans htf)
      (KeepsDev.flash (keepsDev_checkEsp _ _ _) t)

/-- The registrations of a join acknowledgement are the only writes that dev mode lets through. -/
theorem processJoinAck_dev (hd : s.eeprom.isDevMode = true) {m : Message}
    (h : StoreOp.Spares w s (.processJoinAck m)) :
    wp (processJoinAck w m) (fun _ t => t.devFlash = s.devFlash)
      (fun _ t => t.devFlash = s.devFlash) s := by
  unfold processJoinAck
  rw [wp_bind, wp_get]
  split
  swap
  · exact Eq.refl _
  rename_i hacc
  obtain ⟨horigin, hsecond⟩ := h hacc
  rw [wp_bind]
  refine wp_mono _ (fun r t ht => ?_) (fun _ _ hu => hu) (registerPeerWithKey_dev hd horigin)
  split
  -- the acknowledgement is refused, and nothing is registered
  swap
  · exact devFlash_of_devView ht
  have henroll : KeepsDev (do
      saveEnrolledFlag w true
      modify fun s : Node => { s with enrollment := { s.enrollment with enrolled := true } }
      learnMasterFromAck w m.originMac) := by
    refine .bind (keepsDev_nvsSave _ _) fun _ => .bind (.update fun _ => rfl) fun _ => ?_
    exact .read_bind fun _ => .ite (fun _ => .ret _) fun _ => keepsDev_learnMasterMac _
  -- the secondary master is registered after that
  suffices hlast : wp (do
      (do saveEnrolledFlag w true
          modify fun s : Node => { s with enrollment := { s.enrollment with enrolled := true } }
          learnMasterFromAck w m.originMac)
      processJoinAckSecondary w m) (fun _ u => u.devFlash = s.devFlash)
      (fun _ u => u.devFlash = s.devFlash) t by simpa using hlast
  rw [wp_bind]
  refine wp_mono _ (fun _ u hu => ?_) (fun _ u hu => devFlash_of_devView (hu.trans ht)) (henroll t)
  have hus := hu.trans ht
  obtain ⟨hud, hun, hup⟩ := (devView_withPeers hd).1 hus
  have huf := devFlash_of_devView hus
  unfold processJoinAckSecondary
  -- no secondary master is named
  split
  · exact huf
  · rename_i hz
    have hspares : RegistrationSpares w u u.peers m.ackSecondaryMac m.ackSecondaryKey false := by
      rw [hup]
      exact fun hst i hi hok => hun ▸ hsecond hz hst i hi hok
    rw [wp_bind]
    refine wp_mono _ (fun r v hv => ?_) (fun _ _ hv => hv.trans huf)
      (registerPeerWithKey_dev hud hspares)
    have hvf := (devFlash_of_devView hv).trans huf
    have hlearn : KeepsDev (do
        let s ← get
        if r && !s.enrollment.hasMasterMacSecondary then
          learnSecondaryMasterMac w m.ackSecondaryMac
        else pure ()) :=
      .read_bind fun _ => .ite (fun _ => keepsDev_learnSecondaryMasterMac _) fun _ => .ret _
    exact wp_mono _ (fun _ _ hx => hx.trans hvf) (fun _ _ hx => hx.trans hvf) (hlearn.flash v)

/-! ### Runs -/

/-- A program of the node, run beside the diagnostics. -/
theorem wp_onNode {α : Type} {x : MeshM α} {st : Store}
    (h : wp x (fun _ t => t.devFlash = st.node.devFlash) (fun _ t => t.devFlash = st.node.devFlash)
      st.node) :
    wp (onNode x) (fun _ u => u.node.devFlash = st.node.devFlash ∧ u.diagnostics = st.diagnostics)
      (fun _ u => u.node.devFlash = st.node.devFlash ∧ u.diagnostics = st.diagnostics) st := by
  unfold wp at h ⊢
  unfold onNode
  cases hr : x st.node with
  | ok a t => rw [hr] at h; exact ⟨h, rfl⟩
  | error e t => rw [hr] at h; exact ⟨h, rfl⟩

/-- A guarded write does nothing in dev mode. -/
theorem saveGuarded_dev {st : Store} (hd : st.node.eeprom.isDevMode = true) {ok : Bool}
    {f : Store → Store} : saveGuarded ok f st = .ok () st := by
  show (if st.node.eeprom.isDevMode then _ else _ : StoreM Unit) st = _
  rw [if_pos hd]
  rfl

/-- A call that spares the flash leaves it alone in dev mode. -/
theorem storeOp_dev {st : Store} (hd : st.node.eeprom.isDevMode = true) {op : StoreOp}
    (h : op.Spares w st.node) :
    wp (op.run w) (fun _ u => u.node.devFlash = st.node.devFlash ∧ u.diagnostics = st.diagnostics)
      (fun _ u => u.node.devFlash = st.node.devFlash ∧ u.diagnostics = st.diagnostics) st := by
  -- a write behind the dev mode check
  have hguarded : ∀ ok f, wp (saveGuarded ok f)
      (fun _ u => u.node.devFlash = st.node.devFlash ∧ u.diagnostics = st.diagnostics)
      (fun _ u => u.node.devFlash = st.node.devFlash ∧ u.diagnostics = st.diagnostics) st := by
    intro ok f
    unfold wp
    rw [saveGuarded_dev hd]
    exact ⟨rfl, rfl⟩
  cases op with
  | saveKeypair priv pub => exact wp_onNode (KeepsDev.flash (keepsDev_saveKeypair priv pub) _)
  | saveBootEpoch epoch => exact wp_onNode (KeepsDev.flash (keepsDev_saveBootEpoch epoch) _)
  | nextSeqGuarded => exact wp_onNode (KeepsDev.flash keepsDev_nextSeqGuarded _)
  | learnMasterMac mac => exact wp_onNode (KeepsDev.flash (keepsDev_learnMasterMac mac) _)
  | learnSecondaryMasterMac mac =>
    exact wp_onNode (KeepsDev.flash (keepsDev_learnSecondaryMasterMac mac) _)
  | processBeacon m => exact wp_onNode (KeepsDev.flash (keepsDev_processBeacon m) _)
  | opConfigSet m => exact wp_onNode (KeepsDev.flash (keepsDev_opConfigSet m) _)
  | opTxPowerSet m b => exact wp_onNode (KeepsDev.flash (keepsDev_opTxPowerSet m b) _)
  | saveRebootCount | saveRebootReason | clearKnownMasterMac | clearKnownMasterMacSecondary
  | saveDevFlag => exact hguarded _ _
  | saveMeshKey | saveKnownMasterMac | saveKnownMasterMacSecondary | saveEnrolledFlag
  | saveMasterFlag | saveAdapterType | saveTxPowerPreset =>
    exact wp_onNode (KeepsDev.flash (keepsDev_nvsSave _ _) _)
  -- the node number and the erasing of records are not behind the check of the mode
  | saveNodeId n => exact wp_onNode (saveNodeId_dev h)
  | savePeerRecord i r =>
    show wp (dite _ (fun _ => onNode _) fun _ => pure ()) _ _ st
    split
    · exact wp_onNode (KeepsDev.flash (keepsDev_nvsSave _ _) _)
    · exact ⟨rfl, rfl⟩
  | erasePeerRecord i =>
    show wp (dite _ (fun _ => onNode _) fun _ => pure ()) _ _ st
    split
    · rename_i hi
      exact wp_onNode (wp_mono _ (fun _ _ ht => congrArg Prod.fst ht)
        (fun _ _ ht => congrArg Prod.fst ht) (erasePeerRecord_dev hd (h hi)))
    · exact ⟨rfl, rfl⟩
  | savePeerList bytes n =>
    refine wp_onNode ?_
    unfold savePeerList
    rw [wp_bind, wp_get, if_pos (.inl hd)]
    exact Eq.refl _
  | clearPeerList =>
    refine wp_onNode (wp_mono _ (fun _ _ ht => congrArg Prod.fst ht)
      (fun _ _ ht => congrArg Prod.fst ht) ?_)
    exact writePeerSlots_dev (fun _ => none) hd fun i _ => h i (Nat.zero_le _)
  | saveToEEPROM =>
    exact wp_onNode (wp_mono _ (fun _ _ ht => congrArg Prod.fst ht)
      (fun _ _ ht => congrArg Prod.fst ht) (saveToEEPROM_dev hd h))
  | addAndPersist mac => exact wp_onNode (addAndPersist_dev hd h)
  | removeAndPersist mac => exact wp_onNode (removeAndPersist_dev hd h)
  | registerPeerWithKey mac key allowRekey =>
    exact wp_onNode (wp_mono _ (fun _ _ ht => devFlash_of_devView ht) (fun _ _ ht => ht)
      (registerPeerWithKey_dev hd h))
  | processJoinAck m => exact wp_onNode (processJoinAck_dev hd h)
  | opNodeIdSet m =>
    refine wp_onNode ?_
    unfold LatticeMesh.opNodeIdSet
    rw [wp_bind, wp_get]
    split
    · rename_i hself
      exact saveNodeId_dev (h hself)
    · exact Eq.refl _

/-- **In dev mode the flash stays as it is**, however long the sequence of calls, as long as every
call spares it. -/
theorem flash_run {st : Store} {xs : List (World × StoreOp)}
    (hd : st.node.eeprom.isDevMode = true)
    (hc : Runs.Along storeStep (fun st x => x.2.Spares x.1 st.node) st xs) :
    (Runs.run storeStep st xs).flash = st.flash := by
  have hrun : (Runs.run storeStep st xs).node.eeprom.isDevMode = true ∧
      (Runs.run storeStep st xs).flash = st.flash := by
    refine Runs.run_invariant (I := fun u => u.node.eeprom.isDevMode = true ∧ u.flash = st.flash)
      ⟨hd, rfl⟩ ?_ hc
    rintro u ⟨w, op⟩ ⟨hud, huf⟩ hspares
    obtain ⟨hflash, hdiag⟩ := Calls.wp_final (storeOp_dev hud hspares)
    -- in dev mode the view of the flash is the flash itself
    have hsome : u.node.devFlash = some u.node.nvs := if_pos hud
    rw [hsome] at hflash
    obtain ⟨htd, htn⟩ := Option.ite_none_right_eq_some.1 hflash
    refine ⟨htd, ?_⟩
    rw [← huf]
    exact Prod.ext (Option.some.inj htn) hdiag
  exact hrun.2

namespace Sample

theorem storedPeer_le : [(⟨mac 7, key 7, 0⟩ : PeerInfo)].length ≤ maxPeers := by decide

/-- A leaf with one stored peer, started in dev mode. -/
def devStore : Store where
  node :=
    { eeprom := { isDevMode := true }
      nvs := { peer := List.Vector.set (List.Vector.replicate _ none) ⟨0, Nat.zero_lt_succ 9⟩
                 (some (PeerRecord.encode (mac 7) (key 7))) }
      peers := { peers := [⟨mac 7, key 7, 0⟩], deviceMac := mac 1, length_le := storedPeer_le } }

/-- A call in the surroundings of the leaf. -/
def storeCall (op : StoreOp) : World × StoreOp := (board.world (env 1 100), op)

end Sample

/-- The leaf draws a new epoch, learns its master and registers another node. -/
theorem flash_run_registered : (Runs.run storeStep Sample.devStore
    [Sample.storeCall (.saveBootEpoch 5), Sample.storeCall (.learnMasterMac (Sample.mac 7)),
      Sample.storeCall (.registerPeerWithKey (Sample.mac 8) (Sample.key 8) false)]).flash =
    Sample.devStore.flash := by
  refine flash_run rfl ⟨trivial, trivial, fun _ => ?_, trivial⟩
  decide

/-- **The removal of a peer erases its stored record in dev mode.**  The slot behind the last peer
is erased without a look at the mode. -/
theorem not_flash_run_removed : ¬∀ (st : Store) (xs : List (World × StoreOp)),
    st.node.eeprom.isDevMode = true → (Runs.run storeStep st xs).flash = st.flash := by
  intro h
  have hsame := h Sample.devStore [Sample.storeCall (.removeAndPersist (Sample.mac 7))] rfl
  have herased : (Runs.run storeStep Sample.devStore
    [Sample.storeCall (.removeAndPersist (Sample.mac 7))]).flash ≠ Sample.devStore.flash := by
    decide
  exact herased hsame

end LatticeMesh
