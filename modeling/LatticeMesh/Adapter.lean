import LatticeMesh.Beacon
import LatticeMesh.RouteReport

/-!
# The adapter

What the adapter does with a delivered frame: the control opcodes, the forwarding to the serial
line, and the frames that come back over that line.

## Main definitions

* `dispatchControlOp`, `isControlOp` — the four control opcodes.
* `onMeshData` — a frame that was delivered to the adapter.
* `externalRecvCallback`, `transmit`, `transmitSelfOriginated` — the callbacks between the mesh and
  the adapter.
* `handleCompleteFrame` — a frame from the server.

## Main results

* `dispatchControlOp_of_not_control`, `isConfigOpcode_of_not_control` — a payload that is no control
  opcode is left to the adapter, and configures nothing.
-/

namespace LatticeMesh

/-! ### Adapter types in flash -/

/-- The adapter type behind a stored byte; an unset byte stands for the PIR adapter. -/
def adapterTypeFromEEPROM (raw : UInt8) : AdapterType :=
  if raw = 0xFF then AdapterType.pir else raw.toUInt32.toInt32

/-- The byte under which an adapter type is stored. -/
def adapterTypeToEEPROM (type : AdapterType) : UInt8 := type.toUInt32.toUInt8

/-! ### Control opcodes -/

/-- Whether a command's target is every node or this one. -/
def isTargetedAtSelf (s : Node) (candidate : Mac) : Bool :=
  candidate = broadcastMac || candidate = s.deviceMac

/-- The target that a command carries in its payload. -/
def Message.commandTarget (m : Message) : Mac := Bytes.slice m.data 1 6

/-- Store a new adapter type and restart. -/
def opConfigSet (w : World) (m : Message) : MeshM Unit := do
  let s ← get
  if isTargetedAtSelf s m.commandTarget then
    saveAdapterType w (adapterTypeToEEPROM (adapterTypeFromEEPROM (m.byte 7)))
    emit .espRestart
    throw .espRestart
  else
    pure ()

/-- Store a new node id. -/
def opNodeIdSet (w : World) (m : Message) : MeshM Unit := do
  let s ← get
  if isTargetedAtSelf s m.commandTarget then saveNodeId w (m.byte 7) else pure ()

/-- The payload of a health report. -/
def buildHealthFrame (s : Node) (opcode : UInt8) (nowMs : UInt64) : Payload :=
  Bytes.blit (Bytes.zero 64) 0
    (Bytes.ofList (n := 2) [opcode, adapterTypeToEEPROM s.adapterType] ++ s.deviceMac ++
      Bytes.le 4 (nowMs.toNat / 1000))

/-- Answer a health request over the serial line. -/
def opHealthReq (w : World) (transmitSelf : AdapterType → Payload → MeshM Unit) :
    MeshM Unit := do
  let s ← get
  if s.adapterType = AdapterType.serial then
    transmitSelf AdapterType.serial (buildHealthFrame s Opcode.healthReport w.nowMs)
  else
    pure ()

/-- The payload with which a master passes on a transmit power preset. -/
def txPowerData (preset : UInt8) : Payload :=
  Bytes.blit (Bytes.zero 64) 0 (Bytes.ofList (n := 2) [Opcode.txPowerSet, preset]) opcode_le

/-- Store a transmit power preset; one that came over the serial line is passed on. -/
def opTxPowerSet (w : World) (m : Message) (rebroadcastOnMaster : Bool) : MeshM Unit := do
  let s ← get
  if s.adapterType ≠ AdapterType.serial ∨ m.byte 1 > 2 then pure ()
  else
    saveTxPowerPreset w (m.byte 1)
    if rebroadcastOnMaster && s.isMaster then
      broadcastAdapterData w AdapterType.serial (txPowerData (m.byte 1)) false fun _ => pure ()
    else
      pure ()

/-- Run the control opcode of a payload, if it is one. -/
def dispatchControlOp (w : World) (transmitSelf : AdapterType → Payload → MeshM Unit)
    (m : Message) (rebroadcastOnMaster : Bool) : MeshM Unit :=
  if m.byte 0 = Opcode.configSet then opConfigSet w m
  else if m.byte 0 = Opcode.nodeIdSet then opNodeIdSet w m
  else if m.byte 0 = Opcode.healthReq then opHealthReq w transmitSelf
  else if m.byte 0 = Opcode.txPowerSet then opTxPowerSet w m rebroadcastOnMaster
  else pure ()

/-- Whether a payload is one of the control opcodes, which the receiver carries out. -/
def isControlOp (type : AdapterType) (data : Payload) : Bool :=
  type = AdapterType.serial &&
    [Opcode.configSet, Opcode.nodeIdSet, Opcode.healthReq, Opcode.txPowerSet].contains (data.get 0)

section

variable {w : World} {m : Message}

theorem byte_ne_of_not_control (hm : m.dataType = AdapterType.serial)
    (h : isControlOp m.dataType m.data = false) {op : UInt8}
    (hop : op ∈ [Opcode.configSet, Opcode.nodeIdSet, Opcode.healthReq, Opcode.txPowerSet]) :
    m.byte 0 ≠ op := by
  rintro rfl
  rw [isControlOp, decide_eq_true hm, Bool.true_and, Bool.eq_false_iff] at h
  exact h (List.contains_iff_mem.2 hop)

/-- Other payloads of the serial adapter's type are left to `onMeshDataImpl`. -/
theorem dispatchControlOp_of_not_control {transmitSelf : AdapterType → Payload → MeshM Unit}
    {rebroadcastOnMaster : Bool} (hm : m.dataType = AdapterType.serial)
    (h : isControlOp m.dataType m.data = false) :
    dispatchControlOp w transmitSelf m rebroadcastOnMaster = pure () := by
  unfold dispatchControlOp
  rw [if_neg (byte_ne_of_not_control hm h (by simp)),
    if_neg (byte_ne_of_not_control hm h (by simp)),
    if_neg (byte_ne_of_not_control hm h (by simp)), if_neg (byte_ne_of_not_control hm h (by simp))]

/-- The opcodes that configure a node are among the control opcodes. -/
theorem isConfigOpcode_of_not_control (h : isControlOp m.dataType m.data = false) :
    isConfigOpcode m = false := by
  rw [Bool.eq_false_iff]
  intro hc
  simp only [isConfigOpcode, Bool.and_eq_true, Bool.or_eq_true, decide_eq_true_eq] at hc
  obtain ⟨hm, hop | hop⟩ := hc
  · exact byte_ne_of_not_control hm h (by simp) hop
  · exact byte_ne_of_not_control hm h (by simp) hop

end

/-! ### Delivered frames -/

/-- What each kind of adapter does with a frame: the serial adapter writes it to the serial line,
the PIR adapter nothing. -/
def onMeshDataImpl (w : World) (m : Message) : MeshM Unit := do
  let s ← get
  if s.adapterType = AdapterType.serial then
    if w.serialEncodes m then emit (.serialOut m)
    else fail w .comm .adapter 4 "Serial_Adapter: Message encoding failed"
  else
    pure ()

/-- A frame that was delivered to the adapter. -/
def onMeshData (w : World) (transmitSelf : AdapterType → Payload → MeshM Unit) (m : Message) :
    MeshM Unit := do
  let s ← get
  if m.dataType = AdapterType.serial then
    dispatchControlOp w transmitSelf m false
    if s.adapterType = AdapterType.serial then onMeshDataImpl w m else pure ()
  else if s.adapterType = AdapterType.serial ∨ m.dataType = s.adapterType then
    onMeshDataImpl w m
  else
    pure ()

/-- The receive callback.  Answering a health request calls it again, with a report that asks for
nothing; the first argument bounds how often. -/
def externalRecvCallback (w : World) : ℕ → Message → MeshM Unit
  | 0, _ => pure ()
  | n + 1, m => do
    emit (.deliver m)
    onMeshData w (fun type data => transmitDispatch w type data true (externalRecvCallback w n)) m

/-- The receive callback, with the two calls that one frame can cause. -/
abbrev deliver (w : World) (m : Message) : MeshM Unit := externalRecvCallback w 2 m

/-- `Mesh::transmit`. -/
def transmit (w : World) (type : AdapterType) (data : Payload) : MeshM Unit :=
  transmitDispatch w type data false (deliver w)

/-- `Mesh::transmitSelfOriginated`. -/
def transmitSelfOriginated (w : World) (type : AdapterType) (data : Payload) : MeshM Unit :=
  transmitDispatch w type data true (deliver w)

/-! ### Frames from the server -/

/-- The secondary master that a join acknowledgement from the server names, if any. -/
def serverSecondary (m : Message) : Option (Mac × Key) :=
  if m.ackSecondaryMac = zeroMac then none else some (m.ackSecondaryMac, m.ackSecondaryKey)

/-- A join acknowledgement from the server: an all-zero key rejects the node. -/
def serverJoinAck (w : World) (m : Message) : MeshM Unit :=
  if m.enrollmentPublicKey.isZero then pure ()
  else enrollPeer w m.targetMac (serverSecondary m)

/-- Forward a frame from the server into the mesh. -/
def forwardServerFrame (w : World) (m : Message) : MeshM Unit :=
  if m.messageType = MessageType.adapterData then transmit w m.dataType m.data
  else if m.messageType = MessageType.serialCmdBroadcast then
    if m.targetMac = broadcastMac then
      broadcastAdapterData w m.dataType m.data false (deliver w)
    else
      sendDownlinkToNode w m.commandTarget m.dataType m.data
  else pure ()

/-- A complete frame from the serial line. -/
def handleCompleteFrame (w : World) (m : Message) : MeshM Unit := do
  let s ← get
  if s.adapterType ≠ AdapterType.serial then pure ()
  else if m.messageType = MessageType.joinAck then serverJoinAck w m
  else
    forwardServerFrame w m
    if m.dataType = AdapterType.serial then
      dispatchControlOp w (transmitSelfOriginated w) m true
    else
      pure ()

end LatticeMesh
