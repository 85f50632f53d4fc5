import LatticeMesh.Messenger

/-!
# Opening frames and route reports

How a received frame is opened and authorised, and how a route report collects the relays it
passes until the master checks and records them.

## Main definitions

* `openUplink`, `openDownlink` — open a frame with the keys of its origin, or of the master.
* `authorize` — whether a data frame may be delivered here, and its opened form.
* `processRouteReport`, `sendRouteReport` — route reports at a relay, at the master, at the origin.
-/

namespace LatticeMesh

/-! ### Opening -/

/-- Open a frame with one key. -/
def openWith (w : World) (key : Key) (m : Message) : MeshM (Option Message) :=
  match openPayload w.crypto key m with
  | some opened => do
    emit (.opened key m)
    pure (some opened)
  | none => pure none

/-- Open an uplink frame with the key shared with its origin. -/
def openUplink (w : World) (m : Message) : MeshM (Option Message) := do
  match ← peerE2EKeys w m.originMac with
  | some keys => openWith w keys.kUp m
  | none => pure none

/-- Open a downlink frame with the key shared with the master. -/
def openDownlink (w : World) (m : Message) : MeshM (Option Message) := do
  match ← masterE2EKeys w with
  | some keys => openWith w keys.kDown m
  | none => pure none

/-! ### Authorisation -/

/-- Whether a payload reconfigures the node: its adapter type or its node id. -/
def isConfigOpcode (m : Message) : Bool :=
  m.dataType = AdapterType.serial &&
    (m.byte 0 = Opcode.configSet || m.byte 0 = Opcode.nodeIdSet)

/-- Whether `mac` is the known primary or secondary master. -/
def Enrollment.isKnownMaster (e : Enrollment) (mac : Mac) : Bool :=
  mac = e.knownMasterMac || (e.hasMasterMacSecondary && mac = e.knownMasterMacSecondary)

/-- Whether the configuration gates let a payload pass: it was opened, and it comes from a known
master as soon as one is known. -/
def configAllowed (e : Enrollment) (m : Message) (wasOpened : Bool) : Bool :=
  !isConfigOpcode m || (wasOpened && (!e.hasMasterMac || e.isKnownMaster m.originMac))

/-- Whether a data frame may be delivered here; if so, its opened form. -/
def authorize (w : World) (m : Message) (addressedToSelf : Bool) : MeshM (Option Message) := do
  let s ← get
  let needsOpen := s.isMaster && addressedToSelf && isSealedType m.messageType
  let nodeOpens :=
    !s.isMaster && addressedToSelf && m.messageType = MessageType.adapterData
  if s.isMaster && !addressedToSelf && isSealedType m.messageType then pure none
  else
    let opened? ←
      (if needsOpen then openUplink w m
       else if nodeOpens then openDownlink w m
       else pure (some m) : MeshM (Option Message))
    match opened? with
    | some opened =>
      if configAllowed s.enrollment opened (needsOpen || nodeOpens) then pure (some opened)
      else pure none
    | none => pure none

/-! ### Route reports -/

/-- Fold the hops of a route report into the authentication code, each under the key shared with
that hop; an unknown hop ends it. -/
def verifyHops (w : World) (m : Message) : List Mac → Mac → AuthPath → MeshM (Option AuthPath)
  | [], _, computed => pure (some computed)
  | hopMac :: hops, prevHop, computed => do
    match ← peerE2EKeys w hopMac with
    | some keys =>
      verifyHops w m hops hopMac
        (chainStep w.crypto keys.kUp (buildHopContext m prevHop hopMac) computed)
    | none => pure none

/-- The authentication code that the master recomputes for a route report. -/
def verifyChain (w : World) (kUp : Key) (m : Message) : MeshM (Option AuthPath) :=
  verifyHops w m (m.hopIndices.map m.hop) m.originMac
    (chainStep w.crypto kUp (buildHopContext m zeroMac m.originMac) (Bytes.zero 8))

/-- A route report at the master: open it, check the path, record it and deliver it. -/
def acceptRouteReport (w : World) (m : Message)
    (externalRecvCallback : Message → MeshM Unit) : MeshM Unit := do
  match ← peerE2EKeys w m.originMac with
  | none => pure ()
  | some keys =>
    match ← openWith w keys.kUp m with
    | none => pure ()
    | some opened =>
      if opened.byte 0 ≠ Opcode.routeReport ∨ m.routeLen.toNat > maxHops then pure ()
      else
        let computed ← verifyChain w keys.kUp m
        if computed = some m.authPath then
          modify fun s =>
            { s with
              routes :=
                s.routes.map fun routes =>
                  routes.record m.originMac m.routePath m.routeLen w.nowMs }
          externalRecvCallback opened
        else
          pure ()

/-- The hop before this node on a route report. -/
def prevHopOf (m : Message) : Mac :=
  if h : 0 < m.routeLen.toNat ∧ m.routeLen.toNat ≤ maxHops then
    m.hop ⟨m.routeLen.toNat - 1, by omega⟩
  else m.originMac

/-- The route report with this node appended to its path. -/
def appendHop (m : Message) (deviceMac : Mac) : Message :=
  if h : m.routeLen.toNat < maxHops then
    { m.relayed deviceMac with
      routePath := setRouteHop m.routePath ⟨m.routeLen.toNat, h⟩ deviceMac
      routeLen := m.routeLen + 1 }
  else m.relayed deviceMac

/-- The route report with the authentication code extended by this node. -/
def extendAuthPath (c : Crypto) (kUp : Key) (m : Message) (prevHop deviceMac : Mac) : Message :=
  { m with authPath := chainStep c kUp (buildHopContext m prevHop deviceMac) m.authPath }

/-- A route report at a relay: append this node to the path and pass it on. -/
def relayRouteReport (w : World) (m : Message) : MeshM Unit := do
  let s ← get
  if m.hopCount.toNat ≥ maxHops ∨ m.routeLen.toNat ≥ maxHops then pure ()
  else
    match ← masterE2EKeys w with
    | none => pure ()
    | some keys =>
      let relay :=
        extendAuthPath w.crypto keys.kUp (appendHop m s.deviceMac) (prevHopOf m) s.deviceMac
      transmitCore w relay.dataType relay.data MessageType.routeReport (some relay) s.isMaster

/-- A received route report. -/
def processRouteReport (w : World) (m : Message)
    (externalRecvCallback : Message → MeshM Unit) : MeshM Unit := do
  let s ← get
  if s.isMaster then acceptRouteReport w m externalRecvCallback else relayRouteReport w m

/-- The payload of a route report; its second byte is reserved. -/
def routeReportData : Payload :=
  Bytes.blit (Bytes.zero 64) 0 (Bytes.ofList (n := 2) [Opcode.routeReport, 0]) opcode_le

/-- Report this node's route to the master.  Returns whether there was a route to send it on. -/
def sendRouteReport (w : World) : MeshM Bool := do
  let s ← get
  if s.isMaster then pure false
  else
    match ← findNextHopToMaster w with
    | none => pure false
    | some _ =>
      transmitCore w AdapterType.unknown routeReportData MessageType.routeReport none s.isMaster
      pure true

end LatticeMesh
