import LatticeMesh.QuietFrames
import LatticeMesh.Lib.Checked

/-!
# Checked accesses to source routes

A frame carries two counters that whoever sent it chose: the number of hops that it made and the
number of addresses in its source route.  The handlers are written here once more with every access
to a path buffer checked against the 48 bytes of the buffer, and every increment of an 8-bit counter
checked for a wrap.  They do what the unchecked handlers do: the guards of each branch exclude every
access and every increment that fails.

## Main definitions

* `hopAt`, `putHop`, `copyHops`, `inc` — the checked accesses and the checked increment.
* `classifyChecked`, `processRouteReportChecked` and their like — the handlers with their accesses
  checked.

## Main results

* `classifyChecked_eq` — the routing decision reads inside the source route.
* `passes_handleReceivedMessageTo` — **no check fails while a received frame is processed**,
  whatever the frame and the state.
-/

namespace LatticeMesh

open Checked EffectSpec

/-- Programs over a node whose accesses are checked. -/
abbrev CheckedM (α : Type) := CheckM Halt Node α

variable {w : World} {s : Node} {m : Message}

/-! ### Accesses -/

/-- The address at position `k` of a path buffer, if its six bytes lie in the buffer. -/
def hopAt (path : RoutePath) (k : ℤ) : Except Fault Mac :=
  if h : 0 ≤ k ∧ 6 * k.toNat + 6 ≤ 48 then pure (Bytes.slice path (6 * k.toNat) 6 h.2)
  else throw .range

/-- The path buffer with the address at position `k` replaced, if its six bytes lie in the
buffer. -/
def putHop (path : RoutePath) (k : ℤ) (mac : Mac) : Except Fault RoutePath :=
  if h : 0 ≤ k ∧ 6 * k.toNat + 6 ≤ 48 then pure (Bytes.blit path (6 * k.toNat) mac h.2)
  else throw .range

/-- The path buffer after its first `n` addresses were copied from another one, if both buffers have
that many. -/
def copyHops (path source : RoutePath) (n : UInt8) : Except Fault RoutePath :=
  if 6 * n.toNat ≤ 48 then pure (RouteTable.copyPath path source n) else throw .range

/-- An 8-bit counter plus one, if it does not wrap. -/
def inc (n : UInt8) : Except Fault UInt8 := if n = 255 then throw .wrap else pure (n + 1)

/-- The first access succeeds. -/
theorem ok_bind {α β : Type} (a : α) (f : α → Except Fault β) : (Except.ok a >>= f) = f a := rfl

/-- A loop over an 8-bit counter that does not wrap has at most this many rounds. -/
def counterRounds : ℕ := 256

theorem hopAt_eq (path : RoutePath) (i : Fin maxHops) : hopAt path i = .ok (routeHop path i) := by
  have hi : i.val < 8 := i.isLt
  exact dif_pos ⟨by omega, by omega⟩

theorem putHop_eq (path : RoutePath) (i : Fin maxHops) (mac : Mac) :
    putHop path i mac = .ok (setRouteHop path i mac) := by
  have hi : i.val < 8 := i.isLt
  exact dif_pos ⟨by omega, by omega⟩

theorem copyHops_eq (path source : RoutePath) {n : UInt8} (h : n.toNat ≤ maxHops) :
    copyHops path source n = .ok (RouteTable.copyPath path source n) :=
  if_pos (by simp only [maxHops] at h; omega)

theorem inc_eq {n : UInt8} (h : n.toNat < 255) : inc n = .ok (n + 1) := by
  refine if_neg fun he => ?_
  rw [he] at h
  exact absurd h (by decide)

theorem toNat_inc {n : UInt8} (h : n.toNat < 255) : (n + 1).toNat = n.toNat + 1 := by
  rw [UInt8.toNat_add]
  exact Nat.mod_eq_of_lt (by simp; omega)

/-! ### The routing decision -/

/-- `nextOnRoute`, with its access checked. -/
def nextOnRouteChecked (m : Message) (i : ℕ) : Except Fault Mac :=
  if i + 1 < m.routeLen.toNat then hopAt m.routePath (i + 1 : ℕ) else pure m.targetMac

/-- The search of the source route for this node, from position `i` on. -/
def scanRoute (m : Message) (deviceMac : Mac) : ℕ → UInt8 → Except Fault RouteDecision
  | 0, _ => throw .wrap
  | rounds + 1, i =>
    if i < m.routeLen then do
      let hop ← hopAt m.routePath i.toNat
      if hop = deviceMac then
        if m.hopCount.toNat ≥ maxHops then pure .dropHopLimitExceeded
        else return .forwardOnRoute (← nextOnRouteChecked m i.toNat)
      else scanRoute m deviceMac rounds (← inc i)
    else pure .flood

/-- `classify`, with its accesses checked. -/
def classifyChecked (m : Message) (deviceMac : Mac) (isMaster addressedToSelf isBroadcastTarget
    addressedToMaster : Bool) : Except Fault RouteDecision :=
  if isMaster || addressedToSelf || isBroadcastTarget then pure .notRouted
  else if addressedToMaster then
    if m.hopCount.toNat ≥ maxHops then pure .dropHopLimitExceeded else pure .relayTowardMaster
  else if m.routeLen > 0 ∧ m.routeLen.toNat ≤ maxHops then scanRoute m deviceMac counterRounds 0
  else pure .flood

/-- What follows from where this node stands on the source route. -/
def alongRoute (m : Message) : Option (Fin maxHops) → RouteDecision
  | some i =>
    if m.hopCount.toNat ≥ maxHops then .dropHopLimitExceeded else .forwardOnRoute (nextOnRoute m i)
  | none => .flood

/-- The indices in use from one of them on: this one, and those behind it. -/
theorem drop_hopIndices {i : Fin maxHops} (h : i.val < m.routeLen.toNat) :
    m.hopIndices.drop i = i :: m.hopIndices.drop (i + 1) := by
  unfold Message.hopIndices
  have hlen : i.val < ((List.finRange maxHops).take m.routeLen.toNat).length := by
    rw [List.length_take, List.length_finRange]
    exact lt_min h i.isLt
  rw [List.drop_eq_getElem_cons hlen, List.getElem_take, List.getElem_finRange]
  rfl

theorem drop_hopIndices_eq_nil {k : ℕ} (h : m.routeLen.toNat ≤ k) : m.hopIndices.drop k = [] := by
  unfold Message.hopIndices
  exact List.drop_eq_nil_of_le ((List.length_take_le _ _).trans h)

theorem nextOnRouteChecked_eq {i : Fin maxHops} (hlen : m.routeLen.toNat ≤ maxHops) :
    nextOnRouteChecked m i = .ok (nextOnRoute m i) := by
  unfold nextOnRouteChecked nextOnRoute
  by_cases h : i.val + 1 < m.routeLen.toNat
  · rw [if_pos h, dif_pos ⟨h.trans_le hlen, h⟩]
    exact hopAt_eq m.routePath ⟨i.val + 1, h.trans_le hlen⟩
  · rw [if_neg h, dif_neg fun hc => h hc.2]
    rfl

/-- The search looks at the addresses in use, from position `i` on, and at no others. -/
theorem scanRoute_eq {deviceMac : Mac} (hlen : m.routeLen.toNat ≤ maxHops) :
    ∀ {rounds : ℕ} {i : UInt8}, i.toNat ≤ m.routeLen.toNat → m.routeLen.toNat < rounds + i.toNat →
      scanRoute m deviceMac rounds i =
        .ok (alongRoute m ((m.hopIndices.drop i.toNat).find? fun j => m.hop j = deviceMac))
  | 0, i, hi, hr => by omega
  | rounds + 1, i, hi, hr => by
    rw [scanRoute]
    by_cases hlt : i.toNat < m.routeLen.toNat
    · -- one more address in use
      have hi8 : i.toNat < maxHops := hlt.trans_le hlen
      have hmax : i.toNat < 255 := hi8.trans (by decide)
      have hsucc : (i + 1).toNat = i.toNat + 1 := toNat_inc hmax
      have hread : hopAt m.routePath i.toNat = .ok (m.hop ⟨i.toNat, hi8⟩) :=
        hopAt_eq m.routePath ⟨i.toNat, hi8⟩
      rw [if_pos (UInt8.lt_iff_toNat_lt.2 hlt), hread, ok_bind,
        drop_hopIndices (i := ⟨i.toNat, hi8⟩) hlt]
      by_cases hself : m.hop ⟨i.toNat, hi8⟩ = deviceMac
      · rw [if_pos hself, List.find?_cons_of_pos (by simpa using hself),
          nextOnRouteChecked_eq (i := ⟨i.toNat, hi8⟩) hlen, alongRoute]
        split <;> rfl
      · rw [if_neg hself, List.find?_cons_of_neg (by simpa using hself), inc_eq hmax,
          ok_bind, scanRoute_eq hlen (by omega) (by omega), hsucc]
    · have hge : m.routeLen.toNat ≤ i.toNat := by omega
      rw [if_neg fun h => hlt (UInt8.lt_iff_toNat_lt.1 h), drop_hopIndices_eq_nil hge]
      rfl

/-- **The routing decision reads inside the source route.** -/
theorem classifyChecked_eq {deviceMac : Mac} {isMaster addressedToSelf isBroadcastTarget
    addressedToMaster : Bool} :
    classifyChecked m deviceMac isMaster addressedToSelf isBroadcastTarget addressedToMaster =
      .ok (classify m deviceMac isMaster addressedToSelf isBroadcastTarget addressedToMaster) := by
  unfold classifyChecked classify
  split
  · rfl
  split
  · split <;> rfl
  split
  · rename_i hlen
    have hrounds : m.routeLen.toNat < counterRounds + (0 : UInt8).toNat := m.routeLen.toNat_lt
    rw [scanRoute_eq hlen.2 (Nat.zero_le _) hrounds]
    refine congrArg Except.ok ?_
    show alongRoute m (m.hopIndices.find? fun j => m.hop j = deviceMac) = _
    unfold alongRoute
    cases m.hopIndices.find? fun j => m.hop j = deviceMac <;> rfl
  · rfl

/-! ### Relayed copies -/

/-- `Message.relayed`, with its counter checked. -/
def Message.relayedChecked (m : Message) (deviceMac : Mac) : Except Fault Message := do
  let hopCount ← inc m.hopCount
  return { m with hopCount := hopCount, lastHopMac := deviceMac }

/-- `Message.forwarded`, with its counter checked. -/
def Message.forwardedChecked (m : Message) : Except Fault Message := do
  let hopCount ← inc m.hopCount
  return { m with hopCount := hopCount }

/-- `appendHop`, with its access and its counters checked. -/
def appendHopChecked (m : Message) (deviceMac : Mac) : Except Fault Message := do
  let relay ← m.relayedChecked deviceMac
  let routePath ← putHop relay.routePath relay.routeLen.toNat deviceMac
  let routeLen ← inc relay.routeLen
  return { relay with routePath := routePath, routeLen := routeLen }

/-- `prevHopOf`, with its access checked. -/
def prevHopChecked (m : Message) : Except Fault Mac :=
  if m.routeLen = 0 then pure m.originMac else hopAt m.routePath (m.routeLen.toNat - 1)

theorem relayedChecked_eq {deviceMac : Mac} (h : m.hopCount.toNat < maxHops) :
    m.relayedChecked deviceMac = .ok (m.relayed deviceMac) := by
  rw [Message.relayedChecked, inc_eq (h.trans (by decide))]
  rfl

theorem forwardedChecked_eq (h : m.hopCount.toNat < maxHops) :
    m.forwardedChecked = .ok m.forwarded := by
  rw [Message.forwardedChecked, inc_eq (h.trans (by decide))]
  rfl

theorem appendHopChecked_eq {deviceMac : Mac} (hhops : m.hopCount.toNat < maxHops)
    (hlen : m.routeLen.toNat < maxHops) :
    appendHopChecked m deviceMac = .ok (appendHop m deviceMac) := by
  have hput : putHop (m.relayed deviceMac).routePath
      (m.relayed deviceMac).routeLen.toNat deviceMac =
      .ok (setRouteHop m.routePath ⟨m.routeLen.toNat, hlen⟩ deviceMac) :=
    putHop_eq m.routePath ⟨m.routeLen.toNat, hlen⟩ deviceMac
  have hinc : inc (m.relayed deviceMac).routeLen = .ok (m.routeLen + 1) :=
    inc_eq (hlen.trans (by decide))
  rw [appendHopChecked, relayedChecked_eq hhops, ok_bind, hput,
    ok_bind, hinc, appendHop, dif_pos hlen]
  rfl

theorem prevHopChecked_eq (hlen : m.routeLen.toNat < maxHops) :
    prevHopChecked m = .ok (prevHopOf m) := by
  unfold prevHopChecked prevHopOf
  by_cases h0 : m.routeLen = 0
  · rw [if_pos h0, dif_neg fun h => by rw [h0] at h; exact absurd h.1 (by decide)]
    rfl
  · have hpos : 0 < m.routeLen.toNat := by
      refine Nat.pos_of_ne_zero fun h => h0 (UInt8.toNat_inj.1 h)
    have hk : ((m.routeLen.toNat - 1 : ℕ) : ℤ) = (m.routeLen.toNat : ℤ) - 1 := by omega
    rw [if_neg h0, dif_pos ⟨hpos, hlen.le⟩, ← hk]
    exact hopAt_eq m.routePath ⟨m.routeLen.toNat - 1, by omega⟩

/-! ### Handlers that relay -/

/-- `relayDownlink`, with its counter checked. -/
def relayDownlinkChecked (w : World) (m : Message) : CheckedM Unit := do
  let s ← get
  if m.hopCount.toNat ≥ maxHops then pure ()
  else
    let relay ← m.relayedChecked s.deviceMac
    s.peers.peers.forM fun p =>
      if p.mac = s.deviceMac then pure () else sendMessage w p.mac relay s.deviceMac

/-- `relayEnrollmentUplink`, with its counter checked. -/
def relayEnrollmentUplinkChecked (w : World) (m : Message) : CheckedM Unit := do
  let s ← get
  if m.originMac = s.deviceMac ∨ m.hopCount.toNat ≥ maxHops then
    pure ()
  else
    match ← findNextHopToMaster w with
    | none => pure ()
    | some _ =>
      let relay ← m.relayedChecked s.deviceMac
      transmitCore w relay.dataType relay.data MessageType.enrollment (some relay) false

/-- `dispatchJoinAck`, with its counter checked. -/
def dispatchJoinAckChecked (w : World) (m : Message) : CheckedM Unit := do
  let s ← get
  if m.targetMac = s.deviceMac then
    if s.isMaster then pure () else processJoinAck w m
  else if m.originMac = s.deviceMac ∨ m.hopCount.toNat ≥ maxHops then
    pure ()
  else
    sendBroadcast w (← m.relayedChecked s.deviceMac)

/-- `processEnrollment`, with its counter checked. -/
def processEnrollmentChecked (w : World) (m : Message) : CheckedM Unit := do
  let s ← get
  if s.isMaster then
    let _ ← registerPeerWithKey w m.originMac m.enrollmentPublicKey false
    processRequest w m
  else
    relayEnrollmentUplinkChecked w m

theorem passes_relayDownlink : Passes s (relayDownlinkChecked w m) (relayDownlink w m) := by
  refine .read_bind (.ite (fun _ => .ret _ _) fun h => ?_)
  refine .check_bind (relayedChecked_eq (Nat.lt_of_not_le h)) ?_
  exact .forM (fun p t => .ite (fun _ => .ret _ _) fun _ => .lift _ _) s

theorem passes_relayEnrollmentUplink :
    Passes s (relayEnrollmentUplinkChecked w m) (relayEnrollmentUplink w m) := by
  refine .read_bind (.ite (fun _ => .ret _ _) fun h => .bind (.lift _ _) fun r t _ => ?_)
  cases r with
  | none => exact .ret _ _
  | some hop =>
    exact .check_bind (relayedChecked_eq (Nat.lt_of_not_le fun hc => h (.inr hc))) (.lift _ _)

theorem passes_dispatchJoinAck :
    Passes s (dispatchJoinAckChecked w m) (dispatchJoinAck w m) := by
  refine .read_bind (.ite (fun _ => .ite (fun _ => .ret _ _) fun _ => .lift _ _) fun _ => ?_)
  refine .ite (fun _ => .ret _ _) fun h => ?_
  exact .check_bind (relayedChecked_eq (Nat.lt_of_not_le fun hc => h (.inr hc))) (.lift _ _)

theorem passes_processEnrollment :
    Passes s (processEnrollmentChecked w m) (processEnrollment w m) := by
  refine .read_bind (.ite (fun _ => .bind (.lift _ _) fun _ _ _ => .lift _ _) fun _ => ?_)
  exact passes_relayEnrollmentUplink

/-! ### Data frames -/

section Callback

variable {cb : Message → MeshM Unit}

/-- `deliverAdapterDataTo`, with its counter checked. -/
def deliverAdapterDataToChecked (w : World) (externalRecvCallback : Message → MeshM Unit)
    (m : Message) (addressedToSelf isBroadcastTarget : Bool) : CheckedM Unit := do
  match ← (authorize w m addressedToSelf : MeshM (Option Message)) with
  | none => pure ()
  | some opened =>
    externalRecvCallback opened
    let s ← get
    if isBroadcastTarget && !s.isMaster then relayDownlinkChecked w m else pure ()

/-- `routeAdapterData`, with its counters checked. -/
def routeAdapterDataChecked (w : World) (m : Message) : RouteDecision → CheckedM Unit
  | .dropHopLimitExceeded | .notRouted => pure ()
  | .relayTowardMaster => do
    let s ← get
    let relay ← m.relayedChecked s.deviceMac
    transmitCore w relay.dataType relay.data MessageType.adapterData (some relay) s.isMaster
  | .forwardOnRoute nextHop => do
    let s ← get
    let fwd ← m.forwardedChecked
    registerDownlinkPeer w nextHop
    sendMessage w nextHop fwd s.deviceMac
  | .flood => relayDownlinkChecked w m

/-- `processAdapterDataTo`, with its accesses and its counters checked. -/
def processAdapterDataToChecked (w : World) (externalRecvCallback : Message → MeshM Unit)
    (m : Message) : CheckedM Unit := do
  let s ← get
  let decision ← classifyChecked m s.deviceMac s.isMaster (m.targetMac = s.deviceMac)
    (m.targetMac = broadcastMac) (s.addressedToMaster m)
  if decision = .notRouted then
    deliverAdapterDataToChecked w externalRecvCallback m (m.targetMac = s.deviceMac)
      (m.targetMac = broadcastMac)
  else
    routeAdapterDataChecked w m decision

theorem passes_deliverAdapterDataTo {addressedToSelf isBroadcastTarget : Bool} :
    Passes s (deliverAdapterDataToChecked w cb m addressedToSelf isBroadcastTarget)
      (deliverAdapterDataTo w cb m addressedToSelf isBroadcastTarget) := by
  refine .bind (.lift _ _) fun r t _ => ?_
  cases r with
  | none => exact .ret _ _
  | some opened =>
    refine .bind (.lift _ _) fun _ u _ => .read_bind (.ite (fun _ => ?_) fun _ => .ret _ _)
    exact passes_relayDownlink

/-- A frame that is relayed or forwarded may make one more hop. -/
theorem hopCount_lt_of_classify {deviceMac : Mac} {isMaster addressedToSelf isBroadcastTarget
    addressedToMaster : Bool} {d : RouteDecision}
    (h : classify m deviceMac isMaster addressedToSelf isBroadcastTarget addressedToMaster = d)
    (hd : d = .relayTowardMaster ∨ ∃ nextHop, d = .forwardOnRoute nextHop) :
    m.hopCount.toNat < maxHops := by
  by_contra hlim
  have hge : m.hopCount.toNat ≥ maxHops := Nat.le_of_not_lt hlim
  unfold classify at h
  subst h
  split at hd
  · simp at hd
  split at hd
  · simp at hd
  split at hd
  · split at hd <;> simp at hd
  · simp at hd

theorem passes_processAdapterDataTo :
    Passes s (processAdapterDataToChecked w cb m) (processAdapterDataTo w cb m) := by
  refine .read_bind (.check_bind classifyChecked_eq (.ite (fun _ => ?_) fun hn => ?_))
  · exact passes_deliverAdapterDataTo
  show Passes s (routeAdapterDataChecked w m (s.routeDecision m)) _
  cases hd : s.routeDecision m with
  | notRouted => exact absurd hd hn
  | dropHopLimitExceeded => exact .ret _ _
  | relayTowardMaster =>
    have hhops := hopCount_lt_of_classify hd (.inl rfl)
    exact .read_bind (.check_bind (relayedChecked_eq hhops) (.lift _ _))
  | forwardOnRoute nextHop =>
    have hhops := hopCount_lt_of_classify hd (.inr ⟨nextHop, rfl⟩)
    refine .read_bind (.check_bind (forwardedChecked_eq hhops) ?_)
    exact .bind (.lift _ _) fun _ _ _ => .lift _ _
  | flood => exact passes_relayDownlink

/-! ### Route reports -/

/-- `verifyHops`, from position `i` of the source route on, with its accesses and its counter
checked. -/
def verifyHopsChecked (w : World) (m : Message) : ℕ → UInt8 → Mac → AuthPath →
    CheckedM (Option AuthPath)
  | 0, _, _, _ => throw .wrap
  | rounds + 1, i, prevHop, computed =>
    if i < m.routeLen then do
      let hopMac ← hopAt m.routePath i.toNat
      match ← (peerE2EKeys w hopMac : MeshM (Option E2EKeys)) with
      | none => pure none
      | some keys =>
        let next ← inc i
        verifyHopsChecked w m rounds next hopMac
          (chainStep w.crypto keys.kUp (buildHopContext m prevHop hopMac) computed)
    else pure (some computed)

/-- `RouteTable.record`, with its access checked. -/
def RouteTable.recordChecked (t : RouteTable) (nodeMac : Mac) (path : RoutePath) (pathLen : UInt8)
    (nowMs : UInt64) : Except Fault RouteTable :=
  if pathLen.toNat > maxHops then pure t
  else do
    let slot := (findSlot t nodeMac).getD (allocateSlot t)
    let stored ← copyHops (t.get slot).path path pathLen
    return t.set slot ⟨nodeMac, pathLen, true, nowMs, stored⟩

/-- Record the path of a route report where routes are kept, with the access checked. -/
def recordRouteChecked (routes : Option RouteTable) (m : Message) (nowMs : UInt64) :
    Except Fault (Option RouteTable) :=
  match routes with
  | none => pure none
  | some routes => do
    let recorded ← routes.recordChecked m.originMac m.routePath m.routeLen nowMs
    return some recorded

/-- `acceptRouteReport`, with its accesses and its counter checked. -/
def acceptRouteReportChecked (w : World) (m : Message)
    (externalRecvCallback : Message → MeshM Unit) : CheckedM Unit := do
  match ← (peerE2EKeys w m.originMac : MeshM (Option E2EKeys)) with
  | none => pure ()
  | some keys =>
    match ← (openWith w keys.kUp m : MeshM (Option Message)) with
    | none => pure ()
    | some opened =>
      if opened.byte 0 ≠ Opcode.routeReport ∨ m.routeLen.toNat > maxHops then pure ()
      else
        let computed ← verifyHopsChecked w m counterRounds 0 m.originMac
          (chainStep w.crypto keys.kUp (buildHopContext m zeroMac m.originMac) (Bytes.zero 8))
        if computed = some m.authPath then
          let s ← get
          let routes ← recordRouteChecked s.routes m w.nowMs
          set { s with routes := routes }
          externalRecvCallback opened
        else
          pure ()

/-- `relayRouteReport`, with its accesses and its counters checked. -/
def relayRouteReportChecked (w : World) (m : Message) : CheckedM Unit := do
  let s ← get
  if m.hopCount.toNat ≥ maxHops ∨ m.routeLen.toNat ≥ maxHops then pure ()
  else
    let prevHop ← prevHopChecked m
    let relay ← appendHopChecked m s.deviceMac
    match ← (masterE2EKeys w : MeshM (Option E2EKeys)) with
    | none => pure ()
    | some keys =>
      let relay := extendAuthPath w.crypto keys.kUp relay prevHop s.deviceMac
      transmitCore w relay.dataType relay.data MessageType.routeReport (some relay) s.isMaster

/-- `processRouteReport`, with its accesses and its counters checked. -/
def processRouteReportChecked (w : World) (m : Message)
    (externalRecvCallback : Message → MeshM Unit) : CheckedM Unit := do
  let s ← get
  if s.isMaster then acceptRouteReportChecked w m externalRecvCallback
  else relayRouteReportChecked w m

/-- The check of the path reads the addresses in use, from position `i` on, and no others. -/
theorem passes_verifyHops (hlen : m.routeLen.toNat ≤ maxHops) :
    ∀ {rounds : ℕ} {i : UInt8} {prevHop : Mac} {computed : AuthPath} {s : Node},
      i.toNat ≤ m.routeLen.toNat → m.routeLen.toNat < rounds + i.toNat →
      Passes s (verifyHopsChecked w m rounds i prevHop computed)
        (verifyHops w m ((m.hopIndices.drop i.toNat).map m.hop) prevHop computed)
  | 0, i, _, _, _, hi, hr => by omega
  | rounds + 1, i, prevHop, computed, s, hi, hr => by
    rw [verifyHopsChecked]
    by_cases hlt : i.toNat < m.routeLen.toNat
    · have hi8 : i.toNat < maxHops := hlt.trans_le hlen
      have hmax : i.toNat < 255 := hi8.trans (by decide)
      have hsucc : (i + 1).toNat = i.toNat + 1 := toNat_inc hmax
      rw [if_pos (UInt8.lt_iff_toNat_lt.2 hlt), drop_hopIndices (i := ⟨i.toNat, hi8⟩) hlt,
        List.map_cons, verifyHops]
      refine .check_bind (hopAt_eq m.routePath ⟨i.toNat, hi8⟩) (.bind (.lift _ _) fun r t _ => ?_)
      cases r with
      | none => exact .ret _ _
      | some keys =>
        refine .check_bind (inc_eq hmax) ?_
        show Passes t _ (verifyHops w m ((m.hopIndices.drop (i.toNat + 1)).map m.hop) _ _)
        rw [← hsucc]
        exact passes_verifyHops hlen (by omega) (by omega)
    · have hge : m.routeLen.toNat ≤ i.toNat := by omega
      rw [if_neg fun h => hlt (UInt8.lt_iff_toNat_lt.1 h), drop_hopIndices_eq_nil hge]
      exact .ret _ _

theorem recordChecked_eq (t : RouteTable) (nodeMac : Mac) (path : RoutePath) (pathLen : UInt8)
    (nowMs : UInt64) :
    t.recordChecked nodeMac path pathLen nowMs = .ok (t.record nodeMac path pathLen nowMs) := by
  unfold RouteTable.recordChecked RouteTable.record
  split
  · rfl
  · dsimp only
    rw [copyHops_eq _ _ (Nat.le_of_not_lt ‹_›)]
    rfl

theorem recordRouteChecked_eq (routes : Option RouteTable) (nowMs : UInt64) :
    recordRouteChecked routes m nowMs = .ok (routes.map fun routes =>
      routes.record m.originMac m.routePath m.routeLen nowMs) := by
  cases routes with
  | none => rfl
  | some routes =>
    rw [recordRouteChecked, recordChecked_eq, Option.map_some]
    rfl

theorem passes_acceptRouteReport :
    Passes s (acceptRouteReportChecked w m cb) (acceptRouteReport w m cb) := by
  refine .bind (.lift _ _) fun r t _ => ?_
  cases r with
  | none => exact .ret _ _
  | some keys =>
    refine .bind (.lift _ _) fun r u _ => ?_
    cases r with
    | none => exact .ret _ _
    | some opened =>
      refine .ite (fun _ => .ret _ _) fun h => ?_
      have hlen : m.routeLen.toNat ≤ maxHops := Nat.le_of_not_lt fun hc => h (.inr hc)
      refine .bind (passes_verifyHops hlen (Nat.zero_le _) m.routeLen.toNat_lt) fun c v _ => ?_
      refine .ite (fun _ => ?_) fun _ => .ret _ _
      refine .get_bind (.check_bind (recordRouteChecked_eq v.routes w.nowMs) ?_)
      exact .bind (.write rfl) fun _ _ _ => .lift _ _

theorem passes_relayRouteReport :
    Passes s (relayRouteReportChecked w m) (relayRouteReport w m) := by
  refine .read_bind (.ite (fun _ => .ret _ _) fun h => ?_)
  rw [not_or, not_le, not_le] at h
  refine .check_bind (prevHopChecked_eq h.2) (.check_bind (appendHopChecked_eq h.1 h.2) ?_)
  refine .bind (.lift _ _) fun r t _ => ?_
  cases r with
  | none => exact .ret _ _
  | some keys => exact .lift _ _

theorem passes_processRouteReport :
    Passes s (processRouteReportChecked w m cb) (processRouteReport w m cb) :=
  .read_bind (.ite (fun _ => passes_acceptRouteReport) fun _ => passes_relayRouteReport)

/-! ### Beacons -/

/-- `Node.noteBeacon`, with its counter checked. -/
def Node.noteBeaconChecked (s : Node) (w : World) (m : Message) : Except Fault Node := do
  let observed := s.neighbors.observeAndMinDistance m.lastHopMac m.hopCount w.nowMs
  let distance ← if observed.1 = 0xFF then pure 0xFF else inc observed.1
  return { s with
    lastSeenMasterMac := m.originMac
    beacon := { s.beacon with lastMasterBeaconReceivedMs := w.nowMs }
    neighbors := observed.2
    currentMaster := ⟨m.originMac, distance⟩ }

/-- `processBeacon`, with its counter checked. -/
def processBeaconChecked (w : World) (m : Message) : CheckedM Unit := do
  let s ← get
  if m.originMac = s.deviceMac ∨ !beaconPinned w.config m ∨ m.hopCount.toNat ≥ maxHops then
    pure ()
  else
    let accepted ← acceptBeaconOrigin w m.originMac
    if accepted then
      warnOtherMaster w m.originMac
      let s ← get
      let noted ← s.noteBeaconChecked w m
      set (noted.scheduleRelay w m)
    else
      pure ()

theorem noteBeaconChecked_eq : s.noteBeaconChecked w m = .ok (s.noteBeacon w m) := by
  unfold Node.noteBeaconChecked Node.noteBeacon
  dsimp only
  by_cases h : (s.neighbors.observeAndMinDistance m.lastHopMac m.hopCount w.nowMs).1 = 0xFF
  · rw [if_pos h, if_pos h]
    rfl
  · have hlt : (s.neighbors.observeAndMinDistance m.lastHopMac m.hopCount w.nowMs).1.toNat < 255 :=
      lt_of_le_of_ne (Nat.le_of_lt_succ (UInt8.toNat_lt _)) fun he => h (UInt8.toNat_inj.1 he)
    rw [if_neg h, if_neg h, inc_eq hlt]
    rfl

theorem passes_processBeacon : Passes s (processBeaconChecked w m) (processBeacon w m) := by
  refine .read_bind (.ite (fun _ => .ret _ _) fun _ => .bind (.lift _ _) fun accepted t _ => ?_)
  refine .ite (fun _ => .bind (.lift _ _) fun _ u _ => ?_) fun _ => .ret _ _
  exact .get_bind (.check_bind noteBeaconChecked_eq (.write rfl))

/-! ### Received frames -/

/-- `dispatchMessageTo`, with its accesses and its counters checked. -/
def dispatchMessageToChecked (w : World) (externalRecvCallback : Message → MeshM Unit)
    (m : Message) : CheckedM Unit :=
  if m.messageType = MessageType.adapterData then
    processAdapterDataToChecked w externalRecvCallback m
  else if m.messageType = MessageType.routeReport then
    processRouteReportChecked w m externalRecvCallback
  else if m.messageType = MessageType.enrollment then processEnrollmentChecked w m
  else if m.messageType = MessageType.joinAck then dispatchJoinAckChecked w m
  else if m.messageType = MessageType.masterBeacon then processBeaconChecked w m
  else pure ()

/-- `handleReceivedMessageTo`, with its accesses and its counters checked. -/
def handleReceivedMessageToChecked (w : World) (externalRecvCallback : Message → MeshM Unit)
    (srcMac : Mac) (m : Message) : CheckedM Unit := do
  if m.protoVersion ≠ protoVersion then pure ()
  else
    let s ← get
    let gate := replayGate s.replay m w.nowMs
    set { s with replay := gate.2 }
    if gate.1 then pure ()
    else
      let s ← get
      set { s with peers := s.peers.updateLastSeen srcMac w.nowMs }
      dispatchMessageToChecked w externalRecvCallback m

theorem passes_dispatchMessageTo :
    Passes s (dispatchMessageToChecked w cb m) (dispatchMessageTo w cb m) := by
  refine .ite (fun _ => passes_processAdapterDataTo) fun hdata => ?_
  refine .ite (fun _ => passes_processRouteReport) fun hreport => ?_
  refine .ite (fun _ => passes_processEnrollment) fun _ => ?_
  refine .ite (fun _ => passes_dispatchJoinAck) fun _ => .ite (fun _ => passes_processBeacon)
    fun _ => ?_
  rw [if_neg hdata, if_neg hreport]
  exact .ret _ _

/-- **No check fails while a received frame is processed**, whatever the frame and the state. -/
theorem passes_handleReceivedMessageTo {srcMac : Mac} :
    Passes s (handleReceivedMessageToChecked w cb srcMac m)
      (handleReceivedMessageTo w cb srcMac m) := by
  refine .ite (fun _ => .ret _ _) fun _ => .read_bind (.bind (.write rfl) fun _ t ht => ?_)
  refine .ite (fun _ => .ret _ _) fun _ => .get_bind (.bind (.write rfl) fun _ u _ => ?_)
  exact passes_dispatchMessageTo

end Callback

end LatticeMesh
