import LatticeMesh.HopChecks

/-!
# Checked accesses along a recorded route

A master that sends a frame to one node looks up the route that it recorded, in a local path buffer,
and reverses it into the source route of the frame.  As long as no recorded route is longer than a
source route, no access leaves the two buffers.

## Main definitions

* `RouteTable.Bounded` — no entry of a route table is longer than a source route.
* `sendDownlinkToNodeChecked` — the handler with its accesses checked.
* `handleInputChecked` — what a node does with an input, with its accesses checked.

## Main results

* `passes_sendDownlinkToNode` — no check fails while a frame is sent along a recorded route.
* `passes_handleInput` — **no check fails while an input is handled**, if recorded routes are
  bounded.
-/

namespace LatticeMesh

open Checked EffectSpec

variable {w : World} {s : Node} {m : Message}

/-! ### Recorded routes -/

/-- No entry of the table is longer than a source route. -/
def RouteTable.Bounded (t : RouteTable) : Prop := ∀ i, (t.get i).pathLen.toNat ≤ maxHops

/-- The routes that a node keeps, if it keeps any, are no longer than a source route. -/
def Node.RoutesBounded (s : Node) : Prop := ∀ t, s.routes = some t → t.Bounded

/-- `RouteTable.lookup`, with its access checked: the path goes to the buffer `pathOut`. -/
def RouteTable.lookupChecked (t : RouteTable) (nodeMac : Mac) (pathOut : RoutePath) :
    Except Fault (Option (RoutePath × UInt8)) :=
  match findSlot t nodeMac with
  | none => pure none
  | some i => do
    let path ← copyHops pathOut (t.get i).path (t.get i).pathLen
    return some (path, (t.get i).pathLen)

/-- Look up a route where routes are kept. -/
def lookupRouteChecked (routes : Option RouteTable) (nodeMac : Mac) (pathOut : RoutePath) :
    Except Fault (Option (RoutePath × UInt8)) :=
  match routes with
  | none => pure none
  | some t => t.lookupChecked nodeMac pathOut

/-- The reversal of a recorded path into a source route, from position `i` on. -/
def reverseRouteChecked (path : RoutePath) (pathLen : UInt8) :
    ℕ → UInt8 → RoutePath → Except Fault RoutePath
  | 0, _, _ => throw .wrap
  | rounds + 1, i, routePath =>
    if i < pathLen then do
      let hop ← hopAt path (pathLen.toNat - 1 - i.toNat)
      let routePath ← putHop routePath i.toNat hop
      let next ← inc i
      reverseRouteChecked path pathLen rounds next routePath
    else pure routePath

/-- `routeDownlink`, with its accesses and its counter checked. -/
def routeDownlinkChecked (w : World) (pathOut : RoutePath) (m : Message) : CheckedM Unit := do
  let s ← get
  match ← lookupRouteChecked s.routes m.targetMac pathOut with
  | some (path, pathLen) =>
    if pathLen > 0 then
      if downlinkRouteLenExceedsMaxHops pathLen then pure ()
      else
        let routePath ← reverseRouteChecked path pathLen counterRounds 0 m.routePath
        let m := { m with routeLen := pathLen, routePath := routePath }
        let first ← hopAt m.routePath 0
        registerDownlinkPeer w first
        sendMessage w first m s.deviceMac
    else
      broadcastToAllPeers w { m with routeLen := 0 } s.peers s.deviceMac
  | none => broadcastToAllPeers w { m with routeLen := 0 } s.peers s.deviceMac

/-- `sendDownlinkToNode`, with its accesses and its counter checked.  The local path buffer holds
`pathOut` before it is written. -/
def sendDownlinkToNodeChecked (w : World) (pathOut : RoutePath) (destMac : Mac) (type : AdapterType)
    (data : Payload) : CheckedM Unit := do
  let s ← get
  if !s.isMaster then pure ()
  else
    let built ← buildMessage w type data MessageType.adapterData
    let m := { built with targetMac := destMac }
    checkEpochRollback w m.epochNum m.seqNum
    match ← (peerE2EKeys w destMac : MeshM (Option E2EKeys)) with
    | none => pure ()
    | some keys =>
      emit (.sealed keys.kDown m)
      match sealPayload w.crypto keys.kDown m with
      | none => pure ()
      | some sm => routeDownlinkChecked w pathOut sm

/-- The reversal of a path, one address after the other. -/
theorem drop_finRange {n : ℕ} (i : Fin n) :
    (List.finRange n).drop i = i :: (List.finRange n).drop (i + 1) := by
  have hlen : i.val < (List.finRange n).length := by
    rw [List.length_finRange]
    exact i.isLt
  rw [List.drop_eq_getElem_cons hlen, List.getElem_finRange]
  rfl

theorem reverseRouteChecked_eq {path : RoutePath} {pathLen : UInt8} (h : pathLen.toNat ≤ maxHops) :
    ∀ {rounds : ℕ} {i : UInt8} {routePath : RoutePath}, i.toNat ≤ pathLen.toNat →
      pathLen.toNat < rounds + i.toNat →
      reverseRouteChecked path pathLen rounds i routePath =
        .ok (((List.finRange pathLen.toNat).drop i.toNat).foldl (fun route j =>
          setRouteHop route (j.castLE h) (routeHop path (j.rev.castLE h))) routePath)
  | 0, i, _, hi, hr => by omega
  | rounds + 1, i, routePath, hi, hr => by
    rw [reverseRouteChecked]
    by_cases hlt : i.toNat < pathLen.toNat
    · have hi8 : i.toNat < maxHops := hlt.trans_le h
      have hmax : i.toNat < 255 := hi8.trans (by decide)
      have hsucc : (i + 1).toNat = i.toNat + 1 := toNat_inc hmax
      let j : Fin pathLen.toNat := ⟨i.toNat, hlt⟩
      have hread : hopAt path (pathLen.toNat - 1 - i.toNat) =
          .ok (routeHop path (j.rev.castLE h)) := by
        have hk : ((j.rev.castLE h : Fin maxHops) : ℤ) = (pathLen.toNat : ℤ) - 1 - i.toNat := by
          show ((pathLen.toNat - (i.toNat + 1) : ℕ) : ℤ) = _
          omega
        rw [← hk]
        exact hopAt_eq path (j.rev.castLE h)
      have hwrite : ∀ mac, putHop routePath i.toNat mac =
          .ok (setRouteHop routePath (j.castLE h) mac) := fun mac =>
        putHop_eq routePath (j.castLE h) mac
      rw [if_pos (UInt8.lt_iff_toNat_lt.2 hlt), hread, ok_bind, hwrite, ok_bind, inc_eq hmax,
        ok_bind, reverseRouteChecked_eq h (by omega) (by omega), hsucc]
      show _ = Except.ok (((List.finRange pathLen.toNat).drop j).foldl _ _)
      rw [drop_finRange j, List.foldl_cons]
    · have hge : pathLen.toNat ≤ i.toNat := by omega
      rw [if_neg fun hc => hlt (UInt8.lt_iff_toNat_lt.1 hc),
        List.drop_eq_nil_of_le (by rw [List.length_finRange]; exact hge)]
      rfl

/-- The reversal reads only what was copied. -/
theorem withReversedRoute_copyPath (pathOut path : RoutePath) {pathLen : UInt8}
    (h : pathLen.toNat ≤ maxHops) :
    withReversedRoute m (RouteTable.copyPath pathOut path pathLen) pathLen h =
      withReversedRoute m path pathLen h := by
  unfold withReversedRoute
  congr 2
  funext route j
  rw [RouteTable.routeHop_copyPath]
  exact j.rev.isLt

theorem lookupChecked_eq {t : RouteTable} {nodeMac : Mac} {pathOut : RoutePath} (h : t.Bounded) :
    t.lookupChecked nodeMac pathOut =
      .ok ((t.lookup nodeMac).map fun x => (RouteTable.copyPath pathOut x.1 x.2, x.2)) := by
  unfold RouteTable.lookupChecked RouteTable.lookup
  cases t.findSlot nodeMac with
  | none => rfl
  | some i =>
    dsimp only
    rw [copyHops_eq _ _ (h i)]
    rfl

theorem lookupRouteChecked_eq {nodeMac : Mac} {pathOut : RoutePath} (h : s.RoutesBounded) :
    lookupRouteChecked s.routes nodeMac pathOut =
      .ok ((s.routes.bind fun t => t.lookup nodeMac).map fun x =>
        (RouteTable.copyPath pathOut x.1 x.2, x.2)) := by
  unfold lookupRouteChecked
  cases hr : s.routes with
  | none => rfl
  | some t => exact lookupChecked_eq (h t hr)

/-- What is looked up in a bounded table is no longer than a source route. -/
theorem pathLen_le_of_lookup {nodeMac : Mac} {x : RoutePath × UInt8} (h : s.RoutesBounded)
    (hx : (s.routes.bind fun t => t.lookup nodeMac) = some x) : x.2.toNat ≤ maxHops := by
  obtain ⟨t, ht, hl⟩ := Option.bind_eq_some_iff.1 hx
  obtain ⟨i, -, rfl⟩ := Option.map_eq_some_iff.1 hl
  exact h t ht i

theorem passes_routeDownlink {pathOut : RoutePath} (h : s.RoutesBounded) :
    Passes s (routeDownlinkChecked w pathOut m) (routeDownlink w m) := by
  refine .read_bind (.check_bind (lookupRouteChecked_eq h) ?_)
  cases hx : s.routes.bind fun t => t.lookup m.targetMac with
  | none => exact .lift _ _
  | some x =>
    obtain ⟨path, pathLen⟩ := x
    have hlen : pathLen.toNat ≤ maxHops := pathLen_le_of_lookup h hx
    have hfits : ¬downlinkRouteLenExceedsMaxHops pathLen := by
      simpa [downlinkRouteLenExceedsMaxHops] using hlen
    refine .ite (fun _ => ?_) fun _ => .lift _ _
    rw [if_neg hfits, dif_neg hfits]
    have hreverse : reverseRouteChecked (RouteTable.copyPath pathOut path pathLen) pathLen
        counterRounds 0 m.routePath = .ok (withReversedRoute m path pathLen hlen).routePath := by
      rw [← withReversedRoute_copyPath pathOut path hlen]
      exact reverseRouteChecked_eq hlen (Nat.zero_le _) pathLen.toNat_lt
    refine .check_bind hreverse (.check_bind (hopAt_eq _ ⟨0, by decide⟩) ?_)
    exact .bind (.lift _ _) fun _ _ _ => .lift _ _

instance quietFrame_routes : QuietFrame Node.routes := ⟨fun h => congrArg (fun x => x.2.2.1) h⟩

/-- A program that is not about routes leaves them bounded. -/
theorem Node.RoutesBounded.of_keeps {α : Type} {x : MeshM α} {a : α} {t : Node}
    (h : s.RoutesBounded)
    (hx : Keeps Node.routes x) (ht : x s = .ok a t) : t.RoutesBounded := by
  have hroutes : t.routes = s.routes := wp_ok (Q := fun _ t => t.routes = s.routes) ht (hx s)
  unfold Node.RoutesBounded
  rwa [hroutes]

/-- **No check fails while a frame is sent along a recorded route**, if routes are bounded. -/
theorem passes_sendDownlinkToNode {pathOut : RoutePath} {destMac : Mac} {type : AdapterType}
    {data : Payload} (h : s.RoutesBounded) :
    Passes s (sendDownlinkToNodeChecked w pathOut destMac type data)
      (sendDownlinkToNode w destMac type data) := by
  refine .read_bind (.ite (fun _ => .ret _ _) fun _ => .bind (.lift _ _) fun built t ht => ?_)
  have h₁ := h.of_keeps keeps_buildMessage ht
  refine .bind (.lift _ _) fun _ u hu => ?_
  have h₂ := h₁.of_keeps (keeps_checkEpochRollback _ _) hu
  refine .bind (.lift _ _) fun r v hv => ?_
  have h₃ := h₂.of_keeps (keeps_peerE2EKeys _) hv
  cases r with
  | none => exact .ret _ _
  | some keys =>
    refine .bind (.lift _ _) fun _ x hx => ?_
    have h₄ := h₃.of_keeps (keeps_event rfl rfl) hx
    cases sealPayload w.crypto keys.kDown { built with targetMac := destMac } with
    | none => exact .ret _ _
    | some sm => exact passes_routeDownlink h₄

/-! ### Frames from the server -/

/-- `forwardServerFrame`, with its accesses and its counter checked. -/
def forwardServerFrameChecked (w : World) (pathOut : RoutePath) (m : Message) : CheckedM Unit :=
  if m.messageType = MessageType.adapterData then transmit w m.dataType m.data
  else if m.messageType = MessageType.serialCmdBroadcast then
    if m.targetMac = broadcastMac then
      broadcastAdapterData w m.dataType m.data false (deliver w)
    else
      sendDownlinkToNodeChecked w pathOut m.commandTarget m.dataType m.data
  else pure ()

/-- `handleCompleteFrame`, with its accesses and its counter checked. -/
def handleCompleteFrameChecked (w : World) (pathOut : RoutePath) (m : Message) : CheckedM Unit := do
  let s ← get
  if s.adapterType ≠ AdapterType.serial then pure ()
  else if m.messageType = MessageType.joinAck then serverJoinAck w m
  else
    forwardServerFrameChecked w pathOut m
    if m.dataType = AdapterType.serial then
      dispatchControlOp w (transmitSelfOriginated w) m true
    else
      pure ()

/-- `handleInput`, with its accesses and its counters checked. -/
def handleInputChecked (w : World) (pathOut : RoutePath) : Input → CheckedM Unit
  | .rx srcMac m => handleReceivedMessageToChecked w (deliver w) srcMac m
  | .serial m => handleCompleteFrameChecked w pathOut m
  | i => handleInput w i

theorem passes_handleCompleteFrame {pathOut : RoutePath} (h : s.RoutesBounded) :
    Passes s (handleCompleteFrameChecked w pathOut m) (handleCompleteFrame w m) := by
  have hforward : Passes s (forwardServerFrameChecked w pathOut m) (forwardServerFrame w m) := by
    refine .ite (fun _ => .lift _ _) fun _ => .ite (fun _ => ?_) fun _ => .ret _ _
    exact .ite (fun _ => .lift _ _) fun _ => passes_sendDownlinkToNode h
  refine .read_bind (.ite (fun _ => .ret _ _) fun _ => .ite (fun _ => .lift _ _) fun _ => ?_)
  exact .bind hforward fun _ _ _ => .ite (fun _ => .lift _ _) fun _ => .ret _ _

/-- **No check fails while an input is handled**, if routes are bounded. -/
theorem passes_handleInput {pathOut : RoutePath} (h : s.RoutesBounded) (i : Input) :
    Passes s (handleInputChecked w pathOut i) (handleInput w i) := by
  cases i with
  | rx srcMac m =>
    show Passes s _ (handleReceivedMessage w srcMac m)
    rw [← handleReceivedMessageTo_deliver]
    exact passes_handleReceivedMessageTo
  | serial m => exact passes_handleCompleteFrame h
  | _ => exact .lift _ _

end LatticeMesh
