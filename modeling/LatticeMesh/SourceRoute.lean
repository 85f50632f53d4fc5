import LatticeMesh.Mesh
import LatticeMesh.RouteChain

/-!
# Delivery along a source route

A master that knows the relays of a node sends a frame back along them: it reverses the recorded
path into the source route, every relay on it finds itself and passes the frame to the one behind
it, and the last one passes it to the node.

## Main definitions

* `SendsOn` — a program that hands a frame to the radio for a given next hop.
* `DownlinkReady` — what a master needs to send a sealed frame to a node.
* `Travels` — the way of a frame from hop to hop.

## Main results

* `path_withReversedRoute` — the source route is the recorded path in reverse.
* `routeDecision_on_route` — a relay on the route passes the frame to the hop behind it.
* `travels` — a frame visits the hops of its route in order.
* `downlink_delivered` — **a frame for a recorded node visits the reversed path, arrives after as
  many hops, and opens to the payload that the server submitted.**
-/

namespace LatticeMesh

open EffectSpec

variable {w : World} {s : Node} {m : Message}

/-! ### The reversed route -/

/-- Writing some slots of a route, each once. -/
theorem routeHop_foldl_setRouteHop {n : ℕ} (h : n ≤ maxHops) (f : Fin n → Mac) {l : List (Fin n)}
    (hl : l.Nodup) (route : RoutePath) (j : Fin n) :
    routeHop (l.foldl (fun r i => setRouteHop r (i.castLE h) (f i)) route) (j.castLE h) =
      if j ∈ l then f j else routeHop route (j.castLE h) := by
  induction l generalizing route with
  | nil => rfl
  | cons i l ih =>
    obtain ⟨hi, hl⟩ := List.nodup_cons.1 hl
    rw [List.foldl_cons, ih hl]
    by_cases hj : j ∈ l
    · rw [if_pos hj, if_pos (List.mem_cons_of_mem i hj)]
    · rw [if_neg hj]
      by_cases hij : j = i
      · rw [hij, routeHop_setRouteHop, if_pos List.mem_cons_self]
      · rw [if_neg (by simp [hij, hj]), routeHop_setRouteHop_of_ne]
        exact fun he => hij (Fin.castLE_injective h he).symm

/-- The source route is the recorded path in reverse. -/
theorem path_withReversedRoute (m : Message) (path : RoutePath) {pathLen : UInt8}
    (h : pathLen.toNat ≤ maxHops) : (withReversedRoute m path pathLen h).path =
      (((List.finRange maxHops).take pathLen.toNat).map (routeHop path)).reverse := by
  have hlen : (withReversedRoute m path pathLen h).path.length = pathLen.toNat :=
    Message.path_length h
  have hrec : (((List.finRange maxHops).take pathLen.toNat).map (routeHop path)).length =
      pathLen.toNat := by
    rw [List.length_map, List.length_take, List.length_finRange]
    exact min_eq_left h
  refine List.ext_getElem (by rw [hlen, List.length_reverse, hrec]) fun j hj _ => ?_
  rw [hlen] at hj
  have hget := (withReversedRoute m path pathLen h).path_getElem? ⟨j, by omega⟩
  rw [if_pos (show j < (withReversedRoute m path pathLen h).routeLen.toNat from hj)] at hget
  rw [(List.getElem_eq_iff _).2 hget, List.getElem_reverse, List.getElem_map, List.getElem_take,
    List.getElem_finRange]
  have hfold := routeHop_foldl_setRouteHop h (fun i => routeHop path (i.rev.castLE h))
    (List.nodup_finRange pathLen.toNat) m.routePath ⟨j, hj⟩
  rw [if_pos (List.mem_finRange _)] at hfold
  refine hfold.trans (congrArg (routeHop path) (Fin.ext ?_))
  show pathLen.toNat - (j + 1) = _
  simp only [hrec, Fin.val_cast]
  omega

/-! ### The relays -/

/-- A relay finds itself on the route, and behind it the next hop or the target. -/
theorem find_on_route {pre post : List Mac} {hop : Mac} (hp : m.path = pre ++ hop :: post)
    (hnd : m.path.Nodup) (hlen : m.routeLen.toNat ≤ maxHops) :
    ∃ i : Fin maxHops, i.val = pre.length ∧
      (m.hopIndices.find? fun i => m.hop i = hop) = some i ∧
      nextOnRoute m i = post.headD m.targetMac := by
  have hroute : m.routeLen.toNat = pre.length + (post.length + 1) := by
    rw [← Message.path_length hlen, hp, List.length_append, List.length_cons]
  have hi : pre.length < maxHops := by omega
  have hidx : ∀ j (hj : j < m.hopIndices.length), m.hopIndices[j] = ⟨j, by
      rw [Message.hopIndices, List.length_take, List.length_finRange] at hj; omega⟩ := by
    intro j hj
    simp [Message.hopIndices]
  have hhop : ∀ j (hj : j < maxHops), j < m.routeLen.toNat → m.path[j]? = some (m.hop ⟨j, hj⟩) :=
    fun j hj hlt => (m.path_getElem? ⟨j, hj⟩).trans (if_pos hlt)
  have hself : m.hop ⟨pre.length, hi⟩ = hop := by
    have hat := hhop pre.length hi (by omega)
    rw [hp, List.getElem?_append_right (le_refl _), Nat.sub_self, List.getElem?_cons_zero] at hat
    exact (Option.some.inj hat).symm
  -- the relay is at its place in the path, and at no earlier one, since no hop comes twice
  refine ⟨⟨pre.length, hi⟩, rfl, ?_, ?_⟩
  · have hin : pre.length < m.hopIndices.length := by
      rw [Message.hopIndices, List.length_take, List.length_finRange]
      omega
    refine List.find?_eq_some_iff_getElem.2 ⟨by simpa using hself, pre.length, hin, hidx _ hin, ?_⟩
    intro j hj
    rw [hidx j (by omega)]
    have hat := hhop j (by omega) (by omega)
    rw [hp, List.getElem?_append_left hj, List.getElem?_eq_getElem hj] at hat
    have hne : hop ∉ pre := by
      rw [hp] at hnd
      intro hin
      exact (List.nodup_append.1 hnd).2.2 hop hin hop List.mem_cons_self rfl
    have hj' : m.hop ⟨j, by omega⟩ ≠ hop := by
      rw [← Option.some.inj hat]
      rintro rfl
      exact hne (List.getElem_mem hj)
    simpa using hj'
  -- behind the last hop comes the target
  · unfold nextOnRoute
    cases post with
    | nil =>
      rw [dif_neg (by simp only [List.length_nil] at hroute; show ¬(_ ∧ pre.length + 1 < _); omega)]
      rfl
    | cons next post =>
      rw [List.length_cons] at hroute
      have hlt : pre.length + 1 < maxHops ∧ pre.length + 1 < m.routeLen.toNat := by omega
      rw [dif_pos hlt]
      have hat := hhop (pre.length + 1) hlt.1 hlt.2
      rw [hp, List.getElem?_append_right (by omega), Nat.add_sub_cancel_left,
        List.getElem?_cons_succ, List.getElem?_cons_zero] at hat
      exact (Option.some.inj hat).symm

/-- A relay that is neither a master nor the target, and does not take the target for its master. -/
structure RelaysFor (s : Node) (target : Mac) : Prop where
  leaf : s.isMaster = false
  other : target ≠ s.deviceMac
  master : (s.enrollment.hasMasterMac && target = s.currentMaster.mac) = false

/-- A relay on the route passes the frame to the hop behind it, before the hop limit. -/
theorem routeDecision_on_route {pre post : List Mac} (hs : RelaysFor s m.targetMac)
    (hb : m.targetMac ≠ broadcastMac) (hp : m.path = pre ++ s.deviceMac :: post)
    (hnd : m.path.Nodup) (hlen : m.routeLen.toNat ≤ maxHops) (hh : m.hopCount.toNat = pre.length) :
    s.routeDecision m = .forwardOnRoute (post.headD m.targetMac) := by
  obtain ⟨i, hi, hfind, hnext⟩ := find_on_route hp hnd hlen
  have hroute : m.routeLen.toNat = pre.length + (post.length + 1) := by
    rw [← Message.path_length hlen, hp, List.length_append, List.length_cons]
  have hpos : 0 < m.routeLen := by
    rw [UInt8.lt_iff_toNat_lt, hroute]
    exact Nat.succ_pos _
  have hmaster : s.addressedToMaster m = false := hs.master
  unfold Node.routeDecision classify
  rw [if_neg (by simp [hs.leaf, hs.other, hb]), if_neg (by simp [hmaster]),
    if_pos ⟨hpos, hlen⟩, hfind]
  dsimp only
  rw [if_neg (by have := i.isLt; omega), hnext]

/-! ### The way of a frame -/

/-- Run from `s`, the program comes down to sending the frame `m` to `hop`. -/
def SendsOn (w : World) (s : Node) (x : MeshM Unit) (hop : Mac) (m : Message) : Prop :=
  ∃ t, x s = (do registerDownlinkPeer w hop; sendMessage w hop m s.deviceMac) t

/-- A frame that is to be forwarded is sent on with one hop more. -/
theorem sendsOn_forward {hop : Mac} (h : s.routeDecision m = .forwardOnRoute hop) :
    SendsOn w s (processAdapterData w m) hop m.forwarded := by
  refine ⟨s, ?_⟩
  show routeAdapterData w m _ _ (s.routeDecision m) s = _
  rw [h]
  rfl

/-- A frame that was sent to `hop` visits the given hops and arrives as `m'` at `dest`; the node
`nodeAt mac` is the one that receives what is sent to `mac`. -/
inductive Travels (nodeAt : Mac → Node) (dest : Mac) : Mac → Message → List Mac → Message → Prop
  | arrive (m : Message) : Travels nodeAt dest dest m [] m
  | forward {hop next : Mac} {m m' : Message} {visited : List Mac}
      (hd : (nodeAt hop).routeDecision m = .forwardOnRoute next)
      (hs : ∀ w, SendsOn w (nodeAt hop) (processAdapterData w m) next m.forwarded)
      (h : Travels nodeAt dest next m.forwarded visited m') :
      Travels nodeAt dest hop m (hop :: visited) m'

/-- **A frame visits the hops of its route in order**, then the target. -/
theorem travels {nodeAt : Mac → Node} {pre post : List Mac} (hp : m.path = pre ++ post)
    (hnd : m.path.Nodup) (hlen : m.routeLen.toNat ≤ maxHops) (hb : m.targetMac ≠ broadcastMac)
    (hh : m.hopCount.toNat = pre.length)
    (hn : ∀ hop ∈ m.path, (nodeAt hop).deviceMac = hop ∧ RelaysFor (nodeAt hop) m.targetMac) :
    ∃ m', Travels nodeAt m.targetMac (post.headD m.targetMac) m post m' ∧
      m' = { m with hopCount := m'.hopCount } ∧ m'.hopCount.toNat = m.path.length := by
  induction post generalizing pre m with
  | nil =>
    refine ⟨m, .arrive m, rfl, ?_⟩
    rw [hh, hp, List.append_nil]
  | cons hop post ih =>
    obtain ⟨hdev, hrelay⟩ := hn hop (by rw [hp]; exact List.mem_append_right _ List.mem_cons_self)
    have hdec : (nodeAt hop).routeDecision m = .forwardOnRoute (post.headD m.targetMac) :=
      routeDecision_on_route hrelay hb (by rw [hdev]; exact hp) hnd hlen hh
    have hlt : pre.length < maxHops := by
      have := Message.path_length hlen
      rw [hp, List.length_append, List.length_cons] at this
      omega
    have hcount : m.forwarded.hopCount.toNat = (pre ++ [hop]).length := by
      simp only [maxHops] at hlt
      show (m.hopCount + 1).toNat = _
      rw [UInt8.toNat_add, hh, List.length_append, List.length_singleton]
      show (pre.length + 1) % 256 = _
      omega
    obtain ⟨m', ht, hm', hc⟩ := ih (m := m.forwarded)
      (show m.path = (pre ++ [hop]) ++ post by rw [hp, List.append_assoc]; rfl)
      hnd hlen hb hcount hn
    exact ⟨m', .forward hdec (fun w => sendsOn_forward hdec) ht, hm', hc⟩

/-! ### From the master to the node -/

/-- What a master needs to send a sealed frame to a node: the frame is built, passes the seal guard,
and is sealed with the keys of the node. -/
structure DownlinkReady (w : World) (s s₁ : Node) (target : Mac) (type : AdapterType)
    (data : Payload) (built sealedFrame : Message) (keys : E2EKeys) : Prop where
  isMaster : s.isMaster = true
  isBuilt : buildMessage w type data MessageType.adapterData s = .ok built s₁
  isGuarded : s₁.txState.sealAdvances built.epochNum built.seqNum = true
  hasKeys : s₁.keysOf w.crypto target = some keys
  isSealed : sealPayload w.crypto keys.kDown { built with targetMac := target } = some sealedFrame

section

variable {s₁ : Node} {target : Mac} {type : AdapterType} {data : Payload}
  {built sealedFrame : Message} {keys : E2EKeys}

theorem DownlinkReady.built_eq (h : DownlinkReady w s s₁ target type data built sealedFrame keys) :
    built = builtMessage s.drawn type data MessageType.adapterData s.drawn.txState.txSeqNum ∧
      s₁ = s.drawn.emit (.built built) := by
  have hd : Does w s (.transmit type data) s
      (buildMessage w type data MessageType.adapterData) _ := does_buildMessage (.inr rfl)
  exact (wp_ok h.isBuilt hd).2

theorem Node.drawn_routes (s : Node) : s.drawn.routes = s.routes := by
  unfold Node.drawn Node.savedEpoch
  split
  · split <;> rfl
  · rfl

/-- The master sends the sealed frame along the reversed path. -/
theorem sendsOn_downlink (h : DownlinkReady w s s₁ target type data built sealedFrame keys)
    {routes : RouteTable} {path : RoutePath} {pathLen : UInt8} (hr : s.routes = some routes)
    (hl : routes.lookup target = some (path, pathLen)) (hpos : 0 < pathLen)
    (hlen : pathLen.toNat ≤ maxHops) :
    SendsOn w s (sendDownlinkToNode w target type data)
      ((withReversedRoute sealedFrame path pathLen hlen).hop ⟨0, by decide⟩)
      (withReversedRoute sealedFrame path pathLen hlen) := by
  obtain ⟨hb, hs₁⟩ := h.built_eq
  have htarget : sealedFrame.targetMac = target := by
    obtain ⟨_, -, hs⟩ := Option.map_eq_some_iff.1 h.isSealed
    rw [← hs]
  -- up to the routing decision: the guard passes, the keys are found, the frame is sealed
  have hseal : ∃ t : Node, t.routes = s.routes ∧ t.deviceMac = s.deviceMac ∧
      sendDownlinkToNode w target type data s = routeDownlink w sealedFrame t := by
    have hguard : wp (checkEpochRollback w built.epochNum built.seqNum) (fun _ t =>
        t.routes = s.routes ∧ t.deviceMac = s.deviceMac ∧ t.keysOf w.crypto target = some keys)
        (fun _ _ => False) s₁ := by
      unfold checkEpochRollback
      rw [wp_bind, wp_get, if_pos h.isGuarded, wp_bind, wp_modify, wp_emit]
      refine ⟨?_, ?_, h.hasKeys⟩
      · rw [hs₁]
        exact s.drawn_routes
      · rw [hs₁]
        exact s.drawn_sameDevice.deviceMac
    obtain ⟨_, t, hg, htr, htd, htk⟩ := exists_ok hguard
    have hkeys : wp (peerE2EKeys w target) (fun r u => r = some keys ∧ u.routes = s.routes ∧
        u.deviceMac = s.deviceMac) (fun _ _ => False) t := by
      refine wp_mono _ (fun r u hu => ⟨hu.1.trans htk, ?_⟩) (fun _ _ hno => ?_) wp_peerE2EKeys
      · rcases hu.2 with rfl | ⟨_, -, rfl⟩ <;> exact ⟨htr, htd⟩
      · rw [htk] at hno
        cases hno
    obtain ⟨_, u, hu, rfl, hur, hud⟩ := exists_ok hkeys
    refine ⟨u.emit (.sealed keys.kDown { built with targetMac := target }), hur, hud, ?_⟩
    show (if _ then _ else _ : MeshM Unit) s = _
    rw [if_neg (by simp [h.isMaster]), bind_ok h.isBuilt]
    show (checkEpochRollback w built.epochNum built.seqNum >>= fun _ => _) s₁ = _
    rw [bind_ok hg, bind_ok hu]
    simp only [h.isSealed]
    rfl
  -- the path is still recorded for the target, so the frame goes out with it reversed
  obtain ⟨t, htr, htd, heq⟩ := hseal
  refine ⟨t, heq.trans ?_⟩
  have hlook : (t.routes.bind fun routes => routes.lookup sealedFrame.targetMac) =
      some (path, pathLen) := by
    rw [htr, hr, htarget]
    exact hl
  unfold routeDownlink
  rw [bind_ok (x := get) (s := t) rfl, hlook]
  dsimp only
  rw [if_pos hpos, dif_neg (by simpa [downlinkRouteLenExceedsMaxHops] using hlen), htd]

/-- A frame that carries what was sealed for this node opens to what was submitted. -/
theorem openDownlink_relayed {r : Message} {k : E2EKeys}
    (h : sealPayload w.crypto keys.kDown m = some sealedFrame) (hr : Message.RelayOf sealedFrame r)
    (hopens : w.crypto.OpensSealed) (hk : s.masterKeys w.crypto = some k)
    (hkey : k.kDown = keys.kDown) :
    ∃ t, openDownlink w r s = .ok (some { r with data := m.data }) t := by
  have hopen : openPayload w.crypto k.kDown r = some { r with data := m.data } := by
    have ho := openPayload_of_relay hr (openPayload_sealPayload hopens h)
    rw [hkey]
    exact ho
  have hwp : wp (openDownlink w r) (fun x _ => x = some { r with data := m.data })
      (fun _ _ => False) s := by
    unfold openDownlink
    rw [wp_bind]
    refine wp_mono _ (fun x t hx => ?_) (fun _ _ hf => hf) (wp_masterE2EKeys hk)
    obtain ⟨rfl, -⟩ := hx
    dsimp only
    unfold openWith
    rw [hopen]
    rfl
  obtain ⟨_, t, ht, rfl⟩ := exists_ok hwp
  exact ⟨t, ht⟩

/-- **A frame for a node whose path is recorded is delivered along the path.**  The master sends it
with the reversed path as its source route to the first hop of that route; it visits exactly those
hops and then the node, where it arrives after as many hops and opens, under the key for downlink
frames, to the payload that the server submitted. -/
theorem downlink_delivered {w' : World} {routes : RouteTable} {path : RoutePath} {pathLen : UInt8}
    {relays : List Mac} {nodeAt : Mac → Node} {k : E2EKeys}
    (h : DownlinkReady w s s₁ target type data built sealedFrame keys)
    (hr : s.routes = some routes) (hl : routes.lookup target = some (path, pathLen))
    (hrelays : ((List.finRange maxHops).take pathLen.toNat).map (routeHop path) = relays)
    (hpos : 1 ≤ pathLen.toNat) (hlen : pathLen.toNat ≤ maxHops) (hnd : relays.Nodup)
    (htarget : target ∉ relays) (hmaster : s.deviceMac ∉ relays) (hb : target ≠ broadcastMac)
    (hn : ∀ hop ∈ relays, (nodeAt hop).deviceMac = hop ∧ (nodeAt hop).isMaster = false ∧
      ((nodeAt hop).enrollment.hasMasterMac && target = (nodeAt hop).currentMaster.mac) = false)
    (hdev : (nodeAt target).deviceMac = target) (hc : w'.crypto = w.crypto)
    (hopens : w.crypto.OpensSealed) (hk : (nodeAt target).masterKeys w.crypto = some k)
    (hkey : k.kDown = keys.kDown) :
    ∃ frame first, SendsOn w s (sendDownlinkToNode w target type data) first frame ∧
      frame.path = relays.reverse ∧ relays.reverse.head? = some first ∧ first ≠ s.deviceMac ∧
      ∃ arrived, Travels nodeAt target first frame relays.reverse arrived ∧
        arrived.hopCount.toNat = relays.length ∧
        (nodeAt target).routeDecision arrived = .notRouted ∧
        ∃ t, openDownlink w' arrived (nodeAt target) =
          .ok (some { arrived with data := data }) t := by
  obtain ⟨hb₁, -⟩ := h.built_eq
  obtain ⟨⟨cipher, tag⟩, -, hsealed⟩ := Option.map_eq_some_iff.1 h.isSealed
  set frame := withReversedRoute sealedFrame path pathLen hlen with hframe
  have hpath : frame.path = relays.reverse := by
    rw [← hrelays]
    exact path_withReversedRoute sealedFrame path hlen
  have hft : frame.targetMac = target := by
    show sealedFrame.targetMac = target
    rw [← hsealed]
  -- a frame starts its way without hops
  have hcount : frame.hopCount.toNat = 0 := by
    show sealedFrame.hopCount.toNat = 0
    rw [← hsealed, hb₁]
    rfl
  have hpos' : 0 < pathLen := by
    rw [UInt8.lt_iff_toNat_lt]
    exact hpos
  have hfirst : relays.reverse.head? = some (frame.hop ⟨0, by decide⟩) := by
    have hget := frame.path_getElem? ⟨0, by decide⟩
    rw [if_pos (show 0 < frame.routeLen.toNat from hpos), hpath] at hget
    rw [List.head?_eq_getElem?]
    exact hget
  have hin : frame.hop ⟨0, by decide⟩ ∈ relays :=
    List.mem_reverse.1 (List.mem_of_mem_head? hfirst)
  -- every hop is a relay for this target
  have hrelay : ∀ hop ∈ frame.path,
      (nodeAt hop).deviceMac = hop ∧ RelaysFor (nodeAt hop) frame.targetMac := by
    intro hop hhop
    rw [hpath] at hhop
    obtain ⟨hd, hleaf, hm⟩ := hn hop (List.mem_reverse.1 hhop)
    refine ⟨hd, hleaf, ?_, by rw [hft]; exact hm⟩
    rw [hd, hft]
    rintro rfl
    exact htarget (List.mem_reverse.1 hhop)
  have hsplit : frame.path = [] ++ relays.reverse := hpath
  obtain ⟨arrived, htravel, harr, hac⟩ := travels hsplit
    (by rw [hpath]; exact List.nodup_reverse.2 hnd) hlen (by rw [hft]; exact hb) hcount hrelay
  refine ⟨frame, _, sendsOn_downlink h hr hl hpos' hlen, hpath, hfirst, ?_, arrived, ?_, ?_, ?_, ?_⟩
  · rintro he
    exact hmaster (he ▸ hin)
  · have hhead : relays.reverse.headD frame.targetMac = frame.hop ⟨0, by decide⟩ := by
      rw [List.headD_eq_head?_getD, hfirst]
      rfl
    rw [← hhead, ← hft]
    exact htravel
  · rw [hac, hpath, List.length_reverse]
  · have hself : arrived.targetMac = (nodeAt target).deviceMac := by
      rw [harr, hdev]
      exact hft
    unfold Node.routeDecision classify
    rw [if_pos (by simp [hself])]
  -- the frame that arrives opens as the one that was sealed does
  · have hrel : Message.RelayOf sealedFrame arrived := by
      rw [harr]
      rfl
    have hdata : ({ built with targetMac := target } : Message).data = data := by rw [hb₁]; rfl
    have ho : ∃ t, openDownlink w' arrived (nodeAt target) = .ok (some { arrived with
        data := ({ built with targetMac := target } : Message).data }) t :=
      openDownlink_relayed (by rw [hc]; exact h.isSealed) hrel (by rw [hc]; exact hopens)
        (by rw [hc]; exact hk) hkey
    rwa [hdata] at ho

end

namespace Sample

/-- The relays 2 and 3 as a recorded path. -/
def recordedPath : RoutePath := mac 2 ++ mac 3 ++ Bytes.zero 36

/-- The table of routes in which the leaf 1 is recorded behind the relays 2 and 3. -/
def recordedRoutes : RouteTable := RouteTable.empty.record (mac 1) recordedPath 2 50

/-- The master that recorded the path of the leaf 1. -/
def recordingMaster : Node := { masterNode [1, 2, 3] with routes := some recordedRoutes }

/-- The frame that the master builds for the leaf 1. -/
def builtDownlink : Message :=
  builtMessage recordingMaster.drawn AdapterType.serial (Bytes.zero 64) MessageType.adapterData
    recordingMaster.drawn.txState.txSeqNum

/-- That frame with its payload sealed for the leaf 1. -/
def sealedDownlink : Message :=
  { builtDownlink with
    targetMac := mac 1
    data := builtDownlink.data.map (· ^^^ (sharedKeys 1).kDown.head)
    authTag := tag (sharedKeys 1).kDown (buildNonce builtDownlink) builtDownlink.data }

end Sample

set_option maxRecDepth 100000 in
/-- A frame for the leaf 1 travels by way of the relays 3 and 2. -/
theorem downlink_delivered_two_relays : ∃ frame first,
    SendsOn Sample.meshWorld Sample.recordingMaster (sendDownlinkToNode Sample.meshWorld
      (Sample.mac 1) AdapterType.serial (Bytes.zero 64)) first frame ∧
    frame.path = [Sample.mac 3, Sample.mac 2] ∧ some (Sample.mac 3) = some first ∧
    first ≠ Sample.mac 7 ∧
    ∃ arrived, Travels (fun m => Sample.leafNode m.head) (Sample.mac 1) first frame
        [Sample.mac 3, Sample.mac 2] arrived ∧
      arrived.hopCount.toNat = 2 ∧
      (Sample.leafNode 1).routeDecision arrived = .notRouted ∧
      ∃ t, openDownlink Sample.meshWorld arrived (Sample.leafNode 1) =
        .ok (some { arrived with data := Bytes.zero 64 }) t := by
  have hready : DownlinkReady Sample.meshWorld Sample.recordingMaster
      (Sample.recordingMaster.drawn.emit (.built Sample.builtDownlink)) (Sample.mac 1)
      AdapterType.serial (Bytes.zero 64) Sample.builtDownlink Sample.sealedDownlink
      (Sample.sharedKeys 1) := ⟨rfl, rfl, by decide, by decide, rfl⟩
  have hlook : Sample.recordedRoutes.lookup (Sample.mac 1) = some (Sample.recordedPath, 2) := by
    decide
  have hpath : ((List.finRange maxHops).take (2 : UInt8).toNat).map
      (routeHop Sample.recordedPath) = [Sample.mac 2, Sample.mac 3] := by decide
  refine downlink_delivered hready rfl hlook hpath (by decide) (by decide) (by decide) (by decide)
    (by decide) (by decide) ?_ rfl rfl Sample.opensSealed (k := Sample.sharedKeys 1) ?_ rfl
  · intro hop hin
    simp only [List.mem_cons, List.not_mem_nil, or_false] at hin
    rcases hin with rfl | rfl <;> exact ⟨rfl, rfl, by decide⟩
  · decide

end LatticeMesh
