import LatticeMesh.MasterRoutes
import Mathlib.Data.Fintype.Basic

/-!
# The uplink graph of a network

Any number of nodes, one of them the master, each with its own clock, and the copies of beacons that
are in flight between them.  A copy is delivered at any time or lost; everything else that happens
to a node is arbitrary, as long as nobody forges a beacon.  At any moment the next hops of the nodes
make up a graph.

## Main definitions

* `BeaconNet`, `BeaconNet.step` — the network and its steps.
* `BeaconNet.adverts` — the distances under which nodes are known: in flight, waiting to be relayed,
  or in a neighbour table in range.
* `BeaconNet.NoRise` — a beacon does not raise the distance of its receiver above such an advert.
* `BeaconNet.NextHop`, `BeaconNet.Acyclic` — the graph of the next hops.

## Main results

* `BeaconNet.acyclic_run` — **as long as no distance rises above an advert, the graph is acyclic.**
-/

namespace LatticeMesh

open EffectSpec

/-- A copy of a beacon on its way to one receiver. -/
structure BeaconCopy (n : ℕ) where
  receiver : Fin n
  srcMac : Mac
  msg : Message
  deriving DecidableEq

/-- A network of `n` nodes. -/
structure BeaconNet (n : ℕ) where
  nodes : Fin n → Device
  clock : Fin n → UInt64
  air : List (BeaconCopy n)

namespace BeaconNet

variable {n : ℕ}

/-! ### Steps -/

/-- What can happen in a network. -/
inductive Action (n : ℕ)
  /-- A copy arrives. -/
  | deliver (c : BeaconCopy n) (e : Env)
  /-- A copy is lost. -/
  | lose (c : BeaconCopy n)
  /-- Something else happens at a node. -/
  | input (i : Fin n) (e : Env) (x : Input)

/-- What can happen at a node besides the delivery of a beacon: anything but a restart, a change of
the role and a beacon out of nowhere. -/
def isLocal : Input → Bool
  | .boot | .configButton => false
  | .rx _ m => m.messageType ≠ MessageType.masterBeacon
  | _ => true

/-- The beacons that a node transmitted in a step. -/
def newBeacons (d d' : Device) : List (Mac × Message) :=
  (beaconsSent d'.node.trace).take
    ((beaconsSent d'.node.trace).length - (beaconsSent d.node.trace).length)

/-- The copies of a beacon that the node `i` transmits. -/
def copies (i : Fin n) (srcMac : Mac) (m : Message) : List (BeaconCopy n) :=
  ((List.finRange n).filter (· ≠ i)).map fun j => ⟨j, srcMac, m⟩

/-- One node takes a step. -/
def stepNode (b : Fin n → Board) (net : BeaconNet n) (i : Fin n) (e : Env) (x : Input) :
    BeaconNet n :=
  let d' := Device.step (b i) (net.nodes i) (e, x)
  { nodes := Function.update net.nodes i d'
    clock := Function.update net.clock i e.nowMs
    air := net.air ++ (newBeacons (net.nodes i) d').flatMap fun y =>
      copies i (net.nodes i).node.deviceMac y.2 }

/-- The copy can arrive now. -/
def arrives (net : BeaconNet n) (c : BeaconCopy n) (e : Env) : Bool :=
  c ∈ net.air && net.clock c.receiver ≤ e.nowMs

/-- One step of the network.  A copy that is not in flight, an input that is not local and a clock
that runs backwards have no effect. -/
def step (b : Fin n → Board) (net : BeaconNet n) : Action n → BeaconNet n
  | .deliver c e =>
    if net.arrives c e then
      stepNode b { net with air := net.air.erase c } c.receiver e (.rx c.srcMac c.msg)
    else net
  | .lose c => { net with air := net.air.erase c }
  | .input i e x => if isLocal x && net.clock i ≤ e.nowMs then stepNode b net i e x else net

/-- The network after every node booted. -/
def start (b : Fin n → Board) (d : Fin n → Device) (e : Fin n → Env) : BeaconNet n where
  nodes i := Device.step (b i) (d i) (e i, .boot)
  clock i := (e i).nowMs
  air := []

/-! ### Adverts -/

/-- The distances under which a node knows its neighbours, and the one that waits to be relayed. -/
def nodeAdverts (d : Device) (nowMs : UInt64) : List (Mac × UInt8) :=
  if d.status = .running then
    (if d.node.relayPending then
      [(d.node.relayPendingMsg.lastHopMac, d.node.relayPendingMsg.hopCount)] else []) ++
    (d.node.neighbors.toList.filter fun k => k.valid && !k.stale nowMs).map fun k =>
      (k.mac, k.masterDistance)
  else []

/-- The distances under which the nodes are known: in flight, waiting to be relayed, or in a
neighbour table in range. -/
def adverts (net : BeaconNet n) : List (Mac × UInt8) :=
  net.air.map (fun c => (c.msg.lastHopMac, c.msg.hopCount)) ++
    (List.finRange n).flatMap fun j => nodeAdverts (net.nodes j) (net.clock j)

/-- A beacon does not raise the distance of its receiver: it comes from closer than every advert of
the receiver, or another neighbour in range is closer than that. -/
def NoRise (b : Fin n → Board) (net : BeaconNet n) : Action n → Prop
  | .deliver c e =>
    net.arrives c e = true →
    ∀ m ∈ Device.notedBeacon (b c.receiver) (net.nodes c.receiver) (e, .rx c.srcMac c.msg),
    ∀ a ∈ net.adverts, a.1 = (b c.receiver).stationMac →
      m.hopCount < a.2 ∨ ∃ k ∈ (net.nodes c.receiver).node.neighbors.toList,
        (k.valid && k.mac ≠ m.lastHopMac && !k.stale e.nowMs) = true ∧ k.masterDistance < a.2
  | _ => True

instance (b : Fin n → Board) (net : BeaconNet n) (a : Action n) : Decidable (NoRise b net a) := by
  cases a <;> unfold NoRise <;> infer_instance

/-! ### The uplink graph -/

/-- At the given clock readings, the node `j` is the next hop of the node `i` toward the master. -/
def NextHop (b : Fin n → Board) (net : BeaconNet n) (now : Fin n → UInt64) (i j : Fin n) : Prop :=
  (net.nodes i).status = .running ∧ ∃ e : Env, e.nowMs = now i ∧
    chosenHop ((b i).world e) (net.nodes i).node = some (b j).stationMac

/-- From now on until the next step, the graph of the next hops has no cycle. -/
def Acyclic (b : Fin n → Board) (net : BeaconNet n) : Prop :=
  ∀ now, (∀ i, net.clock i ≤ now i) → ∀ i, ¬Relation.TransGen (net.NextHop b now) i i

/-! ### The invariant -/

variable {b : Fin n → Board} {μ : Fin n} {net : BeaconNet n} {i : Fin n}

/-- The distance to the master that a node keeps. -/
def dist (net : BeaconNet n) (i : Fin n) : UInt8 := (net.nodes i).node.currentMaster.distance

/-- The advert is that of a node that is no farther away than advertised. -/
def Backed (b : Fin n → Board) (dist : Fin n → UInt8) (a : Mac × UInt8) : Prop :=
  ∃ i, a.1 = (b i).stationMac ∧ (dist i = 0xFF ∨ dist i ≤ a.2)

/-- What holds of a running node of the network, apart from what it knows of the others. -/
structure NodeInv (b : Board) (master : Mac) (leads : Prop) (d : Device) (clock : UInt64) :
    Prop where
  deviceMac : d.node.deviceMac = b.stationMac
  isMaster : d.node.isMaster = true ↔ leads
  distinct : d.node.neighbors.Distinct
  route : d.node.currentMaster.distance = 0xFF ∨ d.node.currentMaster.mac = master
  earlier : ∀ k ∈ d.node.neighbors.toList, k.valid = true → k.lastSeenMs ≤ clock
  pending : d.node.relayPending = true → d.node.relayPendingMsg.originMac = master

/-- Every beacon is one of the master, which knows no distance, and every advert is backed. -/
structure Inv (b : Fin n → Board) (μ : Fin n) (net : BeaconNet n) : Prop where
  node : ∀ i, (net.nodes i).status = .running →
    NodeInv (b i) (b μ).stationMac (i = μ) (net.nodes i) (net.clock i)
  master : net.dist μ = 0xFF
  air : ∀ c ∈ net.air, c.msg.originMac = (b μ).stationMac
  adverts : ∀ a ∈ net.adverts, Backed b net.dist a

theorem mem_nodeAdverts {d : Device} {now : UInt64} {a : Mac × UInt8} :
    a ∈ nodeAdverts d now ↔ d.status = .running ∧
      (d.node.relayPending = true ∧
          a = (d.node.relayPendingMsg.lastHopMac, d.node.relayPendingMsg.hopCount) ∨
        ∃ k ∈ d.node.neighbors.toList, k.valid = true ∧ k.stale now = false ∧
          a = (k.mac, k.masterDistance)) := by
  unfold nodeAdverts
  split
  · rename_i hs
    simp only [List.mem_append, List.mem_map, List.mem_filter, Bool.and_eq_true, Bool.not_eq_true']
    constructor
    · rintro (h | ⟨k, ⟨hk, hv, hf⟩, rfl⟩)
      · split at h
        · rename_i hp
          exact ⟨hs, .inl ⟨hp, List.mem_singleton.1 h⟩⟩
        · cases h
      · exact ⟨hs, .inr ⟨k, hk, hv, hf, rfl⟩⟩
    · rintro ⟨-, ⟨hp, rfl⟩ | ⟨k, hk, hv, hf, rfl⟩⟩
      · left
        rw [if_pos hp]
        exact List.mem_singleton.2 rfl
      · exact .inr ⟨k, ⟨hk, hv, hf⟩, rfl⟩
  · rename_i hs
    simp [hs]

theorem mem_adverts {a : Mac × UInt8} :
    a ∈ net.adverts ↔ (∃ c ∈ net.air, a = (c.msg.lastHopMac, c.msg.hopCount)) ∨
      ∃ j, a ∈ nodeAdverts (net.nodes j) (net.clock j) := by
  unfold adverts
  simp only [List.mem_append, List.mem_map, List.mem_flatMap, List.mem_finRange, true_and]
  exact or_congr ⟨fun ⟨c, hc, h⟩ => ⟨c, hc, h.symm⟩, fun ⟨c, hc, h⟩ => ⟨c, hc, h.symm⟩⟩ Iff.rfl

/-! ### Acyclicity -/

/-- A next hop is closer to the master, or it has no next hop. -/
theorem Inv.nextHop (h : Inv b μ net) (hmac : Function.Injective fun i => (b i).stationMac)
    {now : Fin n → UInt64} (hnow : ∀ i, net.clock i ≤ now i) {i j : Fin n}
    (hij : net.NextHop b now i j) :
    net.dist i ≠ 0xFF ∧ (net.dist j = 0xFF ∨ net.dist j < net.dist i) := by
  obtain ⟨hrun, e, he, hhop⟩ := hij
  have hi := h.node i hrun
  obtain ⟨hd, hhop⟩ := chosenHop_eq_some hhop
  refine ⟨hd, ?_⟩
  rcases hhop with hdir | hsel
  · -- the master itself, which knows no distance
    have hmaster := hi.route.resolve_left hd
    have hj : j = μ := hmac ((directHop_eq_some hdir).trans hmaster)
    rw [hj]
    exact .inl h.master
  · obtain ⟨k, hk, hkm, -⟩ := NeighborTable.selectNextHop_eq_some hsel
    have hfresh : k.stale (net.clock i) = false := by
      refine NeighborTable.stale_mono hk.fresh (hi.earlier k hk.mem hk.valid) ?_
      rw [show ((b i).world e).nowMs = now i from he]
      exact hnow i
    have hadv : (k.mac, k.masterDistance) ∈ net.adverts :=
      mem_adverts.2 (.inr ⟨i, mem_nodeAdverts.2 ⟨hrun, .inr ⟨k, hk.mem, hk.valid, hfresh, rfl⟩⟩⟩)
    obtain ⟨j', hj', hle⟩ := h.adverts _ hadv
    obtain rfl : j' = j := hmac (hj'.symm.trans hkm)
    exact hle.imp_right fun hle => UInt8.lt_of_le_of_lt hle hk.closer

theorem Inv.acyclic (h : Inv b μ net) (hmac : Function.Injective fun i => (b i).stationMac) :
    Acyclic b net := by
  intro now hnow i hcycle
  have hdown : ∀ k, Relation.TransGen (net.NextHop b now) i k →
      net.dist i ≠ 0xFF ∧ (net.dist k = 0xFF ∨ net.dist k < net.dist i) := by
    intro k hk
    induction hk with
    | single hik => exact h.nextHop hmac hnow hik
    | tail _ hkl ih =>
      obtain ⟨hk, hl⟩ := h.nextHop hmac hnow hkl
      have hki := ih.2.resolve_left hk
      exact ⟨ih.1, hl.imp_right fun hl => UInt8.lt_trans hl hki⟩
  obtain ⟨hne, hlt⟩ := hdown i hcycle
  exact UInt8.lt_irrefl _ (hlt.resolve_left hne)

/-! ### One node -/

theorem newBeacons_eq {d d' : Device} {new : List (Mac × Message)}
    (h : beaconsSent d'.node.trace = new ++ beaconsSent d.node.trace) : newBeacons d d' = new := by
  rw [newBeacons, h, List.length_append, Nat.add_sub_cancel, List.take_left']
  rfl

/-- Whether a neighbour in range, other than the sender of a beacon, is closer than `d`. -/
def CloserThan (s : Node) (m : Message) (nowMs : UInt64) (d : UInt8) : Prop :=
  m.hopCount < d ∨ ∃ k ∈ s.neighbors.toList,
    (k.valid && k.mac ≠ m.lastHopMac && !k.stale nowMs) = true ∧ k.masterDistance < d

/-- What a step of one node means to the network. -/
structure NodeStep (b : Board) (master : Mac) (leads : Prop) (d d' : Device) (clock now : UInt64)
    (noted : Option Message) : Prop where
  inv : d'.status = .running → NodeInv b master leads d' now
  sent : ∀ y ∈ newBeacons d d', y.2.originMac = master ∧
    ((y.2.lastHopMac, y.2.hopCount) ∈ nodeAdverts d clock ∨ leads ∧ y.2.lastHopMac = b.stationMac)
  adverts : ∀ a ∈ nodeAdverts d' now, a ∈ nodeAdverts d clock ∨
    ∃ m ∈ noted, a = (m.lastHopMac, m.hopCount) ∨
      a = (b.stationMac, d'.node.currentMaster.distance)
  dist : d'.node.currentMaster.distance = d.node.currentMaster.distance ∨
    d'.node.currentMaster.distance = 0xFF ∨
    ∃ m ∈ noted, m.originMac ≠ d.node.deviceMac ∧
      ∀ a, CloserThan d.node m now a → d'.node.currentMaster.distance ≤ a

variable {bd : Board} {master : Mac} {leads : Prop} {d d' : Device} {clock now : UInt64}
  {noted : Option Message}

/-- A step in which the node learns nothing new. -/
theorem NodeInv.unlearned (h : NodeInv bd master leads d clock) (hrun : d.status = .running)
    (hnow : clock ≤ now) (hmac : d'.node.deviceMac = d.node.deviceMac)
    (hm : d'.node.isMaster = d.node.isMaster) (hn : d'.node.neighbors = d.node.neighbors)
    (hc : d'.node.currentMaster = d.node.currentMaster ∨ d'.node.currentMaster.distance = 0xFF)
    (hp : d'.node.relayPending = true → d.node.relayPending = true)
    (hpm : d'.node.relayPendingMsg = d.node.relayPendingMsg)
    (hsent : ∀ y ∈ newBeacons d d', y.2.originMac = master ∧
      ((y.2.lastHopMac, y.2.hopCount) ∈ nodeAdverts d clock ∨
        leads ∧ y.2.lastHopMac = bd.stationMac)) :
    NodeStep bd master leads d d' clock now noted := by
  refine ⟨fun _ => ⟨hmac.trans h.deviceMac, by rw [hm]; exact h.isMaster, ?_, ?_, ?_, ?_⟩,
    hsent, ?_, ?_⟩
  · rw [hn]
    exact h.distinct
  · rcases hc with hc | hc
    · rw [hc]
      exact h.route
    · exact .inl hc
  · rw [hn]
    exact fun k hk hv => UInt64.le_trans (h.earlier k hk hv) hnow
  · rw [hpm]
    exact fun hp' => h.pending (hp hp')
  -- an advert is the pending relay or a fresh neighbour, and both were there before
  · intro a ha
    left
    obtain ⟨-, ha⟩ := mem_nodeAdverts.1 ha
    rw [hn, hpm] at ha
    refine mem_nodeAdverts.2 ⟨hrun, ?_⟩
    rcases ha with ⟨hp', ha⟩ | ⟨k, hk, hv, hf, ha⟩
    · exact .inl ⟨hp hp', ha⟩
    · exact .inr ⟨k, hk, hv, NeighborTable.stale_mono hf (h.earlier k hk hv) hnow, ha⟩
  · rcases hc with hc | hc
    · exact .inl (by rw [hc])
    · exact .inr (.inl hc)

/-- A beacon that is taken note of. -/
theorem NodeInv.heard {m : Message} {w : World} (h : NodeInv bd master leads d clock)
    (hrun : d.status = .running) (hnow : clock ≤ w.nowMs) (hheed : heedsBeacon w d.node m = true)
    (horigin : m.originMac = master) (hr : d'.node.routeState = (d.node.heard w m).routeState) :
    NodeStep bd master leads d d' clock w.nowMs (some m) := by
  have hobs := NeighborTable.observed h.distinct m.lastHopMac m.hopCount w.nowMs
  have hn : d'.node.neighbors = (d.node.neighbors.observeAndMinDistance m.lastHopMac m.hopCount
      w.nowMs).2 := (congrArg RelayState.neighbors hr).trans (heard_neighbors w d.node m)
  have hc := (congrArg RelayState.currentMaster hr).trans (heard_currentMaster w d.node m)
  have hmac : d'.node.deviceMac = d.node.deviceMac :=
    (congrArg RelayState.deviceMac hr).trans (heard_deviceMac w d.node m)
  have hsent : beaconsSent d'.node.trace = [] ++ beaconsSent d.node.trace :=
    (congrArg RelayState.beaconsSent hr).trans (heard_beaconsSent w d.node m)
  generalize d.node.neighbors.observeAndMinDistance m.lastHopMac m.hopCount w.nowMs = r
    at hobs hn hc
  have hhops := heedsBeacon_hops hheed
  have hle : r.1.toNat ≤ m.hopCount.toNat := UInt8.le_iff_toNat_le.1 hobs.le
  have hlt : r.1.toNat < maxHops := lt_of_le_of_lt hle hhops
  -- the beacon is within the hop limit, so the new distance is no overflow
  have hdist : d'.node.currentMaster.distance = r.1 + 1 := by
    refine (congrArg MasterInfo.distance hc).trans (if_neg fun hff => ?_)
    rw [hff] at hlt
    exact absurd hlt (by decide)
  have hpend := heard_pending w d.node m
  have hpd : d'.node.relayPending = (d.node.heard w m).relayPending :=
    congrArg RelayState.relayPending hr
  have hpm : d'.node.relayPendingMsg = (d.node.heard w m).relayPendingMsg :=
    congrArg RelayState.relayPendingMsg hr
  have hdist' : (d.node.heard w m).currentMaster.distance = d'.node.currentMaster.distance :=
    (congrArg (fun r => r.currentMaster.distance) hr).symm
  refine ⟨fun _ => ⟨hmac.trans h.deviceMac, ?_, ?_, .inr ?_, fun k hk hv => ?_, fun hp => ?_⟩, ?_,
    fun a ha => ?_, .inr (.inr ⟨m, rfl, ?_, fun a ha => ?_⟩)⟩
  · rw [← h.isMaster, ← heard_isMaster w d.node m]
    exact Iff.of_eq (congrArg (fun r => r.isMaster = true) hr)
  · rw [hn]
    exact hobs.distinct
  · exact (congrArg MasterInfo.mac hc).trans horigin
  -- an entry of the table is the one of this beacon, or an old one
  · rw [hn] at hk
    rcases hobs.entries k hk hv with rfl | ⟨hk, -⟩
    · exact UInt64.le_refl _
    · exact UInt64.le_trans (h.earlier k hk hv) hnow
  · rw [hpd] at hp
    rw [hpm]
    -- the pending relay is the old one, or a copy of this beacon
    rcases hpend with ⟨hp', hm'⟩ | ⟨-, hm'⟩
    · rw [hm']
      exact h.pending (hp'.symm.trans hp)
    · rw [hm']
      exact horigin
  · intro y hy
    rw [newBeacons_eq hsent] at hy
    cases hy
  · obtain ⟨-, ha⟩ := mem_nodeAdverts.1 ha
    rcases ha with ⟨hp, ha⟩ | ⟨k, hk, hv, hf, ha⟩
    · rw [hpd] at hp
      rw [hpm] at ha
      rcases hpend with ⟨hp', hm'⟩ | ⟨-, hm'⟩
      · rw [hm'] at ha
        exact .inl (mem_nodeAdverts.2 ⟨hrun, .inl ⟨hp'.symm.trans hp, ha⟩⟩)
      · -- the relay that is scheduled carries the new distance
        refine .inr ⟨m, rfl, .inr ?_⟩
        rw [ha, hm', ← hdist', ← h.deviceMac]
    · rw [hn] at hk
      rcases hobs.entries k hk hv with rfl | ⟨hk, -⟩
      · exact .inr ⟨m, rfl, .inl ha⟩
      · have hf' := NeighborTable.stale_mono hf (h.earlier k hk hv) hnow
        exact .inl (mem_nodeAdverts.2 ⟨hrun, .inr ⟨k, hk, hv, hf', ha⟩⟩)
  · simp only [heedsBeacon, Bool.and_eq_true, decide_eq_true_eq] at hheed
    exact hheed.1.1.1
  -- the new distance is behind no advert that is closer than the old neighbours
  · have hra : r.1.toNat < a.toNat := by
      rcases ha with ha | ⟨k, hk, hf, ha⟩
      · exact lt_of_le_of_lt hle (UInt8.lt_iff_toNat_lt.1 ha)
      · simp only [Bool.and_eq_true, Bool.not_eq_true', decide_eq_true_eq] at hf
        have hk' := hobs.le_rival k ⟨hk, hf.1.1, hf.1.2, hf.2⟩
        exact lt_of_le_of_lt (UInt8.le_iff_toNat_le.1 hk') (UInt8.lt_iff_toNat_lt.1 ha)
    have h1 : (1 : UInt8).toNat = 1 := rfl
    rw [hdist, UInt8.le_iff_toNat_le, UInt8.toNat_add]
    omega

theorem notedBeacon_of_isLocal {x : Env × Input} (h : isLocal x.2 = true) :
    Device.notedBeacon bd d x = none := by
  obtain ⟨e, i⟩ := x
  cases i with
  | rx srcMac m =>
    have hm : m.messageType ≠ MessageType.masterBeacon := by simpa [isLocal] using h
    exact if_neg fun hc => hm hc.1
  | _ => rfl

/-- One step of a running node. -/
theorem NodeInv.step {e : Env} {x : Input} (h : NodeInv bd master leads d clock)
    (hleads : leads → master = bd.stationMac) (hrun : d.status = .running)
    (hnow : clock ≤ e.nowMs) (hboot : x ≠ .boot) (hbutton : x ≠ .configButton)
    (hnoted : ∀ m ∈ Device.notedBeacon bd d (e, x), m.originMac = master) :
    NodeStep bd master leads d (Device.step bd d (e, x)) clock e.nowMs
      (Device.notedBeacon bd d (e, x)) := by
  have hstep := Device.routeStep (b := bd) (e := e) hboot hrun
  generalize Device.step bd d (e, x) = d' at hstep
  -- a step that leaves the route state alone teaches the node nothing
  have hsame : d'.node.routeState = d.node.routeState →
      NodeStep bd master leads d d' clock e.nowMs (Device.notedBeacon bd d (e, x)) := by
    intro hr
    have hs : beaconsSent d'.node.trace = [] ++ beaconsSent d.node.trace :=
      congrArg RelayState.beaconsSent hr
    refine h.unlearned hrun hnow (congrArg RelayState.deviceMac hr)
      (congrArg RelayState.isMaster hr) (congrArg RelayState.neighbors hr)
      (.inl (congrArg RelayState.currentMaster hr)) ?_ (congrArg RelayState.relayPendingMsg hr) ?_
    · exact fun hp => (congrArg RelayState.relayPending hr).symm.trans hp
    · intro y hy
      rw [newBeacons_eq hs] at hy
      cases hy
  cases hstep with
  | kept hr _ => exact hsame hr
  | @heard m hm hr =>
    have hheed := Device.notedBeacon_eq_some hm
    have horigin : m.originMac = master := hnoted m (Option.mem_def.2 hm)
    have hnow' : clock ≤ (bd.world e).nowMs := hnow
    have hstep : NodeStep bd master leads d d' clock (bd.world e).nowMs (some m) :=
      h.heard hrun hnow' hheed horigin hr
    rw [hm]
    exact hstep
  -- the route that timed out only takes the distance away
  | forgot _ hr =>
    have hs : beaconsSent d'.node.trace = [] ++ beaconsSent d.node.trace :=
      congrArg RelayState.beaconsSent hr
    refine h.unlearned hrun hnow (congrArg RelayState.deviceMac hr)
      (congrArg RelayState.isMaster hr) (congrArg RelayState.neighbors hr)
      (.inr (congrArg (fun r => r.currentMaster.distance) hr)) ?_
      (congrArg RelayState.relayPendingMsg hr) ?_
    · exact fun hp => (congrArg RelayState.relayPending hr).symm.trans hp
    · intro y hy
      rw [newBeacons_eq hs] at hy
      cases hy
  | housekept _ hr =>
    obtain ⟨hrest, hp, new, hs, hnew⟩ := hr
    refine h.unlearned hrun hnow (congrArg RelayState.deviceMac hrest)
      (congrArg RelayState.isMaster hrest) (congrArg RelayState.neighbors hrest)
      (.inl (congrArg RelayState.currentMaster hrest)) hp
      (congrArg RelayState.relayPendingMsg hrest) fun y hy => ?_
    rw [newBeacons_eq hs] at hy
    -- what is sent is the pending relay, or a beacon of the master itself
    rcases hnew y hy with ⟨hp', hy⟩ | ⟨hm', ho, hl, -⟩
    · rw [hy]
      exact ⟨h.pending hp', .inl (mem_nodeAdverts.2 ⟨hrun, .inl ⟨hp', rfl⟩⟩)⟩
    · have hl' := h.isMaster.1 hm'
      refine ⟨?_, .inr ⟨hl', hl.trans h.deviceMac⟩⟩
      rw [hleads hl']
      exact ho.trans h.deviceMac
  | toggled hi _ => exact absurd hi hbutton

/-- A node that does not run is left as it is, and nobody knows anything from it. -/
theorem nodeStep_idle (h : d.status ≠ .running) :
    NodeStep bd master leads d d clock now noted := by
  refine ⟨fun hr => absurd hr h, fun y hy => ?_, fun a ha => ?_, .inl rfl⟩
  · have hnil : beaconsSent d.node.trace = [] ++ beaconsSent d.node.trace := rfl
    rw [newBeacons_eq hnil] at hy
    cases hy
  · exact absurd (mem_nodeAdverts.1 ha).1 h

/-! ### The network -/

/-- In `net'` the node `i` has become `d'`, and its new beacons are in the air. -/
structure Moved (net net' : BeaconNet n) (i : Fin n) (d' : Device) (now : UInt64) : Prop where
  node : net'.nodes i = d'
  clock : net'.clock i = now
  others : ∀ j, j ≠ i → net'.nodes j = net.nodes j ∧ net'.clock j = net.clock j
  air : ∀ c ∈ net'.air, c ∈ net.air ∨ ∃ y ∈ newBeacons (net.nodes i) d', c.msg = y.2

variable {net' : BeaconNet n}

/-- Every advert is an old one, or one of the node that moved: of the master, or at the distance
that the node has now. -/
theorem Moved.adverts (hm : Moved net net' i d' now)
    (hs : NodeStep (b i) master (i = μ) (net.nodes i) d' (net.clock i) now noted)
    (hnoted : ∀ m ∈ noted, (m.lastHopMac, m.hopCount) ∈ net.adverts) :
    ∀ a ∈ net'.adverts, a ∈ net.adverts ∨
      a.1 = (b i).stationMac ∧ (i = μ ∨ a.2 = net'.dist i) := by
  intro a ha
  rcases mem_adverts.1 ha with ⟨c, hc, rfl⟩ | ⟨j, hj⟩
  · rcases hm.air c hc with hc | ⟨y, hy, hcy⟩
    · exact .inl (mem_adverts.2 (.inl ⟨c, hc, rfl⟩))
    · rw [hcy]
      rcases (hs.sent y hy).2 with hold | ⟨hi, hl⟩
      · exact .inl (mem_adverts.2 (.inr ⟨i, hold⟩))
      · exact .inr ⟨hl, .inl hi⟩
  · by_cases hji : j = i
    · rw [hji, hm.node, hm.clock] at hj
      rcases hs.adverts a hj with hold | ⟨m, hmem, rfl | rfl⟩
      · exact .inl (mem_adverts.2 (.inr ⟨i, hold⟩))
      · exact .inl (hnoted m hmem)
      · refine .inr ⟨rfl, .inr ?_⟩
        rw [dist, hm.node]
    · rw [(hm.others j hji).1, (hm.others j hji).2] at hj
      exact .inl (mem_adverts.2 (.inr ⟨j, hj⟩))

/-- A step of one node keeps the invariant. -/
theorem Inv.moved (h : Inv b μ net) (hm : Moved net net' i d' now)
    (hs : NodeStep (b i) (b μ).stationMac (i = μ) (net.nodes i) d' (net.clock i) now noted)
    (hnoted : ∀ m ∈ noted, (net.nodes i).status = .running ∧
      m.originMac = (b μ).stationMac ∧ (m.lastHopMac, m.hopCount) ∈ net.adverts ∧
        ∀ a ∈ net.adverts, a.1 = (b i).stationMac → CloserThan (net.nodes i).node m now a.2) :
    Inv b μ net' := by
  have hdist : net'.dist i = d'.node.currentMaster.distance := by rw [dist, hm.node]
  have hother : ∀ j, j ≠ i → net'.dist j = net.dist j := fun j hj => by
    rw [dist, (hm.others j hj).1, ← dist]
  -- the master hears no beacon but its own, so it never gets a distance
  have hmaster : net'.dist μ = 0xFF := by
    by_cases hi : μ = i
    · subst hi
      rw [hdist]
      rcases hs.dist with hd | hd | ⟨m, hmem, hne, -⟩
      · rw [hd]
        exact h.master
      · exact hd
      · obtain ⟨hrun, ho, -⟩ := hnoted m hmem
        exact absurd (ho.trans (h.node μ hrun).deviceMac.symm) hne
    · rw [hother μ hi]
      exact h.master
  refine ⟨fun j hrun => ?_, hmaster, fun c hc => ?_, fun a ha => ?_⟩
  · by_cases hj : j = i
    · subst hj
      rw [hm.node] at hrun ⊢
      rw [hm.clock]
      exact hs.inv hrun
    · obtain ⟨hn, hc⟩ := hm.others j hj
      rw [hn] at hrun ⊢
      rw [hc]
      exact h.node j hrun
  · rcases hm.air c hc with hc | ⟨y, hy, hcy⟩
    · exact h.air c hc
    · rw [hcy]
      exact (hs.sent y hy).1
  -- an old advert of the node that moved is behind the distance it has now
  · rcases hm.adverts hs (fun m hmem => (hnoted m hmem).2.2.1) a ha with hold | ⟨hmac, hi | hd⟩
    · obtain ⟨j, hj, hle⟩ := h.adverts a hold
      refine ⟨j, hj, ?_⟩
      by_cases hji : j = i
      · subst hji
        rw [hdist]
        rcases hs.dist with hd | hd | ⟨m, hmem, -, hcloser⟩
        · rw [hd]
          exact hle
        · exact .inl hd
        · exact .inr (hcloser a.2 ((hnoted m hmem).2.2.2 a hold hj))
      · rw [hother j hji]
        exact hle
    · exact ⟨i, hmac, .inl (hi ▸ hmaster)⟩
    · exact ⟨i, hmac, .inr (hd ▸ UInt8.le_refl _)⟩

theorem moved_stepNode {air : List (BeaconCopy n)} (hair : ∀ c ∈ air, c ∈ net.air) (e : Env)
    (x : Input) : Moved net (stepNode b { net with air := air } i e x) i
      (Device.step (b i) (net.nodes i) (e, x)) e.nowMs := by
  refine ⟨Function.update_self _ _ _, Function.update_self _ _ _, fun j hj =>
    ⟨Function.update_of_ne hj _ _, Function.update_of_ne hj _ _⟩, fun c hc => ?_⟩
  rcases List.mem_append.1 hc with hc | hc
  · exact .inl (hair c hc)
  · obtain ⟨y, hy, hc⟩ := List.mem_flatMap.1 hc
    obtain ⟨j, -, rfl⟩ := List.mem_map.1 hc
    exact .inr ⟨y, hy, rfl⟩

/-- A step of one node that is no restart and no change of its role. -/
theorem Inv.nodeStep (h : Inv b μ net) {e : Env} {x : Input} (hclock : net.clock i ≤ e.nowMs)
    (hboot : x ≠ .boot) (hbutton : x ≠ .configButton)
    (horigin : ∀ m ∈ Device.notedBeacon (b i) (net.nodes i) (e, x),
      m.originMac = (b μ).stationMac) :
    NodeStep (b i) (b μ).stationMac (i = μ) (net.nodes i)
      (Device.step (b i) (net.nodes i) (e, x)) (net.clock i) e.nowMs
      (if (net.nodes i).status = .running then Device.notedBeacon (b i) (net.nodes i) (e, x)
        else none) := by
  by_cases hrun : (net.nodes i).status = .running
  · rw [if_pos hrun]
    exact (h.node i hrun).step (fun hi => by rw [hi]) hrun hclock hboot hbutton horigin
  · rw [if_neg hrun, Device.step_ignored hboot hrun]
    exact nodeStep_idle hrun

/-- One step of the network keeps the invariant, unless it raises a distance above an advert. -/
theorem Inv.step (h : Inv b μ net) {a : Action n} (hrise : NoRise b net a) :
    Inv b μ (net.step b a) := by
  cases a with
  | deliver c e =>
    show Inv b μ (if net.arrives c e then _ else net)
    split
    swap
    · exact h
    rename_i harr
    obtain ⟨hc, hclock⟩ : c ∈ net.air ∧ net.clock c.receiver ≤ e.nowMs := by
      simpa [arrives] using harr
    -- the beacon that is taken note of is the copy that arrives
    have hmsg : ∀ m ∈ Device.notedBeacon (b c.receiver) (net.nodes c.receiver)
        (e, .rx c.srcMac c.msg), m = c.msg := by
      intro m hm
      unfold Device.notedBeacon at hm
      dsimp only at hm
      split at hm
      · exact (Option.some.inj hm).symm
      · cases hm
    have hns := h.nodeStep (i := c.receiver) (x := .rx c.srcMac c.msg) hclock (by simp) (by simp)
      fun m hm => by rw [hmsg m hm]; exact h.air c hc
    refine h.moved (moved_stepNode (fun c' hc' => List.mem_of_mem_erase hc') e _) hns fun m hm => ?_
    split at hm
    · rename_i hrun
      refine ⟨hrun, ?_, ?_, fun a ha hmac => hrise harr m hm a ha hmac⟩
      · rw [hmsg m hm]
        exact h.air c hc
      · rw [hmsg m hm]
        exact mem_adverts.2 (.inl ⟨c, hc, rfl⟩)
    · cases hm
  | lose c =>
    -- fewer copies are in the air, and nothing else is different
    refine ⟨h.node, h.master, fun c' hc' => h.air c' (List.mem_of_mem_erase hc'), fun a ha => ?_⟩
    refine h.adverts a (mem_adverts.2 ((mem_adverts.1 ha).imp_left ?_))
    exact fun ⟨c', hc', hca⟩ => ⟨c', List.mem_of_mem_erase hc', hca⟩
  | input i e x =>
    show Inv b μ (if (isLocal x && net.clock i ≤ e.nowMs) = true then _ else net)
    split
    swap
    · exact h
    rename_i hok
    obtain ⟨hlocal, hclock⟩ : isLocal x = true ∧ net.clock i ≤ e.nowMs := by simpa using hok
    have hnone : Device.notedBeacon (b i) (net.nodes i) (e, x) = none :=
      notedBeacon_of_isLocal hlocal
    have hboot : x ≠ .boot := by
      rintro rfl
      cases hlocal
    have hbutton : x ≠ .configButton := by
      rintro rfl
      cases hlocal
    have hns := h.nodeStep hclock hboot hbutton fun m hm => by rw [hnone] at hm; cases hm
    refine h.moved (moved_stepNode (fun c hc => hc) e x) hns fun m hm => ?_
    rw [hnone, ite_self] at hm
    cases hm

/-- The network after every node booted. -/
theorem inv_start {d : Fin n → Device} {e : Fin n → Env}
    (hmaster : ∀ i, ((start b d e).nodes i).node.isMaster = true ↔ i = μ) :
    Inv b μ (start b d e) := by
  have hl : ∀ i, ((start b d e).nodes i).node.relayState.learned = _ := fun i =>
    Device.boot_learned (b := b i) (d := d i) (e := e i)
  have hnb : ∀ i, ((start b d e).nodes i).node.neighbors = NeighborTable.empty := fun i =>
    congrArg Learned.neighbors (hl i)
  have hcm : ∀ i, ((start b d e).nodes i).node.currentMaster = {} := fun i =>
    congrArg Learned.currentMaster (hl i)
  have hp : ∀ i, ((start b d e).nodes i).node.relayPending = false := fun i =>
    congrArg Learned.relayPending (hl i)
  refine ⟨fun i hrun => ⟨?_, hmaster i, ?_, .inl ?_, fun k hk hv => ?_, fun hpi => ?_⟩, ?_,
    by simp [start], fun a ha => ?_⟩
  · have hst := Device.stepTo (b i) (d i) (e i) .boot
    have hrun : (Device.step (b i) (d i) (e i, .boot)).status = .running := hrun
    show (Device.step (b i) (d i) (e i, .boot)).node.deviceMac = _
    generalize Device.step (b i) (d i) (e i, .boot) = d' at hst hrun
    cases hst with
    | booted hb => exact hb.deviceMac
    | bootHalted => cases hrun
    | ignored hi | ran hi | halted hi => exact absurd rfl hi
  · rw [hnb]
    exact NeighborTable.distinct_empty
  · rw [hcm]
  · rw [hnb] at hk
    rw [NeighborTable.not_valid_of_mem_empty hk] at hv
    cases hv
  · rw [hp] at hpi
    cases hpi
  · rw [dist, hcm]
  -- nothing is in the air, pending or in a table, so nothing is advertised
  · rcases mem_adverts.1 ha with ⟨c, hc, -⟩ | ⟨j, hj⟩
    · cases hc
    · obtain ⟨-, ⟨hpj, -⟩ | ⟨k, hk, hv, -⟩⟩ := mem_nodeAdverts.1 hj
      · rw [hp] at hpj
        cases hpj
      · rw [hnb] at hk
        rw [NeighborTable.not_valid_of_mem_empty hk] at hv
        cases hv

/-- **As long as no beacon raises a distance above an advert that still stands, the next hops of the
nodes never make up a cycle**, whatever the order of originations, deliveries, losses and relays and
whatever the clocks. -/
theorem acyclic_run {d : Fin n → Device} {e : Fin n → Env} {as : List (Action n)}
    (hmac : Function.Injective fun i => (b i).stationMac)
    (hmaster : ∀ i, ((start b d e).nodes i).node.isMaster = true ↔ i = μ)
    (hrise : Runs.Along (step b) (NoRise b) (start b d e) as) :
    Acyclic b (Runs.run (step b) (start b d e) as) :=
  (Runs.run_invariant (I := Inv b μ) (inv_start hmaster) (fun _ _ h hc => h.step hc) hrise).acyclic
    hmac

end BeaconNet

namespace Sample

/-- The boards of five stations, the first of which is the master's. -/
def stations (i : Fin 5) : Board :=
  { board with stationMac := mac (if i = 0 then 7 else UInt8.ofNat i.val) }

/-- The five stations after they booted. -/
def fiveNodes : BeaconNet 5 :=
  BeaconNet.start stations
    (fun i => Device.blank { masterFlag := if i = 0 then some 1 else none }) fun _ => env 1 100

theorem beaconFlag_length : [(1 : UInt8)].length = 1 := rfl

theorem beaconFlag_le : 0 + 1 ≤ 64 := by decide

/-- A beacon of the master as it is originated. -/
def originBeacon (seqNum : UInt16) : Message :=
  { frame 7 MessageType.masterBeacon 1 seqNum with
    dataType := AdapterType.unknown
    data := Bytes.blit (Bytes.zero 64) 0 (Bytes.ofList [1] beaconFlag_length) beaconFlag_le }

/-- The beacon as the station `via` relays it. -/
def beaconVia (seqNum : UInt16) (via : UInt8) (hopCount : UInt8) : Message :=
  { originBeacon seqNum with lastHopMac := mac via, hopCount := hopCount }

/-- A round of the main loop at the given time. -/
def loopAt (i : Fin 5) (nowMs : UInt64) : BeaconNet.Action 5 := .input i (env 1 nowMs) .loop

/-- A copy of a beacon arrives at the given time. -/
def hears (i : Fin 5) (m : Message) (nowMs : UInt64) : BeaconNet.Action 5 :=
  .deliver ⟨i, m.lastHopMac, m⟩ (env 1 nowMs)

/-- A first beacon makes its way from the master by the station 1 to the station 2. -/
def firstBeacon : List (BeaconNet.Action 5) :=
  [loopAt 0 3100, hears 1 (originBeacon 1) 3100, loopAt 1 3110, hears 2 (beaconVia 1 1 1) 3110]

/-- Eight seconds later the station 1 no longer hears the master, and the next beacon takes the long
way by the stations 3, 4 and 2. -/
def secondBeacon : List (BeaconNet.Action 5) :=
  [loopAt 0 11070, hears 3 (originBeacon 2) 11070, loopAt 3 11080, hears 4 (beaconVia 2 3 1) 11080,
    loopAt 4 11090, hears 2 (beaconVia 2 4 2) 11090, loopAt 2 11100,
    hears 1 (beaconVia 2 2 2) 11100]

end Sample

namespace BeaconNet

set_option maxRecDepth 100000 in
/-- No distance rises while the first beacon is on its way. -/
theorem acyclic_firstBeacon :
    Acyclic Sample.stations
      (Runs.run (step Sample.stations) Sample.fiveNodes Sample.firstBeacon) :=
  acyclic_run (μ := 0) (by decide +kernel) (by decide +kernel) (by decide +kernel)

/-- **The station 1 takes the station 2 for its next hop, and the station 2 the station 1**: the
second beacon raised the distance of the station 1 from 1 to 3, while the table of the station 2
still holds it at 1. -/
theorem not_acyclic_secondBeacon :
    Function.Injective (fun i => (Sample.stations i).stationMac) ∧
      (∀ i, (Sample.fiveNodes.nodes i).node.isMaster = true ↔ i = 0) ∧
      ¬Acyclic Sample.stations (Runs.run (step Sample.stations) Sample.fiveNodes
        (Sample.firstBeacon ++ Sample.secondBeacon)) := by
  refine ⟨by decide +kernel, by decide +kernel, fun h => ?_⟩
  have h12 : NextHop Sample.stations (Runs.run (step Sample.stations) Sample.fiveNodes
      (Sample.firstBeacon ++ Sample.secondBeacon)) (fun _ => 11100) 1 2 :=
    ⟨by decide +kernel, Sample.env 1 11100, rfl, by decide +kernel⟩
  have h21 : NextHop Sample.stations (Runs.run (step Sample.stations) Sample.fiveNodes
      (Sample.firstBeacon ++ Sample.secondBeacon)) (fun _ => 11100) 2 1 :=
    ⟨by decide +kernel, Sample.env 1 11100, rfl, by decide +kernel⟩
  exact h (fun _ => 11100) (by decide +kernel) 1 (.tail (.single h12) h21)

end BeaconNet

end LatticeMesh
