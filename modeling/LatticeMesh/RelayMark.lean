import LatticeMesh.LocalRoute
import LatticeMesh.MasterRoutes
import LatticeMesh.Lib.HighWater

/-!
# Which beacons are relayed

A node relays a beacon that is newer than the last one it relayed.  Beacons are numbered by their
origin, but there is one mark for all origins, so a master with small numbers is not relayed while
another one has larger numbers.

## Main definitions

* `Node.relayMark` — the number of the last beacon that was relayed.
* `BeaconRun.FreshFromOrigin` — a beacon is newer than every accepted one of its origin.
* `BeaconRun.Relays` — a beacon that is accepted and fresh is scheduled for relay.
* `BeaconRun.Unshadowed` — such a beacon is newer than every accepted one of another origin, too.

## Main results

* `Marked.heard` — the mark is the greatest number of all accepted beacons.
* `BeaconRun.relays_iff` — **every fresh beacon of a run is relayed if and only if each is newer
  than the beacons of the other origins.**
-/

namespace LatticeMesh

open HighWater

/-- The number of the last beacon that was relayed. -/
def Node.relayMark (s : Node) : ℕ := stampOf s.txState.lastRelayedEpoch s.txState.lastRelayedSeqNum

/-- The beacon `m` waits to be relayed, with the distance and the address of this node. -/
def Node.Scheduled (s : Node) (m : Message) : Prop :=
  s.relayPending = true ∧
    s.relayPendingMsg = { m with hopCount := s.distance, lastHopMac := s.deviceMac }

instance (s : Node) (m : Message) : Decidable (s.Scheduled m) :=
  inferInstanceAs (Decidable (_ ∧ _))

namespace BeaconRun

/-- The beacon `m` is newer than every accepted one of its origin. -/
def FreshFromOrigin (r : BeaconRun) (m : Message) : Prop :=
  ∀ m' ∈ r.accepted, m'.originMac = m.originMac →
    newer m.epochNum m.seqNum m'.epochNum m'.seqNum = true

instance (r : BeaconRun) (m : Message) : Decidable (FreshFromOrigin r m) :=
  inferInstanceAs (Decidable (∀ m' ∈ r.accepted, _))

/-- A beacon that is accepted and newer than every accepted one of its origin is scheduled for
relay. -/
def Relays (b : Board) (r : BeaconRun) (x : Env × BeaconCall) : Prop :=
  ∀ m ∈ Device.acceptedBeacon b r.device x, r.FreshFromOrigin m →
    (step b r x).device.node.Scheduled m

instance (b : Board) (r : BeaconRun) (x : Env × BeaconCall) : Decidable (Relays b r x) :=
  inferInstanceAs (Decidable (∀ m ∈ Device.acceptedBeacon b r.device x, _))

/-- Such a beacon is newer than every accepted one of another origin, too, and not numbered zero. -/
def Unshadowed (b : Board) (r : BeaconRun) (x : Env × BeaconCall) : Prop :=
  ∀ m ∈ Device.acceptedBeacon b r.device x, r.FreshFromOrigin m →
    newer m.epochNum m.seqNum 0 0 = true ∧
      ∀ m' ∈ r.accepted, m'.originMac ≠ m.originMac →
        newer m.epochNum m.seqNum m'.epochNum m'.seqNum = true

instance (b : Board) (r : BeaconRun) (x : Env × BeaconCall) : Decidable (Unshadowed b r x) :=
  inferInstanceAs (Decidable (∀ m ∈ Device.acceptedBeacon b r.device x, _))

end BeaconRun

/-! ### The mark -/

/-- The mark of a leaf is the greatest number of the beacons that were accepted, and the beacon that
waits to be relayed is one of them. -/
structure Marked (s : Node) (accepted : List Message) : Prop where
  role : s.isMaster = false
  mark : MarkOf (accepted.map Message.stamp ++ [0]) (some s.relayMark)
  pending : s.relayPending = true → ∃ m' ∈ accepted,
    m'.originMac = s.relayPendingMsg.originMac ∧ m'.stamp = s.relayPendingMsg.stamp

variable {w : World} {s t : Node} {accepted : List Message} {m : Message}

/-- The mark is a part of the route state. -/
theorem relayMark_congr {r : RelayState} (ht : t.routeState = r)
    (he : r.lastRelayedEpoch = s.txState.lastRelayedEpoch)
    (hs : r.lastRelayedSeqNum = s.txState.lastRelayedSeqNum) : t.relayMark = s.relayMark := by
  have he' : t.txState.lastRelayedEpoch = r.lastRelayedEpoch :=
    congrArg RelayState.lastRelayedEpoch ht
  have hs' : t.txState.lastRelayedSeqNum = r.lastRelayedSeqNum :=
    congrArg RelayState.lastRelayedSeqNum ht
  unfold Node.relayMark
  rw [he', hs', he, hs]

theorem Marked.congr (h : Marked s accepted) (hr : t.routeState = s.routeState) :
    Marked t accepted := by
  have hrole : t.isMaster = s.isMaster := congrArg RelayState.isMaster hr
  have hmark : t.relayMark = s.relayMark := relayMark_congr hr rfl rfl
  have hp : t.relayPending = s.relayPending := congrArg RelayState.relayPending hr
  have hm : t.relayPendingMsg = s.relayPendingMsg := congrArg RelayState.relayPendingMsg hr
  exact ⟨hrole.trans h.role, by rw [hmark]; exact h.mark, by rw [hp, hm]; exact h.pending⟩

/-- A beacon above the mark is scheduled, and becomes the mark. -/
theorem heard_of_newer (hrole : s.isMaster = false) (hlt : s.relayMark < m.stamp) :
    (s.heard w m).Scheduled m ∧ (s.heard w m).relayMark = m.stamp := by
  have hnew : newer m.epochNum m.seqNum s.txState.lastRelayedEpoch s.txState.lastRelayedSeqNum
      = true := newer_iff_stampOf.2 hlt
  unfold Node.heard Node.scheduleRelay
  rw [if_neg (by simp [OutboundSequenceState.wasRelayedBefore, Node.noteBeacon, hrole, hnew])]
  exact ⟨⟨rfl, rfl⟩, rfl⟩

/-- A beacon that is not above the mark schedules nothing. -/
theorem heard_of_not_newer (hge : m.stamp ≤ s.relayMark) :
    (s.heard w m).relayPending = s.relayPending ∧
      (s.heard w m).relayPendingMsg = s.relayPendingMsg ∧
      (s.heard w m).relayMark = s.relayMark := by
  have hold : newer m.epochNum m.seqNum s.txState.lastRelayedEpoch s.txState.lastRelayedSeqNum
      = false := by
    rw [← Bool.not_eq_true, newer_iff_stampOf]
    exact not_lt.2 hge
  unfold Node.heard Node.scheduleRelay
  rw [if_pos (by simp [OutboundSequenceState.wasRelayedBefore, Node.noteBeacon, hold])]
  exact ⟨rfl, rfl, rfl⟩

/-- **The mark is the greatest number of all accepted beacons.** -/
theorem Marked.heard (h : Marked s accepted) (w : World) (m : Message) :
    Marked (s.heard w m) (m :: accepted) := by
  have hrole : (s.heard w m).isMaster = false := (heard_isMaster w s m).trans h.role
  have hmark := h.mark.seen m.stamp
  unfold HighWater.next at hmark
  by_cases hlt : s.relayMark < m.stamp
  · obtain ⟨hsched, hm⟩ := heard_of_newer (w := w) h.role hlt
    rw [if_pos (passes_some.2 hlt)] at hmark
    refine ⟨hrole, by rw [hm]; exact hmark, fun _ => ⟨m, List.mem_cons_self, ?_⟩⟩
    rw [hsched.2]
    exact ⟨rfl, rfl⟩
  · obtain ⟨hp, hpm, hm⟩ := heard_of_not_newer (w := w) (not_lt.1 hlt)
    rw [if_neg fun hpass => hlt (passes_some.1 hpass)] at hmark
    refine ⟨hrole, by rw [hm]; exact hmark, fun hpend => ?_⟩
    rw [hpm]
    obtain ⟨m', hm', h'⟩ := h.pending (hp ▸ hpend)
    exact ⟨m', List.mem_cons_of_mem m hm', h'⟩

/-- A beacon that is fresh from its origin is scheduled exactly if it is above the mark. -/
theorem Marked.scheduled_iff {r : BeaconRun} (h : Marked s r.accepted) (hf : r.FreshFromOrigin m) :
    (s.heard w m).Scheduled m ↔ s.relayMark < m.stamp := by
  constructor
  · intro hsched
    by_contra hge
    obtain ⟨hp, hpm, -⟩ := heard_of_not_newer (w := w) (not_lt.1 hge)
    obtain ⟨m', hm', horigin, hstamp⟩ := h.pending (hp ▸ hsched.1)
    -- the beacon that waits already would be an older copy of this one
    rw [← hpm, hsched.2] at horigin hstamp
    have hnew := newer_iff_stampOf.1 (hf m' hm' horigin)
    exact absurd hnew (not_lt.2 (le_of_eq hstamp.symm))
  · exact fun hlt => (heard_of_newer h.role hlt).1

namespace BeaconRun

variable {b : Board} {r : BeaconRun} {x : Env × BeaconCall}

/-- Every call keeps the mark. -/
theorem marked_step (h : Marked r.device.node r.accepted) (x : Env × BeaconCall) :
    Marked (step b r x).device.node (step b r x).accepted := by
  have hmove := Device.beaconMove b r.device x
  show Marked (Device.beaconCall b r.device x).node
    ((Device.acceptedBeacon b r.device x).toList ++ r.accepted)
  generalize Device.beaconCall b r.device x = d' at hmove
  cases hmove with
  | kept hr hn =>
    rw [hn]
    exact h.congr hr
  | heard hm hr =>
    rw [hm]
    exact (h.heard _ _).congr hr
  | forgot hn _ _ hr =>
    rw [hn]
    have hrole : d'.node.isMaster = r.device.node.isMaster := congrArg RelayState.isMaster hr
    have hmark : d'.node.relayMark = r.device.node.relayMark := relayMark_congr hr rfl rfl
    have hp : d'.node.relayPending = r.device.node.relayPending :=
      congrArg RelayState.relayPending hr
    have hm : d'.node.relayPendingMsg = r.device.node.relayPendingMsg :=
      congrArg RelayState.relayPendingMsg hr
    exact ⟨hrole.trans h.role, by rw [hmark]; exact h.mark, by rw [hp, hm]; exact h.pending⟩

/-- In one call, a fresh beacon is relayed if and only if nothing shadows it. -/
theorem relays_step_iff (h : Marked r.device.node r.accepted) :
    Relays b r x ↔ Unshadowed b r x := by
  refine forall₂_congr fun m hm => forall_congr' fun hf => ?_
  have hmove := Device.beaconMove b r.device x
  -- what the step schedules is decided by what was heard
  have hsched : (step b r x).device.node.Scheduled m ↔
      (r.device.node.heard (b.world x.1) m).Scheduled m := by
    show (Device.beaconCall b r.device x).node.Scheduled m ↔ _
    generalize Device.beaconCall b r.device x = d' at hmove
    cases hmove with
    | kept _ hn => rw [hn] at hm; cases hm
    | forgot hn => rw [hn] at hm; cases hm
    | heard hm' hr =>
      obtain rfl := Option.some.inj (hm'.symm.trans hm)
      have hp : d'.node.relayPending = _ := congrArg RelayState.relayPending hr
      have hpm : d'.node.relayPendingMsg = _ := congrArg RelayState.relayPendingMsg hr
      have hd : d'.node.distance = _ :=
        congrArg (fun r : RelayState => r.currentMaster.distance) hr
      have hmac : d'.node.deviceMac = _ := congrArg RelayState.deviceMac hr
      unfold Node.Scheduled
      rw [hp, hpm, hd, hmac]
      rfl
  rw [hsched, h.scheduled_iff hf, ← passes_some, h.mark.passes_iff]
  -- the marks of other origins count too, since there is one mark for all
  constructor
  · intro hall
    refine ⟨newer_iff_stampOf.2 (hall 0 (by simp)), fun m' hm' _ => newer_iff_stampOf.2 ?_⟩
    exact hall _ (List.mem_append_left _ (List.mem_map_of_mem hm'))
  · rintro ⟨hzero, hother⟩ y hy
    rcases List.mem_append.1 hy with hy | hy
    · obtain ⟨m', hm', rfl⟩ := List.mem_map.1 hy
      by_cases horigin : m'.originMac = m.originMac
      · exact newer_iff_stampOf.1 (hf m' hm' horigin)
      · exact newer_iff_stampOf.1 (hother m' hm' horigin)
    · rw [List.mem_singleton.1 hy]
      exact newer_iff_stampOf.1 hzero

/-- **Every fresh beacon of a run is relayed if and only if each is newer than the beacons of the
other origins.**  The run starts at a leaf that has relayed nothing since its boot. -/
theorem relays_iff {d : Device} (hrole : d.node.isMaster = false) (hmark : d.node.relayMark = 0)
    (hidle : d.node.relayPending = false) {xs : List (Env × BeaconCall)} :
    Runs.Along (step b) (Relays b) { device := d } xs ↔
      Runs.Along (step b) (Unshadowed b) { device := d } xs := by
  have hstart : Marked d.node [] := by
    refine ⟨hrole, ?_, fun hp => ?_⟩
    · rw [hmark]
      exact markOf_singleton 0
    · rw [hidle] at hp
      cases hp
  exact Runs.along_congr (I := fun r : BeaconRun => Marked r.device.node r.accepted) hstart
    (fun r x _ h _ => marked_step h x) fun r x _ h => relays_step_iff h

end BeaconRun

namespace Sample

/-- A leaf in a deployment with two masters, after its boot. -/
def dualLeaf : Device := Device.step twoMasters (Device.blank {}) (env 1 100, .boot)

/-- A beacon of the master `n`. -/
def numbered (n : UInt8) (epochNum : UInt32) (seqNum : UInt16) : Message :=
  frame n MessageType.masterBeacon epochNum seqNum

/-- The two masters take turns, the first one in its fifth epoch and the second one in its
`epochNum`-th. -/
def takeTurns (epochNum : UInt32) : List (Env × BeaconCall) :=
  [(env 1 200, .process (numbered 7 5 1)), (env 1 300, .process (numbered 8 epochNum 1))]

end Sample

namespace BeaconRun

/-- The second master has the larger numbers: both beacons are relayed. -/
theorem relays_takeTurns :
    Runs.Along (step Sample.twoMasters) (Relays Sample.twoMasters) { device := Sample.dualLeaf }
      (Sample.takeTurns 6) :=
  (relays_iff (by decide +kernel) (by decide +kernel) (by decide +kernel)).2 (by decide +kernel)

/-- **The second master has the smaller numbers**: its first beacon is accepted and not relayed. -/
theorem not_relays_takeTurns :
    let r := Runs.run (step Sample.twoMasters) { device := Sample.dualLeaf } (Sample.takeTurns 2)
    r.device.status = .running ∧ r.device.node.isMaster = false ∧
      r.device.node.dualMasterMode = true ∧
      r.accepted = [Sample.numbered 8 2 1, Sample.numbered 7 5 1] ∧
      r.device.node.relayPendingMsg.originMac = Sample.mac 7 ∧
      ¬Runs.Along (step Sample.twoMasters) (Relays Sample.twoMasters) { device := Sample.dualLeaf }
        (Sample.takeTurns 2) := by
  decide +kernel

end BeaconRun

end LatticeMesh
