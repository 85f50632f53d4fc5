import LatticeMesh.BeaconSteps
import LatticeMesh.NeighborScan

/-!
# The route of one node

The distance to the master is computed when a beacon is heard, from the neighbours that are fresh at
that moment.  Neighbours then grow stale one by one, with nothing to update the distance, until the
master itself has been silent for longer than any neighbour stays fresh.

## Main definitions

* `BeaconCall`, `BeaconRun` — calls of the beacon logic, and a run of them with its clock and the
  beacons that were accepted.
* `LocalRoute` — the distance is in bounds, the next hop lies exactly one hop closer, and without a
  route there is no fresh neighbour.
* `HopFound` — there is a next hop, and the distance was computed without an overflow.

## Main results

* `Settled.step` — every call keeps the invariant between the distance and the neighbours.
* `BeaconRun.localRoute` — **the route is as it should be at any time in any run, and a beacon that
  is accepted finds a next hop.**
-/

namespace LatticeMesh

open EffectSpec NeighborTable

/-! ### Calls of the beacon logic -/

/-- A call of the beacon logic: a received beacon, or the check for a silent master. -/
inductive BeaconCall
  | process (msg : Message)
  | checkTimeout
  deriving DecidableEq

/-- What a call does. -/
def BeaconCall.call (w : World) : BeaconCall → MeshM Unit
  | .process m => processBeacon w m
  | .checkTimeout => LatticeMesh.checkTimeout w

namespace Device

/-- A running device calls the beacon logic. -/
def beaconCall (b : Board) (d : Device) (x : Env × BeaconCall) : Device :=
  if d.status = .running then ofResult (x.2.call (b.world x.1) d.node) else d

/-- The beacon that is accepted in a call. -/
def acceptedBeacon (b : Board) (d : Device) : Env × BeaconCall → Option Message
  | (e, .process m) =>
    if d.status = .running ∧ heedsBeacon (b.world e) d.node m = true ∧
        (beaconCall b d (e, .process m)).status = .running then some m
    else none
  | _ => none

end Device

/-- A run of such calls: the device, the time of the last call, and the beacons that were accepted,
newest first. -/
structure BeaconRun where
  device : Device
  clockMs : UInt64 := 0
  accepted : List Message := []

namespace BeaconRun

variable {b : Board} {r : BeaconRun} {x : Env × BeaconCall}

/-- One call. -/
def step (b : Board) (r : BeaconRun) (x : Env × BeaconCall) : BeaconRun where
  device := Device.beaconCall b r.device x
  clockMs := x.1.nowMs
  accepted := (Device.acceptedBeacon b r.device x).toList ++ r.accepted

/-- The clock does not run backwards. -/
def Steady (r : BeaconRun) (x : Env × BeaconCall) : Prop := r.clockMs ≤ x.1.nowMs

instance (r : BeaconRun) (x : Env × BeaconCall) : Decidable (Steady r x) :=
  inferInstanceAs (Decidable (_ ≤ _))

end BeaconRun

/-- What one call does to the route state. -/
inductive BeaconMove (b : Board) (d : Device) (x : Env × BeaconCall) (d' : Device) : Prop
  | kept (h : d'.node.routeState = d.node.routeState) (hn : Device.acceptedBeacon b d x = none) :
      BeaconMove b d x d'
  | heard {m : Message} (hm : Device.acceptedBeacon b d x = some m)
      (h : d'.node.routeState = (d.node.heard (b.world x.1) m).routeState) : BeaconMove b d x d'
  | forgot (hn : Device.acceptedBeacon b d x = none)
      (hsilent : x.1.nowMs - d.node.beacon.lastMasterBeaconReceivedMs > staleMasterThresholdMs)
      (hroute : d.node.currentMaster.distance ≠ 0xFF)
      (h : d'.node.routeState = { d.node.routeState with
        currentMaster := ⟨zeroMac, 0xFF⟩, lastMasterBeaconReceivedMs := 0 }) : BeaconMove b d x d'

theorem Device.acceptedBeacon_eq_some {b : Board} {d : Device} {x : Env × BeaconCall} {m : Message}
    (h : acceptedBeacon b d x = some m) :
    x.2 = .process m ∧ d.status = .running ∧ heedsBeacon (b.world x.1) d.node m = true := by
  obtain ⟨e, c⟩ := x
  cases c with
  | process m' =>
    unfold acceptedBeacon at h
    dsimp only at h
    split at h
    · rename_i hc
      rw [← Option.some.inj h]
      exact ⟨rfl, hc.1, hc.2.1⟩
    · cases h
  | checkTimeout => cases h

/-- **What one call does to the route state.** -/
theorem Device.beaconMove (b : Board) (d : Device) (x : Env × BeaconCall) :
    BeaconMove b d x (beaconCall b d x) := by
  obtain ⟨e, c⟩ := x
  by_cases hs : d.status = .running
  · have hcall : beaconCall b d (e, c) = ofResult (c.call (b.world e) d.node) := if_pos hs
    cases c with
    | process m =>
      have hwp := wp_processBeacon_routeState (w := b.world e) (s := d.node) (m := m)
      -- a call runs to its end or halts
      have hres : (∃ t, processBeacon (b.world e) m d.node = .ok () t ∧
          beaconCall b d (e, .process m) = ⟨t, .running⟩) ∨
          ∃ h t, processBeacon (b.world e) m d.node = .error h t ∧
            beaconCall b d (e, .process m) = ⟨t, .halted h⟩ := by
        rw [hcall]
        unfold BeaconCall.call
        dsimp only
        cases processBeacon (b.world e) m d.node with
        | ok a t => exact .inl ⟨t, rfl, rfl⟩
        | error h t => exact .inr ⟨h, t, rfl, rfl⟩
      rcases hres with ⟨t, hres, hd'⟩ | ⟨h, t, hres, hd'⟩
      · have ht := wp_ok hres hwp
        by_cases hheed : heedsBeacon (b.world e) d.node m = true
        · rw [if_pos hheed] at ht
          have hacc : acceptedBeacon b d (e, .process m) = some m :=
            if_pos ⟨hs, hheed, by rw [hd']⟩
          rw [hd']
          exact .heard hacc ht
        · rw [if_neg hheed] at ht
          rw [hd']
          exact .kept ht (if_neg fun h => hheed h.2.1)
      -- a call that halts is not counted as accepted
      · have hacc : acceptedBeacon b d (e, .process m) = none :=
          if_neg fun h => by
            rw [hd'] at h
            cases h.2.2
        have ht := wp_error hres hwp
        rw [hd']
        exact .kept ht hacc
    -- the timeout: no route, a master that is heard, or one that is forgotten
    | checkTimeout =>
      rw [hcall]
      show BeaconMove b d _ ⟨_, .running⟩
      dsimp only
      split
      · exact .kept rfl rfl
      rename_i hroute
      split
      · rename_i hsilent
        rw [Bool.or_eq_true, not_or] at hroute
        exact .forgot rfl hsilent (by simpa using hroute.2) rfl
      · exact .kept rfl rfl
  -- a device that does not run ignores calls
  · have hcall : beaconCall b d (e, c) = d := if_neg hs
    rw [hcall]
    refine .kept rfl ?_
    cases hacc : acceptedBeacon b d (e, c) with
    | none => rfl
    | some m => exact absurd (acceptedBeacon_eq_some hacc).2.1 hs

/-! ### Distance and neighbours -/

/-- The distance to the master that a node keeps. -/
def Node.distance (s : Node) : UInt8 := s.currentMaster.distance

/-- The route of a node, as far as it can be told at the time `now`: the distance is in bounds, the
next hop is exactly one hop closer, as close as any neighbour that is still fresh, and without a
route no neighbour is fresh. -/
structure LocalRoute (s : Node) (now : UInt64) : Prop where
  bounds : s.distance ≠ 0xFF → 1 ≤ s.distance.toNat ∧ s.distance.toNat ≤ maxHops
  hop : ∀ mac, s.neighbors.selectNextHop s.distance now = some mac →
    ∃ e, FreshIn s.neighbors now e ∧ e.mac = mac ∧
      e.masterDistance.toNat + 1 = s.distance.toNat ∧
      s.neighbors.minFreshDistance now = e.masterDistance
  lost : s.distance = 0xFF → ∀ e ∈ s.neighbors.toList, e.valid = true → e.stale now = true

/-- There is a next hop, and the distance is one more than the smallest fresh distance, with nothing
lost in the addition. -/
structure HopFound (s : Node) (now : UInt64) : Prop where
  isSome : (s.neighbors.selectNextHop s.distance now).isSome = true
  distance : s.distance.toNat = (s.neighbors.minFreshDistance now).toNat + 1

/-- The distance of a node that has heard its master, given the time when it did. -/
structure Routed (s : Node) (heardAt clock : UInt64) : Prop where
  heardAt_le : heardAt ≤ clock
  earlier : ∀ e ∈ s.neighbors.toList, e.valid = true → e.lastSeenMs ≤ heardAt
  pos : 1 ≤ s.distance.toNat
  le : s.distance.toNat ≤ maxHops
  least : ∀ e, FreshIn s.neighbors heardAt e → s.distance.toNat ≤ e.masterDistance.toNat + 1

/-- The invariant between the distance and the neighbours. -/
structure Settled (s : Node) (clock : UInt64) : Prop where
  packed : Packed s.neighbors
  routed : s.distance ≠ 0xFF → Routed s s.beacon.lastMasterBeaconReceivedMs clock
  earlier : ∀ e ∈ s.neighbors.toList, e.valid = true → e.lastSeenMs ≤ clock
  lost : s.distance = 0xFF → ∀ e ∈ s.neighbors.toList, e.valid = true → e.stale clock = true

variable {s t : Node} {clock now : UInt64}

/-- An entry that is stale stays stale. -/
theorem stale_of_le {e : Entry} (h : e.stale clock = true) (hle : e.lastSeenMs ≤ clock)
    (hnow : clock ≤ now) : e.stale now = true := by
  by_contra hno
  rw [Bool.not_eq_true] at hno
  rw [stale_mono hno hle hnow] at h
  cases h

/-- The invariant says what the route is at any later time. -/
theorem Settled.route (h : Settled s clock) (hnow : clock ≤ now) : LocalRoute s now := by
  have hlost : s.distance = 0xFF → ∀ e ∈ s.neighbors.toList, e.valid = true →
      e.stale now = true := fun hd e he hv =>
    stale_of_le (h.lost hd e he hv) (h.earlier e he hv) hnow
  refine ⟨fun hd => ⟨(h.routed hd).pos, (h.routed hd).le⟩, fun mac hsel => ?_, hlost⟩
  obtain ⟨e, he, hmac, -⟩ := selectNextHop_eq_some hsel
  have hfresh : FreshIn s.neighbors now e := ⟨he.mem, he.valid, he.fresh⟩
  by_cases hd : s.distance = 0xFF
  · have hstale := hlost hd e he.mem he.valid
    rw [he.fresh] at hstale
    cases hstale
  have hr := h.routed hd
  -- what is fresh now was fresh when the distance was computed
  have hleast : ∀ e', FreshIn s.neighbors now e' →
      s.distance.toNat ≤ e'.masterDistance.toNat + 1 := by
    intro e' he'
    refine hr.least e' ⟨he'.mem, he'.valid, ?_⟩
    exact stale_mono he'.fresh (hr.earlier e' he'.mem he'.valid)
      (UInt64.le_trans hr.heardAt_le hnow)
  have hcloser : e.masterDistance.toNat < s.distance.toNat := UInt8.lt_iff_toNat_lt.1 he.closer
  have hexact : e.masterDistance.toNat + 1 = s.distance.toNat := by
    have := hleast e hfresh
    omega
  refine ⟨e, hfresh, hmac, hexact, ?_⟩
  refine (minFreshDistance_isLeast s.neighbors now).unique ⟨fun e' he' => ?_, .inr ⟨e, hfresh, rfl⟩⟩
  have := hleast e' he'
  exact UInt8.le_iff_toNat_le.2 (by omega)

/-- The invariant is about the route state alone. -/
theorem Settled.congr (h : Settled s clock) (ht : t.routeState = s.routeState) :
    Settled t clock := by
  have hn : t.neighbors = s.neighbors := congrArg RelayState.neighbors ht
  have hd : t.distance = s.distance :=
    congrArg (fun r : RelayState => r.currentMaster.distance) ht
  have hl : t.beacon.lastMasterBeaconReceivedMs = s.beacon.lastMasterBeaconReceivedMs :=
    congrArg RelayState.lastMasterBeaconReceivedMs ht
  obtain ⟨hpacked, hrouted, hearlier, hlost⟩ := h
  refine ⟨by rwa [hn], fun hne => ?_, by rwa [hn], by rwa [hn, hd]⟩
  rw [hd] at hne
  obtain ⟨h1, h2, h3, h4, h5⟩ := hrouted hne
  exact ⟨by rwa [hl], by rwa [hn, hl], by rwa [hd], by rwa [hd], by rwa [hn, hl, hd]⟩

/-- The invariant holds on while time passes. -/
theorem Settled.later (h : Settled s clock) (hnow : clock ≤ now) : Settled s now := by
  obtain ⟨hpacked, hrouted, hearlier, hlost⟩ := h
  refine ⟨hpacked, fun hne => ?_, fun e he hv => UInt64.le_trans (hearlier e he hv) hnow,
    fun hd e he hv => stale_of_le (hlost hd e he hv) (hearlier e he hv) hnow⟩
  obtain ⟨h1, h2, h3, h4, h5⟩ := hrouted hne
  exact ⟨UInt64.le_trans h1 hnow, h2, h3, h4, h5⟩

/-- A beacon that is accepted: the distance is one more than the smallest fresh one. -/
theorem Settled.heard {w : World} {m : Message} (h : Settled s clock) (hnow : clock ≤ w.nowMs)
    (hheed : heedsBeacon w s m = true) :
    Settled (s.heard w m) w.nowMs ∧ HopFound (s.heard w m) w.nowMs := by
  have hn : (s.heard w m).neighbors = s.neighbors.observe m.lastHopMac m.hopCount w.nowMs :=
    (heard_neighbors w s m).trans (h.packed.observeAndMinDistance_snd _ _ _)
  have hobs := observed h.packed.distinct m.lastHopMac m.hopCount w.nowMs
  have hleast := h.packed.observeAndMinDistance_isLeast m.lastHopMac m.hopCount w.nowMs
  have hc := congrArg MasterInfo.distance (heard_currentMaster w s m)
  rw [h.packed.observeAndMinDistance_eq] at hobs hleast hc
  rw [← hn] at hobs hleast hc
  dsimp only at hleast
  have hpacked : Packed (s.heard w m).neighbors := hn ▸ h.packed.observe _ _ _
  have hlast : (s.heard w m).beacon.lastMasterBeaconReceivedMs = w.nowMs := by
    unfold Node.heard Node.scheduleRelay
    split <;> rfl
  generalize hmin : (s.heard w m).neighbors.minFreshDistance w.nowMs = d at hobs hleast hc
  -- the beacon itself is fresh, so the smallest distance is no larger than its hop count
  have hlt : d.toNat < maxHops :=
    lt_of_le_of_lt (UInt8.le_iff_toNat_le.1 hobs.le) (heedsBeacon_hops hheed)
  have hdist : (s.heard w m).distance.toNat = d.toNat + 1 := by
    have hne : d ≠ 0xFF := by
      rintro rfl
      exact absurd hlt (by decide)
    unfold Node.distance
    rw [hc]
    dsimp only
    rw [if_neg hne, UInt8.toNat_add]
    simp only [maxHops] at hlt
    show (d.toNat + 1) % 256 = d.toNat + 1
    omega
  have hne : (s.heard w m).distance ≠ 0xFF := by
    intro hff
    rw [hff] at hdist
    simp only [maxHops] at hlt
    have : (0xFF : UInt8).toNat = 255 := rfl
    omega
  have hearlier : ∀ e ∈ (s.heard w m).neighbors.toList, e.valid = true →
      e.lastSeenMs ≤ w.nowMs := by
    intro e he hv
    rcases hobs.entries e he hv with rfl | ⟨he, -⟩
    · exact UInt64.le_refl _
    · exact UInt64.le_trans (h.earlier e he hv) hnow
  -- the table afterwards, the next hop, and the distance
  refine ⟨⟨hpacked, fun _ => ?_, hearlier, fun hd => absurd hd hne⟩, ?_, ?_⟩
  · rw [hlast]
    refine ⟨UInt64.le_refl _, hearlier, by omega, by omega, fun e he => ?_⟩
    have := UInt8.le_iff_toNat_le.1 (hleast.le e he)
    omega
  · rcases hleast.attained with hff | ⟨e, he, hd⟩
    · rw [hff] at hlt
      exact absurd hlt (by decide)
    · refine Eligible.selectNextHop (e := e) ⟨he.mem, he.valid, he.fresh, ?_⟩
      rw [UInt8.lt_iff_toNat_lt, hd, hdist]
      omega
  · rw [hmin]
    exact hdist

/-- A master that is forgotten has been silent for longer than a neighbour stays fresh. -/
theorem Settled.forgot (h : Settled s clock) (hnow : clock ≤ now)
    (hsilent : now - s.beacon.lastMasterBeaconReceivedMs > staleMasterThresholdMs)
    (hroute : s.distance ≠ 0xFF) :
    ∀ e ∈ s.neighbors.toList, e.valid = true → e.stale now = true := by
  intro e he hv
  have hr := h.routed hroute
  have hle := hr.earlier e he hv
  have hle' := UInt64.le_trans hr.heardAt_le hnow
  unfold Entry.stale
  rw [decide_eq_true_eq, ge_iff_le, UInt64.le_iff_toNat_le,
    UInt64.toNat_sub_of_le _ _ (UInt64.le_trans hle hle')]
  rw [gt_iff_lt, UInt64.lt_iff_toNat_lt, UInt64.toNat_sub_of_le _ _ hle'] at hsilent
  rw [UInt64.le_iff_toNat_le] at hle
  have h8 : stalePeerThresholdMs.toNat = 8000 := rfl
  have h9 : staleMasterThresholdMs.toNat = 9000 := rfl
  omega

namespace BeaconRun

variable {b : Board} {r : BeaconRun} {x : Env × BeaconCall}

/-- The beacon that is accepted in a call finds a next hop. -/
def FindsHop (b : Board) (r : BeaconRun) (x : Env × BeaconCall) : Prop :=
  (Device.acceptedBeacon b r.device x).isSome = true →
    HopFound (step b r x).device.node x.1.nowMs

/-- Every call keeps the invariant between the distance and the neighbours. -/
theorem settled_step (h : Settled r.device.node r.clockMs) (hc : Steady r x) :
    Settled (step b r x).device.node (step b r x).clockMs ∧ FindsHop b r x := by
  have hmove := Device.beaconMove b r.device x
  show Settled (Device.beaconCall b r.device x).node x.1.nowMs ∧
    ((Device.acceptedBeacon b r.device x).isSome = true →
      HopFound (Device.beaconCall b r.device x).node x.1.nowMs)
  generalize Device.beaconCall b r.device x = d' at hmove
  cases hmove with
  | kept hr hn =>
    refine ⟨(h.congr hr).later hc, fun hsome => ?_⟩
    rw [hn] at hsome
    cases hsome
  | heard hm hr =>
    obtain ⟨-, -, hheed⟩ := Device.acceptedBeacon_eq_some hm
    obtain ⟨hs, hf⟩ := h.heard (w := b.world x.1) hc hheed
    refine ⟨hs.congr hr, fun _ => ?_⟩
    have hn : d'.node.neighbors = _ := congrArg RelayState.neighbors hr
    have hd : d'.node.distance = _ :=
      congrArg (fun r : RelayState => r.currentMaster.distance) hr
    exact ⟨by rw [hn, hd]; exact hf.isSome, by rw [hn, hd]; exact hf.distance⟩
  -- the route is gone, and every neighbour is stale by then
  | forgot hn hsilent hroute hr =>
    have hnb : d'.node.neighbors = r.device.node.neighbors := congrArg RelayState.neighbors hr
    have hd : d'.node.distance = 0xFF :=
      congrArg (fun r : RelayState => r.currentMaster.distance) hr
    have hl := h.later hc
    refine ⟨⟨?_, fun hne => absurd hd hne, ?_, fun _ => ?_⟩, fun hsome => ?_⟩
    · rw [hnb]
      exact h.packed
    · rw [hnb]
      exact hl.earlier
    · rw [hnb]
      exact h.forgot hc hsilent hroute
    · rw [hn] at hsome
      cases hsome

/-- **The route is as it should be at any time in any run, and a beacon that is accepted finds a
next hop.**  The run starts without a route and without neighbours. -/
theorem localRoute (hd : r.device.node.currentMaster.distance = 0xFF)
    (hn : r.device.node.neighbors = NeighborTable.empty) {xs : List (Env × BeaconCall)}
    (hc : Runs.Along (step b) Steady r xs) :
    Runs.Along (step b) (FindsHop b) r xs ∧
      ∀ now, (Runs.run (step b) r xs).clockMs ≤ now →
        LocalRoute (Runs.run (step b) r xs).device.node now := by
  have hstart : Settled r.device.node r.clockMs := by
    refine ⟨hn ▸ packed_empty, fun hne => absurd hd hne, fun e he hv => ?_, fun _ e he hv => ?_⟩
    · rw [hn] at he
      rw [not_valid_of_mem_empty he] at hv
      cases hv
    · rw [hn] at he
      rw [not_valid_of_mem_empty he] at hv
      cases hv
  have hstep : ∀ r x, Settled r.device.node r.clockMs → Steady r x →
      Settled (step b r x).device.node (step b r x).clockMs ∧ FindsHop b r x :=
    fun r x h hx => settled_step h hx
  refine ⟨Runs.along_of_invariant (I := fun r => Settled r.device.node r.clockMs) hstart hstep hc,
    fun now hnow => ?_⟩
  have hend := Runs.run_invariant (I := fun r : BeaconRun => Settled r.device.node r.clockMs) hstart
    (fun r x h hx => (hstep r x h hx).1) hc
  exact hend.route hnow

end BeaconRun

namespace Sample

/-- A beacon of the master that the neighbour `via` passed on. -/
def passedOn (via hopCount : UInt8) (seqNum : UInt16) : Message :=
  { frame 7 MessageType.masterBeacon 1 seqNum with lastHopMac := mac via, hopCount := hopCount }

/-- Two neighbours pass on beacons of the master, the closer one earlier, and then there is
silence. -/
def fallsSilent : List (Env × BeaconCall) :=
  [(env 1 200, .process (passedOn 5 1 1)), (env 1 4000, .process (passedOn 6 3 2)),
    (env 1 9000, .checkTimeout), (env 1 13500, .checkTimeout)]

/-- A leaf after its first boot. -/
def firstBoot : BeaconRun := { device := Device.step board (Device.blank {}) (env 1 100, .boot) }

end Sample

namespace BeaconRun

/-- A leaf hears its master through two neighbours and loses it. -/
theorem localRoute_fallsSilent :
    Runs.Along (step Sample.board) (FindsHop Sample.board) Sample.firstBoot Sample.fallsSilent ∧
      ∀ now, (Runs.run (step Sample.board) Sample.firstBoot Sample.fallsSilent).clockMs ≤ now →
        LocalRoute (Runs.run (step Sample.board) Sample.firstBoot Sample.fallsSilent).device.node
          now :=
  localRoute (by decide +kernel) (by decide +kernel) (by decide +kernel)

/-- On the way the distance stays while the closer neighbour grows stale, and there is no next hop
until the route is cleared. -/
example : (List.range 5).map (fun k =>
      let r := Runs.run (step Sample.board) Sample.firstBoot (Sample.fallsSilent.take k)
      (r.device.node.distance,
        r.device.node.neighbors.selectNextHop r.device.node.distance r.clockMs)) =
    [(0xFF, none), (2, some (Sample.mac 5)), (2, some (Sample.mac 5)), (2, none),
      (0xFF, none)] := by
  decide +kernel

end BeaconRun

end LatticeMesh
