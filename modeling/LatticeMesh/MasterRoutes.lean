import LatticeMesh.BeaconSteps

/-!
# The master that a route leads to

A node with two masters hears two streams of beacons, and both write the same neighbour table.  The
last beacon decides which master is the current one; the table does not say which master an entry
leads to.

## Main definitions

* `Device.observe` — the device together with the beacons that it took note of since it booted.
* `FollowsMaster` — a next hop was learned from the current master, at the distance to that master.
* `Device.NoRival` — a beacon finds no closer neighbour that was learned from another master.

## Main results

* `Device.routesFollow` — **in a run without such rivals every next hop leads to the current
  master.**
-/

namespace LatticeMesh

open EffectSpec

/-- The last beacon that was taken note of through the neighbour `mac`. -/
def lastThrough (log : List Heard) (mac : Mac) : Option Heard :=
  log.find? fun q => q.1.lastHopMac = mac

/-- A next hop was learned from a beacon of the current master, and the distance that it was chosen
by is what it advertised in that beacon. -/
inductive FollowsMaster (log : List Heard) (s : Node) (nowMs : UInt64) (hop : Mac) : Prop
  /-- The master itself, at the distance that one of its beacons gave. -/
  | direct {q : Heard} (hq : q ∈ log) (ho : q.origin = s.currentMaster.mac)
      (hd : s.currentMaster.distance = q.1.hopCount + 1) (hhop : directHop s nowMs = some hop)
      (hm : hop = s.currentMaster.mac) : FollowsMaster log s nowMs hop
  /-- A neighbour through which a beacon of the master came. -/
  | relay {n : NeighborTable.Entry} {q : Heard}
      (hn : s.neighbors.Eligible s.currentMaster.distance nowMs n) (hm : n.mac = hop)
      (hq : lastThrough log hop = some q) (ho : q.origin = s.currentMaster.mac)
      (hd : n.masterDistance = q.1.hopCount) : FollowsMaster log s nowMs hop

namespace Device

variable {b : Board} {d : Device}

/-- A device, and the beacons that it took note of since it booted, newest first. -/
abbrev Observed := Device × List Heard

/-- One step of the device; the log grows with every beacon that is taken note of, and a boot
clears it. -/
def observe (b : Board) (st : Observed) (x : Env × Input) : Observed :=
  (step b st.1 x,
    if x.2 = .boot then []
    else if st.1.status = .running then
      ((notedBeacon b st.1 x).map fun m => (m, x.1.nowMs)).toList ++ st.2
    else st.2)

/-- The clock does not run backwards between two boots. -/
def ClockRuns (st : Observed) (x : Env × Input) : Prop :=
  x.2 = .boot ∨ ∀ q ∈ st.2, q.2 ≤ x.1.nowMs

/-- Whether a neighbour in range is closer to its master than the sender of a beacon, or as close
and heard in the same millisecond. -/
def beats (n : NeighborTable.Entry) (m : Message) (nowMs : UInt64) : Bool :=
  n.valid && n.mac ≠ m.lastHopMac && !n.stale nowMs &&
    (n.masterDistance < m.hopCount || n.masterDistance = m.hopCount && n.lastSeenMs = nowMs)

/-- A beacon that is taken note of finds no such neighbour that was learned from another master. -/
def NoRival (b : Board) (st : Observed) (x : Env × Input) : Prop :=
  ∀ m ∈ notedBeacon b st.1 x, ∀ n ∈ st.1.node.neighbors.toList, beats n m x.1.nowMs = true →
    ∀ q ∈ lastThrough st.2 n.mac, q.origin = m.originMac

instance (b : Board) (st : Observed) (x : Env × Input) : Decidable (NoRival b st x) := by
  unfold NoRival
  infer_instance

instance (st : Observed) (x : Env × Input) : Decidable (ClockRuns st x) := by
  unfold ClockRuns
  infer_instance

/-- Whenever a next hop is chosen, at any later time, it follows the current master. -/
def RoutesFollow (b : Board) (st : Observed) : Prop :=
  st.1.status = .running → ∀ e hop, (∀ q ∈ st.2, q.2 ≤ e.nowMs) →
    chosenHop (b.world e) st.1.node = some hop → FollowsMaster st.2 st.1.node e.nowMs hop

/-! ### The invariant -/

/-- The route of a node rests on the last beacon `q`. -/
structure RestsOn (log : List Heard) (s : Node) (q : Heard) : Prop where
  head : log.head? = some q
  master : s.currentMaster.mac = q.origin
  distance : ∃ a ∈ log, a.origin = q.origin ∧ s.currentMaster.distance = a.1.hopCount + 1
  earlier : ∀ n ∈ s.neighbors.toList, n.valid = true → n.lastSeenMs ≤ q.2
  /-- The neighbours that are closer were learned from the same master, or another one that is
  closer is fresher. -/
  closer : ∀ n, s.neighbors.Eligible s.currentMaster.distance q.2 n →
    (∃ a, lastThrough log n.mac = some a ∧ a.origin = q.origin) ∨
      ∃ n' ∈ s.neighbors.toList, n'.valid = true ∧ n'.masterDistance < s.currentMaster.distance ∧
        n.lastSeenMs < n'.lastSeenMs

/-- The table is what the log says, and the route rests on the last beacon. -/
structure RouteInv (log : List Heard) (s : Node) : Prop where
  distinct : s.neighbors.Distinct
  recorded : ∀ n ∈ s.neighbors.toList, n.valid = true →
    ∃ q, lastThrough log n.mac = some q ∧ q.1.hopCount = n.masterDistance ∧ q.2 = n.lastSeenMs
  route : s.currentMaster.distance = 0xFF ∨ ∃ q, RestsOn log s q

theorem RouteInv.congr {log : List Heard} {s t : Node} (h : RouteInv log s)
    (hn : t.neighbors = s.neighbors)
    (hm : t.currentMaster = s.currentMaster ∨ t.currentMaster.distance = 0xFF) :
    RouteInv log t := by
  refine ⟨by rw [hn]; exact h.distinct, by rw [hn]; exact h.recorded, ?_⟩
  rcases hm with hm | hm
  · rcases h.route with hff | ⟨q, hq⟩
    · exact .inl (by rw [hm]; exact hff)
    · refine .inr ⟨q, hq.head, by rw [hm]; exact hq.master, by rw [hm]; exact hq.distance, ?_, ?_⟩
      · rw [hn]
        exact hq.earlier
      · rw [hn, hm]
        exact hq.closer
  · exact .inl hm

theorem lastThrough_cons {q : Heard} {log : List Heard} {mac : Mac} :
    lastThrough (q :: log) mac = if q.1.lastHopMac = mac then some q else lastThrough log mac := by
  unfold lastThrough
  by_cases h : q.1.lastHopMac = mac
  · rw [List.find?_cons_of_pos (by simpa using h), if_pos h]
  · rw [List.find?_cons_of_neg (by simpa using h), if_neg h]

theorem mem_of_lastThrough {q : Heard} {log : List Heard} {mac : Mac}
    (h : lastThrough log mac = some q) : q ∈ log := List.mem_of_find?_eq_some h

theorem beats_of_rival {t : NeighborTable} {n : NeighborTable.Entry} {m : Message} {now : UInt64}
    (h : t.Rival m.lastHopMac now n)
    (hc : n.masterDistance < m.hopCount ∨ n.masterDistance = m.hopCount ∧ n.lastSeenMs = now) :
    beats n m now = true := by
  simp only [beats, h.valid, h.fresh, Bool.and_eq_true, Bool.or_eq_true, decide_eq_true_eq]
  exact ⟨by simpa using h.ne, hc⟩

/-- A beacon that is taken note of, as long as it finds no rival. -/
theorem RouteInv.heard {log : List Heard} {s t : Node} (h : RouteInv log s) {m : Message}
    {now : UInt64} (hhops : m.hopCount.toNat < maxHops) (hclock : ∀ q ∈ log, q.2 ≤ now)
    (hrival : ∀ n ∈ s.neighbors.toList, beats n m now = true →
      ∀ q ∈ lastThrough log n.mac, q.origin = m.originMac)
    (hn : t.neighbors = (s.neighbors.observeAndMinDistance m.lastHopMac m.hopCount now).2)
    (hm : t.currentMaster = ⟨m.originMac,
      let r := (s.neighbors.observeAndMinDistance m.lastHopMac m.hopCount now).1
      if r = 0xFF then 0xFF else r + 1⟩) :
    RouteInv ((m, now) :: log) t := by
  have hobs := NeighborTable.observed h.distinct m.lastHopMac m.hopCount now
  generalize hr : s.neighbors.observeAndMinDistance m.lastHopMac m.hopCount now = r at hobs hn hm
  have hle : r.1.toNat ≤ m.hopCount.toNat := UInt8.le_iff_toNat_le.1 hobs.le
  -- a beacon within the hop limit makes a distance that is not "none"
  have hff : r.1 ≠ 0xFF := by
    intro hff
    rw [hff] at hle
    have : (0xFF : UInt8).toNat = 255 := rfl
    unfold maxHops at hhops
    omega
  have hdist : t.currentMaster.distance = r.1 + 1 := by
    rw [hm]
    exact if_neg hff
  have hlt : ∀ n : NeighborTable.Entry, n.masterDistance < t.currentMaster.distance ↔
      n.masterDistance ≤ r.1 := by
    intro n
    rw [hdist, UInt8.lt_iff_toNat_lt, UInt8.le_iff_toNat_le, UInt8.toNat_add]
    have h1 : (1 : UInt8).toNat = 1 := rfl
    unfold maxHops at hhops
    omega
  have hold : ∀ n ∈ s.neighbors.toList, n.valid = true → n.mac ≠ m.lastHopMac →
      ∃ q, lastThrough ((m, now) :: log) n.mac = some q ∧ q.1.hopCount = n.masterDistance ∧
        q.2 = n.lastSeenMs := by
    intro n hn hv hne
    rw [lastThrough_cons, if_neg (Ne.symm hne)]
    exact h.recorded n hn hv
  refine ⟨by rw [hn]; exact hobs.distinct, fun n hmem hv => ?_, .inr ⟨(m, now), ?_⟩⟩
  -- the table: the slot of the sender holds this beacon, every other slot is as it was
  · rw [hn] at hmem
    rcases hobs.entries n hmem hv with rfl | ⟨hmem, hne⟩
    · exact ⟨(m, now), by rw [lastThrough_cons, if_pos rfl], rfl, rfl⟩
    · exact hold n hmem hv hne
  refine ⟨rfl, by rw [hm]; rfl, ?_, fun n hmem hv => ?_, fun n he => ?_⟩
  · -- the distance is that of the beacon, or that of a closer neighbour of the same master
    rcases hobs.attained with hd | ⟨n, hn', hd⟩
    · exact ⟨(m, now), by simp, rfl, by rw [hdist, hd]⟩
    · obtain ⟨q, hq, hqd, -⟩ := h.recorded n hn'.mem hn'.valid
      by_cases heq : n.masterDistance = m.hopCount
      · exact ⟨(m, now), by simp, rfl, by rw [hdist, ← hd, heq]⟩
      · have hcloser : n.masterDistance < m.hopCount := by
          rw [hd]
          rw [hd] at heq
          exact UInt8.lt_of_le_of_ne hobs.le heq
        refine ⟨q, List.mem_cons_of_mem _ (mem_of_lastThrough hq), ?_, ?_⟩
        · exact hrival n hn'.mem (beats_of_rival hn' (.inl hcloser)) q hq
        · rw [hdist, ← hd, hqd]
  -- what is in the table was heard before, and the clock does not run backwards
  · rw [hn] at hmem
    rcases hobs.entries n hmem hv with rfl | ⟨hmem, hne⟩
    · exact UInt64.le_refl _
    · obtain ⟨q, hq, -, hqt⟩ := h.recorded n hmem hv
      rw [← hqt]
      exact hclock q (mem_of_lastThrough hq)
  -- a closer neighbour is the sender itself, or was in the table before the beacon
  · have hmem := he.mem
    rw [hn] at hmem
    rcases hobs.entries n hmem he.valid with rfl | ⟨hmem, hne⟩
    · exact .inl ⟨(m, now), by rw [lastThrough_cons, if_pos rfl], rfl⟩
    · have hrv : s.neighbors.Rival m.lastHopMac now n := ⟨hmem, he.valid, hne, he.fresh⟩
      have hle' := (hlt n).1 he.closer
      obtain ⟨q, hq, hqd, hqt⟩ := h.recorded n hmem he.valid
      have hnow : n.lastSeenMs ≤ now := hqt ▸ hclock q (mem_of_lastThrough hq)
      have hsame : (n.masterDistance < m.hopCount ∨
          n.masterDistance = m.hopCount ∧ n.lastSeenMs = now) →
          ∃ a, lastThrough ((m, now) :: log) n.mac = some a ∧ a.origin = m.originMac := by
        intro hc
        refine ⟨q, ?_, hrival n hmem (beats_of_rival hrv hc) q hq⟩
        rwa [lastThrough_cons, if_neg (Ne.symm hne)]
      by_cases hd : n.masterDistance = m.hopCount
      · by_cases ht : n.lastSeenMs = now
        · exact .inl (hsame (.inr ⟨hd, ht⟩))
        · -- the sender is as close and was heard later
          refine .inr ⟨⟨m.lastHopMac, m.hopCount, true, now⟩, ?_, rfl, ?_, ?_⟩
          · rw [hn]
            exact hobs.heard
          · have := he.closer
            rwa [hd] at this
          · exact UInt64.lt_of_le_of_ne hnow ht
      · exact .inl (hsame (.inl (UInt8.lt_of_le_of_ne (UInt8.le_trans hle' hobs.le) hd)))

/-! ### Runs -/

/-- The invariant of a running device. -/
def Routed (st : Observed) : Prop := st.1.status = .running → RouteInv st.2 st.1.node

theorem routed_boot (st : Observed) (e : Env) : Routed (observe b st (e, .boot)) := by
  intro _
  have hl := boot_learned (b := b) (d := st.1) (e := e)
  have hn : (step b st.1 (e, .boot)).node.neighbors = NeighborTable.empty :=
    congrArg Learned.neighbors hl
  have hm : (step b st.1 (e, .boot)).node.currentMaster = {} := congrArg Learned.currentMaster hl
  refine ⟨?_, fun n hmem hv => ?_, .inl ?_⟩
  · show NeighborTable.Distinct (step b st.1 (e, .boot)).node.neighbors
    rw [hn]
    exact NeighborTable.distinct_empty
  · have hmem : n ∈ (step b st.1 (e, .boot)).node.neighbors.toList := hmem
    rw [hn] at hmem
    rw [NeighborTable.not_valid_of_mem_empty hmem] at hv
    cases hv
  · show (step b st.1 (e, .boot)).node.currentMaster.distance = 0xFF
    rw [hm]

/-- One step keeps the invariant, unless a beacon finds a rival. -/
theorem routed_step {st : Observed} {x : Env × Input} (h : Routed st) (hclock : ClockRuns st x)
    (hrival : NoRival b st x) : Routed (observe b st x) := by
  obtain ⟨d, log⟩ := st
  obtain ⟨e, i⟩ := x
  by_cases hi : i = .boot
  · rw [hi]
    exact routed_boot (d, log) e
  intro hrun
  -- a device that does not run does not begin to run by another step than a boot
  by_cases hs : d.status = .running
  swap
  · have hrun : (step b d (e, i)).status = .running := hrun
    rw [step_ignored hi hs] at hrun
    exact absurd hrun hs
  have hinv : RouteInv log d.node := h hs
  have hlog : (observe b (d, log) (e, i)).2 =
      ((notedBeacon b d (e, i)).map fun m => (m, e.nowMs)).toList ++ log := by
    show (if i = .boot then [] else if d.status = .running then _ else log) = _
    rw [if_neg hi, if_pos hs]
  have hkept : notedBeacon b d (e, i) = none →
      (step b d (e, i)).node.neighbors = d.node.neighbors →
      ((step b d (e, i)).node.currentMaster = d.node.currentMaster ∨
        (step b d (e, i)).node.currentMaster.distance = 0xFF) →
      RouteInv (observe b (d, log) (e, i)).2 (step b d (e, i)).node := by
    intro hn hnb hm
    rw [hlog, hn]
    exact hinv.congr hnb hm
  show RouteInv (observe b (d, log) (e, i)).2 (step b d (e, i)).node
  -- only a beacon that is taken note of touches table, log and distance
  cases routeStep (b := b) (e := e) hi hs with
  | kept h hn =>
    exact hkept (hn hrun) (congrArg RelayState.neighbors h)
      (.inl (congrArg RelayState.currentMaster h))
  | heard hm h =>
    rw [hlog, hm]
    have hc : ∀ q ∈ log, q.2 ≤ e.nowMs := hclock.resolve_left hi
    refine hinv.heard (heedsBeacon_hops (notedBeacon_eq_some hm)) hc (hrival _ hm) ?_ ?_
    · exact (congrArg RelayState.neighbors h).trans (heard_neighbors _ _ _)
    · exact (congrArg RelayState.currentMaster h).trans (heard_currentMaster _ _ _)
  | forgot hi' h =>
    refine hkept ?_ (congrArg RelayState.neighbors h) (.inr ?_)
    · rw [show i = .checkMasterTimeout from hi']
      rfl
    · exact congrArg (fun r => r.currentMaster.distance) h
  | housekept hi' h =>
    refine hkept ?_ (congrArg RelayState.neighbors h.rest)
      (.inl (congrArg RelayState.currentMaster h.rest))
    rw [show i = .loop from hi']
    rfl
  | toggled hi' h =>
    refine hkept ?_ (congrArg RelayState.neighbors h) (.inl (congrArg RelayState.currentMaster h))
    rw [show i = .configButton from hi']
    rfl

/-- What the invariant says about a next hop. -/
theorem RouteInv.follows {log : List Heard} {s : Node} {w : World} {hop : Mac}
    (h : RouteInv log s) (hclock : ∀ q ∈ log, q.2 ≤ w.nowMs) (hhop : chosenHop w s = some hop) :
    FollowsMaster log s w.nowMs hop := by
  obtain ⟨hd, hhop⟩ := chosenHop_eq_some hhop
  obtain ⟨q, hq⟩ := h.route.resolve_left hd
  rcases hhop with hdir | hsel
  · obtain ⟨a, ha, hao, had⟩ := hq.distance
    exact .direct ha (hao.trans hq.master.symm) had hdir (directHop_eq_some hdir)
  -- the next hop is a relay: its slot tells what it advertised last
  obtain ⟨n, hn, rfl, hmax⟩ := NeighborTable.selectNextHop_eq_some hsel
  obtain ⟨a, ha, had, -⟩ := h.recorded n hn.mem hn.valid
  refine .relay hn rfl ha ?_ had.symm
  rw [hq.master]
  have hqnow : q.2 ≤ w.nowMs := hclock q (List.mem_of_mem_head? hq.head)
  have hfresh := NeighborTable.stale_mono hn.fresh (hq.earlier n hn.mem hn.valid) hqnow
  rcases hq.closer n ⟨hn.mem, hn.valid, hfresh, hn.closer⟩ with
    ⟨a', ha', ho⟩ | ⟨n', hm, hv, hc, hlt⟩
  · rw [ha] at ha'
    rw [Option.some.inj ha']
    exact ho
  · -- a fresher neighbour would have been chosen
    have hle := hmax n' ⟨hm, hv, ?_, hc⟩
    · exact absurd hlt (UInt64.not_lt.2 hle)
    · obtain ⟨a', ha', -, hat⟩ := h.recorded n' hm hv
      have hnow := hclock a' (mem_of_lastThrough ha')
      rw [hat] at hnow
      exact NeighborTable.fresh_of_le hn.fresh (UInt64.le_of_lt hlt) hnow

/-- **In a run in which no beacon finds a rival, every next hop leads to the current master**: it
was learned from a beacon of that master, at the distance that it advertised there. -/
theorem routesFollow {v : Nvs} {xs : List (Env × Input)}
    (hclock : Runs.Along (observe b) ClockRuns (blank v, []) xs)
    (hrival : Runs.Along (observe b) (NoRival b) (blank v, []) xs) :
    RoutesFollow b (Runs.run (observe b) (blank v, []) xs) := by
  have hblank : Routed (blank v, []) := fun hr => by cases hr
  have hrun := Runs.run_invariant (I := Routed) hblank
    (fun st x h hc => routed_step (b := b) h hc.1 hc.2) (hclock.and hrival)
  exact fun hr e hop ht hhop => (hrun hr).follows ht hhop

end Device

namespace Sample

/-- The board of a leaf in dev mode with two masters. -/
def twoMasters : Board :=
  { board with config := { config with devMode := true, dualMasterMode := true } }

/-- A beacon of the station `n` that the station `via` passed on after some hops. -/
def relayedBeacon (n via : UInt8) (hopCount : UInt8) : Message :=
  { frame n MessageType.masterBeacon 1 1 with lastHopMac := mac via, hopCount := hopCount }

/-- A leaf hears one master at the distance `d` by way of a neighbour, then the other one at the
distance `d'`. -/
def hearsBoth (via : UInt8) (d : UInt8) (via' : UInt8) (d' : UInt8) : List (Env × Input) :=
  [(env 1 100, .boot), (env 1 200, .rx (mac via) (relayedBeacon 7 via d)),
    (env 1 300, .rx (mac via') (relayedBeacon 8 via' d'))]

end Sample

namespace Device

/-- The other master is closer: the leaf follows it. -/
theorem routesFollow_closer : RoutesFollow Sample.twoMasters
    (Runs.run (observe Sample.twoMasters) (blank {}, []) (Sample.hearsBoth 5 1 8 0)) :=
  routesFollow (by decide +kernel) (by decide +kernel)

/-- **The other master is farther away**: it becomes the current master, but the next hop is the
first one, which is a neighbour at the distance zero. -/
theorem not_routesFollow_farther :
    let st := Runs.run (observe Sample.twoMasters) (blank {}, []) (Sample.hearsBoth 7 0 5 2)
    st.1.node.isMaster = false ∧ st.1.node.dualMasterMode = true ∧
      st.1.node.enrollment.knownMasterMac = Sample.mac 7 ∧
      st.1.node.enrollment.knownMasterMacSecondary = Sample.mac 8 ∧
      st.1.node.currentMaster = ⟨Sample.mac 8, 1⟩ ∧ ¬RoutesFollow Sample.twoMasters st := by
  refine ⟨by decide +kernel, by decide +kernel, by decide +kernel, by decide +kernel,
    by decide +kernel, fun h => ?_⟩
  have hhop := h (by decide +kernel) (Sample.env 1 400) (Sample.mac 7) (by decide +kernel)
    (by decide +kernel)
  cases hhop with
  | direct _ _ _ _ hm => exact absurd hm (by decide +kernel)
  | relay _ _ hq ho _ =>
    have hlast : (lastThrough (Runs.run (observe Sample.twoMasters) (blank {}, [])
        (Sample.hearsBoth 7 0 5 2)).2 (Sample.mac 7)).map Heard.origin = some (Sample.mac 7) := by
      decide +kernel
    rw [hq] at hlast
    exact absurd (ho.symm.trans (Option.some.inj hlast)) (by decide +kernel)

end Device

end LatticeMesh
