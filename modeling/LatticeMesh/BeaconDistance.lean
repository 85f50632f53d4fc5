import LatticeMesh.BeaconNetwork
import LatticeMesh.Lib.NextHop

/-!
# Distances in a network

Who hears whom is a graph, and nothing else is known about the radio: copies are lost, delayed and
delivered out of order, and nodes restart.  A distance that a node keeps, advertises or relays is at
least that of its shortest radio path from the master, and a beacon that came over a shortest path
sets the distance of its receiver to exactly that length.

## Main definitions

* `BeaconNet.Happening`, `BeaconNet.happen` — the steps of a network whose nodes restart.
* `BeaconNet.InRange` — copies arrive only where the sender is heard.
* `BeaconNet.Grounded` — what a node believes is borne out by radio paths.

## Main results

* `BeaconNet.reached_run` — **no node ever takes itself for closer to the master than it is.**
* `BeaconNet.exact_deliver` — **a beacon over a shortest path makes the distance exact.**
-/

namespace LatticeMesh

open EffectSpec NextHop

namespace BeaconNet

variable {n : ℕ} {b : Fin n → Board} {hears : Fin n → Fin n → Prop} {μ i j : Fin n} {k : ℕ}
  {net : BeaconNet n} {w : World} {s : Node} {m : Message} {d d' : Device} {x : Env × Input}

/-! ### Networks whose nodes restart -/

/-- What can happen in a network whose nodes restart. -/
inductive Happening (n : ℕ)
  | act (a : Action n)
  | restart (i : Fin n) (e : Env)

/-- What happens. -/
def happen (b : Fin n → Board) (net : BeaconNet n) : Happening n → BeaconNet n
  | .act a => net.step b a
  | .restart i e => stepNode b net i e .boot

/-- A copy arrives only where its sender is heard, and a node that restarts keeps its role. -/
def InRange (b : Fin n → Board) (μ : Fin n) (hears : Fin n → Fin n → Prop) (net : BeaconNet n) :
    Happening n → Prop
  | .act (.deliver c _) => ∀ j, (b j).stationMac = c.srcMac → hears c.receiver j
  | .act _ => True
  | .restart i e => (Device.step (b i) (net.nodes i) (e, .boot)).status = .running →
      ((Device.step (b i) (net.nodes i) (e, .boot)).node.isMaster = true ↔ i = μ)

instance [DecidableRel hears] : ∀ a : Happening n, Decidable (InRange b μ hears net a)
  | .restart _ _ => inferInstanceAs (Decidable (_ → (_ ↔ _)))
  | .act (.deliver c _) =>
    Nat.decidableForallFin fun j => (b j).stationMac = c.srcMac → hears c.receiver j
  | .act (.lose _) => .isTrue trivial
  | .act (.input _ _ _) => .isTrue trivial

/-! ### What a node believes -/

/-- What the node `i` believes is borne out by radio paths from the master `μ`. -/
structure Grounded (b : Fin n → Board) (hears : Fin n → Fin n → Prop) (μ i : Fin n)
    (r : RelayState) : Prop where
  deviceMac : r.deviceMac = (b i).stationMac
  isMaster : r.isMaster = true → i = μ
  distinct : r.neighbors.Distinct
  distance : r.currentMaster.distance = 0xFF ∨
    Reached hears μ i r.currentMaster.distance.toNat
  neighbors : ∀ e ∈ r.neighbors.toList, e.valid = true →
    ∃ j, e.mac = (b j).stationMac ∧ hears i j ∧ Reached hears μ j e.masterDistance.toNat
  pending : r.relayPending = true → r.relayPendingMsg.lastHopMac = (b i).stationMac ∧
    Reached hears μ i r.relayPendingMsg.hopCount.toNat

/-- A beacon that is in the air was sent by a node that is as close as it says. -/
def Carries (b : Fin n → Board) (hears : Fin n → Fin n → Prop) (μ : Fin n) (srcMac : Mac)
    (m : Message) : Prop :=
  ∃ j, srcMac = (b j).stationMac ∧ m.lastHopMac = (b j).stationMac ∧
    Reached hears μ j m.hopCount.toNat

/-- The distance after a beacon of `j` is that of a radio path. -/
theorem Grounded.observed (h : Grounded b hears μ i s.routeState) (hij : hears i j)
    (hr : Reached hears μ j m.hopCount.toNat) (hhops : m.hopCount.toNat < maxHops) :
    ∃ r : UInt8, r.toNat ≤ m.hopCount.toNat + 1 ∧ (s.heard w m).currentMaster.distance = r ∧
      Reached hears μ i r.toNat := by
  have hdistinct : s.neighbors.Distinct := h.distinct
  have hobs := NeighborTable.observed hdistinct m.lastHopMac m.hopCount w.nowMs
  have hc := heard_currentMaster w s m
  generalize s.neighbors.observeAndMinDistance m.lastHopMac m.hopCount w.nowMs = r at hobs hc
  have hle : r.1.toNat ≤ m.hopCount.toNat := UInt8.le_iff_toNat_le.1 hobs.le
  have hlt : r.1.toNat < maxHops := lt_of_le_of_lt hle hhops
  have hff : r.1 ≠ 0xFF := by
    intro hff
    rw [hff] at hlt
    exact absurd hlt (by decide)
  have hone : (r.1 + 1).toNat = r.1.toNat + 1 := by
    simp only [maxHops] at hlt
    rw [UInt8.toNat_add]
    show (r.1.toNat + 1) % 256 = _
    omega
  refine ⟨r.1 + 1, by omega, (congrArg MasterInfo.distance hc).trans (if_neg hff), ?_⟩
  rw [hone]
  -- the closest neighbour is the sender, or one that was heard before
  rcases hobs.attained with hd | ⟨e, he, hd⟩
  · rw [hd]
    exact .hop hij hr
  · obtain ⟨j', -, hj', hr'⟩ := h.neighbors e he.mem he.valid
    rw [← hd]
    exact .hop hj' hr'

/-- A node that takes note of a beacon from a node that it hears stays grounded. -/
theorem Grounded.heard (h : Grounded b hears μ i s.routeState)
    (hmac : m.lastHopMac = (b j).stationMac)
    (hij : hears i j) (hr : Reached hears μ j m.hopCount.toNat)
    (hhops : m.hopCount.toNat < maxHops) : Grounded b hears μ i (s.heard w m).routeState := by
  obtain ⟨r, -, hd, hreach⟩ := h.observed (w := w) hij hr hhops
  have hobs := NeighborTable.observed h.distinct m.lastHopMac m.hopCount w.nowMs
  refine ⟨(heard_deviceMac w s m).trans h.deviceMac, ?_, ?_, .inr ?_, ?_, ?_⟩
  · show (s.heard w m).isMaster = true → i = μ
    rw [heard_isMaster]
    exact h.isMaster
  · show (s.heard w m).neighbors.Distinct
    rw [heard_neighbors]
    exact hobs.distinct
  · show Reached hears μ i (s.heard w m).currentMaster.distance.toNat
    rw [hd]
    exact hreach
  · show ∀ e ∈ (s.heard w m).neighbors.toList, _
    rw [heard_neighbors]
    intro e he hv
    rcases hobs.entries e he hv with rfl | ⟨he, -⟩
    · exact ⟨j, hmac, hij, hr⟩
    · exact h.neighbors e he hv
  · intro hp
    show (s.heard w m).relayPendingMsg.lastHopMac = _ ∧
      Reached hears μ i (s.heard w m).relayPendingMsg.hopCount.toNat
    rcases heard_pending w s m with ⟨hp', hm'⟩ | ⟨-, hm'⟩
    · rw [hm']
      exact h.pending (hp'.symm.trans hp)
    · -- the relay that is scheduled carries the new distance
      rw [hm', hd]
      exact ⟨h.deviceMac, hreach⟩

/-! ### One node -/

/-- What a step of the node `i` means to the network. -/
structure StaysGrounded (b : Fin n → Board) (hears : Fin n → Fin n → Prop) (μ i : Fin n)
    (d d' : Device) : Prop where
  node : d'.status = .running → Grounded b hears μ i d'.node.routeState
  sent : ∀ y ∈ newBeacons d d', Carries b hears μ d.node.deviceMac y.2

theorem not_mem_newBeacons {y : Mac × Message}
    (h : beaconsSent d'.node.trace = beaconsSent d.node.trace) : y ∉ newBeacons d d' := by
  have hnil : beaconsSent d'.node.trace = [] ++ beaconsSent d.node.trace := h
  rw [newBeacons_eq hnil]
  exact List.not_mem_nil

/-- A step of a node in which every beacon that it takes note of comes from a node that it hears. -/
theorem staysGrounded_step (h : d.status = .running → Grounded b hears μ i d.node.routeState)
    (hboot : x.2 ≠ .boot) (hbutton : x.2 ≠ .configButton)
    (hnoted : ∀ m ∈ Device.notedBeacon (b i) d x, ∃ j, m.lastHopMac = (b j).stationMac ∧
      hears i j ∧ Reached hears μ j m.hopCount.toNat) :
    StaysGrounded b hears μ i d (Device.step (b i) d x) := by
  obtain ⟨e, inp⟩ := x
  by_cases hrun : d.status = .running
  swap
  · rw [Device.step_ignored hboot hrun]
    exact ⟨h, fun y hy => absurd hy (not_mem_newBeacons rfl)⟩
  have hg := h hrun
  have hstep := Device.routeStep (b := b i) (e := e) hboot hrun
  generalize Device.step (b i) d (e, inp) = d' at hstep
  cases hstep with
  | kept hr _ =>
    refine ⟨fun _ => by rw [hr]; exact hg, fun y hy => absurd hy (not_mem_newBeacons ?_)⟩
    exact congrArg RelayState.beaconsSent hr
  | @heard m hm hr =>
    obtain ⟨j, hmac, hij, hreach⟩ := hnoted m hm
    have hhops := heedsBeacon_hops (Device.notedBeacon_eq_some hm)
    refine ⟨fun _ => ?_, fun y hy => absurd hy (not_mem_newBeacons ?_)⟩
    · rw [hr]
      exact hg.heard hmac hij hreach hhops
    · exact (congrArg RelayState.beaconsSent hr).trans (heard_beaconsSent _ _ _)
  | forgot _ hr =>
    refine ⟨fun _ => ?_, fun y hy => absurd hy (not_mem_newBeacons ?_)⟩
    · rw [hr]
      exact ⟨hg.deviceMac, hg.isMaster, hg.distinct, .inl rfl, hg.neighbors, hg.pending⟩
    · exact congrArg RelayState.beaconsSent hr
  | housekept _ hr =>
    obtain ⟨hrest, hp, new, hs, hnew⟩ := hr
    refine ⟨fun _ => ?_, fun y hy => ?_⟩
    · rw [hrest]
      exact ⟨hg.deviceMac, hg.isMaster, hg.distinct, hg.distance, hg.neighbors,
        fun hp' => hg.pending (hp hp')⟩
    · rw [newBeacons_eq hs] at hy
      -- a beacon that is sent is the pending relay, or a new one of the master
      rcases hnew y hy with ⟨hp', hy⟩ | ⟨hm', -, hl, h0⟩
      · rw [hy]
        exact ⟨i, hg.deviceMac, hg.pending hp'⟩
      · obtain rfl := hg.isMaster hm'
        refine ⟨i, hg.deviceMac, hl.trans hg.deviceMac, ?_⟩
        rw [h0]
        exact .root 0
  | toggled hi _ => exact absurd hi hbutton

/-- A node that boots in its role knows nothing yet. -/
theorem staysGrounded_boot {e : Env}
    (hrole : (Device.step (b i) d (e, .boot)).status = .running →
      ((Device.step (b i) d (e, .boot)).node.isMaster = true ↔ i = μ)) :
    StaysGrounded b hears μ i d (Device.step (b i) d (e, .boot)) := by
  have hl := Device.boot_learned (b := b i) (d := d) (e := e)
  have hst := Device.stepTo (b i) d e .boot
  generalize Device.step (b i) d (e, .boot) = d' at hrole hl hst
  have hn : d'.node.neighbors = NeighborTable.empty := congrArg Learned.neighbors hl
  have hc : d'.node.currentMaster = {} := congrArg Learned.currentMaster hl
  have hp : d'.node.relayPending = false := congrArg Learned.relayPending hl
  refine ⟨fun hrun => ⟨?_, (hrole hrun).1, ?_, .inl ?_, ?_, ?_⟩,
    fun y hy => absurd hy (not_mem_newBeacons (congrArg Learned.beaconsSent hl))⟩
  · cases hst with
    | booted hb => exact hb.deviceMac
    | bootHalted => cases hrun
    | ignored hi | ran hi | halted hi => exact absurd rfl hi
  · show d'.node.neighbors.Distinct
    rw [hn]
    exact NeighborTable.distinct_empty
  · show d'.node.currentMaster.distance = 0xFF
    rw [hc]
  · intro k hk hv
    have hk' : k ∈ d'.node.neighbors.toList := hk
    rw [hn] at hk'
    rw [NeighborTable.not_valid_of_mem_empty hk'] at hv
    cases hv
  · intro hpi
    exact absurd (hp.symm.trans hpi) (by decide)

/-! ### The network -/

/-- What every running node believes, and what every beacon in the air says, is borne out. -/
structure Sound (b : Fin n → Board) (hears : Fin n → Fin n → Prop) (μ : Fin n) (net : BeaconNet n) :
    Prop where
  node : ∀ i, (net.nodes i).status = .running → Grounded b hears μ i (net.nodes i).node.routeState
  air : ∀ c ∈ net.air, Carries b hears μ c.srcMac c.msg

/-- A step of one node. -/
theorem Sound.stepNode (h : Sound b hears μ net) {air : List (BeaconCopy n)}
    (hair : ∀ c ∈ air, c ∈ net.air) {e : Env} {inp : Input}
    (hs : StaysGrounded b hears μ i (net.nodes i) (Device.step (b i) (net.nodes i) (e, inp))) :
    Sound b hears μ (stepNode b { net with air := air } i e inp) := by
  refine ⟨fun j hrun => ?_, fun c hc => ?_⟩
  · by_cases hj : j = i
    · subst hj
      have hself : (BeaconNet.stepNode b { net with air := air } j e inp).nodes j =
          Device.step (b j) (net.nodes j) (e, inp) := Function.update_self _ _ _
      rw [hself] at hrun ⊢
      exact hs.node hrun
    · have hother : (BeaconNet.stepNode b { net with air := air } i e inp).nodes j = net.nodes j :=
        Function.update_of_ne hj _ _
      rw [hother] at hrun ⊢
      exact h.node j hrun
  · rcases List.mem_append.1 hc with hc | hc
    · exact h.air c (hair c hc)
    · obtain ⟨y, hy, hc⟩ := List.mem_flatMap.1 hc
      obtain ⟨j, -, rfl⟩ := List.mem_map.1 hc
      exact hs.sent y hy

theorem notedBeacon_rx {b : Board} {e : Env} {srcMac : Mac} {m' : Message}
    (hm : m' ∈ Device.notedBeacon b d (e, .rx srcMac m)) : m' = m := by
  unfold Device.notedBeacon at hm
  dsimp only at hm
  split at hm
  · exact (Option.some.inj hm).symm
  · cases hm

/-- **Whatever happens in range keeps the network sound.** -/
theorem Sound.happen (h : Sound b hears μ net) {a : Happening n} (ha : InRange b μ hears net a) :
    Sound b hears μ (happen b net a) := by
  cases a with
  | restart i e => exact h.stepNode (fun c hc => hc) (staysGrounded_boot ha)
  | act a =>
    cases a with
    | lose c => exact ⟨h.node, fun c' hc' => h.air c' (List.mem_of_mem_erase hc')⟩
    | deliver c e =>
      show Sound b hears μ (if net.arrives c e then _ else net)
      split
      swap
      · exact h
      rename_i harr
      obtain ⟨hc, -⟩ : c ∈ net.air ∧ net.clock c.receiver ≤ e.nowMs := by simpa [arrives] using harr
      -- a copy on the air comes from a station in reach, at its distance
      refine h.stepNode (fun c' hc' => List.mem_of_mem_erase hc')
        (staysGrounded_step (h.node c.receiver) (by simp) (by simp) fun m hm => ?_)
      obtain ⟨j, hsrc, hmac, hreach⟩ := h.air c hc
      rw [notedBeacon_rx hm]
      exact ⟨j, hmac, ha j hsrc.symm, hreach⟩
    | input i e inp =>
      show Sound b hears μ (if (isLocal inp && net.clock i ≤ e.nowMs) = true then _ else net)
      split
      swap
      · exact h
      rename_i hok
      obtain ⟨hlocal, -⟩ : isLocal inp = true ∧ net.clock i ≤ e.nowMs := by simpa using hok
      -- no local input hears a beacon
      refine h.stepNode (fun c hc => hc) (staysGrounded_step (h.node i) ?_ ?_ fun m hm => ?_)
      · rintro rfl
        cases hlocal
      · rintro rfl
        cases hlocal
      · have hm' := Option.mem_def.1 hm
        rw [notedBeacon_of_isLocal hlocal] at hm'
        cases hm'

/-- The nodes after their first boot, each in its role, know nothing yet. -/
theorem sound_start {d : Fin n → Device} {e : Fin n → Env}
    (hrole : ∀ i, ((start b d e).nodes i).node.isMaster = true ↔ i = μ) :
    Sound b hears μ (start b d e) :=
  ⟨fun i hrun => (staysGrounded_boot fun _ => hrole i).node hrun, fun c hc => by cases hc⟩

variable {d₀ : Fin n → Device} {e₀ : Fin n → Env} {as : List (Happening n)}

theorem sound_run (hrole : ∀ i, ((start b d₀ e₀).nodes i).node.isMaster = true ↔ i = μ)
    (has : Runs.Along (happen b) (InRange b μ hears) (start b d₀ e₀) as) :
    Sound b hears μ (Runs.run (happen b) (start b d₀ e₀) as) :=
  Runs.run_invariant (sound_start hrole) (fun _ _ h ha => h.happen ha) has

/-- **No node ever takes itself for closer to the master than it is**: from the master to a node at
distance `k` lead at most `k` hops, and a neighbour that the node would send to was heard, and is
reached in fewer hops. -/
theorem reached_run (hrole : ∀ i, ((start b d₀ e₀).nodes i).node.isMaster = true ↔ i = μ)
    (has : Runs.Along (happen b) (InRange b μ hears) (start b d₀ e₀) as) :
    let net := Runs.run (happen b) (start b d₀ e₀) as
    (∀ c ∈ net.air, ∃ j, c.srcMac = (b j).stationMac ∧ Reached hears μ j c.msg.hopCount.toNat) ∧
    ∀ i, (net.nodes i).status = .running → net.dist i ≠ 0xFF →
      Reached hears μ i (net.dist i).toNat ∧
      ∀ now hop, (net.nodes i).node.neighbors.selectNextHop (net.dist i) now = some hop →
        ∃ j k, hop = (b j).stationMac ∧ hears i j ∧ Reached hears μ j k ∧
          k < (net.dist i).toNat := by
  intro net
  have hsound : Sound b hears μ net := sound_run hrole has
  refine ⟨fun c hc => ?_, fun i hrun hd => ?_⟩
  · obtain ⟨j, hsrc, -, hreach⟩ := hsound.air c hc
    exact ⟨j, hsrc, hreach⟩
  have hg := hsound.node i hrun
  refine ⟨hg.distance.resolve_left hd, fun now hop hsel => ?_⟩
  obtain ⟨k, hk, rfl, -⟩ := NeighborTable.selectNextHop_eq_some hsel
  obtain ⟨j, hmac, hij, hreach⟩ := hg.neighbors k hk.mem hk.valid
  exact ⟨j, _, hmac, hij, hreach, UInt8.lt_iff_toNat_lt.1 hk.closer⟩

/-- **A beacon over a shortest path makes the distance exact**: if it is taken note of, and its
receiver is one hop further from the master than it says, then that is the distance of the receiver
afterwards, and what it relays of this beacon says so. -/
theorem exact_deliver (hrole : ∀ i, ((start b d₀ e₀).nodes i).node.isMaster = true ↔ i = μ)
    (has : Runs.Along (happen b) (InRange b μ hears) (start b d₀ e₀) as)
    (hnet : net = Runs.run (happen b) (start b d₀ e₀) as) {c : BeaconCopy n} {e : Env}
    (hc : c ∈ net.air) (hin : InRange b μ hears net (.act (.deliver c e)))
    (hrun : (net.nodes c.receiver).status = .running)
    (hnoted : Device.notedBeacon (b c.receiver) (net.nodes c.receiver) (e, .rx c.srcMac c.msg) =
      some c.msg)
    (hd : d = Device.step (b c.receiver) (net.nodes c.receiver) (e, .rx c.srcMac c.msg))
    (halive : d.status = .running)
    (hcount : HopCount hears μ c.receiver (c.msg.hopCount.toNat + 1)) :
    d.node.currentMaster.distance.toNat = c.msg.hopCount.toNat + 1 ∧
      (d.node.relayPending = (net.nodes c.receiver).node.relayPending ∧
          d.node.relayPendingMsg = (net.nodes c.receiver).node.relayPendingMsg ∨
        d.node.relayPending = true ∧
          d.node.relayPendingMsg.hopCount.toNat = c.msg.hopCount.toNat + 1) := by
  have hsound : Sound b hears μ net := hnet ▸ sound_run hrole has
  obtain ⟨j, hsrc, -, hreach⟩ := hsound.air c hc
  have hij := hin j hsrc.symm
  have hg := hsound.node c.receiver hrun
  have hhops := heedsBeacon_hops (Device.notedBeacon_eq_some hnoted)
  obtain ⟨r, hle, hr, hreached⟩ := hg.observed (w := (b c.receiver).world e) hij hreach hhops
  have hexact : r.toNat = c.msg.hopCount.toNat + 1 := hcount.eq_of_reached hreached hle
  have hpend := heard_pending ((b c.receiver).world e) (net.nodes c.receiver).node c.msg
  have hstep := Device.routeStep (b := b c.receiver) (e := e) (d := net.nodes c.receiver)
    (i := .rx c.srcMac c.msg) (by simp) hrun
  rw [← hd] at hstep
  cases hstep with
  -- a beacon that is heeded does not leave the route state alone
  | kept _ hn =>
    have hnone := hn halive
    rw [hnoted] at hnone
    cases hnone
  | @heard m hm hs =>
    -- the beacon that was heeded is this one
    obtain rfl : m = c.msg := Option.some.inj (hm.symm.trans hnoted)
    have hdist : d.node.currentMaster.distance = r :=
      (congrArg (fun r => r.currentMaster.distance) hs).trans hr
    have hp : d.node.relayPending = _ := congrArg RelayState.relayPending hs
    have hpm : d.node.relayPendingMsg = _ := congrArg RelayState.relayPendingMsg hs
    refine ⟨by rw [hdist, hexact], ?_⟩
    rcases hpend with ⟨h1, h2⟩ | ⟨h1, h2⟩
    · exact .inl ⟨hp.trans h1, hpm.trans h2⟩
    · refine .inr ⟨hp.trans h1, ?_⟩
      have hhop : d.node.relayPendingMsg.hopCount = r := by
        rw [hpm]
        exact (congrArg Message.hopCount h2).trans hr
      rw [hhop, hexact]
  | forgot hi | housekept hi | toggled hi => cases hi

end BeaconNet

namespace Sample

/-- Who hears whom among the five stations: the stations 1 and 3 hear the master, and on the other
side of them are the stations 2 and 4. -/
def audible (i j : Fin 5) : Prop :=
  (i.val, j.val) ∈ [(1, 0), (3, 0), (2, 1), (1, 2), (4, 3), (2, 4)]

instance : DecidableRel audible := fun i j => inferInstanceAs (Decidable ((i.val, j.val) ∈ _))

/-- The first beacon, and a restart of the station 4. -/
def firstBeaconHeard : List (BeaconNet.Happening 5) :=
  firstBeacon.map .act ++ [.restart ⟨4, by decide⟩ (env 1 100)]

/-- The station 2 is two hops from the master. -/
theorem hopCount_two : HopCount audible 0 2 2 := by
  refine ⟨.hop (y := 1) (by decide) (.hop (y := 0) (by decide) (.root 0)), fun l h => ?_⟩
  cases h with
  | @hop _ j l hj h =>
    cases h with
    | root => exact absurd hj (by decide)
    | hop => omega

end Sample

namespace BeaconNet

set_option maxRecDepth 100000 in
/-- The station 2 keeps the distance 2, and there is a path of two hops. -/
theorem reached_firstBeacon :
    (Runs.run (happen Sample.stations) Sample.fiveNodes Sample.firstBeaconHeard).dist 2 = 2 ∧
      Reached Sample.audible 0 2 2 := by
  have has : Runs.Along (happen Sample.stations) (InRange Sample.stations 0 Sample.audible)
      Sample.fiveNodes Sample.firstBeaconHeard := by decide +kernel
  have hdist : (Runs.run (happen Sample.stations) Sample.fiveNodes
      Sample.firstBeaconHeard).dist 2 = 2 := by decide +kernel
  have hne : (Runs.run (happen Sample.stations) Sample.fiveNodes
      Sample.firstBeaconHeard).dist 2 ≠ 0xFF := by
    rw [hdist]
    decide
  have h := (reached_run (by decide +kernel) has).2 2 (by decide +kernel) hne
  exact ⟨hdist, (congrArg (Reached Sample.audible 0 2) (congrArg UInt8.toNat hdist)).mp h.1⟩

set_option maxRecDepth 100000 in
/-- The relay of the station 1 makes the distance of the station 2 exact. -/
theorem exact_firstBeacon :
    (Device.step (Sample.stations 2) ((Runs.run (happen Sample.stations) Sample.fiveNodes
        ((Sample.firstBeacon.take 3).map .act)).nodes 2)
      (Sample.env 1 3110, .rx (Sample.mac 1) (Sample.beaconVia 1 1 1))).node.currentMaster.distance
        = 2 := by
  have has : Runs.Along (happen Sample.stations) (InRange Sample.stations 0 Sample.audible)
      Sample.fiveNodes ((Sample.firstBeacon.take 3).map .act) := by decide +kernel
  have h := (exact_deliver (by decide +kernel) has rfl
    (c := ⟨2, Sample.mac 1, Sample.beaconVia 1 1 1⟩) (e := Sample.env 1 3110) (by decide +kernel)
    (by decide +kernel) (by decide +kernel) (by decide +kernel) rfl (by decide +kernel)
    Sample.hopCount_two).1
  exact UInt8.toNat_inj.1 h

end BeaconNet

end LatticeMesh
