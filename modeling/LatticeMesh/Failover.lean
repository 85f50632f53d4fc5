import LatticeMesh.Handlers

/-!
# Failover to a second master

Two masters share a deployment in dual-master mode.  When the one a leaf follows falls silent, the
beacons of the other one should take over.  In production the pin of the master's address stands
before everything else, and it lets only one address through.

## Main results

* `failover_iff` — **a silent primary is replaced by the sender of a fresh beacon exactly when that
  is the pinned master.**
* `not_failover_secondary` — a secondary that an acknowledgement named is not followed.
-/

namespace LatticeMesh

open EffectSpec

variable {w : World} {s : Node}

/-- A master is known, and the address is that of a known master. -/
def Enrollment.Knows (e : Enrollment) (mac : Mac) : Prop :=
  e.hasMasterMac = true ∧ e.isKnownMaster mac = true

instance (e : Enrollment) (mac : Mac) : Decidable (e.Knows mac) :=
  inferInstanceAs (Decidable (_ ∧ _))

/-- The trust decision for the origin of a beacon, once the known masters are silent: it is
trusted, whatever was known before.  Only an origin that is not known is written to the flash. -/
theorem wp_acceptBeaconOrigin {mac : Mac} {E : Halt → Node → Prop}
    (hd : s.dualMasterMode = true)
    (hn : s.enrollment.Knows mac ∨ ∀ op, w.nvsOk op = true)
    (hs : ¬w.nowMs - s.beacon.lastMasterBeaconReceivedMs < staleMasterThresholdMs) :
    wp (acceptBeaconOrigin w mac) (fun r t => r = true ∧ t.dualMasterMode = true) E s := by
  have hlearn : ∀ op (t : Node), ¬s.enrollment.Knows mac → t.dualMasterMode = true →
      wp (do nvsSave w op true; pure true)
        (fun r u => r = true ∧ u.dualMasterMode = true) E t := by
    intro op t hno ht
    rw [wp_bind]
    refine wp_nvsSave ⟨rfl, ?_⟩ fun hf => absurd (hn.resolve_left hno op) (by simp [hf])
    rw [(t.saved_sameDevice op).dualMasterMode, ht]
  unfold acceptBeaconOrigin
  rw [wp_bind, wp_get]
  dsimp only
  split
  · rename_i hnone
    exact hlearn (.knownMasterMac mac) (s.learnedMaster mac) (fun h => by simp [h.1] at hnone) hd
  rename_i hmaster
  split
  · exact ⟨rfl, hd⟩
  rename_i hother
  have hno : ¬s.enrollment.Knows mac := fun h => by
    simp only [Bool.not_eq_true', Bool.not_eq_false] at hmaster
    simp [hmaster, hd] at hother
    simp [Enrollment.Knows, Enrollment.isKnownMaster, hother.1] at h
    exact hother.2 h.2.1 h.2.2
  split
  · exact hlearn (.knownMasterMacSec mac) (s.learnedSecondary mac) hno hd
  exact hlearn (.knownMasterMac mac) (s.learnedMaster mac) hno hd

/-- What a beacon does to the route of a node in dual-master mode whose masters are silent. -/
theorem wp_processBeacon {m : Message} (hd : s.dualMasterMode = true)
    (hn : s.enrollment.Knows m.originMac ∨ ∀ op, w.nvsOk op = true)
    (hs : ¬w.nowMs - s.beacon.lastMasterBeaconReceivedMs < staleMasterThresholdMs)
    (hh : m.hopCount.toNat < maxHops) :
    wp (processBeacon w m) (fun _ t => t.currentMaster.mac =
      if m.originMac = s.deviceMac ∨ beaconPinned w.config m = false then s.currentMaster.mac
      else m.originMac) (fun _ _ => False) s := by
  unfold processBeacon
  rw [wp_bind, wp_get]
  by_cases hdrop : m.originMac = s.deviceMac ∨ beaconPinned w.config m = false
  · rw [if_pos hdrop, if_pos (by simpa [or_assoc] using Or.inl hdrop)]
    rfl
  · have hpass : ¬(m.originMac = s.deviceMac ∨ (!beaconPinned w.config m) = true ∨
        m.hopCount.toNat ≥ maxHops) := by
      simp only [Bool.not_eq_true', not_or] at hdrop ⊢
      exact ⟨hdrop.1, hdrop.2, by omega⟩
    rw [if_neg hdrop, if_neg hpass, wp_bind]
    refine wp_mono _ ?_ (fun _ _ h => h) (wp_acceptBeaconOrigin hd hn hs)
    rintro _ t ⟨rfl, ht⟩
    rw [if_pos rfl, wp_bind]
    -- in dual-master mode a second master is no reason for a warning
    have hwarn : warnOtherMaster w m.originMac t = .ok () t := by
      unfold warnOtherMaster
      show (if _ then _ else _ : MeshM Unit) t = _
      rw [if_neg (by simp [ht])]
      rfl
    unfold wp
    rw [hwarn]
    show ((t.noteBeacon w m).scheduleRelay w m).currentMaster.mac = m.originMac
    unfold Node.scheduleRelay
    split <;> rfl

namespace Sample

/-- The board of a leaf in a deployment with two masters. -/
def dualBoard : Board := ⟨{ config with dualMasterMode := true }, crypto, mac 1⟩

end Sample

namespace Device

/-- **A silent primary is replaced by the sender of a fresh beacon exactly when that is the pinned
master**, whatever secondary master the node knows.  The flash matters only for a sender that the
node does not know yet. -/
theorem failover_iff {b : Board} {d : Device} {e : Env} {srcMac : Mac} {m : Message}
    (hp : b.config.devMode = false) (hr : d.status = .running)
    (hd : d.node.dualMasterMode = true)
    (hs : e.nowMs - d.node.beacon.lastMasterBeaconReceivedMs ≥ staleMasterThresholdMs)
    (hn : d.node.enrollment.Knows m.originMac ∨ ∀ op, e.nvsOk op = true)
    (hv : m.protoVersion = protoVersion) (ht : m.messageType = MessageType.masterBeacon)
    (hfresh : (replayGate d.node.replay m e.nowMs).1 = false) (hh : m.hopCount.toNat < maxHops) :
    (step b d (e, .rx srcMac m)).node.currentMaster.mac = m.originMac ↔
      m.originMac = b.config.pinMasterMac ∧ m.originMac ≠ d.node.deviceMac ∨
        d.node.currentMaster.mac = m.originMac := by
  -- the frame passes the gate, so the step is the handling of the beacon
  have hwp : wp (handleReceivedMessage (b.world e) srcMac m) (fun _ t => t.currentMaster.mac =
      if m.originMac = d.node.deviceMac ∨ beaconPinned b.config m = false
      then d.node.currentMaster.mac else m.originMac) (fun _ _ => False)
      (d.node.emit (.input (.rx srcMac m))) := by
    unfold handleReceivedMessage
    rw [if_neg (by simp [hv]), wp_bind, wp_get, wp_bind, wp_modify]
    have hgate : (replayGate (d.node.emit (.input (.rx srcMac m))).replay m (b.world e).nowMs).1 =
      false := hfresh
    rw [if_neg (by simp [hgate]), wp_bind, wp_modify]
    unfold dispatchMessage
    rw [if_neg (by simp [ht, MessageType.masterBeacon, MessageType.enrollment]),
      if_neg (by simp [ht, MessageType.masterBeacon, MessageType.joinAck]), if_pos ht]
    exact wp_processBeacon hd hn (UInt64.not_lt.2 hs) hh
  have hstep : step b d (e, .rx srcMac m) = ofResult (handleReceivedMessage (b.world e) srcMac m
      (d.node.emit (.input (.rx srcMac m)))) := by
    unfold step start
    rw [if_neg (by simp), if_pos hr]
    rfl
  rw [hstep]
  cases hres : handleReceivedMessage (b.world e) srcMac m
    (d.node.emit (.input (.rx srcMac m))) with
  | error h u => exact (wp_error hres hwp).elim
  | ok _ t =>
    show t.currentMaster.mac = m.originMac ↔ _
    rw [wp_ok hres hwp]
    have hpin : beaconPinned b.config m = false ↔ m.originMac ≠ b.config.pinMasterMac := by
      simp [beaconPinned, hp]
    simp only [hpin]
    by_cases hdrop : m.originMac = d.node.deviceMac ∨ m.originMac ≠ b.config.pinMasterMac
    -- a beacon that is dropped leaves the old master
    · rw [if_pos hdrop]
      constructor
      · exact fun h => .inr h
      · rintro (⟨hm, ho⟩ | h)
        · exact absurd hdrop (by simp [hm, hm ▸ ho])
        · exact h
    · rw [if_neg hdrop]
      rw [not_or, not_not] at hdrop
      exact ⟨fun _ => .inl ⟨hdrop.2, hdrop.1⟩, fun _ => rfl⟩

/-- The pinned master is heard again after a long silence. -/
theorem failover_pinned : (step Sample.dualBoard (run Sample.dualBoard (blank {})
    [(Sample.env 1 100, .boot), (Sample.env 1 200, .rx (Sample.mac 7) Sample.dualJoinAck)])
    (Sample.env 1 20000, .rx (Sample.mac 7) Sample.beacon)).node.currentMaster.mac =
      Sample.mac 7 :=
  (failover_iff rfl (by decide +kernel) (by decide +kernel) (by decide +kernel)
    (.inl (by decide +kernel)) rfl rfl (by decide +kernel) (by decide)).2
      (.inl ⟨rfl, by decide +kernel⟩)

/-- **A secondary master that an acknowledgement named is not followed**: the leaf knows it, the
primary is silent for twenty seconds, and a fresh beacon of the secondary changes nothing. -/
theorem not_failover_secondary :
    let d := run Sample.dualBoard (blank {}) [(Sample.env 1 100, .boot),
      (Sample.env 1 200, .rx (Sample.mac 7) Sample.dualJoinAck),
      (Sample.env 1 300, .rx (Sample.mac 7) Sample.beacon)]
    let m := Sample.frame 8 MessageType.masterBeacon 1 1
    d.status = .running ∧ d.node.dualMasterMode = true ∧
      d.node.enrollment.hasMasterMacSecondary = true ∧
      d.node.enrollment.knownMasterMacSecondary = m.originMac ∧
      20300 - d.node.beacon.lastMasterBeaconReceivedMs ≥ staleMasterThresholdMs ∧
      (replayGate d.node.replay m 20300).1 = false ∧
      (step Sample.dualBoard d (Sample.env 1 20300, .rx (Sample.mac 8) m)).node.currentMaster.mac ≠
        m.originMac := by
  decide +kernel

end Device

end LatticeMesh
