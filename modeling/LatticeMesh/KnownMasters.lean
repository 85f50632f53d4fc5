import LatticeMesh.BeaconSteps
import LatticeMesh.Counters

/-!
# The masters that a node knows

Beacons, join acknowledgements and the boot write the addresses of the masters, in memory and in
flash.  The primary is replaced by the origin of a beacon that breaks a long silence, the secondary
never.  In production the flash holds what the memory holds, so that a restart changes nothing,
except that a boot does not load the broadcast address: while the node runs it is a master like any
other, and after a restart it is forgotten.  Dev mode stores no addresses, so there a restart
forgets all those that were learned.

## Main definitions

* `Masters` — the addresses of the masters, as far as they are known.
* `Device.masters` — what a running device holds in memory, and what another one will load.
* `TrustRun` — a device, with the time at which it last accepted a beacon since it was booted.
* `TrustRun.Disciplined` — what a step may do to the masters.
* `TrustRun.Remembers` — the masters that a step may not forget.

## Main results

* `Effect.learns` — a change of a running node leaves the masters alone or learns one.
* `wp_processBeacon_primary` — a beacon replaces the primary only after a silence.
* `Device.masters_boot` — a boot loads the stored masters.
* `TrustRun.disciplined_run` — **the masters change only as they should, along every run.**
-/

namespace LatticeMesh

open EffectSpec Relation

variable {w : World} {s₀ s t : Node} {i : Input}

/-! ### Known addresses -/

/-- The addresses of the primary and of the secondary master, as far as they are known. -/
@[ext] structure Masters where
  primary : Option Mac
  secondary : Option Mac
  deriving DecidableEq

/-- An address, if it counts as known. -/
def knownMac (mac : Mac) (has : Bool) : Option Mac := if has then some mac else none

/-- The masters among them that a boot would load: all but the broadcast address. -/
def Masters.loadable (ms : Masters) : Masters where
  primary := ms.primary.filter (· ≠ broadcastMac)
  secondary := ms.secondary.filter (· ≠ broadcastMac)

/-- The masters that a node holds in memory. -/
def Enrollment.masters (e : Enrollment) : Masters where
  primary := knownMac e.knownMasterMac e.hasMasterMac
  secondary := knownMac e.knownMasterMacSecondary e.hasMasterMacSecondary

/-- The master that a boot loads from a slot of the flash. -/
def storedMac (v : Option Mac) : Option Mac :=
  knownMac (Nvs.loadMac v broadcastMac).1 (Nvs.loadMac v broadcastMac).2

/-- The masters that a boot loads from the flash. -/
def Nvs.masters (v : Nvs) : Masters where
  primary := storedMac v.knownMasterMac
  secondary := storedMac v.knownMasterMacSec

@[simp] theorem knownMac_false (mac : Mac) : knownMac mac false = none := rfl

@[simp] theorem knownMac_true (mac : Mac) : knownMac mac true = some mac := rfl

/-- What was stored is loaded again, unless it is the broadcast address. -/
theorem storedMac_eq (v : Option Mac) : storedMac v = v.filter (· ≠ broadcastMac) := by
  cases v with
  | none => rfl
  | some mac =>
    unfold storedMac Nvs.loadMac knownMac
    rw [Option.filter_some]

theorem knownMac_eq_some {mac : Mac} {has : Bool} {p : Mac} (h : knownMac mac has = some p) :
    has = true ∧ mac = p := by
  unfold knownMac at h
  split at h
  · exact ⟨‹_›, Option.some.inj h⟩
  · cases h

theorem Masters.loadable_primary {ms : Masters} {p : Mac} (h : ms.primary = some p)
    (hp : p ≠ broadcastMac) : ms.loadable.primary = some p := by
  simp [loadable, h, hp]

theorem Masters.loadable_secondary {ms : Masters} {p : Mac} (h : ms.secondary = some p)
    (hp : p ≠ broadcastMac) : ms.loadable.secondary = some p := by
  simp [loadable, h, hp]

/-- What the flash holds is what a boot would load. -/
theorem Nvs.loadable_masters (v : Nvs) : v.masters.loadable = v.masters := by
  unfold Nvs.masters Masters.loadable
  simp only [storedMac_eq, Option.filter_filter, Bool.and_self]

/-- The flash of a node holds the masters of its memory, the broadcast address apart. -/
structure InFlash (s : Node) : Prop where
  isDevMode : s.eeprom.isDevMode = false
  masters : s.enrollment.masters.loadable = s.nvs.masters

/-! ### What a change learns -/

/-- What a change of a running node does to the masters, in memory and in flash. -/
inductive Learns (w : World) (i : Input) (s t : Node) : Prop
  | same (h : t.enrollment.masters = s.enrollment.masters) (hn : t.nvs.masters = s.nvs.masters)
  | primary {mac} (h : MayLearn w i s mac)
      (ht : t = (s.learnedMaster mac).saved (.knownMasterMac mac))
  | secondary {mac} (h : MayLearnSecondary w i s mac)
      (ht : t = (s.learnedSecondary mac).saved (.knownMasterMacSec mac))

theorem Node.savedEpoch_masters (s : Node) (epoch : UInt32) :
    (s.savedEpoch epoch).enrollment = s.enrollment ∧
      (s.savedEpoch epoch).nvs.masters = s.nvs.masters := by
  unfold Node.savedEpoch
  split <;> exact ⟨rfl, rfl⟩

theorem Node.drawn_masters (s : Node) :
    s.drawn.enrollment = s.enrollment ∧ s.drawn.nvs.masters = s.nvs.masters := by
  unfold Node.drawn
  split
  · exact s.savedEpoch_masters _
  · exact ⟨rfl, rfl⟩

/-- **A change of a running node leaves the masters alone or learns one**, a wipe apart. -/
theorem Effect.learns (h : Effect w s₀ i s t) (hi : i ≠ .resetButton) : Learns w i s t := by
  cases h with
  | quiet h =>
    rw [← h]
    exact .same rfl rfl
  | setting op h =>
    refine .same rfl ?_
    cases op with
    | masterFlag | adapterType | txPowerPreset | nodeId => rfl
    | _ => cases h
  | wipe hi' => exact absurd hi' hi
  | draw => exact .same (congrArg Enrollment.masters s.drawn_masters.1) s.drawn_masters.2
  | build => exact .same (congrArg Enrollment.masters s.drawn_masters.1) s.drawn_masters.2
  | register _ _ hp hw =>
    refine .same ?_ ?_
    · rw [hp]
    · rw [hw.nvs]
      rfl
  | learnMaster mac h => exact .primary h rfl
  | learnSecondary mac h => exact .secondary h rfl
  | storeEnrolled =>
    refine .same (congrArg _ (s.saved_enrollment _)) ?_
    unfold Node.saved
    split <;> rfl
  | _ => exact .same rfl rfl

/-- In production the flash keeps up with the memory. -/
theorem Learns.inFlash (h : Learns w i s t) (hd : SameDevice s t) (hs : InFlash s) : InFlash t := by
  have hprod : ¬s.eeprom.isDevMode = true := by rw [hs.isDevMode]; simp
  refine ⟨hd.isDevMode.trans hs.isDevMode, ?_⟩
  have hm := hs.masters
  cases h with
  | same h hn => rw [h, hn, hm]
  | @primary mac h ht =>
    rw [ht, Node.saved_of_not_dev (s := s.learnedMaster mac) hprod]
    have hsecondary : s.enrollment.masters.loadable.secondary = s.nvs.masters.secondary := by
      rw [hm]
    exact Masters.ext (storedMac_eq (some mac)).symm hsecondary
  | @secondary mac h ht =>
    rw [ht, Node.saved_of_not_dev (s := s.learnedSecondary mac) hprod]
    have hprimary : s.enrollment.masters.loadable.primary = s.nvs.masters.primary := by rw [hm]
    exact Masters.ext hprimary (storedMac_eq (some mac)).symm

/-- A secondary master that is known stays. -/
theorem Learns.secondary_kept (h : Learns w i s t) {p : Mac}
    (hp : s.enrollment.masters.secondary = some p) : t.enrollment.masters.secondary = some p := by
  cases h with
  | same h => rw [h, hp]
  | primary _ ht =>
    rw [ht, Node.saved_enrollment]
    exact hp
  | secondary h =>
    have hhas := (knownMac_eq_some hp).1
    cases h with
    | beacon _ _ _ hn | joinAck _ hn =>
      rw [hn] at hhas
      cases hhas

/-- A primary master that is known stays, unless a beacon arrives. -/
theorem Learns.primary_kept (h : Learns w i s t)
    (hi : ∀ srcMac m, i = .rx srcMac m → m.messageType ≠ MessageType.masterBeacon) {p : Mac}
    (hp : s.enrollment.masters.primary = some p) : t.enrollment.masters.primary = some p := by
  cases h with
  | same h => rw [h, hp]
  | primary h =>
    have hhas := (knownMac_eq_some hp).1
    cases h with
    | beacon hrx ht => exact absurd ht (hi _ _ hrx)
    | joinAck _ _ hm =>
      rw [hm] at hhas
      cases hhas
  | secondary _ ht =>
    rw [ht, Node.saved_enrollment]
    exact hp

/-- What a sequence of changes keeps of the masters. -/
theorem effects_masters (hi : i ≠ .resetButton) (hst : ReflTransGen (Effect w s₀ i) s t) :
    (InFlash s → InFlash t) ∧
      (∀ p, s.enrollment.masters.secondary = some p → t.enrollment.masters.secondary = some p) ∧
      ((∀ srcMac m, i = .rx srcMac m → m.messageType ≠ MessageType.masterBeacon) →
        ∀ p, s.enrollment.masters.primary = some p → t.enrollment.masters.primary = some p) := by
  induction hst with
  | refl => exact ⟨id, fun _ => id, fun _ _ => id⟩
  | tail _ h ih =>
    have hl := h.learns hi
    exact ⟨fun hs => hl.inFlash h.sameDevice (ih.1 hs), fun p hp => hl.secondary_kept (ih.2.1 p hp),
      fun hb p hp => hl.primary_kept hb (ih.2.2 hb p hp)⟩

/-- An abandoned program leaves the stored masters alone. -/
theorem Stop.masters {h : Halt} {u : Node} (hu : Stop w s₀ i h s u) :
    u.nvs.masters = s.nvs.masters := by
  rw [hu.nvs_eq]
  rfl

/-! ### What a beacon learns -/

/-- The primary master, in memory and in flash, is as it was, or `mac` took its place and `P`. -/
structure MayReplace (P : Prop) (mac : Mac) (s t : Node) : Prop where
  memory : t.enrollment.masters.primary = s.enrollment.masters.primary ∨
    P ∧ t.enrollment.masters.primary = some mac
  flash : t.nvs.masters.primary = s.nvs.masters.primary ∨
    P ∧ t.nvs.masters.primary = storedMac (some mac)

theorem MayReplace.refl (P : Prop) (mac : Mac) (s : Node) : MayReplace P mac s s :=
  ⟨.inl rfl, .inl rfl⟩

/-- The silence after which the primary master is replaced by another one. -/
def Node.Silent (s : Node) (nowMs : UInt64) : Prop :=
  staleMasterThresholdMs ≤ nowMs - s.beacon.lastMasterBeaconReceivedMs

/-- The primary master is replaced only by an origin that is none of the known masters, and after a
silence, or while none is known. -/
theorem wp_acceptBeaconOrigin_primary {P : Prop} {mac : Mac}
    (hP : (s.enrollment.hasMasterMac = true →
      mac ≠ s.enrollment.knownMasterMac ∧ s.Silent w.nowMs) → P) :
    wp (acceptBeaconOrigin w mac) (fun _ t => MayReplace P mac s t)
      (fun _ u => u.nvs.masters = s.nvs.masters) s := by
  -- learning the primary master changes memory and flash alike, unless the write fails
  have hprimary : P → wp (do learnMasterMac w mac; pure true)
      (fun _ t => MayReplace P mac s t) (fun _ u => u.nvs.masters = s.nvs.masters) s := by
    intro h
    unfold learnMasterMac
    rw [wp_bind, wp_bind, wp_modify]
    refine wp_nvsSave ?_ fun _ u hu => congrArg Nvs.masters hu.nvs
    refine ⟨.inr ⟨h, ?_⟩, ?_⟩
    · rw [Node.saved_enrollment]
      rfl
    · unfold Node.saved
      split
      · exact .inl rfl
      · exact .inr ⟨h, rfl⟩
  unfold acceptBeaconOrigin
  rw [wp_bind, wp_get]
  dsimp only
  split
  -- no primary master is known
  · rename_i hnone
    exact hprimary (hP fun hhas => by simp [hhas] at hnone)
  split
  · exact .refl P mac s
  rename_i hknown
  split
  -- the secondary master is learned, and the primary one stays
  · unfold learnSecondaryMasterMac
    rw [wp_bind, wp_bind, wp_modify]
    refine wp_nvsSave ⟨.inl ?_, .inl ?_⟩ fun _ u hu => congrArg Nvs.masters hu.nvs
    · rw [Node.saved_enrollment]
      rfl
    · unfold Node.saved
      split <;> rfl
  split
  -- an unknown origin while the primary is heard
  · exact .refl P mac s
  rename_i hsilent
  -- the primary fell silent
  refine hprimary (hP fun hhas => ⟨?_, UInt64.not_lt.1 hsilent⟩)
  rintro rfl
  simp [hhas] at hknown

theorem keeps_masters_warnOtherMaster (mac : Mac) :
    Keeps (fun s => (s.enrollment.masters, s.nvs.masters)) (warnOtherMaster w mac) := by
  refine .read_bind fun _ => .ite (fun _ => .bind (.update fun _ => rfl) fun _ => ?_) fun _ =>
    .ret _
  refine .ite (fun _ => .bind (.update fun _ => rfl) fun _ => .raise _) fun _ => ?_
  exact .ite (fun _ => .raise _) fun _ => .ret _

/-- **A beacon replaces the primary master only if it is taken note of**, and comes from elsewhere
after a silence. -/
theorem wp_processBeacon_primary {P : Prop} {m : Message}
    (hP : heedsBeacon w s m = true → (s.enrollment.hasMasterMac = true →
      m.originMac ≠ s.enrollment.knownMasterMac ∧ s.Silent w.nowMs) → P) :
    wp (processBeacon w m) (fun _ t => MayReplace P m.originMac s t)
      (fun _ u => u.nvs.masters.primary = s.nvs.masters.primary ∨
        P ∧ u.nvs.masters.primary = storedMac (some m.originMac)) s := by
  unfold processBeacon
  rw [wp_bind, wp_get]
  split
  · exact .refl P _ s
  rename_i hpass
  simp only [not_or, Bool.not_eq_true', Bool.not_eq_false, ge_iff_le, not_le] at hpass
  -- an origin that passes the guard and replaces the primary is trusted
  have hheed : (s.enrollment.hasMasterMac = true →
      m.originMac ≠ s.enrollment.knownMasterMac ∧ s.Silent w.nowMs) → P := by
    intro h
    refine hP ?_ h
    have htrust : trustsBeaconOrigin w s m.originMac = true := by
      unfold trustsBeaconOrigin
      cases hhas : s.enrollment.hasMasterMac with
      | false => rfl
      | true =>
        simp [show w.nowMs - s.beacon.lastMasterBeaconReceivedMs ≥ staleMasterThresholdMs from
          (h hhas).2]
    simp [heedsBeacon, hpass.1, hpass.2.1, hpass.2.2, htrust]
  rw [wp_bind]
  refine wp_mono _ (fun accepted u hu => ?_) (fun _ u hu => .inl (congrArg Masters.primary hu))
    (wp_acceptBeaconOrigin_primary hheed)
  split
  · rw [wp_bind]
    refine wp_mono _ (fun _ v hv => ?_) (fun _ v hv => ?_)
      (keeps_masters_warnOtherMaster m.originMac u)
    -- what comes after the acceptance touches neither the masters nor the flash
    · have hheard : ((v.noteBeacon w m).scheduleRelay w m).enrollment = v.enrollment ∧
          ((v.noteBeacon w m).scheduleRelay w m).nvs = v.nvs := by
        unfold Node.scheduleRelay
        split <;> exact ⟨rfl, rfl⟩
      obtain ⟨he, hn⟩ := Prod.mk.inj hv
      rw [wp_modify]
      refine ⟨?_, ?_⟩
      · rw [hheard.1, he]
        exact hu.memory
      · rw [hheard.2, hn]
        exact hu.flash
    · rw [(Prod.mk.inj hv).2]
      exact hu.flash
  · exact hu

/-- A beacon that is received replaces the primary master only if the gate lets it pass, too. -/
theorem wp_handleReceivedMessage_primary {P : Prop} {srcMac : Mac} {m : Message}
    (hm : m.messageType = MessageType.masterBeacon)
    (hP : stopsFrame s m w.nowMs = false → heedsBeacon w s m = true →
      (s.enrollment.hasMasterMac = true →
        m.originMac ≠ s.enrollment.knownMasterMac ∧ s.Silent w.nowMs) → P) :
    wp (handleReceivedMessage w srcMac m) (fun _ t => MayReplace P m.originMac s t)
      (fun _ u => u.nvs.masters.primary = s.nvs.masters.primary ∨
        P ∧ u.nvs.masters.primary = storedMac (some m.originMac)) s := by
  cases hstop : stopsFrame s m w.nowMs with
  | true =>
    unfold wp
    rw [handleReceivedMessage_stopped hstop]
    exact .refl P _ s
  | false =>
    have hgate := hstop
    rw [stopsFrame, Bool.or_eq_false_iff] at hgate
    unfold handleReceivedMessage
    rw [if_neg (by simpa using hgate.1), wp_bind, wp_get, wp_bind, wp_modify,
      if_neg (by simp [hgate.2]), wp_bind, wp_modify, dispatchMessage_beacon hm]
    have hwp : wp (processBeacon w m)
        (fun _ t => MayReplace P m.originMac (s.received w srcMac m) t)
        (fun _ u => u.nvs.masters.primary = (s.received w srcMac m).nvs.masters.primary ∨
          P ∧ u.nvs.masters.primary = storedMac (some m.originMac)) (s.received w srcMac m) :=
      wp_processBeacon_primary (hP hstop)
    exact wp_mono _ (fun _ _ ht => ⟨ht.memory, ht.flash⟩) (fun _ _ hu => hu) hwp

namespace Device

variable {b : Board} {d : Device} {e : Env} {p : Mac}

/-! ### Steps -/

/-- The masters that a device knows: in memory while it runs, and what it will load otherwise. -/
def masters (d : Device) : Masters :=
  if d.status = .running then d.node.enrollment.masters else d.node.nvs.masters

theorem masters_running (h : d.status = .running) : d.masters = d.node.enrollment.masters :=
  if_pos h

theorem masters_stopped (h : d.status ≠ .running) : d.masters = d.node.nvs.masters := if_neg h

/-- What a device knows of a master that was learned last: it holds the address in memory while it
runs, and loads it otherwise. -/
def learnt (d : Device) (mac : Mac) : Option Mac :=
  if d.status = .running then some mac else storedMac (some mac)

/-- The primary master `p` gives way to the origin of a beacon: another one, which is taken note of
after a silence. -/
def GivesWay (b : Board) (d : Device) (x : Env × Input) (p : Mac) : Prop :=
  ∃ srcMac m, x.2 = .rx srcMac m ∧ notedBeacon b d x = some m ∧ m.originMac ≠ p ∧
    (step b d x).masters.primary = (step b d x).learnt m.originMac ∧ d.node.Silent x.1.nowMs

/-- A step does not forget the master `p`: it does not halt the device, or the flash holds `p`. -/
def Holds (b : Board) (d : Device) (x : Env × Input) (p : Mac) : Prop :=
  (step b d x).status = .running ∨ InFlash d.node ∧ p ≠ broadcastMac

/-- What a received beacon does to the primary master. -/
theorem primary_beacon {srcMac : Mac} {m : Message} (hs : d.status = .running)
    (hm : m.messageType = MessageType.masterBeacon) (hkeep : Holds b d (e, .rx srcMac m) p)
    (hp : d.node.enrollment.masters.primary = some p) :
    (step b d (e, .rx srcMac m)).masters.primary = some p ∨ GivesWay b d (e, .rx srcMac m) p := by
  obtain ⟨hhas, hknown⟩ := knownMac_eq_some hp
  have hwp : wp (handleReceivedMessage (b.world e) srcMac m) _ _ (d.inputNode (.rx srcMac m)) :=
    wp_handleReceivedMessage_primary (P := notedBeacon b d (e, .rx srcMac m) = some m ∧
      m.originMac ≠ p ∧ d.node.Silent e.nowMs) hm fun hstop hheed hsilent =>
        ⟨if_pos ⟨hm, hstop, hheed⟩, hknown ▸ (hsilent hhas).1, (hsilent hhas).2⟩
  have hstep : step b d (e, .rx srcMac m) =
      ofResult (handleReceivedMessage (b.world e) srcMac m (d.inputNode (.rx srcMac m))) :=
    step_of_input (by simp) hs
  unfold GivesWay
  rw [Holds, hstep] at hkeep
  rw [hstep]
  cases hrun : handleReceivedMessage (b.world e) srcMac m (d.inputNode (.rx srcMac m)) with
  | ok _ t =>
    rcases (wp_ok hrun hwp).memory with h | ⟨⟨hn, hne, hsilent⟩, h⟩
    · exact .inl (h.trans hp)
    · exact .inr ⟨srcMac, m, rfl, hn, hne, h, hsilent⟩
  | error h u =>
    rw [hrun] at hkeep
    obtain ⟨hflash, hne⟩ := hkeep.resolve_left (by simp [ofResult])
    rcases wp_error hrun hwp with h | ⟨⟨hn, hne, hsilent⟩, h⟩
    · refine .inl (h.trans ?_)
      show d.node.nvs.masters.primary = some p
      rw [← hflash.masters]
      exact Masters.loadable_primary hp hne
    · exact .inr ⟨srcMac, m, rfl, hn, hne, h, hsilent⟩

/-- What the changes of a step kept in memory is known after the step, unless it is forgotten. -/
theorem masters_kept (hi : i ≠ .boot) (hreset : i ≠ .resetButton) (hs : d.status = .running)
    {f : Masters → Option Mac} (hkeep : Holds b d (e, i) p)
    (hf : ∀ ms : Masters, f ms = some p → p ≠ broadcastMac → f ms.loadable = some p)
    (hp : ∀ t, ReflTransGen (Effect (b.world e) (d.inputNode i) i) (d.inputNode i) t →
      f t.enrollment.masters = some p) :
    f (step b d (e, i)).masters = some p := by
  have hst := stepTo b d e i
  unfold Holds at hkeep
  generalize step b d (e, i) = d' at hst hkeep ⊢
  cases hst with
  | ignored _ hs' => exact absurd hs hs'
  | booted | bootHalted => exact absurd rfl hi
  | ran _ _ ht => exact hp _ ht
  | halted _ _ ht hu =>
    -- a device that halted will load its masters from the flash
    obtain ⟨hflash, hne⟩ := hkeep.resolve_left (by simp)
    have hin := (effects_masters hreset ht).1 ⟨hflash.1, hflash.2⟩
    rw [masters_stopped (by simp), hu.masters, ← hin.masters]
    exact hf _ (hp _ ht) hne

/-- **What a step of a running device does to its masters**, unless they are forgotten. -/
theorem masters_step (hi : i ≠ .boot) (hreset : i ≠ .resetButton) (hs : d.status = .running)
    (hkeep : Holds b d (e, i) p) :
    (d.node.enrollment.masters.secondary = some p →
      (step b d (e, i)).masters.secondary = some p) ∧
      (d.node.enrollment.masters.primary = some p →
        (step b d (e, i)).masters.primary = some p ∨ GivesWay b d (e, i) p) := by
  refine ⟨fun hp => ?_, fun hp => ?_⟩
  · exact masters_kept hi hreset hs hkeep (fun _ => Masters.loadable_secondary) fun t ht =>
      (effects_masters hreset ht).2.1 p hp
  · by_cases hb : ∃ srcMac m, i = .rx srcMac m ∧ m.messageType = MessageType.masterBeacon
    · obtain ⟨srcMac, m, rfl, hm⟩ := hb
      exact primary_beacon hs hm hkeep hp
    · refine .inl (masters_kept hi hreset hs hkeep (fun _ => Masters.loadable_primary) ?_)
      exact fun t ht => (effects_masters hreset ht).2.2
        (fun srcMac m hrx hm => hb ⟨srcMac, m, hrx, hm⟩) p hp

/-- In production the flash of a running device keeps up with its memory. -/
theorem inFlash_step (hi : i ≠ .boot) (hreset : i ≠ .resetButton)
    (hs' : (step b d (e, i)).status = .running) (h : InFlash d.node) :
    InFlash (step b d (e, i)).node := by
  have hst := stepTo b d e i
  generalize step b d (e, i) = d' at hst hs' ⊢
  cases hst with
  | ignored => exact h
  | booted | bootHalted => exact absurd rfl hi
  | ran _ _ ht => exact (effects_masters hreset ht).1 ⟨h.1, h.2⟩
  | halted => cases hs'

/-- Only a wipe changes whether the next boot runs in dev mode. -/
theorem bootsInDevMode_step (hreset : i ≠ .resetButton) :
    bootsInDevMode b.config (step b d (e, i)).node.nvs = bootsInDevMode b.config d.node.nvs := by
  have heffects : ∀ {t}, ReflTransGen (Effect (b.world e) (d.inputNode i) i) (d.inputNode i) t →
      t.nvs.devFlag = d.node.nvs.devFlag := by
    intro t hst
    induction hst with
    | refl => rfl
    | tail _ h ih => exact (h.devFlag hreset).trans ih
  have hst := stepTo b d e i
  generalize step b d (e, i) = d' at hst ⊢
  refine bootsInDevMode_congr ?_
  cases hst with
  | ignored => rfl
  | booted h => exact h.frame.nvs.devFlag
  | bootHalted hf => exact hf.nvs.devFlag
  | ran _ _ ht => exact heffects ht
  | halted _ _ ht hu =>
    rw [hu.nvs_eq]
    exact heffects ht

theorem masters_bootFrame {u : Node} (h : BootFrame b.config (d.bootNode b) u) :
    u.nvs.masters = d.node.nvs.masters := by
  unfold Nvs.masters
  rw [h.nvs.knownMasterMac, h.nvs.knownMasterMacSec]
  rfl

/-- **A boot loads the stored masters**, and knows no beacon yet. -/
theorem masters_boot : (step b d (e, .boot)).masters = d.node.nvs.masters ∧
    ((step b d (e, .boot)).status = .running →
      (step b d (e, .boot)).node.beacon.lastMasterBeaconReceivedMs = 0 ∧
      (bootsInDevMode b.config d.node.nvs = false → InFlash (step b d (e, .boot)).node)) := by
  have hboot : Boots (b.world e) (d.bootNode b) (d.bootNode b) (initBeforeRole (b.world e)) _ :=
    boots_initBeforeRole rfl
  have hrun : step b d (e, .boot) = ofResult ((initBeforeRole (b.world e) >>= fun _ =>
      applyRole (b.world e)) (d.bootNode b)) := by
    rw [← initSubsystems_eq]
    rfl
  rw [hrun]
  cases hres : initBeforeRole (b.world e) (d.bootNode b) with
  | error h u =>
    obtain ⟨-, -, hu⟩ := wp_error hres hboot
    rw [bind_error hres]
    exact ⟨masters_bootFrame hu, by simp [ofResult]⟩
  | ok _ t =>
    obtain ⟨hst, hup⟩ := wp_ok hres hboot
    have hflash := masters_bootFrame (boots_frame (.refl _ _) hst)
    have hmemory : t.enrollment.masters = d.node.nvs.masters := by
      rw [hup.masters]
      rfl
    rw [bind_ok hres]
    have hsame : t.enrollment.masters.loadable = t.nvs.masters := by
      rw [hmemory, hflash]
      exact d.node.nvs.loadable_masters
    refine ⟨hmemory, fun _ => ⟨?_, fun hprod => ⟨?_, hsame⟩⟩⟩
    · exact congrArg MasterBeacon.lastMasterBeaconReceivedMs hup.beacon
    · exact hup.isDevMode.trans hprod

/-! ### The time of the last beacon -/

/-- What a check for a silent master does to the time of the last beacon. -/
theorem wp_checkTimeout_last {E : Halt → Node → Prop} :
    wp (checkTimeout w) (fun _ t =>
      t.beacon.lastMasterBeaconReceivedMs = s.beacon.lastMasterBeaconReceivedMs ∨
        t.beacon.lastMasterBeaconReceivedMs = 0 ∧
          staleMasterThresholdMs < w.nowMs - s.beacon.lastMasterBeaconReceivedMs) E s := by
  unfold checkTimeout
  rw [wp_modify]
  split
  · exact .inl rfl
  · split
    · exact .inr ⟨rfl, ‹_›⟩
    · exact .inl rfl

/-- What a step of a running device does to the time of the last beacon. -/
inductive LastBeacon (b : Board) (d : Device) (x : Env × Input) (last : UInt64) : Prop
  | kept (hn : notedBeacon b d x = none)
      (h : last = d.node.beacon.lastMasterBeaconReceivedMs) : LastBeacon b d x last
  | heard {m} (hn : notedBeacon b d x = some m) (h : last = x.1.nowMs) : LastBeacon b d x last
  | forgot (hn : notedBeacon b d x = none) (h : last = 0) (hs : staleMasterThresholdMs <
      x.1.nowMs - d.node.beacon.lastMasterBeaconReceivedMs) : LastBeacon b d x last

theorem lastBeacon_step (hi : i ≠ .boot) (hs : d.status = .running)
    (hs' : (step b d (e, i)).status = .running) :
    LastBeacon b d (e, i) (step b d (e, i)).node.beacon.lastMasterBeaconReceivedMs := by
  by_cases htimeout : i = .checkMasterTimeout
  · subst htimeout
    rw [step_of_input hi hs]
    rcases ofResult_of_wp (wp_checkTimeout_last (w := b.world e)
      (s := d.inputNode .checkMasterTimeout)) with h | ⟨h, hlong⟩
    · exact .kept rfl h
    · exact .forgot rfl h hlong
  · have hfield : ∀ {r r' : RelayState}, r' = r →
        r'.lastMasterBeaconReceivedMs = r.lastMasterBeaconReceivedMs := fun h => by rw [h]
    have hroute := routeStep (b := b) (d := d) (e := e) hi hs
    cases hroute with
    | kept h hn => exact .kept (hn hs') (hfield h)
    | @heard m hm h =>
      refine .heard hm ((hfield h).trans ?_)
      show (d.node.heard (b.world e) m).beacon.lastMasterBeaconReceivedMs = e.nowMs
      unfold Node.heard Node.scheduleRelay
      split <;> rfl
    | forgot hi' => exact absurd hi' htimeout
    | housekept hi' h =>
      have hi' : i = .loop := hi'
      subst hi'
      exact .kept rfl (hfield h.rest)
    | toggled hi' h =>
      have hi' : i = .configButton := hi'
      subst hi'
      exact .kept rfl (hfield h)

end Device

/-! ### Runs -/

/-- A device, the time of its last step, and the time at which it last accepted a beacon since it
was booted. -/
structure TrustRun where
  device : Device
  clockMs : UInt64 := 0
  lastAccepted : Option UInt64 := none

namespace TrustRun

variable {b : Board} {r : TrustRun} {x : Env × Input} {dev : Bool}

/-- One step. -/
def step (b : Board) (r : TrustRun) (x : Env × Input) : TrustRun where
  device := Device.step b r.device x
  clockMs := x.1.nowMs
  lastAccepted :=
    if x.2 = .boot then none
    else if r.device.status = .running ∧ (Device.notedBeacon b r.device x).isSome then
      some x.1.nowMs
    else r.lastAccepted

/-- The time since which no beacon was accepted: that of the last one, or of the boot. -/
def silentSince (r : TrustRun) : UInt64 := r.lastAccepted.getD 0

/-- The clock does not run backwards between two boots, and the flash is not wiped. -/
def Admissible (r : TrustRun) (x : Env × Input) : Prop :=
  x.2 ≠ .resetButton ∧ (x.2 = .boot ∨ r.clockMs ≤ x.1.nowMs)

instance (r : TrustRun) (x : Env × Input) : Decidable (Admissible r x) :=
  inferInstanceAs (Decidable (_ ∧ _))

/-- A step may not forget the master `p`: it is no boot and the device goes on, or it is a
production device and `p` is not the broadcast address, which a boot does not load. -/
def Remembers (b : Board) (r : TrustRun) (x : Env × Input) (p : Mac) : Prop :=
  x.2 ≠ .boot ∧ (step b r x).device.status = .running ∨
    bootsInDevMode b.config r.device.node.nvs = false ∧ p ≠ broadcastMac

/-- What a step may do to the masters that are known, as far as `P` holds of them. -/
structure Disciplined (b : Board) (P : Mac → Prop) (r : TrustRun) (x : Env × Input) : Prop where
  /-- The primary gives way to the origin of a beacon, after a silence. -/
  primary : ∀ p, P p → r.device.masters.primary = some p →
    (step b r x).device.masters.primary ≠ some p →
      ∃ srcMac m, x.2 = .rx srcMac m ∧ Device.notedBeacon b r.device x = some m ∧
        m.originMac ≠ p ∧
        (step b r x).device.masters.primary = (step b r x).device.learnt m.originMac ∧
        staleMasterThresholdMs ≤ x.1.nowMs - r.silentSince
  joinAck : ∀ srcMac m, x.2 = .rx srcMac m → m.messageType = MessageType.joinAck →
    ∀ p, P p → r.device.masters.primary = some p → (step b r x).device.masters.primary = some p
  secondary : ∀ p, P p → r.device.masters.secondary = some p →
    (step b r x).device.masters.secondary = some p

/-- The time that the staleness rule reads is that of the last beacon, or it was cleared after a
silence. -/
structure Clocked (r : TrustRun) : Prop where
  since_le : r.silentSince ≤ r.clockMs
  last : r.device.node.beacon.lastMasterBeaconReceivedMs = r.silentSince ∨
    r.device.node.beacon.lastMasterBeaconReceivedMs = 0 ∧
      staleMasterThresholdMs < r.clockMs - r.silentSince

theorem sub_le_sub_of_le {a b c : UInt64} (hab : a ≤ b) (hbc : b ≤ c) : b - a ≤ c - a := by
  rw [UInt64.le_iff_toNat_le, UInt64.toNat_sub_of_le _ _ hab,
    UInt64.toNat_sub_of_le _ _ (UInt64.le_trans hab hbc)]
  exact Nat.sub_le_sub_right (UInt64.le_iff_toNat_le.1 hbc) _

/-- When the rule finds the masters silent, they are. -/
theorem Clocked.silent (h : Clocked r) {now : UInt64} (hle : r.clockMs ≤ now)
    (hs : r.device.node.Silent now) : staleMasterThresholdMs ≤ now - r.silentSince := by
  rcases h.last with hl | ⟨-, hlong⟩
  · rw [← hl]
    exact hs
  · exact UInt64.le_of_lt (UInt64.lt_of_lt_of_le hlong (sub_le_sub_of_le h.since_le hle))

/-- A step of a device that keeps running keeps the two times in step. -/
theorem Clocked.step (h : Clocked r) (hi : x.2 ≠ .boot) (hle : r.clockMs ≤ x.1.nowMs)
    (hs : r.device.status = .running) (hs' : (step b r x).device.status = .running) :
    Clocked (step b r x) := by
  obtain ⟨e, i⟩ := x
  have hlast := Device.lastBeacon_step hi hs hs'
  -- the time without a beacon starts again with every beacon that is noted
  have hsince : ∀ o, Device.notedBeacon b r.device (e, i) = o →
      (TrustRun.step b r (e, i)).silentSince = if o.isSome then e.nowMs else r.silentSince := by
    rintro o rfl
    unfold silentSince TrustRun.step
    dsimp only
    rw [if_neg hi]
    cases Device.notedBeacon b r.device (e, i) with
    | none => simp
    | some m => simp [hs]
  have hkept : r.silentSince ≤ e.nowMs := UInt64.le_trans h.since_le hle
  cases hlast with
  | kept hn hl =>
    have hnone := hsince none hn
    refine ⟨by rw [hnone]; exact hkept, ?_⟩
    rw [hnone]
    rcases h.last with h0 | ⟨h0, hlong⟩
    · exact .inl (hl.trans h0)
    · exact .inr ⟨hl.trans h0, UInt64.lt_of_lt_of_le hlong (sub_le_sub_of_le h.since_le hle)⟩
  | heard hn hl =>
    have hsome := hsince _ hn
    refine ⟨by rw [hsome]; exact UInt64.le_refl _, .inl ?_⟩
    rw [hsome]
    exact hl
  -- the timeout sets the time of the last beacon to zero, but it has been long already
  | forgot hn hl hlong =>
    have hnone := hsince none hn
    refine ⟨by rw [hnone]; exact hkept, .inr ⟨hl, ?_⟩⟩
    rw [hnone]
    rcases h.last with h0 | ⟨-, hlong'⟩
    · rw [← h0]
      exact hlong
    · exact UInt64.lt_of_lt_of_le hlong' (sub_le_sub_of_le h.since_le hle)

/-- The invariant of a run: the mode of the flash is `dev`, in production the memory of a running
device agrees with the flash, and its two times are in step. -/
structure Sound (b : Board) (dev : Bool) (r : TrustRun) : Prop where
  mode : bootsInDevMode b.config r.device.node.nvs = dev
  flash : dev = false → r.device.status = .running → InFlash r.device.node
  clocked : r.device.status = .running → Clocked r

/-- A boot keeps the invariant, and in production the masters that it can load. -/
theorem Sound.boot (h : Sound b dev r) (hx : x.2 = .boot) :
    Sound b dev (step b r x) ∧ (dev = false →
      (step b r x).device.masters = r.device.masters.loadable) := by
  obtain ⟨e, i⟩ := x
  obtain rfl : i = .boot := hx
  obtain ⟨hmasters, hrun⟩ := Device.masters_boot (b := b) (d := r.device) (e := e)
  refine ⟨⟨(Device.bootsInDevMode_step (by simp)).trans h.mode, fun hdev hs => ?_, fun hs => ?_⟩,
    fun hdev => hmasters.trans ?_⟩
  · exact (hrun hs).2 (h.mode.trans hdev)
  · exact ⟨UInt64.zero_le, .inl (hrun hs).1⟩
  · by_cases hs : r.device.status = .running
    · rw [Device.masters_running hs, (h.flash hdev hs).masters]
    · rw [Device.masters_stopped hs, Nvs.loadable_masters]

/-- A boot of a production device forgets only the broadcast address. -/
theorem Sound.disciplined_boot (h : Sound b dev r) (hx : x.2 = .boot) :
    Disciplined b (Remembers b r x) r x := by
  have hkept : ∀ p, Remembers b r x p →
      (step b r x).device.masters = r.device.masters.loadable ∧ p ≠ broadcastMac := by
    intro p hrem
    obtain ⟨hprod, hp⟩ := hrem.resolve_left fun hno => hno.1 hx
    exact ⟨(h.boot hx).2 (h.mode.symm.trans hprod), hp⟩
  refine ⟨fun p hrem hp hne => ?_, fun _ _ hrx => ?_, fun p hrem hp => ?_⟩
  · rw [(hkept p hrem).1] at hne
    exact absurd (Masters.loadable_primary hp (hkept p hrem).2) hne
  · cases hx.symm.trans hrx
  · rw [(hkept p hrem).1]
    exact Masters.loadable_secondary hp (hkept p hrem).2

/-- A step of a running device changes the masters only as it should. -/
theorem Sound.disciplined_running (h : Sound b dev r) (hi : x.2 ≠ .boot)
    (hreset : x.2 ≠ .resetButton)
    (hle : r.clockMs ≤ x.1.nowMs) (hs : r.device.status = .running) :
    Disciplined b (Remembers b r x) r x := by
  obtain ⟨e, i⟩ := x
  have hholds : ∀ p, Remembers b r (e, i) p → Device.Holds b r.device (e, i) p := by
    intro p hrem
    rcases hrem with ⟨-, hrun⟩ | ⟨hprod, hp⟩
    · exact .inl hrun
    · exact .inr ⟨h.flash (h.mode.symm.trans hprod) hs, hp⟩
  have hmasters := Device.masters_running hs
  refine ⟨fun p hrem hp hne => ?_, fun srcMac m hrx hm p hrem hp => ?_, fun p hrem hp => ?_⟩
  · rw [hmasters] at hp
    obtain ⟨srcMac, m, hrx, hn, hother, hnew, hsilent⟩ :=
      ((Device.masters_step hi hreset hs (hholds p hrem)).2 hp).resolve_left hne
    exact ⟨srcMac, m, hrx, hn, hother, hnew, (h.clocked hs).silent hle hsilent⟩
  · rw [hmasters] at hp
    refine ((Device.masters_step hi hreset hs (hholds p hrem)).2 hp).resolve_right ?_
    rintro ⟨srcMac', m', hrx', hn, -⟩
    -- a frame that is noted as a beacon is no acknowledgement
    have hi' : i = .rx srcMac m := hrx
    subst hi'
    have hno : Device.notedBeacon b r.device (e, .rx srcMac m) = none :=
      if_neg fun hc => absurd (hm.symm.trans hc.1) (by decide)
    rw [hno] at hn
    cases hn
  · rw [hmasters] at hp
    exact (Device.masters_step hi hreset hs (hholds p hrem)).1 hp

/-- A device that does not run keeps what it will load. -/
theorem disciplined_stopped {P : Mac → Prop} (hi : x.2 ≠ .boot) (hs : r.device.status ≠ .running) :
    Disciplined b P r x := by
  have hsame : (step b r x).device = r.device := Device.step_ignored hi hs
  refine ⟨fun p _ hp hne => ?_, fun _ _ _ _ p _ hp => ?_, fun p _ hp => ?_⟩
  · rw [hsame] at hne
    exact absurd hp hne
  · rw [hsame]
    exact hp
  · rw [hsame]
    exact hp

/-- An admissible step changes the masters only as it should. -/
theorem Sound.disciplined (h : Sound b dev r) (hadm : Admissible r x) :
    Disciplined b (Remembers b r x) r x := by
  obtain ⟨hreset, hclock⟩ := hadm
  by_cases hi : x.2 = .boot
  · exact h.disciplined_boot hi
  · by_cases hs : r.device.status = .running
    · exact h.disciplined_running hi hreset (hclock.resolve_left hi) hs
    · exact disciplined_stopped hi hs

/-- **An admissible step keeps the invariant.** -/
theorem Sound.step (h : Sound b dev r) (hadm : Admissible r x) : Sound b dev (step b r x) := by
  obtain ⟨hreset, hclock⟩ := hadm
  by_cases hi : x.2 = .boot
  · exact (h.boot hi).1
  have hle := hclock.resolve_left hi
  obtain ⟨e, i⟩ := x
  by_cases hs : r.device.status = .running
  · refine ⟨(Device.bootsInDevMode_step hreset).trans h.mode, fun hdev hs' => ?_, fun hs' => ?_⟩
    · exact Device.inFlash_step hi hreset hs' (h.flash hdev hs)
    · exact (h.clocked hs).step hi hle hs hs'
  · have hsame : (TrustRun.step b r (e, i)).device = r.device := Device.step_ignored hi hs
    refine ⟨?_, fun _ hs' => ?_, fun hs' => ?_⟩
    · rw [hsame]
      exact h.mode
    · rw [hsame] at hs'
      exact absurd hs' hs
    · rw [hsame] at hs'
      exact absurd hs' hs

/-- A device that was never switched on. -/
def blank (v : Nvs) : TrustRun := { device := Device.blank v }

theorem sound_blank (b : Board) (v : Nvs) : Sound b (bootsInDevMode b.config v) (blank v) where
  mode := rfl
  flash _ hs := by cases hs
  clocked hs := by cases hs

/-- **Trust on first use, along every run** whose clock does not run backwards and in which the
flash is not wiped.  In production, and in dev mode from one boot to the next: the primary master
gives way only to the origin of a beacon that is accepted at least nine seconds after the last one,
or after the boot; a join acknowledgement never changes it; and the secondary never changes.  Only
the broadcast address is forgotten by a restart in production, where the masters in flash are else
those in memory. -/
theorem disciplined_run {v : Nvs} {xs : List (Env × Input)}
    (hxs : Runs.Along (step b) Admissible (blank v) xs) :
    Runs.Along (step b) (fun r x => Disciplined b (Remembers b r x) r x) (blank v) xs ∧
      (bootsInDevMode b.config v = false →
        (Runs.run (step b) (blank v) xs).device.status = .running →
          InFlash (Runs.run (step b) (blank v) xs).device.node) := by
  have hstep : ∀ r x, Sound b (bootsInDevMode b.config v) r → Admissible r x →
      Sound b (bootsInDevMode b.config v) (step b r x) ∧ Disciplined b (Remembers b r x) r x :=
    fun _ _ h hadm => ⟨h.step hadm, h.disciplined hadm⟩
  refine ⟨Runs.along_of_invariant (sound_blank b v) hstep hxs, ?_⟩
  exact (Runs.run_invariant (sound_blank b v) (fun r x h hadm => (hstep r x h hadm).1) hxs).flash

/-- Every admissible run of the board is disciplined, whatever masters are known. -/
def AlwaysDisciplined (b : Board) : Prop :=
  ∀ (v : Nvs) (xs : List (Env × Input)), Runs.Along (step b) Admissible (blank v) xs →
    Runs.Along (step b) (Disciplined b fun _ => True) (blank v) xs

end TrustRun

namespace Sample

/-- A leaf of a dev build. -/
def devBoard : Board := ⟨{ config with devMode := true }, crypto, mac 1⟩

/-- A leaf that learns the master 7 from a beacon, is restarted, and hears the station 9. -/
def restarted : List (Env × Input) :=
  [(env 1 100, .boot), (env 1 200, .rx (mac 7) beacon), (env 1 100, .boot),
    (env 1 200, .rx (mac 9) (frame 9 MessageType.masterBeacon 1 1))]

/-- A leaf that is admitted under the broadcast address, is restarted, and hears the master 7. -/
def admittedByBroadcast : List (Env × Input) :=
  [(env 1 100, .boot), (env 1 200, .rx (mac 7) { joinAck with originMac := broadcastMac }),
    (env 1 100, .boot), (env 1 200, .rx (mac 7) beacon)]

end Sample

namespace TrustRun

set_option maxRecDepth 100000 in
/-- A production leaf that was restarted. -/
theorem disciplined_run_restarted :
    Runs.Along (step Sample.board) (fun r x => Disciplined Sample.board (Remembers Sample.board r x)
        r x) (blank {}) Sample.restarted ∧
      (bootsInDevMode Sample.board.config {} = false →
        (Runs.run (step Sample.board) (blank {}) Sample.restarted).device.status = .running →
          InFlash (Runs.run (step Sample.board) (blank {}) Sample.restarted).device.node) :=
  disciplined_run (by decide +kernel)

set_option maxRecDepth 100000 in
/-- **A restart in dev mode forgets the masters**, so that the next beacon is trusted at once; in
production it forgets the broadcast address. -/
theorem not_disciplined_restarted :
    ¬AlwaysDisciplined Sample.devBoard ∧ ¬AlwaysDisciplined Sample.board := by
  constructor
  · intro h
    have hrun := h {} Sample.restarted (by decide +kernel)
    have hboot := hrun.2.2.1.primary (Sample.mac 7) trivial (by decide +kernel) (by decide +kernel)
    obtain ⟨srcMac, m, hrx, -⟩ := hboot
    cases hrx
  · intro h
    have hrun := h {} Sample.admittedByBroadcast (by decide +kernel)
    have hboot := hrun.2.2.1.primary broadcastMac trivial (by decide +kernel) (by decide +kernel)
    obtain ⟨srcMac, m, hrx, -⟩ := hboot
    cases hrx

end TrustRun

end LatticeMesh
