import LatticeMesh.Device
import LatticeMesh.Lib.Answers
import LatticeMesh.Lib.Runs
import Mathlib.Data.List.Induction

/-!
# The motion sensor

The adapter of the motion sensor between its two contexts: the interrupt handler, which runs on a
rising edge and may do so between any two steps of the main task, and the main task, which brings
the adapter up and then calls `loop` again and again.  What the two share is a flag in the sensor, a
flag in the adapter, and whether the handler is attached.

## Main definitions

* `PirAdapter.detectMotion` — the interrupt handler.
* `PirAdapter.runStep` — one step of the main task, in `init` or in `loop`.
* `PirAdapter.run` — a run of the two contexts in some order, with the log of what happened.
* `PirAdapter.Phase` — where the flags stand at each step of the main task.
* `PirAdapter.Delivers` — every accepted edge is answered, once and in time.

## Main results

* `PirAdapter.phase_act` — every step keeps the flags where they should stand.
* `PirAdapter.owed_act` — one motion is unanswered exactly where the flags say so.
* `PirAdapter.spaced_act` — **sends are more than three seconds apart.**
* `PirAdapter.delivers` — **every order of edges and steps delivers every accepted edge.**
-/

namespace LatticeMesh

namespace PirAdapter

/-! ### The sensor -/

/-- The sensor: the flag that the handler sets, and whether the handler is attached. -/
structure Pir where
  motionDetected : Bool := false
  attached : Bool := false
  deriving DecidableEq

namespace Pir

def signalMotion (p : Pir) : Pir := { p with motionDetected := true }

def clearMotion (p : Pir) : Pir := { p with motionDetected := false }

def detachInterrupt (p : Pir) : Pir := { p with attached := false }

/-- Attach the handler; `ok` tells whether the interrupt service takes it. -/
def attachInterrupt (p : Pir) (ok : Bool) : Pir := { p with attached := ok }

end Pir

/-! ### The adapter -/

/-- The phases of the cooldown. -/
inductive PirState
  | idle
  | pendingSend
  | cooldown
  deriving DecidableEq

/-- The next step of the main task: first the steps of `init`, then those of a call of `loop`. -/
inductive Pc
  | initSensor
  | initAttach
  | initEnable
  | initDone
  /-- The task is between two calls of `loop`. -/
  | between
  | testMotion
  | setTrigger
  | setPending
  | clearMotion
  | testPending
  | setCooldown
  | sendMotion
  | testCooldown
  | setIdle
  | attach
  | enable
  | testHealth
  | sendHealth
  | leave
  /-- The adapter did not come up. -/
  | failed
  deriving DecidableEq

/-- The adapter, with the time `now` that the current call of `loop` has read. -/
structure State where
  pir : Pir := {}
  lastTrigger : UInt64 := 0
  state : PirState := .idle
  interruptEnabled : Bool := false
  initialized : Bool := false
  lastHealthMillis : UInt64 := 0
  pc : Pc := .initSensor
  now : UInt64 := 0
  deriving DecidableEq

/-- What happens in a run. -/
inductive Event
  /-- The handler took an edge. -/
  | accepted
  /-- An edge came while the interrupt was disabled. -/
  | ignored
  | loopBegun (now : UInt64)
  | loopEnded
  /-- The motion was sent through the mesh, in a call of `loop` at this time. -/
  | motionSent (now : UInt64)
  | healthSent
  /-- The interrupt was enabled, in this phase. -/
  | enabled (state : PirState)
  | attachFailed
  deriving DecidableEq

/-- One byte fits in a payload. -/
theorem motion_le : 0 + 1 ≤ 64 := by decide

/-- What the adapter hands to the mesh for a motion. -/
def motionData : Payload := Bytes.blit (Bytes.zero 64) 0 (Bytes.fill 1 1) motion_le

/-- The payload of a node health report: that of a health report under another opcode. -/
def nodeHealthData (s : Node) (nowMs : UInt64) : Payload :=
  buildHealthFrame s Opcode.nodeHealth nowMs

/-- What the adapter of the node `s` hands to the mesh in an event. -/
def Event.sent (s : Node) (nowMs : UInt64) : Event → List (AdapterType × Payload)
  | .motionSent _ => [(AdapterType.pir, motionData)]
  | .healthSent => [(AdapterType.serial, nodeHealthData s nowMs)]
  | _ => []

/-- Nothing that the sensor hands to the mesh is a command to the receiver. -/
theorem Event.not_control_of_sent {s : Node} {nowMs : UInt64} {e : Event}
    {p : AdapterType × Payload} (h : p ∈ e.sent s nowMs) : isControlOp p.1 p.2 = false := by
  cases e with
  | motionSent now =>
    obtain rfl := List.mem_singleton.1 h
    rfl
  | healthSent =>
    obtain rfl := List.mem_singleton.1 h
    rfl
  | _ => cases h

/-- The cooldown after a motion, in milliseconds. -/
def cooldownMs : UInt64 := 3000

/-- The interval between health reports, in milliseconds. -/
def healthReportIntervalMs : UInt64 := 30000

/-- The interrupt handler, on an edge. -/
def detectMotion (s : State) : State × Option Event :=
  if !s.interruptEnabled then (s, some .ignored)
  else
    ({ s with pir := s.pir.signalMotion.detachInterrupt, interruptEnabled := false },
      some .accepted)

/-- A rising edge; it reaches the handler if the handler is attached. -/
def edge (s : State) : State × Option Event :=
  if s.pir.attached then detectMotion s else (s, some .ignored)

/-- A call of `loop` begins; the main task begins none while it is in another one. -/
def beginLoop (s : State) (now : UInt64) : State × Option Event :=
  if s.pc = .between ∧ s.initialized = true then
    ({ s with pc := .testMotion, now := now }, some (.loopBegun now))
  else (s, none)

/-- One step of the main task; `ok` tells whether the hardware does what the step asks for. -/
def runStep (s : State) (ok : Bool) : State × Option Event :=
  match s.pc with
  -- setup: the sensor, its interrupt, and the flag of the adapter
  | .initSensor =>
    if ok then ({ s with pir := s.pir.clearMotion, pc := .initAttach }, none)
    else ({ s with pc := .failed }, none)
  | .initAttach =>
    if ok then ({ s with pir := s.pir.attachInterrupt ok, pc := .initEnable }, none)
    else ({ s with pir := s.pir.attachInterrupt ok, pc := .failed }, some .attachFailed)
  | .initEnable => ({ s with interruptEnabled := true, pc := .initDone }, some (.enabled s.state))
  | .initDone => ({ s with initialized := true, pc := .between }, none)
  | .between | .failed => (s, none)
  -- a motion that the interrupt noticed becomes pending
  | .testMotion =>
    ({ s with pc := if s.pir.motionDetected then .setTrigger else .testPending }, none)
  | .setTrigger => ({ s with lastTrigger := s.now, pc := .setPending }, none)
  | .setPending => ({ s with state := .pendingSend, pc := .clearMotion }, none)
  | .clearMotion => ({ s with pir := s.pir.clearMotion, pc := .testPending }, none)
  | .testPending =>
    -- a pending motion is sent, and the cooldown begins before the send
    ({ s with pc := if s.state = .pendingSend then .setCooldown else .testCooldown }, none)
  | .setCooldown => ({ s with state := .cooldown, pc := .sendMotion }, none)
  | .sendMotion => ({ s with pc := .testCooldown }, some (.motionSent s.now))
  -- the cooldown ends in the idle phase, with the interrupt attached again
  | .testCooldown =>
    ({ s with
      pc := if s.state = .cooldown && s.now - s.lastTrigger > cooldownMs then .setIdle
        else .testHealth }, none)
  | .setIdle => ({ s with state := .idle, pc := .attach }, none)
  | .attach =>
    if ok then ({ s with pir := s.pir.attachInterrupt ok, pc := .enable }, none)
    else ({ s with pir := s.pir.attachInterrupt ok, pc := .leave }, some .attachFailed)
  | .enable => ({ s with interruptEnabled := true, pc := .testHealth }, some (.enabled s.state))
  -- the health report, whatever the phase
  | .testHealth =>
    if s.now - s.lastHealthMillis ≥ healthReportIntervalMs then
      ({ s with lastHealthMillis := s.now, pc := .sendHealth }, none)
    else ({ s with pc := .leave }, none)
  | .sendHealth => ({ s with pc := .leave }, some .healthSent)
  | .leave => ({ s with pc := .between }, some .loopEnded)

/-! ### Runs -/

/-- What may happen next: an edge, a call of `loop`, or one step of the main task. -/
inductive Action
  | edge
  | loop (now : UInt64)
  | step (ok : Bool)
  deriving DecidableEq

/-- What an action does. -/
def act (s : State) : Action → State × Option Event
  | .edge => edge s
  | .loop now => beginLoop s now
  | .step ok => runStep s ok

/-- What an action does to the state and the log. -/
def next (x : State × List Event) (a : Action) : State × List Event :=
  ((act x.1 a).1, x.2 ++ (act x.1 a).2.toList)

/-- The state and the log after some actions, from power-up. -/
def run (as : List Action) : State × List Event := Runs.run next ({}, []) as

/-- The time of an action, if it has one. -/
def Action.time : Action → Option UInt64
  | .loop now => some now
  | _ => none

/-- The times of the actions do not go back. -/
def InOrder (as : List Action) : Prop := (as.filterMap Action.time).Pairwise (· ≤ ·)

/-- The hardware does what the main task asks for. -/
def Works (as : List Action) : Prop := ∀ a ∈ as, a ≠ .step false

instance (as : List Action) : Decidable (InOrder as) :=
  inferInstanceAs (Decidable (List.Pairwise _ _))

instance (as : List Action) : Decidable (Works as) := inferInstanceAs (Decidable (∀ a ∈ as, _))

theorem run_append (as : List Action) (a : Action) : run (as ++ [a]) = next (run as) a :=
  Runs.run_append as [a]

/-! ### Where the flags stand -/

/-- The interrupt is enabled and no motion was noticed. -/
structure Ready (s : State) : Prop where
  idle : s.state = .idle
  enabled : s.interruptEnabled = true
  quiet : s.pir.motionDetected = false
  attached : s.pir.attached = true

/-- A motion was noticed that the main task has not seen yet. -/
structure Waiting (s : State) : Prop where
  idle : s.state = .idle
  disabled : s.interruptEnabled = false
  noticed : s.pir.motionDetected = true

/-- The interrupt is disabled in the phase `p`, and no motion is noticed. -/
structure Disabled (s : State) (p : PirState) : Prop where
  state : s.state = p
  disabled : s.interruptEnabled = false
  quiet : s.pir.motionDetected = false

/-- The three situations between two calls of `loop`. -/
def Resting (s : State) : Prop := Ready s ∨ Waiting s ∨ Disabled s .cooldown

/-- Where the flags stand at each step of the main task. -/
def Phase (s : State) : Prop :=
  match s.pc with
  | .initSensor | .initAttach | .attach => Disabled s .idle
  | .initEnable | .enable => Disabled s .idle ∧ s.pir.attached = true
  | .initDone => Ready s ∨ Waiting s
  | .between | .testMotion | .testCooldown | .testHealth | .sendHealth | .leave => Resting s
  | .setTrigger => Waiting s
  | .setPending => Waiting s ∧ s.lastTrigger = s.now
  | .clearMotion => s.state = .pendingSend ∧ s.interruptEnabled = false ∧ s.lastTrigger = s.now
  | .testPending => Resting s ∨ Disabled s .pendingSend ∧ s.lastTrigger = s.now
  | .setCooldown => Disabled s .pendingSend ∧ s.lastTrigger = s.now
  | .sendMotion => Disabled s .cooldown ∧ s.lastTrigger = s.now
  | .setIdle => Disabled s .cooldown ∧ s.lastTrigger.toNat + cooldownMs.toNat < s.now.toNat
  | .failed => False

theorem phase_init : Phase {} := ⟨rfl, rfl, rfl⟩

variable {s : State} {l : List Event} {a : Action}

/-- The flags do not depend on the step that comes next. -/
theorem Resting.congr {t : State} (h : Resting s) (hp : t.pir = s.pir) (hs : t.state = s.state)
    (he : t.interruptEnabled = s.interruptEnabled) : Resting t := by
  rcases h with h | h | h
  · exact .inl ⟨hs.trans h.idle, he.trans h.enabled, hp ▸ h.quiet, hp ▸ h.attached⟩
  · exact .inr (.inl ⟨hs.trans h.idle, he.trans h.disabled, hp ▸ h.noticed⟩)
  · exact .inr (.inr ⟨hs.trans h.state, he.trans h.disabled, hp ▸ h.quiet⟩)

/-- The interrupt is enabled only where the adapter is ready. -/
theorem Phase.ready (h : Phase s) (he : s.interruptEnabled = true) :
    Ready s ∧ (s.pc = .initDone ∨ s.pc = .between ∨ s.pc = .testMotion ∨ s.pc = .testPending ∨
      s.pc = .testCooldown ∨ s.pc = .testHealth ∨ s.pc = .sendHealth ∨ s.pc = .leave) := by
  have hrest : Resting s → Ready s := by
    rintro (h | h | h)
    · exact h
    · exact absurd he (by simp [h.disabled])
    · exact absurd he (by simp [h.disabled])
  unfold Phase at h
  cases hpc : s.pc <;> simp only [hpc] at h
  case initSensor | initAttach | attach => exact absurd he (by simp [h.disabled])
  case initEnable | enable | setPending | setCooldown | sendMotion | setIdle =>
    exact absurd he (by simp [h.1.disabled])
  case setTrigger => exact absurd he (by simp [h.disabled])
  case clearMotion => exact absurd he (by simp [h.2.1])
  case initDone =>
    rcases h with h | h
    · exact ⟨h, by simp⟩
    · exact absurd he (by simp [h.disabled])
  case between | testMotion | testCooldown | testHealth | sendHealth | leave =>
    exact ⟨hrest h, by simp⟩
  case testPending =>
    rcases h with h | h
    · exact ⟨hrest h, by simp⟩
    · exact absurd he (by simp [h.1.disabled])

/-- An edge is taken where the interrupt is enabled, and changes nothing where it is not. -/
theorem edge_eq (h : Phase s) : edge s =
    if s.interruptEnabled then
      ({ s with pir := s.pir.signalMotion.detachInterrupt, interruptEnabled := false },
        some .accepted)
    else (s, some .ignored) := by
  unfold edge detectMotion
  cases he : s.interruptEnabled with
  | true => simp [(h.ready he).1.attached]
  | false => simp

/-- A motion may be noticed wherever the interrupt may be enabled. -/
theorem Waiting.phase (h : Waiting s) (hpc : s.pc = .initDone ∨ s.pc = .between ∨
    s.pc = .testMotion ∨ s.pc = .testPending ∨ s.pc = .testCooldown ∨ s.pc = .testHealth ∨
      s.pc = .sendHealth ∨ s.pc = .leave) : Phase s := by
  have hrest : Resting s := .inr (.inl h)
  unfold Phase
  rcases hpc with hpc | hpc | hpc | hpc | hpc | hpc | hpc | hpc <;> simp only [hpc]
  · exact .inr h
  · exact hrest
  · exact hrest
  · exact .inl hrest
  · exact hrest
  · exact hrest
  · exact hrest
  · exact hrest

/-- An edge keeps the flags where they should stand. -/
theorem phase_edge (h : Phase s) : Phase (edge s).1 := by
  rw [edge_eq h]
  split
  · rename_i he
    obtain ⟨hr, hpc⟩ := h.ready he
    exact Waiting.phase ⟨hr.idle, rfl, rfl⟩ hpc
  · exact h

theorem phase_beginLoop (h : Phase s) (now : UInt64) : Phase (beginLoop s now).1 := by
  unfold beginLoop
  split
  · rename_i hb
    simp only [Phase, hb.1] at h
    exact h.congr rfl rfl rfl
  · exact h

/-- A difference of times that do not go back. -/
theorem lt_of_cooldown {x y : UInt64} (hle : x ≤ y) (h : y - x > cooldownMs) :
    x.toNat + cooldownMs.toNat < y.toNat := by
  have hlt := UInt64.lt_iff_toNat_lt.1 h
  rw [UInt64.toNat_sub_of_le _ _ hle] at hlt
  omega

/-- A step of the main task keeps the flags where they should stand. -/
theorem phase_runStep (h : Phase s) (ht : s.lastTrigger ≤ s.now) : Phase (runStep s true).1 := by
  unfold Phase at h
  unfold runStep
  cases hpc : s.pc <;> simp only [hpc] at h ⊢
  -- the flags change only where the step of that phase writes them
  case initSensor => exact ⟨h.state, h.disabled, rfl⟩
  case initAttach => exact ⟨⟨h.state, h.disabled, h.quiet⟩, rfl⟩
  case initEnable => exact .inl ⟨h.1.state, rfl, h.1.quiet, h.2⟩
  case initDone =>
    rcases h with h | h
    · exact .inl ⟨h.idle, h.enabled, h.quiet, h.attached⟩
    · exact .inr (.inl ⟨h.idle, h.disabled, h.noticed⟩)
  case between => simpa [Phase, hpc] using h
  case testMotion =>
    cases hm : s.pir.motionDetected with
    | false => exact .inl (h.congr rfl rfl rfl)
    | true =>
      rcases h with h | h | h
      · exact absurd hm (by simp [h.quiet])
      · exact ⟨h.idle, h.disabled, hm⟩
      · exact absurd hm (by simp [h.quiet])
  case setTrigger => exact ⟨⟨h.idle, h.disabled, h.noticed⟩, rfl⟩
  case setPending => exact ⟨rfl, h.1.disabled, h.2⟩
  case clearMotion => exact .inr ⟨⟨h.1, h.2.1, rfl⟩, h.2.2⟩
  case testPending =>
    rcases h with h | h
    · have hne : s.state ≠ .pendingSend := by
        rcases h with h | h | h
        · simp [h.idle]
        · simp [h.idle]
        · simp [h.state]
      rw [if_neg hne]
      exact h.congr rfl rfl rfl
    · rw [if_pos h.1.state]
      exact ⟨⟨h.1.state, h.1.disabled, h.1.quiet⟩, h.2⟩
  case setCooldown => exact ⟨⟨rfl, h.1.disabled, h.1.quiet⟩, h.2⟩
  case sendMotion => exact .inr (.inr ⟨h.1.state, h.1.disabled, h.1.quiet⟩)
  -- only a cooldown that is over is left
  case testCooldown =>
    split
    · rename_i hc
      rw [Bool.and_eq_true, decide_eq_true_eq, decide_eq_true_eq] at hc
      have hd : Disabled s .cooldown := by
        rcases h with h | h | h
        · exact absurd hc.1 (by simp [h.idle])
        · exact absurd hc.1 (by simp [h.idle])
        · exact h
      exact ⟨⟨hd.state, hd.disabled, hd.quiet⟩, lt_of_cooldown ht hc.2⟩
    · exact h.congr rfl rfl rfl
  case setIdle => exact ⟨rfl, h.1.disabled, h.1.quiet⟩
  case attach => exact ⟨⟨h.state, h.disabled, h.quiet⟩, rfl⟩
  case enable => exact .inl ⟨h.1.state, rfl, h.1.quiet, h.2⟩
  case testHealth =>
    split
    · exact h.congr rfl rfl rfl
    · exact h.congr rfl rfl rfl
  case sendHealth | leave => exact h.congr rfl rfl rfl

theorem phase_act (h : Phase s) (ht : s.lastTrigger ≤ s.now) (ha : a ≠ .step false) :
    Phase (act s a).1 := by
  cases a with
  | edge => exact phase_edge h
  | loop now => exact phase_beginLoop h now
  | step ok =>
    obtain rfl : ok = true := by simpa using ha
    exact phase_runStep h ht

/-! ### Edges and sends -/

def Event.isEdge : Event → Bool
  | .accepted => true
  | _ => false

def Event.isSend : Event → Bool
  | .motionSent _ => true
  | _ => false

/-- A motion was noticed and is not sent yet. -/
def unanswered (s : State) : Bool :=
  s.pir.motionDetected || s.state = .pendingSend || s.pc = .sendMotion

/-- Every accepted edge but the unanswered one is answered. -/
def Owed (x : State × List Event) : Prop :=
  x.2.countP Event.isEdge = x.2.countP Event.isSend + (unanswered x.1).toNat

theorem Resting.unanswered_eq (h : Resting s) (hpc : s.pc ≠ .sendMotion) :
    unanswered s = s.pir.motionDetected := by
  have hs : s.state ≠ .pendingSend := by
    rcases h with h | h | h
    · simp [h.idle]
    · simp [h.idle]
    · simp [h.state]
  simp [unanswered, hs, hpc]

/-- An event that answers no edge and is none leaves the account as it is. -/
theorem Owed.of_eq {t : State} {e : Option Event} (h : Owed (s, l))
    (he : e.toList.countP Event.isEdge + (unanswered s).toNat =
      e.toList.countP Event.isSend + (unanswered t).toNat) : Owed (t, l ++ e.toList) := by
  unfold Owed at h ⊢
  simp only [List.countP_append] at h ⊢
  omega

/-- One motion is unanswered exactly where the flags say so. -/
theorem owed_act (hp : Phase s) (ha : a ≠ .step false) :
    (act s a).2.toList.countP Event.isEdge + (unanswered s).toNat =
      (act s a).2.toList.countP Event.isSend + (unanswered (act s a).1).toNat := by
  cases a with
  | edge =>
    show (edge s).2.toList.countP _ + _ = (edge s).2.toList.countP _ + (unanswered (edge s).1).toNat
    rw [edge_eq hp]
    -- an edge counts only where the interrupt is ready, and then nothing is unanswered
    split
    · rename_i he
      obtain ⟨hr, hpc⟩ := hp.ready he
      have hne : s.pc ≠ .sendMotion := by
        intro h
        simp [h] at hpc
      simp [unanswered, Pir.signalMotion, Pir.detachInterrupt, hr.quiet, hr.idle, hne,
        Event.isEdge, Event.isSend]
    · simp [Event.isEdge, Event.isSend]
  | loop now =>
    show (beginLoop s now).2.toList.countP _ + _ =
      (beginLoop s now).2.toList.countP _ + (unanswered (beginLoop s now).1).toNat
    unfold beginLoop
    split
    · rename_i hb
      simp [unanswered, hb.1, Event.isEdge, Event.isSend]
    · simp
  | step ok =>
    obtain rfl : ok = true := by simpa using ha
    show (runStep s true).2.toList.countP _ + _ =
      (runStep s true).2.toList.countP _ + (unanswered (runStep s true).1).toNat
    unfold Phase at hp
    unfold runStep
    -- the flag moves from the sensor to the phase and from there to the send
    cases hpc : s.pc <;> simp only [hpc] at hp ⊢
    case initSensor => simp [unanswered, Pir.clearMotion, hpc, hp.quiet]
    case initAttach => simp [unanswered, Pir.attachInterrupt, hpc]
    case initEnable | enable => simp [unanswered, hpc, Event.isEdge, Event.isSend]
    case initDone => simp [unanswered, hpc]
    case setIdle => simp [unanswered, hpc, hp.1.state]
    case between => simp
    case testMotion => cases hm : s.pir.motionDetected <;> simp [unanswered, hpc, hm]
    case setTrigger => simp [unanswered, hp.noticed]
    case setPending => simp [unanswered, hp.1.noticed]
    case clearMotion => simp [unanswered, hp.1]
    case testPending => by_cases hs : s.state = .pendingSend <;> simp [unanswered, hpc, hs]
    case setCooldown => simp [unanswered, hp.1.state]
    case sendMotion => simp [unanswered, hpc, hp.1.quiet, hp.1.state, Event.isEdge, Event.isSend]
    case testCooldown => split <;> simp [unanswered, hpc]
    case attach => simp [unanswered, Pir.attachInterrupt, hpc]
    case testHealth => split <;> simp [unanswered, hpc]
    case sendHealth | leave => simp [unanswered, hpc, Event.isEdge, Event.isSend]

/-! ### The time between two sends -/

def Event.sendTime : Event → Option UInt64
  | .motionSent now => some now
  | _ => none

/-- The times of the sends, the first one first. -/
def sendTimes (l : List Event) : List UInt64 := l.filterMap Event.sendTime

/-- The motion was sent and the cooldown is not over. -/
def Cooling (s : State) : Prop := s.state = .cooldown ∧ s.pc ≠ .sendMotion

instance (s : State) : Decidable (Cooling s) := inferInstanceAs (Decidable (_ ∧ _))

/-- Sends are more than three seconds apart, and so is the last one from a send that may come. -/
structure Spaced (x : State × List Event) : Prop where
  trigger_le : x.1.lastTrigger ≤ x.1.now
  sorted : (sendTimes x.2).Pairwise fun a b => a.toNat + cooldownMs.toNat < b.toNat
  last : ∀ t ∈ sendTimes x.2, if Cooling x.1 then t ≤ x.1.lastTrigger
    else t.toNat + cooldownMs.toNat < x.1.now.toNat

theorem spaced_init : Spaced ({}, []) :=
  ⟨UInt64.le_refl _, List.Pairwise.nil, fun _ h => absurd h List.not_mem_nil⟩

/-- A step that sends nothing and leaves the cooldown alone. -/
theorem Spaced.frame {t : State} {e : Option Event} (h : Spaced (s, l))
    (he : ∀ x ∈ e, x.sendTime = none) (hc : Cooling t ↔ Cooling s)
    (hl : t.lastTrigger = s.lastTrigger) (hn : s.now ≤ t.now) : Spaced (t, l ++ e.toList) := by
  have hsame : sendTimes (l ++ e.toList) = sendTimes l := by
    unfold sendTimes
    rw [List.filterMap_append]
    cases e with
    | none => simp
    | some x => simp [he x rfl]
  refine ⟨?_, hsame ▸ h.sorted, ?_⟩
  · show t.lastTrigger ≤ t.now
    rw [hl]
    exact UInt64.le_trans h.trigger_le hn
  · intro u hu
    rw [hsame] at hu
    have hlast := h.last u hu
    have hle := UInt64.le_iff_toNat_le.1 hn
    by_cases hs : Cooling s
    · rw [if_pos hs] at hlast
      rw [if_pos (hc.2 hs), hl]
      exact hlast
    · rw [if_neg hs] at hlast
      rw [if_neg fun h => hs (hc.1 h)]
      exact lt_of_lt_of_le hlast hle

/-- Outside of a cooldown that goes on. -/
theorem Spaced.last_of_not {x : State × List Event} (h : Spaced x) (hc : ¬Cooling x.1) {t : UInt64}
    (ht : t ∈ sendTimes x.2) : t.toNat + cooldownMs.toNat < x.1.now.toNat := by
  have hlast := h.last t ht
  rwa [if_neg hc] at hlast

/-- **Sends are more than three seconds apart.** -/
theorem spaced_act (hp : Phase s) (h : Spaced (s, l)) (ha : a ≠ .step false)
    (ht : ∀ now ∈ a.time, s.now ≤ now) : Spaced (next (s, l) a) := by
  cases a with
  | edge =>
    show Spaced ((edge s).1, l ++ (edge s).2.toList)
    rw [edge_eq hp]
    split
    · exact h.frame (by rintro _ ⟨⟩; rfl) Iff.rfl rfl (UInt64.le_refl _)
    · exact h.frame (by rintro _ ⟨⟩; rfl) Iff.rfl rfl (UInt64.le_refl _)
  | loop now =>
    show Spaced ((beginLoop s now).1, l ++ (beginLoop s now).2.toList)
    unfold beginLoop
    split
    · rename_i hb
      refine h.frame (by rintro _ ⟨⟩; rfl) ?_ rfl (ht now rfl)
      simp [Cooling, hb.1]
    · exact h.frame (by rintro _ ⟨⟩) Iff.rfl rfl (UInt64.le_refl _)
  | step ok =>
    obtain rfl : ok = true := by simpa using ha
    show Spaced ((runStep s true).1, l ++ (runStep s true).2.toList)
    unfold Phase at hp
    unfold runStep
    cases hpc : s.pc <;> simp only [hpc] at hp ⊢
    case setTrigger =>
      -- no cooldown goes on, so the old trigger does not matter
      have hno : ¬Cooling s := fun hc => by simp [Cooling, hp.idle] at hc
      refine ⟨UInt64.le_refl _, by simpa using h.sorted, ?_⟩
      intro t ht
      rw [if_neg (by simp [Cooling, hp.idle])]
      exact h.last_of_not hno (by simpa using ht)
    case setCooldown =>
      refine h.frame (by rintro _ ⟨⟩) ?_ rfl (UInt64.le_refl _)
      simp [Cooling, hp.1.state]
    -- the trigger of this send lies behind all earlier sends
    case sendMotion =>
      have hno : ¬Cooling s := by simp [Cooling, hpc]
      have htimes : sendTimes (l ++ [.motionSent s.now]) = sendTimes l ++ [s.now] := by
        simp [sendTimes, Event.sendTime]
      refine ⟨h.trigger_le, ?_, ?_⟩
      · show (sendTimes (l ++ [.motionSent s.now])).Pairwise _
        rw [htimes]
        refine List.pairwise_append.2 ⟨h.sorted, List.pairwise_singleton _ _, ?_⟩
        intro t ht u hu
        rw [List.mem_singleton.1 hu]
        exact h.last_of_not hno ht
      · intro t ht
        rw [if_pos (by simp [Cooling, hp.1.state])]
        show t ≤ s.lastTrigger
        rw [hp.2, UInt64.le_iff_toNat_le]
        rcases List.mem_append.1 (htimes ▸ ht : t ∈ sendTimes l ++ [s.now]) with hold | hnew
        · have hlt : t.toNat + cooldownMs.toNat < s.now.toNat := h.last_of_not hno hold
          omega
        · rw [List.mem_singleton.1 hnew]
    case setIdle =>
      -- the cooldown is over: what was not after the trigger lies far enough back
      have hcool : Cooling s := by simp [Cooling, hpc, hp.1.state]
      refine ⟨h.trigger_le, by simpa using h.sorted, ?_⟩
      intro t ht
      rw [if_neg (by simp [Cooling])]
      have hlast := h.last t (by simpa using ht)
      rw [if_pos hcool, UInt64.le_iff_toNat_le] at hlast
      exact lt_of_le_of_lt (Nat.add_le_add_right hlast _) hp.2
    case testHealth =>
      split
      · exact h.frame (by rintro _ ⟨⟩) (by simp [Cooling, hpc]) rfl (UInt64.le_refl _)
      · exact h.frame (by rintro _ ⟨⟩) (by simp [Cooling, hpc]) rfl (UInt64.le_refl _)
    case testMotion =>
      refine h.frame (by rintro _ ⟨⟩) ?_ rfl (UInt64.le_refl _)
      cases s.pir.motionDetected <;> simp [Cooling, hpc]
    case testPending =>
      refine h.frame (by rintro _ ⟨⟩) ?_ rfl (UInt64.le_refl _)
      split <;> simp [Cooling, hpc]
    case testCooldown =>
      refine h.frame (by rintro _ ⟨⟩) ?_ rfl (UInt64.le_refl _)
      split <;> simp [Cooling, hpc]
    case setPending =>
      refine h.frame (by rintro _ ⟨⟩) ?_ rfl (UInt64.le_refl _)
      simp [Cooling, hp.1.idle]
    case initEnable | enable | sendHealth | leave =>
      exact h.frame (by rintro _ ⟨⟩; rfl) (by simp [Cooling, hpc]) rfl (UInt64.le_refl _)
    case initSensor | initAttach | initDone | between | clearMotion | attach =>
      exact h.frame (by rintro _ ⟨⟩) (by simp [Cooling, hpc]) rfl (UInt64.le_refl _)

/-! ### The answer comes in time -/

def Event.isBegin : Event → Bool
  | .loopBegun _ => true
  | _ => false

/-- The number of edges that were accepted since the last call of `loop` began. -/
def edgesSinceBegin (l : List Event) : ℕ :=
  (l.reverse.takeWhile fun e => !e.isBegin).countP Event.isEdge

theorem edgesSinceBegin_append (l : List Event) (e : Event) : edgesSinceBegin (l ++ [e]) =
    if e.isBegin then 0 else edgesSinceBegin l + e.isEdge.toNat := by
  unfold edgesSinceBegin
  rw [List.reverse_append, List.reverse_singleton, List.singleton_append, List.takeWhile_cons]
  cases hb : e.isBegin with
  | true => simp
  | false => cases he : e.isEdge <;> simp [he]

/-- The edges behind the last call that began. -/
theorem edgesSinceBegin_eq {pre b : List Event} {now : UInt64} (hb : b.countP Event.isBegin = 0) :
    edgesSinceBegin (pre ++ .loopBegun now :: b) = b.countP Event.isEdge := by
  have hall : ∀ e ∈ b.reverse, (!e.isBegin) = true := by
    intro e he
    simpa using List.countP_eq_zero.1 hb e (List.mem_reverse.1 he)
  unfold edgesSinceBegin
  rw [List.reverse_append, List.reverse_cons, List.append_assoc, List.singleton_append,
    List.takeWhile_append_of_pos hall, List.takeWhile_cons_of_neg (by simp [Event.isBegin]),
    List.append_nil, List.countP_reverse]

/-- Whether the current call of `loop` has looked at the sensor. -/
def Pc.tested : Pc → Bool
  | .testPending | .setCooldown | .sendMotion | .testCooldown | .setIdle | .attach | .enable
  | .testHealth | .sendHealth | .leave => true
  | _ => false

/-- A motion that a call of `loop` has not seen was noticed during that call, and what was accepted
before a call is answered when the call ends. -/
structure Prompt (x : State × List Event) : Prop where
  fresh : x.1.pc.tested = true → x.1.pir.motionDetected = true → 1 ≤ edgesSinceBegin x.2
  answered : ∀ pre now b post, x.2 = pre ++ .loopBegun now :: (b ++ .loopEnded :: post) →
    b.countP Event.isBegin = 0 →
    pre.countP Event.isEdge ≤ (pre ++ .loopBegun now :: b).countP Event.isSend

theorem prompt_init : Prompt ({}, []) := by
  refine ⟨fun _ hm => Bool.noConfusion hm, ?_⟩
  intro pre now b post h
  simp at h

/-- The end of a call is the only event that ends one. -/
theorem act_loopEnded (h : (act s a).2 = some .loopEnded) : s.pc = .leave := by
  cases a with
  | edge =>
    simp only [act, edge, detectMotion] at h
    split at h
    · split at h <;> cases h
    · cases h
  | loop now =>
    simp only [act, beginLoop] at h
    split at h <;> cases h
  | step ok =>
    simp only [act, runStep] at h
    cases hpc : s.pc <;> simp only [hpc] at h
    case leave => rfl
    case initSensor | initAttach | attach | testHealth => split at h <;> cases h
    all_goals cases h

/-- A call that looked at the sensor and still has a motion before it: the edge came in between. -/
theorem fresh_act (hp : Phase s) (h : Prompt (s, l)) (ha : a ≠ .step false)
    (htested : (act s a).1.pc.tested = true) (hm : (act s a).1.pir.motionDetected = true) :
    1 ≤ edgesSinceBegin (l ++ (act s a).2.toList) := by
  have hkeep : ∀ e : Event, e.isBegin = false → 1 ≤ edgesSinceBegin l →
      1 ≤ edgesSinceBegin (l ++ [e]) := by
    intro e he hl
    rw [edgesSinceBegin_append, if_neg (by simp [he])]
    omega
  -- an edge that is accepted is the fresh one itself
  cases a with
  | edge =>
    simp only [act] at htested hm ⊢
    rw [edge_eq hp] at htested hm ⊢
    split at htested
    · rename_i he
      rw [if_pos he]
      show 1 ≤ edgesSinceBegin (l ++ [.accepted])
      rw [edgesSinceBegin_append, if_neg (by decide)]
      exact Nat.le_add_left _ _
    · rename_i he
      rw [if_neg he] at hm ⊢
      exact hkeep _ rfl (h.fresh htested hm)
  | loop now =>
    simp only [act, beginLoop] at htested hm ⊢
    split at htested
    · cases htested
    · rename_i hb
      rw [if_neg hb] at hm ⊢
      simpa using h.fresh htested hm
  | step ok =>
    obtain rfl : ok = true := by simpa using ha
    -- a step behind the test of the sensor leaves the flag as it was
    unfold Phase at hp
    simp only [act, runStep] at htested hm ⊢
    cases hpc : s.pc <;> simp only [hpc] at hp htested hm ⊢
    case initSensor | initAttach | initEnable | initDone | setTrigger | setPending | leave =>
      cases htested
    case between => simp [Pc.tested] at htested
    case testMotion => simp [hm, Pc.tested] at htested
    case clearMotion => cases hm
    case testPending | setCooldown | testCooldown | setIdle | attach =>
      simpa using h.fresh (by simp [hpc, Pc.tested]) hm
    case sendMotion | enable | sendHealth =>
      exact hkeep _ rfl (h.fresh (by simp [hpc, Pc.tested]) hm)
    case testHealth =>
      split at hm
      · rename_i hd
        rw [if_pos hd]
        simpa using h.fresh (by simp [hpc, Pc.tested]) hm
      · rename_i hd
        rw [if_neg hd]
        simpa using h.fresh (by simp [hpc, Pc.tested]) hm

/-- What was accepted before a call is answered when the call ends. -/
theorem prompt_act (hp : Phase s) (ho : Owed (s, l)) (h : Prompt (s, l)) (ha : a ≠ .step false) :
    Prompt (next (s, l) a) := by
  refine ⟨fresh_act hp h ha, ?_⟩
  intro pre now b post heq hb
  change l ++ (act s a).2.toList = _ at heq
  cases he : (act s a).2 with
  | none =>
    rw [he, Option.toList_none, List.append_nil] at heq
    exact h.answered pre now b post heq hb
  | some e =>
    rw [he, Option.toList_some] at heq
    -- only the step that leaves `loop` can end the call
    rcases List.eq_nil_or_concat' post with rfl | ⟨post, x, rfl⟩
    · -- the call ends with this step
      have hsplit : l ++ [e] = (pre ++ .loopBegun now :: b) ++ [.loopEnded] := by simpa using heq
      obtain ⟨rfl, hx⟩ := List.append_inj' hsplit rfl
      obtain rfl := (List.cons.inj hx).1
      have hpc := act_loopEnded he
      have hrest : Resting s := by simpa only [Phase, hpc] using hp
      have howed := ho
      unfold Owed at howed
      rw [hrest.unanswered_eq (by simp [hpc])] at howed
      have hsince : edgesSinceBegin (pre ++ .loopBegun now :: b) = b.countP Event.isEdge :=
        edgesSinceBegin_eq hb
      have hfresh := h.fresh (by simp [hpc, Pc.tested])
      simp only [List.countP_append, List.countP_cons, Event.isEdge, Event.isSend] at howed ⊢
      -- nothing was noticed since, so every edge is answered
      cases hm : s.pir.motionDetected with
      | false =>
        rw [hm] at howed
        simp only [Bool.toNat_false] at howed
        omega
      -- one is unanswered, and it came after the call began
      | true =>
        have hone := hfresh hm
        rw [hm] at howed
        simp only [Bool.toNat_true] at howed hone
        omega
    · have hsplit : l ++ [e] = (pre ++ .loopBegun now :: (b ++ .loopEnded :: post)) ++ [x] := by
        simpa using heq
      exact h.answered pre now b post (List.append_inj' hsplit rfl).1 hb

/-! ### Every order of edges and steps -/

/-- The interrupt is enabled in the idle phase alone. -/
theorem enabled_idle {p : PirState} (hp : Phase s) (ha : a ≠ .step false)
    (he : (act s a).2 = some (.enabled p)) : p = .idle := by
  cases a with
  | edge =>
    simp only [act, edge, detectMotion] at he
    split at he
    · split at he <;> cases he
    · cases he
  | loop now =>
    simp only [act, beginLoop] at he
    split at he <;> cases he
  | step ok =>
    obtain rfl : ok = true := by simpa using ha
    unfold Phase at hp
    simp only [act, runStep] at he
    cases hpc : s.pc <;> simp only [hpc] at hp he
    case initEnable | enable =>
      obtain rfl := Event.enabled.inj (Option.some.inj he)
      exact hp.1.state
    case initSensor | initAttach | attach | testHealth => split at he <;> cases he
    all_goals cases he

/-- What every action keeps. -/
structure Inv (x : State × List Event) : Prop where
  phase : Phase x.1
  owed : Owed x
  balanced : Answers.Balanced Event.isEdge Event.isSend x.2
  spaced : Spaced x
  prompt : Prompt x
  idle : ∀ p, .enabled p ∈ x.2 → p = .idle

theorem inv_init : Inv ({}, []) :=
  ⟨phase_init, rfl, Answers.balanced_nil, spaced_init, prompt_init,
    fun _ h => absurd h List.not_mem_nil⟩

theorem Owed.next {x : State × List Event} (h : Owed x) (hp : Phase x.1) (ha : a ≠ .step false) :
    Owed (next x a) := by
  have hact := owed_act hp ha
  unfold Owed at h ⊢
  unfold PirAdapter.next
  simp only [List.countP_append]
  omega

theorem inv_next {x : State × List Event} (h : Inv x) (ha : a ≠ .step false)
    (ht : ∀ now ∈ a.time, x.1.now ≤ now) : Inv (next x a) := by
  have howed := h.owed.next h.phase ha
  refine ⟨phase_act h.phase h.spaced.trigger_le ha, howed, ?_, spaced_act h.phase h.spaced ha ht,
    prompt_act h.phase h.owed h.prompt ha, ?_⟩
  -- the account stays even, or one edge ahead
  · unfold Owed at howed
    unfold next at howed ⊢
    dsimp only at howed ⊢
    have hone := (unanswered (act x.1 a).1).toNat_le
    cases he : (act x.1 a).2 with
    | none =>
      rw [Option.toList_none, List.append_nil]
      exact h.balanced
    | some e =>
      rw [he, Option.toList_some] at howed
      exact h.balanced.append (by omega) (by omega)
  · intro p hmem
    rcases List.mem_append.1 hmem with hold | hnew
    · exact h.idle p hold
    · exact enabled_idle h.phase ha (Option.mem_toList.1 hnew)

theorem now_act (s : State) (a : Action) :
    (act s a).1.now = s.now ∨ a.time = some (act s a).1.now := by
  cases a with
  | edge =>
    left
    simp only [act, edge, detectMotion]
    split
    · split <;> rfl
    · rfl
  | loop now =>
    simp only [act, beginLoop]
    split
    · exact .inr rfl
    · exact .inl rfl
  | step ok =>
    left
    simp only [act, runStep]
    cases hpc : s.pc <;> simp only
    case initSensor | initAttach | attach | testHealth => split <;> rfl

/-- The time of the current call of `loop` is the time of an action. -/
theorem now_run (as : List Action) :
    (run as).1.now = 0 ∨ (run as).1.now ∈ as.filterMap Action.time := by
  induction as using List.reverseRecOn with
  | nil => exact .inl rfl
  | append_singleton as a ih =>
    rw [run_append, List.filterMap_append]
    rcases now_act (run as).1 a with h | h
    · rw [next, h]
      exact ih.imp_right (List.mem_append_left _)
    · refine .inr (List.mem_append_right _ ?_)
      simp [next, h]

theorem inv_run {as : List Action} (hw : Works as) (ho : InOrder as) : Inv (run as) := by
  induction as using List.reverseRecOn with
  | nil => exact inv_init
  | append_singleton as a ih =>
    unfold InOrder at ho
    rw [List.filterMap_append] at ho
    obtain ⟨hbefore, -, hlast⟩ := List.pairwise_append.1 ho
    rw [run_append]
    refine inv_next (ih (fun b hb => hw b (List.mem_append_left _ hb)) hbefore)
      (hw a (by simp)) ?_
    intro now hnow
    rcases now_run as with h0 | hmem
    · rw [h0]
      exact UInt64.zero_le
    · exact hlast _ hmem now (by simpa using hnow)

/-- Every accepted edge of the run is answered, once and in time. -/
structure Delivers (x : State × List Event) : Prop where
  /-- An edge that comes now is accepted if the interrupt is enabled, and then it disables it. -/
  accepts : x.1.interruptEnabled = true →
    (edge x.1).2 = some .accepted ∧ (edge x.1).1.interruptEnabled = false
  /-- An edge that comes now changes nothing if the interrupt is disabled. -/
  ignores : x.1.interruptEnabled = false → edge x.1 = (x.1, some .ignored)
  /-- At no time there were more sends than accepted edges. -/
  nothing_else : ∀ pre, pre <+: x.2 → pre.countP Event.isSend ≤ pre.countP Event.isEdge
  /-- Between two accepted edges there is exactly one send. -/
  once : ∀ pre between post, x.2 = pre ++ .accepted :: (between ++ .accepted :: post) →
    .accepted ∉ between → between.countP Event.isSend = 1
  /-- After the last accepted edge there is at most one send. -/
  last : ∀ pre post, x.2 = pre ++ .accepted :: post → .accepted ∉ post →
    post.countP Event.isSend ≤ 1
  /-- The answer to an accepted edge comes before the end of the first call of `loop` that begins
  after the edge, and it is the first thing that happens to edges and sends. -/
  prompt : ∀ pre before now call post,
    x.2 = pre ++ .accepted :: (before ++ .loopBegun now :: (call ++ .loopEnded :: post)) →
    before.countP Event.isBegin = 0 → call.countP Event.isBegin = 0 → .loopEnded ∉ call →
    ∃ quiet t rest, before ++ .loopBegun now :: call = quiet ++ .motionSent t :: rest ∧
      .accepted ∉ quiet ∧ quiet.countP Event.isSend = 0
  /-- Sends are more than three seconds apart. -/
  spaced : (sendTimes x.2).Pairwise fun a b => a.toNat + 3000 < b.toNat
  /-- The interrupt is enabled in the idle phase alone. -/
  idle : (∀ p, .enabled p ∈ x.2 → p = .idle) ∧
    (x.1.interruptEnabled = true → x.1.state = .idle)

theorem countP_isEdge_eq_zero {b : List Event} : b.countP Event.isEdge = 0 ↔ .accepted ∉ b := by
  rw [List.countP_eq_zero]
  constructor
  · intro h hmem
    exact h _ hmem rfl
  · rintro h (_ | _) hmem <;> simp [Event.isEdge]
    exact h hmem

/-- **Every order of edges and steps delivers every accepted edge.** -/
theorem delivers {as : List Action} (hw : Works as) (ho : InOrder as) : Delivers (run as) := by
  have hinv := inv_run hw ho
  have hbal := hinv.balanced
  refine ⟨?_, ?_, ?_, ?_, ?_, ?_, hinv.spaced.sorted, hinv.idle, ?_⟩
  · intro he
    rw [edge_eq hinv.phase, if_pos he]
    exact ⟨rfl, rfl⟩
  · intro he
    rw [edge_eq hinv.phase, if_neg (by simp [he])]
  · intro pre hpre
    exact (hbal pre hpre).1
  · intro pre between post heq hno
    exact hbal.count_between heq rfl rfl rfl rfl (countP_isEdge_eq_zero.2 hno)
  · intro pre post heq hno
    exact hbal.count_after heq rfl rfl (countP_isEdge_eq_zero.2 hno)
  · intro pre before now call post heq hbefore hcall _
    -- what was accepted before the call is answered when it ends
    have hans := hinv.prompt.answered (pre ++ .accepted :: before) now call post
      (by rw [heq]; simp) hcall
    have hsplitAt : (run as).2 = pre ++ .accepted :: ((before ++ .loopBegun now :: call) ++
        .loopEnded :: post) := by
      rw [heq]
      simp
    have hcount : pre.countP Event.isEdge + 1 ≤
        (pre ++ .accepted :: (before ++ .loopBegun now :: call)).countP Event.isSend := by
      simp only [List.countP_append, List.countP_cons, Event.isEdge, Event.isSend] at hans ⊢
      simp at hans ⊢
      omega
    obtain ⟨quiet, x, rest, hsplit, hx, hquiet⟩ := hbal.answered hsplitAt rfl rfl hcount
    have hsend : ∃ t, x = .motionSent t := by
      cases x <;> simp [Event.isSend] at hx
      exact ⟨_, rfl⟩
    obtain ⟨t, rfl⟩ := hsend
    refine ⟨quiet, t, rest, hsplit, ?_, ?_⟩
    · intro hmem
      exact absurd (hquiet _ hmem).1 (by decide)
    · rw [List.countP_eq_zero]
      intro y hy
      simp [(hquiet y hy).2]
  · intro he
    exact (hinv.phase.ready he).1.idle

/-- An edge during a call of `loop`, after the call has looked at the sensor, and another call. -/
def edgeInCall : List Action :=
  List.replicate 4 (.step true) ++
    [.loop 100, .step true, .edge, .step true, .step true, .step true, .step true, .loop 200] ++
    List.replicate 11 (.step true)

/-- The edge in the first call is answered in the second one. -/
theorem delivers_edgeInCall :
    sendTimes (run edgeInCall).2 = [200] ∧ Delivers (run edgeInCall) :=
  ⟨by decide, delivers (by decide) (by decide)⟩

end PirAdapter

end LatticeMesh
