import LatticeMesh.Reachable
import LatticeMesh.Lib.History

/-!
# What is sealed

A node seals what its own adapters and its own route reporter handed over, as long as no frame
under its own address comes back to it and is taken for one of its own.

## Main definitions

* `BuiltHere`, `SealedHere` — a frame that this node built, and one that it built and sealed at
  once.
* `OwnSeals` — every seal of a history is of such a frame.
* `Device.NoReseal` — no frame that was received is sealed.

## Main results

* `ownSeals_run` — **without such a frame, a device only ever seals its own frames.**
* `not_ownSeals_reflected` — one reflected frame is sealed as it is.
-/

namespace LatticeMesh

open EffectSpec Relation History

/-! ### Own frames -/

/-- The input that an event is, if it is one. -/
def Event.input? : Event → Option Input
  | .input i => some i
  | _ => none

/-- The input that was handled last. -/
def lastInput (tr : List Event) : Option Input := tr.findSome? Event.input?

/-- The frame `m` was built in the step that is going on, from what its input handed over. -/
def BuiltHere (tr : List Event) (m : Message) : Prop :=
  ∃ w i s, lastInput tr = some i ∧ s.deviceMac = m.originMac ∧ OwnPayload w i s m.data

/-- The frame `m` was built here, passed the seal guard, and is sealed at once. -/
def SealedHere (tr : List Event) (m : Message) : Prop :=
  ∃ m' tr', tr = .guarded m.epochNum m.seqNum :: .built m' :: tr' ∧
    m = { m' with targetMac := m.targetMac } ∧ BuiltHere tr' m'

/-- Every frame that was sealed is this node's own. -/
def OwnSeals (tr : List Event) : Prop :=
  ∀ es key m tr', tr = es ++ .sealed key m :: tr' → SealedHere tr' m

/-- The step does not seal a frame that was received. -/
def Device.NoReseal (b : Board) (d : Device) (x : Env × Input) : Prop :=
  d.status = .running → resealsUplink (b.world x.1) d.node x.2 = false

instance (b : Board) (d : Device) (x : Env × Input) : Decidable (Device.NoReseal b d x) :=
  inferInstanceAs (Decidable (_ → _))

/-- The origin of a frame, event by event. -/
def OwnEvent (e : Event) (tr : List Event) : Prop :=
  match e with
  | .built m => BuiltHere tr m
  | .sealed _ m => SealedHere tr m
  | _ => True

theorem ownEvent_of_isPlain {e : Event} (h : e.isPlain = true) (tr : List Event) :
    OwnEvent e tr := by
  cases e with
  | built | sealed => cases h
  | _ => trivial

theorem ownSeals_of_always {tr : List Event} (h : Always OwnEvent tr) : OwnSeals tr :=
  fun es key m tr' heq => always_iff.1 h es (.sealed key m) tr' heq

theorem input?_of_isInput {e : Event} (h : e.isInput = false) : e.input? = none := by
  cases e with
  | input => cases h
  | _ => rfl

/-- Events that are no inputs leave the last input alone. -/
theorem lastInput_append {es tr : List Event} (h : ∀ e ∈ es, e.isInput = false) :
    lastInput (es ++ tr) = lastInput tr := by
  unfold lastInput
  rw [List.findSome?_append]
  have hn : es.findSome? Event.input? = none :=
    List.findSome?_eq_none_iff.2 fun e he => input?_of_isInput (h e he)
  rw [hn, Option.none_or]

/-- Whether an event is a seal. -/
def Event.isSealed : Event → Bool
  | .sealed .. => true
  | _ => false

/-- Whether an event is the build of a frame. -/
def Event.isBuilt : Event → Bool
  | .built _ => true
  | _ => false

/-- Two events before every seal, a frame was built. -/
theorem OwnSeals.isBuilt {tr : List Event} (h : OwnSeals tr) {n : ℕ}
    (hn : tr[n]?.map Event.isSealed = some true) : tr[n + 2]?.map Event.isBuilt = some true := by
  obtain ⟨e, he, hs⟩ := Option.map_eq_some_iff.1 hn
  cases e with
  | «sealed» key m =>
    obtain ⟨hlt, hget⟩ := List.getElem?_eq_some_iff.1 he
    have hsplit : tr = tr.take n ++ .sealed key m :: tr.drop (n + 1) := by
      rw [← hget, List.cons_getElem_drop_succ, List.take_append_drop]
    obtain ⟨m', tr', htr, -⟩ := h _ _ _ _ hsplit
    have hd : (tr.drop (n + 1))[1]? = some (.built m') := by rw [htr]; rfl
    rw [List.getElem?_drop] at hd
    rw [hd]
    rfl
  | _ => cases hs

namespace Device

variable {b : Board} {d : Device} {e : Env} {i : Input} {s t : Node}

/-- Within a step the last input is the one of the step. -/
theorem Within.lastInput {C : Device → Env × Input → Prop} (h : Within b C d e i s) :
    LatticeMesh.lastInput s.trace = some i := by
  obtain ⟨es, he, hes⟩ := effects_trace h.reached
  rw [he, lastInput_append fun e he => (hes e he).1]
  rfl

/-- A change of a step that seals no received frame keeps the seals own. -/
theorem always_ownEvent_effect (hw : Within b (NoReseal b) d e i s) (hs : Always OwnEvent s.trace)
    (h : Effect (b.world e) (d.inputNode i) i s t) : Always OwnEvent t.trace := by
  obtain ⟨es, he, hadds⟩ := h.history
  rw [he]
  cases hadds with
  | routine hes => exact hs.append fun e he =>
      ownEvent_of_isPlain (Event.isPlain_of_isRoutine (hes e he))
  | @built es type data msgType hp _ hes =>
    refine ⟨⟨_, i, s, ?_, ?_, hp⟩, hs.append fun e he =>
      ownEvent_of_isPlain (Event.isPlain_of_isRoutine (hes e he))⟩
    · show LatticeMesh.lastInput (es ++ s.trace) = some i
      rw [lastInput_append fun e he => Event.isInput_of_isPlain
        (Event.isPlain_of_isRoutine (hes e he)), hw.lastInput]
    · exact s.drawn_sameDevice.deviceMac.symm
  | guarded => exact ⟨trivial, hs⟩
  | @sealed key m hm =>
    refine ⟨?_, hs⟩
    rcases hm with ⟨m', tr, ht, hm⟩ | hr
    · rw [ht] at hs ⊢
      exact ⟨m', tr, rfl, hm, hs.2.1⟩
    · have hno : resealsUplink (b.world e) (d.inputNode i) i = false := hw.admissible hw.running
      rw [hno] at hr
      cases hr
  | opened => exact ⟨trivial, hs⟩

theorem ownEvents_invariant (b : Board) :
    Invariant b (NoReseal b) (fun s => Always OwnEvent s.trace)
      (fun s => Always OwnEvent s.trace) where
  weaken _ h := h
  boot d e t _ hd ht := by
    obtain ⟨es, he, hes⟩ := boot_history ht.frame
    rw [he]
    exact Always.append ⟨trivial, hd⟩ fun e he => ownEvent_of_isPlain (hes e he)
  bootHalt d e u _ hd hu := by
    obtain ⟨es, he, hes⟩ := boot_history hu
    rw [he]
    exact Always.append ⟨trivial, hd⟩ fun e he => ownEvent_of_isPlain (hes e he)
  input _ _ _ _ _ h := ⟨trivial, h⟩
  effect _ _ _ _ _ hw hs h := always_ownEvent_effect hw hs h
  stop d e i s h u _ hs hu := by
    obtain ⟨es, he, hes⟩ := hu.plain
    rw [he]
    exact hs.append fun e he => ownEvent_of_isPlain (hes e he)

/-- **Without a frame that is resealed, a device only ever seals its own frames.** -/
theorem ownSeals_run {b : Board} {v : Nvs} {xs : List (Env × Input)}
    (hc : Runs.Along (step b) (NoReseal b) (blank v) xs) :
    OwnSeals (run b (blank v) xs).node.trace :=
  ownSeals_of_always ((ownEvents_invariant b).run (meets_blank trivial) hc).1

/-- A leaf that was admitted and then sends. -/
theorem ownSeals_sends :
    OwnSeals (run Sample.board (blank {}) (Sample.admitted ++
      [(Sample.env 1 400, .transmit AdapterType.pir (Bytes.fill 64 5))])).node.trace :=
  ownSeals_run (by decide +kernel)

/-- **A frame under the leaf's own address is sealed as it was received.** -/
theorem not_ownSeals_reflected :
    ¬OwnSeals (run Sample.board (blank {}) (Sample.admitted ++
      [(Sample.env 1 400, .rx (Sample.mac 9) (Sample.reflected 5 9))])).node.trace := by
  intro h
  have hb := h.isBuilt (n := 1) (by decide +kernel)
  revert hb
  decide +kernel

end Device

end LatticeMesh
