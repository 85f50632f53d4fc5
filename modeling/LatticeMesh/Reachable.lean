import LatticeMesh.BootEffects
import LatticeMesh.Inputs

/-!
# Reachable states

The steps of the device in terms of what they may change, and the rule by which an invariant of
those changes becomes an invariant of every run.

## Main definitions

* `Device.Reads` — the device does not drop what it receives unread.
* `Device.StepTo` — what one step of the device comes to.
* `Device.Invariant` — a property of running nodes and one of any node, kept by every admissible
  change.

## Main results

* `Device.stepTo` — **every step of the device is of that form.**
* `Device.Invariant.run` — **an invariant holds at the end of every admissible run.**
* `Device.Invariant.run_reads` — a condition on the frames that are read is enough for that.
-/

namespace LatticeMesh

open EffectSpec Relation

namespace Device

variable {b : Board} {d : Device} {e : Env} {i : Input}

/-- The node in which a boot starts. -/
def bootNode (b : Board) (d : Device) : Node := (d.node.powerOn b.config).emit (.input .boot)

/-- The node in which the handler of an input starts. -/
def inputNode (d : Device) (i : Input) : Node := d.node.emit (.input i)

theorem step_of_input (hi : i ≠ .boot) (hs : d.status = .running) :
    step b d (e, i) = ofResult (handleInput (b.world e) i (d.inputNode i)) := by
  unfold step start
  rw [if_neg hi, if_pos hs]
  rfl

theorem step_ignored (hi : i ≠ .boot) (hs : d.status ≠ .running) :
    step b d (e, i) = d := by
  unfold step start
  rw [if_neg hi, if_neg hs]

/-- The device reads the frame, if it receives one: it has this protocol version, and is no
replay. -/
def Reads (b : Board) (d : Device) (x : Env × Input) : Prop :=
  ∀ srcMac m, x.2 = .rx srcMac m → passesChecks (b.world x.1) d.node m = true

/-- A frame that is not read changes nothing. -/
theorem step_of_not_reads (h : ¬Reads b d (e, i)) (hs : d.status = .running) :
    step b d (e, i) = ⟨d.inputNode i, .running⟩ := by
  simp only [Reads, not_forall, Bool.not_eq_true] at h
  obtain ⟨srcMac, m, rfl, hdrop⟩ := h
  rw [step_of_input (by simp) hs]
  have hdrop : passesChecks (b.world e) (d.inputNode (.rx srcMac m)) m = false := hdrop
  show ofResult (handleReceivedMessage (b.world e) srcMac m _) = _
  rw [← handleReceivedMessageTo_deliver, handleReceivedMessageTo_of_not_passes hdrop]
  rfl

/-- What one step of the device comes to. -/
inductive StepTo (b : Board) (d : Device) (e : Env) : Input → Device → Prop
  /-- A device that does not run ignores everything but a boot. -/
  | ignored {i : Input} (hi : i ≠ .boot) (hs : d.status ≠ .running) : StepTo b d e i d
  | booted {t : Node} (h : Booted (b.world e) (d.bootNode b) t) : StepTo b d e .boot ⟨t, .running⟩
  | bootHalted {h : Halt} {u : Node} (hf : BootFrame b.config (d.bootNode b) u) :
      StepTo b d e .boot ⟨u, .halted h⟩
  | ran {i : Input} {t : Node} (hi : i ≠ .boot) (hs : d.status = .running)
      (ht : ReflTransGen (Effect (b.world e) (d.inputNode i) i) (d.inputNode i) t) :
      StepTo b d e i ⟨t, .running⟩
  | halted {i : Input} {h : Halt} {t u : Node} (hi : i ≠ .boot) (hs : d.status = .running)
      (ht : ReflTransGen (Effect (b.world e) (d.inputNode i) i) (d.inputNode i) t)
      (hu : Stop (b.world e) (d.inputNode i) i h t u) : StepTo b d e i ⟨u, .halted h⟩

/-- **Every step of the device is of that form.** -/
theorem stepTo (b : Board) (d : Device) (e : Env) (i : Input) :
    StepTo b d e i (step b d (e, i)) := by
  unfold step start
  by_cases hi : i = .boot
  · subst hi
    have hb : Boots (b.world e) (d.bootNode b) (d.bootNode b) (initSubsystems (b.world e)) _ :=
      boots_initSubsystems rfl
    simp only [if_true]
    show StepTo b d e .boot (ofResult (initSubsystems (b.world e) (d.bootNode b)))
    cases hr : initSubsystems (b.world e) (d.bootNode b) with
    | ok _ t => exact .booted (wp_ok hr hb).2
    | error h u =>
      obtain ⟨t, ht, hu⟩ := wp_error hr hb
      exact .bootHalted hu
  · rw [if_neg hi]
    by_cases hs : d.status = .running
    · rw [if_pos hs]
      have hd : Does (b.world e) (d.inputNode i) i (d.inputNode i) (handleInput (b.world e) i) _ :=
        does_handleInput hi
      show StepTo b d e i (ofResult (handleInput (b.world e) i (d.inputNode i)))
      cases hr : handleInput (b.world e) i (d.inputNode i) with
      | ok _ t => exact .ran hi hs (wp_ok hr hd).1
      | error h u =>
        obtain ⟨t, ht, hu⟩ := wp_error hr hd
        exact .halted hi hs ht hu
    · rw [if_neg hs]
      exact .ignored hi hs

/-- A boot adds only plain events to the history. -/
theorem boot_history {u : Node} (h : BootFrame b.config (d.bootNode b) u) :
    ∃ es, u.trace = es ++ .input .boot :: d.node.trace ∧ ∀ e ∈ es, e.isPlain = true := by
  obtain ⟨es, he, hes⟩ := h.trace
  exact ⟨es, he, fun e hm => Event.isPlain_of_isBoot (hes e hm)⟩

/-- No change of a step reports a crash. -/
theorem stepEvents_noCrash {w : World} {t : Node}
    (ht : ReflTransGen (Effect w (d.inputNode i) i) (d.inputNode i) t) :
    ∀ ev ∈ t.stepEvents, ev.isCrash = false := by
  obtain ⟨es, he, hes⟩ := effects_trace ht
  intro ev hev
  rw [Node.stepEvents_append he fun ev hev => (hes ev hev).1] at hev
  rcases List.mem_append.1 hev with hev | hev
  · exact (hes ev hev).2
  · cases hev

/-! ### Invariants -/

/-- A step that goes on: it is admissible, and the node is in the state `s` by now. -/
structure Within (b : Board) (C : Device → Env × Input → Prop) (d : Device) (e : Env) (i : Input)
    (s : Node) : Prop where
  admissible : C d (e, i)
  ne_boot : i ≠ .boot
  running : d.status = .running
  reached : ReflTransGen (Effect (b.world e) (d.inputNode i) i) (d.inputNode i) s

/-- The node of the device meets `J`, and `I` while it runs. -/
def Meets (I J : Node → Prop) (d : Device) : Prop := J d.node ∧ (d.status = .running → I d.node)

/-- A property `I` of running nodes and a property `J` of any node that every admissible step
keeps. -/
structure Invariant (b : Board) (C : Device → Env × Input → Prop) (I J : Node → Prop) : Prop where
  weaken : ∀ s, I s → J s
  boot : ∀ d e t, C d (e, .boot) → J d.node → Booted (b.world e) (d.bootNode b) t → I t
  bootHalt : ∀ d e u, C d (e, .boot) → J d.node → BootFrame b.config (d.bootNode b) u → J u
  input : ∀ d e i, C d (e, i) → i ≠ .boot → I d.node → I (d.inputNode i)
  effect : ∀ d e i s t, Within b C d e i s → I s → Effect (b.world e) (d.inputNode i) i s t → I t
  stop : ∀ d e i s h u, Within b C d e i s → I s → Stop (b.world e) (d.inputNode i) i h s u → J u

variable {C : Device → Env × Input → Prop} {I J : Node → Prop}

/-- Within an admissible step the invariant holds all along. -/
theorem Invariant.within (hinv : Invariant b C I J) (hd : d.Meets I J) {s : Node}
    (h : Within b C d e i s) : I s := by
  obtain ⟨hc, hi, hs, ht⟩ := h
  induction ht with
  | refl => exact hinv.input d e i hc hi (hd.2 hs)
  | tail hst h ih => exact hinv.effect d e i _ _ ⟨hc, hi, hs, hst⟩ ih h

/-- One admissible step keeps an invariant. -/
theorem Invariant.step (hinv : Invariant b C I J) (hd : d.Meets I J) (hc : C d (e, i)) :
    (Device.step b d (e, i)).Meets I J := by
  have hst := stepTo b d e i
  generalize Device.step b d (e, i) = d' at hst
  cases hst with
  | ignored => exact hd
  | booted h =>
    have hI := hinv.boot d e _ hc hd.1 h
    exact ⟨hinv.weaken _ hI, fun _ => hI⟩
  | bootHalted hf => exact ⟨hinv.bootHalt d e _ hc hd.1 hf, by simp⟩
  | ran hi hs ht =>
    have hI := hinv.within hd ⟨hc, hi, hs, ht⟩
    exact ⟨hinv.weaken _ hI, fun _ => hI⟩
  | halted hi hs ht hu =>
    have hw : Within b C d e i _ := ⟨hc, hi, hs, ht⟩
    exact ⟨hinv.stop d e i _ _ _ hw (hinv.within hd hw) hu, by simp⟩

/-- **An invariant holds at the end of every admissible run.** -/
theorem Invariant.run (hinv : Invariant b C I J) {xs : List (Env × Input)} (hd : d.Meets I J)
    (hc : Runs.Along (Device.step b) C d xs) : (Device.run b d xs).Meets I J :=
  Runs.run_invariant (I := Meets I J) hd (fun _ x hd hc => hinv.step (e := x.1) (i := x.2) hd hc) hc

/-- A condition on the frames that are read is enough. -/
theorem Invariant.step_reads (hinv : Invariant b (fun d x => C d x ∧ Reads b d x) I J)
    (hinput : ∀ s i, I s → I (Node.emit s (.input i))) (hd : d.Meets I J) (hc : C d (e, i)) :
    (Device.step b d (e, i)).Meets I J := by
  by_cases hr : Reads b d (e, i)
  · exact hinv.step hd ⟨hc, hr⟩
  by_cases hs : d.status = .running
  · rw [step_of_not_reads hr hs]
    have hI := hinput d.node i (hd.2 hs)
    exact ⟨hinv.weaken _ hI, fun _ => hI⟩
  · have hi : i ≠ .boot := by
      rintro rfl
      exact hr fun _ _ h => nomatch h
    rwa [step_ignored hi hs]

theorem Invariant.run_reads (hinv : Invariant b (fun d x => C d x ∧ Reads b d x) I J)
    (hinput : ∀ s i, I s → I (Node.emit s (.input i))) {xs : List (Env × Input)}
    (hd : d.Meets I J) (hc : Runs.Along (Device.step b) C d xs) : (Device.run b d xs).Meets I J :=
  Runs.run_invariant (I := Meets I J) hd
    (fun _ x hd hc => hinv.step_reads hinput (e := x.1) (i := x.2) hd hc) hc

/-- A device that is off meets an invariant as soon as its flash does. -/
theorem meets_blank {v : Nvs} (h : J { nvs := v }) : (blank v).Meets I J := ⟨h, by simp [blank]⟩

end Device

end LatticeMesh
