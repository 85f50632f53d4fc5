import LatticeMesh.Device

/-!
# The reset button

Holding the reset button for five seconds arms a wipe of the flash, and holding it again is to
confirm it.  The second hold has to complete within three seconds of the first one, although it
takes five itself.

## Main definitions

* `ButtonHandler.detectHold`, `ButtonHandler.tickReset` — one tick of the button.
* `ButtonHandler.Wipes` — a trace of ticks on which the flash is wiped.
* `ButtonHandler.TwoHolds` — a trace with two holds, the second one started in the confirm window.

## Main results

* `ButtonHandler.not_wipes` — **no trace wipes the flash.**
* `ButtonHandler.wipes_iff_twoHolds_iff` — a trace is handled as documented if and only if nobody
  confirms.
-/

namespace LatticeMesh

namespace ButtonHandler

/-! ### One tick -/

/-- One tick of a button: the time, and whether the button counts as pressed. -/
structure Tick where
  nowMs : UInt64
  pressed : Bool
  deriving DecidableEq

/-- How long a button is to be held, in milliseconds. -/
def holdMs : UInt64 := 5000

/-- How long a first hold waits for its confirmation, in milliseconds. -/
def confirmWindowMs : UInt64 := 3000

/-- What is remembered of a press that is going on. -/
structure Hold where
  wasPressed : Bool := false
  holdStart : UInt64 := 0
  deriving DecidableEq

/-- Whether the hold completes with this tick.  It counts from the start again afterwards, even if
the button is not released. -/
def detectHold (x : Tick) (h : Hold) : Bool × Hold :=
  if x.pressed then
    if !h.wasPressed then (false, { wasPressed := true, holdStart := x.nowMs })
    else if x.nowMs - h.holdStart ≥ holdMs then (true, { h with wasPressed := false })
    else (false, h)
  else (false, { h with wasPressed := false })

/-- The state of the reset button. -/
structure Reset where
  hold : Hold := {}
  confirmPending : Bool := false
  confirmDeadline : UInt64 := 0
  deriving DecidableEq

/-- What a tick of the reset button does. -/
inductive ResetAction
  | none
  /-- The wipe is armed, and the red LED says so. -/
  | armed
  /-- The flash is wiped, and the device restarts. -/
  | clearAll
  /-- The wipe is not armed any more. -/
  | timedOut
  deriving DecidableEq

/-- One tick of the reset button. -/
def tickReset (s : Reset) (x : Tick) : ResetAction × Reset :=
  let r := detectHold x s.hold
  let s := { s with hold := r.2 }
  if r.1 then
    if !s.confirmPending then
      (.armed, { s with confirmPending := true, confirmDeadline := x.nowMs + confirmWindowMs })
    else if x.nowMs < s.confirmDeadline then (.clearAll, { s with confirmPending := false })
    else (.none, s)
  else if !x.pressed && s.confirmPending && x.nowMs > s.confirmDeadline then
    (.timedOut, { s with confirmPending := false })
  else (.none, s)

/-- The input that an action is to the device. -/
def ResetAction.inputs : ResetAction → List Input
  | .clearAll => [.resetButton]
  | _ => []

/-! ### Traces -/

/-- The state after a tick. -/
def step (s : Reset) (x : Tick) : Reset := (tickReset s x).2

/-- The actions on a trace. -/
def actions : Reset → List Tick → List ResetAction
  | _, [] => []
  | s, x :: xs => (tickReset s x).1 :: actions (step s x) xs

/-- The trace wipes the flash. -/
def Wipes (xs : List Tick) : Prop := .clearAll ∈ actions {} xs

instance (xs : List Tick) : Decidable (Wipes xs) := inferInstanceAs (Decidable (_ ∈ _))

/-- Time does not run backwards on the trace. -/
def Steady (xs : List Tick) : Prop := (xs.map Tick.nowMs).Pairwise (· ≤ ·)

instance (xs : List Tick) : Decidable (Steady xs) :=
  inferInstanceAs (Decidable (List.Pairwise _ _))

/-- The ticks `hold` behind the ticks `before` are one hold: it starts with a press at the time
`start`, and completes with its last tick, at the time `fired`. -/
structure IsHold (before hold : List Tick) (start fired : ℕ) : Prop where
  released : ∀ x ∈ before.getLast?, x.pressed = false
  pressed : ∀ x ∈ hold, x.pressed = true
  start_eq : hold.head?.map (fun x => x.nowMs.toNat) = some start
  fired_eq : hold.getLast?.map (fun x => x.nowMs.toNat) = some fired
  completes : start + holdMs.toNat ≤ fired
  once : ∀ x ∈ hold.dropLast, x.nowMs.toNat < start + holdMs.toNat

/-- A hold completes, the button is released, and a second hold that starts within the confirm
window completes as well. -/
def TwoHolds (xs : List Tick) : Prop :=
  ∃ before hold₁ between hold₂ after start₁ fired₁ start₂ fired₂,
    xs = before ++ (hold₁ ++ (between ++ (hold₂ ++ after))) ∧ between ≠ [] ∧
      IsHold before hold₁ start₁ fired₁ ∧ IsHold between hold₂ start₂ fired₂ ∧
      start₂ ≤ fired₁ + confirmWindowMs.toNat

/-! ### The confirm window -/

/-- A wipe that is armed was armed before the press that is going on. -/
structure Armed (clock : UInt64) (s : Reset) : Prop where
  start_le : s.hold.wasPressed = true → s.hold.holdStart ≤ clock
  armed : s.confirmPending = true → ∃ at₀, s.confirmDeadline = at₀ + confirmWindowMs ∧
    at₀ ≤ clock ∧ (s.hold.wasPressed = true → at₀ ≤ s.hold.holdStart)

variable {s : Reset} {clock : UInt64} {x : Tick} {xs : List Tick}

/-- A hold that starts after the wipe was armed completes after the deadline. -/
theorem deadline_le {at₀ start now : UInt64} (hat : at₀ ≤ start) (hstart : start ≤ now)
    (hheld : now - start ≥ holdMs) : at₀ + confirmWindowMs ≤ now := by
  have hsub := UInt64.toNat_sub_of_le _ _ hstart
  rw [ge_iff_le, UInt64.le_iff_toNat_le, hsub] at hheld
  rw [UInt64.le_iff_toNat_le] at hat hstart ⊢
  have h5 : holdMs.toNat = 5000 := rfl
  have h3 : confirmWindowMs.toNat = 3000 := rfl
  rw [UInt64.toNat_add, h3]
  -- a deadline that overflows lies before everything
  have := Nat.mod_le (at₀.toNat + 3000) (2 ^ 64)
  omega

/-- **A tick never wipes the flash.** -/
theorem Armed.step (h : Armed clock s) (hc : clock ≤ x.nowMs) :
    Armed x.nowMs (step s x) ∧ (tickReset s x).1 ≠ .clearAll := by
  obtain ⟨hstart, harmed⟩ := h
  have hlater : ∀ t : UInt64, t ≤ clock → t ≤ x.nowMs := fun t ht => UInt64.le_trans ht hc
  unfold ButtonHandler.step tickReset detectHold
  by_cases hp : x.pressed = true
  · by_cases hw : s.hold.wasPressed = true
    · by_cases hheld : x.nowMs - s.hold.holdStart ≥ holdMs
      · by_cases hpend : s.confirmPending = true
        · -- a second hold completes, and the deadline has passed
          obtain ⟨at₀, hd, hat, hbefore⟩ := harmed hpend
          have hlate := deadline_le (hbefore hw) (hlater _ (hstart hw)) hheld
          have hge : ¬x.nowMs < s.confirmDeadline := by
            rw [hd]
            exact UInt64.not_lt.2 hlate
          simp only [hp, hw, hheld, hpend, hge, Bool.not_true, Bool.false_eq_true, if_true,
            if_false]
          exact ⟨⟨by simp, fun _ => ⟨at₀, hd, hlater _ hat, by simp⟩⟩, by simp⟩
        -- a first hold completes and arms the deadline
        · simp only [hp, hw, hheld, hpend, Bool.not_true, Bool.not_false, Bool.false_eq_true,
            if_true, if_false]
          exact ⟨⟨by simp, fun _ => ⟨x.nowMs, rfl, UInt64.le_refl _, by simp⟩⟩, by simp⟩
      -- the press goes on
      · simp only [hp, hw, hheld, Bool.not_true, Bool.false_and, Bool.false_eq_true, if_true,
          if_false]
        refine ⟨⟨fun _ => hlater _ (hstart hw), fun hpend => ?_⟩, by simp⟩
        obtain ⟨at₀, hd, hat, hbefore⟩ := harmed hpend
        exact ⟨at₀, hd, hlater _ hat, fun _ => hbefore hw⟩
    · -- a press starts
      simp only [hp, hw, Bool.not_true, Bool.not_false, Bool.false_and, Bool.false_eq_true, if_true,
        if_false]
      refine ⟨⟨fun _ => UInt64.le_refl _, fun hpend => ?_⟩, by simp⟩
      obtain ⟨at₀, hd, hat, -⟩ := harmed hpend
      exact ⟨at₀, hd, hlater _ hat, fun _ => hlater _ hat⟩
  · simp only [hp, Bool.not_false, Bool.true_and, Bool.false_eq_true, if_false]
    -- a release: the hold starts anew, and the deadline stays
    split
    · exact ⟨⟨by simp, by simp⟩, by simp⟩
    · refine ⟨⟨by simp, fun hpend => ?_⟩, by simp⟩
      obtain ⟨at₀, hd, hat, -⟩ := harmed hpend
      exact ⟨at₀, hd, hlater _ hat, by simp⟩

theorem mem_actions {a : ResetAction} (h : a ∈ actions s xs) :
    ¬Runs.Along ButtonHandler.step (fun s x => (tickReset s x).1 ≠ a) s xs := by
  induction xs generalizing s with
  | nil => cases h
  | cons x xs ih =>
    rintro ⟨hx, hxs⟩
    rcases List.mem_cons.1 h with h | h
    · exact hx h.symm
    · exact ih h hxs

/-- **No trace wipes the flash.** -/
theorem not_wipes (h : Steady xs) : ¬Wipes xs := by
  intro hw
  refine mem_actions hw (Runs.along_of_timed Tick.nowMs (J := Armed) (c := 0)
    (fun c s x hc hs => hs.step hc) ⟨by simp, by simp⟩ ?_)
  exact List.pairwise_cons.2 ⟨fun t _ => UInt64.le_iff_toNat_le.2 (Nat.zero_le _), h⟩

/-- The reset button is no input to the device. -/
theorem inputs_eq_nil (h : Steady xs) :
    (actions {} xs).flatMap ResetAction.inputs = [] := by
  rw [List.flatMap_eq_nil_iff]
  intro a ha
  cases a with
  | clearAll => exact absurd ha (not_wipes h)
  | _ => rfl

/-- **A trace is handled as documented if and only if nobody confirms**: the flash is to be wiped
exactly if there are two holds, the second one started in the confirm window. -/
theorem wipes_iff_twoHolds_iff (h : Steady xs) : (Wipes xs ↔ TwoHolds xs) ↔ ¬TwoHolds xs := by
  constructor
  · intro hiff htwo
    exact not_wipes h (hiff.2 htwo)
  · exact iff_of_false (not_wipes h)

end ButtonHandler

namespace Sample

/-- The reset button is held for five seconds, released, and held for five seconds again from the
first second on. -/
def confirms : List ButtonHandler.Tick :=
  [⟨1000, true⟩, ⟨6000, true⟩, ⟨6500, false⟩, ⟨7000, true⟩, ⟨12000, true⟩, ⟨12500, false⟩]

end Sample

namespace ButtonHandler

/-- On the trace of a confirmed reset. -/
theorem wipes_iff_twoHolds_confirms :
    (Wipes Sample.confirms ↔ TwoHolds Sample.confirms) ↔ ¬TwoHolds Sample.confirms :=
  wipes_iff_twoHolds_iff (by decide)

/-- **A confirmed reset wipes nothing**: the second hold completes after the deadline, without any
effect. -/
theorem not_wipes_confirms :
    Steady Sample.confirms ∧
      actions {} Sample.confirms = [.none, .armed, .none, .none, .none, .timedOut] ∧
      ¬(Wipes Sample.confirms ↔ TwoHolds Sample.confirms) := by
  have htwo : TwoHolds Sample.confirms :=
    ⟨[], [⟨1000, true⟩, ⟨6000, true⟩], [⟨6500, false⟩], [⟨7000, true⟩, ⟨12000, true⟩],
      [⟨12500, false⟩], 1000, 6000, 7000, 12000, rfl, by simp,
      ⟨by decide, by decide, by decide, by decide, by decide, by decide⟩,
      ⟨by decide, by decide, by decide, by decide, by decide, by decide⟩, by decide⟩
  refine ⟨by decide, by decide, fun hiff => ?_⟩
  have hno : ¬Wipes Sample.confirms := by decide
  exact hno (hiff.2 htwo)

end ButtonHandler

end LatticeMesh
