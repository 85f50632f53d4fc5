import LatticeMesh.Node
import LatticeMesh.Lib.EffectSpec
import Mathlib.Data.Nat.Count

/-!
# Error reports on the display

A report shows its code on the seven-segment display, byte by byte, and a byte that the display does
not acknowledge is itself reported.  That report is shown as well, so reports nest as long as the
display stays silent.

## Main definitions

* `makeErrorCode`, `SevenSegDisplay.segments` — the code of a report and how it is displayed.
* `SevenSegDisplay.writeByte`, `SevenSegDisplay.setSegments` — the bytes on the wire.
* `ErrorCore.signalError`, `ErrorCore.fail` — a report, with a bound on how deep reports may nest.
* `ErrorCore.drainPendingBlink` — the blink that a callback leaves to the main loop.
* `ErrorCore.Ends` — the report returns or restarts the device within that bound.

## Main results

* `ErrorCore.signalError_ends_within` — signalling an error ends within `n` nested reports exactly
  when the display acknowledges seven bytes in a row after at most `n` lapses.
* `ErrorCore.reporting_ends_iff` — **reporting ends exactly when the display acknowledges seven
  bytes in a row at some time.**
* `ErrorCore.signalError_returns_iff` — the reports of a node return exactly when those here do.
-/

namespace LatticeMesh

open EffectSpec

/-! ### Error codes -/

/-- The digit of an error class. -/
def ErrorTypeDigit.digit : ErrorTypeDigit → ℕ
  | .generic => 1
  | .sensor => 2
  | .comm => 3
  | .memory => 4
  | .hardware => 5
  | .config => 6
  | .crypto => 7

/-- The digit of a module. -/
def ModuleDigit.digit : ModuleDigit → ℕ
  | .core => 1
  | .adapter => 2
  | .mesh => 3
  | .eeprom => 4
  | .hw => 5

/-- The three-digit code of a report: its class, its module and its sub-code. -/
def makeErrorCode (t : ErrorTypeDigit) (m : ModuleDigit) (sub : ℕ) : ℕ :=
  t.digit * 100 + m.digit * 10 + sub % 10

/-- A code tells its class, its module and its sub-code. -/
theorem makeErrorCode_inj {t t' : ErrorTypeDigit} {m m' : ModuleDigit} {sub sub' : ℕ} :
    makeErrorCode t m sub = makeErrorCode t' m' sub' ↔ t = t' ∧ m = m' ∧ sub % 10 = sub' % 10 := by
  constructor
  · intro h
    have hm : m.digit < 10 ∧ m'.digit < 10 := by cases m <;> cases m' <;> decide
    unfold makeErrorCode at h
    have ht : t.digit = t'.digit := by omega
    have hmd : m.digit = m'.digit := by omega
    refine ⟨?_, ?_, by omega⟩
    · cases t <;> cases t' <;> first | rfl | cases ht
    · cases m <;> cases m' <;> first | rfl | cases hmd
  · rintro ⟨rfl, rfl, h⟩
    rw [makeErrorCode, h, makeErrorCode]

/-! ### The error core -/

namespace ErrorCore

/-- The error LED: whether it is initialized, and how often the pattern blinks that is armed. -/
structure Led where
  initialized : Bool
  pulses : Option ℕ := none
  deriving DecidableEq

/-- A report: its class, its module, its sub-code and its text. -/
structure Report where
  type : ErrorTypeDigit
  module : ModuleDigit
  sub : ℕ
  text : String
  deriving DecidableEq

/-- The state of the error core, with the bytes that the display was sent and the reports that were
made, newest first. -/
structure State where
  errorLed : Option Led := none
  /-- The brightness of the display, if one is registered. -/
  display : Option UInt8 := none
  initialized : Bool := false
  pendingBlink : Bool := false
  pendingBlinkType : ErrorType := .generic
  inCallbackContext : Bool := false
  sent : List UInt8 := []
  reports : List Report := []
  deriving DecidableEq

/-- Why a report did not return. -/
inductive Stop
  /-- The device restarts. -/
  | restart
  /-- Reports nested deeper than they were allowed to. -/
  | tooDeep
  deriving DecidableEq

/-- Programs over the state of the error core. -/
abbrev ReportM := EStateM Stop State

end ErrorCore

/-! ### The display -/

namespace SevenSegDisplay

open ErrorCore

/-- The segments of the hexadecimal digits. -/
def font : List UInt8 :=
  [0x3F, 0x06, 0x5B, 0x4F, 0x66, 0x6D, 0x7D, 0x07, 0x7F, 0x6F, 0x77, 0x7C, 0x39, 0x5E, 0x79, 0x71]

def encodeDigit (d : ℤ) : UInt8 :=
  if 0 ≤ d ∧ d < 16 then font.getD d.toNat 0 else if d = -1 then 0x40 else 0

/-- The last four decimal digits of a number. -/
def digits (v : ℕ) : List ℤ := [v / 1000 % 10, v / 100 % 10, v / 10 % 10, v % 10].map Nat.cast

/-- The digits of a negative number: the first one that is not zero gives way to the sign. -/
def withMinus : List ℤ → List ℤ
  | [] => []
  | [_] => [-1]
  | d :: ds => if d ≠ 0 then -1 :: ds else d :: withMinus ds

/-- The segments under which a number is shown. -/
def segments (value : ℤ) (leadingZeros withDP : Bool) : List UInt8 :=
  let ds := digits (min value.natAbs 9999)
  (if value < 0 then withMinus ds else ds).mapIdx fun i d =>
    let seg := if !leadingZeros && i < 3 && d = 0 && !decide (value < 0) then 0 else encodeDigit d
    if withDP && i = 3 then seg ||| 0x80 else seg

/-- Send one byte and look for the acknowledgement; a missing one is reported.  The outside answers
the `k`-th byte with `acks k`. -/
def writeByte (acks : ℕ → Bool) (report : ReportM Unit) (b : UInt8) : ReportM Bool := do
  let s ← get
  let ack := acks s.sent.length
  modify fun s => { s with sent := b :: s.sent }
  if !ack then report else pure ()
  pure ack

/-- Send the segments of the four digits, each of three transactions framed on the wire. -/
def setSegments (acks : ℕ → Bool) (report : ReportM Unit) (brightness : UInt8)
    (segs : List UInt8) : ReportM Unit := do
  let _ ← writeByte acks report 0x40
  let _ ← writeByte acks report 0xC0
  segs.forM fun b => do let _ ← writeByte acks report b
  let _ ← writeByte acks report (0x88 ||| brightness)

/-- Show a number. -/
def showValue (acks : ℕ → Bool) (report : ReportM Unit) (brightness : UInt8) (value : ℤ)
    (leadingZeros : Bool) : ReportM Unit :=
  setSegments acks report brightness (segments value leadingZeros false)

theorem length_withMinus : ∀ ds : List ℤ, (withMinus ds).length = ds.length
  | [] => rfl
  | [_] => rfl
  | d :: e :: ds => by
    rw [withMinus]
    split
    · rfl
    · simp [length_withMinus (e :: ds)]
    · simp

/-- A number takes four digits. -/
theorem length_segments (value : ℤ) (leadingZeros withDP : Bool) :
    (segments value leadingZeros withDP).length = 4 := by
  unfold segments
  rw [List.length_mapIdx]
  split
  · rw [length_withMinus]
    rfl
  · rfl

/-- The bytes under which segments are sent. -/
def frameBytes (brightness : UInt8) (segs : List UInt8) : List UInt8 :=
  0x40 :: 0xC0 :: segs ++ [0x88 ||| brightness]

/-- Send a list of bytes. -/
def writeBytes (acks : ℕ → Bool) (report : ReportM Unit) (bs : List UInt8) : ReportM Unit :=
  bs.forM fun b => do let _ ← writeByte acks report b

/-- Sending segments is sending their bytes one after the other. -/
theorem setSegments_eq (acks : ℕ → Bool) (report : ReportM Unit) (brightness : UInt8)
    (segs : List UInt8) : setSegments acks report brightness segs =
      writeBytes acks report (frameBytes brightness segs) := by
  unfold setSegments writeBytes frameBytes
  simp [List.forM_append, List.forM_cons]

end SevenSegDisplay

/-! ### Reports -/

namespace ErrorCore

/-- How often the error LED blinks for an error type. -/
def blinks : ErrorType → ℕ
  | .generic => 1
  | .sensorFail => 2
  | .communicationFail => 3
  | .memoryError => 4
  | .configError => 5
  | .hardwareFailure => 6

/-- Arm the blink pattern of an error type. -/
def blinkPattern (t : ErrorType) : ReportM Unit :=
  modify fun s =>
    { s with errorLed := s.errorLed.map fun led =>
        if led.initialized then { led with pulses := some (blinks t) } else led }

/-- Blink for an error type, or in a callback leave that to the main loop. -/
def armBlink (t : ErrorType) : ReportM Unit := do
  let s ← get
  if s.initialized && s.errorLed.isSome then
    if s.inCallbackContext then
      modify fun s => { s with pendingBlink := true, pendingBlinkType := t }
    else blinkPattern t
  else pure ()

/-- Blink for the error that a callback left to the main loop, if there is one. -/
def drainPendingBlink : ReportM Unit := do
  let s ← get
  if s.pendingBlink then
    modify fun s => { s with pendingBlink := false }
    blinkPattern s.pendingBlinkType
  else pure ()

/-- The main loop blinks for an error in a callback as the callback would have. -/
theorem drainPendingBlink_armBlink {t : ErrorType} {s : State}
    (h : (s.initialized && s.errorLed.isSome) = true) (hc : s.inCallbackContext = true) :
    (do armBlink t; drainPendingBlink : ReportM Unit) s =
      blinkPattern t { s with pendingBlink := false, pendingBlinkType := t } := by
  have harm : armBlink t s = .ok () { s with pendingBlink := true, pendingBlinkType := t } := by
    show (if (s.initialized && s.errorLed.isSome) = true then
      if s.inCallbackContext = true then modify _ else _ else _ : ReportM Unit) s = _
    rw [if_pos h, if_pos hc]
    rfl
  show EStateM.bind (armBlink t) _ s = _
  unfold EStateM.bind
  rw [harm]
  rfl

/-- Signal an error type: blink, and restart if the type says so. -/
def signalErrorType (t : ErrorType) : ReportM Unit := do
  armBlink t
  if shouldRestart t then throw .restart else pure ()

/-- Show a code on the display, if one is registered. -/
def showCode (acks : ℕ → Bool) (report : ReportM Unit) (code : ℕ) : ReportM Unit := do
  let s ← get
  match s.display with
  | some brightness => SevenSegDisplay.showValue acks report brightness code true
  | none => pure ()

/-- Signal an error: show its code, then signal its type.  A byte that the display does not
acknowledge is reported by `report`. -/
def signalErrorWith (acks : ℕ → Bool) (report : ReportM Unit) (t : ErrorTypeDigit)
    (m : ModuleDigit) (sub : ℕ) : ReportM Unit := do
  showCode acks report (makeErrorCode t m sub)
  signalErrorType (signalledType t)

/-- Report an error; reports may nest `depth` deep.  The display reports its own errors this way. -/
def fail (acks : ℕ → Bool) (depth : ℕ) (t : ErrorTypeDigit) (m : ModuleDigit) (sub : ℕ)
    (text : String) : ReportM Unit :=
  match depth with
  | 0 => throw .tooDeep
  | depth + 1 => do
    modify fun s => { s with reports := ⟨t, m, sub, text⟩ :: s.reports }
    signalErrorWith acks (fail acks depth .hardware .hw 2 "7Seg ACK timeout") t m sub

/-- Signal an error; the reports that it leads to may nest `depth` deep. -/
def signalError (acks : ℕ → Bool) (depth : ℕ) (t : ErrorTypeDigit) (m : ModuleDigit) (sub : ℕ) :
    ReportM Unit :=
  signalErrorWith acks (fail acks depth .hardware .hw 2 "7Seg ACK timeout") t m sub

/-- The state after a report is noted. -/
def State.reported (s : State) (r : Report) : State := { s with reports := r :: s.reports }

theorem fail_succ (acks : ℕ → Bool) (depth : ℕ) (t : ErrorTypeDigit) (m : ModuleDigit) (sub : ℕ)
    (text : String) (s : State) : fail acks (depth + 1) t m sub text s =
      signalError acks depth t m sub (s.reported ⟨t, m, sub, text⟩) := rfl

/-- The program returns or restarts the device, without nesting too deep. -/
def Ends {α : Type} (x : ReportM α) (s : State) : Prop :=
  wp x (fun _ _ => True) (fun e _ => e ≠ .tooDeep) s

/-- A program that never returns. -/
def Diverts (x : ReportM Unit) : Prop := ∀ s, ∃ e t, x s = .error e t

end ErrorCore

namespace SevenSegDisplay

open ErrorCore

variable {acks : ℕ → Bool} {report : ReportM Unit} {s : State}

/-- The state after one more byte. -/
def sentByte (s : State) (b : UInt8) : State := { s with sent := b :: s.sent }

theorem writeByte_eq {b : UInt8} : writeByte acks report b s =
    (do if !acks s.sent.length then report else pure ()
        pure (acks s.sent.length) : ReportM Bool) (sentByte s b) := rfl

theorem writeByte_of_ack {b : UInt8} (h : acks s.sent.length = true) :
    writeByte acks report b s = .ok true (sentByte s b) := by
  rw [writeByte_eq, h]
  rfl

theorem writeByte_of_lapse (hr : Diverts report) {b : UInt8} (h : acks s.sent.length = false) :
    ∃ e t, report (sentByte s b) = .error e t ∧ writeByte acks report b s = .error e t := by
  obtain ⟨e, t, het⟩ := hr (sentByte s b)
  refine ⟨e, t, het, ?_⟩
  rw [writeByte_eq, h]
  exact bind_error het

/-- Either every byte is acknowledged, or the first one that is not is reported, and nothing comes
after that report. -/
theorem writeBytes_cases (hr : Diverts report) (bs : List UInt8) :
    (∀ j < bs.length, acks (s.sent.length + j) = true) ∧
      writeBytes acks report bs s = .ok () { s with sent := bs.reverse ++ s.sent } ∨
    ∃ j < bs.length, (∀ k < j, acks (s.sent.length + k) = true) ∧
      acks (s.sent.length + j) = false ∧
      ∃ u, u.sent.length = s.sent.length + j + 1 ∧ u.display = s.display ∧
        writeBytes acks report bs s = report u := by
  -- by induction on the bytes: the first one is acknowledged, or its lapse is the first
  induction bs generalizing s with
  | nil => exact .inl ⟨by simp, rfl⟩
  | cons b bs ih =>
    have hcons : writeBytes acks report (b :: bs) =
        (do let _ ← writeByte acks report b : ReportM Unit) >>= fun _ =>
          writeBytes acks report bs := List.forM_cons
    rw [hcons]
    cases hb : acks s.sent.length with
    | false =>
      obtain ⟨e, t, het, hw⟩ := writeByte_of_lapse hr (b := b) hb
      refine .inr ⟨0, by simp, by simp, hb, sentByte s b, rfl, rfl, ?_⟩
      rw [het]
      exact bind_error (bind_error hw)
    | true =>
      have hw : (do let _ ← writeByte acks report b : ReportM Unit) s = .ok () (sentByte s b) :=
        bind_ok (writeByte_of_ack hb)
      rw [bind_ok hw]
      have hlen : (sentByte s b).sent.length = s.sent.length + 1 := rfl
      rcases ih (s := sentByte s b) with ⟨hall, hok⟩ | ⟨j, hj, hbefore, hno, u, hu, hdisp, hrun⟩
      · refine .inl ⟨fun j hj => ?_, ?_⟩
        · cases j with
          | zero => exact hb
          | succ j =>
            have hj' := hall j (by simpa using hj)
            rw [hlen, Nat.add_right_comm] at hj'
            exact hj'
        · rw [hok]
          simp [sentByte]
      · refine .inr ⟨j + 1, by simpa using hj, fun k hk => ?_, ?_, u, ?_, hdisp, hrun⟩
        · cases k with
          | zero => exact hb
          | succ k =>
            have hk' := hbefore k (by omega)
            rw [hlen, Nat.add_right_comm] at hk'
            exact hk'
        · rw [hlen, Nat.add_right_comm] at hno
          exact hno
        · rw [hu, hlen]
          omega

end SevenSegDisplay

/-! ### Acknowledgements -/

namespace ErrorCore

/-- The display acknowledges seven bytes in a row, from the `i`-th byte on. -/
def Streak (acks : ℕ → Bool) (i : ℕ) : Prop := ∀ j < 7, acks (i + j) = true

/-- How many of the `q` bytes from the `i`-th one on are not acknowledged. -/
def lapses (acks : ℕ → Bool) (i q : ℕ) : ℕ := Nat.count (fun k => acks (i + k) = false) q

variable {acks : ℕ → Bool} {s : State} {t : ErrorTypeDigit} {m : ModuleDigit} {sub : ℕ}

/-- A streak after a lapse of the first seven bytes starts behind that lapse. -/
theorem streak_after_lapse {i j n : ℕ} (hj : j < 7) (hbefore : ∀ k < j, acks (i + k) = true)
    (hno : acks (i + j) = false) :
    (∃ q, Streak acks (i + q) ∧ lapses acks i q ≤ n) ↔
      ∃ q, Streak acks (i + j + 1 + q) ∧ lapses acks (i + j + 1) q + 1 ≤ n := by
  have hlapse : ∀ q, lapses acks i (j + 1 + q) = lapses acks (i + j + 1) q + 1 := by
    intro q
    unfold lapses
    rw [Nat.count_add, Nat.count_succ, if_pos hno,
      Nat.count_of_forall_not fun k hk => by simp [hbefore k hk]]
    simp only [← Nat.add_assoc]
    omega
  constructor
  · rintro ⟨q, hq, hn⟩
    -- the lapse lies before the streak
    have hlt : j < q := by
      by_contra hle
      have hack := hq (j - q) (by omega)
      rw [show i + q + (j - q) = i + j by omega, hno] at hack
      cases hack
    obtain ⟨q, rfl⟩ := Nat.exists_eq_add_of_le hlt
    refine ⟨q, ?_, ?_⟩
    · rw [show i + j + 1 + q = i + (j.succ + q) by omega]
      exact hq
    · rw [← hlapse]
      exact hn
  · rintro ⟨q, hq, hn⟩
    refine ⟨j + 1 + q, ?_, ?_⟩
    · rw [show i + (j + 1 + q) = i + j + 1 + q by omega]
      exact hq
    · rw [hlapse]
      exact hn

/-! ### One report -/

/-- Blinking always returns. -/
theorem wp_armBlink {t : ErrorType} :
    wp (armBlink t) (fun _ _ => True) (fun _ _ => False) s := by
  unfold armBlink blinkPattern
  rw [wp_bind, wp_get]
  split
  · split <;> trivial
  · trivial

/-- Signalling an error type restarts the device or returns, as the type says. -/
theorem wp_signalErrorType {ty : ErrorType} : wp (signalErrorType ty)
    (fun _ _ => shouldRestart ty = false)
    (fun e _ => e = .restart ∧ shouldRestart ty = true) s := by
  unfold signalErrorType
  rw [wp_bind]
  refine wp_mono _ (fun _ u _ => ?_) (fun _ _ h => h.elim) (wp_armBlink (t := ty))
  split
  · rename_i hr
    exact ⟨rfl, hr⟩
  · rename_i hr
    exact (by simpa using hr : shouldRestart ty = false)

theorem ends_signalErrorType {ty : ErrorType} : Ends (signalErrorType ty) s :=
  wp_mono _ (fun _ _ _ => trivial) (fun e _ h => by simp [h.1]) wp_signalErrorType

/-- A report of a restarting class never returns. -/
theorem diverts_fail (ht : t.restarts = true) (acks : ℕ → Bool) (depth : ℕ) (text : String) :
    Diverts (fail acks depth t m sub text) := by
  intro s
  have hwp : wp (fail acks depth t m sub text) (fun _ _ => False) (fun _ _ => True) s := by
    cases depth with
    | zero => trivial
    | succ depth =>
      refine wp_bind_any fun _ u => wp_bind_any fun _ v => ?_
      refine wp_mono _ (fun _ _ h => ?_) (fun _ _ _ => trivial) wp_signalErrorType
      rw [show shouldRestart (signalledType t) = true from ht] at h
      cases h
  cases hx : fail acks depth t m sub text s with
  | ok _ _ => exact (wp_ok hx hwp).elim
  | error e u => exact ⟨e, u, rfl⟩

/-- Signalling an error with a display: either all seven bytes are acknowledged and the type is
signalled, or the first one that is not is reported, and nothing comes after that report. -/
theorem signalError_cases (hd : s.display.isSome) (depth : ℕ) :
    Streak acks s.sent.length ∧ (∃ u, signalError acks depth t m sub s =
      signalErrorType (signalledType t) u) ∨
    ∃ j < 7, (∀ k < j, acks (s.sent.length + k) = true) ∧ acks (s.sent.length + j) = false ∧
      ∃ u : State, u.sent.length = s.sent.length + j + 1 ∧ u.display = s.display ∧
        signalError acks depth t m sub s =
          fail acks depth .hardware .hw 2 "7Seg ACK timeout" u := by
  obtain ⟨brightness, hb⟩ := Option.isSome_iff_exists.1 hd
  set report := fail acks depth .hardware .hw 2 "7Seg ACK timeout" with hreport
  set segs := SevenSegDisplay.segments (makeErrorCode t m sub) true false with hsegs
  have hlen : (SevenSegDisplay.frameBytes brightness segs).length = 7 := by
    simp [SevenSegDisplay.frameBytes, hsegs, SevenSegDisplay.length_segments]
  have hshow : showCode acks report (makeErrorCode t m sub) s =
      SevenSegDisplay.writeBytes acks report (SevenSegDisplay.frameBytes brightness segs) s := by
    unfold showCode SevenSegDisplay.showValue
    rw [bind_ok (x := get) rfl, hb]
    exact congrFun (SevenSegDisplay.setSegments_eq acks report brightness segs) s
  have hrun : signalError acks depth t m sub s =
      (SevenSegDisplay.writeBytes acks report (SevenSegDisplay.frameBytes brightness segs) >>=
        fun _ => signalErrorType (signalledType t)) s := bind_congr_left hshow
  have hdiv : Diverts report := diverts_fail rfl acks depth "7Seg ACK timeout"
  have hcases := @SevenSegDisplay.writeBytes_cases acks report s hdiv
    (SevenSegDisplay.frameBytes brightness segs)
  rcases hcases with ⟨hall, hok⟩ | ⟨j, hj, hbefore, hno, u, hu, hdu, herr⟩
  · rw [hlen] at hall
    exact .inl ⟨hall, _, hrun.trans (bind_ok hok)⟩
  · rw [hlen] at hj
    obtain ⟨e, v, hev⟩ := hdiv u
    refine .inr ⟨j, hj, hbefore, hno, u, hu, hdu, ?_⟩
    rw [hrun, hev]
    exact bind_error (herr.trans hev)

/-! ### Nested reports -/

/-- **How deep reports nest.**  With a display, signalling an error ends within `n` nested reports
exactly when the display acknowledges seven bytes in a row after at most `n` lapses. -/
theorem signalError_ends_within {n : ℕ} (hd : s.display.isSome) :
    Ends (signalError acks n t m sub) s ↔
      ∃ q, Streak acks (s.sent.length + q) ∧ lapses acks s.sent.length q ≤ n := by
  -- by induction on the depth: each lapse is reported one level deeper
  induction n generalizing t m sub s with
  | zero =>
    rcases @signalError_cases acks s t m sub hd 0 with
      ⟨hstreak, u, hrun⟩ | ⟨j, hj, hbefore, hno, u, -, -, hrun⟩
    · refine iff_of_true ?_ ⟨0, hstreak, Nat.le_refl 0⟩
      unfold Ends wp
      rw [hrun]
      exact ends_signalErrorType
    · rw [streak_after_lapse hj hbefore hno]
      refine iff_of_false ?_ fun ⟨q, _, hq⟩ => by omega
      unfold Ends wp
      rw [hrun]
      exact fun h => h rfl
  | succ n ih =>
    rcases @signalError_cases acks s t m sub hd (n + 1) with
      ⟨hstreak, u, hrun⟩ | ⟨j, hj, hbefore, hno, u, hu, hdu, hrun⟩
    · refine iff_of_true ?_ ⟨0, hstreak, Nat.zero_le _⟩
      unfold Ends wp
      rw [hrun]
      exact ends_signalErrorType
    · rw [streak_after_lapse hj hbefore hno]
      -- the report of the lapse sends the code of the display itself, behind the lost byte
      rw [fail_succ] at hrun
      have hends : Ends (signalError acks (n + 1) t m sub) s ↔
          Ends (signalError acks n .hardware .hw 2)
            (u.reported ⟨.hardware, .hw, 2, "7Seg ACK timeout"⟩) := by
        unfold Ends wp
        rw [hrun]
      rw [hends, ih (show (u.reported _).display.isSome by rw [← hdu] at hd; exact hd)]
      simp only [State.reported, hu, Nat.add_le_add_iff_right]

/-- **Error reporting ends exactly when the display acknowledges seven bytes in a row at some
time.**  Until then every report of a missing acknowledgement nests another one. -/
theorem reporting_ends_iff {text : String} (hd : s.display.isSome) :
    ((∃ n, Ends (signalError acks n t m sub) s) ↔ ∃ q, Streak acks (s.sent.length + q)) ∧
      ((∃ n, Ends (fail acks n t m sub text) s) ↔ ∃ q, Streak acks (s.sent.length + q)) := by
  have hsignal : ∀ u : State, u.display = s.display → u.sent = s.sent →
      ((∃ n, Ends (signalError acks n t m sub) u) ↔ ∃ q, Streak acks (s.sent.length + q)) := by
    intro u hu hsent
    rw [← hu] at hd
    rw [← hsent]
    constructor
    · rintro ⟨n, hn⟩
      obtain ⟨q, hq, -⟩ := (signalError_ends_within hd).1 hn
      exact ⟨q, hq⟩
    · rintro ⟨q, hq⟩
      exact ⟨_, (signalError_ends_within hd).2 ⟨q, hq, Nat.le_refl _⟩⟩
  refine ⟨hsignal s rfl rfl, ?_⟩
  rw [← hsignal (s.reported ⟨t, m, sub, text⟩) rfl rfl]
  constructor
  · rintro ⟨n, hn⟩
    cases n with
    | zero => exact absurd rfl hn
    | succ n => exact ⟨n, hn⟩
  · rintro ⟨n, hn⟩
    exact ⟨n + 1, hn⟩

/-! ### The reports of a node -/

theorem signalErrorType_returns_iff {ty : ErrorType} :
    (∃ u, signalErrorType ty s = .ok () u) ↔ shouldRestart ty = false := by
  have hwp := @wp_signalErrorType s ty
  unfold wp at hwp
  cases hx : signalErrorType ty s with
  | ok a u =>
    rw [hx] at hwp
    exact iff_of_true ⟨u, rfl⟩ hwp
  | error e u =>
    rw [hx] at hwp
    refine iff_of_false ?_ (by simp [hwp.2])
    rintro ⟨_, ⟨⟩⟩

/-- **A report of a node returns exactly when it does here**: a display that is registered has to
acknowledge all seven bytes, and the class must not be one that restarts. -/
theorem signalError_returns_iff {w : World} {node : Node} {n : ℕ}
    (hd : s.display.isSome = w.config.enableSevsegDisplay)
    (hack : w.displayAck = true ↔ Streak acks s.sent.length) :
    (∃ u, signalError acks n t m sub s = .ok () u) ↔
      ∃ v, LatticeMesh.signalError w t node = .ok () v := by
  -- a node reports at once if its display works, and never returns from a class that restarts
  have hnode : (∃ v, LatticeMesh.signalError w t node = .ok () v) ↔
      (w.config.enableSevsegDisplay = true → w.displayAck = true) ∧ t.restarts = false := by
    unfold LatticeMesh.signalError
    split
    · rename_i h
      simp only [Bool.and_eq_true, Bool.not_eq_true'] at h
      refine iff_of_false ?_ fun hno => by simp [hno.1 h.1] at h
      rintro ⟨_, ⟨⟩⟩
    · rename_i h
      have hok : w.config.enableSevsegDisplay = true → w.displayAck = true := by
        intro he
        simpa [he] using h
      split
      · rename_i hr
        refine iff_of_false ?_ fun hno => by simp [hr] at hno
        rintro ⟨_, ⟨⟩⟩
      · rename_i hr
        exact iff_of_true ⟨_, rfl⟩ ⟨hok, by simpa using hr⟩
  rw [hnode, ← hd, hack]
  -- without a display no byte is sent
  cases hs : s.display.isSome with
  | false =>
    have hnone : showCode acks (fail acks n .hardware .hw 2 "7Seg ACK timeout")
        (makeErrorCode t m sub) s = .ok () s := by
      have hdisplay : s.display = none := by simpa using hs
      unfold showCode
      rw [bind_ok (x := get) rfl, hdisplay]
      rfl
    have hrun : signalError acks n t m sub s = signalErrorType (signalledType t) s := bind_ok hnone
    rw [hrun, signalErrorType_returns_iff]
    simp [ErrorTypeDigit.restarts]
  | true =>
    rcases @signalError_cases acks s t m sub hs n with
      ⟨hstreak, u, hrun⟩ | ⟨j, hj, -, hno, u, -, -, hrun⟩
    · rw [hrun, signalErrorType_returns_iff]
      simp [hstreak, ErrorTypeDigit.restarts]
    · obtain ⟨e, v, hev⟩ := @diverts_fail .hardware .hw 2 rfl acks n "7Seg ACK timeout" u
      have hlapse : ¬Streak acks s.sent.length := fun h => by simp [h j hj] at hno
      rw [hrun, hev]
      refine iff_of_false ?_ fun h => hlapse (h.1 rfl)
      rintro ⟨_, ⟨⟩⟩

end ErrorCore

namespace Sample

/-- An error core with an LED and a display of full brightness. -/
def errorCore : ErrorCore.State :=
  { errorLed := some { initialized := true }, display := some 7, initialized := true }

/-- A display that misses the first byte and the fifth one after that. -/
def flakyAcks (k : ℕ) : Bool := k != 0 && k != 5

end Sample

namespace ErrorCore

/-- A display that comes back after two lapses lets the report end. -/
theorem reporting_ends_flaky :
    (∃ n, Ends (signalError Sample.flakyAcks n .sensor .adapter 1) Sample.errorCore) ∧
      ∃ n, Ends (fail Sample.flakyAcks n .sensor .adapter 1 "sensor") Sample.errorCore := by
  have hstreak : ∃ q, Streak Sample.flakyAcks (Sample.errorCore.sent.length + q) :=
    ⟨6, by unfold Streak; decide⟩
  have h := @reporting_ends_iff Sample.flakyAcks Sample.errorCore .sensor .adapter 1 "sensor" rfl
  exact ⟨h.1.2 hstreak, h.2.2 hstreak⟩

/-- **A dead display lets no report end.** -/
theorem not_reporting_ends_dead : ¬∀ (acks : ℕ → Bool) (s : State) (t : ErrorTypeDigit)
    (m : ModuleDigit) (sub : ℕ) (text : String), s.display.isSome →
      (∃ n, Ends (signalError acks n t m sub) s) ∧ ∃ n, Ends (fail acks n t m sub text) s := by
  intro h
  obtain ⟨⟨n, hn⟩, -⟩ := h (fun _ => false) Sample.errorCore .sensor .adapter 1 "" rfl
  obtain ⟨q, hq, -⟩ := (signalError_ends_within (by rfl)).1 hn
  cases hq 0 (by decide)

end ErrorCore

end LatticeMesh
