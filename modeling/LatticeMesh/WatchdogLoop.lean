import LatticeMesh.Lib.Runs
import LatticeMesh.Device

/-!
# The watchdog loop

Every boot counts, in flash, how often in a row the watchdog reset the device, and a device that the
watchdog reset five times in a row is to stop.  The same boot reports an unexpected reset as a
hardware error a moment later, and that report restarts the device: the boot after it follows a
restart by software, which clears the counter.

## Main definitions

* `BootManager.check` — the counter at the start of a boot.
* `BootFlow.boot` — a boot up to the end of `err_core::init`, and what resets the device next.
* `BootFlow.Lapsed` — a boot that a reset cut short before that point, that stopped in the loop, or
  whose counter was not cleared although it should have been.

## Main results

* `BootFlow.halted_lapses` — **a device that stops has lapsed in four boots at least.**
* `BootFlow.never_halts` — a device whose boots all get through never stops, however often the
  watchdog resets it.
-/

namespace LatticeMesh

/-- Why the chip was reset: the reasons that the firmware tells apart, and the others by number. -/
inductive ResetReason
  | powerOn
  | ext
  | sw
  | intWdt
  | taskWdt
  | wdt
  | other (code : UInt8)
  deriving DecidableEq

namespace ResetReason

/-- The number of a reason. -/
def code : ResetReason → UInt8
  | .powerOn => 1
  | .ext => 2
  | .sw => 3
  | .intWdt => 5
  | .taskWdt => 6
  | .wdt => 7
  | .other code => code

/-- One of the watchdogs reset the chip. -/
def isWatchdog (r : ResetReason) : Bool := r == .wdt || r == .taskWdt || r == .intWdt

/-- A reset that `err_core::init` does not report. -/
def isExpected (r : ResetReason) : Bool := r == .powerOn || r == .sw || r == .ext

theorem not_isExpected_of_isWatchdog {r : ResetReason} (h : r.isWatchdog = true) :
    r.isExpected = false := by
  cases r <;> first | rfl | exact absurd h (by decide)

end ResetReason

/-- The two keys in flash that a boot keeps about resets. -/
structure BootFlash where
  rebootReason : Option UInt8 := none
  rebootCount : Option UInt8 := none
  deriving DecidableEq

namespace BootFlash

def loadRebootCount (f : BootFlash) : UInt8 := f.rebootCount.getD 0

/-- A write may fail, which is logged and nothing else. -/
def saveRebootCount (f : BootFlash) (ok : Bool) (count : UInt8) : BootFlash :=
  if ok then { f with rebootCount := some count } else f

def saveRebootReason (f : BootFlash) (ok : Bool) (reason : UInt8) : BootFlash :=
  if ok then { f with rebootReason := some reason } else f

@[simp] theorem loadRebootCount_saveRebootReason (f : BootFlash) (ok : Bool) (reason : UInt8) :
    (f.saveRebootReason ok reason).loadRebootCount = f.loadRebootCount := by
  cases ok <;> rfl

@[simp] theorem loadRebootCount_saveRebootCount (f : BootFlash) (ok : Bool) (count : UInt8) :
    (f.saveRebootCount ok count).loadRebootCount = if ok then count else f.loadRebootCount := by
  cases ok <;> rfl

end BootFlash

/-- What the outside decides in one boot. -/
structure BootEnv where
  nvsOpenOk : Bool
  /-- Whether the writes of `eeprom::init` succeed, to the reason and to the counter. -/
  initReasonOk : Bool
  initCountOk : Bool
  /-- Whether the writes of the check succeed. -/
  saveReasonOk : Bool
  saveCountOk : Bool
  /-- A reset before the check, and whether `eeprom::init` had run by then. -/
  cutBefore : Option (ResetReason × Bool)
  /-- A reset between the check and the end of `err_core::init`. -/
  cutAfter : Option ResetReason
  displayAcks : Bool
  /-- The reset that ends a boot that halts or runs. -/
  next : ResetReason

namespace EepromCore

/-- The first `eeprom::init` of a boot puts the stored reset data in order. -/
def init (e : BootEnv) (f : BootFlash) : BootFlash :=
  let f :=
    if f.rebootReason.getD 0xFF = 0 then f.saveRebootReason e.initReasonOk 0xFF else f
  if f.loadRebootCount > 10 then f.saveRebootCount e.initCountOk 0 else f

theorem loadRebootCount_init_le (e : BootEnv) (f : BootFlash) :
    (init e f).loadRebootCount.toNat ≤ f.loadRebootCount.toNat := by
  have hreason : ∀ f' : BootFlash,
      (if f'.loadRebootCount > 10 then f'.saveRebootCount e.initCountOk 0
        else f').loadRebootCount.toNat ≤ f'.loadRebootCount.toNat := by
    intro f'
    split_ifs
    · cases e.initCountOk <;> simp
    · exact le_rfl
  unfold init
  refine (hreason _).trans ?_
  split_ifs <;> simp

end EepromCore

namespace BootManager

/-- The number of watchdog resets in a row at which the device stops. -/
def wdtLimit : UInt8 := 5

/-- Count the watchdog resets in a row; the flag is set when the device stops. -/
def check (e : BootEnv) (reason : ResetReason) (f : BootFlash) : Bool × BootFlash :=
  let f := f.saveRebootReason e.saveReasonOk reason.code
  if reason.isWatchdog then
    let count := f.loadRebootCount + 1
    (wdtLimit ≤ count, f.saveRebootCount e.saveCountOk count)
  else
    (false, f.saveRebootCount e.saveCountOk 0)

end BootManager

/-- How a boot ends, as far as the resets are concerned. -/
inductive BootEnd
  /-- The endless loop of the check. -/
  | halted
  /-- Reset by something else before the end of `err_core::init`. -/
  | cut
  /-- Restarted by the firmware. -/
  | restarted
  /-- On with the boot. -/
  | ran
  deriving DecidableEq

/-- What a boot starts from: the flash, and why the chip was reset. -/
structure BootFlow where
  flash : BootFlash := {}
  reason : ResetReason := .powerOn
  deriving DecidableEq

namespace BootFlow

/-- Whether `err_core::init` ends in a restart: an unexpected reset is reported as a hardware
error. -/
def reportsReset (reason : ResetReason) : Bool :=
  !reason.isExpected && ErrorTypeDigit.hardware.restarts

/-- The part of a boot between the check and the end of `err_core::init`: the display, whose silence
is a hardware error as well, and the report of the reset. -/
def afterCheck (c : Config) (e : BootEnv) (reason : ResetReason) (f : BootFlash) :
    BootEnd × BootFlow :=
  match e.cutAfter with
  | some r => (.cut, ⟨f, r⟩)
  | none =>
    if c.enableSevsegDisplay && !e.displayAcks && ErrorTypeDigit.hardware.restarts then
      (.restarted, ⟨f, .sw⟩)
    else if reportsReset reason then (.restarted, ⟨f, .sw⟩)
    else (.ran, ⟨f, e.next⟩)

/-- One boot, from a reset to the next one. -/
def boot (c : Config) (s : BootFlow) (e : BootEnv) : BootEnd × BootFlow :=
  match e.cutBefore with
  | some (r, initialized) => (.cut, ⟨if initialized then EepromCore.init e s.flash else s.flash, r⟩)
  | none =>
    -- An NVS partition that cannot be opened is a memory error, which restarts the device.
    if !e.nvsOpenOk then (.restarted, { s with reason := .sw })
    else
      let checked := BootManager.check e s.reason (EepromCore.init e s.flash)
      if checked.1 then (.halted, ⟨checked.2, e.next⟩)
      else afterCheck c e s.reason checked.2

/-- The device after some boots. -/
def run (c : Config) (s : BootFlow) (es : List BootEnv) : BootFlow :=
  Runs.run (fun s e => (boot c s e).2) s es

/-- A boot that did not get through to the end of `err_core::init`, because something reset it or
because it stopped, or that should have cleared the counter and could not. -/
def Lapsed (c : Config) (s : BootFlow) (e : BootEnv) : Prop :=
  (boot c s e).1 = .cut ∨ (boot c s e).1 = .halted ∨
    s.reason.isWatchdog = false ∧ e.saveCountOk = false

instance (c : Config) (s : BootFlow) (e : BootEnv) : Decidable (Lapsed c s e) :=
  inferInstanceAs (Decidable (_ ∨ _ ∨ _))

/-- The number of lapsed boots. -/
def lapses (c : Config) : BootFlow → List BootEnv → ℕ
  | _, [] => 0
  | s, e :: es => (if Lapsed c s e then 1 else 0) + lapses c (boot c s e).2 es

variable {c : Config} {s : BootFlow} {e : BootEnv} {es : List BootEnv} {k : ℕ}

/-! ### The counter -/

/-- The counter is ahead of the lapses by one at most, and not at all in front of a boot that counts
on. -/
structure Counted (k : ℕ) (s : BootFlow) : Prop where
  le_succ : s.flash.loadRebootCount.toNat ≤ k + 1
  le : s.reason.isWatchdog = true → s.flash.loadRebootCount.toNat ≤ k

/-- The counter after the check: one more after a watchdog reset, else zero. -/
theorem count_check (h : s.reason.isWatchdog = true) :
    (BootManager.check e s.reason (EepromCore.init e s.flash)).2.loadRebootCount.toNat ≤
      s.flash.loadRebootCount.toNat + 1 := by
  have hinit := EepromCore.loadRebootCount_init_le e s.flash
  have hadd : ((EepromCore.init e s.flash).loadRebootCount + 1).toNat ≤
      (EepromCore.init e s.flash).loadRebootCount.toNat + 1 := by
    rw [UInt8.toNat_add]
    exact Nat.mod_le _ _
  simp only [BootManager.check, h, if_true, BootFlash.loadRebootCount_saveRebootCount,
    BootFlash.loadRebootCount_saveRebootReason]
  cases e.saveCountOk with
  | true => exact hadd.trans (Nat.succ_le_succ hinit)
  | false => exact hinit.trans (Nat.le_succ _)

theorem count_check_clear (h : s.reason.isWatchdog = false) :
    (BootManager.check e s.reason (EepromCore.init e s.flash)).2.loadRebootCount.toNat ≤
      if e.saveCountOk then 0 else s.flash.loadRebootCount.toNat := by
  have hinit := EepromCore.loadRebootCount_init_le e s.flash
  simp only [BootManager.check, h, Bool.false_eq_true, if_false,
    BootFlash.loadRebootCount_saveRebootCount, BootFlash.loadRebootCount_saveRebootReason]
  cases e.saveCountOk with
  | true => exact le_rfl
  | false => exact hinit

/-- The device stops only after a watchdog reset, with four of them counted. -/
theorem four_le_of_halts
    (h : (BootManager.check e s.reason (EepromCore.init e s.flash)).1 = true) :
    s.reason.isWatchdog = true ∧ 4 ≤ s.flash.loadRebootCount.toNat := by
  have hinit := EepromCore.loadRebootCount_init_le e s.flash
  cases hw : s.reason.isWatchdog with
  | false => simp [BootManager.check, hw] at h
  | true =>
    refine ⟨rfl, ?_⟩
    simp only [BootManager.check, hw, if_true, BootFlash.loadRebootCount_saveRebootReason,
      decide_eq_true_eq, UInt8.le_iff_toNat_le] at h
    have hadd := Nat.mod_le ((EepromCore.init e s.flash).loadRebootCount.toNat + 1) 256
    rw [UInt8.toNat_add] at h
    change 5 ≤ _ % 256 at h
    change (_ + 1) % 256 ≤ _ at hadd
    have hone : (1 : UInt8).toNat = 1 := rfl
    rw [hone] at h
    omega

/-! ### One boot -/

theorem reportsReset_of_isWatchdog {r : ResetReason} (h : r.isWatchdog = true) :
    reportsReset r = true := by
  simp [reportsReset, ResetReason.not_isExpected_of_isWatchdog h, ErrorTypeDigit.restarts,
    shouldRestart, signalledType]

/-- Behind the check nothing stops the device. -/
theorem afterCheck_ne_halted (f : BootFlash) : (afterCheck c e s.reason f).1 ≠ .halted := by
  unfold afterCheck
  cases e.cutAfter with
  | some r => exact BootEnd.noConfusion
  | none =>
    simp only
    split_ifs <;> exact BootEnd.noConfusion

/-- A boot that stops has four lapses behind it. -/
theorem Counted.four_le (h : Counted k s) (hb : (boot c s e).1 = .halted) : 4 ≤ k := by
  unfold boot at hb
  cases hc : e.cutBefore with
  | some r => simp [hc] at hb
  | none =>
    simp only [hc] at hb
    cases ho : e.nvsOpenOk with
    | false => simp [ho] at hb
    | true =>
      simp only [ho, Bool.not_true, Bool.false_eq_true, if_false] at hb
      by_cases hh : (BootManager.check e s.reason (EepromCore.init e s.flash)).1 = true
      · obtain ⟨hw, hfour⟩ := four_le_of_halts hh
        exact hfour.trans (h.le hw)
      · rw [if_neg hh] at hb
        exact absurd hb (afterCheck_ne_halted _)

/-- A counter that is not ahead of the lapses may be followed by any reset. -/
theorem counted_of_le (h : s.flash.loadRebootCount.toNat ≤ k) : Counted k s :=
  ⟨h.trans (Nat.le_succ _), fun _ => h⟩

/-- Whatever happens behind the check leaves the flash alone. -/
theorem flash_afterCheck (r : ResetReason) (f : BootFlash) : (afterCheck c e r f).2.flash = f := by
  unfold afterCheck
  cases e.cutAfter with
  | some r => rfl
  | none =>
    simp only
    split_ifs <;> rfl

theorem Counted.mono {n : ℕ} (h : Counted k s) (hk : k ≤ n) : Counted n s :=
  ⟨h.le_succ.trans (Nat.succ_le_succ hk), fun hw => (h.le hw).trans hk⟩

/-- A boot that goes on in the firmware leaves no watchdog reset behind that it has not counted
among the lapses: a reset by the watchdog is reported, and the report restarts the device. -/
theorem Counted.afterCheck {f : BootFlash} (hf : f.loadRebootCount.toNat ≤ k + 1)
    (hclear : s.reason.isWatchdog = false → f.loadRebootCount.toNat ≤ k) :
    Counted (k + if (afterCheck c e s.reason f).1 = .cut then 1 else 0)
      (afterCheck c e s.reason f).2 := by
  have hsw : Counted k ⟨f, .sw⟩ := ⟨hf, fun hw => by cases hw⟩
  unfold BootFlow.afterCheck
  cases hcut : e.cutAfter with
  | some r => exact counted_of_le hf
  | none =>
    simp only
    by_cases hd :
        (c.enableSevsegDisplay && !e.displayAcks && ErrorTypeDigit.hardware.restarts) = true
    · rw [if_pos hd]
      exact hsw.mono (Nat.le_add_right _ _)
    · rw [if_neg hd]
      cases hr : reportsReset s.reason with
      | true => exact hsw.mono (Nat.le_add_right _ _)
      | false =>
        -- The device only runs on after a reset that cleared the counter.
        have hno : s.reason.isWatchdog = false := by
          by_contra hw
          rw [reportsReset_of_isWatchdog (by simpa using hw)] at hr
          cases hr
        exact (counted_of_le (s := ⟨f, e.next⟩) (hclear hno)).mono (Nat.le_add_right _ _)

/-- **A boot keeps the counter behind the lapses.** -/
theorem Counted.boot (h : Counted k s) :
    Counted (k + if Lapsed c s e then 1 else 0) (boot c s e).2 := by
  cases hc : e.cutBefore with
  | some cut =>
    -- The counter is as it was, or `eeprom::init` put it to zero.
    obtain ⟨r, initialized⟩ := cut
    have hl : Lapsed c s e := .inl (by simp [BootFlow.boot, hc])
    have hle : (if initialized then EepromCore.init e s.flash
        else s.flash).loadRebootCount.toNat ≤ k + 1 := by
      cases initialized with
      | true => exact (EepromCore.loadRebootCount_init_le e s.flash).trans h.le_succ
      | false => exact h.le_succ
    rw [if_pos hl]
    simp only [BootFlow.boot, hc]
    exact counted_of_le hle
  | none =>
    cases ho : e.nvsOpenOk with
    | false =>
      have hsw : Counted k { s with reason := .sw } := ⟨h.le_succ, fun hw => by cases hw⟩
      simp only [BootFlow.boot, hc, ho, Bool.not_false, if_true]
      exact hsw.mono (Nat.le_add_right _ _)
    | true =>
      set checked := BootManager.check e s.reason (EepromCore.init e s.flash) with hchecked
      have hboot : BootFlow.boot c s e = if checked.1 then (.halted, ⟨checked.2, e.next⟩)
          else BootFlow.afterCheck c e s.reason checked.2 := by
        simp [BootFlow.boot, hc, ho, hchecked]
      by_cases hh : checked.1 = true
      · have hw := (four_le_of_halts hh).1
        have hl : Lapsed c s e := .inr (.inl (by rw [hboot, if_pos hh]))
        have hcount := (count_check (e := e) hw).trans (Nat.succ_le_succ (h.le hw))
        rw [hboot, if_pos hh, if_pos hl]
        exact counted_of_le hcount
      · rw [hboot, if_neg hh]
        by_cases hkept : s.reason.isWatchdog = false ∧ e.saveCountOk = false
        · have hl : Lapsed c s e := .inr (.inr hkept)
          have hcount := count_check_clear (e := e) hkept.1
          simp only [hkept.2, Bool.false_eq_true, if_false] at hcount
          rw [if_pos hl]
          refine counted_of_le ?_
          rw [flash_afterCheck]
          exact hcount.trans h.le_succ
        · have hclear : s.reason.isWatchdog = false → checked.2.loadRebootCount.toNat ≤ k := by
            intro hw
            have hsave : e.saveCountOk = true := by
              by_contra hs
              exact hkept ⟨hw, by simpa using hs⟩
            have hcount := count_check_clear (e := e) hw
            simp only [hsave, if_true] at hcount
            exact hcount.trans (Nat.zero_le _)
          have hsucc : checked.2.loadRebootCount.toNat ≤ k + 1 := by
            cases hw : s.reason.isWatchdog with
            | true => exact (count_check hw).trans (Nat.succ_le_succ (h.le hw))
            | false => exact (hclear hw).trans (Nat.le_succ _)
          refine (Counted.afterCheck hsucc hclear).mono (Nat.add_le_add_left ?_ k)
          -- A boot that is cut has lapsed.
          by_cases hcut : (BootFlow.afterCheck c e s.reason checked.2).1 = .cut
          · rw [if_pos hcut, if_pos (.inl (by rw [hboot, if_neg hh]; exact hcut))]
          · rw [if_neg hcut]
            exact Nat.zero_le _

/-! ### Runs -/

theorem counted_run (h : Counted k s) (es : List BootEnv) :
    Counted (k + lapses c s es) (run c s es) := by
  induction es generalizing k s with
  | nil => exact h
  | cons e es ih =>
    have hrest := ih (h.boot (c := c) (e := e))
    rwa [Nat.add_assoc] at hrest

/-- A device whose flash is blank has counted nothing. -/
theorem counted_blank (r : ResetReason) (es : List BootEnv) :
    Counted (lapses c ⟨{}, r⟩ es) (run c ⟨{}, r⟩ es) := by
  have h0 : Counted 0 ⟨{}, r⟩ := counted_of_le le_rfl
  have h := counted_run (c := c) h0 es
  rwa [Nat.zero_add] at h

/-- **A device that stops because of the watchdog has lapsed four times.**  Its flash was blank, and
whatever happened since, in four boots at least something reset the device before the end of
`err_core::init`, or the device had stopped in the loop already, or the counter could not be
cleared after a reset that was not the watchdog's. -/
theorem halted_lapses (c : Config) (r : ResetReason) (es : List BootEnv) (e : BootEnv)
    (h : (boot c (run c ⟨{}, r⟩ es) e).1 = .halted) : 4 ≤ lapses c ⟨{}, r⟩ es :=
  (counted_blank r es).four_le h

/-- A device whose boots all reach the end of `err_core::init`, with a counter that can be written,
never stops, however often the watchdog resets it. -/
theorem never_halts (c : Config) (r : ResetReason) (es : List BootEnv) (e : BootEnv)
    (h : lapses c ⟨{}, r⟩ es = 0) : (boot c (run c ⟨{}, r⟩ es) e).1 ≠ .halted := by
  intro hh
  have hfour := (counted_blank r es).four_le hh
  rw [h] at hfour
  exact absurd hfour (by decide)

end BootFlow

namespace Sample

/-- A boot in which everything works, until the watchdog resets the device. -/
def watchdogBoot (cutAfter : Option ResetReason) : BootEnv where
  nvsOpenOk := true
  initReasonOk := true
  initCountOk := true
  saveReasonOk := true
  saveCountOk := true
  cutBefore := none
  cutAfter := cutAfter
  displayAcks := true
  next := .taskWdt

end Sample

namespace BootFlow

/-- Four boots that the watchdog cuts short, and the fifth stops. -/
theorem halted_lapses_early :
    4 ≤ lapses Sample.config ⟨{}, .wdt⟩ (List.replicate 4 (Sample.watchdogBoot (some .wdt))) :=
  halted_lapses Sample.config .wdt _ (Sample.watchdogBoot none) (by decide)

end BootFlow

end LatticeMesh
