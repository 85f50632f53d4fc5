import LatticeMesh.ErrorCore
import LatticeMesh.Lib.PolledTimer

/-!
# The status LEDs

An LED blinks without blocking its caller: `pulse` arms a pattern and lights the LED, and `update`,
which the main loop calls again and again, switches it whenever a phase of the pattern is over.
Only before a restart does a caller wait for the pattern to end, by pumping `update` itself.

The clock counts milliseconds in 64 bits, and a phase has 32, so that adding the two never wraps.

## Main definitions

* `Led`, `Led.pulse`, `Led.update` — the LED and its two operations.
* `Led.pattern` — the lengths of the phases of a pattern.
* `Led.Played` — a pattern has been played in time and in full.
* `ErrorCore.blinkMs` — the phases of a blink of the error LED.
* `ButtonHandler.pumpLedsUntilIdle` — the loop that waits for the patterns of one or two LEDs.

## Main results

* `Led.steady_run` — whatever is armed and whenever, the pin follows the phases, and an LED at rest
  is dark.
* `Led.pulse_run` — **a pattern is played in time and in full, and leaves the LED dark.**
* `ErrorCore.blinkPattern_plays` — what an error report arms on the error LED is such a pattern.
* `ButtonHandler.pump_ends` — **the loop before a restart ends, and in time, when the LEDs have
  played their patterns.**
-/

namespace LatticeMesh

open PolledTimer

/-- An LED: what it drives on its pin, and the pattern that it plays. -/
structure Led where
  initialized : Bool
  /-- The level of the pin. -/
  pin : Bool := false
  isOn : Bool := false
  /-- The lit phases that are still to come or to end; zero is at rest. -/
  remaining : ℕ := 0
  onPhase : Bool := false
  nextFlipMs : ℕ := 0
  onMs : ℕ := 0
  offMs : ℕ := 0
  deriving DecidableEq

namespace Led

/-- Switch the LED.  The pin is written only when it changes. -/
def setState (l : Led) (state : Bool) : Led :=
  if l.isOn = state then l else { l with pin := state, isOn := state }

/-- Arm a pattern, and light the LED.  A pattern without any phase ends the one that plays. -/
def pulse (l : Led) (times onMs offMs now : ℕ) : Led :=
  if !l.initialized then l
  else if times = 0 then { l with remaining := 0 }
  else
    { setState { l with onMs, offMs, remaining := times, onPhase := true } true with
      nextFlipMs := now + onMs }

/-- Switch the LED if a phase is over. -/
def update (l : Led) (nowMs : ℕ) : Led :=
  if l.remaining = 0 then l
  else if nowMs < l.nextFlipMs then l
  else if l.onPhase then
    let off := { l.setState false with onPhase := false, remaining := l.remaining - 1 }
    if off.remaining > 0 then { off with nextFlipMs := nowMs + l.offMs } else off
  else { l.setState true with onPhase := true, nextFlipMs := nowMs + l.onMs }

def isBusy (l : Led) : Bool := l.remaining > 0

/-! ### What always holds -/

/-- The pin is as the LED says, the LED is lit in the lit phases, and dark at rest. -/
structure Steady (l : Led) : Prop where
  pin : l.pin = l.isOn
  phase : l.remaining ≠ 0 → l.isOn = l.onPhase
  rest : l.remaining = 0 → l.isOn = false

variable {l : Led} {p t : ℕ} {ps : List ℕ}

/-- Where the pin is as the LED says, switching is writing it. -/
theorem setState_eq (h : l.pin = l.isOn) (state : Bool) :
    l.setState state = { l with pin := state, isOn := state } := by
  unfold setState
  split
  · rename_i hs
    subst hs
    obtain ⟨_, pin, isOn⟩ := l
    obtain rfl : pin = isOn := h
    rfl
  · rfl

theorem pulse_eq {times : ℕ} (hi : l.initialized = true) (ht : times ≠ 0) (h : l.pin = l.isOn)
    (onMs offMs now : ℕ) : l.pulse times onMs offMs now =
      { l with
        pin := true, isOn := true, remaining := times, onPhase := true, nextFlipMs := now + onMs
        onMs, offMs } := by
  have hs := setState_eq (l := { l with onMs, offMs, remaining := times, onPhase := true }) h true
  unfold pulse
  rw [if_neg (by simp [hi]), if_neg ht, hs]

/-- An update of an LED at rest, or before the phase is over, does nothing. -/
theorem update_idle (h : l.remaining = 0 ∨ p < l.nextFlipMs) : l.update p = l := by
  unfold update
  split
  · rfl
  · rename_i hr
    rw [if_pos (h.resolve_left hr)]

/-- An update when a lit phase is over. -/
theorem update_lit {n : ℕ} (hr : l.remaining = n + 1) (hphase : l.onPhase = true)
    (h : l.pin = l.isOn) (hp : l.nextFlipMs ≤ p) : l.update p =
      { l with
        pin := false, isOn := false, remaining := n, onPhase := false
        nextFlipMs := if n = 0 then l.nextFlipMs else p + l.offMs } := by
  unfold update
  rw [if_neg (by omega), if_neg (Nat.not_lt.2 hp), if_pos hphase, setState_eq h, hr]
  cases n with
  | zero => rfl
  | succ n => exact if_pos (Nat.succ_pos n)

/-- An update when a dark phase is over. -/
theorem update_dark (hr : l.remaining ≠ 0) (hphase : l.onPhase = false) (h : l.pin = l.isOn)
    (hp : l.nextFlipMs ≤ p) : l.update p =
      { l with pin := true, isOn := true, onPhase := true, nextFlipMs := p + l.onMs } := by
  unfold update
  rw [if_neg hr, if_neg (Nat.not_lt.2 hp), if_neg (by simp [hphase]), setState_eq h]

theorem Steady.pulse {times : ℕ} (h : Steady l) (ht : times ≠ 0) (onMs offMs now : ℕ) :
    Steady (l.pulse times onMs offMs now) := by
  by_cases hi : l.initialized = true
  · rw [pulse_eq hi ht h.pin]
    exact ⟨rfl, fun _ => rfl, fun hr => absurd hr ht⟩
  · unfold Led.pulse
    rwa [if_pos (by simpa using hi)]

theorem Steady.update (h : Steady l) (p : ℕ) : Steady (l.update p) := by
  by_cases hr : l.remaining = 0
  · rwa [update_idle (.inl hr)]
  by_cases hp : p < l.nextFlipMs
  · rwa [update_idle (.inr hp)]
  obtain ⟨n, hn⟩ := Nat.exists_eq_succ_of_ne_zero hr
  cases hphase : l.onPhase with
  | true =>
    rw [update_lit hn hphase h.pin (Nat.not_lt.1 hp)]
    exact ⟨rfl, fun _ => rfl, fun _ => rfl⟩
  | false =>
    rw [update_dark hr hphase h.pin (Nat.not_lt.1 hp)]
    exact ⟨rfl, fun _ => rfl, fun hr' => absurd hr' hr⟩

/-- What the firmware does with an LED: it arms a pattern, or polls. -/
inductive Event
  | pulse (times onMs offMs now : ℕ)
  | update (nowMs : ℕ)

def apply (l : Led) : Event → Led
  | .pulse times onMs offMs now => l.pulse times onMs offMs now
  | .update nowMs => l.update nowMs

/-- **Whatever is armed and whenever, the pin follows the phases, and an LED at rest is dark**, as
long as every pattern that is armed has a phase. -/
theorem steady_run (es : List Event) (hes : ∀ times onMs offMs now,
    Event.pulse times onMs offMs now ∈ es → times ≠ 0) :
    ∀ {l : Led}, Steady l → Steady (es.foldl apply l) := by
  induction es with
  | nil => exact fun h => h
  | cons e es ih =>
    intro l h
    refine ih (fun times onMs offMs now hin =>
      hes times onMs offMs now (List.mem_cons_of_mem e hin)) ?_
    cases e with
    | pulse times onMs offMs now =>
      exact h.pulse (hes times onMs offMs now List.mem_cons_self) onMs offMs now
    | update nowMs => exact h.update nowMs

/-! ### Patterns -/

/-- The dark and lit phases that follow a lit phase, when `n` lit ones are to come. -/
def later (onMs offMs : ℕ) : ℕ → List ℕ
  | 0 => []
  | n + 1 => offMs :: onMs :: later onMs offMs n

/-- The lengths of the phases of a pattern: it begins and ends with a lit one. -/
def pattern (onMs offMs : ℕ) : ℕ → List ℕ
  | 0 => []
  | n + 1 => onMs :: later onMs offMs n

theorem length_later (onMs offMs n : ℕ) : (later onMs offMs n).length = 2 * n := by
  induction n with
  | zero => rfl
  | succ n ih =>
    rw [later, List.length_cons, List.length_cons, ih]
    omega

theorem sum_later (onMs offMs n : ℕ) : (later onMs offMs n).sum = n * (onMs + offMs) := by
  induction n with
  | zero => rw [Nat.zero_mul]; rfl
  | succ n ih =>
    rw [later, List.sum_cons, List.sum_cons, ih, Nat.succ_mul]
    omega

theorem length_pattern (onMs offMs n : ℕ) : (pattern onMs offMs n).length = 2 * n - 1 := by
  cases n with
  | zero => rfl
  | succ n =>
    rw [pattern, List.length_cons, length_later]
    omega

theorem sum_pattern (onMs offMs n : ℕ) :
    (pattern onMs offMs n).sum = n * onMs + (n - 1) * offMs := by
  cases n with
  | zero => rw [Nat.zero_mul, Nat.zero_sub, Nat.zero_mul]; rfl
  | succ n =>
    rw [pattern, List.sum_cons, sum_later, Nat.mul_add, Nat.succ_mul, Nat.succ_sub_one]
    omega

/-- The phases that are left, the one that runs first. -/
def left (l : Led) : List ℕ :=
  if l.onPhase then pattern l.onMs l.offMs l.remaining
  else if l.remaining = 0 then [] else l.offMs :: pattern l.onMs l.offMs l.remaining

theorem left_lit {n : ℕ} (hr : l.remaining = n + 1) (hphase : l.onPhase = true) :
    l.left = l.onMs :: later l.onMs l.offMs n := by
  unfold left
  rw [if_pos hphase, hr, pattern]

theorem left_dark {n : ℕ} (hr : l.remaining = n + 1) (hphase : l.onPhase = false) :
    l.left = l.offMs :: l.onMs :: later l.onMs l.offMs n := by
  unfold left
  rw [hphase, if_neg (by decide), if_neg (by omega), hr, pattern]

theorem left_of_rest (h : l.remaining = 0) : l.left = [] := by
  unfold left
  rw [h]
  split <;> rfl

/-- The phase that runs began at `t`. -/
def Since (l : Led) (t : ℕ) : Prop := l.remaining ≠ 0 → l.nextFlipMs = t + l.left.headD 0

/-- When a phase is over, the LED switches, and the next phase counts from there. -/
theorem switches (hr : l.remaining ≠ 0) (hp : l.nextFlipMs ≤ p) (h : Steady l) :
    (l.update p).left = l.left.tail ∧ Since (l.update p) p ∧ (l.update p).isOn = !l.isOn := by
  obtain ⟨n, hn⟩ := Nat.exists_eq_succ_of_ne_zero hr
  have hlit := h.phase hr
  cases hphase : l.onPhase with
  | true =>
    rw [update_lit hn hphase h.pin hp, left_lit hn hphase, hlit, hphase]
    cases n with
    | zero => exact ⟨rfl, fun hne => absurd rfl hne, rfl⟩
    | succ n => exact ⟨rfl, fun _ => rfl, rfl⟩
  | false =>
    rw [update_dark hr hphase h.pin hp, left_dark hn hphase, hlit, hphase]
    have hleft : left { l with
        pin := true, isOn := true, onPhase := true, nextFlipMs := p + l.onMs } =
        l.onMs :: later l.onMs l.offMs n := left_lit hn rfl
    refine ⟨hleft, fun _ => ?_, rfl⟩
    rw [hleft]
    rfl

/-- One more switch turns the LED over. -/
theorem not_xor_odd (b : Bool) (k : ℕ) :
    (!b ^^ decide (k % 2 = 1)) = (b ^^ decide ((k + 1) % 2 = 1)) := by
  rcases Nat.mod_two_eq_zero_or_one k with hk | hk
  · have hk' : (k + 1) % 2 = 1 := by omega
    rw [hk, hk']
    cases b <;> rfl
  · have hk' : (k + 1) % 2 = 0 := by omega
    rw [hk, hk']
    cases b <;> rfl

/-- The polls at which the LED switches. -/
def flips (l : Led) : List ℕ → List ℕ
  | [] => []
  | p :: ps =>
    if (l.update p).isOn = l.isOn then (l.update p).flips ps else p :: (l.update p).flips ps

/-- The LED after some polls. -/
def updates (l : Led) (ps : List ℕ) : Led := ps.foldl update l

/-- **The LED plays the phases that are left, as the polls allow.** -/
theorem flips_eq_ends : ∀ (ps : List ℕ) {l : Led} {t : ℕ}, Steady l → Since l t →
    l.flips ps = ends l.left t ps ∧ (l.updates ps).left = l.left.drop (l.flips ps).length ∧
      (l.updates ps).isOn = (l.isOn ^^ decide ((l.flips ps).length % 2 = 1))
  | [], l, t, _, _ => by
    refine ⟨(ends_nil_right _ _).symm, rfl, ?_⟩
    show l.isOn = (l.isOn ^^ false)
    rw [Bool.xor_false]
  | p :: ps, l, t, h, ht => by
    -- the LED is at rest
    by_cases hr : l.remaining = 0
    · have hidle := update_idle (p := p) (.inl hr)
      obtain ⟨hf, hleft, hon⟩ := flips_eq_ends ps h ht
      rw [updates, List.foldl_cons, flips, hidle, if_pos rfl]
      refine ⟨?_, hleft, hon⟩
      rw [hf, left_of_rest hr, ends_nil_left, ends_nil_left]
    obtain ⟨d, ds, hd⟩ : ∃ d ds, l.left = d :: ds := by
      obtain ⟨n, hn⟩ := Nat.exists_eq_succ_of_ne_zero hr
      cases hphase : l.onPhase with
      | true => exact ⟨_, _, left_lit hn hphase⟩
      | false => exact ⟨_, _, left_dark hn hphase⟩
    have hnext : l.nextFlipMs = t + d := by
      rw [ht hr, hd]
      rfl
    -- the poll comes too early
    by_cases hp : p < l.nextFlipMs
    · have hidle := update_idle (.inr hp)
      obtain ⟨hf, hleft, hon⟩ := flips_eq_ends ps h ht
      rw [updates, List.foldl_cons, flips, hidle, if_pos rfl]
      refine ⟨?_, hleft, hon⟩
      rw [hf, hd, ends_early (by omega)]
    -- the phase is over, and the next one counts from this poll
    · obtain ⟨htail, hsince, hon'⟩ := switches hr (Nat.not_lt.1 hp) h
      obtain ⟨hf, hleft, hon⟩ := flips_eq_ends ps (h.update p) hsince
      have hne : (l.update p).isOn ≠ l.isOn := by
        rw [hon']
        cases l.isOn <;> decide
      rw [updates, List.foldl_cons, flips, if_neg hne]
      refine ⟨?_, ?_, ?_⟩
      · rw [hd, ends_due (by omega), hf, htail, hd]
        rfl
      · rw [List.length_cons]
        refine hleft.trans ?_
        rw [htail, List.drop_tail]
      · refine hon.trans ?_
        rw [hon', List.length_cons]
        exact not_xor_odd _ _

variable {g times onMs offMs q : ℕ}

/-- Arming a pattern leaves its phases. -/
theorem left_pulse (hi : l.initialized = true) (ht : times ≠ 0) (h : Steady l) :
    (l.pulse times onMs offMs t).left = pattern onMs offMs times ∧
      Since (l.pulse times onMs offMs t) t := by
  obtain ⟨n, rfl⟩ := Nat.exists_eq_succ_of_ne_zero ht
  rw [pulse_eq hi ht h.pin]
  exact ⟨rfl, fun _ => rfl⟩

theorem Steady.updates (h : Steady l) (ps : List ℕ) : Steady (l.updates ps) := by
  induction ps generalizing l with
  | nil => exact h
  | cons p ps ih => exact ih (h.update p)

/-- An LED that is at rest has played all that was left. -/
theorem length_flips_of_rest (h : Steady l) (ht : Since l t)
    (hrest : (l.updates ps).isBusy = false) : (l.flips ps).length = l.left.length := by
  obtain ⟨hf, hleft, -⟩ := flips_eq_ends ps h ht
  have hle : (l.flips ps).length ≤ l.left.length := by
    rw [hf]
    exact length_ends_le ps l.left t
  rw [left_of_rest (Nat.eq_zero_of_not_pos (of_decide_eq_false hrest))] at hleft
  exact Nat.le_antisymm hle (List.drop_eq_nil_iff.1 hleft.symm)

/-- An LED is at rest after a poll that is late enough. -/
theorem rest_of_late (h : Steady l) (ht : Since l t) (hq : q ≤ t + l.left.headD 0)
    (hps : Polled g q ps) (hp : p ∈ ps) (hlate : t + l.left.sum + g * l.left.length < p) :
    (l.updates ps).isBusy = false := by
  obtain ⟨hf, hleft, -⟩ := flips_eq_ends ps h ht
  have hlen : (l.flips ps).length = l.left.length := by
    rw [hf]
    exact length_ends ps l.left t q hq hps p hp hlate
  rw [hlen, List.drop_length] at hleft
  by_contra hbusy
  obtain ⟨n, hn⟩ := Nat.exists_eq_succ_of_ne_zero
    (Nat.ne_of_gt (of_decide_eq_true (Bool.not_eq_false _ ▸ hbusy)))
  cases hphase : (l.updates ps).onPhase with
  | true => rw [left_lit hn hphase] at hleft; cases hleft
  | false => rw [left_dark hn hphase] at hleft; cases hleft

/-- The pattern that was armed at `t` has been played: in time, in full, and the LED is dark. -/
structure Played (l : Led) (times onMs offMs g t : ℕ) (ps : List ℕ) : Prop where
  inTime : InTime g t (pattern onMs offMs times) ((l.pulse times onMs offMs t).flips ps)
  inFull : ((l.pulse times onMs offMs t).flips ps).length = 2 * times - 1
  dark : ((l.pulse times onMs offMs t).updates ps).pin = false

theorem inTime_pulse (h : Steady l) (hi : l.initialized = true) (ht : times ≠ 0)
    (hps : Polled g t ps) :
    InTime g t (pattern onMs offMs times) ((l.pulse times onMs offMs t).flips ps) := by
  obtain ⟨hleft, hsince⟩ : (l.pulse times onMs offMs t).left = pattern onMs offMs times ∧
      Since (l.pulse times onMs offMs t) t := left_pulse hi ht h
  rw [(flips_eq_ends ps (h.pulse ht onMs offMs t) hsince).1, hleft]
  exact inTime_ends ps _ t t (Nat.le_add_right _ _) hps

theorem played_of_rest (h : Steady l) (hi : l.initialized = true) (ht : times ≠ 0)
    (hps : Polled g t ps)
    (hrest : ((l.pulse times onMs offMs t).updates ps).isBusy = false) :
    Played l times onMs offMs g t ps := by
  obtain ⟨hleft, hsince⟩ : (l.pulse times onMs offMs t).left = pattern onMs offMs times ∧
      Since (l.pulse times onMs offMs t) t := left_pulse hi ht h
  have hsteady := h.pulse ht onMs offMs t
  refine ⟨inTime_pulse h hi ht hps, ?_, ?_⟩
  · rw [length_flips_of_rest hsteady hsince hrest, hleft, length_pattern]
  · rw [(hsteady.updates ps).pin]
    exact (hsteady.updates ps).rest (Nat.eq_zero_of_not_pos (of_decide_eq_false hrest))

/-- A pattern is over after a poll that is late enough. -/
theorem rest_of_pulse (h : Steady l) (hi : l.initialized = true) (ht : times ≠ 0)
    (hps : Polled g t ps) (hp : p ∈ ps)
    (hlate : t + (times * onMs + (times - 1) * offMs) + g * (2 * times - 1) < p) :
    ((l.pulse times onMs offMs t).updates ps).isBusy = false := by
  obtain ⟨hleft, hsince⟩ : (l.pulse times onMs offMs t).left = pattern onMs offMs times ∧
      Since (l.pulse times onMs offMs t) t := left_pulse hi ht h
  rw [← sum_pattern, ← length_pattern onMs offMs times, ← hleft] at hlate
  exact rest_of_late (h.pulse ht onMs offMs t) hsince (Nat.le_add_right _ _) hps hp hlate

/-- **A pattern is played in time and in full, and leaves the LED dark.**  Whatever the LED played
before, it is lit at once; each phase lasts at least as long as it should, and at most as much
longer as two polls are apart; the pin changes with the phases; and after the first poll that is
late enough, the pattern has been played, and the LED is at rest. -/
theorem pulse_run (h : Steady l) (hi : l.initialized = true) (ht : times ≠ 0)
    (hps : Polled g t ps) :
    (l.pulse times onMs offMs t).pin = true ∧
    InTime g t (pattern onMs offMs times) ((l.pulse times onMs offMs t).flips ps) ∧
    ((l.pulse times onMs offMs t).updates ps).pin =
      decide (((l.pulse times onMs offMs t).flips ps).length % 2 = 0) ∧
    ∀ p ∈ ps, t + (times * onMs + (times - 1) * offMs) + g * (2 * times - 1) < p →
      Played l times onMs offMs g t ps ∧
      ((l.pulse times onMs offMs t).updates ps).isBusy = false := by
  have hsteady := h.pulse ht onMs offMs t
  have hpin : (l.pulse times onMs offMs t).isOn = true := by rw [pulse_eq hi ht h.pin]
  refine ⟨hsteady.pin.trans hpin, inTime_pulse h hi ht hps, ?_, fun p hp hlate => ?_⟩
  · obtain ⟨-, -, hon⟩ := flips_eq_ends ps hsteady (left_pulse hi ht h).2
    rw [(hsteady.updates ps).pin, hon, hpin]
    generalize ((l.pulse times onMs offMs t).flips ps).length = k
    rcases Nat.mod_two_eq_zero_or_one k with hk | hk <;> rw [hk] <;> rfl
  · have hrest := rest_of_pulse h hi ht hps hp hlate
    exact ⟨played_of_rest h hi ht hps hrest, hrest⟩

/-- Three flashes of 100 ms, polled every 70 ms: the phases end at the polls at 140, 280, 420, 560
and 700, and the LED stays dark. -/
theorem pulse_run_three_flashes :
    (({ initialized := true } : Led).pulse 3 100 100 0).flips
        [70, 140, 210, 280, 350, 420, 490, 560, 630, 700, 770, 840, 910] =
      [140, 280, 420, 560, 700] ∧
    Played { initialized := true } 3 100 100 70 0
      [70, 140, 210, 280, 350, 420, 490, 560, 630, 700, 770, 840, 910] := by
  have hsteady : Steady { initialized := true } := ⟨rfl, fun h => absurd rfl h, fun _ => rfl⟩
  have hps : Polled 70 0 [70, 140, 210, 280, 350, 420, 490, 560, 630, 700, 770, 840, 910] := by
    simp [Polled]
  obtain ⟨-, -, -, hend⟩ := pulse_run hsteady rfl (by decide : 3 ≠ 0) hps
  exact ⟨by decide, (hend 910 (by simp) (by decide)).1⟩

end Led

/-! ### The error LED -/

namespace ErrorCore

/-- How long a blink of the error LED is lit, and how long it is dark before the next one. -/
def blinkMs : ℕ := 200

theorem blinks_ne_zero (t : ErrorType) : blinks t ≠ 0 := by
  cases t <;> exact Nat.succ_ne_zero _

/-- **What an error report arms on the error LED is played in time and in full.**  The error core
keeps of an LED whether it is initialized, and how often it was told to blink; an LED that is
initialized and told so blinks as often, and one that is not does nothing. -/
theorem blinkPattern_plays {s : State} {e : ErrorCore.Led} {l : LatticeMesh.Led} {g now : ℕ}
    {ps : List ℕ} (t : ErrorType) (hs : s.errorLed = some e) (he : e.initialized = l.initialized)
    (hl : l.Steady) (hps : Polled g now ps) :
    ∃ e', blinkPattern t s = .ok () { s with errorLed := some e' } ∧
      e'.initialized = (l.pulse (blinks t) blinkMs blinkMs now).initialized ∧
      (l.initialized = true → e'.pulses = some (blinks t) ∧ ∀ p ∈ ps,
        now + (blinks t * blinkMs + (blinks t - 1) * blinkMs) + g * (2 * blinks t - 1) < p →
          Led.Played l (blinks t) blinkMs blinkMs g now ps) ∧
      (l.initialized = false → e' = e ∧ l.pulse (blinks t) blinkMs blinkMs now = l) := by
  have hblink : blinkPattern t s = .ok () { s with
      errorLed := some (if e.initialized then { e with pulses := some (blinks t) } else e) } := by
    show EStateM.Result.ok () { s with errorLed := s.errorLed.map _ } = _
    rw [hs]
    rfl
  refine ⟨_, hblink, ?_, fun hi => ?_, fun hi => ?_⟩
  · cases hi : l.initialized with
    | true =>
      rw [he, hi, if_pos rfl, Led.pulse_eq hi (blinks_ne_zero t) hl.pin]
      exact hi.symm
    | false =>
      rw [he, hi, if_neg (by simp), Led.pulse, if_pos (by simp [hi])]
      exact he
  · rw [he, if_pos hi]
    exact ⟨rfl, fun p hp hlate => Led.played_of_rest hl hi (blinks_ne_zero t) hps
      (Led.rest_of_pulse hl hi (blinks_ne_zero t) hps hp hlate)⟩
  · rw [he, if_neg (by simp [hi]), Led.pulse, if_pos (by simp [hi])]
    exact ⟨rfl, rfl⟩

end ErrorCore

/-! ### Waiting for a pattern -/

namespace ButtonHandler

open Led

/-- Poll one or two LEDs until neither plays a pattern.  The `k`-th reading of the clock is
`clock k`, and the loop runs at most `fuel` times; the last reading comes with the LEDs. -/
def pumpLedsUntilIdle (clock : ℕ → ℕ) : ℕ → ℕ → Led → Option Led → Option (Led × Option Led × ℕ)
  | 0, _, _, _ => none
  | fuel + 1, k, a, b =>
    let now := clock k
    let a := a.update now
    let b := b.map (·.update now)
    if !a.isBusy && !b.any isBusy then some (a, b, k) else pumpLedsUntilIdle clock fuel (k + 1) a b

variable {clock : ℕ → ℕ} {g t t' times onMs offMs p k fuel : ℕ} {ps : List ℕ} {a : Led}
  {b : Option Led}

/-- After the polls, none of the LEDs plays a pattern. -/
def AllRest (ps : List ℕ) (a : Led) (b : Option Led) : Prop :=
  (a.updates ps).isBusy = false ∧ ∀ l ∈ b, (l.updates ps).isBusy = false

theorem allRest_cons :
    AllRest (p :: ps) a b ↔ AllRest ps (a.update p) (b.map (·.update p)) := by
  refine and_congr_right fun _ => ?_
  refine ⟨fun h l hl => ?_, fun h l hl => h (l.update p) (Option.mem_map_of_mem _ hl)⟩
  obtain ⟨l₀, hl₀, rfl⟩ := Option.mem_map.1 hl
  exact h l₀ hl₀

theorem allRest_iff :
    AllRest [p] a b ↔ (!(a.update p).isBusy && !(b.map (·.update p)).any isBusy) = true := by
  cases b with
  | none => simp [AllRest, updates]
  | some b => simp [AllRest, updates]

/-- The loop polls until both LEDs are at rest, and ends then. -/
theorem pump_of_rest (n : ℕ) : ∀ {k : ℕ} {a : Led} {b : Option Led},
    AllRest ((List.range' k (n + 1)).map clock) a b →
    ∃ j ≤ n, pumpLedsUntilIdle clock (n + 1) k a b =
        some (a.updates ((List.range' k (j + 1)).map clock),
          b.map (·.updates ((List.range' k (j + 1)).map clock)), k + j) ∧
      AllRest ((List.range' k (j + 1)).map clock) a b := by
  induction n with
  | zero => exact fun hrest => ⟨0, Nat.le_refl 0, if_pos (allRest_iff.1 hrest), hrest⟩
  | succ n ih =>
    intro k a b hrest
    by_cases hidle : AllRest [clock k] a b
    · exact ⟨0, Nat.zero_le _, if_pos (allRest_iff.1 hidle), hidle⟩
    obtain ⟨j, hj, hpump, hend⟩ := ih (allRest_cons.1 hrest)
    refine ⟨j + 1, Nat.succ_le_succ hj, (if_neg (mt allRest_iff.2 hidle)).trans ?_,
      allRest_cons.2 hend⟩
    rw [hpump, Option.map_map, Nat.add_assoc, Nat.add_comm 1 j]
    rfl

/-- **The loop before a restart ends, and in time, when the LEDs have played their patterns.**  The
LEDs are initialized, the first one is armed at `t`, the second one at `t'`, and nobody arms a
pattern after that.  The loop begins at most `g` after `t`, and the clock that it reads never goes
back, never leaps by more than `g`, and does not stand still. -/
theorem pump_ends (hclock : Running g clock) (ht : t ≤ t') (h₀ : t' ≤ clock 0)
    (h₀' : clock 0 ≤ t + g) (htimes : times ≠ 0)
    (ha : Led.Steady a ∧ a.initialized = true) (hb : ∀ l ∈ b, Led.Steady l ∧ l.initialized = true) :
    ∃ fuel n, pumpLedsUntilIdle clock fuel 0 (a.pulse times onMs offMs t)
        (b.map (·.pulse times onMs offMs t')) =
      some ((a.pulse times onMs offMs t).updates ((List.range' 0 (n + 1)).map clock),
        (b.map (·.pulse times onMs offMs t')).map
          (·.updates ((List.range' 0 (n + 1)).map clock)), n) ∧
      clock n ≤ t' + (times * onMs + (times - 1) * offMs) + g * (2 * times) ∧
      Played a times onMs offMs g t ((List.range' 0 (n + 1)).map clock) ∧
      ∀ l ∈ b, Played l times onMs offMs g t' ((List.range' 0 (n + 1)).map clock) := by
  have hpolled := hclock.polled_from (Nat.le_trans ht h₀) h₀'
  have hpolled' := hclock.polled_from h₀ (Nat.le_trans h₀' (Nat.add_le_add_right ht g))
  -- By the reading that is late enough for both patterns, both LEDs are at rest.
  obtain ⟨m, hlate, hm⟩ := hclock.exists_next
    (t := t' + (times * onMs + (times - 1) * offMs) + g * (2 * times - 1)) (by omega)
  have hmem : clock m ∈ (List.range' 0 (m + 1)).map clock :=
    List.mem_map_of_mem (List.mem_range'_1.2 (by omega))
  have hrest : AllRest ((List.range' 0 (m + 1)).map clock) (a.pulse times onMs offMs t)
      (b.map (·.pulse times onMs offMs t')) := by
    refine ⟨rest_of_pulse ha.1 ha.2 htimes (hpolled m) hmem (by omega), fun l hl => ?_⟩
    obtain ⟨l₀, hl₀, rfl⟩ := Option.mem_map.1 hl
    exact rest_of_pulse (hb l₀ hl₀).1 (hb l₀ hl₀).2 htimes (hpolled' m) hmem hlate
  obtain ⟨n, hn, hpump, hend, hend'⟩ := pump_of_rest m hrest
  rw [Nat.zero_add] at hpump
  refine ⟨m + 1, n, hpump, ?_, played_of_rest ha.1 ha.2 htimes (hpolled n) hend, fun l hl => ?_⟩
  · have hmono : clock n ≤ clock m := hclock.monotone hn
    have hgap : g * (2 * times - 1) + g = g * (2 * times) := by
      rw [← Nat.mul_succ]
      congr 1
      omega
    omega
  · exact played_of_rest (hb l hl).1 (hb l hl).2 htimes (hpolled' n)
      (hend' _ (Option.mem_map_of_mem _ hl))

/-- Before a wipe both LEDs flash five times.  With a poll every 5 ms the loop ends in 951 ms. -/
theorem pump_ends_before_wipe : ∃ fuel a b n,
    pumpLedsUntilIdle (fun k => 1 + 5 * k) fuel 0
      (({ initialized := true } : Led).pulse 5 100 100 0)
      (some (({ initialized := true } : Led).pulse 5 100 100 1)) = some (a, some b, n) ∧
    a.pin = false ∧ b.pin = false ∧ 1 + 5 * n ≤ 951 := by
  have hsteady : Led.Steady { initialized := true } := ⟨rfl, fun h => absurd rfl h, fun _ => rfl⟩
  have hclock : Running 5 fun k => 1 + 5 * k :=
    ⟨fun k => by omega, fun k => by omega, fun t => ⟨t, by omega⟩⟩
  obtain ⟨fuel, n, hpump, hn, ha, hb⟩ := pump_ends hclock (Nat.zero_le 1) (Nat.le_refl 1)
    (by decide) (by decide : 5 ≠ 0) ⟨hsteady, rfl⟩ (b := some { initialized := true })
    (fun l hl => by obtain rfl := Option.some.inj hl; exact ⟨hsteady, rfl⟩)
  exact ⟨fuel, _, _, n, hpump, ha.dark, (hb _ rfl).dark, hn⟩

end ButtonHandler

end LatticeMesh
