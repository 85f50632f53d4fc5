import LatticeMesh.ErrorCore
import LatticeMesh.Lib.PolledTimer

/-!
# The display

The seven-segment display shows who the node is: its number and, by the decimal point, its role.  A
node that is not enrolled blinks dashes instead.  `tick`, which the main loop calls again and again,
writes to the display only when its own frame changes, although error reports write to it as well.

## Main definitions

* `DisplayManager.tick` — one tick, with what it writes to the display.
* `DisplayManager.Panel`, `DisplayManager.run` — the display over a run of ticks and error reports.
* `DisplayManager.Stale` — an error code that no change of the frame has replaced.
* `DisplayManager.Reading` — what a display can say.

## Main results

* `SevenSegDisplay.padded_iff` — a number is shown as it is written if and only if it has no zero
  inside.
* `SevenSegDisplay.legible_iff` — **in the range that the display promises, exactly the numbers that
  are not negative can be told by what is shown.**
* `DisplayManager.shown_of_run` — **a tick that writes only changes shows what one that always
  writes would show, except that an error code stays until the frame changes.**
* `DisplayManager.reads_uniquely` — **whatever happens, the display says one thing.**
* `DisplayManager.blink_run` — **a node that is not enrolled blinks in time.**
-/

namespace LatticeMesh

open PolledTimer

/-! ### Numbers on the display -/

namespace SevenSegDisplay

/-- The segments of a digit; where zeros are blanked, a zero has none. -/
def glyph (blanked : Bool) (d : ℤ) : UInt8 := if blanked && d = 0 then 0 else encodeDigit d

/-- The segments of the last digit, with the decimal point. -/
def lastGlyph (withDP : Bool) (d : ℤ) : UInt8 :=
  if withDP then encodeDigit d ||| 0x80 else encodeDigit d

variable {n v w : ℕ} {value : ℤ} {leadingZeros withDP withDP' blanked : Bool} {d d' : ℕ}
  {a b c e : ℤ}

theorem segments_of_digits (h : (if value < 0 then withMinus (digits (min value.natAbs 9999))
      else digits (min value.natAbs 9999)) = [a, b, c, e]) :
    segments value leadingZeros withDP =
      [glyph (!leadingZeros && !decide (value < 0)) a,
        glyph (!leadingZeros && !decide (value < 0)) b,
        glyph (!leadingZeros && !decide (value < 0)) c, lastGlyph withDP e] := by
  simp only [segments, h]
  cases leadingZeros <;> cases decide (value < 0) <;> cases withDP <;> simp [glyph, lastGlyph]

theorem segments_nat (hv : v ≤ 9999) : segments v leadingZeros withDP =
    [glyph (!leadingZeros) (v / 1000 % 10 : ℕ), glyph (!leadingZeros) (v / 100 % 10 : ℕ),
      glyph (!leadingZeros) (v / 10 % 10 : ℕ), lastGlyph withDP (v % 10 : ℕ)] := by
  have hneg : ¬(v : ℤ) < 0 := by omega
  have hmin : min (v : ℤ).natAbs 9999 = v := by rw [Int.natAbs_natCast, Nat.min_eq_left hv]
  rw [segments_of_digits ((if_neg hneg).trans (congrArg digits hmin)), decide_eq_false hneg,
    Bool.not_false, Bool.and_true]

theorem glyph_inj (hd : d < 10) (hd' : d' < 10) (h : glyph blanked d = glyph blanked d') :
    d = d' := by
  have hall : ∀ b : Bool, ∀ i j : Fin 10, glyph b i.val = glyph b j.val → i = j := by decide
  exact congrArg Fin.val (hall blanked ⟨d, hd⟩ ⟨d', hd'⟩ h)

theorem lastGlyph_inj (hd : d < 10) (hd' : d' < 10)
    (h : lastGlyph withDP d = lastGlyph withDP' d') : d = d' ∧ withDP = withDP' := by
  have hall : ∀ b b' : Bool, ∀ i j : Fin 10,
    lastGlyph b i.val = lastGlyph b' j.val → i = j ∧ b = b' := by decide
  exact (hall withDP withDP' ⟨d, hd⟩ ⟨d', hd'⟩ h).imp_left (congrArg Fin.val)

/-- What is shown tells a number that is not negative, and the decimal point. -/
theorem segments_nat_inj (hv : v ≤ 9999) (hw : w ≤ 9999)
    (h : segments v leadingZeros withDP = segments w leadingZeros withDP') :
    v = w ∧ withDP = withDP' := by
  rw [segments_nat hv, segments_nat hw] at h
  obtain ⟨h₀, h⟩ := List.cons.inj h
  obtain ⟨h₁, h⟩ := List.cons.inj h
  obtain ⟨h₂, h⟩ := List.cons.inj h
  obtain ⟨h₃, hdp⟩ := lastGlyph_inj (Nat.mod_lt _ (by decide)) (Nat.mod_lt _ (by decide))
    (List.cons.inj h).1
  have h₀' := glyph_inj (Nat.mod_lt _ (by decide)) (Nat.mod_lt _ (by decide)) h₀
  have h₁' := glyph_inj (Nat.mod_lt _ (by decide)) (Nat.mod_lt _ (by decide)) h₁
  have h₂' := glyph_inj (Nat.mod_lt _ (by decide)) (Nat.mod_lt _ (by decide)) h₂
  exact ⟨by omega, hdp⟩

theorem withMinus_zero {ds : List ℤ} : withMinus (0 :: e :: ds) = 0 :: withMinus (e :: ds) :=
  if_neg (by simp)

theorem withMinus_ne_zero {ds : List ℤ} (h : a ≠ 0) :
    withMinus (a :: e :: ds) = -1 :: e :: ds := if_pos h

/-- A number on the right of the display, with the digits before it dark. -/
def padded (v : ℕ) (withDP : Bool) : List UInt8 :=
  [if v < 1000 then 0 else encodeDigit (v / 1000 % 10 : ℕ),
    if v < 100 then 0 else encodeDigit (v / 100 % 10 : ℕ),
    if v < 10 then 0 else encodeDigit (v / 10 % 10 : ℕ), lastGlyph withDP (v % 10 : ℕ)]

theorem glyph_true (d : ℕ) : glyph true d = if d = 0 then 0 else encodeDigit d := by
  unfold glyph
  rw [Bool.true_and]
  simp only [decide_eq_true_eq, Int.natCast_eq_zero]

/-- A digit is not dark. -/
theorem encodeDigit_ne_zero (hd : d < 10) : encodeDigit d ≠ 0 := by
  have hall : ∀ i : Fin 10, encodeDigit i.val ≠ 0 := by decide
  exact hall ⟨d, hd⟩

/-- A digit is shown as it should be, unless it is a zero that is not dark. -/
theorem glyph_eq_iff {k : ℕ} (hd : d < 10) (h : v < k → d = 0) :
    glyph true d = (if v < k then 0 else encodeDigit d) ↔ (k ≤ v → d ≠ 0) := by
  rw [glyph_true]
  by_cases hk : v < k
  · rw [if_pos hk, if_pos (h hk)]
    exact ⟨fun _ hle => absurd hk (Nat.not_lt.2 hle), fun _ => rfl⟩
  · rw [if_neg hk]
    by_cases h0 : d = 0
    · rw [if_pos h0]
      exact ⟨fun he => absurd he.symm (encodeDigit_ne_zero hd),
        fun hne => absurd h0 (hne (Nat.not_lt.1 hk))⟩
    · rw [if_neg h0]
      exact ⟨fun _ _ => h0, fun _ => rfl⟩

/-- **Without leading zeros a number is shown as it is written if and only if it has no zero
inside.**  A zero inside is dark as well. -/
theorem padded_iff (hv : v ≤ 9999) : segments v false withDP = padded v withDP ↔
    (100 ≤ v → v / 10 % 10 ≠ 0) ∧ (1000 ≤ v → v / 100 % 10 ≠ 0) := by
  have hthousands : glyph true (v / 1000 % 10 : ℕ) =
      if v < 1000 then 0 else encodeDigit (v / 1000 % 10 : ℕ) :=
    (glyph_eq_iff (Nat.mod_lt _ (by decide)) (by omega)).2 (by omega)
  have hhundreds : glyph true (v / 100 % 10 : ℕ) =
      (if v < 100 then 0 else encodeDigit (v / 100 % 10 : ℕ)) ↔ (100 ≤ v → v / 100 % 10 ≠ 0) :=
    glyph_eq_iff (Nat.mod_lt _ (by decide)) (by omega)
  have htens : glyph true (v / 10 % 10 : ℕ) =
      (if v < 10 then 0 else encodeDigit (v / 10 % 10 : ℕ)) ↔ (10 ≤ v → v / 10 % 10 ≠ 0) :=
    glyph_eq_iff (Nat.mod_lt _ (by decide)) (by omega)
  rw [segments_nat hv, Bool.not_false, padded, hthousands, List.cons.injEq, List.cons.injEq,
    List.cons.injEq, hhundreds, htens]
  constructor
  · rintro ⟨-, hh, ht, -⟩
    exact ⟨fun h => ht (by omega), fun h => hh (by omega)⟩
  · rintro ⟨ht, hh⟩
    exact ⟨rfl, by omega, by omega, rfl⟩

/-- The node with the number 105 shows a gap between its digits. -/
theorem padded_iff_gap : segments 105 false false = [0, 0x06, 0, 0x6D] ∧
    segments 105 false false ≠ padded 105 false :=
  ⟨by decide, fun h => (padded_iff (by decide)).1 h |>.1 (by decide) (by decide)⟩

/-- The digits of a negative number in the promised range: the sign stands in the place of the first
one that is not zero. -/
theorem withMinus_digits (hn : n ≤ 999) : withMinus (digits n) =
    if n / 100 ≠ 0 then ([0, -1, (n / 10 % 10 : ℕ), (n % 10 : ℕ)] : List ℤ)
    else if n / 10 ≠ 0 then [0, 0, -1, (n % 10 : ℕ)] else [0, 0, 0, -1] := by
  have h1000 : n / 1000 % 10 = 0 := by omega
  have h100 : n / 100 % 10 = n / 100 := by omega
  have hdigits : digits n = ([0, (n / 100 : ℕ), (n / 10 % 10 : ℕ), (n % 10 : ℕ)] : List ℤ) := by
    rw [digits, h1000, h100]
    rfl
  rw [hdigits, withMinus_zero]
  by_cases hhun : n / 100 = 0
  · have h10 : n / 10 % 10 = n / 10 := by omega
    rw [if_neg (not_not.2 hhun), hhun, h10, Int.ofNat_zero, withMinus_zero]
    by_cases hten : n / 10 = 0
    · rw [if_neg (not_not.2 hten), hten, Int.ofNat_zero, withMinus_zero]
      rfl
    · rw [if_pos hten, withMinus_ne_zero (Int.natCast_ne_zero.2 hten)]
  · rw [if_pos hhun, withMinus_ne_zero (Int.natCast_ne_zero.2 hhun)]

theorem segments_neg (h0 : 0 < n) (hn : n ≤ 999) : segments (-n) leadingZeros withDP =
    if n / 100 ≠ 0 then [glyph false 0, glyph false (-1), glyph false (n / 10 % 10 : ℕ),
      lastGlyph withDP (n % 10 : ℕ)]
    else if n / 10 ≠ 0 then
      [glyph false 0, glyph false 0, glyph false (-1), lastGlyph withDP (n % 10 : ℕ)]
    else [glyph false 0, glyph false 0, glyph false 0, lastGlyph withDP (-1)] := by
  have hneg : (-n : ℤ) < 0 := by omega
  have hmin : min (-n : ℤ).natAbs 9999 = n := by
    rw [Int.natAbs_neg, Int.natAbs_natCast, Nat.min_eq_left (by omega)]
  have hdigits : (if (-n : ℤ) < 0 then withMinus (digits (min (-n : ℤ).natAbs 9999))
      else digits (min (-n : ℤ).natAbs 9999)) = withMinus (digits n) := by
    rw [if_pos hneg, hmin]
  rw [withMinus_digits hn] at hdigits
  have hblank : (!leadingZeros && !decide ((-n : ℤ) < 0)) = false := by
    rw [decide_eq_true hneg, Bool.not_true, Bool.and_false]
  by_cases hhun : n / 100 = 0
  · by_cases hten : n / 10 = 0
    · rw [if_neg (not_not.2 hhun), if_neg (not_not.2 hten)] at hdigits ⊢
      rw [segments_of_digits hdigits, hblank]
    · rw [if_neg (not_not.2 hhun), if_pos hten] at hdigits ⊢
      rw [segments_of_digits hdigits, hblank]
  · rw [if_pos hhun] at hdigits ⊢
    rw [segments_of_digits hdigits, hblank]

/-- No digit looks like the sign. -/
theorem glyph_ne_minus (hd : d < 10) : glyph blanked d ≠ glyph false (-1) := by
  have hall : ∀ b : Bool, ∀ i : Fin 10, glyph b i.val ≠ glyph false (-1) := by decide
  exact hall blanked ⟨d, hd⟩

theorem lastGlyph_ne_minus (hd : d < 10) : lastGlyph withDP d ≠ lastGlyph withDP (-1) := by
  have hall : ∀ b : Bool, ∀ i : Fin 10, lastGlyph b i.val ≠ lastGlyph b (-1) := by decide
  exact hall withDP ⟨d, hd⟩

/-- A negative number looks like no number that is not. -/
theorem segments_neg_ne (h0 : 0 < n) (hn : n ≤ 999) (hv : v ≤ 9999) :
    segments (-n) leadingZeros withDP ≠ segments v leadingZeros withDP := by
  rw [segments_neg h0 hn, segments_nat hv]
  intro h
  split at h
  · exact glyph_ne_minus (Nat.mod_lt _ (by decide)) (List.cons.inj (List.cons.inj h).2).1.symm
  · split at h
    · exact glyph_ne_minus (Nat.mod_lt _ (by decide))
        (List.cons.inj (List.cons.inj (List.cons.inj h).2).2).1.symm
    · exact lastGlyph_ne_minus (Nat.mod_lt _ (by decide))
        (List.cons.inj (List.cons.inj (List.cons.inj (List.cons.inj h).2).2).2).1.symm

/-- Another negative number that looks the same: the sign has replaced the digit in which the two
differ. -/
theorem exists_lookalike (h0 : 0 < n) (hn : n ≤ 999) : ∃ m, 0 < m ∧ m ≤ 999 ∧ m ≠ n ∧
    segments (-m : ℤ) leadingZeros withDP = segments (-n : ℤ) leadingZeros withDP := by
  by_cases hhun : n / 100 = 0
  · by_cases hten : n / 10 = 0
    · obtain ⟨m, hm⟩ : ∃ m, m = if n = 1 then 2 else 1 := ⟨_, rfl⟩
      have hm' : 0 < m ∧ m < 10 ∧ m ≠ n := by split at hm <;> omega
      refine ⟨m, hm'.1, by omega, hm'.2.2, ?_⟩
      rw [segments_neg (n := m) hm'.1 (by omega), segments_neg h0 hn, if_neg (by omega),
        if_neg (by omega), if_neg (by omega), if_neg (by omega)]
    · obtain ⟨m, hm⟩ : ∃ m, m = (if n / 10 = 1 then 20 else 10) + n % 10 := ⟨_, rfl⟩
      have hm' : 10 ≤ m ∧ m < 100 ∧ m ≠ n ∧ m % 10 = n % 10 := by split at hm <;> omega
      refine ⟨m, by omega, by omega, hm'.2.2.1, ?_⟩
      rw [segments_neg (n := m) (by omega) (by omega), segments_neg h0 hn, if_neg (by omega),
        if_pos (by omega), if_neg (by omega), if_pos hten, hm'.2.2.2]
  · obtain ⟨m, hm⟩ : ∃ m, m = (if n / 100 = 1 then 200 else 100) + n % 100 := ⟨_, rfl⟩
    have hm' : 100 ≤ m ∧ m ≤ 999 ∧ m ≠ n ∧ m % 10 = n % 10 ∧ m / 10 % 10 = n / 10 % 10 := by
      split at hm <;> omega
    refine ⟨m, by omega, hm'.2.1, hm'.2.2.1, ?_⟩
    rw [segments_neg (n := m) (by omega) hm'.2.1, segments_neg h0 hn, if_pos (by omega),
      if_pos hhun, hm'.2.2.2.1, hm'.2.2.2.2]

/-- **In the range that the display promises, exactly the numbers that are not negative can be told
by what is shown.** -/
theorem legible_iff (hlo : -999 ≤ value) (hhi : value ≤ 9999) :
    (∀ other : ℤ, -999 ≤ other → other ≤ 9999 →
      segments other leadingZeros withDP = segments value leadingZeros withDP → other = value) ↔
    0 ≤ value := by
  constructor
  · intro h
    by_contra hneg
    obtain ⟨n, rfl⟩ : ∃ n : ℕ, value = -n := ⟨value.natAbs, by omega⟩
    obtain ⟨m, hm0, hm, hne, heq⟩ := exists_lookalike (by omega : 0 < n) (by omega)
    have := h (-m) (by omega) (by omega) heq
    omega
  · intro h other holo hohi heq
    obtain ⟨v, rfl⟩ := Int.eq_ofNat_of_zero_le h
    by_cases hother : 0 ≤ other
    · obtain ⟨w, rfl⟩ := Int.eq_ofNat_of_zero_le hother
      exact congrArg Nat.cast (segments_nat_inj (by omega) (by omega) heq).1
    · have hneg : other = -(other.natAbs : ℤ) := by omega
      rw [hneg] at heq
      exact absurd heq (segments_neg_ne (by omega) (by omega) (by omega))

/-- The sign replaces a digit, so that two numbers look the same. -/
theorem legible_iff_minus_twelve : segments (-22) true false = segments (-12) true false ∧
    ¬∀ other : ℤ, -999 ≤ other → other ≤ 9999 →
      segments other true false = segments (-12) true false → other = -12 :=
  ⟨by decide, fun h => absurd ((legible_iff (by decide) (by decide)).1 h) (by decide)⟩

end SevenSegDisplay

/-! ### One tick -/

namespace DisplayManager

open SevenSegDisplay

/-- What becomes of the decimal point of the last digit. -/
inductive Dp
  | off
  | solid
  | blink
  deriving DecidableEq

/-- Half a period of blinking, in milliseconds. -/
def blinkHalfPeriodMs : UInt64 := 500

/-- The decimal point says what the role is: off for a leaf, and blinking for a master that is not
the one that the firmware names. -/
def dpFor (isMaster isPrimaryMaster : Bool) : Dp :=
  if !isMaster then .off else if isPrimaryMaster then .solid else .blink

/-- Whether the decimal point is lit.  The clock says so, so that the blinking needs no state. -/
def dpLit (dp : Dp) (nowMs : UInt64) : Bool :=
  match dp with
  | .solid => true
  | .blink => nowMs / blinkHalfPeriodMs &&& 1 = 0
  | .off => false

/-- What the main loop tells the display of the node. -/
structure View where
  enrolled : Bool
  isMaster : Bool
  isPrimaryMaster : Bool
  nodeId : UInt8
  deriving DecidableEq

/-- What a tick remembers: the blinking of the dashes, and the frame that was drawn last. -/
structure State where
  lastToggleMs : UInt64 := 0
  dashVisible : Bool := false
  lastValue : ℤ := -1
  lastDpLit : Bool := false
  wasEnrolled : Bool := false
  deriving DecidableEq

def dashes : List UInt8 := [0x40, 0x40, 0x40, 0x40]

/-- The display after `clear`. -/
def blank : List UInt8 := [0, 0, 0, 0]

/-- One tick, with the segments that it writes to the display, if it writes any. -/
def tick (s : State) (v : View) (nowMs : UInt64) : State × Option (List UInt8) :=
  if !v.enrolled then
    let s := { s with wasEnrolled := false }
    if nowMs - s.lastToggleMs ≥ blinkHalfPeriodMs then
      let s := { s with lastToggleMs := nowMs, dashVisible := !s.dashVisible }
      (s, some (if s.dashVisible then dashes else blank))
    else (s, none)
  else
    let value : ℤ := v.nodeId.toNat
    let lit := dpLit (dpFor v.isMaster v.isPrimaryMaster) nowMs
    let changed := !s.wasEnrolled || value ≠ s.lastValue || lit ≠ s.lastDpLit
    if !changed then (s, none)
    else
      ({ s with lastValue := value, lastDpLit := lit, wasEnrolled := true },
        some (if lit then segments value false true else segments value false false))

/-! ### Runs -/

/-- The frame of an enrolled node. -/
structure Frame where
  value : UInt8
  lit : Bool
  deriving DecidableEq

/-- The segments of a frame. -/
def Frame.segs (f : Frame) : List UInt8 := segments f.value.toNat false f.lit

/-- The frame of a node at a time. -/
def frame (v : View) (nowMs : UInt64) : Frame :=
  ⟨v.nodeId, dpLit (dpFor v.isMaster v.isPrimaryMaster) nowMs⟩

/-- The code of an error, as it is shown. -/
def codeSegs (t : ErrorTypeDigit) (m : ModuleDigit) (sub : ℕ) : List UInt8 :=
  segments (makeErrorCode t m sub) true false

/-- What writes to the display: a tick, or a report that does not restart the device. -/
inductive Event
  | tick (v : View) (nowMs : UInt64)
  | error (t : ErrorTypeDigit) (m : ModuleDigit) (sub : ℕ)

/-- The display, and what the ticks remember.  It starts blank, after its self-test. -/
structure Panel where
  state : State := {}
  shown : List UInt8 := blank
  deriving DecidableEq

def Panel.step (p : Panel) : Event → Panel
  | .tick v nowMs =>
    let r := DisplayManager.tick p.state v nowMs
    { state := r.1, shown := r.2.getD p.shown }
  | .error t m sub => { p with shown := codeSegs t m sub }

/-- The display after a run. -/
def run (es : List Event) : Panel := es.foldl Panel.step {}

theorem run_append_singleton (es : List Event) (e : Event) :
    run (es ++ [e]) = (run es).step e := List.foldl_concat _ _ _ _

variable {s : State} {v : View} {nowMs : UInt64} {f : Frame} {e : Event} {es : List Event}
  {t : ErrorTypeDigit} {m : ModuleDigit} {sub : ℕ}

/-- The frame `f` was drawn last, and the node has been enrolled since. -/
structure State.Stands (s : State) (f : Frame) : Prop where
  enrolled : s.wasEnrolled = true
  value : s.lastValue = f.value.toNat
  lit : s.lastDpLit = f.lit

/-- A tick does nothing while its frame stands. -/
theorem tick_stands (hv : v.enrolled = true) (h : s.Stands (frame v nowMs)) :
    tick s v nowMs = (s, none) := by
  obtain ⟨he, hval, hlit⟩ := h
  have hval' : s.lastValue = v.nodeId.toNat := hval
  have hlit' : s.lastDpLit = dpLit (dpFor v.isMaster v.isPrimaryMaster) nowMs := hlit
  simp [tick, hv, he, hval', hlit']

/-- A tick draws its frame if it does not stand. -/
theorem tick_draws (hv : v.enrolled = true) (h : ¬s.Stands (frame v nowMs)) :
    tick s v nowMs = ({ s with
        lastValue := v.nodeId.toNat, lastDpLit := (frame v nowMs).lit, wasEnrolled := true },
      some (frame v nowMs).segs) := by
  have hchanged : (!s.wasEnrolled || decide ((v.nodeId.toNat : ℤ) ≠ s.lastValue) ||
      decide (dpLit (dpFor v.isMaster v.isPrimaryMaster) nowMs ≠ s.lastDpLit)) = true := by
    by_contra hsame
    simp only [Bool.or_eq_true, Bool.not_eq_true', decide_eq_true_eq, not_or, not_not,
      Bool.not_eq_false] at hsame
    exact h ⟨hsame.1.1, hsame.1.2.symm, hsame.2.symm⟩
  have hsegs : (if (frame v nowMs).lit then segments v.nodeId.toNat false true
      else segments v.nodeId.toNat false false) = (frame v nowMs).segs := by
    cases hl : (frame v nowMs).lit with
    | true => rw [Frame.segs, hl]; rfl
    | false => rw [Frame.segs, hl]; rfl
  rw [← hsegs]
  unfold tick
  rw [if_neg (by simp [hv])]
  exact if_neg (by rw [hchanged]; decide)

theorem State.Stands.unique {f' : Frame} (h : s.Stands f) (h' : s.Stands f') : f = f' := by
  have hval : f.value = f'.value :=
    UInt8.toNat_inj.1 (Int.ofNat.inj (h.value.symm.trans h'.value))
  have hlit : f.lit = f'.lit := h.lit.symm.trans h'.lit
  cases f
  cases f'
  simp_all

/-- After a tick, the frame that stands is that of the tick, if the node is enrolled. -/
theorem stands_tick_iff :
    (tick s v nowMs).1.Stands f ↔ v.enrolled = true ∧ frame v nowMs = f := by
  cases hv : v.enrolled with
  | false =>
    have hoff : (tick s v nowMs).1.wasEnrolled = false := by
      unfold tick
      rw [hv, if_pos (by decide)]
      dsimp only
      split <;> rfl
    refine ⟨fun h => ?_, fun h => absurd h.1 (by decide)⟩
    rw [hoff.symm.trans h.enrolled]
    exact absurd (hoff.symm.trans h.enrolled) (by decide)
  | true =>
    have hstands : (tick s v nowMs).1.Stands (frame v nowMs) := by
      by_cases h : s.Stands (frame v nowMs)
      · rwa [tick_stands hv h]
      · rw [tick_draws hv h]
        exact ⟨rfl, rfl, rfl⟩
    refine ⟨fun h => ⟨rfl, hstands.unique h⟩, ?_⟩
    rintro ⟨-, rfl⟩
    exact hstands

/-- Something happened, with what came before it as `P` says, and since then everything was as `Q`
says. -/
def Since {α : Type} (P : List α → α → Prop) (Q : α → Prop) (l : List α) : Prop :=
  ∃ before a after, l = before ++ a :: after ∧ P before a ∧ ∀ x ∈ after, Q x

theorem not_since_nil {α : Type} {P : List α → α → Prop} {Q : α → Prop} : ¬Since P Q [] := by
  rintro ⟨before, a, after, hl, -⟩
  exact absurd hl.symm (by simp)

/-- It is so after one more event if that event was the one, or it was so before. -/
theorem since_concat {α : Type} {P : List α → α → Prop} {Q : α → Prop} {l : List α} {a : α} :
    Since P Q (l ++ [a]) ↔ P l a ∨ Q a ∧ Since P Q l := by
  constructor
  · rintro ⟨before, a₀, after, hl, hP, hQ⟩
    rcases List.eq_nil_or_concat' after with rfl | ⟨after, a₁, rfl⟩
    · obtain ⟨rfl, hlast⟩ := List.append_inj' hl rfl
      obtain rfl := (List.cons.inj hlast).1
      exact .inl hP
    · rw [← List.cons_append, ← List.append_assoc] at hl
      obtain ⟨rfl, hlast⟩ := List.append_inj' hl rfl
      obtain rfl := (List.cons.inj hlast).1
      exact .inr ⟨hQ a (by simp), before, a₀, after, rfl, hP,
        fun x hx => hQ x (List.mem_append_left _ hx)⟩
  · rintro (hP | ⟨ha, before, a₀, after, rfl, hP, hQ⟩)
    · exact ⟨l, a, [], rfl, hP, by simp⟩
    · refine ⟨before, a₀, after ++ [a], by simp, hP, fun x hx => ?_⟩
      rcases List.mem_append.1 hx with hx | hx
      · exact hQ x hx
      · obtain rfl := List.mem_singleton.1 hx
        exact ha

/-- The event is a tick of an enrolled node with the frame `f`. -/
def Draws (f : Frame) (e : Event) : Prop :=
  ∃ v nowMs, e = .tick v nowMs ∧ v.enrolled = true ∧ frame v nowMs = f

def Event.IsError : Event → Prop
  | .tick _ _ => False
  | .error _ _ _ => True

/-- The last tick of the run was one of an enrolled node with the frame `f`. -/
def Standing (f : Frame) : List Event → Prop := Since (fun _ e => Draws f e) Event.IsError

/-- The code of an error was shown while the frame `f` stood, and since then there was nothing but
ticks with that frame. -/
def Stale (f : Frame) (t : ErrorTypeDigit) (m : ModuleDigit) (sub : ℕ) : List Event → Prop :=
  Since (fun before e => e = .error t m sub ∧ Standing f before) (Draws f)

theorem draws_tick_iff : Draws f (.tick v nowMs) ↔ v.enrolled = true ∧ frame v nowMs = f := by
  constructor
  · rintro ⟨v', nowMs', he, hv, hf⟩
    obtain ⟨rfl, rfl⟩ := Event.tick.inj he
    exact ⟨hv, hf⟩
  · rintro ⟨hv, hf⟩
    exact ⟨v, nowMs, rfl, hv, hf⟩

theorem not_draws_error : ¬Draws f (.error t m sub) := by
  rintro ⟨v, nowMs, he, -⟩
  cases he

/-- The frame that stands is that of the last tick. -/
theorem stands_iff (es : List Event) : (run es).state.Stands f ↔ Standing f es := by
  induction es using List.reverseRecOn with
  | nil => exact ⟨fun h => absurd h.enrolled (by decide), fun h => absurd h not_since_nil⟩
  | append_singleton es e ih =>
    rw [run_append_singleton, Standing, since_concat]
    cases e with
    | error t m sub =>
      refine ⟨fun h => .inr ⟨trivial, ih.1 h⟩, ?_⟩
      rintro (h | ⟨-, h⟩)
      · exact absurd h not_draws_error
      · exact ih.2 h
    | tick v nowMs =>
      refine stands_tick_iff.trans (draws_tick_iff.symm.trans ⟨.inl, ?_⟩)
      rintro (h | ⟨h, -⟩)
      · exact h
      · exact absurd h not_false

/-- The frame of a stale code stands. -/
theorem standing_of_stale (h : Stale f t m sub es) : Standing f es := by
  induction es using List.reverseRecOn with
  | nil => exact absurd h not_since_nil
  | append_singleton es e ih =>
    rcases since_concat.1 h with ⟨rfl, hstands⟩ | ⟨hdraws, -⟩
    · exact since_concat.2 (.inr ⟨trivial, hstands⟩)
    · exact since_concat.2 (.inl hdraws)

/-- A code that is stale is what is shown. -/
theorem shown_of_stale (h : Stale f t m sub es) : (run es).shown = codeSegs t m sub := by
  induction es using List.reverseRecOn with
  | nil => exact absurd h not_since_nil
  | append_singleton es e ih =>
    rw [run_append_singleton]
    rcases since_concat.1 h with ⟨rfl, -⟩ | ⟨⟨v, nowMs, rfl, hv, rfl⟩, hstale⟩
    · rfl
    · show (DisplayManager.tick (run es).state v nowMs).2.getD (run es).shown = _
      rw [tick_stands hv ((stands_iff es).2 (standing_of_stale hstale))]
      exact ih hstale

/-- A frame that stands is what is shown, unless a code is stale. -/
theorem shown_of_standing (h : Standing f es) (hstale : ∀ t m sub, ¬Stale f t m sub es) :
    (run es).shown = f.segs := by
  induction es using List.reverseRecOn with
  | nil => exact absurd h not_since_nil
  | append_singleton es e ih =>
    rw [run_append_singleton]
    rcases since_concat.1 h with ⟨v, nowMs, rfl, hv, rfl⟩ | ⟨herr, hstands⟩
    · show (DisplayManager.tick (run es).state v nowMs).2.getD (run es).shown = _
      by_cases hstands : (run es).state.Stands (frame v nowMs)
      · rw [tick_stands hv hstands]
        refine ih ((stands_iff es).1 hstands) fun t m sub hs => hstale t m sub ?_
        exact since_concat.2 (.inr ⟨draws_tick_iff.2 ⟨hv, rfl⟩, hs⟩)
      · rw [tick_draws hv hstands]
        rfl
    · cases e with
      | tick v nowMs => exact absurd herr not_false
      | error t m sub => exact absurd (since_concat.2 (.inl ⟨rfl, hstands⟩)) (hstale t m sub)

/-- **A tick that writes only changes shows what one that always writes would show, except that an
error code stays until the frame changes.**  After a tick of an enrolled node the display shows the
frame of the node, whatever came before, unless the code of an error was shown while that frame
stood; then, it shows that code, tick after tick. -/
theorem shown_of_run (es : List Event) (hv : v.enrolled = true) :
    ((∀ t m sub, ¬Stale (frame v nowMs) t m sub es) →
      (run (es ++ [.tick v nowMs])).shown = (frame v nowMs).segs) ∧
    ∀ t m sub, Stale (frame v nowMs) t m sub es →
      (run (es ++ [.tick v nowMs])).shown = codeSegs t m sub := by
  have hdraws : Draws (frame v nowMs) (.tick v nowMs) := draws_tick_iff.2 ⟨hv, rfl⟩
  constructor
  · intro hstale
    refine shown_of_standing (since_concat.2 (.inl hdraws)) fun t m sub h => ?_
    rcases since_concat.1 h with ⟨he, -⟩ | ⟨-, h⟩
    · cases he
    · exact hstale t m sub h
  · exact fun t m sub h => shown_of_stale (since_concat.2 (.inr ⟨hdraws, h⟩))

/-- A leaf with the number 5 reports an error of its radio.  The code 331 stays on the display. -/
theorem shown_of_run_leaf :
    (run [.tick ⟨true, false, false, 5⟩ 1000]).shown = [0, 0, 0, 0x6D] ∧
    (run ([.tick ⟨true, false, false, 5⟩ 1000, .error .comm .mesh 1] ++
      [.tick ⟨true, false, false, 5⟩ 60000])).shown = [0x3F, 0x4F, 0x4F, 0x06] := by
  have hstale : Stale (frame ⟨true, false, false, 5⟩ 60000) .comm .mesh 1
      [.tick ⟨true, false, false, 5⟩ 1000, .error .comm .mesh 1] :=
    ⟨[.tick ⟨true, false, false, 5⟩ 1000], _, [], rfl,
      ⟨rfl, [], _, [], rfl, ⟨_, _, rfl, rfl, rfl⟩, by simp⟩, by simp⟩
  have hfirst : (run ([] ++ [.tick ⟨true, false, false, 5⟩ 1000])).shown =
      (frame ⟨true, false, false, 5⟩ 1000).segs :=
    (shown_of_run [] rfl).1 fun _ _ _ => not_since_nil
  exact ⟨hfirst.trans (by decide), ((shown_of_run _ rfl).2 _ _ _ hstale).trans (by decide)⟩

/-! ### Reading the display -/

/-- What the display can say. -/
inductive Reading
  | blank
  | dashes
  | frame (f : Frame)
  | code (t : ErrorTypeDigit) (m : ModuleDigit) (sub : Fin 10)
  deriving DecidableEq

/-- How the display says it. -/
def Reading.segs : Reading → List UInt8
  | .blank => DisplayManager.blank
  | .dashes => DisplayManager.dashes
  | .frame f => f.segs
  | .code t m sub => codeSegs t m sub

theorem makeErrorCode_lt (t : ErrorTypeDigit) (m : ModuleDigit) (sub : ℕ) :
    makeErrorCode t m sub < 1000 := by
  unfold makeErrorCode
  have ht : t.digit ≤ 7 := by cases t <;> decide
  have hm : m.digit ≤ 5 := by cases m <;> decide
  omega

/-- A frame begins with a dark digit and does not end with one. -/
theorem segs_frame (f : Frame) : f.segs.head? = some 0 ∧ f.segs.getLast? ≠ some 0 := by
  have hlt := f.value.toNat_lt
  have hthousands : f.value.toNat / 1000 % 10 = 0 := by omega
  have hlast : ∀ b : Bool, ∀ i : Fin 10, lastGlyph b i.val ≠ 0 := by decide
  rw [Frame.segs, segments_nat (by omega), hthousands]
  exact ⟨rfl, fun h => hlast f.lit ⟨_, Nat.mod_lt f.value.toNat (by decide)⟩ (Option.some.inj h)⟩

/-- A code begins with a zero. -/
theorem segs_code (t : ErrorTypeDigit) (m : ModuleDigit) (sub : ℕ) :
    (codeSegs t m sub).head? = some 0x3F := by
  have hlt := makeErrorCode_lt t m sub
  have hthousands : makeErrorCode t m sub / 1000 % 10 = 0 := by omega
  rw [codeSegs, segments_nat (by omega), hthousands]
  rfl

theorem Frame.segs_inj {f f' : Frame} (h : f.segs = f'.segs) : f = f' := by
  have hlt := f.value.toNat_lt
  have hlt' := f'.value.toNat_lt
  obtain ⟨hval, hlit⟩ := segments_nat_inj (by omega) (by omega) h
  cases f
  cases f'
  simp_all [UInt8.toNat_inj]

theorem codeSegs_inj {t' : ErrorTypeDigit} {m' : ModuleDigit} {sub sub' : Fin 10}
    (h : codeSegs t m sub = codeSegs t' m' sub') : t = t' ∧ m = m' ∧ sub = sub' := by
  have hlt := makeErrorCode_lt t m sub
  have hlt' := makeErrorCode_lt t' m' sub'
  obtain ⟨ht, hm, hsub⟩ := makeErrorCode_inj.1 (segments_nat_inj (by omega) (by omega) h).1
  rw [Nat.mod_eq_of_lt sub.isLt, Nat.mod_eq_of_lt sub'.isLt] at hsub
  exact ⟨ht, hm, Fin.ext hsub⟩

/-- What is shown tells what is meant. -/
theorem Reading.segs_injective : Function.Injective Reading.segs := by
  intro r r' h
  have hhead : r.segs.head? = r'.segs.head? := congrArg List.head? h
  have hlast : r.segs.getLast? = r'.segs.getLast? := congrArg List.getLast? h
  cases r with
  | blank =>
    cases r' with
    | blank => rfl
    | dashes => cases hhead
    | frame f => exact absurd hlast.symm (segs_frame f).2
    | code t m sub => cases hhead.trans (segs_code t m sub)
  | dashes =>
    cases r' with
    | blank => cases hhead
    | dashes => rfl
    | frame f => cases hhead.trans (segs_frame f).1
    | code t m sub => cases hhead.trans (segs_code t m sub)
  | frame f =>
    cases r' with
    | blank => exact absurd hlast (segs_frame f).2
    | dashes => cases (segs_frame f).1.symm.trans hhead
    | frame f' => rw [Frame.segs_inj h]
    | code t m sub => cases (segs_frame f).1.symm.trans (hhead.trans (segs_code t m sub))
  | code t m sub =>
    cases r' with
    | blank => cases (segs_code t m sub).symm.trans hhead
    | dashes => cases (segs_code t m sub).symm.trans hhead
    | frame f => cases (segs_code t m sub).symm.trans (hhead.trans (segs_frame f).1)
    | code t' m' sub' =>
      obtain ⟨rfl, rfl, rfl⟩ := codeSegs_inj h
      rfl

/-- A tick writes nothing but dashes, blanks and frames. -/
theorem tick_writes {segs : List UInt8} (h : (tick s v nowMs).2 = some segs) :
    segs = dashes ∨ segs = blank ∨ segs = (frame v nowMs).segs := by
  cases hv : v.enrolled with
  | false =>
    unfold tick at h
    rw [hv, if_pos (by decide)] at h
    dsimp only at h
    split at h
    · obtain rfl := Option.some.inj h
      split
      · exact .inl rfl
      · exact .inr (.inl rfl)
    · cases h
  | true =>
    by_cases hs : s.Stands (frame v nowMs)
    · rw [tick_stands hv hs] at h
      cases h
    · rw [tick_draws hv hs] at h
      exact .inr (.inr (Option.some.inj h).symm)

/-- **Whatever happens, the display says one thing.** -/
theorem reads_uniquely (es : List Event) : ∃! r : Reading, (run es).shown = r.segs := by
  have hexists : ∃ r : Reading, (run es).shown = r.segs := by
    induction es using List.reverseRecOn with
    | nil => exact ⟨.blank, rfl⟩
    | append_singleton es e ih =>
      rw [run_append_singleton]
      cases e with
      | error t m sub =>
        refine ⟨.code t m ⟨sub % 10, Nat.mod_lt _ (by decide)⟩, ?_⟩
        have hcode : makeErrorCode t m sub = makeErrorCode t m (sub % 10) :=
          makeErrorCode_inj.2 ⟨rfl, rfl, (Nat.mod_mod _ _).symm⟩
        exact congrArg (fun code : ℕ => segments code true false) hcode
      | tick v nowMs =>
        show ∃ r : Reading, (DisplayManager.tick (run es).state v nowMs).2.getD (run es).shown = _
        cases hw : (DisplayManager.tick (run es).state v nowMs).2 with
        | none => exact ih
        | some segs =>
          rcases tick_writes hw with rfl | rfl | rfl
          · exact ⟨.dashes, rfl⟩
          · exact ⟨.blank, rfl⟩
          · exact ⟨.frame (frame v nowMs), rfl⟩
  obtain ⟨r, hr⟩ := hexists
  exact ⟨r, hr, fun r' hr' => Reading.segs_injective (hr'.symm.trans hr)⟩

/-! ### Blinking -/

/-- What the ticks of a run write, and when. -/
def writes : State → List (View × UInt64) → List (UInt64 × List UInt8)
  | _, [] => []
  | s, (v, nowMs) :: xs =>
    let r := tick s v nowMs
    (r.2.map (nowMs, ·)).toList ++ writes r.1 xs

/-- Dashes and blanks in turn, beginning with dashes if so asked. -/
def alternating : Bool → ℕ → List (List UInt8)
  | _, 0 => []
  | visible, n + 1 => (if visible then dashes else blank) :: alternating (!visible) n

/-- When the ticks come, in milliseconds. -/
def times (xs : List (View × UInt64)) : List ℕ := xs.map (·.2.toNat)

variable {g : ℕ} {xs : List (View × UInt64)}

/-- Before the half-period is over, the tick of a node that is not enrolled writes nothing. -/
theorem tick_waits (hv : v.enrolled = false) (hle : s.lastToggleMs ≤ nowMs)
    (h : nowMs.toNat < s.lastToggleMs.toNat + 500) :
    tick s v nowMs = ({ s with wasEnrolled := false }, none) := by
  have hlt : ¬nowMs - s.lastToggleMs ≥ blinkHalfPeriodMs := by
    rw [ge_iff_le, UInt64.le_iff_toNat_le, UInt64.toNat_sub_of_le _ _ hle]
    show ¬500 ≤ _
    omega
  unfold tick
  rw [hv, if_pos (by decide)]
  exact if_neg hlt

/-- When it is over, the display toggles, and the next one counts from there. -/
theorem tick_toggles (hv : v.enrolled = false) (hle : s.lastToggleMs ≤ nowMs)
    (h : s.lastToggleMs.toNat + 500 ≤ nowMs.toNat) :
    tick s v nowMs = ({ s with
        wasEnrolled := false, lastToggleMs := nowMs, dashVisible := !s.dashVisible },
      some (if !s.dashVisible then dashes else blank)) := by
  have hge : nowMs - s.lastToggleMs ≥ blinkHalfPeriodMs := by
    rw [ge_iff_le, UInt64.le_iff_toNat_le, UInt64.toNat_sub_of_le _ _ hle]
    show 500 ≤ _
    omega
  unfold tick
  rw [hv, if_pos (by decide)]
  exact if_pos hge

/-- The writes of a node that is not enrolled are those of a timer, dashes and blanks in turn. -/
theorem writes_eq_ends (xs : List (View × UInt64)) : ∀ {s : State} {q n : ℕ},
    (∀ x ∈ xs, x.1.enrolled = false) → Polled g q (times xs) → s.lastToggleMs.toNat ≤ q →
    xs.length ≤ n →
    (writes s xs).map (·.1.toNat) =
        ends (List.replicate n 500) s.lastToggleMs.toNat (times xs) ∧
      (writes s xs).map (·.2) = alternating (!s.dashVisible) (writes s xs).length := by
  induction xs with
  | nil => exact fun _ _ _ _ => ⟨(ends_nil_right _ _).symm, rfl⟩
  | cons x xs ih =>
    intro s q n hxs hps hle hn
    obtain ⟨v, nowMs⟩ := x
    obtain ⟨hq, -, hrest⟩ := hps
    have hv : v.enrolled = false := hxs _ List.mem_cons_self
    have hxs' : ∀ x ∈ xs, x.1.enrolled = false := fun x hx => hxs x (List.mem_cons_of_mem _ hx)
    have hle' : s.lastToggleMs.toNat ≤ nowMs.toNat := Nat.le_trans hle hq
    cases n with
    | zero => exact absurd hn (by simp)
    | succ n =>
      have hn' : xs.length ≤ n := Nat.le_of_succ_le_succ hn
      -- a tick that comes too early writes nothing; one that is due toggles the dash
      by_cases h : nowMs.toNat < s.lastToggleMs.toNat + 500
      · obtain ⟨htimes, hsegs⟩ := ih (s := { s with wasEnrolled := false }) hxs' hrest hle'
          (Nat.le_succ_of_le hn')
        rw [writes, tick_waits hv hle' h]
        refine ⟨?_, hsegs⟩
        rw [List.replicate_succ, times, List.map_cons, ends_early h]
        exact htimes
      · obtain ⟨htimes, hsegs⟩ := ih (s := { s with
          wasEnrolled := false, lastToggleMs := nowMs, dashVisible := !s.dashVisible }) hxs' hrest
          (Nat.le_refl _) hn'
        rw [writes, tick_toggles hv hle' (Nat.not_lt.1 h)]
        constructor
        · rw [List.replicate_succ, times, List.map_cons, ends_due (Nat.not_lt.1 h)]
          exact congrArg (nowMs.toNat :: ·) htimes
        · exact congrArg (_ :: ·) hsegs

/-- After a tick, no half-period is over. -/
theorem tick_recent (hv : v.enrolled = false) (hle : s.lastToggleMs ≤ nowMs) :
    (tick s v nowMs).1.lastToggleMs ≤ nowMs ∧
      nowMs.toNat ≤ (tick s v nowMs).1.lastToggleMs.toNat + 500 := by
  by_cases h : nowMs.toNat < s.lastToggleMs.toNat + 500
  · rw [tick_waits hv hle h]
    exact ⟨hle, Nat.le_of_lt h⟩
  · rw [tick_toggles hv hle (Nat.not_lt.1 h)]
    exact ⟨UInt64.le_refl nowMs, Nat.le_add_right _ _⟩

/-- **A node that is not enrolled blinks in time.**  From its first tick on, whatever the display
showed before, it shows dashes and nothing in turn; each half-period lasts at least 500 ms, and at
most as much longer as two ticks are apart; and there are as many as there is time for. -/
theorem blink_run {s₁ : State} (hv : v.enrolled = false) (hle : s.lastToggleMs ≤ nowMs)
    (hs₁ : (tick s v nowMs).1 = s₁) (hxs : ∀ x ∈ xs, x.1.enrolled = false)
    (hps : Polled g nowMs.toNat (times xs)) :
    InTime g s₁.lastToggleMs.toNat (List.replicate (xs.length + 1) 500)
      ((writes s₁ xs).map (·.1.toNat)) ∧
    (writes s₁ xs).map (·.2) = alternating (!s₁.dashVisible) (writes s₁ xs).length ∧
    ∀ n, ∀ p ∈ times xs, s₁.lastToggleMs.toNat + n * 500 + g * n < p →
      n ≤ (writes s₁ xs).length := by
  obtain ⟨hrecent, hsoon⟩ := tick_recent hv hle
  rw [hs₁] at hrecent hsoon
  obtain ⟨htimes, hsegs⟩ := writes_eq_ends xs hxs hps hrecent (Nat.le_succ xs.length)
  refine ⟨?_, hsegs, fun n p hp hlate => ?_⟩
  · rw [htimes]
    exact inTime_ends (times xs) _ s₁.lastToggleMs.toNat nowMs.toNat hsoon hps
  · cases n with
    | zero => exact Nat.zero_le _
    | succ n =>
      -- The run is one with more half-periods to come than there are polls.
      obtain ⟨htimes', -⟩ := writes_eq_ends xs hxs hps hrecent
        (Nat.le_add_left xs.length (n + 1))
      have hall := length_ends (times xs) (List.replicate (n + 1) 500) s₁.lastToggleMs.toNat
        nowMs.toNat hsoon hps p hp (by rwa [List.sum_replicate, List.length_replicate])
      have hmore := length_ends_append (List.replicate xs.length 500) (times xs)
        (List.replicate (n + 1) 500) s₁.lastToggleMs.toNat
      rw [← List.replicate_add, ← htimes', List.length_map, hall, List.length_replicate] at hmore
      exact hmore

/-- At boot the self-test takes 500 ms, so that the first tick shows the dashes; with a tick every
200 ms they go out after 600 ms. -/
theorem blink_run_boot : (tick {} ⟨false, false, false, 0⟩ 600).2 = some dashes ∧
    (writes (tick {} ⟨false, false, false, 0⟩ 600).1
      ([800, 1000, 1200, 1400].map fun nowMs => (⟨false, false, false, 0⟩, nowMs))).map (·.2) =
        alternating false 1 ∧
    InTime 200 600 (List.replicate 5 500) [1200] := by
  have hps : Polled 200 (600 : UInt64).toNat (times
      ([800, 1000, 1200, 1400].map fun nowMs => (⟨false, false, false, 0⟩, nowMs))) := by
    simp [Polled, times]
  obtain ⟨htime, hsegs, -⟩ := blink_run (s := {}) (v := ⟨false, false, false, 0⟩) rfl (by decide)
    rfl (by simp) hps
  exact ⟨by decide, hsegs, htime⟩

end DisplayManager

end LatticeMesh
