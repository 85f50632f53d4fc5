import Mathlib.Data.List.Basic
import Mathlib.Logic.Function.Iterate

/-!
# Cyclic redundancy checks

A checksum register that a message is shifted into bit by bit, over any generator polynomial with a
constant term.  A bit that leaves the register at the top comes back in at the bottom, so two
registers that differ keep differing; and a difference that came in stays visible among the low bits
as long as it has not been shifted through the whole register.

## Main definitions

* `shift`, `feed`, `run` — one shift of the register, one bit, and a message.
* `pack` — the bits of a word, the first one at the top.
* `Burst` — two messages that differ in a few consecutive bits only.

## Main results

* `run_eq_iterate` — a word that is added at once, then shifted through, is fed bit by bit.
* `run_ne_of_burst` — **messages that differ in a burst no longer than the register have different
  checksums.**
-/

namespace Crc

variable {w : ℕ} (poly : BitVec w)

/-- One shift of the register. -/
def shift (c : BitVec w) : BitVec w := if c.msb then (c <<< 1) ^^^ poly else c <<< 1

/-- A bit at the top of the register. -/
def top (b : Bool) : BitVec w := if b then BitVec.twoPow w (w - 1) else 0#w

/-- Shift one bit of the message in. -/
def feed (c : BitVec w) (b : Bool) : BitVec w := shift poly (c ^^^ top b)

/-- Shift a message in. -/
def run (c : BitVec w) (bits : List Bool) : BitVec w := bits.foldl (feed poly) c

/-- The bits of a word, the first one at the top. -/
def pack : List Bool → BitVec w
  | [] => 0#w
  | b :: bits => top b ^^^ (pack bits >>> 1)

variable {poly}

theorem run_append (c : BitVec w) (bits bits' : List Bool) :
    run poly c (bits ++ bits') = run poly (run poly c bits) bits' := List.foldl_append

/-! ### The bits of the register -/

/-- The bit that leaves at the top comes in at the bottom. -/
theorem getLsbD_shift_zero (hpoly : poly.getLsbD 0 = true) (c : BitVec w) :
    (shift poly c).getLsbD 0 = c.msb := by
  unfold shift
  cases c.msb <;> simp [hpoly]

/-- The other bits move up, and the polynomial is added to them where a bit left. -/
theorem getLsbD_shift_succ (c : BitVec w) {i : ℕ} (hi : i + 1 < w) :
    (shift poly c).getLsbD (i + 1) = (c.getLsbD i ^^ (c.msb && poly.getLsbD (i + 1))) := by
  have hup : (c <<< 1).getLsbD (i + 1) = c.getLsbD i := by
    rw [BitVec.getLsbD_shiftLeft]
    simp only [hi, decide_true, Nat.not_lt_of_le (Nat.le_add_left 1 i), decide_false,
      Bool.not_false, Bool.true_and, Nat.add_sub_cancel]
  unfold shift
  cases c.msb
  · rw [if_neg Bool.false_ne_true, hup, Bool.false_and, Bool.xor_false]
  · rw [if_pos rfl, BitVec.getLsbD_xor, hup, Bool.true_and]

theorem msb_xor_top (hw : 0 < w) (c : BitVec w) (b : Bool) : (c ^^^ top b).msb = (c.msb ^^ b) := by
  have hlt : w - 1 < w := by omega
  unfold top
  cases b <;> simp [BitVec.msb_xor, BitVec.msb_twoPow, hlt]

theorem getLsbD_xor_top (c : BitVec w) (b : Bool) {i : ℕ} (hi : i + 1 < w) :
    (c ^^^ top b).getLsbD i = c.getLsbD i := by
  unfold top
  cases b
  · simp
  · have hne : w - 1 ≠ i := by omega
    simp [hne]

/-! ### Differences -/

/-- Two registers differ among their `j` low bits. -/
def DifferBelow (j : ℕ) (c c' : BitVec w) : Prop := ∃ i < j, c.getLsbD i ≠ c'.getLsbD i

theorem DifferBelow.ne {j : ℕ} {c c' : BitVec w} (h : DifferBelow j c c') : c ≠ c' := by
  obtain ⟨i, -, hi⟩ := h
  exact fun hc => hi (congrArg (BitVec.getLsbD · i) hc)

/-- Registers with different top bits differ at the bottom after a shift. -/
theorem shift_differ_of_msb (hpoly : poly.getLsbD 0 = true) {c c' : BitVec w} (h : c.msb ≠ c'.msb) :
    DifferBelow 1 (shift poly c) (shift poly c') := by
  refine ⟨0, Nat.one_pos, ?_⟩
  rwa [getLsbD_shift_zero hpoly, getLsbD_shift_zero hpoly]

/-- A difference moves up by one place, or comes in at the bottom. -/
theorem shift_differ (hpoly : poly.getLsbD 0 = true) {c c' : BitVec w} {i : ℕ} (hi : i + 1 < w)
    (h : c.getLsbD i ≠ c'.getLsbD i) : DifferBelow (i + 2) (shift poly c) (shift poly c') := by
  by_cases hmsb : c.msb = c'.msb
  · refine ⟨i + 1, Nat.lt_succ_self _, ?_⟩
    rw [getLsbD_shift_succ c hi, getLsbD_shift_succ c' hi, hmsb]
    exact fun heq => h (Bool.xor_left_inj.mp heq)
  · obtain ⟨k, hk, hne⟩ := shift_differ_of_msb hpoly hmsb
    exact ⟨k, by omega, hne⟩

/-- A difference among the low bits is still among the low bits after one bit of each message. -/
theorem feed_differ (hpoly : poly.getLsbD 0 = true) {c c' : BitVec w} {j : ℕ} (hj : j < w)
    (h : DifferBelow j c c') (b b' : Bool) :
    DifferBelow (j + 1) (feed poly c b) (feed poly c' b') := by
  obtain ⟨i, hij, hne⟩ := h
  have hi : i + 1 < w := by omega
  rw [← getLsbD_xor_top c b hi, ← getLsbD_xor_top c' b' hi] at hne
  obtain ⟨k, hk, hk'⟩ := shift_differ hpoly hi hne
  exact ⟨k, by omega, hk'⟩

/-- The same bit keeps different registers different. -/
theorem feed_ne (hpoly : poly.getLsbD 0 = true) {c c' : BitVec w} (h : c ≠ c') (b : Bool) :
    feed poly c b ≠ feed poly c' b := by
  have hx : c ^^^ top b ≠ c' ^^^ top b := fun hx => h ((BitVec.xor_left_inj _).mp hx)
  by_cases hmsb : (c ^^^ top b).msb = (c' ^^^ top b).msb
  · obtain ⟨i, hi, hne⟩ : ∃ i < w, (c ^^^ top b).getLsbD i ≠ (c' ^^^ top b).getLsbD i := by
      by_contra hall
      push Not at hall
      exact hx (BitVec.eq_of_getLsbD_eq hall)
    have hi1 : i + 1 < w := by
      -- The top bits are the same.
      have hlast : i ≠ w - 1 := fun he => hne (by
        rwa [BitVec.msb_eq_getLsbD_last, BitVec.msb_eq_getLsbD_last, ← he] at hmsb)
      omega
    exact (shift_differ hpoly hi1 hne).ne
  · exact (shift_differ_of_msb hpoly hmsb).ne

theorem run_ne (hpoly : poly.getLsbD 0 = true) (bits : List Bool) :
    ∀ {c c' : BitVec w}, c ≠ c' → run poly c bits ≠ run poly c' bits := by
  induction bits with
  | nil => exact id
  | cons b bits ih => exact fun h => ih (feed_ne hpoly h b)

/-- While a difference has not reached the top, no bits make the registers equal. -/
theorem run_differ (hpoly : poly.getLsbD 0 = true) : ∀ {bits bits' : List Bool} {c c' : BitVec w}
    {j : ℕ}, bits.length = bits'.length → j + bits.length ≤ w → DifferBelow j c c' →
      run poly c bits ≠ run poly c' bits'
  | [], [], _, _, _, _, _, h => h.ne
  | b :: bits, b' :: bits', c, c', j, hlen, hle, h => by
    rw [List.length_cons] at hle
    rw [List.length_cons, List.length_cons, Nat.add_right_cancel_iff] at hlen
    show run poly (feed poly c b) bits ≠ run poly (feed poly c' b') bits'
    exact run_differ hpoly hlen (by omega) (feed_differ hpoly (by omega) h b b')

/-- Different words that fit the register lead to different registers. -/
theorem run_ne_of_ne (hpoly : poly.getLsbD 0 = true) : ∀ {bits bits' : List Bool} {c : BitVec w},
    bits.length = bits'.length → bits.length ≤ w → bits ≠ bits' → run poly c bits ≠ run poly c bits'
  | [], [], _, _, _, h => absurd rfl h
  | b :: bits, b' :: bits', c, hlen, hle, h => by
    rw [List.length_cons] at hle
    rw [List.length_cons, List.length_cons, Nat.add_right_cancel_iff] at hlen
    by_cases hb : b = b'
    · subst hb
      show run poly (feed poly c b) bits ≠ run poly (feed poly c b) bits'
      exact run_ne_of_ne hpoly hlen (by omega) fun hbits => h (by rw [hbits])
    · -- The first bit that is different comes in at the bottom.
      have hmsb : (c ^^^ top b).msb ≠ (c ^^^ top b').msb := by
        rw [msb_xor_top (by omega), msb_xor_top (by omega)]
        exact fun heq => hb (Bool.xor_right_inj.mp heq)
      show run poly (feed poly c b) bits ≠ run poly (feed poly c b') bits'
      exact run_differ hpoly hlen (by omega) (shift_differ_of_msb hpoly hmsb)

/-- Two messages differ in at most `k` consecutive bits, and in one of them at least. -/
def Burst (k : ℕ) (bits bits' : List Bool) : Prop :=
  ∃ before seg seg' after, bits = before ++ seg ++ after ∧ bits' = before ++ seg' ++ after ∧
    seg.length = seg'.length ∧ seg.length ≤ k ∧ seg ≠ seg'

/-- **Messages that differ in a burst no longer than the register have different checksums.** -/
theorem run_ne_of_burst (hpoly : poly.getLsbD 0 = true) {bits bits' : List Bool}
    (h : Burst w bits bits') (c : BitVec w) : run poly c bits ≠ run poly c bits' := by
  obtain ⟨before, seg, seg', after, rfl, rfl, hlen, hle, hne⟩ := h
  rw [run_append, run_append, run_append, run_append]
  exact run_ne hpoly after (run_ne_of_ne hpoly hlen hle hne)

/-! ### Words at once -/

theorem msb_ushiftRight_one (y : BitVec w) (hw : 0 < w) : (y >>> 1).msb = false := by
  rw [BitVec.msb_eq_getLsbD_last, BitVec.getLsbD_ushiftRight]
  exact BitVec.getLsbD_of_ge _ _ (by omega)

/-- What is added below the top moves up by one place. -/
theorem shift_xor (c : BitVec w) {y : BitVec w} (hy : y.msb = false) :
    shift poly (c ^^^ y) = shift poly c ^^^ (y <<< 1) := by
  unfold shift
  rw [BitVec.msb_xor, hy, Bool.xor_false, BitVec.shiftLeft_xor_distrib]
  split
  · rw [BitVec.xor_assoc, BitVec.xor_comm (y <<< 1), ← BitVec.xor_assoc]
  · rfl

/-- A word of `k` bits leaves the rest of the register clear. -/
theorem getLsbD_pack : ∀ {bits : List Bool} {i : ℕ}, i + bits.length < w →
    (pack bits : BitVec w).getLsbD i = false
  | [], _, _ => BitVec.getLsbD_zero
  | b :: bits, i, h => by
    rw [List.length_cons] at h
    have hrest : (pack bits : BitVec w).getLsbD (1 + i) = false := getLsbD_pack (by omega)
    rw [pack, BitVec.xor_comm, getLsbD_xor_top _ _ (by omega), BitVec.getLsbD_ushiftRight, hrest]

/-- A word whose bottom bit is clear can be shifted down and up again. -/
theorem ushiftRight_shiftLeft {y : BitVec w} (h : y.getLsbD 0 = false) : (y >>> 1) <<< 1 = y := by
  refine BitVec.eq_of_getLsbD_eq fun i hi => ?_
  cases i with
  | zero => simp [h]
  | succ i => simp [hi, Nat.add_comm 1 i]

/-- **A word that is added at once, then shifted through, is fed bit by bit.** -/
theorem run_eq_iterate : ∀ {bits : List Bool} (c : BitVec w), bits.length ≤ w →
    run poly c bits = (shift poly)^[bits.length] (c ^^^ pack bits)
  | [], c, _ => by
    show c = c ^^^ 0#w
    rw [BitVec.xor_zero]
  | b :: bits, c, h => by
    rw [List.length_cons] at h
    have hlow : (pack bits : BitVec w).getLsbD 0 = false := getLsbD_pack (by omega)
    have hstep : shift poly (c ^^^ pack (b :: bits)) = feed poly c b ^^^ pack bits := by
      rw [pack, ← BitVec.xor_assoc, shift_xor _ (msb_ushiftRight_one _ (by omega)),
        ushiftRight_shiftLeft hlow]
      rfl
    rw [List.length_cons, Function.iterate_succ_apply, hstep]
    exact run_eq_iterate (feed poly c b) (by omega)

end Crc
