import Mathlib.Data.Vector.Basic

/-!
# Fixed-width byte strings

Byte strings of a known length, as a wire format or a flash record has them: slices, overwrites
and little-endian integers.  The length is part of the type, so a slice or an overwrite outside
the string cannot be written down.

## Main definitions

* `Bytes n` — `n` bytes.
* `Bytes.slice`, `Bytes.blit` — read and overwrite a range.
* `Bytes.le` — the low bytes of a number, least significant first.

## Main results

* `Bytes.slice_blit` — a range that was overwritten reads back what was written.
* `Bytes.slice_blit_of_disjoint` — the other ranges are as before.
* `Bytes.le_inj` — **`k` little-endian bytes determine a number below `256 ^ k`.**
* `Bytes.append_inj` — a concatenation of fixed-width fields determines the fields.
-/

/-- A string of exactly `n` bytes. -/
abbrev Bytes (n : ℕ) := List.Vector UInt8 n

namespace Bytes

variable {n k : ℕ}

/-- The string that holds the byte `b` everywhere. -/
def fill (n : ℕ) (b : UInt8) : Bytes n := List.Vector.replicate n b

/-- The all-zero string. -/
def zero (n : ℕ) : Bytes n := fill n 0

/-- Whether every byte is zero. -/
def isZero (b : Bytes n) : Bool := b.toList.all (· == 0)

/-- The string of the given bytes. -/
def ofList (l : List UInt8) (h : l.length = n := by rfl) : Bytes n := ⟨l, h⟩

/-- The `len` bytes at offset `off`. -/
def slice (b : Bytes n) (off len : ℕ) (h : off + len ≤ n := by omega) : Bytes len :=
  ⟨(b.toList.drop off).take len, by
    rw [List.length_take, List.length_drop, List.Vector.toList_length]
    omega⟩

/-- The string `b` with the bytes from offset `off` on replaced by `w`. -/
def blit (b : Bytes n) (off : ℕ) (w : Bytes k) (h : off + k ≤ n := by omega) : Bytes n :=
  ⟨b.toList.take off ++ w.toList ++ b.toList.drop (off + k), by
    simp only [List.length_append, List.length_take, List.length_drop, List.Vector.toList_length]
    omega⟩

/-- The `k` low bytes of `x`, least significant first. -/
def le : (k : ℕ) → ℕ → Bytes k
  | 0, _ => List.Vector.nil
  | k + 1, x => UInt8.ofNat x ::ᵥ le k (x / 256)

/-- A string of zeros is the all-zero string. -/
theorem eq_zero_of_isZero {b : Bytes n} (h : b.isZero = true) : b = zero n := by
  apply List.Vector.eq
  refine List.eq_replicate_iff.mpr ⟨b.toList_length, fun x hx => ?_⟩
  exact eq_of_beq (List.all_eq_true.mp h x hx)

@[simp] theorem toList_ofList (l : List UInt8) (h : l.length = n) : (ofList l h).toList = l := rfl

/-- A range that was overwritten reads back what was written. -/
theorem slice_blit (b : Bytes n) (off : ℕ) (w : Bytes k) (h : off + k ≤ n) :
    (b.blit off w h).slice off k h = w := by
  apply List.Vector.eq
  have ht : (b.toList.take off).length = off := by
    rw [List.length_take, List.Vector.toList_length]
    omega
  have hw : w.toList.length = k := w.toList_length
  simp only [slice, blit, List.Vector.toList_mk, List.append_assoc]
  rw [List.drop_append_of_le_length (le_of_eq ht.symm), List.drop_eq_nil_of_le (le_of_eq ht),
    List.nil_append, List.take_append_of_le_length (le_of_eq hw.symm)]
  exact List.take_of_length_le (le_of_eq hw)

/-- A range apart from the one that was overwritten reads what it read before. -/
theorem slice_blit_of_disjoint (b : Bytes n) {off off' len : ℕ} (w : Bytes k) (h : off + k ≤ n)
    (h' : off' + len ≤ n) (hd : off' + len ≤ off ∨ off + k ≤ off') :
    (b.blit off w h).slice off' len h' = b.slice off' len h' := by
  apply List.Vector.eq
  have hb : b.toList.length = n := b.toList_length
  have hw : w.toList.length = k := w.toList_length
  have ht : (b.toList.take off).length = off := by
    rw [List.length_take, hb]
    omega
  simp only [slice, blit, List.Vector.toList_mk]
  rcases hd with hd | hd
  · rw [List.append_assoc, List.drop_append_of_le_length (by omega),
      List.take_append_of_le_length (by rw [List.length_drop, ht]; omega), List.drop_take,
      List.take_take, min_eq_left (by omega)]
  · have htw : (b.toList.take off ++ w.toList).length = off + k := by
      rw [List.length_append, ht, hw]
    rw [List.drop_append, List.drop_eq_nil_of_le (by omega), List.nil_append, List.drop_drop, htw]
    congr 2
    omega

/-- Little-endian bytes determine the number up to the width they keep. -/
theorem le_mod : ∀ {k x y : ℕ}, le k x = le k y → x % 256 ^ k = y % 256 ^ k
  | 0, x, y, _ => by simp [Nat.mod_one]
  | k + 1, x, y, h => by
    have hb : UInt8.ofNat x = UInt8.ofNat y := by simpa [le] using congrArg List.Vector.head h
    have hr : le k (x / 256) = le k (y / 256) := by
      simpa [le] using congrArg List.Vector.tail h
    have hb' : x % 256 = y % 256 := by simpa using congrArg UInt8.toNat hb
    have hr' := le_mod hr
    rw [pow_succ', Nat.mod_mul, Nat.mod_mul, hb', hr']

/-- **Little-endian bytes determine every number that fits.** -/
theorem le_inj {x y : ℕ} (hx : x < 256 ^ k) (hy : y < 256 ^ k) (h : le k x = le k y) : x = y := by
  have := le_mod h
  rwa [Nat.mod_eq_of_lt hx, Nat.mod_eq_of_lt hy] at this

/-- A concatenation of fixed-width fields determines the fields. -/
theorem append_inj {a a' : Bytes n} {b b' : Bytes k} (h : a ++ b = a' ++ b') :
    a = a' ∧ b = b' := by
  have hl : a.toList ++ b.toList = a'.toList ++ b'.toList := by
    rw [← List.Vector.toList_append, ← List.Vector.toList_append, h]
  obtain ⟨h₁, h₂⟩ := List.append_inj hl (by rw [a.toList_length, a'.toList_length])
  exact ⟨List.Vector.eq _ _ h₁, List.Vector.eq _ _ h₂⟩

end Bytes

/-! ### Deciding -/

/-- What all members of a list meet is decided member by member, although there are only finitely
many strings of each length to try. -/
instance (priority := high) decidableForallMemList {α : Type*} {p : α → Prop} [DecidablePred p]
    (l : List α) : Decidable (∀ x ∈ l, p x) := List.decidableBAll p l

/-- What the value of an option meets is decided by looking at it. -/
instance (priority := high) decidableForallMemOption {α : Type*} {p : α → Prop} [DecidablePred p]
    (o : Option α) : Decidable (∀ x ∈ o, p x) := o.decidableForallMem
