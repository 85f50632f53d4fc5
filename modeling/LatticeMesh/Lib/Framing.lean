import Mathlib.Data.List.Basic

/-!
# Length-prefixed payloads in a byte stream

A stream of payloads, each behind its length in two bytes, low byte first.  A length that no
payload may have is passed over with nothing behind it, so that the parser finds its place again.

## Main definitions

* `payloads` — the payloads of a stream.
* `frame` — a payload behind its length.

## Main results

* `payloads_frames` — **the payloads of a stream of frames are the ones that were framed.**
-/

namespace Framing

/-- The length in two bytes, low byte first. -/
def lengthOf (lo hi : UInt8) : ℕ := lo.toNat + 256 * hi.toNat

/-- The payloads of a stream, none longer than `max`.  The end of the stream cuts the last one
off. -/
def payloads (max : ℕ) : List UInt8 → List (List UInt8)
  | lo :: hi :: bs =>
    if 1 ≤ lengthOf lo hi ∧ lengthOf lo hi ≤ max then
      if lengthOf lo hi ≤ bs.length then
        bs.take (lengthOf lo hi) :: payloads max (bs.drop (lengthOf lo hi))
      else []
    else payloads max bs
  | _ => []
termination_by bs => bs.length
decreasing_by
  · rw [List.length_drop, List.length_cons, List.length_cons]
    omega
  · rw [List.length_cons, List.length_cons]
    omega

variable {max : ℕ} {lo hi : UInt8} {p bs : List UInt8}

theorem payloads_nil : payloads max [] = [] := by rw [payloads]; simp

theorem payloads_singleton (b : UInt8) : payloads max [b] = [] := by rw [payloads]; simp

/-- A length that is out of range is passed over. -/
theorem payloads_invalid (h : ¬ (1 ≤ lengthOf lo hi ∧ lengthOf lo hi ≤ max)) :
    payloads max (lo :: hi :: bs) = payloads max bs := by
  rw [payloads, if_neg h]

/-- A payload that is not there whole is not a payload. -/
theorem payloads_short (h : 1 ≤ lengthOf lo hi ∧ lengthOf lo hi ≤ max)
    (hp : bs.length < lengthOf lo hi) : payloads max (lo :: hi :: bs) = [] := by
  rw [payloads, if_pos h, if_neg (Nat.not_le_of_lt hp)]

/-- A payload behind its length comes first. -/
theorem payloads_append (h : 1 ≤ lengthOf lo hi ∧ lengthOf lo hi ≤ max)
    (hp : p.length = lengthOf lo hi) :
    payloads max (lo :: hi :: (p ++ bs)) = p :: payloads max bs := by
  have hle : lengthOf lo hi ≤ (p ++ bs).length := by
    rw [List.length_append, hp]
    exact Nat.le_add_right _ _
  rw [payloads, if_pos h, if_pos hle, List.take_left' hp, List.drop_left' hp]

/-- A payload behind its length. -/
def frame (p : List UInt8) : List UInt8 :=
  UInt8.ofNat (p.length % 256) :: UInt8.ofNat (p.length / 256 % 256) :: p

theorem lengthOf_ofNat {n : ℕ} (h : n < 65536) :
    lengthOf (UInt8.ofNat (n % 256)) (UInt8.ofNat (n / 256 % 256)) = n := by
  simp only [lengthOf, UInt8.toNat_ofNat']
  omega

/-- **The payloads of a stream of frames are the ones that were framed.** -/
theorem payloads_frames (hmax : max < 65536) :
    ∀ ps : List (List UInt8), (∀ p ∈ ps, 1 ≤ p.length ∧ p.length ≤ max) →
      payloads max (ps.map frame).flatten = ps
  | [], _ => payloads_nil
  | p :: ps, h => by
    have hp := h p List.mem_cons_self
    have hlen := lengthOf_ofNat (Nat.lt_of_le_of_lt hp.2 hmax)
    rw [List.map_cons, List.flatten_cons, frame, List.cons_append, List.cons_append,
      payloads_append (by rwa [hlen]) hlen.symm,
      payloads_frames hmax ps fun q hq => h q (List.mem_cons_of_mem p hq)]

end Framing
