import LatticeMesh.Lib.Bytes
import Mathlib.Tactic.Ring
import Mathlib.Tactic.Linarith

/-!
# Protocol-buffer streams

Messages as lists of tagged fields: base-128 integers, byte strings behind their length, a bounded
output stream that a field either fits or fails on, and an input stream that is read field by field
until it is empty.  Every operation of the two streams is described by the bytes it is about, so
that a whole message is described by the concatenation of its fields.

## Main definitions

* `varint`, `decodeVarint`, `decodeVarint32` — base-128 integers and the two ways to read them.
* `zigzag`, `unzigzag` — signed integers as unsigned ones.
* `Ostream`, `Writes` — the bounded output stream, and what an encoder puts on it.
* `Reader`, `Reads` — a decoder that never gives bytes back, and what it takes from its input.
* `decodeFields`, `Restores` — the loop over the fields, and what a run of bytes does to the result.

## Main results

* `length_varint_le` — the size of an integer below `128 ^ k`.
* `reads_decodeVarint` — **reading an integer that was written gives it back.**
* `Writes.bind`, `Reads.bind`, `Restores.append` — encoders, decoders and fields compose.
-/

universe u

namespace Protobuf

/-! ### Base-128 integers -/

/-- The base-128 digits of `n`, least significant first, in at most `room + 1` bytes; every byte
but the last has its top bit set. -/
def varintIn : (room n : ℕ) → List UInt8
  | 0, n => [UInt8.ofNat n]
  | room + 1, n =>
    if n < 128 then [UInt8.ofNat n] else UInt8.ofNat (n % 128 + 128) :: varintIn room (n / 128)

/-- The encoding of a 64-bit integer, at most ten bytes long. -/
def varint (n : ℕ) : List UInt8 := varintIn 9 n

theorem varint_of_lt {n : ℕ} (h : n < 128) : varint n = [UInt8.ofNat n] := if_pos h

theorem length_varintIn_le : ∀ {k room n : ℕ}, n < 128 ^ (k + 1) → (varintIn room n).length ≤ k + 1
  | k, 0, n, _ => by
    simp only [varintIn, List.length_singleton]
    omega
  | k, room + 1, n, h => by
    rw [varintIn]
    split
    · simp only [List.length_singleton]
      omega
    · next hn =>
      cases k with
      | zero => exact absurd (by simpa using h) hn
      | succ k =>
        have hd : n / 128 < 128 ^ (k + 1) := Nat.div_lt_of_lt_mul (by rw [← pow_succ']; exact h)
        have hlen : (varintIn room (n / 128)).length ≤ k + 1 := length_varintIn_le hd
        simpa using hlen

/-- **An integer below `128 ^ k` takes at most `k` bytes.** -/
theorem length_varint_le {k n : ℕ} (h : n < 128 ^ (k + 1)) : (varint n).length ≤ k + 1 :=
  length_varintIn_le h

/-- Signed integers as unsigned ones, the sign in the lowest bit. -/
def zigzag (v : ℤ) : ℕ := if v < 0 then (-(2 * v) - 1).toNat else (2 * v).toNat

/-- The integer of its zigzag form. -/
def unzigzag (n : ℕ) : ℤ := if n % 2 = 1 then -((n / 2 : ℕ) : ℤ) - 1 else (n / 2 : ℕ)

theorem unzigzag_zigzag (v : ℤ) : unzigzag (zigzag v) = v := by
  unfold unzigzag zigzag
  split_ifs <;> omega

theorem zigzag_lt {v : ℤ} {b : ℕ} (hl : -(b : ℤ) ≤ v) (hu : v < b) : zigzag v < 2 * b := by
  unfold zigzag
  split_ifs <;> omega

/-! ### The output stream -/

/-- An output stream into a buffer of `maxSize` bytes: what was written so far fits. -/
structure Ostream where
  maxSize : ℕ
  bytes : List UInt8
  fits : bytes.length ≤ maxSize

namespace Ostream

/-- The stream into an empty buffer. -/
def ofBuffer (maxSize : ℕ) : Ostream := ⟨maxSize, [], Nat.zero_le maxSize⟩

/-- Write a string of bytes, if the buffer has the space. -/
def write (s : Ostream) (buf : List UInt8) : Option Ostream :=
  if h : s.bytes.length + buf.length ≤ s.maxSize then
    some ⟨s.maxSize, s.bytes ++ buf, le_of_eq_of_le List.length_append h⟩
  else none

/-- Write an integer. -/
def encodeVarint (s : Ostream) (n : ℕ) : Option Ostream := s.write (varint n)

/-- Write a field number and a wire type. -/
def encodeTag (s : Ostream) (wireType tag : ℕ) : Option Ostream :=
  s.encodeVarint (8 * tag + wireType)

/-- Write a string of bytes behind its length. -/
def encodeString (s : Ostream) (buf : List UInt8) : Option Ostream :=
  (s.encodeVarint buf.length).bind fun s => s.write buf

theorem write_nil (s : Ostream) : s.write [] = some s := by
  obtain ⟨n, bs, h⟩ := s
  simp [write, h]

/-- Two writes are one write of both strings. -/
theorem write_bind_write (s : Ostream) (a b : List UInt8) :
    ((s.write a).bind fun s => s.write b) = s.write (a ++ b) := by
  unfold write
  by_cases ha : s.bytes.length + a.length ≤ s.maxSize
  · simp only [dif_pos ha, Option.bind_some, List.length_append, Nat.add_assoc, List.append_assoc]
  · have hab : ¬ s.bytes.length + (a ++ b).length ≤ s.maxSize := by
      rw [List.length_append]
      omega
    rw [dif_neg ha, dif_neg hab, Option.bind_none]

/-- What ends up in the buffer, when one write fills it. -/
theorem map_bytes_write_ofBuffer (n : ℕ) (buf : List UInt8) :
    ((ofBuffer n).write buf).map bytes = if buf.length ≤ n then some buf else none := by
  by_cases h : buf.length ≤ n <;> simp [write, ofBuffer, h]

end Ostream

/-- An encoder puts the given bytes on the stream, or fails when they do not fit. -/
def Writes (f : Ostream → Option Ostream) (bs : List UInt8) : Prop := ∀ s, f s = s.write bs

namespace Writes

variable {f g : Ostream → Option Ostream} {a b : List UInt8}

/-- An encoder that leaves its field out. -/
theorem skip : Writes some [] := fun s => s.write_nil.symm

theorem write (buf : List UInt8) : Writes (fun s => s.write buf) buf := fun _ => rfl

/-- **Encoders one after the other put their bytes one after the other.** -/
theorem bind (hf : Writes f a) (hg : Writes g b) : Writes (fun s => (f s).bind g) (a ++ b) := by
  intro s
  show (f s).bind g = s.write (a ++ b)
  rw [← s.write_bind_write a b, hf s]
  exact congrArg _ (funext hg)

theorem ite {c : Prop} [Decidable c] (hf : Writes f a) (hg : Writes g b) :
    Writes (fun s => if c then f s else g s) (if c then a else b) := by
  intro s
  by_cases h : c
  · simp only [if_pos h]
    exact hf s
  · simp only [if_neg h]
    exact hg s

theorem encodeTag (wireType tag : ℕ) :
    Writes (fun s => s.encodeTag wireType tag) (varint (8 * tag + wireType)) := fun _ => rfl

theorem encodeVarint (n : ℕ) : Writes (fun s => s.encodeVarint n) (varint n) := fun _ => rfl

theorem encodeString (buf : List UInt8) :
    Writes (fun s => s.encodeString buf) (varint buf.length ++ buf) :=
  (encodeVarint buf.length).bind (write buf)

end Writes

/-! ### The input stream -/

/-- A decoder: it fails, or returns a value and what is left of the input. -/
structure Reader (α : Type u) where
  run : List UInt8 → Option (α × List UInt8)
  length_le : ∀ {bs a rest}, run bs = some (a, rest) → rest.length ≤ bs.length

namespace Reader

variable {α β : Type u}

/-- Read nothing. -/
def ret (a : α) : Reader α where
  run bs := some (a, bs)
  length_le h := by
    cases h
    exact le_rfl

/-- Fail. -/
def fail : Reader α := ⟨fun _ => none, fun h => nomatch h⟩

/-- Read with one decoder, then with the one that the value chooses. -/
def bind (p : Reader α) (q : α → Reader β) : Reader β where
  run bs := (p.run bs).bind fun x => (q x.1).run x.2
  length_le h := by
    obtain ⟨⟨a, bs'⟩, hp, hq⟩ := Option.bind_eq_some_iff.mp h
    exact ((q a).length_le hq).trans (p.length_le hp)

instance : Monad Reader where
  pure := ret
  bind := bind

/-- Read `n` bytes. -/
def bytes (n : ℕ) : Reader (Bytes n) where
  run bs := if h : n ≤ bs.length then
      some (⟨bs.take n, List.length_take_of_le h⟩, bs.drop n)
    else none
  length_le {bs a rest} h := by
    split at h
    · cases h
      rw [List.length_drop]
      exact Nat.sub_le _ _
    · exact nomatch h

end Reader

/-- A decoder takes the given bytes from the front of its input, whatever follows, and returns the
given value. -/
def Reads {α : Type u} (p : Reader α) (bs : List UInt8) (a : α) : Prop :=
  ∀ rest, p.run (bs ++ rest) = some (a, rest)

namespace Reads

variable {α β : Type u} {p : Reader α} {q : α → Reader β} {a : α} {b : β} {bs cs : List UInt8}

theorem ret (a : α) : Reads (pure a) [] a := fun _ => rfl

/-- **Decoders one after the other take their bytes one after the other.** -/
theorem bind (hp : Reads p bs a) (hq : Reads (q a) cs b) : Reads (p >>= q) (bs ++ cs) b := by
  intro rest
  show (p.run (bs ++ cs ++ rest)).bind (fun x => (q x.1).run x.2) = some (b, rest)
  rw [List.append_assoc, hp (cs ++ rest), Option.bind_some]
  exact hq rest

/-- The value is passed through a function. -/
theorem map (hp : Reads p bs a) (f : α → β) : Reads (p >>= fun x => pure (f x)) bs (f a) := by
  have := hp.bind (q := fun x => pure (f x)) (ret (f a))
  rwa [List.append_nil] at this

theorem bytes {n : ℕ} (b : Bytes n) : Reads (Reader.bytes n) b.toList b := by
  intro rest
  have hl : n ≤ (b.toList ++ rest).length := by
    rw [List.length_append, b.toList_length]
    exact Nat.le_add_right n _
  show (if h : n ≤ (b.toList ++ rest).length then _ else _) = _
  rw [dif_pos hl]
  congr 2
  · apply List.Vector.eq
    exact List.take_left' b.toList_length
  · exact List.drop_left' b.toList_length

end Reads

/-! ### Reading integers -/

/-- Read a 64-bit integer whose bits below `bitpos` are in `result` already.  The tenth byte, which
begins at bit 63, may hold that bit only. -/
def decodeVarintFrom : (bitpos result : ℕ) → List UInt8 → Option (ℕ × List UInt8)
  | _, _, [] => none
  | bitpos, result, byte :: bs =>
    if 63 ≤ bitpos ∧ byte &&& 0xFE ≠ 0 then none
    else if byte &&& 0x80 = 0 then some (result ||| (byte &&& 0x7F).toNat <<< bitpos, bs)
    else decodeVarintFrom (bitpos + 7) (result ||| (byte &&& 0x7F).toNat <<< bitpos) bs

/-- Read a 32-bit integer whose bits below `bitpos` are in `result` already.  Bytes past the width
may only repeat zeros, or the sign of a negative integer that was written with 64 bits. -/
def decodeVarint32From : (bitpos result : ℕ) → List UInt8 → Option (ℕ × List UInt8)
  | _, _, [] => none
  | bitpos, result, byte :: bs =>
    if 32 ≤ bitpos then
      if 64 ≤ bitpos ∨ ¬ (byte &&& 0x7F = 0 ∨
          (result >>> 31 ≠ 0 ∧ byte = if bitpos < 63 then 0xFF else 0x01)) then none
      else if byte &&& 0x80 = 0 then some (result, bs)
      else decodeVarint32From (bitpos + 7) result bs
    else if bitpos = 28 then
      if byte &&& 0x70 ≠ 0 ∧ byte &&& 0x78 ≠ 0x78 then none
      else if byte &&& 0x80 = 0 then some (result ||| (byte &&& 0x0F).toNat <<< bitpos, bs)
      else decodeVarint32From (bitpos + 7) (result ||| (byte &&& 0x0F).toNat <<< bitpos) bs
    else if byte &&& 0x80 = 0 then some (result ||| (byte &&& 0x7F).toNat <<< bitpos, bs)
    else decodeVarint32From (bitpos + 7) (result ||| (byte &&& 0x7F).toNat <<< bitpos) bs

theorem length_lt_of_decodeVarintFrom :
    ∀ {bs : List UInt8} {bitpos result n : ℕ} {rest : List UInt8},
      decodeVarintFrom bitpos result bs = some (n, rest) → rest.length < bs.length
  | [], _, _, _, _, h => nomatch h
  | byte :: bs, bitpos, result, n, rest, h => by
    rw [decodeVarintFrom] at h
    split_ifs at h
    · cases h
      exact Nat.lt_succ_self _
    · exact (length_lt_of_decodeVarintFrom h).trans (Nat.lt_succ_self _)

theorem length_lt_of_decodeVarint32From :
    ∀ {bs : List UInt8} {bitpos result n : ℕ} {rest : List UInt8},
      decodeVarint32From bitpos result bs = some (n, rest) → rest.length < bs.length
  | [], _, _, _, _, h => nomatch h
  | byte :: bs, bitpos, result, n, rest, h => by
    rw [decodeVarint32From] at h
    split_ifs at h
    all_goals first
      | exact (length_lt_of_decodeVarint32From h).trans (Nat.lt_succ_self _)
      | cases h; exact Nat.lt_succ_self _

/-- Read a 64-bit integer. -/
def decodeVarint : Reader ℕ := ⟨decodeVarintFrom 0 0, fun h => (length_lt_of_decodeVarintFrom h).le⟩

/-- Read a 32-bit integer. -/
def decodeVarint32 : Reader ℕ :=
  ⟨decodeVarint32From 0 0, fun h => (length_lt_of_decodeVarint32From h).le⟩

/-- A last digit, and a digit that is not the last. -/
theorem digit_bits : ∀ d : Fin 128,
    (UInt8.ofNat d &&& 0x80 = 0 ∧ (UInt8.ofNat d &&& 0x7F).toNat = d) ∧
      UInt8.ofNat (d + 128) &&& 0x80 ≠ 0 ∧ (UInt8.ofNat (d + 128) &&& 0x7F).toNat = d := by
  decide +kernel

/-- The bits of a digit are free in what was read before it. -/
theorem or_digit {result bitpos : ℕ} (h : result < 2 ^ bitpos) (d : ℕ) :
    result ||| d <<< bitpos = result + d * 2 ^ bitpos := by
  rw [Nat.or_comm, ← Nat.shiftLeft_add_eq_or_of_lt h, Nat.shiftLeft_eq, Nat.add_comm]

/-- The digits of an integer are added to what was read before them. -/
theorem decodeVarintFrom_varintIn (rest : List UInt8) :
    ∀ {room bitpos result n : ℕ}, result < 2 ^ bitpos → bitpos + 7 * room = 63 →
      n < 2 ^ (64 - bitpos) → decodeVarintFrom bitpos result (varintIn room n ++ rest)
        = some (result + n * 2 ^ bitpos, rest)
  | 0, bitpos, result, n, hr, hb, hn => by
    -- The tenth byte: one bit is left.
    obtain rfl : bitpos = 63 := by omega
    rw [varintIn, List.singleton_append, decodeVarintFrom, ← or_digit hr]
    obtain rfl | rfl : n = 0 ∨ n = 1 := by omega
    · rfl
    · rfl
  | room + 1, bitpos, result, n, hr, hb, hn => by
    have hlow : ¬ 63 ≤ bitpos := by omega
    rw [varintIn]
    split
    · next h =>
      obtain ⟨⟨htop, hbits⟩, -⟩ := digit_bits ⟨n, h⟩
      rw [List.singleton_append, decodeVarintFrom, if_neg fun hc => hlow hc.1, if_pos htop, hbits,
        or_digit hr]
    · have hd : n % 128 < 128 := Nat.mod_lt _ (by decide)
      obtain ⟨-, htop, hbits⟩ := digit_bits ⟨n % 128, hd⟩
      have hr' : result + n % 128 * 2 ^ bitpos < 2 ^ (bitpos + 7) := by
        rw [pow_add]
        nlinarith only [hr, hd, Nat.le_of_lt_succ hd]
      have hn' : n / 128 < 2 ^ (64 - (bitpos + 7)) := by
        refine Nat.div_lt_of_lt_mul ?_
        rw [show (128 : ℕ) = 2 ^ 7 from rfl, ← pow_add]
        exact lt_of_lt_of_eq hn (congrArg _ (by omega))
      rw [List.cons_append, decodeVarintFrom, if_neg fun hc => hlow hc.1, if_neg htop, hbits,
        or_digit hr, decodeVarintFrom_varintIn rest hr' (by omega) hn']
      congr 2
      calc result + n % 128 * 2 ^ bitpos + n / 128 * 2 ^ (bitpos + 7)
          = result + (n % 128 + 128 * (n / 128)) * 2 ^ bitpos := by ring
        _ = result + n * 2 ^ bitpos := by rw [Nat.mod_add_div]

/-- **Reading an integer that was written gives it back.** -/
theorem reads_decodeVarint {n : ℕ} (h : n < 2 ^ 64) : Reads decodeVarint (varint n) n := by
  intro rest
  show decodeVarintFrom 0 0 (varintIn 9 n ++ rest) = some (n, rest)
  rw [decodeVarintFrom_varintIn rest (by decide) rfl h]
  simp

/-- An integer of one byte is read back by the 32-bit reader too. -/
theorem reads_decodeVarint32 {n : ℕ} (h : n < 128) : Reads decodeVarint32 (varint n) n := by
  intro rest
  obtain ⟨⟨htop, hbits⟩, -⟩ := digit_bits ⟨n, h⟩
  show decodeVarint32From 0 0 (varint n ++ rest) = some (n, rest)
  rw [varint_of_lt h, List.singleton_append, decodeVarint32From, if_neg (by decide),
    if_neg (by decide), if_pos htop, hbits]
  simp

/-! ### Reading fields -/

/-- Read a field number and a wire type. -/
def decodeTag : Reader (ℕ × ℕ) := decodeVarint32 >>= fun t => pure (t / 8, t % 8)

theorem length_lt_of_decodeTag {bs : List UInt8} {t : ℕ × ℕ} {rest : List UInt8}
    (h : decodeTag.run bs = some (t, rest)) : rest.length < bs.length := by
  obtain ⟨⟨n, bs'⟩, hn, hr⟩ := Option.bind_eq_some_iff.mp h
  cases hr
  exact length_lt_of_decodeVarint32From hn

/-- The tag of a field with a one-byte tag is read back. -/
theorem reads_decodeTag {tag wireType : ℕ} (ht : tag < 16) (hw : wireType < 8) :
    Reads decodeTag (varint (8 * tag + wireType)) (tag, wireType) := by
  have h := (reads_decodeVarint32 (n := 8 * tag + wireType) (by omega)).map
    fun t => (t / 8, t % 8)
  rwa [show (8 * tag + wireType) / 8 = tag by omega,
    show (8 * tag + wireType) % 8 = wireType by omega] at h

/-- Pass over `n` bytes. -/
def skipBytes (n : ℕ) : Reader Unit := Reader.bytes n >>= fun _ => pure ()

/-- Drop an integer of at most `room` bytes. -/
def dropVarint : (room : ℕ) → List UInt8 → Option (Unit × List UInt8)
  | _, [] => none
  | 0, _ :: _ => none
  | room + 1, byte :: bs => if byte &&& 0x80 = 0 then some ((), bs) else dropVarint room bs

theorem length_le_of_dropVarint : ∀ {room : ℕ} {bs : List UInt8} {a : Unit} {rest : List UInt8},
    dropVarint room bs = some (a, rest) → rest.length ≤ bs.length
  | 0, [], _, _, h => nomatch h
  | _ + 1, [], _, _, h => nomatch h
  | 0, _ :: _, _, _, h => nomatch h
  | room + 1, byte :: bs, a, rest, h => by
    rw [dropVarint] at h
    split_ifs at h
    · cases h
      exact Nat.le_succ _
    · exact (length_le_of_dropVarint h).trans (Nat.le_succ _)

/-- Pass over an integer, however long. -/
def skipVarint : Reader Unit := ⟨fun bs => dropVarint bs.length bs, length_le_of_dropVarint⟩

/-- Pass over an integer that a buffer of `room` bytes holds. -/
def skipRawVarint (room : ℕ) : Reader Unit := ⟨dropVarint room, length_le_of_dropVarint⟩

/-- Pass over a string of bytes behind its length. -/
def skipString : Reader Unit := decodeVarint32 >>= skipBytes

/-- Pass over a field that the message does not have. -/
def skipField (wireType : ℕ) : Reader Unit :=
  if wireType = 0 then skipVarint
  else if wireType = 1 then skipBytes 8
  else if wireType = 2 then skipString
  else if wireType = 5 then skipBytes 4
  else Reader.fail

/-- Pass over a field whose callback reads nothing.  A scalar is copied to a buffer of ten bytes
first. -/
def skipCallback (wireType : ℕ) : Reader Unit :=
  if wireType = 2 then skipString
  else if wireType = 0 then skipRawVarint 10
  else if wireType = 1 then skipBytes 8
  else if wireType = 5 then skipBytes 4
  else Reader.fail

/-- Read the fields of a message until the input is empty.  `field` decodes one field, given its
number, its wire type and the message so far. -/
def decodeFields {σ : Type} (field : ℕ → ℕ → σ → Reader σ) (s : σ) (bs : List UInt8) : Option σ :=
  if bs = [] then some s
  else match _ht : decodeTag.run bs with
    | none => none
    | some (t, rest) =>
      if t.1 = 0 then none
      else match _hv : (field t.1 t.2 s).run rest with
        | none => none
        | some (s', rest') => decodeFields field s' rest'
termination_by bs.length
decreasing_by exact ((field t.1 t.2 s).length_le _hv).trans_lt (length_lt_of_decodeTag _ht)

/-- The bytes `bs` bring the decoded message from `s` to `s'`, whatever follows them. -/
def Restores {σ : Type} (field : ℕ → ℕ → σ → Reader σ) (bs : List UInt8) (s s' : σ) : Prop :=
  ∀ rest, decodeFields field s (bs ++ rest) = decodeFields field s' rest

namespace Restores

variable {σ : Type} {field : ℕ → ℕ → σ → Reader σ} {a b : List UInt8} {s s' s'' : σ}

/-- A field that was left out leaves its default. -/
theorem skip : Restores field [] s s := fun _ => rfl

/-- **Fields that follow each other are restored one after the other.** -/
theorem append (ha : Restores field a s s') (hb : Restores field b s' s'') :
    Restores field (a ++ b) s s'' := by
  intro rest
  rw [List.append_assoc, ha, hb]

/-- A field is restored when its tag and its value are read back. -/
theorem ofReads {tag wireType : ℕ} (h0 : tag ≠ 0) (ht : Reads decodeTag a (tag, wireType))
    (hv : Reads (field tag wireType s) b s') : Restores field (a ++ b) s s' := by
  intro rest
  have htag : decodeTag.run (a ++ b ++ rest) = some ((tag, wireType), b ++ rest) := by
    rw [List.append_assoc]
    exact ht (b ++ rest)
  have hne : a ++ b ++ rest ≠ [] := by
    intro hnil
    rw [hnil] at htag
    exact nomatch htag
  rw [decodeFields, if_neg hne]
  split
  · next hnone => rw [htag] at hnone; exact nomatch hnone
  · next t rest' hsome =>
    rw [htag] at hsome
    cases hsome
    rw [if_neg h0]
    split
    · next hnone => rw [hv rest] at hnone; exact nomatch hnone
    · next s₁ rest₁ hsome' =>
      rw [hv rest] at hsome'
      cases hsome'
      rfl

/-- The message that the whole input restores. -/
theorem decodeFields_eq (h : Restores field a s s') : decodeFields field s a = some s' := by
  have hnil : decodeFields field s' [] = some s' := by
    rw [decodeFields, if_pos rfl]
  rw [← hnil, ← h [], List.append_nil]

end Restores

/-! ### The kinds of fields -/

/-- A byte string of at most `cap` bytes, in a buffer of `cap` bytes. -/
structure BytesArray (cap : ℕ) where
  size : ℕ
  bytes : Bytes cap
  size_le : size ≤ cap

namespace BytesArray

variable {cap : ℕ}

/-- The empty string in a cleared buffer. -/
def empty (cap : ℕ) : BytesArray cap := ⟨0, Bytes.zero cap, Nat.zero_le cap⟩

/-- The string that fills the buffer. -/
def full (bytes : Bytes cap) : BytesArray cap := ⟨cap, bytes, Nat.le_refl cap⟩

/-- The bytes of the string. -/
def toList (b : BytesArray cap) : List UInt8 := b.bytes.toList.take b.size

/-- Read `n` bytes into the front of the buffer. -/
def fill (b : BytesArray cap) {n : ℕ} (s : Bytes n) (h : n ≤ cap) : BytesArray cap :=
  ⟨n, Bytes.blit b.bytes 0 s ((Nat.zero_add n).trans_le h), h⟩

@[simp] theorem toList_full (b : Bytes cap) : (full b).toList = b.toList :=
  List.take_of_length_le (le_of_eq b.toList_length)

@[simp] theorem fill_self (b : BytesArray cap) (s : Bytes cap) :
    b.fill s (Nat.le_refl cap) = full s := by
  unfold fill full
  congr 1
  apply List.Vector.eq
  show b.bytes.toList.take 0 ++ s.toList ++ b.bytes.toList.drop (0 + cap) = s.toList
  rw [List.take_zero, List.nil_append, Nat.zero_add,
    List.drop_eq_nil_of_le (le_of_eq b.bytes.toList_length), List.append_nil]

end BytesArray

/-- A singular unsigned integer; zero is left out. -/
def encUint32 (tag : ℕ) (v : UInt32) (s : Ostream) : Option Ostream :=
  if v = 0 then some s else (s.encodeTag 0 tag).bind fun s => s.encodeVarint v.toNat

/-- An optional unsigned integer. -/
def encOptUint32 (tag : ℕ) (has : Bool) (v : UInt32) (s : Ostream) : Option Ostream :=
  if has then (s.encodeTag 0 tag).bind fun s => s.encodeVarint v.toNat else some s

/-- A singular signed integer; zero is left out. -/
def encSint32 (tag : ℕ) (v : Int32) (s : Ostream) : Option Ostream :=
  if v = 0 then some s else (s.encodeTag 0 tag).bind fun s => s.encodeVarint (zigzag v.toInt)

/-- A byte string of fixed length; it is never left out. -/
def encFixedLengthBytes (tag : ℕ) {n : ℕ} (b : Bytes n) (s : Ostream) : Option Ostream :=
  (s.encodeTag 2 tag).bind fun s => s.encodeString b.toList

/-- An optional byte string. -/
def encOptBytes (tag : ℕ) (has : Bool) {cap : ℕ} (b : BytesArray cap) (s : Ostream) :
    Option Ostream :=
  if has then (s.encodeTag 2 tag).bind fun s => s.encodeString b.toList else some s

/-- Read an unsigned integer that fits. -/
def decUint32 (wireType : ℕ) : Reader UInt32 :=
  if wireType ≠ 0 then Reader.fail
  else decodeVarint >>= fun n => if n < 2 ^ 32 then pure (UInt32.ofNat n) else Reader.fail

/-- Read a signed integer that fits. -/
def decSint32 (wireType : ℕ) : Reader Int32 :=
  if wireType ≠ 0 then Reader.fail
  else decodeVarint >>= fun n =>
    if -2 ^ 31 ≤ unzigzag n ∧ unzigzag n < 2 ^ 31 then pure (Int32.ofInt (unzigzag n))
    else Reader.fail

/-- Read a byte string of fixed length; the empty string stands for zeros. -/
def decFixedLengthBytes (n wireType : ℕ) : Reader (Bytes n) :=
  if wireType ≠ 2 then Reader.fail
  else decodeVarint32 >>= fun size =>
    if size = 0 then pure (Bytes.zero n)
    else if size ≠ n then Reader.fail
    else Reader.bytes n

/-- Read a byte string into the buffer of its field. -/
def decBytes {cap : ℕ} (b : BytesArray cap) (wireType : ℕ) : Reader (BytesArray cap) :=
  if wireType ≠ 2 then Reader.fail
  else decodeVarint32 >>= fun size =>
    if h : size ≤ cap then Reader.bytes size >>= fun s => pure (b.fill s h) else Reader.fail

/-! ### What the fields are on the wire -/

/-- The bytes of an integer field. -/
def intField (tag n : ℕ) : List UInt8 := varint (8 * tag + 0) ++ varint n

/-- The bytes of a byte string field. -/
def bytesField (tag : ℕ) (b : List UInt8) : List UInt8 :=
  varint (8 * tag + 2) ++ (varint b.length ++ b)

theorem length_intField_le {tag n k : ℕ} (ht : tag < 16) (hn : n < 128 ^ (k + 1)) :
    (intField tag n).length ≤ k + 2 := by
  have := length_varint_le hn
  rw [intField, varint_of_lt (by omega), List.length_append, List.length_singleton]
  omega

theorem length_bytesField {tag : ℕ} {b : List UInt8} (ht : tag < 16) (hb : b.length < 128) :
    (bytesField tag b).length = b.length + 2 := by
  rw [bytesField, varint_of_lt (by omega), varint_of_lt hb, List.length_append, List.length_append,
    List.length_singleton, List.length_singleton]
  omega

theorem writes_intField (tag n : ℕ) :
    Writes (fun s => (s.encodeTag 0 tag).bind fun s => s.encodeVarint n) (intField tag n) :=
  (Writes.encodeTag 0 tag).bind (Writes.encodeVarint n)

theorem writes_bytesField (tag : ℕ) (b : List UInt8) :
    Writes (fun s => (s.encodeTag 2 tag).bind fun s => s.encodeString b) (bytesField tag b) :=
  (Writes.encodeTag 2 tag).bind (Writes.encodeString b)

theorem writes_encUint32 (tag : ℕ) (v : UInt32) :
    Writes (encUint32 tag v) (if v = 0 then [] else intField tag v.toNat) :=
  Writes.skip.ite (writes_intField tag v.toNat)

theorem writes_encOptUint32 (tag : ℕ) (has : Bool) (v : UInt32) :
    Writes (encOptUint32 tag has v) (if has then intField tag v.toNat else []) :=
  (writes_intField tag v.toNat).ite Writes.skip

theorem writes_encSint32 (tag : ℕ) (v : Int32) :
    Writes (encSint32 tag v) (if v = 0 then [] else intField tag (zigzag v.toInt)) :=
  Writes.skip.ite (writes_intField tag _)

theorem writes_encFixedLengthBytes (tag : ℕ) {n : ℕ} (b : Bytes n) :
    Writes (encFixedLengthBytes tag b) (bytesField tag b.toList) := writes_bytesField tag b.toList

theorem writes_encOptBytes (tag : ℕ) (has : Bool) {cap : ℕ} (b : BytesArray cap) :
    Writes (encOptBytes tag has b) (if has then bytesField tag b.toList else []) :=
  (writes_bytesField tag b.toList).ite Writes.skip

theorem zigzag_toInt_lt (v : Int32) : zigzag v.toInt < 2 ^ 32 :=
  zigzag_lt (b := 2 ^ 31) v.le_toInt v.toInt_lt

/-- An unsigned integer is read back. -/
theorem reads_decUint32 (v : UInt32) : Reads (decUint32 0) (varint v.toNat) v := by
  have hv : v.toNat < 2 ^ 32 := v.toNat_lt
  rw [← List.append_nil (varint v.toNat)]
  refine (reads_decodeVarint (hv.trans (by decide))).bind ?_
  rw [if_pos hv, UInt32.ofNat_toNat]
  exact Reads.ret v

/-- A signed integer is read back. -/
theorem reads_decSint32 (v : Int32) : Reads (decSint32 0) (varint (zigzag v.toInt)) v := by
  rw [← List.append_nil (varint _)]
  refine (reads_decodeVarint ((zigzag_toInt_lt v).trans (by decide))).bind ?_
  rw [unzigzag_zigzag, if_pos ⟨v.le_toInt, v.toInt_lt⟩, Int32.ofInt_toInt]
  exact Reads.ret v

/-- A byte string of fixed length is read back. -/
theorem reads_decFixedLengthBytes {n : ℕ} (h0 : n ≠ 0) (hn : n < 128) (b : Bytes n) :
    Reads (decFixedLengthBytes n 2) (varint b.toList.length ++ b.toList) b := by
  rw [b.toList_length]
  refine (reads_decodeVarint32 hn).bind ?_
  rw [if_neg h0, if_neg (not_not.mpr rfl)]
  exact Reads.bytes b

/-- A byte string that fills its buffer is read back. -/
theorem reads_decBytes {cap : ℕ} (hc : cap < 128) (old : BytesArray cap) (b : Bytes cap) :
    Reads (decBytes old 2) (varint b.toList.length ++ b.toList) (BytesArray.full b) := by
  rw [b.toList_length]
  refine (reads_decodeVarint32 hc).bind ?_
  rw [dif_pos (Nat.le_refl cap)]
  have h := (Reads.bytes b).map fun s => old.fill s (Nat.le_refl cap)
  rwa [old.fill_self] at h

namespace Restores

variable {σ α : Type} {field : ℕ → ℕ → σ → Reader σ} {s : σ} {tag : ℕ} {set : α → σ}

/-- A field that is decoded into the message by `set` is restored, when its value is read back. -/
theorem ofField {dec : Reader α} {a : α} {value : List UInt8} {wireType : ℕ} (h0 : tag ≠ 0)
    (ht : tag < 16) (hw : wireType < 8) (hv : Reads dec value a)
    (hf : field tag wireType s = dec >>= fun a => pure (set a)) :
    Restores field (varint (8 * tag + wireType) ++ value) s (set a) := by
  refine ofReads h0 (reads_decodeTag ht hw) ?_
  rw [hf]
  exact hv.map set

/-- A field that is left out at its default `d` is restored. -/
theorem orDefault {a d : α} [DecidableEq α] {bs : List UInt8} (hd : set d = s)
    (h : Restores field bs s (set a)) : Restores field (if a = d then [] else bs) s (set a) := by
  by_cases had : a = d
  · rw [if_pos had, had, hd]
    exact skip
  · rw [if_neg had]
    exact h

/-- A singular unsigned integer is restored, from the default zero. -/
theorem uint32 (tag : ℕ) (set : UInt32 → σ) (v : UInt32) (h0 : tag ≠ 0) (ht : tag < 16)
    (hf : field tag 0 s = decUint32 0 >>= fun v => pure (set v)) (hd : set 0 = s) :
    Restores field (if v = 0 then [] else intField tag v.toNat) s (set v) :=
  orDefault hd (ofField h0 ht (by decide) (reads_decUint32 v) hf)

/-- A singular signed integer is restored, from the default zero. -/
theorem sint32 (tag : ℕ) (set : Int32 → σ) (v : Int32) (h0 : tag ≠ 0) (ht : tag < 16)
    (hf : field tag 0 s = decSint32 0 >>= fun v => pure (set v)) (hd : set 0 = s) :
    Restores field (if v = 0 then [] else intField tag (zigzag v.toInt)) s (set v) :=
  orDefault hd (ofField h0 ht (by decide) (reads_decSint32 v) hf)

/-- A byte string of fixed length is restored. -/
theorem fixedLengthBytes {n : ℕ} (tag : ℕ) (set : Bytes n → σ) (b : Bytes n) (h0 : tag ≠ 0)
    (ht : tag < 16) (hn0 : n ≠ 0) (hn : n < 128)
    (hf : field tag 2 s = decFixedLengthBytes n 2 >>= fun v => pure (set v)) :
    Restores field (bytesField tag b.toList) s (set b) :=
  ofField h0 ht (by decide) (reads_decFixedLengthBytes hn0 hn b) hf

/-- A byte string that fills its buffer is restored. -/
theorem bytes {cap : ℕ} (tag : ℕ) (set : BytesArray cap → σ) {old : BytesArray cap}
    (b : Bytes cap) (h0 : tag ≠ 0) (ht : tag < 16) (hc : cap < 128)
    (hf : field tag 2 s = decBytes old 2 >>= fun v => pure (set v)) :
    Restores field (bytesField tag b.toList) s (set (BytesArray.full b)) :=
  ofField h0 ht (by decide) (reads_decBytes hc old b) hf

end Restores

end Protobuf
