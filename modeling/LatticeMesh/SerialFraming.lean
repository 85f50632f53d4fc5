import LatticeMesh.Lib.Framing
import LatticeMesh.SerialMessage

/-!
# The framing of the serial line

The gateway finds the payloads in the bytes of the serial line with a machine of three states and
two registers, one byte at a time, in chunks of whatever the line has ready.  `Framing.payloads`
says which payloads a stream has; a state of the machine stands for the bytes of the payload that
it is in the middle of.

## Main definitions

* `SerialFraming`, `SerialFraming.injectByte` — the machine and its step.
* `SerialFraming.inject`, `SerialAdapter.loop` — the step over the bytes of a chunk, and over the
  chunks.
* `SerialFraming.WellFormed`, `SerialFraming.pending` — the invariant, and the bytes of the
  unfinished payload.

## Main results

* `SerialFraming.injectByte_spec` — one step: what it reports, and what it leaves pending.
* `SerialAdapter.loop_eq_payloads` — **the machine reports the payloads of the stream.**
* `SerialAdapter.serial_framing` — **frames that are sent over the line arrive as they were sent.**
-/

namespace LatticeMesh

open Protobuf

/-! ### The machine -/

/-- What the machine waits for. -/
inductive FrameState
  | awaitingLen1 | awaitingLen2 | awaitingPayload
  deriving DecidableEq, Repr

/-- The longest payload. -/
def maxPayload : ℕ := 256

/-- The framing machine. -/
structure SerialFraming where
  frameState : FrameState := .awaitingLen1
  frameLength : UInt16 := 0
  frameIndex : ℕ := 0
  payloadBuffer : Bytes maxPayload := Bytes.zero maxPayload

/-- What one byte leads to: nothing yet, a payload, or an error of the communication class with the
given digit. -/
inductive FrameEvent
  | more | complete | failed (digit : UInt8)
  deriving DecidableEq, Repr

theorem FrameEvent.more_ne_complete : FrameEvent.more ≠ .complete := by decide

theorem FrameEvent.failed_ne_complete (digit : UInt8) : FrameEvent.failed digit ≠ .complete :=
  FrameEvent.noConfusion

namespace SerialFraming

/-- The payload in the buffer. -/
def frameBuffer (f : SerialFraming) : List UInt8 := f.payloadBuffer.toList.take f.frameIndex

/-- The machine after an error. -/
def reset (f : SerialFraming) : SerialFraming :=
  { f with frameState := .awaitingLen1, frameLength := 0, frameIndex := 0 }

/-- Feed one byte into the machine. -/
def injectByte (f : SerialFraming) (byteIn : UInt8) : FrameEvent × SerialFraming :=
  match f.frameState with
  | .awaitingLen1 =>
    (.more, { f with
      frameIndex := 0, frameLength := byteIn.toUInt16, frameState := .awaitingLen2 })
  | .awaitingLen2 =>
    let frameLength := f.frameLength ||| byteIn.toUInt16 <<< 8
    if frameLength = 0 ∨ maxPayload < frameLength.toNat then (.failed 2, f.reset)
    else (.more, { f with
      frameLength := frameLength, frameIndex := 0, frameState := .awaitingPayload })
  | .awaitingPayload =>
    if h : f.frameIndex < maxPayload then
      let f := { f with
        payloadBuffer := f.payloadBuffer.set ⟨f.frameIndex, h⟩ byteIn
        frameIndex := f.frameIndex + 1 }
      if f.frameLength.toNat ≤ f.frameIndex then
        -- The index stays, so that the length of the payload can be read.
        (.complete, { f with frameState := .awaitingLen1, frameLength := 0 })
      else (.more, f)
    else (.failed 3, f.reset)

/-- Feed the bytes of a chunk; the payloads that were reported, and the machine after them. -/
def inject (f : SerialFraming) : List UInt8 → List (List UInt8) × SerialFraming
  | [] => ([], f)
  | byteIn :: bs =>
    let after := (f.injectByte byteIn).2
    let rest := after.inject bs
    (if (f.injectByte byteIn).1 = .complete then after.frameBuffer :: rest.1 else rest.1, rest.2)

end SerialFraming

/-- Read the chunks that the line has ready, one after the other. -/
def SerialAdapter.loop (f : SerialFraming) : List (List UInt8) → List (List UInt8) × SerialFraming
  | [] => ([], f)
  | rxBuf :: chunks =>
    let read := f.inject rxBuf
    let rest := SerialAdapter.loop read.2 chunks
    (read.1 ++ rest.1, rest.2)

namespace SerialFraming

/-! ### The invariant -/

/-- The registers fit the state: a first length byte, or a valid length that is not reached yet. -/
structure WellFormed (f : SerialFraming) : Prop where
  index_le : f.frameIndex ≤ maxPayload
  lenByte : f.frameState = .awaitingLen2 → f.frameLength.toNat < 256
  length_le : f.frameState = .awaitingPayload → f.frameLength.toNat ≤ maxPayload
  index_lt : f.frameState = .awaitingPayload → f.frameIndex < f.frameLength.toNat

/-- The bytes of the payload that the machine is in the middle of, its length in front. -/
def pending (f : SerialFraming) : List UInt8 :=
  match f.frameState with
  | .awaitingLen1 => []
  | .awaitingLen2 => [UInt8.ofNat f.frameLength.toNat]
  | .awaitingPayload =>
    UInt8.ofNat (f.frameLength.toNat % 256) :: UInt8.ofNat (f.frameLength.toNat / 256 % 256) ::
      f.frameBuffer

theorem wellFormed_of_len1 {f : SerialFraming} (h : f.frameState = .awaitingLen1)
    (hi : f.frameIndex ≤ maxPayload) : f.WellFormed where
  index_le := hi
  lenByte h2 := absurd (h.symm.trans h2) (by decide)
  length_le hp := absurd (h.symm.trans hp) (by decide)
  index_lt hp := absurd (h.symm.trans hp) (by decide)

theorem wellFormed_of_len2 {f : SerialFraming} (h : f.frameState = .awaitingLen2)
    (hi : f.frameIndex ≤ maxPayload) (hlen : f.frameLength.toNat < 256) : f.WellFormed where
  index_le := hi
  lenByte _ := hlen
  length_le hp := absurd (h.symm.trans hp) (by decide)
  index_lt hp := absurd (h.symm.trans hp) (by decide)

theorem wellFormed_of_payload {f : SerialFraming} (h : f.frameState = .awaitingPayload)
    (hlen : f.frameLength.toNat ≤ maxPayload) (hi : f.frameIndex < f.frameLength.toNat) :
    f.WellFormed where
  index_le := hi.le.trans hlen
  lenByte h2 := absurd (h.symm.trans h2) (by decide)
  length_le _ := hlen
  index_lt _ := hi

/-- The machine as it is switched on. -/
theorem wellFormed_init : WellFormed {} := wellFormed_of_len1 rfl (Nat.zero_le _)

theorem wellFormed_reset (f : SerialFraming) : f.reset.WellFormed :=
  wellFormed_of_len1 rfl (Nat.zero_le _)

/-- The two length bytes make up the length. -/
theorem toNat_or_shift {len : UInt16} (h : len.toNat < 256) (hi : UInt8) :
    (len ||| hi.toUInt16 <<< 8).toNat = len.toNat + 256 * hi.toNat := by
  have hhi := hi.toNat_lt
  have hshift : (hi.toUInt16 <<< 8).toNat = hi.toNat <<< 8 := by
    rw [UInt16.toNat_shiftLeft, UInt8.toNat_toUInt16, Nat.shiftLeft_eq, Nat.shiftLeft_eq]
    exact Nat.mod_eq_of_lt (by show hi.toNat * 256 < 65536; omega)
  have hlen : len.toNat < 2 ^ 8 := h
  rw [UInt16.toNat_or, hshift, or_digit hlen, Nat.mul_comm hi.toNat]
  rfl

/-- The payload after a byte was stored behind it. -/
theorem take_set (buf : Bytes maxPayload) (i : Fin maxPayload) (b : UInt8) :
    (buf.set i b).toList.take (i + 1) = buf.toList.take i ++ [b] := by
  have hi : i.val < buf.toList.length := by
    rw [buf.toList_length]
    exact i.isLt
  rw [List.Vector.toList_set, List.take_set, List.take_succ_eq_append_getElem hi,
    List.set_append_right _ _ (by rw [List.length_take]; omega), List.length_take,
    min_eq_left hi.le, Nat.sub_self]
  rfl

/-- The length of a well-formed machine that waits for the payload, from its two bytes. -/
theorem lengthOf_frameLength {f : SerialFraming} (h : f.frameLength.toNat ≤ maxPayload) :
    Framing.lengthOf (UInt8.ofNat (f.frameLength.toNat % 256))
      (UInt8.ofNat (f.frameLength.toNat / 256 % 256)) = f.frameLength.toNat :=
  Framing.lengthOf_ofNat (h.trans_lt (by decide))

/-- What a step of the machine does to the stream: it keeps the invariant, and the payloads of the
pending bytes and the rest of the stream are the one it reports and those that are still to come. -/
structure Steps (f : SerialFraming) (b : UInt8) : Prop where
  wellFormed : (f.injectByte b).2.WellFormed
  payloads_eq : ∀ bs, Framing.payloads maxPayload (f.pending ++ b :: bs) =
    (if (f.injectByte b).1 = .complete then [(f.injectByte b).2.frameBuffer] else []) ++
      Framing.payloads maxPayload ((f.injectByte b).2.pending ++ bs)

/-- The first length byte is kept. -/
theorem steps_awaitingLen1 {f : SerialFraming} (h : f.frameState = .awaitingLen1) (b : UInt8) :
    f.Steps b := by
  have hstep : f.injectByte b = (.more, { f with
      frameIndex := 0, frameLength := b.toUInt16, frameState := .awaitingLen2 }) := by
    rw [injectByte, h]
  have hb : b.toUInt16.toNat = b.toNat := UInt8.toNat_toUInt16 b
  refine ⟨?_, fun bs => ?_⟩
  · rw [hstep]
    exact wellFormed_of_len2 rfl (Nat.zero_le _) (hb.trans_lt b.toNat_lt)
  · rw [hstep, if_neg FrameEvent.more_ne_complete]
    simp only [pending, h, hb, UInt8.ofNat_toNat, List.nil_append, List.singleton_append]

/-- The second length byte decides whether a payload follows. -/
theorem steps_awaitingLen2 {f : SerialFraming} (hf : f.WellFormed)
    (h : f.frameState = .awaitingLen2) (b : UInt8) : f.Steps b := by
  have hlen := toNat_or_shift (hf.lenByte h) b
  have hof : Framing.lengthOf (UInt8.ofNat f.frameLength.toNat) b
      = f.frameLength.toNat + 256 * b.toNat := by
    rw [Framing.lengthOf, UInt8.toNat_ofNat_of_lt' (hf.lenByte h)]
  have hlow := hf.lenByte h
  have hb := b.toNat_lt
  have hpending : f.pending = [UInt8.ofNat f.frameLength.toNat] := by rw [pending, h]
  by_cases hbad : f.frameLength ||| b.toUInt16 <<< 8 = 0 ∨
      maxPayload < (f.frameLength ||| b.toUInt16 <<< 8).toNat
  -- the length is zero or too large, so the machine starts over
  · have hstep : f.injectByte b = (.failed 2, f.reset) := by
      simp only [injectByte, h, if_pos hbad]
    have hinvalid : ¬ (1 ≤ f.frameLength.toNat + 256 * b.toNat ∧
        f.frameLength.toNat + 256 * b.toNat ≤ maxPayload) := by
      rcases hbad with hzero | hlong
      · have hz := congrArg UInt16.toNat hzero
        rw [hlen] at hz
        exact fun hc => absurd hc.1 (by rw [hz]; decide)
      · rw [hlen] at hlong
        exact fun hc => absurd hc.2 (Nat.not_le_of_lt hlong)
    refine ⟨?_, fun bs => ?_⟩
    · rw [hstep]
      exact wellFormed_reset f
    · rw [hstep, hpending, if_neg (FrameEvent.failed_ne_complete 2), List.singleton_append,
        Framing.payloads_invalid (by rwa [hof])]
      rfl
  -- the length is kept, and the payload is to come
  · have hstep : f.injectByte b = (.more, { f with
        frameLength := f.frameLength ||| b.toUInt16 <<< 8
        frameIndex := 0, frameState := .awaitingPayload }) := by
      simp only [injectByte, h, if_neg hbad]
    have hpos : 0 < (f.frameLength ||| b.toUInt16 <<< 8).toNat :=
      Nat.pos_of_ne_zero fun hz => hbad (.inl (UInt16.toNat_inj.mp hz))
    have hle : (f.frameLength ||| b.toUInt16 <<< 8).toNat ≤ maxPayload :=
      Nat.le_of_not_lt fun hlt => hbad (.inr hlt)
    refine ⟨?_, fun bs => ?_⟩
    · rw [hstep]
      exact wellFormed_of_payload rfl hle hpos
    · have hlo : (f.frameLength.toNat + 256 * b.toNat) % 256 = f.frameLength.toNat := by omega
      have hhi : (f.frameLength.toNat + 256 * b.toNat) / 256 % 256 = b.toNat := by omega
      rw [hstep, hpending, if_neg FrameEvent.more_ne_complete]
      simp only [pending, frameBuffer, hlen, hlo, hhi, UInt8.ofNat_toNat, List.take_zero,
        List.nil_append, List.cons_append]

/-- A byte of the payload is stored, and the last one completes it. -/
theorem steps_awaitingPayload {f : SerialFraming} (hf : f.WellFormed)
    (h : f.frameState = .awaitingPayload) (b : UInt8) : f.Steps b := by
  have hle := hf.length_le h
  have hlt := hf.index_lt h
  have hi : f.frameIndex < maxPayload := hlt.trans_le hle
  have hbuf := take_set f.payloadBuffer ⟨f.frameIndex, hi⟩ b
  have hof := lengthOf_frameLength hle
  have hvalid : 1 ≤ f.frameLength.toNat ∧ f.frameLength.toNat ≤ maxPayload :=
    ⟨(Nat.zero_le _).trans_lt hlt, hle⟩
  have hpending : ∀ bs, f.pending ++ b :: bs =
      UInt8.ofNat (f.frameLength.toNat % 256) :: UInt8.ofNat (f.frameLength.toNat / 256 % 256) ::
        (f.frameBuffer ++ [b] ++ bs) := by
    intro bs
    simp only [pending, h, List.cons_append, List.append_assoc, List.nil_append]
  by_cases hdone : f.frameLength.toNat ≤ f.frameIndex + 1
  -- the last byte of the payload
  · have hstep : f.injectByte b = (.complete, { f with
        payloadBuffer := f.payloadBuffer.set ⟨f.frameIndex, hi⟩ b
        frameIndex := f.frameIndex + 1, frameState := .awaitingLen1, frameLength := 0 }) := by
      simp only [injectByte, h, dif_pos hi, if_pos hdone]
    have hfull : (f.frameBuffer ++ [b]).length = f.frameLength.toNat := by
      rw [List.length_append, frameBuffer, List.length_take, f.payloadBuffer.toList_length,
        min_eq_left hi.le, List.length_singleton]
      omega
    refine ⟨?_, fun bs => ?_⟩
    · rw [hstep]
      exact wellFormed_of_len1 rfl hi
    · rw [hstep, if_pos rfl, hpending,
        Framing.payloads_append (by rwa [hof]) (hfull.trans hof.symm)]
      simp only [pending, frameBuffer, hbuf, List.nil_append, List.singleton_append]
  -- more bytes are to come
  · have hstep : f.injectByte b = (.more, { f with
        payloadBuffer := f.payloadBuffer.set ⟨f.frameIndex, hi⟩ b
        frameIndex := f.frameIndex + 1 }) := by
      simp only [injectByte, h, dif_pos hi, if_neg hdone]
    refine ⟨?_, fun bs => ?_⟩
    · rw [hstep]
      exact wellFormed_of_payload h hle (Nat.lt_of_not_le hdone)
    · rw [hstep, if_neg FrameEvent.more_ne_complete, hpending]
      simp only [pending, h, frameBuffer, hbuf, List.nil_append, List.cons_append]

/-- **One step of the machine.** -/
theorem injectByte_spec {f : SerialFraming} (hf : f.WellFormed) (b : UInt8) : f.Steps b := by
  cases h : f.frameState with
  | awaitingLen1 => exact steps_awaitingLen1 h b
  | awaitingLen2 => exact steps_awaitingLen2 hf h b
  | awaitingPayload => exact steps_awaitingPayload hf h b

/-- An unfinished payload is not a payload. -/
theorem payloads_pending {f : SerialFraming} (hf : f.WellFormed) :
    Framing.payloads maxPayload f.pending = [] := by
  cases h : f.frameState with
  | awaitingLen1 =>
    rw [pending, h]
    exact Framing.payloads_nil
  | awaitingLen2 =>
    rw [pending, h]
    exact Framing.payloads_singleton _
  | awaitingPayload =>
    have hlt := hf.index_lt h
    have hof := lengthOf_frameLength (hf.length_le h)
    rw [pending, h]
    refine Framing.payloads_short ?_ ?_
    · rw [hof]
      exact ⟨(Nat.zero_le _).trans_lt hlt, hf.length_le h⟩
    · rw [hof, frameBuffer, List.length_take]
      exact (Nat.min_le_left _ _).trans_lt hlt

/-- A run of the machine over a chunk, with more of the stream behind it. -/
theorem inject_spec : ∀ (bs : List UInt8) {f : SerialFraming}, f.WellFormed →
    (f.inject bs).2.WellFormed ∧ ∀ rest, Framing.payloads maxPayload (f.pending ++ (bs ++ rest)) =
      (f.inject bs).1 ++ Framing.payloads maxPayload ((f.inject bs).2.pending ++ rest)
  | [], _, hf => ⟨hf, fun _ => rfl⟩
  | b :: bs, f, hf => by
    have hstep := injectByte_spec hf b
    obtain ⟨hwf, hrun⟩ := inject_spec bs hstep.wellFormed
    refine ⟨hwf, fun rest => ?_⟩
    rw [List.cons_append, hstep.payloads_eq, hrun rest, inject]
    split_ifs <;> rfl

end SerialFraming

namespace SerialAdapter

open SerialFraming

/-- A run of the machine over the chunks that the line has ready. -/
theorem loop_spec : ∀ (chunks : List (List UInt8)) {f : SerialFraming}, f.WellFormed →
    (loop f chunks).2.WellFormed ∧
      Framing.payloads maxPayload (f.pending ++ chunks.flatten) = (loop f chunks).1
  | [], f, hf => by
    refine ⟨hf, ?_⟩
    rw [List.flatten_nil, List.append_nil]
    exact payloads_pending hf
  | rxBuf :: chunks, f, hf => by
    obtain ⟨hwf, hrun⟩ := inject_spec rxBuf hf
    obtain ⟨hwf', hrest⟩ := loop_spec chunks hwf
    refine ⟨hwf', ?_⟩
    rw [List.flatten_cons, hrun, hrest]
    rfl

/-- **The machine reports the payloads of the stream, however the stream comes in chunks.** -/
theorem loop_eq_payloads (chunks : List (List UInt8)) :
    (loop {} chunks).1 = Framing.payloads maxPayload chunks.flatten :=
  (loop_spec chunks wellFormed_init).2.symm

end SerialAdapter

/-! ### Frames over the line -/

namespace SerialFraming

/-- What arrives of a frame that keeps its addresses. -/
structure Restored (msg out : Message) : Prop where
  messageType : out.messageType = msg.messageType
  dataType : out.dataType = msg.dataType
  hopCount : out.hopCount = msg.hopCount
  epochNum : out.epochNum = msg.epochNum
  seqNum : out.seqNum = msg.seqNum
  protoVersion : out.protoVersion = msg.protoVersion
  originMac : out.originMac = msg.originMac
  targetMac : out.targetMac = msg.targetMac
  lastHopMac : out.lastHopMac = msg.lastHopMac
  data : out.data = msg.data
  publicKey : msg.messageType = MessageType.joinAck →
    out.enrollmentPublicKey = msg.enrollmentPublicKey

theorem copyBytes_full {cap : ℕ} (b : Bytes cap) : copyBytes (BytesArray.full b) = b := by
  apply List.Vector.eq
  show (Bytes.zero cap).toList.take 0 ++ (b.toList.drop 0).take cap ++
    (Bytes.zero cap).toList.drop (0 + cap) = b.toList
  rw [List.take_zero, List.nil_append, List.drop_zero, Nat.zero_add,
    List.take_of_length_le b.toList_length.le,
    List.drop_eq_nil_of_le (Bytes.zero cap).toList_length.le, List.append_nil]

/-- The key of a `JOIN_ACK` arrives, and a cleared one too, which does not travel. -/
theorem publicKey_of_joinAck {msg : Message} (h : msg.messageType = MessageType.joinAck) :
    (if carriesKey msg then (toMeshMessage msg).publicKey.bytes else Bytes.zero 32)
      = msg.enrollmentPublicKey := by
  by_cases hkey : carriesKey msg = true
  · rw [if_pos hkey, toMeshMessage, hkey]
    rfl
  · have hzero : msg.enrollmentPublicKey.isZero = true := by
      simpa [carriesKey, h] using hkey
    rw [if_neg hkey]
    exact (Bytes.eq_zero_of_isZero hzero).symm

/-- **A frame that the server sends to a device is read back.** -/
theorem decode_encoded (ownMac : Mac) {msg : Message} (h : msg.messageType = MessageType.joinAck ∨
    msg.messageType = MessageType.serialCmdBroadcast) :
    ∃ out, decode ownMac (encoded msg) = some out ∧ Restored msg out := by
  have htype : msg.messageType.toUInt32.toUInt8 = msg.messageType := UInt8.toUInt8_toUInt32 _
  have hserver : fromServer (toMeshMessage msg) = true := by
    show (msg.messageType.toUInt32.toUInt8 == _ || msg.messageType.toUInt32.toUInt8 == _) = true
    rw [htype]
    simpa using h
  refine ⟨ofMeshMessage ownMac (toMeshMessage msg), ?_, ?_⟩
  · rw [decode, pbDecode_encoded]
    rfl
  · refine ⟨htype, rfl, UInt8.toUInt8_toUInt32 _, rfl, UInt16.toUInt16_toUInt32 _,
      UInt8.toUInt8_toUInt32 _, if_pos hserver, rfl, if_pos hserver, copyBytes_full _,
      publicKey_of_joinAck⟩

/-- Every frame has an encoding that the line can carry. -/
theorem encode_line (msg : Message) :
    encode msg 256 = some (encoded msg) ∧ 1 ≤ (encoded msg).length ∧
      (encoded msg).length ≤ maxPayload := by
  have hle : (encoded msg).length ≤ maxPayload := (length_encoded_le msg).trans (by decide)
  exact ⟨encode_of_le hle, List.length_pos_of_ne_nil (encoded_ne_nil msg), hle⟩

end SerialFraming

namespace SerialAdapter

open SerialFraming

/-- **Serial framing.**  The machine reports the payloads of every stream, in whatever chunks it
comes, and its index stays inside the buffer.  So the encodings of frames that are written to the
line one after the other are reported as they are, and a frame that the server sends to a device is
decoded to what it was. -/
theorem serial_framing :
    (∀ chunks, (loop {} chunks).1 = Framing.payloads maxPayload chunks.flatten ∧
      (loop {} chunks).2.frameIndex ≤ 256) ∧
    (∀ msgs : List Message, ∃ encs, msgs.map (fun msg => encode msg 256) = encs.map some ∧
      ∀ chunks, chunks.flatten = (encs.map framed).flatten → (loop {} chunks).1 = encs) ∧
    ∀ (ownMac : Mac) (msg : Message), ∀ enc ∈ encode msg 256,
      msg.messageType = MessageType.joinAck ∨ msg.messageType = MessageType.serialCmdBroadcast →
        ∃ out, decode ownMac enc = some out ∧ Restored msg out := by
  refine ⟨fun chunks => ⟨loop_eq_payloads chunks, ?_⟩, fun msgs => ?_,
    fun ownMac msg enc h ht => ?_⟩
  · exact (loop_spec chunks wellFormed_init).1.index_le
  · refine ⟨msgs.map encoded, ?_, fun chunks hc => ?_⟩
    · rw [List.map_map]
      exact List.map_congr_left fun msg _ => (encode_line msg).1
    · rw [loop_eq_payloads, hc]
      refine Framing.payloads_frames (by decide) _ fun p hp => ?_
      obtain ⟨msg, -, rfl⟩ := List.mem_map.mp hp
      exact (encode_line msg).2
  · obtain rfl : encoded msg = enc := Option.some_inj.mp ((encode_line msg).1.symm.trans h)
    exact decode_encoded ownMac ht

end SerialAdapter

end LatticeMesh
