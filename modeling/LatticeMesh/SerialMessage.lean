import LatticeMesh.Lib.Protobuf
import LatticeMesh.Wire

/-!
# Frames on the serial line

How a frame travels between the gateway and the server: as a protocol-buffer message with fifteen
fields, behind a length of two bytes.  The encoder writes into a buffer of a fixed size and fails
when the message does not fit; the decoder fills the addresses in, unless the frame is one that the
server sends with its own.

## Main definitions

* `MeshMessage` — the message `mesh_MeshMessage`.
* `MeshMessage.pbEncode`, `MeshMessage.pbDecode` — what the field list makes of it.
* `SerialFraming.encode`, `SerialFraming.decode` — a frame as a message, and back.
* `SerialAdapter.onMeshDataImpl`, `SerialAdapter.relayEnrollmentToServer` — what goes to the line.

## Main results

* `SerialFraming.pbDecode_encoded` — **the message of a frame is read back from its encoding.**
* `SerialFraming.encode_never_overruns` — **every frame fits the buffers it is encoded into.**
-/

namespace LatticeMesh

open Protobuf

/-! ### The message -/

/-- The message `mesh_MeshMessage`.  Its fifteenth field, `authPath`, has a callback that neither
writes nor reads anything. -/
structure MeshMessage where
  messageType : UInt32
  dataType : Int32
  originMacAddress : Mac
  targetMacAddress : Mac
  lastHopMacAddress : Mac
  hasData : Bool
  data : BytesArray 64
  hopCount : UInt32
  epochNum : UInt32
  seqNum : UInt32
  protoVersion : UInt32
  hasPublicKey : Bool
  publicKey : BytesArray 32
  hasRouteLen : Bool
  routeLen : UInt32
  hasRoutePath : Bool
  routePath : BytesArray 48
  hasAuthTag : Bool
  authTag : BytesArray 16

namespace MeshMessage

/-- The message `mesh_MeshMessage_init_zero`. -/
def initZero : MeshMessage where
  messageType := 0
  dataType := 0
  originMacAddress := zeroMac
  targetMacAddress := zeroMac
  lastHopMacAddress := zeroMac
  hasData := false
  data := BytesArray.empty 64
  hopCount := 0
  epochNum := 0
  seqNum := 0
  protoVersion := 0
  hasPublicKey := false
  publicKey := BytesArray.empty 32
  hasRouteLen := false
  routeLen := 0
  hasRoutePath := false
  routePath := BytesArray.empty 48
  hasAuthTag := false
  authTag := BytesArray.empty 16

/-- Write the message, field by field. -/
def pbEncode (m : MeshMessage) (s : Ostream) : Option Ostream :=
  (encUint32 1 m.messageType s).bind fun s =>
  (encSint32 2 m.dataType s).bind fun s =>
  (encFixedLengthBytes 3 m.originMacAddress s).bind fun s =>
  (encFixedLengthBytes 4 m.targetMacAddress s).bind fun s =>
  (encFixedLengthBytes 5 m.lastHopMacAddress s).bind fun s =>
  (encOptBytes 6 m.hasData m.data s).bind fun s =>
  (encUint32 7 m.hopCount s).bind fun s =>
  (encUint32 8 m.epochNum s).bind fun s =>
  (encUint32 9 m.seqNum s).bind fun s =>
  (encUint32 10 m.protoVersion s).bind fun s =>
  (encOptBytes 11 m.hasPublicKey m.publicKey s).bind fun s =>
  (encOptUint32 12 m.hasRouteLen m.routeLen s).bind fun s =>
  (encOptBytes 13 m.hasRoutePath m.routePath s).bind fun s =>
  encOptBytes 14 m.hasAuthTag m.authTag s

/-- Read one field into the message. -/
def decodeField (tag wireType : ℕ) (m : MeshMessage) : Reader MeshMessage :=
  match tag with
  | 1 => decUint32 wireType >>= fun v => pure { m with messageType := v }
  | 2 => decSint32 wireType >>= fun v => pure { m with dataType := v }
  | 3 => decFixedLengthBytes 6 wireType >>= fun v => pure { m with originMacAddress := v }
  | 4 => decFixedLengthBytes 6 wireType >>= fun v => pure { m with targetMacAddress := v }
  | 5 => decFixedLengthBytes 6 wireType >>= fun v => pure { m with lastHopMacAddress := v }
  | 6 => decBytes m.data wireType >>= fun v => pure { m with hasData := true, data := v }
  | 7 => decUint32 wireType >>= fun v => pure { m with hopCount := v }
  | 8 => decUint32 wireType >>= fun v => pure { m with epochNum := v }
  | 9 => decUint32 wireType >>= fun v => pure { m with seqNum := v }
  | 10 => decUint32 wireType >>= fun v => pure { m with protoVersion := v }
  | 11 => decBytes m.publicKey wireType >>= fun v =>
      pure { m with hasPublicKey := true, publicKey := v }
  | 12 => decUint32 wireType >>= fun v => pure { m with hasRouteLen := true, routeLen := v }
  | 13 => decBytes m.routePath wireType >>= fun v =>
      pure { m with hasRoutePath := true, routePath := v }
  | 14 => decBytes m.authTag wireType >>= fun v => pure { m with hasAuthTag := true, authTag := v }
  | 17 => skipCallback wireType >>= fun _ => pure m
  | _ => skipField wireType >>= fun _ => pure m

/-- Read a message. -/
def pbDecode (bs : List UInt8) : Option MeshMessage := decodeFields decodeField initZero bs

/-- The bytes of the message. -/
def fields (m : MeshMessage) : List UInt8 :=
  (if m.messageType = 0 then [] else intField 1 m.messageType.toNat) ++
  ((if m.dataType = 0 then [] else intField 2 (zigzag m.dataType.toInt)) ++
  (bytesField 3 m.originMacAddress.toList ++
  (bytesField 4 m.targetMacAddress.toList ++
  (bytesField 5 m.lastHopMacAddress.toList ++
  ((if m.hasData then bytesField 6 m.data.toList else []) ++
  ((if m.hopCount = 0 then [] else intField 7 m.hopCount.toNat) ++
  ((if m.epochNum = 0 then [] else intField 8 m.epochNum.toNat) ++
  ((if m.seqNum = 0 then [] else intField 9 m.seqNum.toNat) ++
  ((if m.protoVersion = 0 then [] else intField 10 m.protoVersion.toNat) ++
  ((if m.hasPublicKey then bytesField 11 m.publicKey.toList else []) ++
  ((if m.hasRouteLen then intField 12 m.routeLen.toNat else []) ++
  ((if m.hasRoutePath then bytesField 13 m.routePath.toList else []) ++
  (if m.hasAuthTag then bytesField 14 m.authTag.toList else [])))))))))))))

/-- What the encoder puts on the stream. -/
theorem writes_pbEncode (m : MeshMessage) : Writes m.pbEncode m.fields :=
  (writes_encUint32 1 _).bind <| (writes_encSint32 2 _).bind <|
  (writes_encFixedLengthBytes 3 _).bind <| (writes_encFixedLengthBytes 4 _).bind <|
  (writes_encFixedLengthBytes 5 _).bind <| (writes_encOptBytes 6 _ _).bind <|
  (writes_encUint32 7 _).bind <| (writes_encUint32 8 _).bind <| (writes_encUint32 9 _).bind <|
  (writes_encUint32 10 _).bind <| (writes_encOptBytes 11 _ _).bind <|
  (writes_encOptUint32 12 _ _).bind <| (writes_encOptBytes 13 _ _).bind <|
  writes_encOptBytes 14 _ _

end MeshMessage

/-! ### Frames as messages -/

namespace SerialFraming

/-- Whether the public key of a frame goes out: only an enrollment frame has one. -/
def carriesKey (msg : Message) : Bool :=
  (msg.messageType == MessageType.enrollment || msg.messageType == MessageType.joinAck) &&
    !msg.enrollmentPublicKey.isZero

/-- The message of a frame.  The payload always goes out whole. -/
def toMeshMessage (msg : Message) : MeshMessage :=
  { MeshMessage.initZero with
    messageType := msg.messageType.toUInt32
    dataType := msg.dataType
    hopCount := msg.hopCount.toUInt32
    epochNum := msg.epochNum
    seqNum := msg.seqNum.toUInt32
    protoVersion := msg.protoVersion.toUInt32
    originMacAddress := msg.originMac
    targetMacAddress := msg.targetMac
    lastHopMacAddress := msg.lastHopMac
    hasData := true
    data := BytesArray.full msg.data
    hasPublicKey := carriesKey msg
    publicKey :=
      if carriesKey msg then BytesArray.full msg.enrollmentPublicKey else BytesArray.empty 32 }

/-- Encode a frame into a buffer of `maxLen` bytes; `none` is the length zero of a failure. -/
def encode (msg : Message) (maxLen : ℕ) : Option (List UInt8) :=
  ((toMeshMessage msg).pbEncode (Ostream.ofBuffer maxLen)).map Ostream.bytes

/-- Copy a byte string that was read into a cleared field. -/
def copyBytes {cap : ℕ} (b : BytesArray cap) : Bytes cap :=
  Bytes.blit (Bytes.zero cap) 0 (Bytes.slice b.bytes 0 b.size (by have := b.size_le; omega))
    (by have := b.size_le; omega)

/-- Whether a message is one that the server sends to a device. -/
def fromServer (pbMsg : MeshMessage) : Bool :=
  pbMsg.messageType.toUInt8 == MessageType.joinAck ||
    pbMsg.messageType.toUInt8 == MessageType.serialCmdBroadcast

/-- The frame of a message.  The addresses count only in the messages that the server sends to a
device; in the others the gateway fills its own in. -/
def ofMeshMessage (ownMac : Mac) (pbMsg : MeshMessage) : Message :=
  { Message.zero with
    messageType := pbMsg.messageType.toUInt8
    dataType := pbMsg.dataType
    hopCount := pbMsg.hopCount.toUInt8
    epochNum := pbMsg.epochNum
    seqNum := pbMsg.seqNum.toUInt16
    protoVersion := pbMsg.protoVersion.toUInt8
    targetMac := pbMsg.targetMacAddress
    data := if pbMsg.hasData then copyBytes pbMsg.data else Bytes.zero 64
    enrollmentPublicKey := if pbMsg.hasPublicKey then pbMsg.publicKey.bytes else Bytes.zero 32
    originMac := if fromServer pbMsg then pbMsg.originMacAddress else ownMac
    lastHopMac := if fromServer pbMsg then pbMsg.lastHopMacAddress else ownMac }

/-- Decode a frame. -/
def decode (ownMac : Mac) (bs : List UInt8) : Option Message :=
  (MeshMessage.pbDecode bs).map (ofMeshMessage ownMac)

end SerialFraming

/-! ### The serial line -/

namespace SerialAdapter

/-- The length of an encoding, low byte first. -/
def lenLE (n : ℕ) : List UInt8 := [UInt8.ofNat (n % 256), UInt8.ofNat (n / 256 % 256)]

/-- An encoding behind its length. -/
def framed (encoded : List UInt8) : List UInt8 := lenLE encoded.length ++ encoded

/-- What a delivered frame puts on the line.  When the encoding fails, an error is reported and
nothing is written. -/
def onMeshDataImpl (msg : Message) : Option (List UInt8) :=
  (SerialFraming.encode msg 256).map framed

/-- The frame that tells the server who wants to enroll. -/
def enrollmentRelay (mac : Mac) (pubKey : Key) : Message :=
  { Message.zero with
    messageType := MessageType.enrollment
    protoVersion := protoVersion
    originMac := mac
    enrollmentPublicKey := pubKey }

/-- What an enrollment request puts on the line. -/
def relayEnrollmentToServer (mac : Mac) (pubKey : Key) : Option (List UInt8) :=
  (SerialFraming.encode (enrollmentRelay mac pubKey) 128).map framed

end SerialAdapter

/-! ### Sizes -/

namespace SerialFraming

/-- The encoding of a frame: its message, field by field. -/
def encoded (msg : Message) : List UInt8 := (toMeshMessage msg).fields

/-- A frame is encoded whole, or not at all. -/
theorem encode_eq (msg : Message) (maxLen : ℕ) :
    encode msg maxLen = if (encoded msg).length ≤ maxLen then some (encoded msg) else none := by
  rw [encode, (toMeshMessage msg).writes_pbEncode, Ostream.map_bytes_write_ofBuffer]
  rfl

/-- An integer field below `128 ^ k` has at most `k + 1` bytes, and none where it is left out. -/
theorem length_orDefault_le {c : Prop} [Decidable c] {tag n k : ℕ} (ht : tag < 16)
    (hn : n < 128 ^ (k + 1)) : (if c then [] else intField tag n).length ≤ k + 2 := by
  split_ifs
  · exact Nat.zero_le _
  · exact length_intField_le ht hn

/-- An address takes eight bytes. -/
theorem length_bytesField_mac (tag : ℕ) (ht : tag < 16) (mac : Mac) :
    (bytesField tag mac.toList).length = 8 := by
  rw [length_bytesField ht (by rw [mac.toList_length]; decide), mac.toList_length]

/-- The bytes of an encoding, field by field. -/
theorem encoded_eq (msg : Message) :
    encoded msg =
      (if msg.messageType.toUInt32 = 0 then [] else intField 1 msg.messageType.toUInt32.toNat) ++
      ((if msg.dataType = 0 then [] else intField 2 (zigzag msg.dataType.toInt)) ++
      (bytesField 3 msg.originMac.toList ++
      (bytesField 4 msg.targetMac.toList ++
      (bytesField 5 msg.lastHopMac.toList ++
      (bytesField 6 msg.data.toList ++
      ((if msg.hopCount.toUInt32 = 0 then [] else intField 7 msg.hopCount.toUInt32.toNat) ++
      ((if msg.epochNum = 0 then [] else intField 8 msg.epochNum.toNat) ++
      ((if msg.seqNum.toUInt32 = 0 then [] else intField 9 msg.seqNum.toUInt32.toNat) ++
      ((if msg.protoVersion.toUInt32 = 0 then []
        else intField 10 msg.protoVersion.toUInt32.toNat) ++
      (if carriesKey msg then bytesField 11 msg.enrollmentPublicKey.toList else [])))))))))) := by
  by_cases h : carriesKey msg <;>
    simp [encoded, MeshMessage.fields, toMeshMessage, MeshMessage.initZero, h]

/-- The payload takes 66 bytes. -/
theorem length_bytesField_data (data : Payload) : (bytesField 6 data.toList).length = 66 := by
  rw [length_bytesField (by decide) (by rw [data.toList_length]; decide), data.toList_length]

/-- The public key takes 34 bytes, where it goes out. -/
theorem length_bytesField_key (c : Bool) (key : Key) :
    (if c then bytesField 11 key.toList else []).length = if c then 34 else 0 := by
  cases c
  · rfl
  · exact (length_bytesField (by decide) (by rw [key.toList_length]; decide)).trans
      (by rw [key.toList_length]; rfl)

/-- An encoding has at most 149 bytes. -/
theorem length_encoded_le (msg : Message) : (encoded msg).length ≤ 149 := by
  have hu8 : ∀ v : UInt8, v.toUInt32.toNat < 128 ^ 2 := fun v => by
    have := v.toNat_lt
    rw [UInt8.toNat_toUInt32]
    omega
  have hu16 : msg.seqNum.toUInt32.toNat < 128 ^ 3 := by
    have := msg.seqNum.toNat_lt
    rw [UInt16.toNat_toUInt32]
    omega
  have hu32 : msg.epochNum.toNat < 128 ^ 5 := by
    have := msg.epochNum.toNat_lt
    omega
  have hs32 : zigzag msg.dataType.toInt < 128 ^ 5 :=
    (zigzag_toInt_lt msg.dataType).trans (by decide)
  -- One bound for each field that may be left out.
  have h1 : (if msg.messageType.toUInt32 = 0 then []
      else intField 1 msg.messageType.toUInt32.toNat).length ≤ 3 :=
    length_orDefault_le (by decide) (hu8 msg.messageType)
  have h2 : (if msg.dataType = 0 then [] else intField 2 (zigzag msg.dataType.toInt)).length ≤ 6 :=
    length_orDefault_le (by decide) hs32
  have h7 : (if msg.hopCount.toUInt32 = 0 then []
      else intField 7 msg.hopCount.toUInt32.toNat).length ≤ 3 :=
    length_orDefault_le (by decide) (hu8 msg.hopCount)
  have h8 : (if msg.epochNum = 0 then [] else intField 8 msg.epochNum.toNat).length ≤ 6 :=
    length_orDefault_le (by decide) hu32
  have h9 : (if msg.seqNum.toUInt32 = 0 then []
      else intField 9 msg.seqNum.toUInt32.toNat).length ≤ 4 :=
    length_orDefault_le (by decide) hu16
  have h10 : (if msg.protoVersion.toUInt32 = 0 then []
      else intField 10 msg.protoVersion.toUInt32.toNat).length ≤ 3 :=
    length_orDefault_le (by decide) (hu8 msg.protoVersion)
  have hkey : (if carriesKey msg then 34 else 0) ≤ 34 := by split_ifs <;> decide
  rw [encoded_eq]
  simp only [List.length_append, length_bytesField_mac 3 (by decide),
    length_bytesField_mac 4 (by decide), length_bytesField_mac 5 (by decide),
    length_bytesField_data, length_bytesField_key]
  omega

/-- An encoding is not empty, so that the length zero is never a success. -/
theorem encoded_ne_nil (msg : Message) : encoded msg ≠ [] := by
  intro hnil
  have hlen := congrArg List.length hnil
  rw [encoded_eq] at hlen
  simp only [List.length_append, length_bytesField_data, List.length_nil] at hlen
  omega

/-- Every frame is encoded into a buffer that its encoding fits. -/
theorem encode_of_le {msg : Message} {maxLen : ℕ} (h : (encoded msg).length ≤ maxLen) :
    encode msg maxLen = some (encoded msg) := by
  rw [encode_eq, if_pos h]

/-- The frame that relays an enrollment has 94 bytes without the key, and 128 with it. -/
theorem length_encoded_enrollmentRelay (mac : Mac) (pubKey : Key) :
    (encoded (SerialAdapter.enrollmentRelay mac pubKey)).length
      = if pubKey.isZero then 94 else 128 := by
  have hkey : carriesKey (SerialAdapter.enrollmentRelay mac pubKey) = !pubKey.isZero := rfl
  have h : encoded (SerialAdapter.enrollmentRelay mac pubKey)
      = [8, 2] ++ (bytesField 3 mac.toList ++ (bytesField 4 zeroMac.toList ++
        (bytesField 5 zeroMac.toList ++ (bytesField 6 (Bytes.zero 64).toList ++
        ([80, 5] ++ (if !pubKey.isZero then bytesField 11 pubKey.toList else [])))))) := by
    rw [encoded_eq, hkey]
    rfl
  rw [h]
  simp only [List.length_append, length_bytesField_mac 3 (by decide),
    length_bytesField_mac 4 (by decide), length_bytesField_mac 5 (by decide),
    length_bytesField_data, length_bytesField_key]
  cases pubKey.isZero <;> rfl

/-- **The message of a frame is read back from its encoding.** -/
theorem pbDecode_encoded (msg : Message) :
    MeshMessage.pbDecode (encoded msg) = some (toMeshMessage msg) := by
  -- The message as it is after each field, in the order of the tags.
  let m1 := { MeshMessage.initZero with messageType := msg.messageType.toUInt32 }
  let m2 := { m1 with dataType := msg.dataType }
  let m3 := { m2 with originMacAddress := msg.originMac }
  let m4 := { m3 with targetMacAddress := msg.targetMac }
  let m5 := { m4 with lastHopMacAddress := msg.lastHopMac }
  let m6 := { m5 with hasData := true, data := BytesArray.full msg.data }
  let m7 := { m6 with hopCount := msg.hopCount.toUInt32 }
  let m8 := { m7 with epochNum := msg.epochNum }
  let m9 := { m8 with seqNum := msg.seqNum.toUInt32 }
  let m10 := { m9 with protoVersion := msg.protoVersion.toUInt32 }
  have h1 : Restores MeshMessage.decodeField
      (if msg.messageType.toUInt32 = 0 then [] else intField 1 msg.messageType.toUInt32.toNat)
      MeshMessage.initZero m1 :=
    Restores.uint32 1 (fun v => { MeshMessage.initZero with messageType := v }) _
      (by decide) (by decide) rfl rfl
  have h2 : Restores MeshMessage.decodeField
      (if msg.dataType = 0 then [] else intField 2 (zigzag msg.dataType.toInt)) m1 m2 :=
    Restores.sint32 2 (fun v => { m1 with dataType := v }) _ (by decide) (by decide) rfl rfl
  have h3 : Restores MeshMessage.decodeField
      (bytesField 3 msg.originMac.toList) m2 m3 :=
    Restores.fixedLengthBytes 3 (fun v => { m2 with originMacAddress := v }) _
      (by decide) (by decide) (by decide) (by decide) rfl
  have h4 : Restores MeshMessage.decodeField
      (bytesField 4 msg.targetMac.toList) m3 m4 :=
    Restores.fixedLengthBytes 4 (fun v => { m3 with targetMacAddress := v }) _
      (by decide) (by decide) (by decide) (by decide) rfl
  have h5 : Restores MeshMessage.decodeField
      (bytesField 5 msg.lastHopMac.toList) m4 m5 :=
    Restores.fixedLengthBytes 5 (fun v => { m4 with lastHopMacAddress := v }) _
      (by decide) (by decide) (by decide) (by decide) rfl
  have h6 : Restores MeshMessage.decodeField
      (bytesField 6 msg.data.toList) m5 m6 :=
    Restores.bytes 6 (fun b => { m5 with hasData := true, data := b }) _
      (by decide) (by decide) (by decide) rfl
  have h7 : Restores MeshMessage.decodeField
      (if msg.hopCount.toUInt32 = 0 then [] else intField 7 msg.hopCount.toUInt32.toNat) m6 m7 :=
    Restores.uint32 7 (fun v => { m6 with hopCount := v }) _ (by decide) (by decide) rfl rfl
  have h8 : Restores MeshMessage.decodeField
      (if msg.epochNum = 0 then [] else intField 8 msg.epochNum.toNat) m7 m8 :=
    Restores.uint32 8 (fun v => { m7 with epochNum := v }) _ (by decide) (by decide) rfl rfl
  have h9 : Restores MeshMessage.decodeField
      (if msg.seqNum.toUInt32 = 0 then [] else intField 9 msg.seqNum.toUInt32.toNat) m8 m9 :=
    Restores.uint32 9 (fun v => { m8 with seqNum := v }) _ (by decide) (by decide) rfl rfl
  have h10 : Restores MeshMessage.decodeField
      (if msg.protoVersion.toUInt32 = 0 then [] else intField 10 msg.protoVersion.toUInt32.toNat)
      m9 m10 :=
    Restores.uint32 10 (fun v => { m9 with protoVersion := v }) _ (by decide) (by decide) rfl rfl
  have hkey : Restores MeshMessage.decodeField
      (if carriesKey msg then bytesField 11 msg.enrollmentPublicKey.toList else []) m10
      (toMeshMessage msg) := by
    by_cases h : carriesKey msg = true
    · have h11 : Restores MeshMessage.decodeField (bytesField 11 msg.enrollmentPublicKey.toList) m10
          { m10 with
            hasPublicKey := true, publicKey := BytesArray.full msg.enrollmentPublicKey } :=
        Restores.bytes 11 (fun b => { m10 with hasPublicKey := true, publicKey := b }) _
          (by decide) (by decide) (by decide) rfl
      rw [if_pos h, toMeshMessage, h]
      exact h11
    · rw [if_neg h, toMeshMessage, Bool.eq_false_of_not_eq_true h]
      exact Restores.skip
  rw [encoded_eq]
  exact (h1.append <| h2.append <| h3.append <| h4.append <| h5.append <| h6.append <|
    h7.append <| h8.append <| h9.append <| h10.append hkey).decodeFields_eq

/-- **The encoder never overruns its buffer and never fails.**  Into a buffer of any size it writes
at most 149 bytes; a delivered frame always fits the buffer of 256 bytes, and the relayed enrollment
request that of 128 bytes, which it fills when there is a key. -/
theorem encode_never_overruns :
    (∀ (msg : Message) (maxLen : ℕ), ∀ bs ∈ encode msg maxLen, bs.length ≤ 149) ∧
    (∀ msg : Message, ∃ bs, encode msg 256 = some bs ∧ bs ≠ [] ∧
      SerialAdapter.onMeshDataImpl msg = some (SerialAdapter.lenLE bs.length ++ bs)) ∧
    ∀ (mac : Mac) (pubKey : Key), ∃ bs,
      encode (SerialAdapter.enrollmentRelay mac pubKey) 128 = some bs ∧ bs ≠ [] ∧
      SerialAdapter.relayEnrollmentToServer mac pubKey
        = some (SerialAdapter.lenLE bs.length ++ bs) ∧
      bs.length ≤ 128 ∧ (pubKey.isZero = false → bs.length = 128) := by
  refine ⟨fun msg maxLen bs h => ?_, fun msg => ?_, fun mac pubKey => ?_⟩
  · rw [encode_eq] at h
    obtain ⟨-, hbs⟩ := Option.ite_none_right_eq_some.mp h
    cases hbs
    exact length_encoded_le msg
  · have h := encode_of_le ((length_encoded_le msg).trans (by decide : 149 ≤ 256))
    refine ⟨encoded msg, h, encoded_ne_nil msg, ?_⟩
    rw [SerialAdapter.onMeshDataImpl, h]
    rfl
  · have hlen := length_encoded_enrollmentRelay mac pubKey
    have hle : (encoded (SerialAdapter.enrollmentRelay mac pubKey)).length ≤ 128 := by
      rw [hlen]
      split_ifs <;> decide
    have h := encode_of_le hle
    refine ⟨_, h, encoded_ne_nil _, ?_, hle, fun hkey => ?_⟩
    · rw [SerialAdapter.relayEnrollmentToServer, h]
      rfl
    · rw [hlen, hkey]
      rfl

end SerialFraming

end LatticeMesh
