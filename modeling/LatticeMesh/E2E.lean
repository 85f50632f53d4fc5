import LatticeMesh.Node

/-!
# End-to-end sealing

Key derivation, the AEAD framing of a payload, the chain authentication code of a route report,
the lookup of derived keys, and the sequence numbers that make the nonces.

## Main definitions

* `deriveE2EKeys`, `e2eKeysOf` — the direction-split keys, as a program and as a function.
* `buildNonce`, `buildAad`, `sealPayload`, `openPayload` — the AEAD framing.
* `buildHopContext`, `chainStep` — the chain authentication code.
* `getKeys`, `masterE2EKeys`, `peerE2EKeys` — cached key lookup.
* `nextSeqGuarded`, `checkEpochRollback` — drawing a sequence number, and the seal-time guard.

## Main results

* `buildNonce_inj` — **equal nonces have equal epoch, sequence number and origin.**
* `openPayload_sealPayload` — opening inverts sealing.
-/

namespace LatticeMesh

/-! ### Key derivation -/

/-- The label under which the node-to-master key is derived. -/
def upLabel : String := "lattice-e2e-up-v3"

/-- The label under which the master-to-node key is derived. -/
def downLabel : String := "lattice-e2e-down-v3"

/-- The shared secret with a peer; an invalid peer key is fatal. -/
def computeSharedSecret (w : World) (ownPrivateKey peerPublicKey : Key) : MeshM Key :=
  match w.crypto.x25519Shared ownPrivateKey peerPublicKey with
  | some secret => pure secret
  | none => fatal w .config .mesh 25 "MESH: computeSharedSecret — x25519 failed"

/-- The keys of both directions with a peer. -/
def deriveE2EKeys (w : World) (ownPrivateKey peerPublicKey : Key) : MeshM E2EKeys := do
  let secret ← computeSharedSecret w ownPrivateKey peerPublicKey
  match w.crypto.hkdfSha256 secret upLabel, w.crypto.hkdfSha256 secret downLabel with
  | some kUp, some kDown => pure ⟨kUp, kDown⟩
  | _, _ => fatal w .config .mesh 26 "MESH: deriveE2EKeys — hkdf failed"

/-- The keys that a private key and a peer's public key determine. -/
def e2eKeysOf (c : Crypto) (ownPrivateKey peerPublicKey : Key) : Option E2EKeys := do
  let secret ← c.x25519Shared ownPrivateKey peerPublicKey
  let kUp ← c.hkdfSha256 secret upLabel
  let kDown ← c.hkdfSha256 secret downLabel
  return ⟨kUp, kDown⟩

/-! ### AEAD framing -/

/-- The nonce: epoch, sequence number, origin. -/
def buildNonce (m : Message) : Bytes 12 :=
  Bytes.le 4 m.epochNum.toNat ++ Bytes.le 2 m.seqNum.toNat ++ m.originMac

/-- The associated data: the fields of a frame that no relay changes. -/
def buildAad (m : Message) : Bytes 24 :=
  Bytes.ofList [m.protoVersion, m.messageType] ++ Bytes.le 4 m.dataType.toUInt32.toNat ++
    m.originMac ++ m.targetMac ++ Bytes.le 4 m.epochNum.toNat ++ Bytes.le 2 m.seqNum.toNat

/-- The frame with its payload sealed. -/
def sealPayload (c : Crypto) (key : Key) (m : Message) : Option Message :=
  (c.aeadSeal key (buildNonce m) (buildAad m) m.data).map fun (data, tag) =>
    { m with data := data, authTag := tag }

/-- The frame with its payload opened, if the tag is right. -/
def openPayload (c : Crypto) (key : Key) (m : Message) : Option Message :=
  (c.aeadOpen key (buildNonce m) (buildAad m) m.data m.authTag).map fun data =>
    { m with data := data }

/-- The AEAD's own promise: opening inverts sealing under the same key, nonce and data. -/
def Crypto.OpensSealed (c : Crypto) : Prop :=
  ∀ key nonce aad data cipher tag, c.aeadSeal key nonce aad data = some (cipher, tag) →
    c.aeadOpen key nonce aad cipher tag = some data

/-- **Equal nonces have equal epoch, sequence number and origin.** -/
theorem buildNonce_inj {m n : Message} (h : buildNonce m = buildNonce n) :
    m.epochNum = n.epochNum ∧ m.seqNum = n.seqNum ∧ m.originMac = n.originMac := by
  obtain ⟨hes, ho⟩ := Bytes.append_inj h
  obtain ⟨he, hs⟩ := Bytes.append_inj hes
  have he' := Bytes.le_inj (k := 4) (by simpa using m.epochNum.toNat_lt)
    (by simpa using n.epochNum.toNat_lt) he
  have hs' := Bytes.le_inj (k := 2) (by simpa using m.seqNum.toNat_lt)
    (by simpa using n.seqNum.toNat_lt) hs
  exact ⟨UInt32.toNat_inj.1 he', UInt16.toNat_inj.1 hs', ho⟩

/-- Opening inverts sealing. -/
theorem openPayload_sealPayload {c : Crypto} (hc : c.OpensSealed) {key : Key} {m sm : Message}
    (h : sealPayload c key m = some sm) :
    openPayload c key sm = some { sm with data := m.data } := by
  obtain ⟨⟨data, tag⟩, hs, rfl⟩ := Option.map_eq_some_iff.1 h
  have ho : c.aeadOpen key (buildNonce m) (buildAad m) data tag = some m.data := hc _ _ _ _ _ _ hs
  show Option.map _ (c.aeadOpen key (buildNonce m) (buildAad m) data tag) = _
  rw [ho]
  rfl

/-- Opening changes the payload alone. -/
theorem openPayload_data {c : Crypto} {key : Key} {m opened : Message}
    (h : openPayload c key m = some opened) : opened = { m with data := opened.data } := by
  obtain ⟨data, -, rfl⟩ := Option.map_eq_some_iff.1 h
  rfl

theorem openPayload_originMac {c : Crypto} {key : Key} {m opened : Message}
    (h : openPayload c key m = some opened) : opened.originMac = m.originMac := by
  rw [openPayload_data h]

/-- A relayed copy has the nonce of the original. -/
theorem buildNonce_relay {m r : Message} (h : Message.RelayOf m r) :
    buildNonce r = buildNonce m := by
  rw [Message.relayOf_iff.1 h]
  rfl

/-- A relayed copy has the associated data of the original. -/
theorem buildAad_relay {m r : Message} (h : Message.RelayOf m r) : buildAad r = buildAad m := by
  rw [Message.relayOf_iff.1 h]
  rfl

/-! ### Chain authentication code -/

/-- The bytes one hop authenticates: origin, destination, epoch, sequence number, previous hop and
this hop. -/
def buildHopContext (m : Message) (prevHop thisHop : Mac) : Bytes 30 :=
  m.originMac ++ m.targetMac ++ Bytes.le 4 m.epochNum.toNat ++ Bytes.le 2 m.seqNum.toNat ++
    prevHop ++ thisHop

/-- One link of the chain; a failing backend leaves the all-zero code. -/
def chainStep (c : Crypto) (secret : Key) (ctx : Bytes 30) (prevMac : AuthPath) : AuthPath :=
  match c.hmacSha256 secret (ctx.toList ++ prevMac.toList) with
  | some full => Bytes.slice full 0 8
  | none => Bytes.zero 8

/-! ### Key lookup -/

/-- The keys of a peer, from the cache or derived now. -/
def getKeys (w : World) (mac : Mac) (ownPrivateKey peerPublicKey : Key) :
    MeshM (Option E2EKeys) := do
  let s ← get
  if s.e2eKeys.capacity = 0 then pure none
  else
    match s.e2eKeys.cached mac with
    | some keys => pure (some keys)
    | none =>
      if peerPublicKey.isZero then pure none
      else
        let keys ← deriveE2EKeys w ownPrivateKey peerPublicKey
        modify fun s => { s with e2eKeys := s.e2eKeys.insert mac keys }
        pure (some keys)

/-- The keys shared with an origin peer. -/
def peerE2EKeys (w : World) (originMac : Mac) : MeshM (Option E2EKeys) := do
  let s ← get
  match s.peers.find originMac with
  | some peer => getKeys w peer.mac s.enrollment.devicePrivateKey peer.publicKey
  | none => pure none

/-- The keys shared with the current master. -/
def masterE2EKeys (w : World) : MeshM (Option E2EKeys) := do
  let s ← get
  if s.enrollment.hasMasterMac then peerE2EKeys w s.currentMaster.mac else pure none

/-- The keys that the lookup finds for `mac`; a rejected public key counts as none. -/
def Node.keysOf (c : Crypto) (s : Node) (mac : Mac) : Option E2EKeys :=
  match s.peers.keyOf mac with
  | none => none
  | some key =>
    if s.e2eKeys.capacity = 0 then none
    else
      (s.e2eKeys.cached mac).or
        (if key.isZero then none else e2eKeysOf c s.enrollment.devicePrivateKey key)

/-- The keys that the lookup finds for the current master. -/
def Node.masterKeys (c : Crypto) (s : Node) : Option E2EKeys :=
  if s.enrollment.hasMasterMac then s.keysOf c s.currentMaster.mac else none

/-! ### Sequence numbers -/

/-- Advance the sequence number. -/
def nextSeq : MeshM UInt16 := do
  modify fun s => { s with txState := { s.txState with txSeqNum := s.txState.txSeqNum + 1 } }
  let s ← get
  pure s.txState.txSeqNum

/-- Draw a sequence number.  When the counter wraps to zero, a new epoch is stored first and the
number is drawn again under it. -/
def nextSeqGuarded (w : World) : MeshM UInt16 := do
  let seq ← nextSeq
  if seq = 0 then
    let s ← get
    let epoch := s.txState.bootEpoch + 1
    saveBootEpoch w epoch
    modify fun s => { s with txState := s.txState.bumpEpoch epoch }
    nextSeq
  else
    pure seq

/-- The seal-time guard: refuse to seal under a pair that is not above the last one. -/
def checkEpochRollback (w : World) (epoch : UInt32) (seq : UInt16) : MeshM Unit := do
  let s ← get
  if s.txState.sealAdvances epoch seq then
    modify fun s => { s with txState := s.txState.markSealed epoch seq }
    emit (.guarded epoch seq)
  else
    fail w .crypto .mesh 1 "AEAD epoch rollback — refusing seal"

end LatticeMesh
