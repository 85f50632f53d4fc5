import LatticeMesh.Lib.TwoRuns
import LatticeMesh.PeerKeys
import LatticeMesh.KeyCache

/-!
# Nodes that a receiver cannot tell apart

The replay cache, the times at which peers were heard, the addresses registered with the radio and
the cache of derived keys decide whether a frame is looked at and where a frame is sent.  They do
not decide what a frame that is looked at does to the rest of the node.  Two nodes that differ in
these parts alone are twins, and every function behind the replay check ends alike from twins.

## Main definitions

* `Node.visible` — what is left of a node without these parts, and of its history the deliveries.
* `Twin` — nodes with the same visible part and with coherent key caches.

## Main results

* `alike_peerE2EKeys` — a lookup finds the same keys in twins.
* `alike_dispatchMessage` — **a frame that passed the replay check does the same to twins.**
-/

namespace LatticeMesh

open EffectSpec TwoRuns

variable {w : World} {c : Crypto} {s t : Node}

/-! ### What is visible of a node -/

namespace PeerRegistry

theorem length_map_le (r : PeerRegistry) (f : PeerInfo → PeerInfo) :
    (r.peers.map f).length ≤ maxPeers := by
  rw [List.length_map]
  exact r.length_le

/-- The registry without the times at which its peers were heard. -/
def timeless (r : PeerRegistry) : PeerRegistry :=
  { r with
    peers := r.peers.map fun p => { p with lastSeenMs := 0 }
    length_le := r.length_map_le _ }

theorem find_timeless (r : PeerRegistry) (mac : Mac) :
    r.timeless.find mac = (r.find mac).map fun p => { p with lastSeenMs := 0 } := by
  unfold find timeless
  rw [List.find?_map]
  rfl

theorem keyOf_timeless (r : PeerRegistry) (mac : Mac) : r.timeless.keyOf mac = r.keyOf mac := by
  unfold keyOf
  rw [find_timeless, Option.map_map]
  rfl

theorem records_timeless (r : PeerRegistry) : r.timeless.records = r.records := by
  funext i
  show (((r.peers.map _)[i.val]?).map _ : Option PeerRecord) = _
  rw [List.getElem?_map, Option.map_map]
  rfl

theorem count_timeless (r : PeerRegistry) : r.timeless.count = r.count := List.length_map _

/-- Replacing a peer and forgetting the times, in either order. -/
theorem timeless_update (r : PeerRegistry) (mac : Mac) {f g : PeerInfo → PeerInfo}
    (hfg : ∀ p, { f p with lastSeenMs := 0 } = g { p with lastSeenMs := 0 }) :
    (r.update mac f).timeless = r.timeless.update mac g := by
  have hl : ∀ l : List PeerInfo,
      (l.replaceF fun p => if p.mac = mac then some (f p) else none).map
          (fun p => { p with lastSeenMs := 0 }) =
        (l.map fun p => { p with lastSeenMs := 0 }).replaceF
          fun p => if p.mac = mac then some (g p) else none := by
    intro l
    induction l with
    | nil => rfl
    | cons p l ih =>
      by_cases hp : p.mac = mac
      · simp [List.replaceF, hp, hfg]
      · simpa [List.replaceF, hp] using ih
  unfold update timeless
  simp only [hl]

theorem update_same (r : PeerRegistry) (mac : Mac) : r.update mac (fun p => p) = r := by
  have hl : ∀ l : List PeerInfo,
      (l.replaceF fun p => if p.mac = mac then some p else none) = l := by
    intro l
    induction l with
    | nil => rfl
    | cons p l ih =>
      by_cases hp : p.mac = mac
      · simp [List.replaceF, hp]
      · simpa [List.replaceF, hp] using ih
  unfold update
  simp only [hl]

theorem timeless_touch (r : PeerRegistry) (mac : Mac) (nowMs : UInt64) :
    (r.touch mac nowMs).timeless = r.timeless := by
  rw [touch, timeless_update (f := fun p => { p with lastSeenMs := nowMs }) (g := fun p => p) r mac
    fun _ => rfl, update_same]

theorem timeless_updateLastSeen (r : PeerRegistry) (mac : Mac) (nowMs : UInt64) :
    (r.updateLastSeen mac nowMs).timeless = r.timeless := by
  unfold updateLastSeen
  split
  · rfl
  · exact r.timeless_touch mac nowMs

theorem timeless_append (r : PeerRegistry) (p : PeerInfo) :
    (r.append p).timeless = r.timeless.append { p with lastSeenMs := 0 } := by
  have hlen : r.timeless.peers.length = r.peers.length := List.length_map _
  by_cases h : r.peers.length < maxPeers
  · rw [append, dif_pos h, append, dif_pos (hlen ▸ h)]
    unfold timeless
    simp only [List.map_append, List.map_cons, List.map_nil]
  · rw [append, dif_neg h, append, dif_neg (hlen ▸ h)]

theorem timeless_register (r : PeerRegistry) (mac : Mac) (key : Key) (nowMs : UInt64) :
    (r.register mac key nowMs).timeless = r.timeless.register mac key 0 := by
  have hfind : (r.timeless.find mac).isSome = (r.find mac).isSome := by
    rw [find_timeless, Option.isSome_map]
  unfold register
  rw [hfind]
  split
  · exact timeless_update r mac fun _ => rfl
  · exact timeless_append r _

end PeerRegistry

/-- A frame was handed to the receive callback. -/
def Event.isDelivery : Event → Bool
  | .deliver _ => true
  | _ => false

/-- The deliveries in the history, newest first. -/
def Node.deliveries (s : Node) : List Event := s.trace.filter Event.isDelivery

/-- The node without its replay cache, the times at which its peers were heard, what it registered
with the radio and which derived keys it holds; of the history only the deliveries are left. -/
def Node.visible (s : Node) : Node :=
  { s with
    peers := s.peers.timeless
    downlinkPeerLru := []
    forwardingPeer := zeroMac
    replay := ReplayCache.empty
    e2eKeys := E2EKeyStore.ofCapacity s.e2eKeys.capacity
    radioPeers := []
    trace := s.deliveries }

theorem Node.visible_emit (s : Node) (e : Event) :
    (s.emit e).visible =
      { s.visible with trace := [e].filter Event.isDelivery ++ s.visible.trace } := by
  unfold visible emit deliveries
  cases h : e.isDelivery <;> simp [h]

/-- Nodes with the same visible part, whose key caches are coherent. -/
structure Twin (c : Crypto) (s t : Node) : Prop where
  visible : t.visible = s.visible
  left : CacheCoherent c s
  right : CacheCoherent c t

namespace Twin

theorem refl (h : CacheCoherent c s) : Twin c s s := ⟨rfl, h, h⟩

theorem symm (h : Twin c s t) : Twin c t s := ⟨h.visible.symm, h.right, h.left⟩

theorem trans {u : Node} (h : Twin c s t) (h' : Twin c t u) : Twin c s u :=
  ⟨h'.visible.trans h.visible, h.left, h'.right⟩

instance : Std.Symm (Twin c) where
  symm _ _ h := h.symm

instance : IsTrans Node (Twin c) where
  trans _ _ _ h h' := h.trans h'

variable (h : Twin c s t)
include h

/-- What depends on the visible part alone is the same in twins. -/
theorem part {α : Type} (f : Node → α) (hf : ∀ u : Node, f u.visible = f u) : f t = f s :=
  (hf t).symm.trans ((congrArg f h.visible).trans (hf s))

theorem isMaster : t.isMaster = s.isMaster := h.part Node.isMaster fun _ => rfl

theorem deviceMac : t.deviceMac = s.deviceMac := h.part Node.deviceMac fun _ => rfl

theorem currentMaster : t.currentMaster = s.currentMaster := h.part Node.currentMaster fun _ => rfl

theorem lastSeenMasterMac : t.lastSeenMasterMac = s.lastSeenMasterMac :=
  h.part Node.lastSeenMasterMac fun _ => rfl

theorem beacon : t.beacon = s.beacon := h.part Node.beacon fun _ => rfl

theorem txState : t.txState = s.txState := h.part Node.txState fun _ => rfl

theorem dualMasterMode : t.dualMasterMode = s.dualMasterMode :=
  h.part Node.dualMasterMode fun _ => rfl

theorem enrollment : t.enrollment = s.enrollment := h.part Node.enrollment fun _ => rfl

theorem adapterType : t.adapterType = s.adapterType := h.part Node.adapterType fun _ => rfl

theorem eeprom : t.eeprom = s.eeprom := h.part Node.eeprom fun _ => rfl

theorem capacity : t.e2eKeys.capacity = s.e2eKeys.capacity :=
  h.part (fun u => u.e2eKeys.capacity) fun _ => rfl

theorem timeless : t.peers.timeless = s.peers.timeless := congrArg Node.peers h.visible

theorem keyOf (mac : Mac) : t.peers.keyOf mac = s.peers.keyOf mac := by
  rw [← t.peers.keyOf_timeless, h.timeless, s.peers.keyOf_timeless]

theorem isSome_find (mac : Mac) : (t.peers.find mac).isSome = (s.peers.find mac).isSome := by
  rw [← PeerRegistry.isSome_keyOf, h.keyOf, PeerRegistry.isSome_keyOf]

theorem count : t.peers.count = s.peers.count := by
  rw [← t.peers.count_timeless, h.timeless, s.peers.count_timeless]

theorem records : t.peers.records = s.peers.records := by
  rw [← t.peers.records_timeless, h.timeless, s.peers.records_timeless]

/-- The deliveries of twins are the same. -/
theorem deliveries : t.deliveries = s.deliveries := congrArg Node.trace h.visible

end Twin

/-- The program `x` ends alike from twins. -/
abbrev EndsAlike {α : Type} (w : World) (x : MeshM α) : Prop := Alike (Twin w.crypto) x

/-- Started in `s`, the program `x` returns and leaves a twin of `s` behind. -/
abbrev Hush {α : Type} (w : World) (s : Node) (x : MeshM α) : Prop := Hushed (Twin w.crypto) s x

/-- A change of the visible part that depends on it alone. -/
theorem alike_update {f g : Node → Node} (hf : ∀ s, (f s).visible = g s.visible)
    (hc : ∀ s, CacheCoherent w.crypto s → CacheCoherent w.crypto (f s)) :
    EndsAlike w (modify f) :=
  .update fun s t h => ⟨by rw [hf, hf, h.visible], hc s h.left, hc t h.right⟩

/-- A change that is not visible. -/
theorem hush_update {f : Node → Node} (hf : (f s).visible = s.visible)
    (hc : CacheCoherent w.crypto s → CacheCoherent w.crypto (f s)) : Hush w s (modify f) :=
  .update fun h => ⟨hf, h.left, hc h.left⟩

theorem alike_emit (e : Event) : EndsAlike w (emit e) :=
  alike_update (g := fun u => { u with trace := [e].filter Event.isDelivery ++ u.trace })
    (fun s => s.visible_emit e) fun _ h => h

theorem hush_emit {e : Event} (h : e.isDelivery = false) : Hush w s (emit e) :=
  hush_update (by rw [s.visible_emit, List.filter_cons_of_neg (by simp [h])]; rfl) fun h => h

/-! ### Errors and the flash -/

theorem alike_signalError (d : ErrorTypeDigit) : EndsAlike w (signalError w d) := by
  unfold signalError
  refine .ite (fun _ => ?_) fun _ => .ite (fun _ => .raise _) fun _ => .ret _
  exact (alike_emit _).bind fun _ => .raise _

theorem alike_fail (d : ErrorTypeDigit) (m : ModuleDigit) (sub : ℕ) (text : String) :
    EndsAlike w (fail w d m sub text) := (alike_emit _).bind fun _ => alike_signalError d

theorem alike_fatal {α : Type} (d : ErrorTypeDigit) (m : ModuleDigit) (sub : ℕ) (text : String) :
    EndsAlike w (fatal w d m sub text : MeshM α) :=
  (alike_emit _).bind fun _ => (alike_signalError d).bind fun _ => .raise _

theorem alike_nvsPut (op : NvsOp) (securityRelevant : Bool) :
    EndsAlike w (nvsPut w op securityRelevant) := by
  unfold nvsPut
  refine .ite (fun _ => ?_) fun _ => .ite (fun _ => alike_fail _ _ _ _) fun _ => .ret _
  refine Alike.bind ?_ fun _ => alike_emit _
  exact alike_update (g := fun u => { u with nvs := op.apply u.nvs }) (fun _ => rfl) fun _ h => h

theorem alike_nvsSave (op : NvsOp) (securityRelevant : Bool) :
    EndsAlike w (nvsSave w op securityRelevant) :=
  .read_bind (fun s t h => by rw [h.eeprom]) fun _ =>
    .ite (fun _ => .ret _) fun _ => alike_nvsPut op securityRelevant

theorem alike_saveBootEpoch (epoch : UInt32) : EndsAlike w (saveBootEpoch w epoch) := by
  refine .read_bind (fun s t h => by rw [h.eeprom]) fun s =>
    .ite (fun _ => ?_) fun _ => alike_nvsPut _ _
  refine Alike.bind ?_ fun _ => alike_emit _
  exact alike_update (g := fun u => { u with eeprom := { u.eeprom with devEpoch := epoch } })
    (fun _ => rfl) fun _ h => h

theorem alike_saveToEEPROM : EndsAlike w (saveToEEPROM w) := by
  refine .read_bind (fun s t h => by rw [h.records]) fun s => .forM fun i _ => ?_
  cases s.peers.records i with
  | some r => exact alike_nvsSave _ _
  | none => exact alike_nvsPut _ _

/-! ### Sequence numbers -/

theorem alike_nextSeq : EndsAlike w nextSeq := by
  refine Alike.bind ?_ fun _ => .read_bind (fun s t h => by rw [h.txState]) fun _ => .ret _
  exact alike_update
    (g := fun u => { u with txState := { u.txState with txSeqNum := u.txState.txSeqNum + 1 } })
    (fun _ => rfl) fun _ h => h

theorem alike_nextSeqGuarded : EndsAlike w (nextSeqGuarded w) := by
  refine alike_nextSeq.bind fun seq => .ite (fun _ => ?_) fun _ => .ret _
  refine .read_bind (fun s t h => by rw [h.txState]) fun s => ?_
  refine (alike_saveBootEpoch _).bind fun _ => Alike.bind ?_ fun _ => alike_nextSeq
  exact alike_update
    (g := fun u => { u with txState := u.txState.bumpEpoch (s.txState.bootEpoch + 1) })
    (fun _ => rfl) fun _ h => h

theorem alike_checkEpochRollback (epoch : UInt32) (seq : UInt16) :
    EndsAlike w (checkEpochRollback w epoch seq) := by
  refine .read_bind (fun s t h => by rw [h.txState]) fun s =>
    .ite (fun _ => ?_) fun _ => alike_fail _ _ _ _
  refine Alike.bind ?_ fun _ => alike_emit _
  exact alike_update (g := fun u => { u with txState := u.txState.markSealed epoch seq })
    (fun _ => rfl) fun _ h => h

theorem alike_buildMessage (type : AdapterType) (data : Payload) (msgType : UInt8) :
    EndsAlike w (buildMessage w type data msgType) := by
  refine alike_nextSeqGuarded.bind fun seq => .read_bind (fun s t h => ?_) fun s =>
    (alike_emit _).bind fun _ => .ret _
  simp only [builtMessage, h.deviceMac, h.currentMaster, h.txState]

/-! ### Key lookups -/

/-- What a lookup puts into the cache is not visible. -/
theorem Node.visible_insert (s : Node) (mac : Mac) (keys : E2EKeys) :
    { s with e2eKeys := s.e2eKeys.insert mac keys }.visible = s.visible := by
  simp only [visible, deliveries, E2EKeyStore.capacity_insert]

theorem Twin.insert_left (h : Twin c s t) {mac : Mac} {key : Key} {keys : E2EKeys}
    (hkey : s.peers.keyOf mac = some key) (hz : key.isZero = false)
    (hk : e2eKeysOf c s.enrollment.devicePrivateKey key = some keys) :
    Twin c { s with e2eKeys := s.e2eKeys.insert mac keys } t := by
  refine ⟨h.visible.trans ?_, E2EKeyStore.Holds.insert h.left ⟨key, hkey, hz, hk⟩, h.right⟩
  exact (s.visible_insert mac keys).symm

/-- The derivation of keys does not look at the node. -/
theorem alike_deriveE2EKeys (priv pub : Key) : EndsAlike w (deriveE2EKeys w priv pub) := by
  unfold deriveE2EKeys computeSharedSecret
  refine Alike.bind ?_ fun secret => ?_
  · cases w.crypto.x25519Shared priv pub with
    | some secret => exact .ret _
    | none => exact alike_fatal _ _ _ _
  · split
    · exact .ret _
    · exact alike_fatal _ _ _ _

/-- The lookup without the cache. -/
def getKeysAnew (w : World) (capacity : ℕ) (ownPrivateKey peerPublicKey : Key) :
    MeshM (Option E2EKeys) := do
  if capacity = 0 ∨ peerPublicKey.isZero then pure none
  else
    let keys ← deriveE2EKeys w ownPrivateKey peerPublicKey
    pure (some keys)

theorem alike_getKeysAnew (capacity : ℕ) (priv pub : Key) :
    EndsAlike w (getKeysAnew w capacity priv pub) :=
  .ite (fun _ => .ret _) fun _ => (alike_deriveE2EKeys priv pub).bind fun _ => .ret _

/-- With a coherent cache a lookup ends as it does without the cache. -/
theorem twice_getKeys {mac : Mac} {key : Key} (h : CacheCoherent w.crypto s)
    (hkey : s.peers.keyOf mac = some key) :
    Twice (Twin w.crypto) (getKeys w mac s.enrollment.devicePrivateKey key)
      (getKeysAnew w s.e2eKeys.capacity s.enrollment.devicePrivateKey key) s s := by
  unfold getKeys getKeysAnew
  refine Twice.read_left ?_
  by_cases h0 : s.e2eKeys.capacity = 0
  · rw [if_pos h0, if_pos (.inl h0)]
    exact .ret (.refl h)
  rw [if_neg h0]
  cases hc : s.e2eKeys.cached mac with
  | some keys =>
    -- a cached key is the one that would be derived
    obtain ⟨key', hkey', hz, hk⟩ := h.of_cached hc
    obtain rfl := Option.some.inj (hkey.symm.trans hkey')
    dsimp only
    rw [if_neg (not_or.2 ⟨h0, by simp [hz]⟩)]
    unfold Twice
    rw [bind_ok (deriveE2EKeys_eq hk)]
    exact .ok (.refl h)
  | none =>
    dsimp only
    by_cases hz : key.isZero = true
    · rw [if_pos hz, if_pos (.inr hz)]
      exact .ret (.refl h)
    rw [if_neg hz, if_neg (by simp [h0, hz])]
    -- an absent one is derived on both sides, and kept on the left
    have hsame := alike_deriveE2EKeys s.enrollment.devicePrivateKey key s s (.refl h)
    unfold Twice at hsame ⊢
    cases hd : deriveE2EKeys w s.enrollment.devicePrivateKey key s with
    | ok keys u =>
      obtain ⟨rfl, hk⟩ := wp_ok hd wp_deriveE2EKeys
      rw [bind_ok hd, bind_ok hd]
      exact .ok ((Twin.refl h).insert_left hkey (by simpa using hz) hk)
    | error e u =>
      rw [hd] at hsame
      rw [bind_error hd, bind_error hd]
      cases hsame with
      | error hu => exact .error hu

/-- **A lookup finds the same keys in twins**, cached or not. -/
theorem alike_peerE2EKeys (mac : Mac) : EndsAlike w (peerE2EKeys w mac) := by
  intro s t h
  refine Twice.read_bind ?_
  have hkey := h.keyOf mac
  unfold PeerRegistry.keyOf at hkey
  cases hs : s.peers.find mac with
  | none =>
    rw [hs, Option.map_none, Option.map_eq_none_iff] at hkey
    rw [hkey]
    exact .ret h
  | some p =>
    rw [hs] at hkey
    obtain ⟨q, ht, hq⟩ := Option.map_eq_some_iff.1 hkey
    rw [ht]
    dsimp only
    obtain rfl : p.mac = mac := PeerRegistry.find_mac hs
    rw [PeerRegistry.find_mac ht, hq, h.enrollment]
    have halike := alike_getKeysAnew (w := w) s.e2eKeys.capacity s.enrollment.devicePrivateKey
      p.publicKey
    refine Twice.replace halike ?_ ?_ h
    · exact twice_getKeys h.left (by rw [PeerRegistry.keyOf, hs]; rfl)
    · have htwice := twice_getKeys h.right (by rw [PeerRegistry.keyOf, ht]; exact congrArg some hq)
      rwa [h.enrollment, h.capacity] at htwice

theorem alike_masterE2EKeys : EndsAlike w (masterE2EKeys w) :=
  .read_bind (fun s t h => by rw [h.enrollment, h.currentMaster]) fun _ =>
    .ite (fun _ => alike_peerE2EKeys _) fun _ => .ret _

/-! ### The radio

What is sent and to whom is not visible, as long as a frame that could not be sent does not restart
the device. -/

theorem hush_espNowSend (target : Mac) (m : Message) : Hush w s (espNowSend w target m) :=
  .read_bind (.ite (fun _ => .bind (hush_emit rfl) fun _ _ _ => .ret) fun _ => .ret)

theorem hush_espNowDelPeer (mac : Mac) : Hush w s (espNowDelPeer mac) :=
  hush_update rfl fun h => h

theorem hush_sendBroadcast (m : Message) : Hush w s (sendBroadcast w m) :=
  .bind (hush_espNowSend _ m) fun _ _ _ => .ret

section Radio

variable (hdisplay : w.config.enableSevsegDisplay = true → w.displayAck = true)
include hdisplay

theorem hush_fail {d : ErrorTypeDigit} {m : ModuleDigit} {sub : ℕ} {text : String}
    (h : d.restarts = false) : Hush w s (fail w d m sub text) := by
  refine .bind (hush_emit rfl) fun _ t _ ht => ?_
  refine wp_signalError (fun he hd => ?_) (fun hr => ?_) fun _ => ht
  · rw [hdisplay he] at hd
    cases hd
  · rw [h] at hr
    cases hr

theorem hush_registerPeerWithEspNow (mac : Mac) : Hush w s (registerPeerWithEspNow w mac) := by
  refine .read_bind (.ite (fun _ => .ret) fun _ => .ite (fun _ => ?_) fun _ => ?_)
  · exact hush_update rfl fun h => h
  · exact hush_fail hdisplay rfl

theorem hush_sendMessage (target : Mac) (m : Message) (deviceMac : Mac) :
    Hush w s (sendMessage w target m deviceMac) := by
  refine .ite (fun _ => .ret) fun _ => .bind (hush_espNowSend target m) fun ok t _ => ?_
  exact .ite (fun _ => .ret) fun _ => hush_fail hdisplay rfl

theorem hush_broadcastToAllPeers (m : Message) (peers : PeerRegistry) (deviceMac : Mac) :
    Hush w s (broadcastToAllPeers w m peers deviceMac) :=
  .forM fun p _ _ _ => .ite (fun _ => .ret) fun _ => hush_sendMessage hdisplay p.mac m deviceMac

theorem hush_enrollPeerWithRadio (mac : Mac) : Hush w s (enrollPeerWithRadio w mac) :=
  .bind (hush_espNowDelPeer mac) fun _ _ _ => hush_registerPeerWithEspNow hdisplay mac

theorem hush_findNextHopToMaster : Hush w s (findNextHopToMaster w) := by
  refine .read_bind (.ite (fun _ => .ret) fun _ => ?_)
  split
  · exact .ret
  split
  · exact .ret
  refine .ite (fun _ => .ret) fun _ => ?_
  refine .bind (.ite (fun _ => hush_espNowDelPeer _) fun _ => .ret) fun _ t _ => ?_
  refine .bind (hush_registerPeerWithEspNow hdisplay _) fun _ u _ => ?_
  exact .bind (hush_update rfl fun h => h) fun _ _ _ => .ret

theorem hush_routeToMaster (m : Message) : Hush w s (routeToMaster w m) := by
  refine .read_bind (.bind (hush_findNextHopToMaster hdisplay) fun r t _ => ?_)
  split
  · exact .ite (fun _ => .ret) fun _ => hush_sendMessage hdisplay _ m _
  · exact .ret

theorem hush_relayDownlink (m : Message) : Hush w s (relayDownlink w m) := by
  refine .read_bind (.ite (fun _ => .ret) fun _ => .forM fun p _ _ _ => ?_)
  exact .ite (fun _ => .ret) fun _ => hush_sendMessage hdisplay p.mac _ _

theorem hush_registerAfter {f : Node → Node} (hf : (f s).visible = s.visible)
    (hc : CacheCoherent w.crypto s → CacheCoherent w.crypto (f s)) (mac : Mac) :
    Hush w s (do modify f; registerPeerWithEspNow w mac) :=
  .bind (hush_update hf hc) fun _ _ _ => hush_registerPeerWithEspNow hdisplay mac

theorem hush_registerDownlinkPeer (mac : Mac) : Hush w s (registerDownlinkPeer w mac) := by
  refine .read_bind (.ite (fun _ => ?_) fun _ => .ite (fun _ => ?_) fun _ =>
    .ite (fun _ => ?_) fun _ => ?_)
  · exact hush_registerAfter hdisplay rfl (fun h => h) mac
  · exact hush_registerAfter hdisplay rfl (fun h => h) mac
  · exact .bind (hush_espNowDelPeer _) fun _ _ _ => hush_registerAfter hdisplay rfl (fun h => h) mac
  · exact hush_registerAfter hdisplay rfl (fun h => h) mac

end Radio

/-! ### Enrollment -/

theorem Twin.keyEstablished (h : Twin c s t) (mac : Mac) :
    t.peers.keyEstablished mac = s.peers.keyEstablished mac := by
  rw [PeerRegistry.keyEstablished_eq, PeerRegistry.keyEstablished_eq, h.keyOf]

/-- A key that is registered where none was established leaves a coherent cache coherent. -/
theorem CacheCoherent.register {mac : Mac} (h : CacheCoherent c s) (key : Key) (nowMs : UInt64)
    (he : s.peers.keyEstablished mac = false)
    (hc : (s.peers.find mac).isSome ∨ s.peers.count < maxPeers) :
    CacheCoherent c { s with peers := s.peers.register mac key nowMs } := by
  refine h.congr (fun mac' key' hk hz => ?_) rfl rfl
  show (s.peers.register mac key nowMs).keyOf mac' = some key'
  rw [PeerRegistry.keyOf_register key nowMs hc, if_neg, hk]
  rintro rfl
  rw [PeerRegistry.keyEstablished_eq, hk] at he
  simp [hz] at he

theorem Twin.register {mac : Mac} (h : Twin c s t) (key : Key) (nowMs : UInt64)
    (he : s.peers.keyEstablished mac = false)
    (hc : (s.peers.find mac).isSome ∨ s.peers.count < maxPeers) :
    Twin c { s with peers := s.peers.register mac key nowMs }
      { t with peers := t.peers.register mac key nowMs } := by
  refine ⟨?_, h.left.register key nowMs he hc,
    h.right.register key nowMs (by rwa [h.keyEstablished]) ?_⟩
  · show { t.visible with peers := (t.peers.register mac key nowMs).timeless } =
      { s.visible with peers := (s.peers.register mac key nowMs).timeless }
    rw [PeerRegistry.timeless_register, PeerRegistry.timeless_register, h.visible, h.timeless]
  · rwa [h.isSome_find, h.count]

theorem alike_learnMasterMac (mac : Mac) : EndsAlike w (learnMasterMac w mac) := by
  refine Alike.bind ?_ fun _ => alike_nvsSave _ _
  exact alike_update
    (g := fun u =>
      { u with enrollment := { u.enrollment with knownMasterMac := mac, hasMasterMac := true } })
    (fun _ => rfl) fun _ h => h

theorem alike_learnSecondaryMasterMac (mac : Mac) :
    EndsAlike w (learnSecondaryMasterMac w mac) := by
  refine Alike.bind ?_ fun _ => alike_nvsSave _ _
  exact alike_update
    (g := fun u =>
      { u with
        enrollment :=
          { u.enrollment with knownMasterMacSecondary := mac, hasMasterMacSecondary := true } })
    (fun _ => rfl) fun _ h => h

theorem alike_processRequest (m : Message) : EndsAlike w (processRequest w m) := by
  refine .read_bind (fun s t h => by rw [h.enrollment]) fun s => .ite (fun _ => ?_) fun _ => .ret _
  exact alike_update
    (g := fun u =>
      { u with
        enrollment :=
          { u.enrollment with
            relayQueue := u.enrollment.relayQueue ++ [(m.originMac, m.enrollmentPublicKey)] } })
    (fun _ => rfl) fun _ h => h

section Enrollment

variable (hdisplay : w.config.enableSevsegDisplay = true → w.displayAck = true)
include hdisplay

/-- The part of a registration that follows the change of the registry. -/
theorem alike_saveRegistration (mac : Mac) :
    EndsAlike w (do saveToEEPROM w; enrollPeerWithRadio w mac; pure true) :=
  alike_saveToEEPROM.bind fun _ =>
    (Hushed.alike fun _ => hush_enrollPeerWithRadio hdisplay mac).bind fun _ => .ret _

theorem alike_registerPeerWithKey (mac : Mac) (key : Key) :
    EndsAlike w (registerPeerWithKey w mac key false) := by
  intro s t h
  refine Twice.read_bind ?_
  rw [h.keyEstablished, h.isSome_find, h.count]
  split
  · refine Twice.update_bind (.ret ⟨?_, ?_, ?_⟩)
    · show { t.visible with peers := (t.peers.touch mac w.nowMs).timeless } =
        { s.visible with peers := (s.peers.touch mac w.nowMs).timeless }
      rw [PeerRegistry.timeless_touch, PeerRegistry.timeless_touch, h.visible, h.timeless]
    · exact h.left.congr (fun mac' key' hk _ => by simpa using hk) rfl rfl
    · exact h.right.congr (fun mac' key' hk _ => by simpa using hk) rfl rfl
  rename_i he
  simp only [Bool.not_false, Bool.true_and, Bool.not_eq_true] at he
  split
  · rename_i hs
    have hreg := h.register key w.nowMs he (.inl hs)
    unfold PeerRegistry.register at hreg
    rw [if_pos hs, if_pos (by rwa [h.isSome_find])] at hreg
    exact Twice.update_bind (alike_saveRegistration hdisplay mac _ _ hreg)
  rename_i hs
  split
  · exact .ret h
  · rename_i hc
    have hreg := h.register key w.nowMs he (.inr (not_le.1 hc))
    unfold PeerRegistry.register at hreg
    rw [if_neg hs, if_neg (by rwa [h.isSome_find])] at hreg
    exact Twice.update_bind (alike_saveRegistration hdisplay mac _ _ hreg)

theorem alike_processJoinAckSecondary (m : Message) :
    EndsAlike w (processJoinAckSecondary w m) := by
  refine .ite (fun _ => .ret _) fun _ => ?_
  refine (alike_registerPeerWithKey hdisplay _ _).bind fun registered => ?_
  exact .read_bind (fun s t h => by rw [h.enrollment]) fun _ =>
    .ite (fun _ => alike_learnSecondaryMasterMac _) fun _ => .ret _

theorem alike_processJoinAck (m : Message) : EndsAlike w (processJoinAck w m) := by
  refine .read_bind (fun s t h => by rw [h.enrollment]) fun _ => .ite (fun _ => ?_) fun _ => .ret _
  refine (alike_registerPeerWithKey hdisplay _ _).bind fun registered =>
    .ite (fun _ => ?_) fun _ => .ret _
  refine (alike_nvsSave _ _).bind fun _ => Alike.bind ?_ fun _ => ?_
  · exact alike_update
      (g := fun u => { u with enrollment := { u.enrollment with enrolled := true } })
      (fun _ => rfl) fun _ h => h
  refine Alike.bind ?_ fun _ => alike_processJoinAckSecondary hdisplay m
  exact .read_bind (fun s t h => by rw [h.enrollment]) fun _ =>
    .ite (fun _ => .ret _) fun _ => alike_learnMasterMac _

theorem alike_dispatchJoinAck (m : Message) : EndsAlike w (dispatchJoinAck w m) := by
  refine .read_bind (fun s t h => by rw [h.deviceMac, h.isMaster]) fun _ =>
    .ite (fun _ => ?_) fun _ => ?_
  · exact .ite (fun _ => .ret _) fun _ => alike_processJoinAck hdisplay m
  · exact .ite (fun _ => .ret _) fun _ => Hushed.alike fun _ => hush_sendBroadcast _

end Enrollment

/-! ### Beacons -/

theorem alike_acceptBeaconOrigin (mac : Mac) : EndsAlike w (acceptBeaconOrigin w mac) := by
  refine .read_bind (fun s t h => by rw [h.enrollment, h.dualMasterMode, h.beacon]) fun _ => ?_
  refine .ite (fun _ => ?_) fun _ => .ite (fun _ => .ret _) fun _ => .ite (fun _ => ?_) fun _ =>
    .ite (fun _ => .ret _) fun _ => ?_
  · exact (alike_learnMasterMac mac).bind fun _ => .ret _
  · exact (alike_learnSecondaryMasterMac mac).bind fun _ => .ret _
  · exact (alike_learnMasterMac mac).bind fun _ => .ret _

theorem alike_warnOtherMaster (mac : Mac) : EndsAlike w (warnOtherMaster w mac) :=
  .read_bind (fun s t h => by rw [h.lastSeenMasterMac, h.dualMasterMode]) fun _ =>
    .ite (fun _ => alike_fail _ _ _ _) fun _ => .ret _

theorem alike_processBeacon (m : Message) : EndsAlike w (processBeacon w m) := by
  refine .read_bind (fun s t h => by rw [h.deviceMac]) fun _ => .ite (fun _ => .ret _) fun _ => ?_
  refine (alike_acceptBeaconOrigin _).bind fun accepted => .ite (fun _ => ?_) fun _ => .ret _
  refine (alike_warnOtherMaster _).bind fun _ => ?_
  refine alike_update (g := fun u => (u.noteBeacon w m).scheduleRelay w m) (fun u => ?_)
    fun u h => ?_
  · unfold Node.scheduleRelay
    split
    · rw [if_pos ‹_›]
      rfl
    · rw [if_neg ‹_›]
      rfl
  · unfold Node.scheduleRelay
    split <;> exact h

/-! ### Sending -/

theorem alike_sealUplink (m : Message) : EndsAlike w (sealUplink w m) := by
  refine (alike_checkEpochRollback _ _).bind fun _ =>
    .read_bind (fun s t h => by rw [h.deviceMac]) fun _ => alike_masterE2EKeys.bind fun keys? => ?_
  cases keys? with
  | none => exact .ret _
  | some keys =>
    refine (alike_emit _).bind fun _ => ?_
    split
    · exact .ret _
    · exact .ret _

section Sending

variable (hdisplay : w.config.enableSevsegDisplay = true → w.displayAck = true)
include hdisplay

theorem alike_transmitFrame (msgType : UInt8) (isMaster : Bool) (m : Message) :
    EndsAlike w (transmitFrame w msgType isMaster m) := by
  have hroute : ∀ sm, EndsAlike w (routeToMaster w sm) := fun sm =>
    Hushed.alike fun _ => hush_routeToMaster hdisplay sm
  refine .read_bind (fun s t h => ?_) fun s => .ite (fun _ => ?_) fun _ => hroute _
  · unfold retarget
    rw [h.deviceMac, h.currentMaster]
  · refine (alike_sealUplink _).bind fun sm? => ?_
    cases sm? with
    | some sm => exact hroute sm
    | none => exact .ret _

theorem alike_transmitCore (type : AdapterType) (data : Payload) (msgType : UInt8)
    (msgOverride : Option Message) (isMaster : Bool) :
    EndsAlike w (transmitCore w type data msgType msgOverride isMaster) := by
  cases msgOverride with
  | some m => exact alike_transmitFrame hdisplay msgType isMaster m
  | none =>
    exact (alike_buildMessage _ _ _).bind fun m => alike_transmitFrame hdisplay msgType isMaster m

/-- A frame of another node is passed on without a trace. -/
theorem hush_transmitFrame {msgType : UInt8} {isMaster : Bool} {m : Message}
    (h : m.originMac ≠ s.deviceMac) : Hush w s (transmitFrame w msgType isMaster m) := by
  refine .read_bind ?_
  rw [if_neg fun hc => h (by rw [← hc.2.1, retarget_originMac])]
  exact hush_routeToMaster hdisplay _

theorem hush_relayEnrollmentUplink (m : Message) : Hush w s (relayEnrollmentUplink w m) := by
  refine .read_bind (.ite (fun _ => .ret) fun hc => ?_)
  refine .bind (hush_findNextHopToMaster hdisplay) fun hop t ht => ?_
  cases hop with
  | none => exact .ret
  | some hop =>
    refine hush_transmitFrame hdisplay ?_
    rw [ht.deviceMac]
    exact fun ho => hc (.inl ho)

theorem alike_broadcastAdapterData (type : AdapterType) (data : Payload) (deliverLocally : Bool)
    {externalRecvCallback : Message → MeshM Unit}
    (hcb : ∀ m, EndsAlike w (externalRecvCallback m)) :
    EndsAlike w (broadcastAdapterData w type data deliverLocally externalRecvCallback) := by
  refine (alike_buildMessage _ _ _).bind fun built s t h => Twice.read_bind ?_
  -- the registries differ in their times, but neither broadcast leaves a trace
  refine Twice.bind ?_ fun _ s' t' h' => ?_
  · exact Hushed.twice (hush_broadcastToAllPeers hdisplay _ _ _)
      (hush_broadcastToAllPeers hdisplay _ _ _) h
  · exact Alike.ite (fun _ => hcb _) (fun _ => .ret _) s' t' h'

theorem alike_transmitDispatch (type : AdapterType) (data : Payload) (selfOriginated : Bool)
    {externalRecvCallback : Message → MeshM Unit}
    (hcb : ∀ m, EndsAlike w (externalRecvCallback m)) :
    EndsAlike w (transmitDispatch w type data selfOriginated externalRecvCallback) :=
  .read_bind (fun s t h => by rw [h.isMaster]) fun _ =>
    .ite (fun _ => alike_broadcastAdapterData hdisplay type data selfOriginated hcb)
      fun _ => alike_transmitCore hdisplay _ _ _ _ _

end Sending

/-! ### The adapter -/

theorem Twin.isTargetedAtSelf (h : Twin c s t) (candidate : Mac) :
    isTargetedAtSelf t candidate = isTargetedAtSelf s candidate := by
  unfold LatticeMesh.isTargetedAtSelf
  rw [h.deviceMac]

theorem alike_opConfigSet (m : Message) : EndsAlike w (opConfigSet w m) :=
  .read_bind (fun s t h => by rw [h.isTargetedAtSelf]) fun _ => .ite
    (fun _ => (alike_nvsSave _ _).bind fun _ => (alike_emit _).bind fun _ => .raise _)
    fun _ => .ret _

theorem alike_opNodeIdSet (m : Message) : EndsAlike w (opNodeIdSet w m) :=
  .read_bind (fun s t h => by rw [h.isTargetedAtSelf]) fun _ =>
    .ite (fun _ => alike_nvsPut _ _) fun _ => .ret _

theorem alike_opHealthReq {transmitSelf : AdapterType → Payload → MeshM Unit}
    (hts : ∀ type data, EndsAlike w (transmitSelf type data)) :
    EndsAlike w (opHealthReq w transmitSelf) := by
  refine .read_bind (fun s t h => ?_) fun _ => .ite (fun _ => hts _ _) fun _ => .ret _
  simp only [buildHealthFrame, h.adapterType, h.deviceMac]

theorem alike_opTxPowerSet (m : Message) : EndsAlike w (opTxPowerSet w m false) := by
  refine .read_bind (fun s t h => ?_) fun _ => .ite (fun _ => .ret _) fun _ => ?_
  · rw [h.adapterType, h.isMaster]
  · exact (alike_nvsSave _ _).bind fun _ => .ret _

theorem alike_dispatchControlOp {transmitSelf : AdapterType → Payload → MeshM Unit}
    (hts : ∀ type data, EndsAlike w (transmitSelf type data)) (m : Message) :
    EndsAlike w (dispatchControlOp w transmitSelf m false) :=
  .ite (fun _ => alike_opConfigSet m) fun _ => .ite (fun _ => alike_opNodeIdSet m) fun _ =>
    .ite (fun _ => alike_opHealthReq hts) fun _ =>
      .ite (fun _ => alike_opTxPowerSet m) fun _ => .ret _

theorem alike_onMeshDataImpl (m : Message) : EndsAlike w (onMeshDataImpl w m) :=
  .read_bind (fun s t h => by rw [h.adapterType]) fun _ =>
    .ite (fun _ => .ite (fun _ => alike_emit _) fun _ => alike_fail _ _ _ _) fun _ => .ret _

theorem alike_onMeshData {transmitSelf : AdapterType → Payload → MeshM Unit}
    (hts : ∀ type data, EndsAlike w (transmitSelf type data)) (m : Message) :
    EndsAlike w (onMeshData w transmitSelf m) := by
  refine .read_bind (fun s t h => by rw [h.adapterType]) fun _ => .ite (fun _ => ?_) fun _ => ?_
  · exact (alike_dispatchControlOp hts m).bind fun _ =>
      .ite (fun _ => alike_onMeshDataImpl m) fun _ => .ret _
  · exact .ite (fun _ => alike_onMeshDataImpl m) fun _ => .ret _

theorem alike_externalRecvCallback
    (hdisplay : w.config.enableSevsegDisplay = true → w.displayAck = true) :
    ∀ (n : ℕ) (m : Message), EndsAlike w (externalRecvCallback w n m)
  | 0, _ => .ret _
  | n + 1, m => (alike_emit _).bind fun _ =>
    alike_onMeshData (fun type data =>
      alike_transmitDispatch hdisplay type data true (alike_externalRecvCallback hdisplay n)) m

/-! ### Opening -/

theorem alike_openWith (key : Key) (m : Message) : EndsAlike w (openWith w key m) := by
  unfold openWith
  split
  · exact (alike_emit _).bind fun _ => .ret _
  · exact .ret _

theorem alike_openUplink (m : Message) : EndsAlike w (openUplink w m) := by
  refine (alike_peerE2EKeys _).bind fun keys? => ?_
  cases keys? with
  | some keys => exact alike_openWith _ m
  | none => exact .ret _

theorem alike_openDownlink (m : Message) : EndsAlike w (openDownlink w m) := by
  refine alike_masterE2EKeys.bind fun keys? => ?_
  cases keys? with
  | some keys => exact alike_openWith _ m
  | none => exact .ret _

theorem alike_authorize (m : Message) (addressedToSelf : Bool) :
    EndsAlike w (authorize w m addressedToSelf) := by
  refine .read_bind (fun s t h => by rw [h.isMaster, h.enrollment]) fun s =>
    .ite (fun _ => .ret _) fun _ => Alike.bind ?_ fun opened? => ?_
  · exact .ite (fun _ => alike_openUplink m) fun _ => .ite (fun _ => alike_openDownlink m)
      fun _ => .ret _
  · cases opened? with
    | some opened => exact .ite (fun _ => .ret _) fun _ => .ret _
    | none => exact .ret _

/-! ### Route reports -/

theorem alike_verifyHops (m : Message) : ∀ (hops : List Mac) (prevHop : Mac) (computed : AuthPath),
    EndsAlike w (verifyHops w m hops prevHop computed)
  | [], _, _ => .ret _
  | hopMac :: hops, prevHop, computed => by
    refine (alike_peerE2EKeys hopMac).bind fun keys? => ?_
    cases keys? with
    | some keys => exact alike_verifyHops m hops hopMac _
    | none => exact .ret _

theorem alike_acceptRouteReport (m : Message) {externalRecvCallback : Message → MeshM Unit}
    (hcb : ∀ m, EndsAlike w (externalRecvCallback m)) :
    EndsAlike w (acceptRouteReport w m externalRecvCallback) := by
  refine (alike_peerE2EKeys _).bind fun keys? => ?_
  cases keys? with
  | none => exact .ret _
  | some keys =>
    refine (alike_openWith _ m).bind fun opened? => ?_
    cases opened? with
    | none => exact .ret _
    | some opened =>
      refine .ite (fun _ => .ret _) fun _ => ?_
      refine (alike_verifyHops m _ _ _).bind fun computed => .ite (fun _ => ?_) fun _ => .ret _
      refine Alike.bind ?_ fun _ => hcb opened
      exact alike_update
        (g := fun u =>
          { u with
            routes :=
              u.routes.map fun routes => routes.record m.originMac m.routePath m.routeLen w.nowMs })
        (fun _ => rfl) fun _ h => h

section Dispatch

variable (hdisplay : w.config.enableSevsegDisplay = true → w.displayAck = true)
include hdisplay

theorem alike_relayRouteReport (m : Message) : EndsAlike w (relayRouteReport w m) := by
  refine .read_bind (fun s t h => by rw [h.deviceMac, h.isMaster]) fun s =>
    .ite (fun _ => .ret _) fun _ => ?_
  refine alike_masterE2EKeys.bind fun keys? => ?_
  cases keys? with
  | none => exact .ret _
  | some keys => exact alike_transmitCore hdisplay _ _ _ _ _

theorem alike_processRouteReport (m : Message) {externalRecvCallback : Message → MeshM Unit}
    (hcb : ∀ m, EndsAlike w (externalRecvCallback m)) :
    EndsAlike w (processRouteReport w m externalRecvCallback) :=
  .read_bind (fun s t h => by rw [h.isMaster]) fun _ =>
    .ite (fun _ => alike_acceptRouteReport m hcb) fun _ => alike_relayRouteReport hdisplay m

/-! ### Received frames -/

theorem alike_deliverAdapterData (m : Message) (addressedToSelf isBroadcastTarget : Bool) :
    EndsAlike w (deliverAdapterData w m addressedToSelf isBroadcastTarget) := by
  refine (alike_authorize m addressedToSelf).bind fun opened? => ?_
  cases opened? with
  | none => exact .ret _
  | some opened =>
    refine (alike_externalRecvCallback hdisplay 2 opened).bind fun _ => ?_
    exact .read_bind (fun s t h => by rw [h.isMaster]) fun _ =>
      .ite (fun _ => Hushed.alike fun _ => hush_relayDownlink hdisplay m) fun _ => .ret _

theorem alike_routeAdapterData (m : Message) (addressedToSelf isBroadcastTarget : Bool)
    (d : RouteDecision) :
    EndsAlike w (routeAdapterData w m addressedToSelf isBroadcastTarget d) := by
  cases d with
  | dropHopLimitExceeded => exact .ret _
  | relayTowardMaster =>
    exact .read_bind (fun s t h => by rw [h.deviceMac, h.isMaster]) fun _ =>
      alike_transmitCore hdisplay _ _ _ _ _
  | forwardOnRoute nextHop =>
    exact .read_bind (fun s t h => by rw [h.deviceMac]) fun _ => Hushed.alike fun _ =>
      .bind (hush_registerDownlinkPeer hdisplay nextHop) fun _ _ _ =>
        hush_sendMessage hdisplay nextHop _ _
  | flood => exact Hushed.alike fun _ => hush_relayDownlink hdisplay m
  | notRouted => exact alike_deliverAdapterData hdisplay m addressedToSelf isBroadcastTarget

theorem alike_processAdapterData (m : Message) : EndsAlike w (processAdapterData w m) := by
  refine .read_bind (fun s t h => ?_) fun s => alike_routeAdapterData hdisplay m _ _ _
  unfold Node.routeDecision Node.addressedToMaster
  rw [h.deviceMac, h.isMaster, h.enrollment, h.currentMaster]

theorem alike_processEnrollment (m : Message) : EndsAlike w (processEnrollment w m) := by
  refine .read_bind (fun s t h => by rw [h.isMaster]) fun _ => .ite (fun _ => ?_) fun _ => ?_
  · exact (alike_registerPeerWithKey hdisplay _ _).bind fun _ => alike_processRequest m
  · exact Hushed.alike fun _ => hush_relayEnrollmentUplink hdisplay m

/-- **A frame that passed the replay check does the same to twins.** -/
theorem alike_dispatchMessage (m : Message) : EndsAlike w (dispatchMessage w m) :=
  .ite (fun _ => alike_processEnrollment hdisplay m) fun _ =>
    .ite (fun _ => alike_dispatchJoinAck hdisplay m) fun _ =>
      .ite (fun _ => alike_processBeacon m) fun _ =>
        .ite (fun _ => alike_processAdapterData hdisplay m) fun _ =>
          .ite (fun _ => alike_processRouteReport hdisplay m
            (alike_externalRecvCallback hdisplay 2)) fun _ => .ret _

end Dispatch

end LatticeMesh
