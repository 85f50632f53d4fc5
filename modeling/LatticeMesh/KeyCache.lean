import LatticeMesh.PeerKeys
import LatticeMesh.DevMode

/-!
# The cache of derived keys beside the registry

The cache of derived keys is keyed by the address alone.  A call that gives an address another
public key leaves the keys cached for it alone, and the next lookup finds them there: the cache has
a way to drop its entries, which no call uses.

## Main definitions

* `KeyOp`, `KeyOp.run` — the calls on the registry and on the cache.
* `LookupsFresh` — a lookup returns the keys that the registered public key derives.
* `KeyOp.Coherent` — a registration finds no other keys cached for its address.

## Main results

* `lookupsFresh_run` — **lookups are fresh, as long as every registration finds no other keys
  cached.**
* `not_lookupsFresh_rekeyed` — a removed node that comes back with a new key is found under the old
  one.
-/

namespace LatticeMesh

open EffectSpec

variable {w : World} {s t : Node} {c : Crypto}

/-! ### Calls -/

/-- The calls on the registry and on the cache of derived keys. -/
inductive KeyOp
  | registerPeerWithKey (mac : Mac) (publicKey : Key) (allowRekey : Bool)
  | removePeer (mac : Mac)
  /-- The approval of a node, be it the first one or a later one. -/
  | enrollPeer (mac : Mac) (secondary : Option (Mac × Key))
  | setCapacity (maxEntries : ℕ)
  | peerE2EKeys (originMac : Mac)
  | masterE2EKeys
  deriving DecidableEq

/-- What a call does. -/
def KeyOp.run (w : World) : KeyOp → MeshM Unit
  | .registerPeerWithKey mac key allowRekey => do
    let _ ← LatticeMesh.registerPeerWithKey w mac key allowRekey
  | .removePeer mac => removeAndPersist w mac
  | .enrollPeer mac secondary => LatticeMesh.enrollPeer w mac secondary
  | .setCapacity n => modify fun s => { s with e2eKeys := s.e2eKeys.setCapacity n }
  | .peerE2EKeys mac => do
    let _ ← LatticeMesh.peerE2EKeys w mac
  | .masterE2EKeys => do
    let _ ← LatticeMesh.masterE2EKeys w

/-- The keys are those that the public key registered for the address derives. -/
def DerivedNow (w : World) (s : Node) (mac : Mac) (keys : E2EKeys) : Prop :=
  ∃ key, s.peers.keyOf mac = some key ∧
    deriveE2EKeys w s.enrollment.devicePrivateKey key s = .ok keys s

/-- Whatever keys a lookup returns, the registered public key derives them. -/
structure LookupsFresh (w : World) (s : Node) : Prop where
  peer : ∀ mac keys t, peerE2EKeys w mac s = .ok (some keys) t → DerivedNow w s mac keys
  master : ∀ keys t, masterE2EKeys w s = .ok (some keys) t →
    DerivedNow w s s.currentMaster.mac keys

/-- A registration that stores a key finds no keys cached for the address but those that the new key
derives. -/
def KeyOp.Coherent (c : Crypto) (s : Node) : KeyOp → Prop
  | .registerPeerWithKey mac key allowRekey => s.peers.stores mac allowRekey = true →
    s.e2eKeys.Holds fun e =>
      e.mac = mac → e2eKeysOf c s.enrollment.devicePrivateKey key = some e.keys
  | _ => True

instance (c : Crypto) (s : Node) : ∀ op : KeyOp, Decidable (op.Coherent c s)
  | .registerPeerWithKey _ _ _ => inferInstanceAs (Decidable (_ → _))
  | .removePeer _ | .enrollPeer _ _ | .setCapacity _ | .peerE2EKeys _ | .masterE2EKeys =>
    isTrue trivial

/-! ### The registry, the cache and the own key -/

/-- What the lookups of keys depend on is as before. -/
structure KeysKept (s t : Node) : Prop where
  peers : t.peers = s.peers
  e2eKeys : t.e2eKeys = s.e2eKeys
  enrollment : t.enrollment = s.enrollment

theorem KeysKept.refl (s : Node) : KeysKept s s := ⟨rfl, rfl, rfl⟩

theorem KeysKept.trans {u : Node} (h : KeysKept s t) (h' : KeysKept t u) : KeysKept s u :=
  ⟨h'.1.trans h.1, h'.2.trans h.2, h'.3.trans h.3⟩

theorem keysKept_fail {ty : ErrorTypeDigit} {m : ModuleDigit} {sub : ℕ} {text : String} :
    wp (fail w ty m sub text) (fun _ t => KeysKept s t) (fun _ _ => True) s :=
  wp_signalError (fun _ _ => trivial) (fun _ => trivial) fun _ => ⟨rfl, rfl, rfl⟩

theorem keysKept_saveToEEPROM :
    wp (saveToEEPROM w) (fun _ t => KeysKept s t) (fun _ _ => True) s := by
  unfold saveToEEPROM
  rw [wp_bind, wp_get]
  refine wp_mono _ (fun _ t ht => ?_) (fun _ _ _ => trivial) (wp_writePeerSlots s.peers.records)
  rw [ht.rest]
  exact ⟨rfl, rfl, rfl⟩

theorem keysKept_registerPeerWithEspNow {mac : Mac} :
    wp (registerPeerWithEspNow w mac) (fun _ t => KeysKept s t) (fun _ _ => True) s := by
  unfold registerPeerWithEspNow
  rw [wp_bind, wp_get]
  split
  · exact .refl s
  split
  · exact ⟨rfl, rfl, rfl⟩
  · exact keysKept_fail

theorem keysKept_enrollPeerWithRadio {mac : Mac} :
    wp (enrollPeerWithRadio w mac) (fun _ t => KeysKept s t) (fun _ _ => True) s := by
  show wp (espNowDelPeer mac >>= fun _ => registerPeerWithEspNow w mac) _ _ _
  unfold espNowDelPeer
  rw [wp_bind, wp_modify]
  exact wp_mono _ (fun _ _ h => ⟨h.1, h.2, h.3⟩) (fun _ _ h => h) keysKept_registerPeerWithEspNow

theorem keysKept_drawn (s : Node) : KeysKept s s.drawn := by
  refine ⟨s.drawn_peers.1, s.drawn_e2eKeys, ?_⟩
  unfold Node.drawn Node.savedEpoch
  split
  · split <;> rfl
  · rfl

theorem keysKept_sendBroadcast {m : Message} :
    wp (sendBroadcast w m) (fun _ t => KeysKept s t) (fun _ _ => True) s := by
  unfold sendBroadcast espNowSend
  rw [wp_bind, wp_bind, wp_get]
  split
  · rw [wp_bind, wp_emit]
    exact ⟨rfl, rfl, rfl⟩
  · exact .refl s

/-! ### What each call does -/

/-- What a registration does to the registered keys. -/
structure KeyRegistered (s : Node) (mac : Mac) (key : Key) (allowRekey : Bool) (t : Node) :
    Prop where
  e2eKeys : t.e2eKeys = s.e2eKeys
  enrollment : t.enrollment = s.enrollment
  macs : t.peers.macs = s.peers.macs ∨ t.peers.macs = s.peers.macs ++ [mac] ∧ mac ∉ s.peers.macs
  keyOf : ∀ mac', t.peers.keyOf mac' =
    if s.peers.stores mac allowRekey = true ∧ mac' = mac then some key else s.peers.keyOf mac'

/-- A registration that stores nothing leaves the keys alone. -/
theorem KeyRegistered.of_not_stores {mac : Mac} {key : Key} {allowRekey : Bool}
    (hs : s.peers.stores mac allowRekey = false) (r : PeerRegistry) (hm : r.macs = s.peers.macs)
    (hk : ∀ mac', r.keyOf mac' = s.peers.keyOf mac') :
    KeyRegistered s mac key allowRekey { s with peers := r } := by
  refine ⟨rfl, rfl, .inl hm, fun mac' => ?_⟩
  rw [if_neg (by rw [hs]; simp)]
  exact hk mac'

theorem keyRegistered_registerPeerWithKey {mac : Mac} {key : Key} {allowRekey : Bool} :
    wp (registerPeerWithKey w mac key allowRekey)
      (fun _ t => KeyRegistered s mac key allowRekey t) (fun _ _ => True) s := by
  refine wp_registration (fun hs => ?_) fun hno => ?_
  · rw [wp_bind]
    refine wp_mono _ (fun _ u hu => ?_) (fun _ _ h => h) keysKept_saveToEEPROM
    rw [wp_bind]
    refine wp_mono _ (fun _ t ht => ?_) (fun _ _ h => h) keysKept_enrollPeerWithRadio
    have hrt := hu.trans ht
    have hroom : (s.peers.find mac).isSome ∨ s.peers.count < maxPeers := by
      simp only [PeerRegistry.stores, Bool.and_eq_true] at hs
      simpa using hs.2
    have hp : t.peers = s.peers.register mac key w.nowMs := hrt.peers.trans (if_pos hs)
    refine ⟨hrt.e2eKeys, hrt.enrollment, ?_, fun mac' => ?_⟩
    · rw [hp, s.peers.macs_register_eq key w.nowMs hroom]
      split
      · exact .inl rfl
      · rename_i hnew
        exact .inr ⟨rfl, PeerRegistry.find_eq_none_iff.1 (by simpa using hnew)⟩
    · rw [hp, PeerRegistry.keyOf_register key w.nowMs hroom]
      simp [hs]
  · refine .of_not_stores hno _ (s.peers.macs_of_not_stores key w.nowMs hno) fun mac' => ?_
    rcases s.peers.registered_of_not_stores key w.nowMs hno with hr | hr
    · rw [hr]
      exact PeerRegistry.keyOf_touch _ _ _ _
    · rw [hr]

/-- Where every address is listed once, the key of an address is that of the peer listed. -/
theorem PeerRegistry.keyOf_eq_some {r : PeerRegistry} (hn : r.macs.Nodup) {mac : Mac} {key : Key} :
    r.keyOf mac = some key ↔ ∃ p ∈ r.peers, p.mac = mac ∧ p.publicKey = key := by
  constructor
  · intro h
    obtain ⟨p, hp, rfl⟩ := Option.map_eq_some_iff.1 h
    exact ⟨p, List.mem_of_find?_eq_some hp, find_mac hp, rfl⟩
  · rintro ⟨p, hp, rfl, rfl⟩
    have hsome : (r.find p.mac).isSome := by
      unfold find
      rw [List.find?_isSome]
      exact ⟨p, hp, by simp⟩
    obtain ⟨q, hq⟩ := Option.isSome_iff_exists.1 hsome
    have hqp : q = p :=
      List.inj_on_of_nodup_map hn (List.mem_of_find?_eq_some hq) hp (find_mac hq)
    rw [keyOf, hq, hqp]
    rfl

/-- A removal gives no address a key, and lists none twice. -/
theorem PeerRegistry.keyOf_remove {r : PeerRegistry} (hn : r.macs.Nodup) (mac : Mac) :
    (r.remove mac).macs.Nodup ∧
      ∀ mac' key, (r.remove mac).keyOf mac' = some key → r.keyOf mac' = some key := by
  -- what is left is a part of what was there, in another order
  have hpart : ∃ l, r.peers.Perm (l ++ (r.remove mac).peers) := by
    rcases removeMac_perm r.peers mac with ⟨p, -, hp⟩ | ⟨hsame, -⟩
    · exact ⟨[p], hp⟩
    · exact ⟨[], by simp [remove, hsame]⟩
  obtain ⟨l, hl⟩ := hpart
  have hmacs : (r.remove mac).macs.Nodup := by
    have hall : (l ++ (r.remove mac).peers).map PeerInfo.mac |>.Nodup :=
      (hl.map PeerInfo.mac).nodup_iff.1 hn
    rw [List.map_append] at hall
    exact (List.nodup_append.1 hall).2.1
  refine ⟨hmacs, fun mac' key hk => ?_⟩
  obtain ⟨p, hp, hm⟩ := (keyOf_eq_some hmacs).1 hk
  exact (keyOf_eq_some hn).2 ⟨p, hl.mem_iff.2 (List.mem_append_right l hp), hm⟩

theorem keysKept_removeAndPersist {mac : Mac} :
    wp (removeAndPersist w mac) (fun _ t => KeysKept { s with peers := s.peers.remove mac } t)
      (fun _ _ => True) s := by
  unfold removeAndPersist
  rw [wp_bind, wp_modify, wp_bind]
  refine wp_mono _ (fun _ t ht => ?_) (fun _ _ h => h) keysKept_saveToEEPROM
  rw [wp_bind, wp_get]
  split
  · exact ⟨ht.1, ht.2, ht.3⟩
  · exact wp_mono _ (fun _ _ hu => ht.trans hu) (fun _ _ h => h) (keysKept_fail (s := t))

/-- An approval registers the node under the key that is registered for it. -/
theorem keyRegistered_enrollPeer {mac : Mac} {secondary : Option (Mac × Key)} :
    wp (enrollPeer w mac secondary)
      (fun _ t => KeysKept s t ∨ ∃ key, s.peers.keyOf mac = some key ∧
        KeyRegistered s mac key true t) (fun _ _ => True) s := by
  unfold enrollPeer
  rw [wp_bind, wp_get]
  cases hp : s.peers.find mac with
  | none => exact .inl (.refl s)
  | some p =>
    have hkey : s.peers.keyOf mac = some p.publicKey := by rw [PeerRegistry.keyOf, hp]; rfl
    show wp (registerPeerWithKey w mac p.publicKey true >>= _) _ _ _
    rw [wp_bind]
    refine wp_mono _ (fun r u hu => ?_) (fun _ _ h => h) keyRegistered_registerPeerWithKey
    split
    · rw [wp_bind]
      refine wp_nextSeqGuarded ?_ fun _ _ _ _ => trivial
      rw [wp_bind, wp_get]
      refine wp_mono _ (fun _ t ht => .inr ⟨_, hkey, ?_⟩) (fun _ _ h => h) keysKept_sendBroadcast
      have hut := (keysKept_drawn u).trans ht
      exact ⟨hut.e2eKeys.trans hu.e2eKeys, hut.enrollment.trans hu.enrollment,
        by rw [hut.peers]; exact hu.macs, by rw [hut.peers]; exact hu.keyOf⟩
    · exact .inr ⟨_, hkey, hu⟩

/-! ### The cache follows the registry -/

/-- Every address is listed once, and the keys cached for an address that is listed are those that
its public key derives. -/
structure CacheCurrent (c : Crypto) (s : Node) : Prop where
  nodup : s.peers.macs.Nodup
  current : s.e2eKeys.Holds fun e => ∀ key, s.peers.keyOf e.mac = some key →
    e2eKeysOf c s.enrollment.devicePrivateKey key = some e.keys

theorem CacheCurrent.keysKept (h : CacheCurrent c s) (ht : KeysKept s t) : CacheCurrent c t := by
  refine ⟨by rw [ht.peers]; exact h.nodup, ?_⟩
  rw [ht.e2eKeys, ht.peers, ht.enrollment]
  exact h.current

/-- A registration that stores a key which the cache agrees with keeps the cache current. -/
theorem CacheCurrent.registered {mac : Mac} {key : Key} {allowRekey : Bool}
    (h : CacheCurrent c s) (ht : KeyRegistered s mac key allowRekey t)
    (hc : KeyOp.Coherent c s (.registerPeerWithKey mac key allowRekey)) : CacheCurrent c t := by
  refine ⟨?_, ?_⟩
  · rcases ht.macs with hm | ⟨hm, hno⟩
    · rw [hm]
      exact h.nodup
    · rw [hm]
      exact List.nodup_append.2 ⟨h.nodup, List.nodup_singleton mac, by
        rintro a ha b hb rfl
        rw [List.mem_singleton.1 hb] at ha
        exact hno ha⟩
  · rw [ht.e2eKeys, ht.enrollment]
    intro i hi key' hk
    rw [ht.keyOf] at hk
    split at hk
    · rename_i hnew
      obtain rfl := Option.some.inj hk
      exact hc hnew.1 i hi hnew.2
    · exact h.current i hi key' hk

/-- What a lookup finds, the registered public key derives. -/
theorem CacheCurrent.keysOf (h : CacheCurrent c s) {mac : Mac} {keys : E2EKeys}
    (hk : s.keysOf c mac = some keys) : ∃ key, s.peers.keyOf mac = some key ∧
      e2eKeysOf c s.enrollment.devicePrivateKey key = some keys := by
  unfold Node.keysOf at hk
  cases hkey : s.peers.keyOf mac with
  | none => rw [hkey] at hk; cases hk
  | some key =>
    rw [hkey] at hk
    dsimp only at hk
    refine ⟨key, rfl, ?_⟩
    split at hk
    · cases hk
    cases hcached : s.e2eKeys.cached mac with
    | some cached =>
      rw [hcached] at hk
      obtain rfl := Option.some.inj hk
      exact h.current.of_cached hcached key hkey
    | none =>
      rw [hcached, Option.none_or] at hk
      split at hk
      · cases hk
      · exact hk

theorem CacheCurrent.lookedUp {mac : Mac} {r : Option E2EKeys} (h : CacheCurrent c s)
    (hr : r = s.keysOf c mac) (ht : LookedUp s mac r t) : CacheCurrent c t := by
  rcases ht with rfl | ⟨keys, rfl, rfl⟩
  · exact h
  · obtain ⟨key, hkey, hd⟩ := h.keysOf hr.symm
    refine ⟨h.nodup, E2EKeyStore.Holds.insert h.current fun key' hkey' => ?_⟩
    obtain rfl := Option.some.inj (hkey.symm.trans hkey')
    exact hd

/-- Keys that a public key determines are derived from it. -/
theorem deriveE2EKeys_eq {priv pub : Key} {keys : E2EKeys}
    (h : e2eKeysOf w.crypto priv pub = some keys) : deriveE2EKeys w priv pub s = .ok keys s := by
  have hwp : wp (deriveE2EKeys w priv pub) _ (fun _ _ => False) s :=
    wp_mono _ (fun _ _ h => h) (fun _ _ hno => by rw [h] at hno; cases hno) wp_deriveE2EKeys
  obtain ⟨keys', t, hr, rfl, hk⟩ := exists_ok hwp
  obtain rfl := Option.some.inj (h.symm.trans hk)
  exact hr

/-- The lookups are fresh where the cache is current. -/
theorem CacheCurrent.lookupsFresh (h : CacheCurrent w.crypto s) : LookupsFresh w s := by
  have hderived : ∀ mac keys, s.keysOf w.crypto mac = some keys → DerivedNow w s mac keys := by
    intro mac keys hk
    obtain ⟨key, hkey, hd⟩ := h.keysOf hk
    exact ⟨key, hkey, deriveE2EKeys_eq hd⟩
  refine ⟨fun mac keys t hr => ?_, fun keys t hr => ?_⟩
  · exact hderived mac keys (wp_ok hr wp_peerE2EKeys).1.symm
  · have hm : some keys = s.masterKeys w.crypto := (wp_ok hr wp_masterE2EKeys_eq).1
    unfold Node.masterKeys at hm
    split at hm
    · exact hderived _ keys hm.symm
    · cases hm

/-- A call that is coherent keeps the cache current. -/
theorem cacheCurrent_step {op : KeyOp} (h : CacheCurrent w.crypto s)
    (hc : op.Coherent w.crypto s) :
    wp (op.run w) (fun _ t => CacheCurrent w.crypto t) (fun _ _ => True) s := by
  cases op with
  | registerPeerWithKey mac key allowRekey =>
    show wp (LatticeMesh.registerPeerWithKey w mac key allowRekey >>= fun _ => pure ()) _ _ s
    rw [wp_bind]
    exact wp_mono _ (fun _ t ht => h.registered ht hc) (fun _ _ h => h)
      keyRegistered_registerPeerWithKey
  | removePeer mac =>
    -- a peer that leaves takes its key along, and what is cached stays current for the others
    refine wp_mono _ (fun _ t ht => ?_) (fun _ _ h => h) keysKept_removeAndPersist
    obtain ⟨hn, hk⟩ := PeerRegistry.keyOf_remove h.nodup mac
    have hrest : CacheCurrent w.crypto { s with peers := s.peers.remove mac } :=
      ⟨hn, fun i hi key hkey => h.current i hi key (hk _ key hkey)⟩
    exact hrest.keysKept ht
  | enrollPeer mac secondary =>
    refine wp_mono _ (fun _ t ht => ?_) (fun _ _ h => h) keyRegistered_enrollPeer
    rcases ht with ht | ⟨key, hkey, ht⟩
    · exact h.keysKept ht
    · -- the key that is stored is the one that was registered
      refine h.registered ht fun _ i hi he => h.current i hi key ?_
      rwa [he]
  | setCapacity n => exact ⟨h.nodup, E2EKeyStore.Holds.setCapacity h.current n⟩
  | peerE2EKeys mac =>
    show wp (LatticeMesh.peerE2EKeys w mac >>= fun _ => pure ()) _ _ s
    rw [wp_bind]
    exact wp_mono _ (fun _ t ht => h.lookedUp ht.1 ht.2) (fun _ _ _ => trivial) wp_peerE2EKeys
  | masterE2EKeys =>
    show wp (LatticeMesh.masterE2EKeys w >>= fun _ => pure ()) _ _ s
    rw [wp_bind]
    refine wp_mono _ (fun r t ht => ?_) (fun _ _ _ => trivial) wp_masterE2EKeys_eq
    obtain ⟨hr, ht⟩ := ht
    unfold Node.masterKeys at hr
    split at hr
    · exact h.lookedUp hr ht
    · rcases ht with rfl | ⟨keys, rfl, -⟩
      · exact h
      · cases hr

/-- A call in the given surroundings. -/
def KeyOp.call (b : Board) (x : Env × KeyOp) : MeshM Unit := x.2.run (b.world x.1)

/-- **A lookup returns the keys that the registered public key derives**, in every state that a
sequence of calls on a fresh cache reaches, as long as every registration that stores a key finds no
other keys cached for its address. -/
theorem lookupsFresh_run {b : Board} {n : ℕ} {xs : List (Env × KeyOp)}
    (hs : s.e2eKeys = E2EKeyStore.ofCapacity n) (hn : s.peers.macs.Nodup)
    (hc : Calls.Admits (KeyOp.call b) (fun s x => x.2.Coherent b.crypto s) s xs)
    (ht : Runs.run (Calls.step (KeyOp.call b)) (some s) xs = some t) (e : Env) :
    LookupsFresh (b.world e) t := by
  have h0 : CacheCurrent b.crypto s := by
    refine ⟨hn, ?_⟩
    rw [hs]
    exact E2EKeyStore.holds_ofCapacity n
  have h := Calls.invariant (I := CacheCurrent b.crypto)
    (fun s x h hx => cacheCurrent_step (w := b.world x.1) h hx) h0 hc ht
  exact CacheCurrent.lookupsFresh (w := b.world e) h

namespace Sample

/-- A call at the master. -/
def keyCall (op : KeyOp) : Env × KeyOp := (env 1 100, op)

/-- The master looks up the keys of a node, which is removed and registers again under the given
key. -/
def comesBack (publicKey : Key) : List (Env × KeyOp) :=
  [keyCall (.peerE2EKeys (mac 1)), keyCall (.removePeer (mac 1)),
    keyCall (.registerPeerWithKey (mac 1) publicKey false)]

/-- The registry, the cache and the radio of a master that has enrolled one node. -/
def oneEnrolled : Node := { masterNode [1] with radioPeers := [broadcastMac, mac 1] }

end Sample

/-- A node that was removed comes back with the key it had. -/
theorem lookupsFresh_same_key : ∃ t, Runs.run (Calls.step (KeyOp.call Sample.board))
    (some Sample.oneEnrolled) (Sample.comesBack (Sample.key 1)) = some t ∧
      LookupsFresh (Sample.board.world (Sample.env 1 100)) t := by
  have ht : Runs.run (Calls.step (KeyOp.call Sample.board)) (some Sample.oneEnrolled)
    (Sample.comesBack (Sample.key 1)) = some _ := rfl
  refine ⟨_, ht, lookupsFresh_run (n := e2eKeycacheMax) rfl (by decide) ?_ ht _⟩
  refine ⟨?_, ?_, ?_, trivial⟩ <;> rintro _ ⟨⟩
  · trivial
  · trivial
  · exact fun _ => by decide

/-- **A node that comes back with a new key is found under its old one.**  The lookup returns the
keys that the removed public key derives. -/
theorem not_lookupsFresh_rekeyed : ¬∀ (b : Board) (s t : Node) (n : ℕ) (xs : List (Env × KeyOp))
    (e : Env), s.e2eKeys = E2EKeyStore.ofCapacity n → s.peers.macs.Nodup →
      Runs.run (Calls.step (KeyOp.call b)) (some s) xs = some t → LookupsFresh (b.world e) t := by
  intro h
  have ht : Runs.run (Calls.step (KeyOp.call Sample.board)) (some Sample.oneEnrolled)
    (Sample.comesBack (Sample.key 2)) = some _ := rfl
  have hfresh := h _ _ _ e2eKeycacheMax _ (Sample.env 1 100) rfl (by decide) ht
  obtain ⟨key, hkey, hd⟩ := hfresh.peer (Sample.mac 1) (Sample.sharedKeys 1) _ rfl
  obtain rfl : Sample.key 2 = key := Option.some.inj hkey
  have hold : e2eKeysOf Sample.crypto (Sample.key 7) (Sample.key 2) = some (Sample.sharedKeys 1) :=
    (wp_ok hd wp_deriveE2EKeys).2
  exact absurd hold (by decide)

end LatticeMesh
