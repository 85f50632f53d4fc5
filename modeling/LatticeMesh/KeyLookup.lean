import LatticeMesh.Handlers

/-!
# Key lookups

What the lookup of the keys shared with an address finds, for a node that knows where its keys come
from.  The cache that the lookup fills may drop the keys of any other address, which are then
derived anew: the keys stay the same.

## Main definitions

* `KnowsKeys` — the uplink keys that a node has cached or derives are those of a given map.
* `Usable` — an address that is enrolled with a public key which the derivation takes.
* `LookedUp` — the cache after a lookup.
* `CacheCoherent` — the cached keys are derived from the registered ones.

## Main results

* `wp_peerE2EKeys`, `wp_masterE2EKeys` — what the lookups find, and what they leave behind.
* `KnowsKeys.lookedUp`, `Usable.lookedUp` — a lookup leaves the keys of every address as they are.
-/

namespace LatticeMesh

open EffectSpec

variable {w : World} {s : Node} {c : Crypto}

/-- Where the keys that a node shares with each address come from: their uplink halves are those of
`keyAt`, cached or derived anew. -/
structure KnowsKeys (c : Crypto) (s : Node) (keyAt : Mac → Key) : Prop where
  cached : s.e2eKeys.Holds fun e => e.keys.kUp = keyAt e.mac
  derived : ∀ mac key keys, s.peers.keyOf mac = some key →
    e2eKeysOf c s.enrollment.devicePrivateKey key = some keys → keys.kUp = keyAt mac

/-- The address is enrolled with a public key that the key derivation takes. -/
structure Usable (c : Crypto) (s : Node) (mac : Mac) : Prop where
  capacity : s.e2eKeys.capacity ≠ 0
  keyed : ∃ key, s.peers.keyOf mac = some key ∧ key.isZero = false ∧
    (e2eKeysOf c s.enrollment.devicePrivateKey key).isSome

/-- The cache after a lookup: as before, or with the keys that were found. -/
def LookedUp (s : Node) (mac : Mac) (r : Option E2EKeys) (t : Node) : Prop :=
  t = s ∨ ∃ keys, r = some keys ∧ t = { s with e2eKeys := s.e2eKeys.insert mac keys }

variable {keyAt : Mac → Key} {mac : Mac}

/-- The keys that a lookup finds. -/
theorem KnowsKeys.of_keysOf (h : KnowsKeys c s keyAt) {keys : E2EKeys}
    (hk : s.keysOf c mac = some keys) : keys.kUp = keyAt mac := by
  unfold Node.keysOf at hk
  split at hk
  · cases hk
  · rename_i key hkey
    split at hk
    · cases hk
    · cases hc : s.e2eKeys.cached mac with
      | some cached =>
        rw [hc] at hk
        obtain rfl := Option.some.inj hk
        exact h.cached.of_cached hc
      | none =>
        rw [hc, Option.none_or] at hk
        split at hk
        · cases hk
        · exact h.derived mac key keys hkey hk

theorem Usable.keysOf_ne_none (h : Usable c s mac) : s.keysOf c mac ≠ none := by
  obtain ⟨key, hkey, hz, hd⟩ := h.keyed
  unfold Node.keysOf
  rw [hkey]
  dsimp only
  rw [if_neg h.capacity, if_neg (by rw [hz]; decide)]
  cases s.e2eKeys.cached mac with
  | some _ => exact Option.some_ne_none _
  | none =>
    intro hnone
    rw [Option.none_or] at hnone
    rw [hnone] at hd
    cases hd

/-- A lookup leaves the keys of every address as they are. -/
theorem KnowsKeys.lookedUp {t : Node} {r : Option E2EKeys} (h : KnowsKeys c s keyAt)
    (hr : r = s.keysOf c mac) (ht : LookedUp s mac r t) : KnowsKeys c t keyAt := by
  rcases ht with rfl | ⟨keys, rfl, rfl⟩
  · exact h
  · exact ⟨h.cached.insert (h.of_keysOf hr.symm), h.derived⟩

theorem Usable.lookedUp {t : Node} {r : Option E2EKeys} {mac' : Mac} (h : Usable c s mac')
    (ht : LookedUp s mac r t) : Usable c t mac' := by
  rcases ht with rfl | ⟨keys, rfl, rfl⟩
  · exact h
  · exact ⟨by rw [E2EKeyStore.capacity_insert]; exact h.capacity, h.keyed⟩

/-! ### A coherent cache -/

/-- The cached keys are derived from the registered public keys, which are not zero. -/
def CacheCoherent (c : Crypto) (s : Node) : Prop :=
  s.e2eKeys.Holds fun entry => ∃ key, s.peers.keyOf entry.mac = some key ∧ key.isZero = false ∧
    e2eKeysOf c s.enrollment.devicePrivateKey key = some entry.keys

/-- The keys that a coherent cache holds for an address are the ones it would derive. -/
theorem CacheCoherent.keysFor {c : Crypto} (h : CacheCoherent c s) {mac : Mac} {keys : E2EKeys}
    (hk : KeysFor c s mac keys) : ∃ key, s.peers.keyOf mac = some key ∧ key.isZero = false ∧
      e2eKeysOf c s.enrollment.devicePrivateKey key = some keys := by
  obtain ⟨-, key, hkey, hcached | ⟨hz, hd⟩⟩ := hk
  · exact h.of_cached hcached
  · exact ⟨key, hkey, hz, hd⟩

/-- The keys that a lookup finds are derived from the registered key. -/
theorem CacheCoherent.keysOf (h : CacheCoherent c s) {mac : Mac} {keys : E2EKeys}
    (hk : s.keysOf c mac = some keys) : ∃ key, s.peers.keyOf mac = some key ∧ key.isZero = false ∧
      e2eKeysOf c s.enrollment.devicePrivateKey key = some keys := by
  unfold Node.keysOf at hk
  cases hkey : s.peers.keyOf mac with
  | none => rw [hkey] at hk; cases hk
  | some key =>
    rw [hkey] at hk
    dsimp only at hk
    split at hk
    · cases hk
    · rename_i h0
      refine hkey ▸ h.keysFor ⟨h0, key, hkey, ?_⟩
      cases hc : s.e2eKeys.cached mac with
      | some keys' =>
        rw [hc] at hk
        exact .inl (hk ▸ rfl)
      | none =>
        rw [hc, Option.none_or] at hk
        split at hk
        · cases hk
        · exact .inr ⟨by simpa using ‹¬key.isZero = true›, hk⟩

/-- Conversely, the lookup finds what is derived from the registered key. -/
theorem CacheCoherent.keysOf_eq (h : CacheCoherent c s) {mac : Mac} {key : Key} {keys : E2EKeys}
    (h0 : s.e2eKeys.capacity ≠ 0) (hkey : s.peers.keyOf mac = some key) (hz : key.isZero = false)
    (hd : e2eKeysOf c s.enrollment.devicePrivateKey key = some keys) :
    s.keysOf c mac = some keys := by
  unfold Node.keysOf
  rw [hkey]
  dsimp only
  rw [if_neg h0, if_neg (by simp [hz]), hd]
  cases hc : s.e2eKeys.cached mac with
  | none => rfl
  | some keys' =>
    obtain ⟨key', hkey', -, hd'⟩ := h.of_cached hc
    obtain rfl := Option.some.inj (hkey.symm.trans hkey')
    exact hd'.symm.trans hd

/-- The uplink key that the registered key of an address derives. -/
def Node.uplinkKeyAt (c : Crypto) (s : Node) (mac : Mac) : Key :=
  ((s.peers.keyOf mac).bind fun key =>
    (e2eKeysOf c s.enrollment.devicePrivateKey key).map E2EKeys.kUp).getD (Bytes.zero 32)

theorem Node.uplinkKeyAt_eq {key : Key} {keys : E2EKeys} (hkey : s.peers.keyOf mac = some key)
    (hd : e2eKeysOf c s.enrollment.devicePrivateKey key = some keys) :
    s.uplinkKeyAt c mac = keys.kUp := by
  rw [Node.uplinkKeyAt, hkey, Option.bind_some, hd]
  rfl

/-- With a coherent cache every lookup finds what is derived. -/
theorem CacheCoherent.knowsKeys (h : CacheCoherent c s) : KnowsKeys c s (s.uplinkKeyAt c) := by
  refine ⟨fun i hi => ?_, fun mac key keys hkey hd => (Node.uplinkKeyAt_eq hkey hd).symm⟩
  obtain ⟨key, hkey, -, hd⟩ := h i hi
  exact (Node.uplinkKeyAt_eq hkey hd).symm

/-- With a coherent cache only usable addresses are found. -/
theorem CacheCoherent.usable (h : CacheCoherent c s) {keys : E2EKeys}
    (hk : s.keysOf c mac = some keys) : Usable c s mac := by
  obtain ⟨key, hkey, hz, hd⟩ := h.keysOf hk
  refine ⟨fun h0 => ?_, key, hkey, hz, by rw [hd]; rfl⟩
  unfold Node.keysOf at hk
  rw [hkey] at hk
  dsimp only at hk
  rw [if_pos h0] at hk
  cases hk

/-- A lookup leaves a coherent cache coherent. -/
theorem CacheCoherent.lookedUp {t : Node} {r : Option E2EKeys} (h : CacheCoherent c s)
    (hr : r = s.keysOf c mac) (ht : LookedUp s mac r t) : CacheCoherent c t := by
  rcases ht with rfl | ⟨keys, rfl, rfl⟩
  · exact h
  · exact E2EKeyStore.Holds.insert h (h.keysOf hr.symm)

theorem Usable.of_lookedUp {t : Node} {r : Option E2EKeys} {mac' : Mac} (h : Usable c t mac')
    (ht : LookedUp s mac r t) : Usable c s mac' := by
  rcases ht with rfl | ⟨keys, rfl, rfl⟩
  · exact h
  · exact ⟨fun h0 => h.capacity (by rw [E2EKeyStore.capacity_insert]; exact h0), h.keyed⟩

/-! ### The lookups -/

/-- A fatal error is never followed by anything. -/
theorem wp_fatal {α : Type} {t : ErrorTypeDigit} {d : ModuleDigit} {sub : ℕ} {text : String}
    {Q : α → Node → Prop} {E : Halt → Node → Prop} (hE : ∀ e u, E e u) :
    wp (fatal w t d sub text : MeshM α) Q E s := by
  unfold fatal
  rw [wp_bind, wp_emit, wp_bind]
  exact wp_signalError (fun _ _ => hE _ _) (fun _ => hE _ _) fun _ => hE _ _

/-- Deriving the keys that a private and a public key determine. -/
theorem wp_deriveE2EKeys {priv pub : Key} :
    wp (deriveE2EKeys w priv pub) (fun keys t => t = s ∧ e2eKeysOf w.crypto priv pub = some keys)
      (fun _ _ => e2eKeysOf w.crypto priv pub = none) s := by
  unfold deriveE2EKeys computeSharedSecret e2eKeysOf
  rw [wp_bind]
  cases hs : w.crypto.x25519Shared priv pub with
  | none => exact wp_fatal fun _ _ => rfl
  | some secret =>
    dsimp only
    rw [wp_pure]
    cases hu : w.crypto.hkdfSha256 secret upLabel with
    | none => exact wp_fatal fun _ _ => by simp [hu]
    | some kUp =>
      cases hd : w.crypto.hkdfSha256 secret downLabel with
      | none => exact wp_fatal fun _ _ => by simp [hu, hd]
      | some kDown => exact ⟨rfl, by simp [hu, hd]⟩

/-- A key lookup; it is abandoned only over a key that the derivation does not take. -/
theorem wp_peerE2EKeys :
    wp (peerE2EKeys w mac) (fun r t => r = s.keysOf w.crypto mac ∧ LookedUp s mac r t)
      (fun _ _ => s.keysOf w.crypto mac = none) s := by
  unfold peerE2EKeys
  rw [wp_bind, wp_get]
  cases hp : s.peers.find mac with
  -- an address that is not registered
  | none =>
    refine ⟨?_, .inl rfl⟩
    rw [Node.keysOf, PeerRegistry.keyOf, hp]
    rfl
  | some p =>
    obtain rfl : p.mac = mac := PeerRegistry.find_mac hp
    have hkey : s.peers.keyOf p.mac = some p.publicKey := by rw [PeerRegistry.keyOf, hp]; rfl
    show wp (getKeys w p.mac s.enrollment.devicePrivateKey p.publicKey) _ _ s
    unfold getKeys
    rw [wp_bind, wp_get]
    split
    -- a cache without slots finds and keeps nothing
    · rename_i h0
      refine ⟨?_, .inl rfl⟩
      rw [Node.keysOf, hkey]
      simp [h0]
    rename_i h0
    cases hc : s.e2eKeys.cached p.mac with
    -- the keys are in the cache
    | some keys =>
      refine ⟨?_, .inl rfl⟩
      rw [Node.keysOf, hkey]
      simp [h0, hc]
    | none =>
      dsimp only
      split
      -- no key is established for the address
      · rename_i hz
        refine ⟨?_, .inl rfl⟩
        rw [Node.keysOf, hkey]
        simp [h0, hc, hz]
      rename_i hz
      rw [wp_bind]
      -- the keys are derived and cached, or the public key is rejected
      refine wp_mono _ (fun keys t ht => ?_) (fun _ _ hnone => ?_) wp_deriveE2EKeys
      · obtain ⟨rfl, hk⟩ := ht
        rw [wp_bind, wp_modify]
        refine ⟨?_, .inr ⟨keys, rfl, rfl⟩⟩
        rw [Node.keysOf, hkey]
        simp [h0, hc, hz, hk]
      · rw [Node.keysOf, hkey]
        simp [hc, hnone]

/-- The lookup of the keys of the master. -/
theorem wp_masterE2EKeys_eq :
    wp (masterE2EKeys w) (fun r t => r = s.masterKeys w.crypto ∧ LookedUp s s.currentMaster.mac r t)
      (fun _ _ => s.masterKeys w.crypto = none) s := by
  unfold masterE2EKeys Node.masterKeys
  rw [wp_bind, wp_get]
  split
  · exact wp_peerE2EKeys
  · exact ⟨rfl, .inl rfl⟩

/-- The same, once the keys are known. -/
theorem wp_masterE2EKeys {keys : E2EKeys} (h : s.masterKeys w.crypto = some keys) :
    wp (masterE2EKeys w) (fun r t => r = some keys ∧ LookedUp s s.currentMaster.mac r t)
      (fun _ _ => False) s := by
  refine wp_mono _ (fun r t ht => ⟨ht.1.trans h, ht.2⟩) (fun _ _ hno => ?_) wp_masterE2EKeys_eq
  rw [h] at hno
  cases hno

/-! ### Sample nodes that share keys -/

namespace Sample

theorem opensSealed : crypto.OpensSealed := by
  rintro k nonce aad data cipher t hs
  obtain ⟨rfl, rfl⟩ := Prod.mk.inj (Option.some.inj hs)
  have hdata : (data.map (· ^^^ k.head)).map (· ^^^ k.head) = data := by
    apply List.Vector.eq
    rw [List.Vector.toList_map, List.Vector.toList_map, List.map_map]
    refine (List.map_congr_left fun x _ => ?_).trans (List.map_id _)
    show x ^^^ k.head ^^^ k.head = x
    rw [UInt8.xor_assoc, UInt8.xor_self, UInt8.xor_zero]
  show (if tag k nonce _ = tag k nonce ((data.map _).map _) then some _ else none) = some data
  rw [hdata, if_pos rfl]

/-- The keys that the master shares with the station `n`. -/
def sharedKeys (n : UInt8) : E2EKeys :=
  ⟨Bytes.fill 32 ((7 ^^^ n) + 1), Bytes.fill 32 ((7 ^^^ n) + 2)⟩

/-- The uplink keys as the master knows them. -/
def uplinkKey (m : Mac) : Key := (sharedKeys m.head).kUp

/-- The leaf `n`, which is enrolled with the master. -/
def leafNode (n : UInt8) : Node where
  deviceMac := Sample.mac n
  peers := { peers := [⟨Sample.mac 7, key 7, 0⟩], deviceMac := Sample.mac n }
  currentMaster := ⟨Sample.mac 7, 1⟩
  e2eKeys := E2EKeyStore.ofCapacity e2eKeycacheMaxLeaf
  enrollment :=
    { devicePrivateKey := key n, devicePublicKey := key n, hasMasterMac := true
      knownMasterMac := Sample.mac 7, enrolled := true }

/-- The master, with the given stations enrolled. -/
def masterNode (l : List UInt8) : Node where
  isMaster := true
  deviceMac := Sample.mac 7
  peers := { peers := (l.map fun n => ⟨Sample.mac n, key n, 0⟩).take maxPeers
             deviceMac := Sample.mac 7, length_le := List.length_take_le _ _ }
  routes := some RouteTable.empty
  enrollment := { devicePrivateKey := key 7, devicePublicKey := key 7 }

theorem masterNode_knowsKeys : KnowsKeys crypto (masterNode [1, 2, 3]) uplinkKey := by
  refine ⟨E2EKeyStore.holds_ofCapacity _, fun m k keys hk hkeys => ?_⟩
  obtain ⟨p, hp, rfl⟩ := Option.map_eq_some_iff.1 hk
  obtain rfl := PeerRegistry.find_mac hp
  have hmem : p ∈ [PeerInfo.mk (Sample.mac 1) (key 1) 0, ⟨Sample.mac 2, key 2, 0⟩,
      ⟨Sample.mac 3, key 3, 0⟩] := List.mem_of_find?_eq_some hp
  simp only [List.mem_cons, List.not_mem_nil, or_false] at hmem
  rcases hmem with rfl | rfl | rfl <;>
    · rw [← Option.some.inj hkeys]
      decide

theorem masterNode_usable {n : UInt8} (hn : n = 1 ∨ n = 2 ∨ n = 3) :
    Usable crypto (masterNode [1, 2, 3]) (Sample.mac n) := by
  rcases hn with rfl | rfl | rfl
  · exact ⟨by decide, key 1, by decide, by decide, by decide⟩
  · exact ⟨by decide, key 2, by decide, by decide, by decide⟩
  · exact ⟨by decide, key 3, by decide, by decide, by decide⟩

end Sample

end LatticeMesh
