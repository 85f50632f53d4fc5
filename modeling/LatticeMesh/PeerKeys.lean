import LatticeMesh.Reachable
import LatticeMesh.KeyLookup

/-!
# The keys of the registered peers

Which steps change the registry, in memory and in flash, and the two invariants that follow: what
every registration and every default peer promises of a peer's key holds of all peers, and the
cached keys are always those derived from the registered ones.

## Main definitions

* `PeerChange` — what one change does to the registry.
* `PeerRegistry.Refuses` — the registry is full, and does not have an address.
* `PeerRegistry.All`, `Nvs.AllPeers` — a property of all registered or stored peers.
* `PeerRule` — a property that every registration and every default peer promises.

## Main results

* `PeerRule.invariant` — **such a property holds of all peers in every reachable state.**
* `cacheCoherent_invariant` — **the cache is coherent in every reachable state.**
-/

namespace LatticeMesh

open EffectSpec Relation

variable {w : World} {s₀ s t : Node} {i : Input}

/-! ### Changes of the registry -/

/-- What one change does to the registry. -/
inductive PeerChange (w : World) (i : Input) (s t : Node) : Prop
  | same (hp : t.peers = s.peers) (hn : t.nvs.peer = s.nvs.peer)
  | touched {mac nowMs} (hp : t.peers = s.peers.touch mac nowMs) (hn : t.nvs.peer = s.nvs.peer)
  | wiped (hi : i = .resetButton) (hp : t.peers = s.peers) (hn : t.nvs = {})
  | registered {mac key} (h : MayRegister w i s mac key)
      (hc : (s.peers.find mac).isSome ∨ s.peers.count < maxPeers)
      (hp : t.peers = s.peers.register mac key w.nowMs)
      (hs : ∀ j, SlotSaved s.eeprom.isDevMode (t.peers.records j) (s.nvs.peer.get j)
        (t.nvs.peer.get j))

theorem Node.savedEpoch_peers (s : Node) (epoch : UInt32) :
    (s.savedEpoch epoch).peers = s.peers ∧ (s.savedEpoch epoch).nvs.peer = s.nvs.peer := by
  unfold Node.savedEpoch
  split <;> exact ⟨rfl, rfl⟩

theorem Node.drawn_peers (s : Node) :
    s.drawn.peers = s.peers ∧ s.drawn.nvs.peer = s.nvs.peer := by
  unfold Node.drawn
  split
  · exact s.savedEpoch_peers _
  · exact ⟨rfl, rfl⟩

theorem Node.saved_nvs_peer {op : NvsOp} (h : (op.apply s.nvs).peer = s.nvs.peer) :
    (s.saved op).nvs.peer = s.nvs.peer := by
  unfold Node.saved
  split
  · rfl
  · exact h

/-- Every change is one of these. -/
theorem Effect.peerChange (h : Effect w s₀ i s t) : PeerChange w i s t := by
  cases h with
  | quiet h =>
    rw [← h]
    exact .same rfl rfl
  | touch mac nowMs => exact .touched rfl rfl
  | setting op h =>
    refine .same rfl ?_
    cases op <;> first | rfl | cases h
  | wipe hi => exact .wiped hi rfl rfl
  | draw => exact .same s.drawn_peers.1 s.drawn_peers.2
  | build => exact .same s.drawn_peers.1 s.drawn_peers.2
  | register h hc hp hw hs => exact .registered h hc (by rw [hp]) hs
  | learnMaster mac =>
    exact .same (Node.saved_peers _ _) ((s.learnedMaster mac).saved_nvs_peer rfl)
  | learnSecondary mac =>
    exact .same (Node.saved_peers _ _) ((s.learnedSecondary mac).saved_nvs_peer rfl)
  | storeEnrolled => exact .same (Node.saved_peers _ _) (s.saved_nvs_peer rfl)
  | _ => exact .same rfl rfl

/-- A key that is established is never replaced by another one. -/
theorem MayRegister.key_eq {mac : Mac} {key key' : Key} (h : MayRegister w i s mac key)
    (hk : s.peers.keyOf mac = some key') (hz : key'.isZero = false) : key = key' := by
  have hest : s.peers.keyEstablished mac = true := by
    rw [PeerRegistry.keyEstablished_eq, hk]
    simp [hz]
  cases h with
  | enrollment _ _ _ hno | joinAck _ hno | secondary _ _ _ hno =>
    rw [hest] at hno
    cases hno
  | approved _ _ _ hp =>
    rw [PeerRegistry.keyOf, hp] at hk
    exact Option.some.inj hk

/-- Where a change leaves an established key. -/
theorem PeerChange.keyOf (h : PeerChange w i s t) {mac : Mac} {key : Key}
    (hk : s.peers.keyOf mac = some key) (hz : key.isZero = false) :
    t.peers.keyOf mac = some key := by
  cases h with
  | same hp | wiped _ hp =>
    rw [hp]
    exact hk
  | touched hp =>
    rw [hp, PeerRegistry.keyOf_touch]
    exact hk
  | @registered mac' key' h hc hp =>
    rw [hp, PeerRegistry.keyOf_register key' w.nowMs hc mac]
    by_cases hm : mac = mac'
    · rw [if_pos hm, h.key_eq (hm ▸ hk) hz]
    · rw [if_neg hm]
      exact hk

/-- A key that is established stays for the rest of the step. -/
theorem effects_keyOf (hst : ReflTransGen (Effect w s₀ i) s t) {mac : Mac} {key : Key}
    (hk : s.peers.keyOf mac = some key) (hz : key.isZero = false) :
    t.peers.keyOf mac = some key := by
  induction hst with
  | refl => exact hk
  | tail _ h ih => exact h.peerChange.keyOf ih hz

theorem effects_keyEstablished (hst : ReflTransGen (Effect w s₀ i) s t) {mac : Mac}
    (h : s.peers.keyEstablished mac = true) : t.peers.keyEstablished mac = true := by
  rw [PeerRegistry.keyEstablished_eq] at h ⊢
  cases hk : s.peers.keyOf mac with
  | none => rw [hk] at h; cases h
  | some key =>
    rw [hk] at h
    have hz : key.isZero = false := by simpa using h
    rw [effects_keyOf hst hk hz]
    simp [hz]

/-! ### A full registry -/

/-- The registry has no entry for an address, and no room for one. -/
def PeerRegistry.Refuses (r : PeerRegistry) (mac : Mac) : Prop :=
  r.find mac = none ∧ maxPeers ≤ r.count

instance (r : PeerRegistry) (mac : Mac) : Decidable (r.Refuses mac) :=
  inferInstanceAs (Decidable (_ ∧ _))

theorem PeerRegistry.not_refuses_iff {r : PeerRegistry} {mac : Mac} :
    ¬r.Refuses mac ↔ (r.find mac).isSome ∨ r.count < maxPeers := by
  rw [PeerRegistry.Refuses, not_and_or, not_le, ← ne_eq, ← Option.isSome_iff_ne_none]

/-- A registration stores its key unless another one is established or there is no room. -/
theorem PeerRegistry.stores_iff {r : PeerRegistry} {mac : Mac} :
    r.stores mac false = true ↔ r.keyEstablished mac = false ∧ ¬r.Refuses mac := by
  rw [PeerRegistry.not_refuses_iff]
  simp [PeerRegistry.stores]

theorem PeerRegistry.find_eq_none_iff_keyOf {r : PeerRegistry} {mac : Mac} :
    r.find mac = none ↔ r.keyOf mac = none := Option.map_eq_none_iff.symm

theorem PeerRegistry.count_update (r : PeerRegistry) {mac : Mac} {f : PeerInfo → PeerInfo} :
    (r.update mac f).count = r.count := List.length_replaceF

theorem PeerRegistry.count_updateLastSeen (r : PeerRegistry) (mac : Mac) (nowMs : UInt64) :
    (r.updateLastSeen mac nowMs).count = r.count := by
  unfold updateLastSeen
  split
  · rfl
  · exact count_update r

theorem PeerRegistry.Refuses.touch {r : PeerRegistry} {mac mac' : Mac} {nowMs : UInt64}
    (h : r.Refuses mac) : (r.touch mac' nowMs).Refuses mac := by
  refine ⟨?_, (count_update r).symm ▸ h.2⟩
  rw [find_eq_none_iff_keyOf, keyOf_touch, ← find_eq_none_iff_keyOf]
  exact h.1

theorem PeerRegistry.count_register {r : PeerRegistry} {mac : Mac} {key : Key} {nowMs : UInt64}
    (hf : (r.find mac).isSome) : (r.register mac key nowMs).count = r.count := by
  unfold PeerRegistry.register
  rw [if_pos hf]
  exact count_update r

/-- A full registry stays full, and takes no address that it does not have. -/
theorem PeerChange.refuses (h : PeerChange w i s t) {mac : Mac} (hr : s.peers.Refuses mac) :
    t.peers.Refuses mac := by
  cases h with
  | same hp | wiped _ hp => rwa [hp]
  | touched hp =>
    rw [hp]
    exact hr.touch
  | @registered mac' key _ hc hp =>
    have hf : (s.peers.find mac').isSome := hc.resolve_right (not_lt.2 hr.2)
    have hne : mac ≠ mac' := by
      rintro rfl
      rw [hr.1] at hf
      cases hf
    rw [hp]
    refine ⟨?_, (PeerRegistry.count_register hf).symm ▸ hr.2⟩
    rw [PeerRegistry.find_eq_none_iff_keyOf, PeerRegistry.keyOf_register key w.nowMs hc mac,
      if_neg hne, ← PeerRegistry.find_eq_none_iff_keyOf]
    exact hr.1

theorem effects_refuses (hst : ReflTransGen (Effect w s₀ i) s t) {mac : Mac}
    (hr : s.peers.Refuses mac) : t.peers.Refuses mac := by
  induction hst with
  | refl => exact hr
  | tail _ h ih => exact h.peerChange.refuses ih

/-- What a registration stores in the middle of a step it stores at the start of it. -/
theorem effects_stores (hst : ReflTransGen (Effect w s₀ i) s t) {mac : Mac}
    (h : t.peers.stores mac false = true) : s.peers.stores mac false = true := by
  obtain ⟨hk, hroom⟩ := PeerRegistry.stores_iff.1 h
  refine PeerRegistry.stores_iff.2 ⟨?_, fun hfull => hroom (effects_refuses hst hfull)⟩
  by_contra hest
  rw [Bool.not_eq_false] at hest
  rw [effects_keyEstablished hst hest] at hk
  cases hk

/-! ### Properties of all peers -/

/-- Every registered peer meets `P`. -/
def PeerRegistry.All (P : Mac → Key → Prop) (r : PeerRegistry) : Prop :=
  ∀ p ∈ r.peers, P p.mac p.publicKey

/-- Every stored peer meets `P`; a record with the broadcast address is never loaded. -/
def Nvs.AllPeers (P : Mac → Key → Prop) (v : Nvs) : Prop :=
  ∀ j r, v.peer.get j = some r → r.mac ≠ broadcastMac → P r.mac r.publicKey

variable {P : Mac → Key → Prop}

/-- Blank flash holds no peers. -/
theorem Nvs.allPeers_blank : Nvs.AllPeers P {} := by
  intro j r hr
  rw [show (({} : Nvs).peer.get j) = none from List.Vector.get_replicate _ j] at hr
  cases hr

namespace PeerRegistry

/-- The peers of an updated registry: old ones, and old ones of that address changed. -/
theorem mem_update {r : PeerRegistry} {mac : Mac} {f : PeerInfo → PeerInfo} {p : PeerInfo}
    (hp : p ∈ (r.update mac f).peers) : p ∈ r.peers ∨ ∃ q ∈ r.peers, q.mac = mac ∧ p = f q := by
  unfold update at hp
  revert hp
  show p ∈ r.peers.replaceF _ → _
  induction r.peers with
  | nil => exact fun hp => .inl hp
  | cons q l ih =>
    intro hp
    rw [List.replaceF_cons] at hp
    split at hp
    · rcases List.mem_cons.1 hp with rfl | hp
      · exact .inl List.mem_cons_self
      · rcases ih hp with h | ⟨q', hq', h⟩
        · exact .inl (List.mem_cons_of_mem q h)
        · exact .inr ⟨q', List.mem_cons_of_mem q hq', h⟩
    · rename_i q' hq'
      split at hq'
      · rename_i hm
        rcases List.mem_cons.1 hp with rfl | hp
        · exact .inr ⟨q, List.mem_cons_self, hm, (Option.some.inj hq').symm⟩
        · exact .inl (List.mem_cons_of_mem q hp)
      · cases hq'

theorem All.touch {r : PeerRegistry} (h : r.All P) (mac : Mac) (nowMs : UInt64) :
    (r.touch mac nowMs).All P := by
  intro p hp
  rcases mem_update hp with hp | ⟨q, hq, -, rfl⟩
  · exact h p hp
  · exact h q hq

theorem mem_append {r : PeerRegistry} {p q : PeerInfo} (hp : p ∈ (r.append q).peers) :
    p ∈ r.peers ∨ p = q := by
  unfold append at hp
  split at hp
  · exact (List.mem_append.1 hp).imp_right List.mem_singleton.1
  · exact .inl hp

theorem All.register {r : PeerRegistry} (h : r.All P) {mac : Mac} {key : Key} (nowMs : UInt64)
    (hk : P mac key) : (r.register mac key nowMs).All P := by
  intro p hp
  unfold PeerRegistry.register at hp
  split at hp
  · rcases mem_update hp with hp | ⟨q, hq, hm, rfl⟩
    · exact h p hp
    · show P q.mac key
      rwa [hm]
  · rcases mem_append hp with hp | rfl
    · exact h p hp
    · exact hk

/-- The record of a peer is made of its address and its key. -/
theorem All.records {r : PeerRegistry} (h : r.All P) {j : Fin maxPeers} {rec : PeerRecord}
    (hr : r.records j = some rec) : P rec.mac rec.publicKey := by
  obtain ⟨p, hp, rfl⟩ := Option.map_eq_some_iff.1 hr
  rw [PeerRecord.mac_encode, PeerRecord.publicKey_encode]
  exact h p (List.mem_of_getElem? hp)

theorem All.keyOf {r : PeerRegistry} (h : r.All P) {mac : Mac} {key : Key}
    (hk : r.keyOf mac = some key) : P mac key := by
  obtain ⟨p, hp, rfl⟩ := Option.map_eq_some_iff.1 hk
  have hmem := h p (List.mem_of_find?_eq_some hp)
  rwa [find_mac hp] at hmem

/-- The stored peers, as the registry loads them. -/
theorem mem_storedPeers {v : Nvs} {p : PeerInfo} (hp : p ∈ storedPeers v) :
    ∃ j r, v.peer.get j = some r ∧ r.mac ≠ broadcastMac ∧ p = ⟨r.mac, r.publicKey, 0⟩ := by
  obtain ⟨o, ho, hp⟩ := List.mem_filterMap.1 hp
  obtain ⟨j, rfl⟩ := (List.Vector.mem_iff_get o v.peer).1 ho
  cases hr : v.peer.get j with
  | none => rw [hr] at hp; cases hp
  | some r =>
    rw [hr] at hp
    dsimp only at hp
    split at hp
    · cases hp
    · exact ⟨j, r, hr, ‹_›, (Option.some.inj hp).symm⟩

theorem storedPeers_of_get {v : Nvs} {j : Fin maxPeers} {r : PeerRecord}
    (hr : v.peer.get j = some r) (hm : r.mac ≠ broadcastMac) :
    (⟨r.mac, r.publicKey, 0⟩ : PeerInfo) ∈ storedPeers v := by
  refine List.mem_filterMap.2 ⟨v.peer.get j, List.Vector.get_mem j v.peer, ?_⟩
  rw [hr]
  exact if_neg hm

/-- As long as any peer is stored, the stored peers are the ones that are loaded. -/
theorem loadFromEEPROM_stored {r : PeerRegistry} {c : Config} {v : Nvs} (h : storedPeers v ≠ []) :
    (r.loadFromEEPROM c v).peers = storedPeers v := by
  show List.take maxPeers (if storedPeers v = [] then defaultPeers c else storedPeers v) = _
  rw [if_neg h]
  refine List.take_of_length_le (le_trans (List.length_filterMap_le _ _) ?_)
  rw [v.peer.toList_length]

/-- A registry that is loaded from flash holds stored peers, or default peers without keys. -/
theorem mem_loadFromEEPROM {r : PeerRegistry} {c : Config} {v : Nvs} {p : PeerInfo}
    (hp : p ∈ (r.loadFromEEPROM c v).peers) :
    p ∈ storedPeers v ∨ storedPeers v = [] ∧
      ∃ mac ∈ c.defaultPeers, p = ⟨mac, Bytes.zero 32, 0⟩ := by
  have hp := List.mem_of_mem_take hp
  split at hp
  · rename_i hnil
    obtain ⟨mac, hm, rfl⟩ := List.mem_map.1 hp
    exact .inr ⟨hnil, mac, hm, rfl⟩
  · exact .inl hp

end PeerRegistry

/-- A slot that was saved holds what it held or what the registry holds. -/
theorem SlotSaved.cases {isDevMode : Bool} {record old new : Option PeerRecord}
    (h : SlotSaved isDevMode record old new) : new = none ∨ new = old ∨ new = record := by
  cases record with
  | none => exact (slotSaved_none.1 h).imp_right .inl
  | some r =>
    rw [slotSaved_some] at h
    split at h
    · exact .inr (.inl h)
    · exact .inr (.inr h)

theorem Nvs.AllPeers.slot {v : Nvs} {r : PeerRegistry} (hv : v.AllPeers P) (hr : r.All P)
    {isDevMode : Bool} {j : Fin maxPeers} {new : Option PeerRecord}
    (h : SlotSaved isDevMode (r.records j) (v.peer.get j) new) {rec : PeerRecord}
    (hn : new = some rec) (hm : rec.mac ≠ broadcastMac) : P rec.mac rec.publicKey := by
  rcases h.cases with rfl | rfl | rfl
  · cases hn
  · exact hv j rec hn hm
  · exact hr.records hn

/-- A registration that keeps the property. -/
theorem PeerChange.all (h : PeerChange w i s t) (hs : s.peers.All P) (hv : s.nvs.AllPeers P)
    (hm : ∀ mac key, MayRegister w i s mac key → ¬s.peers.Refuses mac → P mac key) :
    t.peers.All P ∧ t.nvs.AllPeers P := by
  cases h with
  | same hp hn =>
    refine ⟨by rwa [hp], fun j r hr => hv j r ?_⟩
    rwa [← hn]
  | touched hp hn =>
    refine ⟨by rw [hp]; exact hs.touch _ _, fun j r hr => hv j r ?_⟩
    rwa [← hn]
  | wiped _ hp hn =>
    rw [hp, hn]
    exact ⟨hs, Nvs.allPeers_blank⟩
  | registered h hc hp hslot =>
    have hall : t.peers.All P := by
      rw [hp]
      exact hs.register _ (hm _ _ h (PeerRegistry.not_refuses_iff.2 hc))
    exact ⟨hall, fun j r hr hm => hv.slot hall (hslot j) hr hm⟩

/-- An abandoned program keeps the property of the stored peers. -/
theorem Stop.allPeers {h : Halt} {u : Node} (hu : Stop w s₀ i h s u) (hs : s.peers.All P)
    (hv : s.nvs.AllPeers P)
    (hm : ∀ mac key, MayRegister w i s mac key → ¬s.peers.Refuses mac → P mac key) :
    u.nvs.AllPeers P := by
  cases hu with
  | display _ _ ha | nvs _ ha => rwa [ha.nvs]
  | @register _ _ _ mac key _ k hmr hc _ _ hslot =>
    intro j r hr hb
    have hj := hslot j
    split at hj
    · exact hv.slot (hs.register _ (hm _ _ hmr (PeerRegistry.not_refuses_iff.2 hc))) hj hr hb
    · exact hv j r (by rwa [← hj]) hb
  | _ => exact hv

/-! ### The invariant of a rule -/

namespace Device

/-- Every registration of an admissible step and every default peer promises `P`. -/
structure PeerRule (b : Board) (C : Device → Env × Input → Prop) (P : Mac → Key → Prop) :
    Prop where
  register : ∀ d e i s, Within b C d e i s → s.peers.All P → ∀ mac key,
    MayRegister (b.world e) i s mac key → ¬s.peers.Refuses mac → P mac key
  /-- The records that a first boot writes. -/
  bootstrap : ∀ d e, C d (e, .boot) → bootstraps b.config d.node.nvs = true →
    ∀ j r, b.config.defaultRecords j = some r → r.mac ≠ broadcastMac → P r.mac r.publicKey
  default : ∀ mac ∈ b.config.defaultPeers, P mac (Bytes.zero 32)

variable {b : Board} {C : Device → Env × Input → Prop} {d : Device} {e : Env}

theorem PeerRule.bootNvs (h : PeerRule b C P) (hc : C d (e, .boot)) (hv : d.node.nvs.AllPeers P)
    {u : Node} (hu : BootFrame b.config (d.bootNode b) u) : u.nvs.AllPeers P := by
  intro j r hr hm
  rcases hu.nvs.peer j with heq | ⟨hb, heq⟩
  · exact hv j r (heq.symm.trans hr) hm
  · exact h.bootstrap d e hc hb j r (heq.symm.trans hr) hm

theorem PeerRule.loaded (h : PeerRule b C P) {v : Nvs} (hv : v.AllPeers P) {r : PeerRegistry} :
    (r.loadFromEEPROM b.config v).All P := by
  intro p hp
  rcases PeerRegistry.mem_loadFromEEPROM hp with hp | ⟨-, mac, hm, rfl⟩
  · obtain ⟨j, rec, hr, hm, rfl⟩ := PeerRegistry.mem_storedPeers hp
    exact hv j rec hr hm
  · exact h.default mac hm

/-- **What every registration and every default peer promises holds of all peers.** -/
theorem PeerRule.invariant (h : PeerRule b C P) :
    Invariant b C (fun s => s.peers.All P ∧ s.nvs.AllPeers P) (fun s => s.nvs.AllPeers P) where
  weaken _ hs := hs.2
  boot d e t hc hd ht := by
    have hv := h.bootNvs hc hd ht.frame
    refine ⟨fun p hp => ?_, hv⟩
    rw [ht.peers] at hp
    exact h.loaded hv p hp
  bootHalt _ _ _ hc hd hu := h.bootNvs hc hd hu
  input _ _ _ _ _ hs := hs
  effect d e i s t hw hs ht := ht.peerChange.all hs.1 hs.2 (h.register d e i s hw hs.1)
  stop d e i s hh u hw hs hu := hu.allPeers hs.1 hs.2 (h.register d e i s hw hs.1)

end Device

/-! ### The cache of derived keys -/

/-- The keys that are established stay, and with them a coherent cache. -/
theorem CacheCoherent.congr {c : Crypto} (h : CacheCoherent c s)
    (hk : ∀ mac key, s.peers.keyOf mac = some key → key.isZero = false →
      t.peers.keyOf mac = some key)
    (hp : t.enrollment.devicePrivateKey = s.enrollment.devicePrivateKey)
    (he : t.e2eKeys = s.e2eKeys) : CacheCoherent c t := by
  unfold CacheCoherent at h ⊢
  rw [he, hp]
  intro j hj
  obtain ⟨key, hkey, hz, hd⟩ := h j hj
  exact ⟨key, hk _ key hkey hz, hz, hd⟩

/-- What one change does to the cache. -/
inductive CacheChange (c : Crypto) (i : Input) (s t : Node) : Prop
  | same (he : t.e2eKeys = s.e2eKeys)
  | inserted {mac key keys} (hk : s.peers.keyOf mac = some key) (hz : key.isZero = false)
      (hd : e2eKeysOf c s.enrollment.devicePrivateKey key = some keys)
      (ht : t = { s with e2eKeys := s.e2eKeys.insert mac keys })
  | resized {n} (hi : i = .configButton) (he : t.e2eKeys = s.e2eKeys.setCapacity n)

theorem Node.savedEpoch_e2eKeys (s : Node) (epoch : UInt32) :
    (s.savedEpoch epoch).e2eKeys = s.e2eKeys := by
  unfold Node.savedEpoch
  split <;> rfl

theorem Node.drawn_e2eKeys (s : Node) : s.drawn.e2eKeys = s.e2eKeys := by
  unfold Node.drawn
  split
  · exact s.savedEpoch_e2eKeys _
  · rfl

theorem Node.saved_e2eKeys (s : Node) (op : NvsOp) : (s.saved op).e2eKeys = s.e2eKeys := by
  unfold Node.saved
  split <;> rfl

theorem Effect.cacheChange (h : Effect w s₀ i s t) : CacheChange w.crypto i s t := by
  cases h with
  | quiet h =>
    rw [← h]
    exact .same rfl
  | role hi => exact .resized hi rfl
  | cacheKeys mac hp hz hk =>
    refine .inserted ?_ hz hk rfl
    rw [PeerRegistry.keyOf, hp]
    rfl
  | draw => exact .same s.drawn_e2eKeys
  | build => exact .same s.drawn_e2eKeys
  | register _ _ hp => exact .same (by rw [hp])
  | learnMaster mac => exact .same ((s.learnedMaster mac).saved_e2eKeys _)
  | learnSecondary mac => exact .same ((s.learnedSecondary mac).saved_e2eKeys _)
  | storeEnrolled => exact .same (s.saved_e2eKeys _)
  | _ => exact .same rfl

theorem CacheCoherent.effect (h : CacheCoherent w.crypto s) (ht : Effect w s₀ i s t) :
    CacheCoherent w.crypto t := by
  have hkey : ∀ mac key, s.peers.keyOf mac = some key → key.isZero = false →
      t.peers.keyOf mac = some key := fun _ _ => ht.peerChange.keyOf
  have hpriv := ht.sameDevice.devicePrivateKey
  cases ht.cacheChange with
  | same he => exact h.congr hkey hpriv he
  | inserted hk hz hd ht =>
    rw [ht]
    exact E2EKeyStore.Holds.insert h ⟨_, hk, hz, hd⟩
  | @resized n _ he =>
    have hr : CacheCoherent w.crypto { s with e2eKeys := s.e2eKeys.setCapacity n } :=
      E2EKeyStore.Holds.setCapacity h n
    exact hr.congr hkey hpriv he

namespace Device

/-- **The cache of derived keys is coherent in every reachable state.** -/
theorem cacheCoherent_invariant (b : Board) (C : Device → Env × Input → Prop) :
    Invariant b C (CacheCoherent b.crypto) fun _ => True where
  weaken _ _ := trivial
  boot _ _ _ _ _ ht := fun j hj => (ht.e2eKeys j hj).elim
  bootHalt _ _ _ _ _ _ := trivial
  input _ _ _ _ _ h := h
  effect _ _ _ _ _ _ h ht := h.effect ht
  stop _ _ _ _ _ _ _ _ _ := trivial

end Device

end LatticeMesh
