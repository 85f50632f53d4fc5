import LatticeMesh.KeyCache
import LatticeMesh.PeerStore
import LatticeMesh.Lib.SlotImage

/-!
# The flash mirrors the registry

While nothing fails, the slots in flash hold the peers of the registry in their order, and a boot
loads the registry that was saved.

## Main definitions

* `PeerRegistry.entries` — the addresses and keys of the peers, in their order.
* `PeerCall.added`, `PeerCall.removed`, `PeerCall.Change` — what a call does to them.
* `Node.PeersMirrored` — the slots hold the peers of the registry, in their order.

## Main results

* `PeerCall.change` — a call adds a peer, replaces a key, removes a peer, or changes nothing.
* `PeerRegistry.storedPeers_of_contents` — what a boot loads from the slots.
* `peersMirrored_run` — **the slots mirror the registry after every sequence of calls.**
-/

namespace LatticeMesh

open EffectSpec SlotImage

variable {w : World} {s t : Node}

/-! ### Entries -/

namespace PeerRegistry

variable {r : PeerRegistry}

/-- The addresses and keys of the peers, in their order. -/
def entries (r : PeerRegistry) : List (Mac × Key) := r.peers.map fun p => (p.mac, p.publicKey)

/-- The record of an address and a key. -/
def recordOf (e : Mac × Key) : PeerRecord := PeerRecord.encode e.1 e.2

@[simp] theorem length_entries : r.entries.length = r.count := List.length_map _

theorem macs_eq : r.macs = r.entries.map Prod.fst := by
  rw [macs, entries, List.map_map]
  rfl

theorem records_eq (i : Fin maxPeers) : r.records i = (r.entries.map recordOf)[i.val]? := by
  rw [records, entries, List.map_map, List.getElem?_map]
  rfl

/-- An update changes the entries as it changes the peer of that address. -/
theorem entries_update_same {mac : Mac} {f : PeerInfo → PeerInfo}
    (hf : ∀ p, (f p).mac = p.mac ∧ (f p).publicKey = p.publicKey) :
    (r.update mac f).entries = r.entries := by
  simp only [entries, update]
  induction r.peers with
  | nil => rfl
  | cons p l ih =>
    by_cases hp : p.mac = mac
    · simp [List.replaceF, hp, hf]
    · simpa [List.replaceF, hp] using ih

@[simp] theorem entries_touch (mac : Mac) (nowMs : UInt64) :
    (r.touch mac nowMs).entries = r.entries :=
  entries_update_same fun _ => ⟨rfl, rfl⟩

theorem entries_append {p : PeerInfo} (h : r.count < maxPeers) :
    (r.append p).entries = r.entries ++ [(p.mac, p.publicKey)] := by
  rw [append, dif_pos (show r.peers.length < maxPeers from h), entries, List.map_append]
  rfl

/-- A new key replaces the entry of its address. -/
theorem entries_setKey {mac : Mac} (key : Key) (nowMs : UInt64) (h : mac ∈ r.macs) :
    ∃ i, r.macs[i]? = some mac ∧ (r.setKey mac key nowMs).entries = r.entries.set i (mac, key) := by
  unfold macs at h ⊢
  revert h
  simp only [setKey, entries, update]
  induction r.peers with
  | nil => simp
  | cons p l ih =>
    intro h
    by_cases hp : p.mac = mac
    · exact ⟨0, by simp [hp], by simp [List.replaceF, hp]⟩
    · obtain ⟨i, hi, he⟩ := ih (by simpa [Ne.symm hp] using h)
      refine ⟨i + 1, by simpa using hi, ?_⟩
      simpa [List.replaceF, hp] using he

/-- The place of an address in the registry. -/
def indexOf (r : PeerRegistry) (mac : Mac) : Option ℕ := r.peers.findIdx? fun p => p.mac = mac

theorem indexOf_lt {mac : Mac} {i : ℕ} (h : r.indexOf mac = some i) :
    i < r.count ∧ r.macs[i]? = some mac := by
  obtain ⟨hlt, hp, -⟩ := List.findIdx?_eq_some_iff_getElem.1 h
  refine ⟨hlt, ?_⟩
  rw [macs, List.getElem?_map, List.getElem?_eq_getElem hlt]
  simpa using hp

/-- A removal lets the last entry take the place of the removed one. -/
theorem entries_remove {mac : Mac} {i : ℕ} (h : r.indexOf mac = some i) :
    (r.remove mac).entries = swapRemove r.entries i := by
  show (removeMac r.peers mac).map _ = _
  unfold removeMac swapRemove entries
  rw [show (r.peers.findIdx? fun p => p.mac = mac) = some i from h, List.getLast?_map]
  cases r.peers.getLast? with
  | none => rfl
  | some last => simp [List.map_dropLast, List.map_set]

theorem entries_remove_unknown {mac : Mac} (h : r.indexOf mac = none) :
    (r.remove mac).entries = r.entries := by
  show (removeMac r.peers mac).map _ = _
  unfold removeMac
  rw [show (r.peers.findIdx? fun p => p.mac = mac) = none from h]
  rfl

end PeerRegistry

/-- The key under which a call adds a peer, if it adds one. -/
def PeerCall.added (r : PeerRegistry) : PeerCall → Option Key
  | .addAndPersist mac => if r.adds mac then some (Bytes.zero 32) else none
  | .removeAndPersist _ => none
  | .registerPeerWithKey mac key _ =>
    if (r.find mac).isNone && r.count < maxPeers then some key else none

/-- The place of the peer that a call removes, if it removes one. -/
def PeerCall.removed (r : PeerRegistry) : PeerCall → Option ℕ
  | .removeAndPersist mac => r.indexOf mac
  | _ => none

/-- What a call does to the entries of the registry. -/
inductive PeerCall.Change (r : PeerRegistry) (c : PeerCall) : List (Mac × Key) → Prop
  | same (ha : c.added r = none) (hr : c.removed r = none) : Change r c r.entries
  | added (key : Key) (ha : c.added r = some key) (hr : c.removed r = none)
      (hnew : c.mac ∉ r.macs) (hroom : r.count < maxPeers) :
      Change r c (r.entries ++ [(c.mac, key)])
  | rekeyed (i : ℕ) (key : Key) (ha : c.added r = none) (hr : c.removed r = none)
      (hi : r.macs[i]? = some c.mac) : Change r c (r.entries.set i (c.mac, key))
  | removed (i : ℕ) (ha : c.added r = none) (hr : c.removed r = some i)
      (hi : r.indexOf c.mac = some i) : Change r c (swapRemove r.entries i)

/-- **A call adds a peer, replaces a key, removes a peer, or changes nothing.** -/
theorem PeerCall.change (nowMs : UInt64) (r : PeerRegistry) (c : PeerCall) :
    Change r c (c.after nowMs r).entries := by
  cases c with
  | addAndPersist mac =>
    have hafter : after nowMs r (.addAndPersist mac) =
        if r.adds mac then r.append ⟨mac, Bytes.zero 32, nowMs⟩ else r := rfl
    rw [hafter]
    split
    · rename_i hadd
      have h := hadd
      simp only [PeerRegistry.adds, Bool.and_eq_true, decide_eq_true_eq] at h
      rw [PeerRegistry.entries_append h.2]
      have hnone : r.find mac = none := by simpa using h.1.1
      exact .added _ (if_pos hadd) rfl (PeerRegistry.find_eq_none_iff.1 hnone) h.2
    · exact .same (if_neg ‹_›) rfl
  | removeAndPersist mac =>
    cases hi : r.indexOf mac with
    | none =>
      have hsame : (after nowMs r (.removeAndPersist mac)).entries = r.entries :=
        PeerRegistry.entries_remove_unknown hi
      rw [hsame]
      exact .same rfl hi
    | some i =>
      have hrem : (after nowMs r (.removeAndPersist mac)).entries = swapRemove r.entries i :=
        PeerRegistry.entries_remove hi
      rw [hrem]
      exact .removed i rfl hi hi
  | registerPeerWithKey mac key allowRekey =>
    have hafter : after nowMs r (.registerPeerWithKey mac key allowRekey) =
        r.registered mac key allowRekey nowMs := rfl
    have hadded : PeerCall.added r (.registerPeerWithKey mac key allowRekey) =
        if (r.find mac).isNone && r.count < maxPeers then some key else none := rfl
    rw [hafter, PeerRegistry.registered]
    split
    -- a registration: first with the key stored, then without
    · rename_i h
      unfold PeerRegistry.register
      split
      · rename_i hknown
        have hm : mac ∈ r.macs := by
          by_contra hno
          rw [PeerRegistry.find_eq_none_iff.2 hno] at hknown
          cases hknown
        obtain ⟨i, hi, he⟩ := PeerRegistry.entries_setKey key nowMs hm
        rw [he]
        refine .rekeyed i key ?_ rfl hi
        rw [hadded, if_neg]
        simp [Option.isSome_iff_ne_none.1 hknown]
      -- a new address is put at the end
      · rename_i hnew
        simp only [PeerRegistry.stores, Bool.and_eq_true, Bool.or_eq_true, decide_eq_true_eq] at h
        have hroom := h.2.resolve_left hnew
        have hnone : r.find mac = none := by simpa using hnew
        rw [PeerRegistry.entries_append hroom]
        refine .added key ?_ rfl (PeerRegistry.find_eq_none_iff.1 hnone) hroom
        rw [hadded, if_pos (by simp [hnone, hroom])]
    · rename_i hno
      -- what is not stored is known already, or finds no room
      have hnone : PeerCall.added r (.registerPeerWithKey mac key allowRekey) = none := by
        rw [hadded, if_neg]
        intro hadd
        simp only [Bool.and_eq_true, decide_eq_true_eq] at hadd
        refine hno ?_
        have hf : r.find mac = none := by simpa using hadd.1
        simp [PeerRegistry.stores, PeerRegistry.keyEstablished, hf, hadd.2]
      split
      · rw [PeerRegistry.entries_touch]
        exact .same hnone rfl
      · exact .same hnone rfl

/-- A call that does not save leaves the entries as they are. -/
theorem PeerCall.entries_after_of_not_saves {nowMs : UInt64} {r : PeerRegistry} {c : PeerCall}
    (h : c.saves r = false) : (c.after nowMs r).entries = r.entries := by
  cases c with
  | addAndPersist mac =>
    have hno : ¬r.adds mac = true := by simpa [saves] using h
    rw [after, if_neg hno]
  | removeAndPersist => cases h
  | registerPeerWithKey mac key allowRekey =>
    have hno : ¬r.stores mac allowRekey = true := by simpa [saves] using h
    rw [after, PeerRegistry.registered, if_neg hno]
    split
    · exact PeerRegistry.entries_touch _ _
    · rfl

/-- What a call leaves of the addresses. -/
theorem PeerCall.Change.macs {r : PeerRegistry} {c : PeerCall} {l : List (Mac × Key)}
    (h : Change r c l) (hn : r.macs.Nodup) :
    (l.map Prod.fst).Nodup ∧ ∀ mac ∈ l.map Prod.fst, mac ∈ r.macs ∨ mac = c.mac := by
  rw [PeerRegistry.macs_eq] at hn ⊢
  cases h with
  | same => exact ⟨hn, fun _ h => .inl h⟩
  | added key _ _ hnew =>
    rw [PeerRegistry.macs_eq] at hnew
    rw [List.map_append, List.map_singleton]
    refine ⟨List.nodup_append.2 ⟨hn, List.nodup_singleton _, fun x hx y hy => ?_⟩, fun x hx => ?_⟩
    · rintro rfl
      rw [List.mem_singleton.1 hy] at hx
      exact hnew hx
    · exact (List.mem_append.1 hx).imp_right List.mem_singleton.1
  | rekeyed i key _ _ hi =>
    rw [PeerRegistry.macs_eq] at hi
    have hset : (r.entries.set i (c.mac, key)).map Prod.fst = r.entries.map Prod.fst := by
      obtain ⟨hlt, heq⟩ := List.getElem?_eq_some_iff.1 hi
      rw [List.map_set, ← heq]
      exact List.set_getElem_self hlt
    rw [hset]
    exact ⟨hn, fun _ h => .inl h⟩
  | removed i _ _ hi =>
    have hkept := PeerRegistry.keyOf_remove (r := r) (by rwa [PeerRegistry.macs_eq]) c.mac
    rw [PeerRegistry.macs_eq, PeerRegistry.entries_remove hi] at hkept
    refine ⟨hkept.1, fun mac hm => .inl ?_⟩
    rw [← PeerRegistry.entries_remove hi, ← PeerRegistry.macs_eq] at hm
    rw [← PeerRegistry.macs_eq]
    -- the last peer takes the place of the removed one, so the addresses are a part of the old ones
    obtain ⟨p, hp, rfl⟩ := List.mem_map.1 hm
    rcases PeerRegistry.removeMac_perm r.peers c.mac with ⟨q, -, hperm⟩ | ⟨hsame, -⟩
    · exact List.mem_map_of_mem (hperm.mem_iff.2 (List.mem_cons_of_mem q hp))
    · exact List.mem_map_of_mem (hsame ▸ hp)

/-! ### Loading -/

namespace PeerRegistry

/-- The entries that a boot keeps: an all-`FF` address marks an empty slot. -/
def loadable (l : List (Mac × Key)) : List (Mac × Key) := l.filter fun e => e.1 ≠ broadcastMac

/-- **What a boot loads from the slots**: their contents, without the empty ones. -/
theorem storedPeers_of_contents {v : Nvs} {l : List (Mac × Key)}
    (h : contents v.peer.get = l.map recordOf) :
    storedPeers v = (loadable l).map fun e => ⟨e.1, e.2, 0⟩ := by
  have hslots : v.peer.toList = (List.finRange maxPeers).map v.peer.get := by
    refine List.ext_getElem (by simp) fun i hi _ => ?_
    rw [List.getElem_map, List.getElem_finRange, List.Vector.get_eq_get_toList]
    rfl
  have hsplit : storedPeers v = (contents v.peer.get).filterMap fun r : PeerRecord =>
      if r.mac = broadcastMac then none else some ⟨r.mac, r.publicKey, 0⟩ := by
    rw [storedPeers, hslots, contents, List.filterMap_map, List.filterMap_filterMap]
    refine List.filterMap_congr fun i _ => ?_
    rw [Function.comp_apply]
    generalize v.peer.get i = r
    cases r <;> rfl
  rw [hsplit, h]
  clear h hsplit hslots
  induction l with
  | nil => rfl
  | cons e l ih =>
    by_cases he : e.1 = broadcastMac
    · simpa [loadable, recordOf, he] using ih
    · simpa [loadable, recordOf, he] using ih

/-- The default peers that a boot loads if no peer is stored. -/
def defaultEntries (c : Config) : List (Mac × Key) :=
  (c.defaultPeers.take maxPeers).map fun mac => (mac, Bytes.zero 32)

/-- The registry that a boot loads. -/
theorem entries_loadFromEEPROM {r : PeerRegistry} (c : Config) {v : Nvs} {l : List (Mac × Key)}
    (hl : l.length ≤ maxPeers) (h : contents v.peer.get = l.map recordOf) :
    (r.loadFromEEPROM c v).entries = if loadable l = [] then defaultEntries c else loadable l := by
  show List.map _ (List.take maxPeers
    (if storedPeers v = [] then defaultPeers c else storedPeers v)) = _
  rw [storedPeers_of_contents h]
  simp only [List.map_eq_nil_iff]
  split
  · rw [defaultPeers, defaultEntries, ← List.map_take, List.map_map]
    rfl
  · have hlen : (loadable l).length ≤ maxPeers := le_trans (List.length_filter_le _ _) hl
    rw [List.take_of_length_le (by rw [List.length_map]; exact hlen), List.map_map]
    exact List.map_id _

end PeerRegistry

/-! ### The mirror -/

/-- The slots hold the peers of the registry, in their order, and the slots behind them are
empty. -/
def Node.PeersMirrored (s : Node) : Prop := ∀ i, s.nvs.peer.get i = s.peers.records i

instance (s : Node) : Decidable s.PeersMirrored := inferInstanceAs (Decidable (∀ _, _))

theorem Node.PeersMirrored.contents (h : s.PeersMirrored) :
    contents s.nvs.peer.get = s.peers.entries.map PeerRegistry.recordOf := by
  rw [contents_congr fun i => (h i).trans (PeerRegistry.records_eq i)]
  refine contents_stored ?_
  rw [List.length_map, PeerRegistry.length_entries]
  exact s.peers.length_le

/-- Outside dev mode a save touches every slot. -/
theorem mem_savedSlots (records : Fin maxPeers → Option PeerRecord) (i : Fin maxPeers) :
    i ∈ savedSlots false records := by
  unfold savedSlots
  simp

/-- In production a call keeps the mirror. -/
theorem PeerCall.Saved.peersMirrored {c : PeerCall} (h : Saved w c s t) (hs : s.PeersMirrored)
    (hd : s.eeprom.isDevMode = false) : t.PeersMirrored := by
  intro i
  rw [h.nvs, h.peers, ops]
  by_cases hsv : c.saves s.peers = true
  · rw [if_pos hsv, hd, saveOps, peer_wrote, if_pos (mem_savedSlots _ i)]
  · rw [if_neg hsv, Node.wrote_nil, hs i, PeerRegistry.records_eq, PeerRegistry.records_eq,
      entries_after_of_not_saves (by simpa using hsv)]

/-- The state after a call, however it ends. -/
def peerStep (s : Node) (x : World × PeerCall) : Node := Calls.final (x.2.run x.1 s)

/-- What a call keeps: the mode, the mirror, and that no address is listed twice or all-`FF`. -/
structure Node.PeersKept (s : Node) : Prop where
  production : s.eeprom.isDevMode = false
  mirrored : s.PeersMirrored
  nodup : s.peers.macs.Nodup
  ne_broadcast : broadcastMac ∉ s.peers.macs

theorem Node.PeersKept.step {x : World × PeerCall} (h : s.PeersKept) (hw : x.1.SlotsWork)
    (hx : x.2.mac ≠ broadcastMac) : (peerStep s x).PeersKept := by
  have hsaved : PeerCall.Saved x.1 x.2 s (peerStep s x) := Calls.wp_final (x.2.peerSaved hw)
  have hmacs := (x.2.change x.1.nowMs s.peers).macs h.nodup
  rw [← PeerRegistry.macs_eq, ← hsaved.peers] at hmacs
  refine ⟨hsaved.eeprom ▸ h.production, hsaved.peersMirrored h.mirrored h.production, hmacs.1,
    fun hb => ?_⟩
  rcases hmacs.2 _ hb with hb | hb
  · exact h.ne_broadcast hb
  · exact hx hb.symm

/-- A boot from mirrored slots loads the registry, unless it is empty. -/
theorem Node.PeersKept.reload (h : s.PeersKept) (hne : s.peers.peers ≠ []) (r : PeerRegistry)
    (c : Config) : (r.loadFromEEPROM c s.nvs).entries = s.peers.entries := by
  have hload : PeerRegistry.loadable s.peers.entries = s.peers.entries := by
    refine List.filter_eq_self.2 fun e he => ?_
    have hne : e.1 ≠ broadcastMac := by
      intro hb
      refine h.ne_broadcast ?_
      rw [PeerRegistry.macs_eq, ← hb]
      exact List.mem_map_of_mem he
    simpa using hne
  have hlen : s.peers.entries.length ≤ maxPeers := by
    rw [PeerRegistry.length_entries]
    exact s.peers.length_le
  rw [PeerRegistry.entries_loadFromEEPROM c hlen h.mirrored.contents, hload, if_neg]
  simpa [PeerRegistry.entries] using hne

/-- **The slots mirror the registry after every sequence of calls** in production whose writes
succeed: the addresses are distinct, the registry is not overfull, the slots hold its peers in their
order and nothing behind them, and a boot loads the registry again unless it is empty. -/
theorem peersMirrored_run {xs : List (World × PeerCall)} (hd : s.eeprom.isDevMode = false)
    (hn : s.peers.macs.Nodup) (hs : s.PeersMirrored) (hb : broadcastMac ∉ s.peers.macs)
    (hxs : ∀ x ∈ xs, x.1.SlotsWork ∧ x.2.mac ≠ broadcastMac) :
    (Runs.run peerStep s xs).peers.macs.Nodup ∧
      (Runs.run peerStep s xs).peers.count ≤ maxPeers ∧
      (Runs.run peerStep s xs).PeersMirrored ∧
      ((Runs.run peerStep s xs).peers.peers ≠ [] → ∀ r c,
        (PeerRegistry.loadFromEEPROM r c (Runs.run peerStep s xs).nvs).entries =
          (Runs.run peerStep s xs).peers.entries) := by
  have hkept : (Runs.run peerStep s xs).PeersKept := by
    induction xs generalizing s with
    | nil => exact ⟨hd, hs, hn, hb⟩
    | cons x xs ih =>
      have hx := hxs x List.mem_cons_self
      have hstep := Node.PeersKept.step ⟨hd, hs, hn, hb⟩ hx.1 hx.2
      exact ih hstep.production hstep.nodup hstep.mirrored hstep.ne_broadcast
        fun y hy => hxs y (List.mem_cons_of_mem x hy)
  exact ⟨hkept.nodup, PeerRegistry.length_le _, hkept.mirrored, hkept.reload⟩

/-- A world in which everything works. -/
def Sample.peerWorld : World := Sample.board.world (Sample.env 1 100)

/-- Two peers are added, and the first one is removed. -/
def Sample.peerCalls : List (World × PeerCall) :=
  [(Sample.peerWorld, .addAndPersist (Sample.mac 2)),
    (Sample.peerWorld, .registerPeerWithKey (Sample.mac 3) (Sample.key 9) false),
    (Sample.peerWorld, .removeAndPersist (Sample.mac 2))]

/-- After two additions and a removal the remaining peer sits in the first slot. -/
theorem peersMirrored_run_removed :
    (Runs.run peerStep {} Sample.peerCalls).peers.macs.Nodup ∧
      (Runs.run peerStep {} Sample.peerCalls).peers.count ≤ maxPeers ∧
      (Runs.run peerStep {} Sample.peerCalls).PeersMirrored ∧
      ((Runs.run peerStep {} Sample.peerCalls).peers.peers ≠ [] → ∀ r c,
        (PeerRegistry.loadFromEEPROM r c (Runs.run peerStep {} Sample.peerCalls).nvs).entries =
          (Runs.run peerStep {} Sample.peerCalls).peers.entries) := by
  refine peersMirrored_run rfl (by decide) (by decide) (by decide) fun x hx => ?_
  have hworld : x.1 = Sample.peerWorld ∧ x.2.mac ≠ broadcastMac := by
    simp only [Sample.peerCalls, List.mem_cons, List.not_mem_nil, or_false] at hx
    rcases hx with rfl | rfl | rfl <;> exact ⟨rfl, by decide⟩
  exact ⟨hworld.1 ▸ World.slotsWork_of_nvsOk fun _ => rfl, hworld.2⟩

example : (Runs.run peerStep {} Sample.peerCalls).peers.entries =
    [(Sample.mac 3, Sample.key 9)] := by
  decide +kernel

end LatticeMesh
