import LatticeMesh.Platform
import LatticeMesh.Lib.KeyTable
import Mathlib.Data.List.Basic

/-!
# The tables of a node

The peer registry, the neighbours toward the master, the recorded routes and the derived keys.

## Main definitions

* `PeerRegistry` — the registered peers, at most ten.
* `NeighborTable.observeAndMinDistance`, `NeighborTable.selectNextHop` — routing candidates.
* `RouteTable.record`, `RouteTable.lookup` — the relay paths a master has learned.
* `E2EKeyStore` — the cache of derived key pairs.

## Main results

* `PeerRegistry.keyOf_touch`, `PeerRegistry.keyOf_setKey`, `PeerRegistry.find_append` — how a lookup
  sees each update of the registry.
-/

namespace LatticeMesh

/-- The staleness limit of a peer or neighbour, in milliseconds. -/
def stalePeerThresholdMs : UInt64 := 8000

/-- The route toward the current master: its address and the distance in hops. -/
structure MasterInfo where
  mac : Mac := zeroMac
  distance : UInt8 := 0xFF
  deriving DecidableEq

/-! ### Peer registry -/

/-- A registered peer; an all-zero public key is not known yet. -/
structure PeerInfo where
  mac : Mac
  publicKey : Key
  lastSeenMs : UInt64
  deriving DecidableEq

/-- The registered peers, in the order in which they were added. -/
structure PeerRegistry where
  peers : List PeerInfo := []
  deviceMac : Mac := zeroMac
  /-- The registry never outgrows its array. -/
  length_le : peers.length ≤ maxPeers := by decide
  deriving DecidableEq

namespace PeerRegistry

/-- The first peer with the address `mac`. -/
def find (r : PeerRegistry) (mac : Mac) : Option PeerInfo :=
  r.peers.find? fun p => p.mac = mac

/-- The registry as a map: the public key of `mac`, if it is registered. -/
def keyOf (r : PeerRegistry) (mac : Mac) : Option Key := (r.find mac).map PeerInfo.publicKey

/-- The number of peers. -/
def count (r : PeerRegistry) : ℕ := r.peers.length

def setDeviceMac (r : PeerRegistry) (mac : Mac) : PeerRegistry := { r with deviceMac := mac }

/-- The registry with the first peer of address `mac` replaced. -/
def update (r : PeerRegistry) (mac : Mac) (f : PeerInfo → PeerInfo) : PeerRegistry :=
  { r with
    peers := r.peers.replaceF fun p => if p.mac = mac then some (f p) else none
    length_le := by rw [List.length_replaceF]; exact r.length_le }

/-- The registry with a peer added behind the others; full registries are left alone. -/
def append (r : PeerRegistry) (p : PeerInfo) : PeerRegistry :=
  if h : r.peers.length < maxPeers then
    { r with
      peers := r.peers ++ [p]
      length_le := by rw [List.length_append, List.length_singleton]; exact h }
  else
    r

/-- The peers without the first one of address `mac`; the last peer takes its place. -/
def removeMac (l : List PeerInfo) (mac : Mac) : List PeerInfo :=
  match l.findIdx? fun p => p.mac = mac, l.getLast? with
  | some i, some last => (l.set i last).dropLast
  | _, _ => l

/-- The registry without the first peer of address `mac`. -/
def remove (r : PeerRegistry) (mac : Mac) : PeerRegistry :=
  { r with
    peers := removeMac r.peers mac
    length_le := by
      unfold removeMac
      split
      · rw [List.length_dropLast, List.length_set]
        exact le_trans (Nat.sub_le _ _) r.length_le
      · exact r.length_le }

/-- The registry with the last-seen time of `mac` moved to `nowMs`. -/
def touch (r : PeerRegistry) (mac : Mac) (nowMs : UInt64) : PeerRegistry :=
  r.update mac fun p => { p with lastSeenMs := nowMs }

/-- The registry with the key of `mac` replaced. -/
def setKey (r : PeerRegistry) (mac : Mac) (key : Key) (nowMs : UInt64) : PeerRegistry :=
  r.update mac fun p => { p with publicKey := key, lastSeenMs := nowMs }

/-- Note a frame heard from `mac`; unknown senders are not added. -/
def updateLastSeen (r : PeerRegistry) (mac : Mac) (nowMs : UInt64) : PeerRegistry :=
  if mac = r.deviceMac then r else r.touch mac nowMs

/-- Whether `mac` is registered and was heard within the staleness limit. -/
def isPeerInRange (r : PeerRegistry) (mac : Mac) (nowMs : UInt64) : Bool :=
  match r.find mac with
  | some p => nowMs - p.lastSeenMs < stalePeerThresholdMs
  | none => false

theorem find_mac {r : PeerRegistry} {mac : Mac} {p : PeerInfo} (h : r.find mac = some p) :
    p.mac = mac := by
  simpa using List.find?_some h

theorem find_update (r : PeerRegistry) {mac mac' : Mac} {f : PeerInfo → PeerInfo}
    (hf : ∀ p, (f p).mac = p.mac) :
    (r.update mac f).find mac' = if mac' = mac then (r.find mac').map f else r.find mac' := by
  simp only [find, update]
  induction r.peers with
  | nil => simp
  | cons p l ih =>
    by_cases hp : p.mac = mac
    · by_cases hm : mac' = mac
      · subst hm
        simp [List.replaceF, hp, hf]
      · simp [List.replaceF, hp, hf, hm, Ne.symm hm]
    · by_cases hm : p.mac = mac'
      · have hm' : ¬mac' = mac := fun h => hp (hm.trans h)
        simp [List.replaceF, hm, hm']
      · simpa [List.replaceF, hp, hm] using ih

@[simp] theorem isSome_keyOf {r : PeerRegistry} {mac : Mac} :
    (r.keyOf mac).isSome = (r.find mac).isSome := Option.isSome_map

/-- Touching a peer changes no key. -/
@[simp] theorem keyOf_touch (r : PeerRegistry) (mac mac' : Mac) (nowMs : UInt64) :
    (r.touch mac nowMs).keyOf mac' = r.keyOf mac' := by
  rw [keyOf, keyOf, touch, find_update r (f := fun p => { p with lastSeenMs := nowMs })
    fun _ => rfl]
  split
  · cases r.find mac' <;> rfl
  · rfl

@[simp] theorem keyOf_updateLastSeen (r : PeerRegistry) (mac mac' : Mac) (nowMs : UInt64) :
    (r.updateLastSeen mac nowMs).keyOf mac' = r.keyOf mac' := by
  unfold updateLastSeen
  split
  · rfl
  · exact keyOf_touch r mac mac' nowMs

/-- Setting a key changes the entry of that address alone. -/
theorem keyOf_setKey (r : PeerRegistry) (mac mac' : Mac) (key : Key) (nowMs : UInt64) :
    (r.setKey mac key nowMs).keyOf mac' =
      if mac' = mac then (r.keyOf mac').map fun _ => key else r.keyOf mac' := by
  rw [keyOf, keyOf, setKey, find_update r
    (f := fun p => { p with publicKey := key, lastSeenMs := nowMs }) fun _ => rfl]
  split
  · cases r.find mac' <;> rfl
  · rfl

/-- An appended peer is found unless its address was registered already. -/
theorem find_append {r : PeerRegistry} {p : PeerInfo} (h : r.count < maxPeers) (mac : Mac) :
    (r.append p).find mac = (r.find mac).or (if p.mac = mac then some p else none) := by
  rw [append, dif_pos (show r.peers.length < maxPeers from h)]
  simp only [find, List.find?_append, List.find?_cons, List.find?_nil]
  congr 1
  by_cases hm : p.mac = mac <;> simp [hm]

end PeerRegistry

/-! ### Neighbours toward the master -/

namespace NeighborTable

/-- A forwarding candidate: its address and its own distance to the master. -/
structure Entry where
  mac : Mac := zeroMac
  masterDistance : UInt8 := 0
  valid : Bool := false
  lastSeenMs : UInt64 := 0
  deriving DecidableEq

end NeighborTable

/-- The number of neighbours tracked. -/
def neighborMax : ℕ := 8

/-- The forwarding candidates toward the master, learned from overheard beacons. -/
abbrev NeighborTable := List.Vector NeighborTable.Entry neighborMax

namespace NeighborTable

def empty : NeighborTable := List.Vector.replicate _ {}

/-- Whether the entry was not heard within the staleness limit. -/
def Entry.stale (e : Entry) (nowMs : UInt64) : Bool := nowMs - e.lastSeenMs ≥ stalePeerThresholdMs

/-- The accumulators of the single pass of `observeAndMinDistance`. -/
structure Scan where
  matchIdx : Option (Fin neighborMax) := none
  firstInvalidIdx : Option (Fin neighborMax) := none
  firstStaleIdx : Option (Fin neighborMax) := none
  farthestIdx : Option (Fin neighborMax) := none
  farthestDistance : UInt8 := 0
  bestOther : UInt8 := 0xFF

/-- One round of the pass. -/
def Scan.round (t : NeighborTable) (mac : Mac) (nowMs : UInt64) (a : Scan)
    (i : Fin neighborMax) : Scan :=
  let e := t.get i
  if !e.valid then
    { a with firstInvalidIdx := a.firstInvalidIdx.or (some i) }
  else if e.mac = mac then
    { a with matchIdx := some i }
  else
    let a := if e.stale nowMs then { a with firstStaleIdx := a.firstStaleIdx.or (some i) }
      else if e.masterDistance < a.bestOther then { a with bestOther := e.masterDistance } else a
    if a.farthestIdx.isNone || e.masterDistance > a.farthestDistance then
      { a with farthestDistance := e.masterDistance, farthestIdx := some i }
    else a

/-- Record the neighbour `mac` and return the smallest distance among the fresh entries. -/
def observeAndMinDistance (t : NeighborTable) (mac : Mac) (masterDistance : UInt8)
    (nowMs : UInt64) : UInt8 × NeighborTable :=
  let a := (List.finRange neighborMax).foldl (Scan.round t mac nowMs) {}
  let slot := (a.matchIdx.or (a.firstInvalidIdx.or (a.firstStaleIdx.or a.farthestIdx))).getD
    ⟨0, by decide⟩
  (if masterDistance < a.bestOther then masterDistance else a.bestOther,
    t.set slot ⟨mac, masterDistance, true, nowMs⟩)

/-- The freshest neighbour in range that is strictly closer to the master than `ownDistance`. -/
def selectNextHop (t : NeighborTable) (ownDistance : UInt8) (nowMs : UInt64) : Option Mac :=
  let best := t.toList.foldl (fun (best : Option Entry) e =>
    if !e.valid || e.stale nowMs || e.masterDistance ≥ ownDistance then best
    else match best with
      | none => some e
      | some b => if e.lastSeenMs > b.lastSeenMs then some e else best) none
  best.map Entry.mac

end NeighborTable

/-! ### Recorded routes -/

namespace RouteTable

/-- The relay path of one node, in the order from the node to the master. -/
structure Entry where
  nodeMac : Mac := zeroMac
  pathLen : UInt8 := 0
  valid : Bool := false
  lastSeenMs : UInt64 := 0
  path : RoutePath := Bytes.zero 48
  deriving DecidableEq

end RouteTable

/-- The number of routes tracked. -/
def routeTableMax : ℕ := 16

/-- The relay paths a master has learned from route reports. -/
abbrev RouteTable := List.Vector RouteTable.Entry routeTableMax

namespace RouteTable

def empty : RouteTable := List.Vector.replicate _ {}

/-- The slot that holds the node `mac`. -/
def findSlot (t : RouteTable) (mac : Mac) : Option (Fin routeTableMax) :=
  (KeyTable.find t Entry.nodeMac mac).filter fun i => (t.get i).valid

/-- The slot a new node goes to: the first free one, else the oldest one. -/
def allocateSlot (t : RouteTable) : Fin routeTableMax :=
  (KeyTable.firstSlot t fun e => !e.valid).getD (KeyTable.oldest t Entry.lastSeenMs)

/-- The stored path after copying `pathLen` addresses of `path` over it. -/
def copyPath (old path : RoutePath) (pathLen : UInt8) : RoutePath :=
  ⟨path.toList.take (6 * pathLen.toNat) ++ old.toList.drop (6 * pathLen.toNat), by
    rw [List.length_append, List.length_take, List.length_drop, path.toList_length,
      old.toList_length]
    omega⟩

/-- Record the path of a node; an overlong path is never stored. -/
def record (t : RouteTable) (nodeMac : Mac) (path : RoutePath) (pathLen : UInt8)
    (nowMs : UInt64) : RouteTable :=
  if pathLen.toNat > maxHops then t
  else
    let slot := (findSlot t nodeMac).getD (allocateSlot t)
    t.set slot ⟨nodeMac, pathLen, true, nowMs, copyPath (t.get slot).path path pathLen⟩

/-- The path recorded for a node. -/
def lookup (t : RouteTable) (nodeMac : Mac) : Option (RoutePath × UInt8) :=
  (findSlot t nodeMac).map fun i => ((t.get i).path, (t.get i).pathLen)

/-- No slot before the one that a record goes to holds the node. -/
theorem nodeMac_ne_of_lt {t : RouteTable} {mac : Mac} {j : Fin routeTableMax}
    (h : j < (findSlot t mac).getD (allocateSlot t)) : (t.get j).nodeMac ≠ mac := by
  intro hj
  unfold findSlot at h
  cases hf : KeyTable.find t Entry.nodeMac mac with
  | none => exact KeyTable.find_eq_none.1 hf j hj
  | some i =>
    have hij := KeyTable.find_le hf hj
    rw [hf] at h
    cases hv : (t.get i).valid with
    | true =>
      rw [Option.filter_some_pos (p := fun i => (t.get i).valid) hv] at h
      exact absurd hij (not_le.2 h)
    | false =>
      -- the slot that is found is free, so a free slot is taken and it lies no later
      rw [Option.filter_some_neg (p := fun i => (t.get i).valid) (by simp [hv])] at h
      unfold allocateSlot at h
      cases ha : KeyTable.firstSlot t fun e => !e.valid with
      | none =>
        have hfree := KeyTable.firstSlot_eq_none.1 ha i
        simp [hv] at hfree
      | some a =>
        rw [ha] at h
        have hai : a ≤ i := KeyTable.firstSlot_le ha (by simp [hv])
        exact absurd (le_trans hai hij) (not_le.2 h)

/-- A path that was recorded is looked up again. -/
theorem lookup_record (t : RouteTable) (mac : Mac) (path : RoutePath) {pathLen : UInt8}
    (nowMs : UInt64) (h : pathLen.toNat ≤ maxHops) :
    ∃ old, (t.record mac path pathLen nowMs).lookup mac =
      some (copyPath old path pathLen, pathLen) := by
  rw [record, if_neg (not_lt.2 h)]
  dsimp only
  set slot := (findSlot t mac).getD (allocateSlot t) with hslot
  refine ⟨(t.get slot).path, ?_⟩
  set e : Entry := ⟨mac, pathLen, true, nowMs, copyPath (t.get slot).path path pathLen⟩ with he
  have hget : (t.set slot e).get slot = e := List.Vector.get_set_same _ _ _
  have hfind : KeyTable.find (t.set slot e) Entry.nodeMac mac = some slot := by
    refine KeyTable.find_eq_some (by rw [hget]) fun j hj => ?_
    rw [List.Vector.get_set_of_ne (ne_of_gt hj)]
    exact nodeMac_ne_of_lt hj
  rw [lookup, findSlot, hfind, Option.filter_some_pos (p := fun i => ((t.set slot e).get i).valid)
    (by rw [hget]), Option.map_some, hget]

/-- The addresses that were copied. -/
theorem routeHop_copyPath (old path : RoutePath) {pathLen : UInt8} {i : Fin maxHops}
    (h : i.val < pathLen.toNat) : routeHop (copyPath old path pathLen) i = routeHop path i := by
  apply List.Vector.eq
  have hp : path.toList.length = 48 := path.toList_length
  have hi := i.isLt
  simp only [maxHops] at hi
  show (((path.toList.take (6 * pathLen.toNat) ++ _).drop (6 * i)).take 6) =
    (path.toList.drop (6 * i)).take 6
  rw [List.drop_append_of_le_length (by rw [List.length_take]; omega),
    List.take_append_of_le_length (by rw [List.length_drop, List.length_take]; omega),
    List.drop_take, List.take_take, min_eq_left (by omega)]

/-- The relays recorded for a node, in the order from the node to the master. -/
def relaysOf (t : RouteTable) (nodeMac : Mac) : Option (List Mac) :=
  (t.lookup nodeMac).map fun (path, pathLen) =>
    ((List.finRange maxHops).take pathLen.toNat).map (routeHop path)

/-- **The relays that were recorded are looked up again**, in the same order. -/
theorem relaysOf_record (t : RouteTable) (mac : Mac) (path : RoutePath) {pathLen : UInt8}
    (nowMs : UInt64) (h : pathLen.toNat ≤ maxHops) :
    (t.record mac path pathLen nowMs).relaysOf mac =
      some (((List.finRange maxHops).take pathLen.toNat).map (routeHop path)) := by
  obtain ⟨old, hl⟩ := t.lookup_record mac path nowMs h
  rw [relaysOf, hl, Option.map_some]
  refine congrArg some (List.map_congr_left fun i hi => routeHop_copyPath old path ?_)
  obtain ⟨j, hj, rfl⟩ := List.mem_take_iff_getElem.1 hi
  rw [List.getElem_finRange]
  simp only [List.length_finRange] at hj
  show j < _
  omega

end RouteTable

/-! ### Derived keys -/

/-- The derived keys of one peer: `kUp` seals toward the master, `kDown` away from it. -/
structure E2EKeys where
  kUp : Key
  kDown : Key
  deriving DecidableEq

namespace E2EKeyStore

/-- The cached keys of one peer. -/
structure Entry where
  mac : Mac := zeroMac
  valid : Bool := false
  keys : E2EKeys := ⟨Bytes.zero 32, Bytes.zero 32⟩
  deriving DecidableEq

end E2EKeyStore

/-- The cache of derived keys, overwritten round-robin. -/
structure E2EKeyStore where
  capacity : ℕ
  entries : List.Vector E2EKeyStore.Entry capacity
  nextSlot : ℕ
  /-- The next slot lies in the cache, unless the cache has no slots at all. -/
  nextSlot_lt : capacity = 0 ∨ nextSlot < capacity

namespace E2EKeyStore

/-- A cache of `maxEntries` unused slots. -/
def ofCapacity (maxEntries : ℕ) : E2EKeyStore where
  capacity := maxEntries
  entries := List.Vector.replicate _ {}
  nextSlot := 0
  nextSlot_lt := Nat.eq_zero_or_pos _

/-- Resize the cache; all keys are lost unless the size stays the same. -/
def setCapacity (s : E2EKeyStore) (maxEntries : ℕ) : E2EKeyStore :=
  if maxEntries = s.capacity then s else ofCapacity maxEntries

/-- The keys cached for `mac`. -/
def cached (s : E2EKeyStore) (mac : Mac) : Option E2EKeys :=
  ((KeyTable.find s.entries Entry.mac mac).filter fun i => (s.entries.get i).valid).map
    fun i => (s.entries.get i).keys

/-- The cache with new keys in the next slot. -/
def insert (s : E2EKeyStore) (mac : Mac) (keys : E2EKeys) : E2EKeyStore :=
  if h : s.capacity = 0 then s
  else
    { s with
      entries := s.entries.set ⟨s.nextSlot, s.nextSlot_lt.resolve_left h⟩ ⟨mac, true, keys⟩
      nextSlot := (s.nextSlot + 1) % s.capacity
      nextSlot_lt := Or.inr (Nat.mod_lt _ (Nat.pos_of_ne_zero h)) }

/-- Every valid entry of the cache meets `P`. -/
def Holds (s : E2EKeyStore) (P : Entry → Prop) : Prop :=
  ∀ i, (s.entries.get i).valid = true → P (s.entries.get i)

instance (s : E2EKeyStore) (P : Entry → Prop) [DecidablePred P] : Decidable (s.Holds P) :=
  inferInstanceAs (Decidable (∀ _, _ → _))

/-- A fresh cache has no valid entry. -/
theorem holds_ofCapacity (maxEntries : ℕ) {P : Entry → Prop} : (ofCapacity maxEntries).Holds P := by
  intro i hi
  rw [show (ofCapacity maxEntries).entries.get i = {} from List.Vector.get_replicate _ i] at hi
  exact absurd hi (by decide)

theorem capacity_insert (st : E2EKeyStore) (mac : Mac) (keys : E2EKeys) :
    (st.insert mac keys).capacity = st.capacity := by
  unfold insert
  split <;> rfl

theorem Holds.setCapacity {s : E2EKeyStore} {P : Entry → Prop} (h : s.Holds P) (maxEntries : ℕ) :
    (s.setCapacity maxEntries).Holds P := by
  by_cases hc : maxEntries = s.capacity
  · rw [E2EKeyStore.setCapacity, if_pos hc]
    exact h
  · rw [E2EKeyStore.setCapacity, if_neg hc]
    exact holds_ofCapacity maxEntries

theorem Holds.insert {s : E2EKeyStore} {P : Entry → Prop} (h : s.Holds P) {mac : Mac}
    {keys : E2EKeys} (hn : P ⟨mac, true, keys⟩) : (s.insert mac keys).Holds P := by
  by_cases hc : s.capacity = 0
  · rw [E2EKeyStore.insert, dif_pos hc]
    exact h
  · rw [E2EKeyStore.insert, dif_neg hc]
    intro i hi
    by_cases hs : i.val = s.nextSlot
    · have hi' : i = ⟨s.nextSlot, s.nextSlot_lt.resolve_left hc⟩ := Fin.ext hs
      rw [hi', List.Vector.get_set_same]
      exact hn
    · have hi' : i ≠ ⟨s.nextSlot, s.nextSlot_lt.resolve_left hc⟩ := fun he => hs (congrArg _ he)
      rw [List.Vector.get_set_of_ne hi'.symm] at hi ⊢
      exact h i hi

/-- A key that is cached sits in a valid entry of its address. -/
theorem Holds.of_cached {s : E2EKeyStore} {P : Entry → Prop} (h : s.Holds P) {mac : Mac}
    {keys : E2EKeys} (hc : s.cached mac = some keys) : P ⟨mac, true, keys⟩ := by
  obtain ⟨i, hi, rfl⟩ := Option.map_eq_some_iff.1 hc
  obtain ⟨hf, hv⟩ := Option.filter_eq_some_iff.1 hi
  have hk := KeyTable.find_key hf
  have hp := h i hv
  generalize s.entries.get i = e at hk hv hp
  cases e
  simp only at hk hv
  rwa [hk, hv] at hp

end E2EKeyStore

end LatticeMesh
