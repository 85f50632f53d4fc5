import LatticeMesh.Lib.SlotMap
import LatticeMesh.Lib.Runs
import LatticeMesh.KeyLookup
import LatticeMesh.NeighborScan
import LatticeMesh.ReplayLog

/-!
# Lookups that do not look at the flag

The neighbour table, the route table, the replay cache and the cache of derived keys share one
search: it takes the first slot with an address and looks at the slot's flag afterwards.  Unused
slots have the all-zero address, and a frame can carry that address too.  The search is right all
the same, since each table fills its slots from the front and never frees a single one.

## Main definitions

* `LookupExact` — the search is as good as a scan of the valid entries, which are all different.
* `NeighborTable.Op`, `RouteTable.Op`, `ReplayCache.Op`, `E2EKeyStore.Op` — the calls on each table.
* `E2EKeyStore.getKeys` — a lookup of derived keys, on the cache alone.
* `E2EKeyStore.Filled` — the valid entries of the cache of keys end where the next one goes.

## Main results

* `E2EKeyStore.getKeys_eq` — a node's lookup of keys is that of its cache.
* `tables_lookupExact` — **in every state that any calls lead to, each table's lookup is exact.**
-/

namespace LatticeMesh

/-- Looking an address up in the whole array and testing the flag afterwards gives what a scan of
the valid entries gives, and no two valid entries have one address. -/
structure LookupExact {ε : Type*} {n : ℕ} (t : List.Vector ε n) (mac : ε → Mac) (valid : ε → Bool) :
    Prop where
  lookup : ∀ m, KeyTable.holder t mac valid m = KeyTable.scanUsed t mac valid m
  distinct : ∀ i j, valid (t.get i) = true → valid (t.get j) = true →
    mac (t.get i) = mac (t.get j) → i = j

theorem LookupExact.of_packed {ε : Type*} {n : ℕ} {t : List.Vector ε n} {mac : ε → Mac}
    {valid : ε → Bool} (h : KeyTable.Packed t mac valid) : LookupExact t mac valid :=
  ⟨h.holder_eq, h.key_inj⟩

/-! ### The neighbour table -/

namespace NeighborTable

variable {t : NeighborTable} {mac : Mac}

/-- Whether the neighbour `mac` is known. -/
def contains (t : NeighborTable) (mac : Mac) : Bool := (t.findSlot mac).isSome

/-- The table with all entries dropped. -/
def clear (_ : NeighborTable) : NeighborTable := empty

/-- A call on a table. -/
inductive Op
  | call (c : Call)
  | clear
  deriving DecidableEq

/-- The table after a call. -/
def Op.apply (t : NeighborTable) : Op → NeighborTable
  | .call c => c.apply t
  | .clear => t.clear

/-- The table after some calls. -/
def after (ops : List Op) : NeighborTable := Runs.run Op.apply empty ops

theorem findSlot_eq_holder (t : NeighborTable) (mac : Mac) :
    t.findSlot mac = KeyTable.holder t Entry.mac Entry.valid mac := rfl

theorem packed_iff : Packed t ↔ KeyTable.Packed t Entry.mac Entry.valid :=
  ⟨fun h => ⟨h.first, h.distinct⟩, fun h => ⟨h.key_inj, h.used_of_le⟩⟩

theorem packed_op (h : Packed t) (op : Op) : Packed (op.apply t) := by
  cases op with
  | call c => exact h.apply c
  | clear => exact packed_empty

theorem packed_after (ops : List Op) : Packed (after ops) :=
  Runs.run_invariant (C := fun _ _ => True) packed_empty (fun _ op h _ => packed_op h op)
    (Runs.along_of_forall (fun _ _ => trivial) _ ops)

/-- A neighbour is known exactly when a valid entry has its address. -/
theorem contains_iff (ops : List Op) : (after ops).contains mac = true ↔
    ∃ i, ((after ops).get i).valid = true ∧ ((after ops).get i).mac = mac := by
  unfold contains
  rw [Option.isSome_iff_exists]
  exact exists_congr fun i => (packed_iff.1 (packed_after ops)).holder_eq_some

end NeighborTable

/-! ### The route table -/

namespace RouteTable

/-- The table with all entries dropped. -/
def clear (_ : RouteTable) : RouteTable := empty

/-- A call on a table. -/
inductive Op
  | record (nodeMac : Mac) (path : RoutePath) (pathLen : UInt8) (nowMs : UInt64)
  | clear
  deriving DecidableEq

/-- The table after a call. -/
def Op.apply (t : RouteTable) : Op → RouteTable
  | .record mac path len now => t.record mac path len now
  | .clear => t.clear

/-- The table after some calls. -/
def after (ops : List Op) : RouteTable := Runs.run Op.apply empty ops

/-- The slots in use come first, and no node has two of them. -/
def Packed (t : RouteTable) : Prop := KeyTable.Packed t Entry.nodeMac Entry.valid

theorem packed_empty : Packed empty := by
  refine KeyTable.packed_of_unused ?_
  intro i
  rw [empty, List.Vector.get_replicate]

variable {t : RouteTable} {mac : Mac}

theorem findSlot_eq_holder (t : RouteTable) (mac : Mac) :
    t.findSlot mac = KeyTable.holder t Entry.nodeMac Entry.valid mac := rfl

theorem Packed.record (h : Packed t) (mac : Mac) (path : RoutePath) (pathLen : UInt8)
    (nowMs : UInt64) : Packed (t.record mac path pathLen nowMs) := by
  unfold RouteTable.record
  split
  · exact h
  · exact KeyTable.Packed.insert h (e := ⟨mac, pathLen, true, nowMs, _⟩) rfl rfl _

theorem packed_op (h : Packed t) (op : Op) : Packed (op.apply t) := by
  cases op with
  | record mac path len now => exact h.record mac path len now
  | clear => exact packed_empty

theorem packed_after (ops : List Op) : Packed (after ops) :=
  Runs.run_invariant (C := fun _ _ => True) packed_empty (fun _ op h _ => packed_op h op)
    (Runs.along_of_forall (fun _ _ => trivial) _ ops)

end RouteTable

/-! ### The replay cache -/

namespace ReplayCache

/-- The cache with all entries dropped. -/
def init (_ : ReplayCache) : ReplayCache := empty

/-- A call on a cache. -/
inductive Op
  | init
  | isReplay (m : Message) (nowMs : UInt64)
  deriving DecidableEq

/-- The cache after a call. -/
def Op.apply (c : ReplayCache) : Op → ReplayCache
  | .init => c.init
  | .isReplay m now => (ReplayCache.isReplay c m now).2

/-- The cache after some calls. -/
def afterOps (ops : List Op) : ReplayCache := Runs.run Op.apply empty ops

variable {c : ReplayCache}

theorem wellFormed_op (h : WellFormed c) (op : Op) : WellFormed (op.apply c) := by
  cases op with
  | init => exact wellFormed_empty
  | isReplay m now => exact h.isReplay (m, now)

theorem wellFormed_afterOps (ops : List Op) : WellFormed (afterOps ops) :=
  Runs.run_invariant (C := fun _ _ => True) wellFormed_empty (fun _ op h _ => wellFormed_op h op)
    (Runs.along_of_forall (fun _ _ => trivial) _ ops)

end ReplayCache

/-! ### The cache of derived keys -/

namespace E2EKeyStore

/-- The cache with all keys dropped. -/
def clear (s : E2EKeyStore) : E2EKeyStore := ofCapacity s.capacity

/-- The keys of a peer, from the cache or derived now, and the cache afterwards.  There is no result
if the derivation rejects the public key, which halts the node. -/
def getKeys (c : Crypto) (s : E2EKeyStore) (mac : Mac) (ownPrivateKey : Key)
    (peerPublicKey : Option Key) : Option (Option E2EKeys × E2EKeyStore) :=
  if s.capacity = 0 then some (none, s)
  else
    match s.cached mac, peerPublicKey with
    | some keys, _ => some (some keys, s)
    | none, none => some (none, s)
    | none, some key =>
      if key.isZero then some (none, s)
      else (e2eKeysOf c ownPrivateKey key).map fun keys => (some keys, s.insert mac keys)

/-- A call on a cache. -/
inductive Op
  | setCapacity (maxEntries : ℕ)
  | getKeys (mac : Mac) (ownPrivateKey : Key) (peerPublicKey : Option Key)
  | clear
  deriving DecidableEq

/-- The cache after a call, unless the call halts the node. -/
def Op.apply (c : Crypto) (s : E2EKeyStore) : Op → Option E2EKeyStore
  | .setCapacity n => some (s.setCapacity n)
  | .getKeys mac priv key => (s.getKeys c mac priv key).map Prod.snd
  | .clear => some s.clear

/-- The cache after some calls, unless one of them halts the node. -/
def after (c : Crypto) (ops : List Op) : Option E2EKeyStore :=
  ops.foldlM (Op.apply c) (ofCapacity e2eKeycacheMax)

variable {c : Crypto} {s t : E2EKeyStore} {mac : Mac}

theorem cached_eq_holder (s : E2EKeyStore) (mac : Mac) :
    s.cached mac = (KeyTable.holder s.entries Entry.mac Entry.valid mac).map
      fun i => (s.entries.get i).keys := rfl

/-- The valid entries end where the next one goes, or else all entries are valid; no two of them
have one address. -/
structure Filled (s : E2EKeyStore) : Prop where
  valid_iff : (∀ i, (s.entries.get i).valid = true) ∨
    ∀ i, (s.entries.get i).valid = true ↔ i.val < s.nextSlot
  mac_inj : ∀ i j, (s.entries.get i).valid = true → (s.entries.get j).valid = true →
    (s.entries.get i).mac = (s.entries.get j).mac → i = j

theorem Filled.packed (h : Filled s) : KeyTable.Packed s.entries Entry.mac Entry.valid := by
  refine ⟨?_, h.mac_inj⟩
  intro i j hij hj
  rcases h.valid_iff with hall | hiff
  · exact hall i
  · exact (hiff i).2 (lt_of_le_of_lt hij ((hiff j).1 hj))

theorem filled_ofCapacity (maxEntries : ℕ) : Filled (ofCapacity maxEntries) := by
  have hunused : ∀ i, ((ofCapacity maxEntries).entries.get i).valid = false := by
    intro i
    rw [show (ofCapacity maxEntries).entries.get i = {} from List.Vector.get_replicate _ i]
  refine ⟨.inr ?_, (KeyTable.packed_of_unused hunused).key_inj⟩
  intro i
  rw [hunused i]
  exact iff_of_false (by decide) (Nat.not_lt_zero _)

theorem Filled.setCapacity (h : Filled s) (maxEntries : ℕ) : Filled (s.setCapacity maxEntries) := by
  unfold E2EKeyStore.setCapacity
  split
  · exact h
  · exact filled_ofCapacity maxEntries

/-- New keys of an address that has none keep the cache filled from the front. -/
theorem Filled.insert (h : Filled s) (hno : s.cached mac = none) (keys : E2EKeys) :
    Filled (s.insert mac keys) := by
  by_cases hc : s.capacity = 0
  -- a cache of no slots keeps nothing
  · rw [E2EKeyStore.insert, dif_pos hc]
    exact h
  rw [cached_eq_holder, Option.map_eq_none_iff, h.packed.holder_eq_none] at hno
  have hlt : s.nextSlot < s.capacity := s.nextSlot_lt.resolve_left hc
  have hpacked : KeyTable.Packed (s.entries.set ⟨s.nextSlot, hlt⟩ ⟨mac, true, keys⟩)
      Entry.mac Entry.valid := by
    -- the next slot is behind the valid ones, or all are valid
    refine h.packed.set rfl ?_ ?_
    · intro k hk
      rcases h.valid_iff with hall | hiff
      · exact hall k
      · exact (hiff k).2 hk
    · intro j hj hm
      exact absurd hm (hno j hj)
  have hget : ∀ i, ((s.entries.set ⟨s.nextSlot, hlt⟩ ⟨mac, true, keys⟩).get i).valid = true ↔
      i.val = s.nextSlot ∨ (s.entries.get i).valid = true := by
    intro i
    rw [KeyTable.get_set]
    by_cases hi : i = ⟨s.nextSlot, hlt⟩
    · rw [if_pos hi]
      exact iff_of_true rfl (.inl (congrArg Fin.val hi))
    · rw [if_neg hi]
      exact (or_iff_right fun h => hi (Fin.ext h)).symm
  have hvalid : (∀ i, ((s.entries.set ⟨s.nextSlot, hlt⟩ ⟨mac, true, keys⟩).get i).valid = true) ∨
      ∀ i, ((s.entries.set ⟨s.nextSlot, hlt⟩ ⟨mac, true, keys⟩).get i).valid = true ↔
        i.val < (s.nextSlot + 1) % s.capacity := by
    rcases h.valid_iff with hall | hiff
    · exact .inl fun i => (hget i).2 (.inr (hall i))
    by_cases hlast : s.nextSlot + 1 = s.capacity
    · -- the last free slot is taken, and the next entry goes to the front again
      left
      intro i
      have hi := i.isLt
      rw [hget i, hiff i]
      omega
    · right
      intro i
      rw [hget i, hiff i, Nat.mod_eq_of_lt (by omega)]
      omega
  rw [E2EKeyStore.insert, dif_neg hc]
  exact ⟨hvalid, hpacked.key_inj⟩

theorem Filled.getKeys {priv : Key} {key : Option Key} {r : Option E2EKeys} (h : Filled s)
    (hr : s.getKeys c mac priv key = some (r, t)) : Filled t := by
  unfold E2EKeyStore.getKeys at hr
  split at hr
  · obtain ⟨-, rfl⟩ := Prod.mk.inj (Option.some.inj hr)
    exact h
  split at hr
  · obtain ⟨-, rfl⟩ := Prod.mk.inj (Option.some.inj hr)
    exact h
  · obtain ⟨-, rfl⟩ := Prod.mk.inj (Option.some.inj hr)
    exact h
  rename_i hno
  split at hr
  · obtain ⟨-, rfl⟩ := Prod.mk.inj (Option.some.inj hr)
    exact h
  · obtain ⟨keys, -, hk⟩ := Option.map_eq_some_iff.1 hr
    obtain ⟨-, rfl⟩ := Prod.mk.inj hk
    exact h.insert hno keys

theorem Filled.op (h : Filled s) {op : Op} (ho : op.apply c s = some t) : Filled t := by
  cases op with
  | setCapacity n =>
    obtain rfl := Option.some.inj ho
    exact h.setCapacity n
  | getKeys mac priv key =>
    obtain ⟨⟨r, u⟩, hr, rfl⟩ := Option.map_eq_some_iff.1 ho
    exact h.getKeys hr
  | clear =>
    obtain rfl := Option.some.inj ho
    exact filled_ofCapacity s.capacity

theorem filled_after {ops : List Op} (h : after c ops = some s) : Filled s := by
  have hrun : ∀ (ops : List Op) {s t : E2EKeyStore}, Filled s →
      ops.foldlM (Op.apply c) s = some t → Filled t := by
    intro ops
    induction ops with
    | nil =>
      intro s t hs ht
      obtain rfl := Option.some.inj ht
      exact hs
    | cons op ops ih =>
      intro s t hs ht
      rw [List.foldlM_cons] at ht
      obtain ⟨u, hu, ht⟩ := Option.bind_eq_some_iff.1 ht
      exact ih (hs.op hu) ht
  exact hrun ops (filled_ofCapacity _) h

/-- A node's lookup of keys is that of its cache. -/
theorem getKeys_eq {w : World} {n : Node} {priv key : Key} : EffectSpec.wp
    (LatticeMesh.getKeys w mac priv key)
    (fun r n' => n.e2eKeys.getKeys w.crypto mac priv (some key) = some (r, n'.e2eKeys))
    (fun _ _ => n.e2eKeys.getKeys w.crypto mac priv (some key) = none) n := by
  unfold LatticeMesh.getKeys E2EKeyStore.getKeys
  rw [EffectSpec.wp_bind, EffectSpec.wp_get]
  split
  · rfl
  cases hc : n.e2eKeys.cached mac with
  | some keys => rfl
  | none =>
    dsimp only
    split
    · rfl
    rw [EffectSpec.wp_bind]
    refine EffectSpec.wp_mono _ ?_ ?_ wp_deriveE2EKeys
    · rintro keys n' ⟨rfl, hk⟩
      rw [EffectSpec.wp_bind, EffectSpec.wp_modify, EffectSpec.wp_pure, hk]
      rfl
    · intro _ _ hnone
      rw [hnone]
      rfl

end E2EKeyStore

/-! ### All four tables -/

/-- **In every state that any calls lead to, each table's lookup is exact**, on every address. -/
theorem tables_lookupExact :
    (∀ ops, LookupExact (NeighborTable.after ops) NeighborTable.Entry.mac
      NeighborTable.Entry.valid) ∧
    (∀ ops, LookupExact (RouteTable.after ops) RouteTable.Entry.nodeMac RouteTable.Entry.valid) ∧
    (∀ ops, LookupExact (ReplayCache.afterOps ops) ReplayCache.Entry.mac ReplayCache.Entry.used) ∧
    ∀ c ops s, E2EKeyStore.after c ops = some s →
      LookupExact s.entries E2EKeyStore.Entry.mac E2EKeyStore.Entry.valid := by
  refine ⟨?_, ?_, ?_, ?_⟩
  · intro ops
    exact .of_packed (NeighborTable.packed_iff.1 (NeighborTable.packed_after ops))
  · intro ops
    exact .of_packed (RouteTable.packed_after ops)
  · intro ops
    have h := ReplayCache.wellFormed_afterOps ops
    exact .of_packed ⟨h.used_of_le, h.mac_inj⟩
  · intro c ops s h
    exact .of_packed (E2EKeyStore.filled_after h).packed

/-- The keys of a peer with the all-zero address, in a cache whose unused slot has that address. -/
theorem tables_lookupExact_zeroMac : ∃ s, E2EKeyStore.after Sample.crypto
    [.setCapacity 2, .getKeys zeroMac (Sample.key 1) (some (Sample.key 7))] = some s ∧
    LookupExact s.entries E2EKeyStore.Entry.mac E2EKeyStore.Entry.valid :=
  ⟨_, rfl, tables_lookupExact.2.2.2 Sample.crypto
    [.setCapacity 2, .getKeys zeroMac (Sample.key 1) (some (Sample.key 7))] _ rfl⟩

end LatticeMesh
