import LatticeMesh.TableLookup

/-!
# The route table is a bounded map

A master keeps the path that each node reported last, for at most sixteen nodes.  What a lookup
finds is told by the calls of `record` alone: it is the last path that was recorded for the node,
unless the node was driven out since.  A node is driven out only by a new node and only from a full
table, and it is one whose path is among the oldest.

## Main definitions

* `RouteTable.Record` — a call of `record`.
* `RouteTable.evictedBy` — the node that a call drives out.
* `RouteTable.Standing` — the call whose path stands for a node.

## Main results

* `RouteTable.standing_append` — what one more call does to the calls that stand.
* `RouteTable.entryAt_recorded` — the table holds the calls that stand.
* `RouteTable.boundedMap` — **after every sequence of calls the table is the map that they
  describe.**
-/

namespace LatticeMesh

namespace RouteTable

/-- A call of `record`. -/
structure Record where
  nodeMac : Mac
  path : RoutePath
  pathLen : UInt8
  nowMs : UInt64
  deriving DecidableEq

/-- Whether the path is short enough to be stored. -/
def Record.stored (q : Record) : Bool := q.pathLen.toNat ≤ maxHops

/-- The relays on the path. -/
def Record.relays (q : Record) : List Mac :=
  ((List.finRange maxHops).take q.pathLen.toNat).map (routeHop q.path)

/-- The table after a call. -/
def add (t : RouteTable) (q : Record) : RouteTable := t.record q.nodeMac q.path q.pathLen q.nowMs

/-- The table after some calls. -/
def recorded (qs : List Record) : RouteTable := Runs.run add empty qs

/-- The nodes that the table holds. -/
def nodes (t : RouteTable) : List Mac := KeyTable.keys t Entry.nodeMac Entry.valid

/-- The node that a call drives out. -/
def evictedBy (t : RouteTable) (q : Record) : Option Mac :=
  if q.stored then
    KeyTable.evicted t Entry.nodeMac Entry.valid q.nodeMac (KeyTable.oldest t Entry.lastSeenMs)
  else none

/-- A call that stores a path for the node. -/
def Record.Stores (q : Record) (mac : Mac) : Prop := q.stored = true ∧ q.nodeMac = mac

instance (q : Record) (mac : Mac) : Decidable (q.Stores mac) := inferInstanceAs (Decidable (_ ∧ _))

/-- The call `q` stands for the node: it stored the last path for it, and the node was not driven
out since. -/
def Standing (qs : List Record) (mac : Mac) (q : Record) : Prop :=
  ∃ earlier later, qs = earlier ++ q :: later ∧ q.Stores mac ∧
    ∀ between r rest, later = between ++ r :: rest →
      ¬r.Stores mac ∧ evictedBy (recorded (earlier ++ q :: between)) r ≠ some mac

/-- The entry keeps what the call said. -/
structure Entry.Keeps (e : Entry) (q : Record) : Prop where
  pathLen : e.pathLen = q.pathLen
  lastSeenMs : e.lastSeenMs = q.nowMs
  hop : ∀ i : Fin maxHops, i.val < q.pathLen.toNat → routeHop e.path i = routeHop q.path i

variable {t : RouteTable} {qs : List Record} {q r : Record} {mac : Mac}

theorem recorded_append (qs : List Record) (q : Record) :
    recorded (qs ++ [q]) = add (recorded qs) q := Runs.run_append qs [q]

theorem packed_add (h : Packed t) (q : Record) : Packed (add t q) := h.record _ _ _ _

theorem packed_recorded (qs : List Record) : Packed (recorded qs) :=
  Runs.run_invariant (C := fun _ _ => True) packed_empty (fun _ q h _ => packed_add h q)
    (Runs.along_of_forall (fun _ _ => trivial) _ qs)

/-- An overlong path changes nothing. -/
theorem add_of_not_stored (h : q.stored = false) : add t q = t := by
  unfold add record
  exact if_pos (not_le.1 (of_decide_eq_false h))

/-- What one more call does to the calls that stand. -/
theorem standing_append : Standing (qs ++ [q]) mac r ↔
    q.Stores mac ∧ r = q ∨
      ¬q.Stores mac ∧ evictedBy (recorded qs) q ≠ some mac ∧ Standing qs mac r := by
  constructor
  · rintro ⟨earlier, later, heq, hr, hlater⟩
    rcases List.eq_nil_or_concat' later with rfl | ⟨later, x, rfl⟩
    · obtain ⟨-, hx⟩ := List.append_inj' heq rfl
      obtain rfl := (List.cons.inj hx).1
      exact .inl ⟨hr, rfl⟩
    · -- the new call is the last one after the call that stands
      have hqs : qs ++ [q] = (earlier ++ r :: later) ++ [x] := by simpa using heq
      obtain ⟨rfl, hx⟩ := List.append_inj' hqs rfl
      obtain rfl := (List.cons.inj hx).1
      have hlast := hlater later q [] rfl
      refine .inr ⟨hlast.1, hlast.2, earlier, later, rfl, hr, ?_⟩
      intro between s rest hs
      exact hlater between s (rest ++ [q]) (by rw [hs, List.append_assoc]; rfl)
  · rintro (⟨hq, rfl⟩ | ⟨hq, hev, earlier, later, rfl, hr, hlater⟩)
    · refine ⟨qs, [], rfl, hq, ?_⟩
      intro between s rest hs
      simp at hs
    · refine ⟨earlier, later ++ [q], by simp, hr, ?_⟩
      intro between s rest hs
      rcases List.eq_nil_or_concat' rest with rfl | ⟨rest, x, rfl⟩
      · obtain ⟨rfl, hx⟩ := List.append_inj' hs rfl
        obtain rfl := (List.cons.inj hx).1
        exact ⟨hq, hev⟩
      · have hs' : later ++ [q] = (between ++ s :: rest) ++ [x] := by simpa using hs
        exact hlater between s rest (List.append_inj' hs' rfl).1

/-- The map after one more call. -/
theorem entryAt_add (h : Packed t) (q : Record) :
    ∃ e : Entry, e.Keeps q ∧ ∀ mac, KeyTable.entryAt (add t q) Entry.nodeMac Entry.valid mac =
      if q.Stores mac then some e
      else if evictedBy t q = some mac then none
      else KeyTable.entryAt t Entry.nodeMac Entry.valid mac := by
  cases hq : q.stored with
  | false =>
    refine ⟨⟨q.nodeMac, q.pathLen, true, q.nowMs, q.path⟩, ⟨rfl, rfl, fun _ _ => rfl⟩, ?_⟩
    intro mac
    rw [add_of_not_stored hq]
    simp [Record.Stores, evictedBy, hq]
  | true =>
    have hlen : q.pathLen.toNat ≤ maxHops := of_decide_eq_true hq
    set slot := (findSlot t q.nodeMac).getD (allocateSlot t) with hslot
    set e : Entry := ⟨q.nodeMac, q.pathLen, true, q.nowMs,
      copyPath (t.get slot).path q.path q.pathLen⟩ with he
    have hadd : add t q = t.set slot e := by
      unfold add record
      exact if_neg (not_lt.2 hlen)
    refine ⟨e, ⟨rfl, rfl, fun i hi => routeHop_copyPath _ _ hi⟩, ?_⟩
    intro mac
    rw [hadd]
    refine (KeyTable.Packed.entryAt_insert h (e := e) rfl rfl _ mac).trans ?_
    unfold evictedBy Record.Stores
    simp only [hq, true_and, if_true]
    exact if_congr eq_comm rfl rfl

/-- **The table holds the calls that stand.** -/
theorem entryAt_recorded (qs : List Record) (mac : Mac) :
    (∀ e, KeyTable.entryAt (recorded qs) Entry.nodeMac Entry.valid mac = some e →
      ∃ q, Standing qs mac q ∧ e.Keeps q) ∧
    ∀ q, Standing qs mac q → ∃ e,
      KeyTable.entryAt (recorded qs) Entry.nodeMac Entry.valid mac = some e ∧ e.Keeps q := by
  induction qs using List.reverseRecOn with
  | nil =>
    refine ⟨?_, ?_⟩
    · intro e he
      obtain ⟨i, hu, -, -⟩ := (KeyTable.Packed.entryAt_eq_some packed_empty).1 he
      rw [empty, List.Vector.get_replicate] at hu
      cases hu
    · rintro q ⟨earlier, later, hnil, -⟩
      simp at hnil
  | append_singleton qs q ih =>
    obtain ⟨new, hnew, hadd⟩ := entryAt_add (packed_recorded qs) q
    rw [recorded_append, hadd mac]
    refine ⟨?_, ?_⟩
    · intro e he
      split at he
      · rename_i hq
        obtain rfl := Option.some.inj he
        exact ⟨q, standing_append.2 (.inl ⟨hq, rfl⟩), hnew⟩
      rename_i hq
      split at he
      · cases he
      rename_i hev
      obtain ⟨r, hr, hk⟩ := ih.1 e he
      exact ⟨r, standing_append.2 (.inr ⟨hq, hev, hr⟩), hk⟩
    · intro r hr
      rcases standing_append.1 hr with ⟨hq, rfl⟩ | ⟨hq, hev, hr⟩
      · exact ⟨new, if_pos hq, hnew⟩
      · obtain ⟨e, he, hk⟩ := ih.2 r hr
        exact ⟨e, by rw [if_neg hq, if_neg hev, he], hk⟩

/-! ### What a lookup finds -/

/-- The relays that an entry keeps. -/
def Entry.relays (e : Entry) : List Mac :=
  ((List.finRange maxHops).take e.pathLen.toNat).map (routeHop e.path)

theorem relaysOf_eq (t : RouteTable) (mac : Mac) : t.relaysOf mac =
    (KeyTable.entryAt t Entry.nodeMac Entry.valid mac).map Entry.relays := by
  unfold relaysOf lookup KeyTable.entryAt
  rw [Option.map_map, Option.map_map, findSlot_eq_holder]
  rfl

theorem Entry.Keeps.relays {e : Entry} (h : e.Keeps q) : e.relays = q.relays := by
  unfold Entry.relays Record.relays
  rw [h.pathLen]
  refine List.map_congr_left fun i hi => h.hop i ?_
  obtain ⟨j, hj, rfl⟩ := List.mem_take_iff_getElem.1 hi
  rw [List.getElem_finRange]
  simp only [List.length_finRange] at hj
  show j < _
  omega

/-- What a lookup finds is the path of the call that stands. -/
theorem relaysOf_recorded {relays : List Mac} :
    (recorded qs).relaysOf mac = some relays ↔ ∃ q, Standing qs mac q ∧ q.relays = relays := by
  rw [relaysOf_eq, Option.map_eq_some_iff]
  constructor
  · rintro ⟨e, he, rfl⟩
    obtain ⟨q, hq, hk⟩ := (entryAt_recorded qs mac).1 e he
    exact ⟨q, hq, hk.relays.symm⟩
  · rintro ⟨q, hq, rfl⟩
    obtain ⟨e, he, hk⟩ := (entryAt_recorded qs mac).2 q hq
    exact ⟨e, he, hk.relays⟩

/-- The nodes that are held are those with a call that stands. -/
theorem mem_nodes_recorded : mac ∈ (recorded qs).nodes ↔ ∃ q, Standing qs mac q := by
  unfold nodes
  rw [(packed_recorded qs).mem_keys_iff]
  constructor
  · rintro ⟨e, he⟩
    obtain ⟨q, hq, -⟩ := (entryAt_recorded qs mac).1 e he
    exact ⟨q, hq⟩
  · rintro ⟨q, hq⟩
    obtain ⟨e, he, -⟩ := (entryAt_recorded qs mac).2 q hq
    exact ⟨e, he⟩

/-- What is true when the call `q`, made after the calls `qs`, drives out the node `mac`: the table
was full, the call is for a new node, and no path in the table is older than that of `mac`. -/
structure DrivesOut (qs : List Record) (q : Record) (mac : Mac) : Prop where
  stored : q.stored = true
  new : q.nodeMac ∉ (recorded qs).nodes
  full : (recorded qs).nodes.length = routeTableMax
  mem : mac ∈ (recorded qs).nodes
  oldest : ∀ r, Standing qs mac r → ∀ mac' r', Standing qs mac' r' → r.nowMs ≤ r'.nowMs
  gone : mac ∉ (recorded (qs ++ [q])).nodes

theorem drivesOut (h : evictedBy (recorded qs) q = some mac) : DrivesOut qs q mac := by
  have hp := packed_recorded qs
  have hq : q.stored = true := by
    by_contra hq
    rw [evictedBy, if_neg hq] at h
    cases h
  rw [evictedBy, if_pos hq] at h
  obtain ⟨hno, hfull, hmac⟩ := KeyTable.evicted_eq_some h
  set i := KeyTable.oldest (recorded qs) Entry.lastSeenMs with hi
  have hused : ((recorded qs).get i).valid = true := KeyTable.used_of_full hfull i
  have hnew : q.nodeMac ∉ (recorded qs).nodes := by
    intro hm
    obtain ⟨j, hu, hk⟩ := KeyTable.mem_keys.1 hm
    exact hp.holder_eq_none.1 hno j hu hk
  have hmem : mac ∈ (recorded qs).nodes := KeyTable.mem_keys.2 ⟨i, hused, hmac⟩
  refine ⟨hq, hnew, KeyTable.length_keys_of_full hfull, hmem, ?_, ?_⟩
  · intro r hr mac' r' hr'
    -- the entries of the two calls, of which the first one sits in the oldest slot
    obtain ⟨e, he, hk⟩ := (entryAt_recorded qs mac).2 r hr
    obtain ⟨e', he', hk'⟩ := (entryAt_recorded qs mac').2 r' hr'
    have hei : (recorded qs).get i = e :=
      Option.some.inj ((hp.entryAt_eq_some.2 ⟨i, hused, hmac, rfl⟩).symm.trans he)
    obtain ⟨j, -, -, rfl⟩ := hp.entryAt_eq_some.1 he'
    rw [← hk.lastSeenMs, ← hk'.lastSeenMs, ← hei, UInt64.le_iff_toNat_le]
    exact KeyTable.oldest_le (f := UInt64.toNat) (fun _ _ => UInt64.lt_iff_toNat_lt) j
  · intro hm
    obtain ⟨r, hr⟩ := mem_nodes_recorded.1 hm
    rcases standing_append.1 hr with ⟨hs, -⟩ | ⟨-, hev, -⟩
    · exact hnew (hs.2 ▸ hmem)
    · exact hev (by rw [evictedBy, if_pos hq, h])

/-- The table after the calls `qs` is a map of at most sixteen nodes. -/
structure BoundedMap (qs : List Record) : Prop where
  lookup : ∀ mac relays, (recorded qs).relaysOf mac = some relays ↔
    ∃ q, Standing qs mac q ∧ q.relays = relays
  overlong : ∀ q : Record, maxHops < q.pathLen.toNat → recorded (qs ++ [q]) = recorded qs
  nodup : (recorded qs).nodes.Nodup
  length_le : (recorded qs).nodes.length ≤ routeTableMax
  mem_nodes : ∀ mac, mac ∈ (recorded qs).nodes ↔ ((recorded qs).relaysOf mac).isSome = true
  evicts : ∀ q mac, evictedBy (recorded qs) q = some mac → DrivesOut qs q mac

/-- **After every sequence of calls the table is the map that they describe.** -/
theorem boundedMap (qs : List Record) : BoundedMap qs where
  lookup _ _ := relaysOf_recorded
  overlong q hq := by
    rw [recorded_append]
    exact add_of_not_stored (decide_eq_false (not_le.2 hq))
  nodup := (packed_recorded qs).nodup_keys
  length_le := KeyTable.length_keys_le _ _ _
  mem_nodes mac := by
    rw [mem_nodes_recorded, Option.isSome_iff_exists]
    constructor
    · rintro ⟨q, hq⟩
      exact ⟨q.relays, relaysOf_recorded.2 ⟨q, hq, rfl⟩⟩
    · rintro ⟨relays, hr⟩
      obtain ⟨q, hq, -⟩ := relaysOf_recorded.1 hr
      exact ⟨q, hq⟩
  evicts _ _ := drivesOut

end RouteTable

end LatticeMesh
