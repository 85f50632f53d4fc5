import LatticeMesh.Lib.Lru
import LatticeMesh.Lib.Runs
import LatticeMesh.RadioPeers

/-!
# The forwarding peers of downlink frames

The next hops of downlink frames that are registered with the radio, kept in an array of four slots
with a count.  Three loops move addresses in the array: one closes the gap that an address leaves,
two open a gap at the front.  Together they keep a list in which the address used last comes first.

## Main definitions

* `DownlinkRouter` — the array and its count, which never exceeds the array.
* `DownlinkRouter.registerDownlinkPeer` — a call, as the loops carry it out, and the address that it
  unregisters.
* `DownlinkRouter.tracked` — the array as a list.
* `DownlinkRouter.Refines` — what a call does to the list.

## Main results

* `DownlinkRouter.tracked_remove`, `DownlinkRouter.tracked_touch`, `DownlinkRouter.tracked_insert` —
  each loop is an operation on the list.
* `DownlinkRouter.registered_eq` — a node's router keeps the same list.
* `DownlinkRouter.refines` — **after every sequence of calls, a call is one on the list of the least
  recently used.**
-/

namespace LatticeMesh

/-- The downlink router's forwarding peers: the first slots of the array are in use. -/
structure DownlinkRouter where
  downlinkPeerLru : Vector Mac downlinkPeerMax
  downlinkPeerLruCount : ℕ
  /-- The slots in use lie in the array. -/
  count_le : downlinkPeerLruCount ≤ downlinkPeerMax

namespace DownlinkRouter

theorem downlinkPeerMax_pos : 0 < downlinkPeerMax := by decide

/-- The router at start-up. -/
def init : DownlinkRouter := ⟨Vector.replicate _ zeroMac, 0, Nat.zero_le _⟩

/-- The addresses in the slots in use. -/
def tracked (r : DownlinkRouter) : List Mac := r.downlinkPeerLru.toList.take r.downlinkPeerLruCount

/-- The first slot in use that holds the address. -/
def slotOf (r : DownlinkRouter) (mac : Mac) : Option (Fin r.downlinkPeerLruCount) :=
  (List.finRange r.downlinkPeerLruCount).find? fun i =>
    r.downlinkPeerLru.get (i.castLE r.count_le) = mac

/-- Whether the address is an enrolled peer or the current master. -/
def managed (peers : PeerRegistry) (currentMaster : MasterInfo) (mac : Mac) : Bool :=
  (peers.find mac).isSome || (currentMaster.distance ≠ 0xFF && mac = currentMaster.mac)

theorem closeGap_bound (r : DownlinkRouter) (i : Fin r.downlinkPeerLruCount) :
    i.val + (r.downlinkPeerLruCount - 1 - i.val) < downlinkPeerMax := by
  have hi := i.isLt
  have hc := r.count_le
  omega

/-- Take the address in a slot out: the later ones move up, and the count falls. -/
def remove (r : DownlinkRouter) (i : Fin r.downlinkPeerLruCount) : DownlinkRouter where
  downlinkPeerLru := Lru.closeGap r.downlinkPeerLru i (r.downlinkPeerLruCount - 1 - i)
    (r.closeGap_bound i)
  downlinkPeerLruCount := r.downlinkPeerLruCount - 1
  count_le := (Nat.sub_le _ _).trans r.count_le

/-- Move the address in a slot to the front. -/
def touch (r : DownlinkRouter) (i : Fin r.downlinkPeerLruCount) : DownlinkRouter :=
  let touched := r.downlinkPeerLru.get (i.castLE r.count_le)
  { r with
    downlinkPeerLru := (Lru.openGap r.downlinkPeerLru i (i.castLE r.count_le).isLt).set 0 touched
      downlinkPeerMax_pos }

/-- The count after a new address: it grows until the array is full. -/
def grown (r : DownlinkRouter) : ℕ :=
  if r.downlinkPeerLruCount ≥ downlinkPeerMax then r.downlinkPeerLruCount
  else r.downlinkPeerLruCount + 1

theorem grown_bounds (r : DownlinkRouter) : 0 < r.grown ∧ r.grown ≤ downlinkPeerMax := by
  have hc := r.count_le
  have hpos := downlinkPeerMax_pos
  unfold grown
  split <;> omega

theorem grown_lt (r : DownlinkRouter) : r.grown - 1 < downlinkPeerMax := by
  obtain ⟨hpos, hle⟩ := r.grown_bounds
  omega

/-- Put a new address in front; the last one makes room in a full array. -/
def insert (r : DownlinkRouter) (mac : Mac) : DownlinkRouter where
  downlinkPeerLru := (Lru.openGap r.downlinkPeerLru (r.grown - 1) r.grown_lt).set 0 mac
    downlinkPeerMax_pos
  downlinkPeerLruCount := r.grown
  count_le := r.grown_bounds.2

/-- The last address of a full array, which a new address unregisters from the radio. -/
def oldest (r : DownlinkRouter) : Option Mac :=
  if r.downlinkPeerLruCount ≥ downlinkPeerMax then
    some (r.downlinkPeerLru.get ⟨r.grown - 1, r.grown_lt⟩)
  else none

/-- Register the next hop of a downlink frame; the address that is unregistered, and the router
afterwards. -/
def registerDownlinkPeer (r : DownlinkRouter) (mac : Mac) (peers : PeerRegistry)
    (currentMaster : MasterInfo) : Option Mac × DownlinkRouter :=
  if managed peers currentMaster mac then
    match r.slotOf mac with
    | some i => (none, r.remove i)
    | none => (none, r)
  else
    match r.slotOf mac with
    | some i => (none, r.touch i)
    | none => (r.oldest, r.insert mac)

variable {r : DownlinkRouter} {mac : Mac}

/-! ### The array as a list -/

theorem length_tracked (r : DownlinkRouter) : r.tracked.length = r.downlinkPeerLruCount := by
  have hc := r.count_le
  rw [tracked, List.length_take, Vector.length_toList]
  omega

theorem getElem?_tracked (i : Fin r.downlinkPeerLruCount) :
    r.tracked[i.val]? = some (r.downlinkPeerLru.get (i.castLE r.count_le)) := by
  have hi : i.val < downlinkPeerMax := (i.castLE r.count_le).isLt
  rw [tracked, List.getElem?_take_of_lt i.isLt, Vector.getElem?_toList,
    Vector.getElem?_eq_getElem hi]
  rfl

theorem mem_tracked : mac ∈ r.tracked ↔
    ∃ i : Fin r.downlinkPeerLruCount, r.downlinkPeerLru.get (i.castLE r.count_le) = mac := by
  rw [List.mem_iff_getElem?]
  constructor
  · rintro ⟨i, hi⟩
    obtain ⟨hlt, -⟩ := List.getElem?_eq_some_iff.1 hi
    rw [length_tracked] at hlt
    exact ⟨⟨i, hlt⟩, Option.some.inj ((getElem?_tracked ⟨i, hlt⟩).symm.trans hi)⟩
  · rintro ⟨i, rfl⟩
    exact ⟨i.val, getElem?_tracked i⟩

theorem slotOf_some {i : Fin r.downlinkPeerLruCount} (h : r.slotOf mac = some i) :
    r.downlinkPeerLru.get (i.castLE r.count_le) = mac := by
  simpa using List.find?_some h

theorem slotOf_eq_none : r.slotOf mac = none ↔ mac ∉ r.tracked := by
  rw [mem_tracked]
  simp [slotOf]

/-- The slot that is found is the place of the address in the list. -/
theorem eraseIdx_slotOf (hn : r.tracked.Nodup) {i : Fin r.downlinkPeerLruCount}
    (h : r.slotOf mac = some i) : r.tracked.eraseIdx i = r.tracked.erase mac := by
  have hi : r.tracked[i.val]? = some mac := by rw [getElem?_tracked, slotOf_some h]
  obtain ⟨hlt, rfl⟩ := List.getElem?_eq_some_iff.1 hi
  exact (hn.erase_getElem i.val hlt).symm

/-- The first loop takes an address out of the list. -/
theorem tracked_remove (hn : r.tracked.Nodup) {i : Fin r.downlinkPeerLruCount}
    (h : r.slotOf mac = some i) : (r.remove i).tracked = r.tracked.erase mac := by
  rw [← eraseIdx_slotOf hn h]
  exact Lru.take_closeGap i.isLt r.count_le _

/-- The second loop moves an address to the front of the list. -/
theorem tracked_touch (hn : r.tracked.Nodup) {i : Fin r.downlinkPeerLruCount}
    (h : r.slotOf mac = some i) : (r.touch i).tracked = mac :: r.tracked.erase mac := by
  rw [← eraseIdx_slotOf hn h, ← slotOf_some h]
  exact Lru.take_openGap i.isLt r.count_le _ downlinkPeerMax_pos

/-- The third loop puts an address in front of what there is room for. -/
theorem tracked_insert (r : DownlinkRouter) (mac : Mac) :
    (r.insert mac).tracked = mac :: r.tracked.take (r.grown - 1) := by
  obtain ⟨hpos, hle⟩ := r.grown_bounds
  have hstep : (r.insert mac).tracked = mac :: (r.downlinkPeerLru.toList.take r.grown).eraseIdx
      (r.grown - 1) := Lru.take_openGap (by omega) hle _ downlinkPeerMax_pos
  have hcount : r.grown - 1 ≤ r.downlinkPeerLruCount := by
    unfold grown
    split <;> omega
  rw [hstep, List.eraseIdx_eq_take_drop_succ, List.drop_eq_nil_of_le, List.append_nil,
    List.take_take, tracked, List.take_take, min_eq_left (Nat.sub_le _ _), min_eq_left hcount]
  rw [List.length_take]
  omega

/-- The last address of a full list. -/
theorem oldest_eq (r : DownlinkRouter) :
    r.oldest = if r.tracked.length < downlinkPeerMax then none else r.tracked.getLast? := by
  have hle := r.count_le
  have hpos := downlinkPeerMax_pos
  rw [length_tracked]
  unfold oldest
  by_cases hfull : r.downlinkPeerLruCount ≥ downlinkPeerMax
  · have hg : r.grown = r.downlinkPeerLruCount := if_pos hfull
    have hlt : r.downlinkPeerLruCount - 1 < r.downlinkPeerLruCount := by omega
    rw [if_pos hfull, if_neg (not_lt.2 hfull), List.getLast?_eq_getElem?, length_tracked,
      getElem?_tracked ⟨_, hlt⟩]
    congr 2
    exact Fin.ext (congrArg (· - 1) hg)
  · rw [if_neg hfull, if_pos (not_le.1 hfull)]

/-! ### One call -/

/-- What a call does to the list: an address that is managed elsewhere is taken out, any other one
is used. -/
def nextTracked (l : List Mac) (mac : Mac) (peers : PeerRegistry) (currentMaster : MasterInfo) :
    List Mac :=
  if managed peers currentMaster mac then l.erase mac else (mac :: l.erase mac).take downlinkPeerMax

/-- The address that a call unregisters. -/
def unregistered (l : List Mac) (mac : Mac) (peers : PeerRegistry) (currentMaster : MasterInfo) :
    Option Mac :=
  if managed peers currentMaster mac then none else Lru.evicted downlinkPeerMax l mac

theorem registerDownlinkPeer_eq (hn : r.tracked.Nodup) (mac : Mac) (peers : PeerRegistry)
    (currentMaster : MasterInfo) :
    (r.registerDownlinkPeer mac peers currentMaster).1 =
        unregistered r.tracked mac peers currentMaster ∧
      (r.registerDownlinkPeer mac peers currentMaster).2.tracked =
        nextTracked r.tracked mac peers currentMaster := by
  have hle : r.tracked.length ≤ downlinkPeerMax := (length_tracked r).trans_le r.count_le
  unfold registerDownlinkPeer unregistered nextTracked
  by_cases hm : managed peers currentMaster mac = true
  · rw [if_pos hm, if_pos hm, if_pos hm]
    cases hs : r.slotOf mac with
    | some i => exact ⟨rfl, tracked_remove hn hs⟩
    | none => exact ⟨rfl, (List.erase_of_not_mem (slotOf_eq_none.1 hs)).symm⟩
  rw [if_neg hm, if_neg hm, if_neg hm]
  cases hs : r.slotOf mac with
  | some i =>
    have hin : mac ∈ r.tracked := mem_tracked.2 ⟨i, slotOf_some hs⟩
    refine ⟨(if_pos (.inl hin)).symm, ?_⟩
    exact (tracked_touch hn hs).trans (Lru.touch_of_mem hin hle).symm
  | none =>
    have hin := slotOf_eq_none.1 hs
    refine ⟨?_, ?_⟩
    · rw [oldest_eq, Lru.evicted]
      exact if_congr (or_iff_right hin).symm rfl rfl
    · refine (tracked_insert r mac).trans ?_
      rw [List.erase_of_not_mem hin, List.take_cons downlinkPeerMax_pos]
      congr 1
      -- a full array keeps all but its last address, any other array keeps them all
      unfold grown
      split
      · congr 1
        have := r.count_le
        omega
      · rename_i hroom
        rw [List.take_of_length_le (by rw [length_tracked]; omega),
          List.take_of_length_le (by rw [length_tracked]; omega)]

/-! ### The router of a node -/

theorem managed_eq (s : Node) (mac : Mac) :
    managed s.peers s.currentMaster mac = !downlinkTracks s mac := (Bool.not_not _).symm

/-- A router that keeps the list of a node keeps it with every call. -/
theorem registered_eq {s : Node} (h : r.tracked = s.downlinkPeerLru) (hn : r.tracked.Nodup)
    (mac : Mac) :
    (r.registerDownlinkPeer mac s.peers s.currentMaster).1 = downlinkEvicted s mac ∧
      (r.registerDownlinkPeer mac s.peers s.currentMaster).2.tracked = downlinkLru s mac := by
  have hle : s.downlinkPeerLru.length ≤ downlinkPeerMax := by
    rw [← h, length_tracked]
    exact r.count_le
  obtain ⟨he, ht⟩ := registerDownlinkPeer_eq hn mac s.peers s.currentMaster
  rw [he, ht, h]
  unfold unregistered nextTracked downlinkEvicted downlinkLru
  rw [managed_eq]
  cases downlinkTracks s mac with
  | false => exact ⟨rfl, rfl⟩
  | true =>
    by_cases hin : mac ∈ s.downlinkPeerLru
    · have hmove := Lru.touch_of_mem hin hle
      simp only [Lru.touch] at hmove
      simp [hin, Lru.evicted, hmove]
    by_cases hroom : s.downlinkPeerLru.length < downlinkPeerMax
    · have hnew := Lru.touch_of_room hin hroom
      simp only [Lru.touch] at hnew
      simp [hin, hroom, Lru.evicted, hnew]
    · have hlen : s.downlinkPeerLru.length = 3 + 1 := le_antisymm hle (not_lt.1 hroom)
      have hfull := Lru.touch_of_full hin hlen
      have hlast : s.downlinkPeerLru ≠ [] := by
        rintro h0
        rw [h0] at hroom
        exact hroom downlinkPeerMax_pos
      have hge : s.downlinkPeerLru.length ≥ downlinkPeerMax := not_lt.1 hroom
      refine ⟨?_, ?_⟩
      · simp [hin, hroom, hge, Lru.evicted, List.getLast?_eq_some_getLast hlast,
          List.getLastD_eq_getLast?]
      · rw [Bool.not_true, if_neg (by decide), if_pos rfl, if_neg (by simp [hin]), if_pos hge]
        exact hfull

/-- The same for the call of a node whose radio takes every peer. -/
theorem wp_registered {w : World} {s : Node} {E : Halt → Node → Prop}
    (hadd : ∀ mac, w.addPeerOk mac = true) (h : r.tracked = s.downlinkPeerLru)
    (hn : r.tracked.Nodup) (mac : Mac) :
    EffectSpec.wp (LatticeMesh.registerDownlinkPeer w mac) (fun _ t =>
      (r.registerDownlinkPeer mac s.peers s.currentMaster).2.tracked = t.downlinkPeerLru) E s := by
  refine EffectSpec.wp_mono _ ?_ (fun _ _ h => h) (wp_registerDownlinkPeer hadd)
  intro _ t ht
  exact (registered_eq h hn mac).2.trans ht.downlinkPeerLru.symm

/-! ### Runs -/

/-- A call: the next hop, with the registry and the master as they are then. -/
structure Call where
  mac : Mac
  peers : PeerRegistry
  currentMaster : MasterInfo

/-- The address that a call unregisters, and the router afterwards. -/
def call (r : DownlinkRouter) (c : Call) : Option Mac × DownlinkRouter :=
  r.registerDownlinkPeer c.mac c.peers c.currentMaster

/-- The router after some calls. -/
def after (cs : List Call) : DownlinkRouter := Runs.run (fun r c => (r.call c).2) init cs

/-- The next hops of some calls, the last one first. -/
def history (cs : List Call) : List Mac := (cs.map Call.mac).reverse

theorem after_append (cs : List Call) (c : Call) : after (cs ++ [c]) = ((after cs).call c).2 :=
  Runs.run_append cs [c]

theorem history_append (cs : List Call) (c : Call) : history (cs ++ [c]) = c.mac :: history cs := by
  simp [history]

/-- The list is duplicate-free and in the order of the last calls. -/
theorem recent_after (cs : List Call) :
    (after cs).tracked.Nodup ∧ Lru.Recent (history cs) (after cs).tracked := by
  induction cs using List.reverseRecOn with
  | nil => exact ⟨List.nodup_nil, Lru.recent_nil _⟩
  | append_singleton cs c ih =>
    obtain ⟨hn, hr⟩ := ih
    have htracked : (after (cs ++ [c])).tracked =
        nextTracked (after cs).tracked c.mac c.peers c.currentMaster := by
      rw [after_append]
      exact (registerDownlinkPeer_eq hn c.mac c.peers c.currentMaster).2
    rw [htracked, history_append]
    unfold nextTracked
    split
    · exact ⟨hn.erase c.mac, hr.erase hn c.mac⟩
    · exact ⟨Lru.nodup_touch hn _ c.mac, hr.touch hn _ c.mac⟩

/-- What a call does, after the calls `cs`. -/
structure Refines (cs : List Call) : Prop where
  nodup : (after cs).tracked.Nodup
  length_le : (after cs).tracked.length ≤ downlinkPeerMax
  /-- The list after one more call. -/
  next : ∀ c, ((after cs).call c).2.tracked =
    if managed c.peers c.currentMaster c.mac then (after cs).tracked.erase c.mac
    else (c.mac :: (after cs).tracked.erase c.mac).take downlinkPeerMax
  /-- An address is unregistered when a new one finds the list full; it is the last of the list. -/
  unregisters : ∀ c x, ((after cs).call c).1 = some x ↔
    managed c.peers c.currentMaster c.mac = false ∧ c.mac ∉ (after cs).tracked ∧
      (after cs).tracked.length = downlinkPeerMax ∧ (after cs).tracked.getLast? = some x
  /-- The address that is unregistered leaves the list, in which all others were used since. -/
  oldest : ∀ c x, ((after cs).call c).1 = some x →
    x ∈ (after cs).tracked ∧ x ∉ ((after cs).call c).2.tracked ∧
      ∀ y ∈ (after cs).tracked, y ≠ x → (history cs).idxOf y < (history cs).idxOf x

/-- **After every sequence of calls, a call is one on the list of the least recently used.** -/
theorem refines (cs : List Call) : Refines cs := by
  obtain ⟨hn, hr⟩ := recent_after cs
  have hle : (after cs).tracked.length ≤ downlinkPeerMax :=
    (length_tracked _).trans_le (after cs).count_le
  have hcall : ∀ c, ((after cs).call c).1 =
        unregistered (after cs).tracked c.mac c.peers c.currentMaster ∧
      ((after cs).call c).2.tracked =
        nextTracked (after cs).tracked c.mac c.peers c.currentMaster :=
    fun c => registerDownlinkPeer_eq hn c.mac c.peers c.currentMaster
  refine ⟨hn, hle, fun c => (hcall c).2, ?_, ?_⟩
  -- what is taken off the radio is what the recency list evicts
  · intro c x
    rw [(hcall c).1, unregistered]
    cases hm : managed c.peers c.currentMaster c.mac with
    | true => simp
    | false =>
      have hfull : ¬(after cs).tracked.length < downlinkPeerMax ↔
          (after cs).tracked.length = downlinkPeerMax := by omega
      by_cases hin : c.mac ∈ (after cs).tracked
      · simp [Lru.evicted, hin]
      · by_cases hroom : (after cs).tracked.length < downlinkPeerMax
        · simp [Lru.evicted, hroom, ne_of_lt hroom]
        · simp [Lru.evicted, hin, hfull.1 hroom]
  -- it was tracked longest without a use, and is not tracked any more
  · intro c x hx
    rw [(hcall c).1, unregistered] at hx
    split at hx
    · cases hx
    rename_i hm
    obtain ⟨hmem, hold⟩ := hr.evicted hx
    refine ⟨hmem, ?_, hold⟩
    rw [(hcall c).2, nextTracked, if_neg hm]
    intro hstay
    rcases (Lru.mem_touch hn hle).1 hstay with rfl | ⟨-, hne⟩
    · rw [Lru.evicted, if_pos (.inl hmem)] at hx
      cases hx
    · exact hne hx

end DownlinkRouter

end LatticeMesh
