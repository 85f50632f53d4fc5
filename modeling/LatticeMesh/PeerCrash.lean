import LatticeMesh.PeerMirror

/-!
# Loss of power while the registry is saved

A save rewrites the slots one after the other, and the power can be lost between any two of them.
An addition and a new key are a matter of one slot.  A removal moves the last peer to the place of
the removed one before it erases the last slot, and in between that peer is stored twice.

## Main definitions

* `PeerCall.left` — the entries in the slots when the power is lost.
* `CrashConsistent` — the next boot loads no address twice and no peer that was never registered.
* `PeerCall.Torn` — the last peer is stored twice when the power is lost.
* `PeerCall.StationLeft` — a peer is left in the slots.

## Main results

* `contents_crashFlash` — what is in the slots when the power is lost.
* `crashConsistent_iff` — **when the next boot is not led astray.**
-/

namespace LatticeMesh

open EffectSpec SlotImage PeerRegistry

variable {w : World} {s : Node} {c : PeerCall} {k : ℕ}

/-! ### The slots -/

/-- The entries in the slots when the power is lost after `k` writes; dev mode only erases. -/
def PeerCall.left (isDevMode : Bool) (k : ℕ) (before after : List (Mac × Key)) : List (Mac × Key) :=
  if isDevMode then if k = 0 then before else before.take after.length else torn k after before

/-- Dev mode loses nothing while the registry does not shrink. -/
theorem left_dev {before after : List (Mac × Key)} (h : before.length ≤ after.length) :
    PeerCall.left true k before after = before := by
  rw [PeerCall.left, if_pos rfl, List.take_of_length_le h, ite_self]

theorem left_production (before after : List (Mac × Key)) :
    PeerCall.left false k before after = torn k after before := rfl

/-- What a call leaves as it is stays in the slots. -/
theorem left_self (isDevMode : Bool) (l : List (Mac × Key)) :
    PeerCall.left isDevMode k l l = l := by
  cases isDevMode with
  | true => exact left_dev (le_refl _)
  | false => exact torn_self k l

theorem PeerCall.Change.length {l : List (Mac × Key)} (h : Change s.peers c l) :
    l.length ≤ maxPeers ∧ s.peers.count ≤ l.length + 1 := by
  have hle : s.peers.count ≤ maxPeers := s.peers.length_le
  cases h with
  | same => exact ⟨by rwa [length_entries], by rw [length_entries]; omega⟩
  | added key _ _ _ hroom =>
    rw [List.length_append, length_entries, List.length_singleton]
    omega
  | rekeyed =>
    rw [List.length_set, length_entries]
    omega
  | removed i =>
    unfold swapRemove
    split
    · rw [List.length_dropLast, List.length_set, length_entries]
      omega
    · rw [length_entries]
      omega

theorem left_length_le {l : List (Mac × Key)} (h : PeerCall.Change s.peers c l) (isDevMode : Bool) :
    (PeerCall.left isDevMode k s.peers.entries l).length ≤ maxPeers := by
  have hle : s.peers.entries.length ≤ maxPeers := by
    rw [length_entries]
    exact s.peers.length_le
  unfold PeerCall.left
  split
  · split
    · exact hle
    · exact le_trans (List.length_take_le' _ _) hle
  · exact le_trans (length_torn_le k _ _) (max_le h.length.1 hle)

/-- The slots that a save in dev mode erases: those behind the last peer. -/
theorem mem_take_savedSlots_dev (r : PeerRegistry) (k : ℕ) (j : Fin maxPeers) :
    j ∈ (savedSlots true r.records).take k ↔ r.count ≤ j.val ∧ j.val < r.count + k := by
  have hdrop : savedSlots true r.records = (List.finRange maxPeers).drop r.count := by
    have hsplit := List.take_append_drop r.count (List.finRange maxPeers)
    have htest : ∀ i : Fin maxPeers, (r.records i).isNone = decide (r.count ≤ i.val) := by
      intro i
      rw [records_eq, Bool.eq_iff_iff, Option.isNone_iff_eq_none, List.getElem?_eq_none_iff]
      simp
    unfold savedSlots
    conv_lhs => rw [← hsplit]
    rw [List.filter_append, List.filter_eq_nil_iff.2, List.filter_eq_self.2, List.nil_append]
    · intro i hi
      obtain ⟨n, hn, rfl⟩ := List.mem_drop_iff_getElem.1 hi
      simp [htest]
    · intro i hi
      obtain ⟨n, hn, rfl⟩ := List.mem_take_iff_getElem.1 hi
      simp only [htest, List.getElem_finRange]
      simp at hn ⊢
      omega
  rw [hdrop, List.mem_take_iff_getElem]
  constructor
  · rintro ⟨n, hn, rfl⟩
    rw [List.length_drop, List.length_finRange] at hn
    simp
    omega
  · rintro ⟨hge, hlt⟩
    have hj := j.isLt
    refine ⟨j.val - r.count, by simp; omega, ?_⟩
    apply Fin.ext
    simp
    omega

/-- The slots that a save in production rewrites, in their order. -/
theorem mem_take_savedSlots (r : PeerRegistry) (k : ℕ) (j : Fin maxPeers) :
    j ∈ (savedSlots false r.records).take k ↔ j.val < k := by
  have hall : savedSlots false r.records = List.finRange maxPeers :=
    List.filter_eq_self.2 fun _ _ => rfl
  rw [hall, List.mem_take_iff_getElem]
  constructor
  · rintro ⟨n, hn, rfl⟩
    simp at hn ⊢
    omega
  · intro h
    have hj := j.isLt
    exact ⟨j.val, by simp; omega, by simp⟩

/-- A save in dev mode that is cut short. -/
theorem contents_erased {before after : List (Mac × Key)} (hb : before.length ≤ maxPeers)
    (hle : before.length ≤ after.length + 1) :
    contents (fun j : Fin maxPeers =>
      if after.length ≤ j.val ∧ j.val < after.length + k then none else before[j.val]?) =
      if k = 0 then before else before.take after.length := by
  split
  · rename_i hk
    rw [contents_congr fun j => if_neg (by omega)]
    exact contents_stored hb
  · rename_i hk
    have hlen : (before.take after.length).length ≤ maxPeers :=
      le_trans (List.length_take_le' _ _) hb
    rw [← contents_stored hlen]
    refine contents_congr fun j => ?_
    rw [List.getElem?_take]
    split
    · rw [if_neg (by omega)]
    · split
      · rfl
      · rw [List.getElem?_eq_none (by omega)]

/-- **What is in the slots when the power is lost.** -/
theorem contents_crashFlash (hw : w.SlotsWork) (hs : s.PeersMirrored) (c : PeerCall) (k : ℕ) :
    contents (crashFlash (c.run w) s k).peer.get =
      (PeerCall.left s.eeprom.isDevMode k s.peers.entries
        (c.after w.nowMs s.peers).entries).map recordOf := by
  have hsaved : PeerCall.Saved w c s (Calls.final (c.run w s)) := Calls.wp_final (c.peerSaved hw)
  obtain ⟨es, he, hes⟩ := hsaved.trace
  have hlen := (c.change w.nowMs s.peers).length
  have hold : ∀ j, s.nvs.peer.get j = (s.peers.entries.map recordOf)[j.val]? := fun j =>
    (hs j).trans (records_eq j)
  have hbefore : (s.peers.entries.map recordOf).length ≤ maxPeers := by
    rw [List.length_map, length_entries]
    exact s.peers.length_le
  rw [crashFlash_of_writes he hes, PeerCall.ops]
  -- a call that saves nothing leaves the slots as they are
  by_cases hsv : c.saves s.peers = true
  · rw [if_pos hsv, saveOps, ← List.map_take, contents_congr (peer_wrote _ _)]
    set r := c.after w.nowMs s.peers with hr
    have hafter : (r.entries.map recordOf).length ≤ maxPeers := by
      rw [List.length_map, length_entries]
      exact r.length_le
    unfold PeerCall.left
    -- production writes every slot, dev mode erases behind the count only
    cases hd : s.eeprom.isDevMode with
    | false =>
      simp only [mem_take_savedSlots, hold, records_eq]
      rw [contents_torn hafter hbefore, torn_map]
      rfl
    | true =>
      have hnone : ∀ j : Fin maxPeers, r.count ≤ j.val → r.records j = none := by
        intro j hj
        rw [records_eq, List.getElem?_eq_none]
        rwa [List.length_map, length_entries]
      have hslot : ∀ j : Fin maxPeers,
          (if j ∈ (savedSlots true r.records).take k then r.records j else s.nvs.peer.get j) =
            (if r.entries.length ≤ j.val ∧ j.val < r.entries.length + k then none
              else s.peers.entries[j.val]?).map recordOf := by
        intro j
        rw [length_entries]
        by_cases hj : j ∈ (savedSlots true r.records).take k
        · have hj' := (mem_take_savedSlots_dev r k j).1 hj
          rw [if_pos hj, if_pos hj', hnone j hj'.1]
          rfl
        · rw [if_neg hj, if_neg (mt (mem_take_savedSlots_dev r k j).2 hj), hold, List.getElem?_map]
      have hone := @contents_erased k s.peers.entries r.entries
        (by rwa [List.length_map] at hbefore) (by rw [length_entries]; exact hlen.2)
      rw [contents_congr hslot, if_pos rfl, ← hone, contents, contents, List.map_filterMap]
  · rw [if_neg hsv, List.take_nil, Node.wrote_nil, hs.contents,
      PeerCall.entries_after_of_not_saves (by simpa using hsv), left_self]

/-! ### The next boot -/

/-- The next boot after a loss of power loads no address twice, and no peer that was registered
neither before the call nor after it. -/
def CrashConsistent (b : Config) (w : World) (s : Node) (c : PeerCall) (k : ℕ) : Prop :=
  let reloaded := ((s.powerOn b).peers.loadFromEEPROM b (crashFlash (c.run w) s k)).entries
  (reloaded.map Prod.fst).Nodup ∧
    ∀ e ∈ reloaded, e ∈ s.peers.entries ∨ e ∈ (peerStep s (w, c)).peers.entries

instance (b : Config) (w : World) (s : Node) (c : PeerCall) (k : ℕ) :
    Decidable (CrashConsistent b w s c k) := inferInstanceAs (Decidable (_ ∧ _))

namespace PeerCall

/-- The last peer is stored twice when the power is lost: it was written to the slot of a peer that
is removed, and its own slot is not erased yet. -/
def Torn (s : Node) (c : PeerCall) (k : ℕ) : Prop :=
  s.eeprom.isDevMode = false ∧ ∃ i, c.removed s.peers = some i ∧ i < k ∧ k < s.peers.count ∧
    ∃ mac, s.peers.macs.getLast? = some mac ∧ mac ≠ broadcastMac

/-- The peer in the place `j` is out of the slots when the power is lost.  Dev mode erases the last
slot, and does not write the slot of the removed peer. -/
def Lost (s : Node) (c : PeerCall) (k j : ℕ) : Prop :=
  ∃ i, c.removed s.peers = some i ∧
    if s.eeprom.isDevMode then j + 1 = s.peers.count ∧ 0 < k else j = i ∧ i < k

/-- The peer that the call adds is in its slot when the power is lost. -/
def Gained (s : Node) (c : PeerCall) (k : ℕ) : Prop :=
  s.eeprom.isDevMode = false ∧ (c.added s.peers).isSome ∧ s.peers.count < k

/-- A peer that a boot loads is in the slots when the power is lost. -/
def StationLeft (s : Node) (c : PeerCall) (k : ℕ) : Prop :=
  (∃ j e, s.peers.entries[j]? = some e ∧ e.1 ≠ broadcastMac ∧ ¬Lost s c k j) ∨
    Gained s c k ∧ c.mac ≠ broadcastMac

end PeerCall

/-- The default peers, which a boot loads from empty slots, are distinct and registered before the
call or after it. -/
def DefaultsRegistered (b : Config) (before after : List (Mac × Key)) : Prop :=
  ((defaultEntries b).map Prod.fst).Nodup ∧ ∀ e ∈ defaultEntries b, e ∈ before ∨ e ∈ after

theorem exists_mem_iff {l : List (Mac × Key)} {P : Mac × Key → Prop} :
    (∃ (j : ℕ) (e : Mac × Key), l[j]? = some e ∧ P e) ↔ ∃ e ∈ l, P e := by
  simp only [List.mem_iff_getElem?]
  constructor
  · rintro ⟨j, e, hj, hP⟩
    exact ⟨e, ⟨j, hj⟩, hP⟩
  · rintro ⟨e, ⟨j, hj⟩, hP⟩
    exact ⟨j, e, hj, hP⟩

/-- A call that removes no peer loses none. -/
theorem PeerCall.not_lost (h : c.removed s.peers = none) (j : ℕ) : ¬Lost s c k j := by
  rintro ⟨i, hi, -⟩
  rw [h] at hi
  cases hi

theorem PeerCall.not_torn (h : c.removed s.peers = none) : ¬Torn s c k := by
  rintro ⟨-, i, hi, -⟩
  rw [h] at hi
  cases hi

theorem PeerCall.not_gained (h : c.added s.peers = none) : ¬Gained s c k := by
  rintro ⟨-, ha, -⟩
  rw [h] at ha
  cases ha

/-- Where a call removes a peer, the registry has a last one. -/
theorem PeerCall.removed_concat {mac : Mac} {i : ℕ} (h : s.peers.indexOf mac = some i) :
    ∃ l last, s.peers.entries = l ++ [last] ∧ i ≤ l.length ∧ s.peers.count = l.length + 1 := by
  have hlt := (indexOf_lt h).1
  have hne : s.peers.entries ≠ [] := by
    intro hnil
    rw [← length_entries, hnil] at hlt
    exact absurd hlt (Nat.not_lt_zero i)
  have hsplit := (List.dropLast_concat_getLast hne).symm
  have hcount : s.peers.count = s.peers.entries.dropLast.length + 1 := by
    rw [← length_entries]
    conv_lhs => rw [hsplit]
    rw [List.length_append, List.length_singleton]
  exact ⟨_, _, hsplit, by omega, hcount⟩

theorem length_swapRemove_concat {α : Type*} (l : List α) (last : α) (i : ℕ) :
    (swapRemove (l ++ [last]) i).length = l.length := by
  rw [swapRemove_concat]
  split
  · exact List.length_set
  · rfl

/-- A new key leaves the addresses in the slots as they are. -/
theorem PeerCall.macs_left_set {i : ℕ} (key : Key) (hi : s.peers.macs[i]? = some c.mac) :
    (left s.eeprom.isDevMode k s.peers.entries (s.peers.entries.set i (c.mac, key))).map Prod.fst =
      s.peers.entries.map Prod.fst := by
  have hmacs : (s.peers.entries.set i (c.mac, key)).map Prod.fst =
      s.peers.entries.map Prod.fst := by
    rw [macs_eq] at hi
    obtain ⟨hlt, heq⟩ := List.getElem?_eq_some_iff.1 hi
    rw [List.map_set, ← heq]
    exact List.set_getElem_self hlt
  cases s.eeprom.isDevMode with
  | true => rw [left_dev (by rw [List.length_set])]
  | false =>
    rw [left_production, torn_set]
    split
    · rfl
    · exact hmacs

section

variable {l : List (Mac × Key)} {last : Mac × Key} {i : ℕ} {P : Mac × Key → Prop}

/-- What is in the list at a place other than the last one. -/
theorem exists_init_iff : (∃ (j : ℕ) (e : Mac × Key), (l ++ [last])[j]? = some e ∧ P e ∧
    ¬j = l.length) ↔ ∃ e ∈ l, P e := by
  constructor
  · rintro ⟨j, e, hj, he, hne⟩
    have hjl := (List.getElem?_eq_some_iff.1 hj).1
    rw [List.length_append, List.length_singleton] at hjl
    rw [List.getElem?_append_left (by omega)] at hj
    exact ⟨e, List.mem_of_getElem? hj, he⟩
  · rintro ⟨e, hm, he⟩
    obtain ⟨j, hjl, rfl⟩ := List.getElem_of_mem hm
    refine ⟨j, _, ?_, he, by omega⟩
    rw [List.getElem?_append_left hjl, List.getElem?_eq_getElem hjl]

/-- What is in the list at a place other than that of the removed entry. -/
theorem exists_swapRemove_iff (hi : i ≤ l.length) :
    (∃ (j : ℕ) (e : Mac × Key), (l ++ [last])[j]? = some e ∧ P e ∧ ¬j = i) ↔
      ∃ e ∈ swapRemove (l ++ [last]) i, P e := by
  simp only [mem_swapRemove hi]
  constructor
  · rintro ⟨j, e, hj, he, hne⟩
    exact ⟨e, ⟨j, hne, hj⟩, he⟩
  · rintro ⟨e, ⟨j, hne, hj⟩, he⟩
    exact ⟨j, e, hj, he, hne⟩

/-- Once the last entry is written over the removed one, the slots hold the entries that stay. -/
theorem mem_torn_swapRemove (hi : i ≤ l.length) (hk : i < k) (e : Mac × Key) :
    e ∈ torn k (swapRemove (l ++ [last]) i) (l ++ [last]) ↔ e ∈ swapRemove (l ++ [last]) i := by
  rw [torn_swapRemove k l last hi, if_neg (not_le.2 hk)]
  split
  · have hlt : i < l.length := by omega
    rw [swapRemove_concat, if_pos hlt, List.mem_append, List.mem_singleton]
    refine or_iff_left_of_imp ?_
    rintro rfl
    exact List.mem_set hlt e
  · rfl

end

/-- Where a call removes a peer, one is left if one is at a place that is not lost yet. -/
theorem PeerCall.stationLeft_removed {i : ℕ} (hr : c.removed s.peers = some i)
    (hi : s.peers.indexOf c.mac = some i) :
    (∃ j e, s.peers.entries[j]? = some e ∧ e.1 ≠ broadcastMac ∧ ¬Lost s c k j) ↔
      ∃ e ∈ left s.eeprom.isDevMode k s.peers.entries (swapRemove s.peers.entries i),
        e.1 ≠ broadcastMac := by
  obtain ⟨l, last, hl, hil, hcount⟩ := removed_concat hi
  have hlost : ∀ j, Lost s c k j ↔
      if s.eeprom.isDevMode then j + 1 = s.peers.count ∧ 0 < k else j = i ∧ i < k := by
    intro j
    unfold Lost
    rw [hr]
    simp
  simp only [hlost]
  rw [hl, hcount]
  cases hd : s.eeprom.isDevMode with
  | true =>
    -- dev mode erases the last slot first
    rw [left, if_pos rfl, length_swapRemove_concat, List.take_left]
    simp only [if_true, Nat.add_right_cancel_iff]
    split
    · rename_i hk
      simp only [hk, lt_irrefl, and_false, not_false_eq_true, and_true]
      exact exists_mem_iff
    · rename_i hk
      simp only [Nat.pos_of_ne_zero hk, and_true]
      exact exists_init_iff
  | false =>
    simp only [Bool.false_eq_true, if_false]
    rw [left_production]
    by_cases hki : k ≤ i
    · -- the slot of the removed peer is not written yet
      rw [torn_swapRemove k l last hil, if_pos hki]
      simp only [not_lt.2 hki, and_false, not_false_eq_true, and_true]
      exact exists_mem_iff
    · simp only [mem_torn_swapRemove hil (not_le.1 hki), not_le.1 hki, and_true]
      exact exists_swapRemove_iff hil

/-- **A peer that a boot loads is left**, in terms of what is in the slots. -/
theorem PeerCall.Change.stationLeft_iff {l : List (Mac × Key)} (h : Change s.peers c l) :
    StationLeft s c k ↔
      ∃ e ∈ left s.eeprom.isDevMode k s.peers.entries l, e.1 ≠ broadcastMac := by
  have hkept : c.removed s.peers = none → ((∃ j e, s.peers.entries[j]? = some e ∧
      e.1 ≠ broadcastMac ∧ ¬Lost s c k j) ↔ ∃ e ∈ s.peers.entries, e.1 ≠ broadcastMac) := by
    intro hr
    simp only [not_lost hr, not_false_eq_true, and_true]
    exact exists_mem_iff
  unfold StationLeft
  cases h with
  | same ha hr =>
    rw [hkept hr, left_self, or_iff_left fun h => not_gained ha h.1]
  | added key ha hr hnew hroom =>
    rw [hkept hr]
    unfold Gained
    cases hd : s.eeprom.isDevMode with
    | true =>
      rw [left_dev (by simp), or_iff_left fun h => by cases h.1.1]
    | false =>
      rw [left_production, torn_append, length_entries]
      split
      · rename_i hk
        rw [or_iff_left fun h => by omega]
      · rename_i hk
        simp only [List.mem_append, List.mem_singleton, or_and_right, exists_or, exists_eq_left, ha,
          Option.isSome_some, true_and, not_le.1 hk]
  | rekeyed i key ha hr hi =>
    have hmem : ∀ l : List (Mac × Key), (∃ e ∈ l, e.1 ≠ broadcastMac) ↔
        ∃ mac ∈ l.map Prod.fst, mac ≠ broadcastMac := by simp
    rw [hkept hr, or_iff_left fun h => not_gained ha h.1, hmem, hmem, macs_left_set key hi]
  | removed i ha hr hi =>
    rw [or_iff_left fun h => not_gained ha h.1]
    exact stationLeft_removed hr hi

theorem nodup_loadable {l : List (Mac × Key)} (h : (l.map Prod.fst).Nodup) :
    ((loadable l).map Prod.fst).Nodup := h.sublist (List.filter_sublist.map Prod.fst)

theorem loadable_eq_nil {l : List (Mac × Key)} :
    loadable l = [] ↔ ¬∃ e ∈ l, e.1 ≠ broadcastMac := by
  unfold loadable
  simp

/-- A peer that is stored twice is loaded twice, unless its entry marks an empty slot. -/
theorem nodup_loadable_concat {l : List (Mac × Key)} {e : Mac × Key} (he : e ∈ l)
    (h : (l.map Prod.fst).Nodup) :
    ((loadable (l ++ [e])).map Prod.fst).Nodup ↔ e.1 = broadcastMac := by
  by_cases hff : e.1 = broadcastMac
  · have hskip : loadable (l ++ [e]) = loadable l := by
      unfold loadable
      rw [List.filter_append, List.filter_singleton]
      simp [hff]
    rw [hskip]
    exact iff_of_true (nodup_loadable h) hff
  · have htwice : loadable (l ++ [e]) = loadable l ++ [e] := by
      unfold loadable
      rw [List.filter_append, List.filter_singleton]
      simp [hff]
    refine iff_of_false (fun hnodup => ?_) hff
    rw [htwice, List.map_append] at hnodup
    have hmem : e ∈ loadable l := List.mem_filter.2 ⟨he, by simpa using hff⟩
    exact (List.nodup_append.1 hnodup).2.2 _ (List.mem_map_of_mem hmem) _
      (List.mem_map_of_mem List.mem_cons_self) rfl

/-- **No address is left twice**, unless the last peer is stored twice. -/
theorem PeerCall.Change.nodup_iff {l : List (Mac × Key)} (h : Change s.peers c l)
    (hn : s.peers.macs.Nodup) :
    ((loadable (left s.eeprom.isDevMode k s.peers.entries l)).map Prod.fst).Nodup ↔
      ¬Torn s c k := by
  have hafter : (l.map Prod.fst).Nodup := (h.macs hn).1
  have hbefore : (s.peers.entries.map Prod.fst).Nodup := by rwa [← macs_eq]
  cases h with
  -- only the removal can store an address twice, since it moves the last peer
  | same _ hr =>
    rw [left_self]
    exact iff_of_true (nodup_loadable hbefore) (not_torn hr)
  | added _ _ hr =>
    refine iff_of_true (nodup_loadable ?_) (not_torn hr)
    cases s.eeprom.isDevMode with
    | true => rwa [left_dev (by simp)]
    | false =>
      rw [left_production, torn_append]
      split
      · exact hbefore
      · exact hafter
  | rekeyed _ _ _ hr =>
    refine iff_of_true (nodup_loadable ?_) (not_torn hr)
    cases s.eeprom.isDevMode with
    | true => rwa [left_dev (by rw [List.length_set])]
    | false =>
      rw [left_production, torn_set]
      split
      · exact hbefore
      · exact hafter
  | removed i _ hr hi =>
    obtain ⟨l, last, hl, hil, hcount⟩ := removed_concat hi
    have hlast : s.peers.macs.getLast? = some last.1 := by
      rw [macs_eq, hl, List.map_append, List.map_singleton, List.getLast?_concat]
    -- the last peer is in its old slot and in the new one if exactly these were written
    have htorn : Torn s c k ↔ s.eeprom.isDevMode = false ∧ (i < k ∧ k < l.length + 1) ∧
        last.1 ≠ broadcastMac := by
      unfold Torn
      rw [hr, hlast, hcount]
      simp [and_assoc]
    rw [htorn]
    cases hd : s.eeprom.isDevMode with
    | true =>
      refine iff_of_true (nodup_loadable ?_) (by simp)
      unfold left
      rw [if_pos rfl]
      split
      · exact hbefore
      · exact hbefore.sublist ((List.take_sublist _ _).map Prod.fst)
    | false =>
      rw [hl] at hbefore hafter ⊢
      rw [left_production, torn_swapRemove k l last hil]
      by_cases hmid : i < k ∧ k < l.length + 1
      · have hlt : i < l.length := by omega
        rw [if_neg (by omega), if_pos (by omega)]
        rw [swapRemove_concat, if_pos hlt] at hafter
        rw [nodup_loadable_concat (List.mem_set hlt last) hafter]
        simp [hmid]
      -- before the new slot is written the list is the old one, after the old slot the new one
      · refine iff_of_true (nodup_loadable ?_) fun h => hmid h.2.1
        by_cases hki : k ≤ i
        · rw [if_pos hki]
          exact hbefore
        · rw [if_neg hki, if_neg (by omega)]
          exact hafter

/-- What is in the slots was registered before the call or is registered after it. -/
theorem mem_left {isDevMode : Bool} {before after : List (Mac × Key)} {e : Mac × Key}
    (h : e ∈ PeerCall.left isDevMode k before after) : e ∈ before ∨ e ∈ after := by
  cases isDevMode with
  | true =>
    unfold PeerCall.left at h
    rw [if_pos rfl] at h
    split at h
    · exact .inl h
    · exact .inl (List.mem_of_mem_take h)
  | false => exact mem_torn h

/-- The last peer is there when it is stored twice. -/
theorem PeerCall.Torn.stationLeft (h : Torn s c k) : StationLeft s c k := by
  obtain ⟨hd, i, hi, hik, hkc, mac, hlast, hne⟩ := h
  rw [macs_eq, List.getLast?_map] at hlast
  obtain ⟨e, he, rfl⟩ := Option.map_eq_some_iff.1 hlast
  rw [List.getLast?_eq_getElem?, length_entries] at he
  refine .inl ⟨_, e, he, hne, ?_⟩
  rintro ⟨i', hi', hlost⟩
  rw [hi] at hi'
  obtain rfl := Option.some.inj hi'
  rw [hd] at hlost
  have hj := hlost.1
  omega

/-- **When the next boot is not led astray**: unless the power is lost while the last peer is stored
twice, or leaves no peer in the slots and the default peers, which are loaded then, were not
registered. -/
theorem crashConsistent_iff (b : Config) (hw : w.SlotsWork) (hs : s.PeersMirrored)
    (hn : s.peers.macs.Nodup) (c : PeerCall) (k : ℕ) :
    CrashConsistent b w s c k ↔ ¬c.Torn s k ∧
      (c.StationLeft s k ∨
        DefaultsRegistered b s.peers.entries (peerStep s (w, c)).peers.entries) := by
  have hsaved : PeerCall.Saved w c s (peerStep s (w, c)) := Calls.wp_final (c.peerSaved hw)
  have hchange := c.change w.nowMs s.peers
  have hreload := entries_loadFromEEPROM (r := (s.powerOn b).peers) b
    (left_length_le hchange s.eeprom.isDevMode)
    (contents_crashFlash hw hs c k)
  unfold CrashConsistent
  rw [hsaved.peers]
  simp only [hreload]
  by_cases hleft : c.StationLeft s k
  · have hne : loadable (PeerCall.left s.eeprom.isDevMode k s.peers.entries
        (c.after w.nowMs s.peers).entries) ≠ [] := fun hnil =>
      loadable_eq_nil.1 hnil (hchange.stationLeft_iff.1 hleft)
    rw [if_neg hne, hchange.nodup_iff hn]
    have hmem : ∀ e ∈ loadable (PeerCall.left s.eeprom.isDevMode k s.peers.entries
        (c.after w.nowMs s.peers).entries),
        e ∈ s.peers.entries ∨ e ∈ (c.after w.nowMs s.peers).entries := fun e he =>
      mem_left (List.mem_of_mem_filter he)
    simp only [hleft, true_or, and_true]
    exact and_iff_left hmem
  · have hnil : loadable (PeerCall.left s.eeprom.isDevMode k s.peers.entries
        (c.after w.nowMs s.peers).entries) = [] :=
      loadable_eq_nil.2 fun h => hleft (hchange.stationLeft_iff.2 h)
    rw [if_pos hnil]
    have hno : ¬c.Torn s k := fun h => hleft h.stationLeft
    simp only [hleft, hno, not_false_eq_true, true_and, false_or]
    rfl

/-- A node with three peers. -/
def Sample.threePeers : Node :=
  Runs.run peerStep (Device.blank {}).node [(Sample.peerWorld, .addAndPersist (Sample.mac 2)),
    (Sample.peerWorld, .addAndPersist (Sample.mac 3)),
    (Sample.peerWorld, .addAndPersist (Sample.mac 4))]

/-- The removal of the first of three peers, cut short after one write. -/
theorem crashConsistent_iff_firstRemoved :
    CrashConsistent Sample.config Sample.peerWorld Sample.threePeers
        (.removeAndPersist (Sample.mac 2)) 1 ↔
      ¬(PeerCall.removeAndPersist (Sample.mac 2)).Torn Sample.threePeers 1 ∧
        ((PeerCall.removeAndPersist (Sample.mac 2)).StationLeft Sample.threePeers 1 ∨
          DefaultsRegistered Sample.config Sample.threePeers.peers.entries
            (peerStep Sample.threePeers (Sample.peerWorld,
              .removeAndPersist (Sample.mac 2))).peers.entries) :=
  crashConsistent_iff _ (World.slotsWork_of_nvsOk fun _ => rfl) (by decide +kernel)
    (by decide +kernel) _ _

/-- After the first write of the removal the last of the three peers is stored twice. -/
theorem not_crashConsistent_firstRemoved :
    Sample.peerWorld.SlotsWork ∧ Sample.threePeers.PeersMirrored ∧
      Sample.threePeers.peers.macs.Nodup ∧
      ¬CrashConsistent Sample.config Sample.peerWorld Sample.threePeers
        (.removeAndPersist (Sample.mac 2)) 1 :=
  ⟨World.slotsWork_of_nvsOk fun _ => rfl, by decide +kernel⟩

end LatticeMesh
