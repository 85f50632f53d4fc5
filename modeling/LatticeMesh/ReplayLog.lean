import LatticeMesh.ReplayCache
import LatticeMesh.Lib.Runs
import Mathlib.Data.Finset.Card
import Mathlib.Data.Finset.Image
import Mathlib.Data.Fintype.Card
import Mathlib.Data.List.Pairwise

/-!
# What the replay cache accepts

The replay cache seen from outside: a sequence of frames with the times at which they were heard,
and the log of those that were accepted, the newest first.  As long as its slots suffice the cache
is exact; when they do not, the origin that is forgotten is the one heard least recently.

## Main definitions

* `Heard`, `ReplayCache.log` — a frame with its time, and the frames that were accepted.
* `ReplayCache.WellFormed` — the used slots come first and hold different origins.
* `ReplayCache.markOf` — the cache as a map from origins to marks.

## Main results

* `ReplayCache.markOf_isReplay` — how one frame changes the map.
* `ReplayCache.log_exact` — **the log of a cache that is large enough is exact, and a frame that is
  accepted twice was forgotten in between for twelve other origins.**
-/

namespace LatticeMesh

/-- A frame and the time at which it was heard. -/
abbrev Heard := Message × UInt64

/-- The origin of a frame that was heard. -/
def Heard.origin (q : Heard) : Mac := q.1.originMac

/-- Of two frames of one origin the first one is the newer one. -/
def Heard.Newer (q a : Heard) : Prop :=
  newer q.1.epochNum q.1.seqNum a.1.epochNum a.1.seqNum = true

/-- What identifies a frame: its origin, its epoch and its sequence number. -/
def Heard.triple (q : Heard) : Mac × UInt32 × UInt16 := (q.1.originMac, q.1.epochNum, q.1.seqNum)

/-- The origins of a list of frames. -/
def originsOf (qs : List Heard) : Finset Mac := (qs.map Heard.origin).toFinset

theorem mem_originsOf {mac : Mac} {qs : List Heard} :
    mac ∈ originsOf qs ↔ ∃ q ∈ qs, Heard.origin q = mac := by
  simp [originsOf]

namespace ReplayCache

/-! ### The log -/

/-- One more frame is heard; the log grows if it is accepted. -/
def hear (s : ReplayCache × List Heard) (q : Heard) : ReplayCache × List Heard :=
  ((isReplay s.1 q.1 q.2).2, if (isReplay s.1 q.1 q.2).1 then s.2 else q :: s.2)

/-- The cache after a sequence of frames. -/
def after (qs : List Heard) : ReplayCache := (Runs.run hear (empty, []) qs).1

/-- The frames of the sequence that were accepted, the newest first. -/
def log (qs : List Heard) : List Heard := (Runs.run hear (empty, []) qs).2

/-! ### The cache as a map -/

/-- The used slots come first, the others are blank, and no origin has two slots. -/
structure WellFormed (c : ReplayCache) : Prop where
  used_of_le : ∀ i j : Fin replayMaxOrigins, i ≤ j → (c.get j).used = true → (c.get i).used = true
  mac_inj : ∀ i j, (c.get i).used = true → (c.get j).used = true →
    (c.get i).mac = (c.get j).mac → i = j

/-- The entry of an origin, if it has one. -/
def markOf (c : ReplayCache) (mac : Mac) : Option Entry := (slotOf c mac).map c.get

theorem wellFormed_empty : WellFormed empty := by
  have h : ∀ i, (empty.get i).used = false := by
    intro i
    rw [empty, List.Vector.get_replicate]
  refine ⟨fun i j _ hj => ?_, fun i j hi => ?_⟩
  · rw [h j] at hj
    cases hj
  · rw [h i] at hi
    cases hi

variable {c : ReplayCache} {mac : Mac} {q : Heard}

/-- The slot of an origin, in a well-formed cache. -/
theorem slotOf_eq_some (h : WellFormed c) {i : Fin replayMaxOrigins} :
    slotOf c mac = some i ↔ (c.get i).used = true ∧ (c.get i).mac = mac := by
  constructor
  · intro hs
    obtain ⟨hf, hu⟩ := Option.filter_eq_some_iff.1 hs
    exact ⟨hu, KeyTable.find_key hf⟩
  · rintro ⟨hu, hm⟩
    cases hf : KeyTable.find c Entry.mac mac with
    | none => exact absurd hm (KeyTable.find_eq_none.1 hf i)
    | some k =>
      -- the slot that is found comes first, so it is used too, and then it is this one
      have hk := KeyTable.find_key hf
      have hle : k ≤ i := KeyTable.find_le hf hm
      have huk := h.used_of_le k i hle hu
      obtain rfl := h.mac_inj k i huk hu (hk.trans hm.symm)
      rw [slotOf, hf, Option.filter_some, if_pos huk]

theorem slotOf_eq_none (h : WellFormed c) :
    slotOf c mac = none ↔ ∀ i, (c.get i).used = true → (c.get i).mac ≠ mac := by
  constructor
  · intro hn i hu hm
    rw [(slotOf_eq_some h).2 ⟨hu, hm⟩] at hn
    cases hn
  · intro hall
    cases hs : slotOf c mac with
    | none => rfl
    | some i =>
      obtain ⟨hu, hm⟩ := (slotOf_eq_some h).1 hs
      exact absurd hm (hall i hu)

theorem markOf_eq_some (h : WellFormed c) {e : Entry} :
    markOf c mac = some e ↔ ∃ i, (c.get i).used = true ∧ (c.get i).mac = mac ∧ c.get i = e := by
  unfold markOf
  rw [Option.map_eq_some_iff]
  constructor
  · rintro ⟨i, hi, rfl⟩
    obtain ⟨hu, hm⟩ := (slotOf_eq_some h).1 hi
    exact ⟨i, hu, hm, rfl⟩
  · rintro ⟨i, hu, hm, rfl⟩
    exact ⟨i, (slotOf_eq_some h).2 ⟨hu, hm⟩, rfl⟩

theorem markOf_eq_none (h : WellFormed c) :
    markOf c mac = none ↔ ∀ i, (c.get i).used = true → (c.get i).mac ≠ mac := by
  unfold markOf
  rw [Option.map_eq_none_iff]
  exact slotOf_eq_none h

/-! ### One frame -/

/-- The entry of an origin after another frame of it was accepted. -/
def Entry.heard (e : Entry) (q : Heard) : Entry :=
  { e with epoch := q.1.epochNum, seq := q.1.seqNum, lastSeenMs := q.2 }

theorem isReplay_of_some {i : Fin replayMaxOrigins} (hs : slotOf c q.origin = some i) :
    isReplay c q.1 q.2 = if newer q.1.epochNum q.1.seqNum (c.get i).epoch (c.get i).seq then
      (false, c.set i ((c.get i).heard q)) else (true, c) := by
  unfold isReplay
  rw [show slotOf c q.1.originMac = some i from hs]
  rfl

theorem isReplay_of_none (hs : slotOf c q.origin = none) :
    isReplay c q.1 q.2 = (false, c.set (allocSlot c) (entryOf q.1 q.2)) := by
  unfold isReplay
  rw [show slotOf c q.1.originMac = none from hs]

/-- The slot of a new origin is free, or else all slots are used and it is the oldest one. -/
theorem allocSlot_spec (c : ReplayCache) :
    ((c.get (allocSlot c)).used = false ∧ ∀ i < allocSlot c, (c.get i).used = true) ∨
      (∀ i, (c.get i).used = true) ∧
        ∀ j, (c.get (allocSlot c)).lastSeenMs.toNat ≤ (c.get j).lastSeenMs.toNat := by
  cases hf : KeyTable.firstSlot c fun e => !e.used with
  | some i =>
    have ha : allocSlot c = i := by
      rw [allocSlot, hf]
      rfl
    have hi : (c.get i).used = false := by simpa using KeyTable.firstSlot_some hf
    rw [ha]
    refine .inl ⟨hi, fun j hj => ?_⟩
    by_contra hu
    have hle := KeyTable.firstSlot_le hf (j := j) (by simpa using hu)
    exact absurd hj (not_lt.2 hle)
  | none =>
    have ha : allocSlot c = KeyTable.oldest c Entry.lastSeenMs := by
      rw [allocSlot, hf]
      rfl
    rw [ha]
    refine .inr ⟨fun i => by simpa using KeyTable.firstSlot_eq_none.1 hf i, fun j => ?_⟩
    exact KeyTable.oldest_le (f := UInt64.toNat) (fun _ _ => UInt64.lt_iff_toNat_lt) j

/-- The slots of a cache after one of them was overwritten. -/
theorem get_set (i j : Fin replayMaxOrigins) (e : Entry) :
    (List.Vector.set c i e).get j = if j = i then e else c.get j := by
  by_cases hj : j = i
  · rw [hj, if_pos rfl, List.Vector.get_set_same]
  · rw [if_neg hj, List.Vector.get_set_of_ne (Ne.symm hj)]

/-- Overwriting a slot with a used entry, of the same origin or of an origin that has no slot. -/
theorem WellFormed.set (h : WellFormed c) {i : Fin replayMaxOrigins} {e : Entry}
    (he : e.used = true) (hi : ∀ k < i, (c.get k).used = true)
    (hm : ∀ j, (c.get j).used = true → (c.get j).mac = e.mac → j = i) :
    WellFormed (c.set i e) := by
  refine ⟨fun k j hkj hj => ?_, fun k j hk hj hkj => ?_⟩
  · rw [get_set] at hj ⊢
    split
    · exact he
    · split at hj
      · rename_i hne heq
        exact hi k (lt_of_le_of_ne (heq ▸ hkj) hne)
      · exact h.used_of_le k j hkj hj
  · rw [get_set] at hk hj
    rw [get_set, get_set] at hkj
    split at hk <;> split at hj
    · rename_i h₁ h₂
      rw [h₁, h₂]
    · rename_i h₁ h₂
      rw [if_pos h₁, if_neg h₂] at hkj
      rw [h₁, hm j hj hkj.symm]
    · rename_i h₁ h₂
      rw [if_neg h₁, if_pos h₂] at hkj
      rw [h₂, hm k hk hkj]
    · rename_i h₁ h₂
      rw [if_neg h₁, if_neg h₂] at hkj
      exact h.mac_inj k j hk hj hkj

/-- A frame keeps the cache well formed. -/
theorem WellFormed.isReplay (h : WellFormed c) (q : Heard) :
    WellFormed (ReplayCache.isReplay c q.1 q.2).2 := by
  cases hs : slotOf c q.origin with
  | some i =>
    obtain ⟨hu, hm⟩ := (slotOf_eq_some h).1 hs
    rw [isReplay_of_some hs]
    split
    · refine h.set hu (fun k hk => h.used_of_le k i (le_of_lt hk) hu) fun j hj hje => ?_
      exact h.mac_inj j i hj hu hje
    · exact h
  | none =>
    have hno := (slotOf_eq_none h).1 hs
    rw [isReplay_of_none hs]
    refine h.set rfl ?_ fun j hj hje => absurd hje (hno j hj)
    rcases allocSlot_spec c with ⟨-, hall⟩ | ⟨hall, -⟩
    · exact hall
    · exact fun k _ => hall k

/-- The map after a slot was overwritten. -/
theorem markOf_set (h : WellFormed c) {i : Fin replayMaxOrigins} {e : Entry} {origin : Mac}
    (h' : WellFormed (c.set i e)) (he : e.used = true) (ho : e.mac = origin) (mac : Mac) :
    markOf (c.set i e) mac = if mac = origin then some e
      else if (c.get i).used = true ∧ (c.get i).mac = mac then none else markOf c mac := by
  subst ho
  -- the origin that is written
  by_cases hm : mac = e.mac
  · rw [if_pos hm]
    refine (markOf_eq_some h').2 ⟨i, ?_⟩
    rw [get_set, if_pos rfl]
    exact ⟨he, hm.symm, rfl⟩
  · rw [if_neg hm]
    -- the origin that was in the slot before
    by_cases hi : (c.get i).used = true ∧ (c.get i).mac = mac
    · rw [if_pos hi]
      refine (markOf_eq_none h').2 fun j hj hjm => ?_
      rw [get_set] at hj hjm
      split at hj
      · rename_i hji
        rw [if_pos hji] at hjm
        exact hm hjm.symm
      · rename_i hji
        rw [if_neg hji] at hjm
        exact hji (h.mac_inj j i hj hi.1 (hjm.trans hi.2.symm))
    -- every other origin keeps its slot
    · rw [if_neg hi]
      cases hold : markOf c mac with
      | some e' =>
        obtain ⟨j, hj, hjm, rfl⟩ := (markOf_eq_some h).1 hold
        have hji : j ≠ i := by
          rintro rfl
          exact hi ⟨hj, hjm⟩
        refine (markOf_eq_some h').2 ⟨j, ?_⟩
        rw [get_set, if_neg hji]
        exact ⟨hj, hjm, rfl⟩
      | none =>
        refine (markOf_eq_none h').2 fun j hj hjm => ?_
        rw [get_set] at hj hjm
        split at hj
        · rename_i hji
          rw [if_pos hji] at hjm
          exact hm hjm.symm
        · rename_i hji
          rw [if_neg hji] at hjm
          exact (markOf_eq_none h).1 hold j hj hjm

/-- The entry `e` is the mark that the frame `a` left. -/
structure Entry.MarkedBy (e : Entry) (a : Heard) : Prop where
  epoch : e.epoch = a.1.epochNum
  seq : e.seq = a.1.seqNum
  lastSeenMs : e.lastSeenMs = a.2

/-- The origin `mac` has to leave the full cache for the origin of `q`: it was heard least
recently. -/
structure Evicts (c : ReplayCache) (q : Heard) (mac : Mac) : Prop where
  full : ∀ i, (c.get i).used = true
  unknown : markOf c q.origin = none
  oldest : ∃ e, markOf c mac = some e ∧ ∀ j, e.lastSeenMs.toNat ≤ (c.get j).lastSeenMs.toNat

/-- **One frame that is accepted changes the map at its origin, and where an origin is evicted.** -/
theorem markOf_isReplay (h : WellFormed c) (hacc : (isReplay c q.1 q.2).1 = false) :
    (∃ e, markOf (isReplay c q.1 q.2).2 q.origin = some e ∧ e.MarkedBy q) ∧
      ∀ mac, mac ≠ q.origin → markOf (isReplay c q.1 q.2).2 mac = markOf c mac ∨
        markOf (isReplay c q.1 q.2).2 mac = none ∧ Evicts c q mac := by
  have h' := h.isReplay q
  cases hs : slotOf c q.origin with
  -- an origin with a slot: the slot is written if the frame is newer
  | some i =>
    obtain ⟨hu, hm⟩ := (slotOf_eq_some h).1 hs
    rw [isReplay_of_some hs] at hacc h' ⊢
    split at hacc
    · rename_i hn
      rw [if_pos hn] at h' ⊢
      refine ⟨⟨(c.get i).heard q, ?_, rfl, rfl, rfl⟩, fun mac hne => .inl ?_⟩
      · rw [markOf_set h h' hu hm, if_pos rfl]
      · rw [markOf_set h h' hu hm, if_neg hne, if_neg fun hi => hne (hi.2.symm.trans hm)]
    · cases hacc
  -- a new origin takes a free slot, or that of the origin heard least recently
  | none =>
    have hno : markOf c q.origin = none := by rw [markOf, hs, Option.map_none]
    rw [isReplay_of_none hs] at h' ⊢
    refine ⟨⟨entryOf q.1 q.2, ?_, rfl, rfl, rfl⟩, fun mac hne => ?_⟩
    · rw [markOf_set h h' rfl rfl]
      exact if_pos rfl
    · rw [markOf_set h h' rfl (show (entryOf q.1 q.2).mac = q.origin from rfl), if_neg hne]
      by_cases hi : (c.get (allocSlot c)).used = true ∧ (c.get (allocSlot c)).mac = mac
      · rw [if_pos hi]
        rcases allocSlot_spec c with ⟨hf, -⟩ | ⟨hall, hold⟩
        · rw [hi.1] at hf
          cases hf
        · refine .inr ⟨rfl, hall, hno, c.get (allocSlot c), ?_, hold⟩
          exact (markOf_eq_some h).2 ⟨allocSlot c, hi.1, hi.2, rfl⟩
      · rw [if_neg hi]
        exact .inl rfl

/-- A frame whose origin has a mark is accepted exactly when it is newer. -/
theorem isReplay_fst_of_some (h : WellFormed c) {e : Entry} (he : markOf c q.origin = some e) :
    (isReplay c q.1 q.2).1 = !newer q.1.epochNum q.1.seqNum e.epoch e.seq := by
  obtain ⟨i, hu, hm, rfl⟩ := (markOf_eq_some h).1 he
  rw [isReplay_of_some ((slotOf_eq_some h).2 ⟨hu, hm⟩)]
  cases hn : newer q.1.epochNum q.1.seqNum (c.get i).epoch (c.get i).seq <;> simp

/-- A frame of an origin that has no mark is accepted. -/
theorem isReplay_fst_of_none (he : markOf c q.origin = none) : (isReplay c q.1 q.2).1 = false := by
  rw [isReplay_of_none (by rwa [markOf, Option.map_eq_none_iff] at he)]

/-! ### Invariants of the log -/

theorem newer_iff_stamp {q a : Heard} : q.Newer a ↔ a.1.stamp < q.1.stamp := newer_iff_stampOf

/-- The marks are those of the last frames that were accepted. -/
structure Logged (s : ReplayCache × List Heard) : Prop where
  wf : WellFormed s.1
  marks : ∀ mac e, markOf s.1 mac = some e →
    ∃ a, s.2.find? (fun a => a.origin = mac) = some a ∧ e.MarkedBy a

/-- What is special while the slots suffice: no origin was forgotten, and the frames of one origin
rise. -/
structure Roomy (s : ReplayCache × List Heard) : Prop where
  known : ∀ a ∈ s.2, (markOf s.1 a.origin).isSome = true
  rising : s.2.Pairwise fun q a => q.origin = a.origin → q.Newer a

/-- Every frame in the log is still covered by the mark of its origin, or twelve other origins
were accepted after it. -/
def Covered (s : ReplayCache × List Heard) : Prop :=
  ∀ later a earlier, s.2 = later ++ a :: earlier →
    (∃ e, markOf s.1 a.origin = some e ∧ a.1.stamp ≤ stampOf e.epoch e.seq ∧
      a.2.toNat ≤ e.lastSeenMs.toNat) ∨
      replayMaxOrigins ≤ ((originsOf later).erase a.origin).card

variable {s : ReplayCache × List Heard}

theorem hear_of_replay (h : (isReplay s.1 q.1 q.2).1 = true) : hear s q = s := by
  rw [hear, isReplay_snd_of_replay h, if_pos h]

theorem hear_of_accepted (h : (isReplay s.1 q.1 q.2).1 = false) :
    hear s q = ((isReplay s.1 q.1 q.2).2, q :: s.2) := by
  rw [hear, if_neg (by simp [h])]

theorem Logged.hear (h : Logged s) (q : Heard) : Logged (hear s q) := by
  cases hacc : (isReplay s.1 q.1 q.2).1 with
  | true =>
    rw [hear_of_replay hacc]
    exact h
  | false =>
    rw [hear_of_accepted hacc]
    obtain ⟨⟨e₀, he₀, hm₀⟩, hother⟩ := markOf_isReplay h.wf hacc
    refine ⟨h.wf.isReplay q, fun mac e he => ?_⟩
    by_cases hm : mac = q.origin
    · subst hm
      rw [he₀] at he
      obtain rfl := Option.some.inj he
      exact ⟨q, by simp, hm₀⟩
    · have he' : markOf s.1 mac = some e := by
        rcases hother mac hm with hsame | ⟨hnone, -⟩
        · rw [← hsame]
          exact he
        · rw [show markOf (isReplay s.1 q.1 q.2).2 mac = some e from he] at hnone
          cases hnone
      obtain ⟨a, ha, hma⟩ := h.marks mac e he'
      exact ⟨a, by rw [List.find?_cons_of_neg (by simpa using Ne.symm hm), ha], hma⟩

/-- The origins of the slots of a full cache. -/
theorem card_full (h : WellFormed s.1) (hfull : ∀ i, (s.1.get i).used = true) :
    (Finset.univ.image fun i => (s.1.get i).mac).card = replayMaxOrigins := by
  rw [Finset.card_image_of_injective _ fun i j hij => h.mac_inj i j (hfull i) (hfull j) hij]
  exact Fintype.card_fin _

/-- An origin leaves the cache only for the thirteenth origin. -/
theorem Logged.card_of_evicts (h : Logged s) {mac : Mac} (hev : Evicts s.1 q mac) :
    replayMaxOrigins < (originsOf (q :: s.2)).card := by
  have hsub : insert q.origin (Finset.univ.image fun i => (s.1.get i).mac) ⊆
      originsOf (q :: s.2) := by
    intro m hm
    rcases Finset.mem_insert.1 hm with rfl | hm
    · exact mem_originsOf.2 ⟨q, List.mem_cons_self, rfl⟩
    · obtain ⟨i, -, rfl⟩ := Finset.mem_image.1 hm
      obtain ⟨a, ha, -⟩ := h.marks _ _ ((markOf_eq_some h.wf).2 ⟨i, hev.full i, rfl, rfl⟩)
      exact mem_originsOf.2 ⟨a, List.mem_cons_of_mem _ (List.mem_of_find?_eq_some ha),
        by simpa using List.find?_some ha⟩
  have hnew : q.origin ∉ Finset.univ.image fun i => (s.1.get i).mac := by
    intro hm
    obtain ⟨i, -, hi⟩ := Finset.mem_image.1 hm
    exact (markOf_eq_none h.wf).1 hev.unknown i (hev.full i) hi
  have hcard := Finset.card_le_card hsub
  rw [Finset.card_insert_of_notMem hnew, card_full h.wf hev.full] at hcard
  omega

theorem Roomy.hear (h : Roomy s) (hl : Logged s)
    (hcard : (originsOf (ReplayCache.hear s q).2).card ≤ replayMaxOrigins) :
    Roomy (ReplayCache.hear s q) := by
  cases hacc : (isReplay s.1 q.1 q.2).1 with
  | true =>
    rw [hear_of_replay hacc]
    exact h
  | false =>
    rw [hear_of_accepted hacc] at hcard ⊢
    obtain ⟨⟨e₀, he₀, -⟩, hother⟩ := markOf_isReplay hl.wf hacc
    refine ⟨fun a ha => ?_, List.pairwise_cons.2 ⟨fun a ha hqa => ?_, h.rising⟩⟩
    -- the origin of the frame has a mark now, and one that lost its mark would be one too many
    · by_cases hm : a.origin = q.origin
      · rw [hm, he₀]
        rfl
      · have ha' : a ∈ s.2 := (List.mem_cons.1 ha).resolve_left fun h => hm (by rw [h])
        rcases hother a.origin hm with hsame | ⟨-, hev⟩
        · rw [hsame]
          exact h.known a ha'
        · exact absurd (hl.card_of_evicts hev) (not_lt.2 hcard)
    · -- the mark of the origin is that of its last frame, which is above the earlier ones
      obtain ⟨e, he⟩ := Option.isSome_iff_exists.1 (h.known a ha)
      obtain ⟨a₀, ha₀, hm₀⟩ := hl.marks _ _ he
      have hnew : q.Newer a₀ := by
        have hf := isReplay_fst_of_some (q := q) hl.wf (hqa ▸ he)
        rw [hacc, hm₀.epoch, hm₀.seq] at hf
        simpa [Heard.Newer] using hf
      obtain ⟨ho, l, l', hs, hno⟩ := List.find?_eq_some_iff_append.1 ha₀
      rw [newer_iff_stamp] at hnew ⊢
      rw [hs] at ha
      rcases List.mem_append.1 ha with hl' | hr
      · have hne := hno a hl'
        simp at hne
      · rcases List.mem_cons.1 hr with rfl | hr
        · exact hnew
        · have hr' := h.rising
          rw [hs] at hr'
          have := (List.pairwise_cons.1 (List.pairwise_append.1 hr').2.1).1 a hr (by simpa using ho)
          rw [newer_iff_stamp] at this
          omega

/-- Later frames have later times. -/
def Timed (log : List Heard) : Prop := log.Pairwise fun q a => a.2.toNat < q.2.toNat

/-- The origins of the other slots were accepted after the last frame of the oldest one. -/
theorem Logged.mem_later (h : Logged s) (ht : Timed s.2) {later earlier : List Heard} {a : Heard}
    {e : Entry} (hs : s.2 = later ++ a :: earlier) (he : markOf s.1 a.origin = some e)
    (hle : a.2.toNat ≤ e.lastSeenMs.toNat) {j : Fin replayMaxOrigins}
    (hu : (s.1.get j).used = true) (hj : (s.1.get j).mac ≠ a.origin)
    (hold : e.lastSeenMs.toNat ≤ (s.1.get j).lastSeenMs.toNat) :
    (s.1.get j).mac ∈ originsOf later := by
  obtain ⟨b, hb, hmb⟩ := h.marks _ _ ((markOf_eq_some h.wf).2 ⟨j, hu, rfl, rfl⟩)
  obtain ⟨a₀, ha₀, hma⟩ := h.marks _ _ he
  have hbo : b.origin = (s.1.get j).mac := by simpa using List.find?_some hb
  have hao : a₀.origin = a.origin := by simpa using List.find?_some ha₀
  have hne : b ≠ a₀ := by
    rintro rfl
    exact hj (hbo.symm.trans hao)
  have hdiff : b.2.toNat ≠ a₀.2.toNat := by
    have hp : s.2.Pairwise fun x y : Heard => x.2.toNat ≠ y.2.toNat :=
      ht.imp fun hlt => ne_of_gt hlt
    have : Std.Symm fun x y : Heard => x.2.toNat ≠ y.2.toNat := ⟨fun _ _ => Ne.symm⟩
    exact hp.forall (List.mem_of_find?_eq_some hb) (List.mem_of_find?_eq_some ha₀) hne
  rw [hma.lastSeenMs] at hle hold
  rw [hmb.lastSeenMs] at hold
  have hb' := List.mem_of_find?_eq_some hb
  rw [hs] at hb' ht
  rcases List.mem_append.1 hb' with hl | hr
  · exact mem_originsOf.2 ⟨b, hl, hbo⟩
  · rcases List.mem_cons.1 hr with rfl | hr
    · omega
    · have := (List.pairwise_cons.1 (List.pairwise_append.1 ht).2.1).1 b hr
      omega

theorem erase_card_mono {x y : List Heard} {m : Mac} (h : ∀ a ∈ x, a ∈ y) :
    ((originsOf x).erase m).card ≤ ((originsOf y).erase m).card := by
  refine Finset.card_le_card (Finset.erase_subset_erase m fun o ho => ?_)
  obtain ⟨a, ha, hao⟩ := mem_originsOf.1 ho
  exact mem_originsOf.2 ⟨a, h a ha, hao⟩

/-- When an origin is evicted, twelve other origins were accepted after its last frame. -/
theorem Logged.card_later (h : Logged s) (ht : Timed s.2) {later earlier : List Heard} {a : Heard}
    {e : Entry} (hs : s.2 = later ++ a :: earlier) (he : markOf s.1 a.origin = some e)
    (hle : a.2.toNat ≤ e.lastSeenMs.toNat) (hev : Evicts s.1 q a.origin) :
    replayMaxOrigins ≤ ((originsOf (q :: later)).erase a.origin).card := by
  -- the frame comes from another origin than the mark that goes
  have hq : q.origin ≠ a.origin := by
    intro hqa
    have := hev.unknown
    rw [hqa, he] at this
    cases this
  obtain ⟨e', he', hold⟩ := hev.oldest
  rw [he] at he'
  obtain rfl := Option.some.inj he'
  obtain ⟨i, hi, him, -⟩ := (markOf_eq_some h.wf).1 he
  -- every mark but the one that goes was set later, and the new origin adds one
  have hsub : insert q.origin ((Finset.univ.image fun i => (s.1.get i).mac).erase a.origin) ⊆
      (originsOf (q :: later)).erase a.origin := by
    intro m hm
    rcases Finset.mem_insert.1 hm with rfl | hm
    · exact Finset.mem_erase.2 ⟨hq, mem_originsOf.2 ⟨q, List.mem_cons_self, rfl⟩⟩
    · obtain ⟨hne, hm⟩ := Finset.mem_erase.1 hm
      obtain ⟨j, -, rfl⟩ := Finset.mem_image.1 hm
      obtain ⟨b, hb, hbo⟩ :=
        mem_originsOf.1 (h.mem_later ht hs he hle (hev.full j) hne (hold j))
      exact Finset.mem_erase.2 ⟨hne, mem_originsOf.2 ⟨b, List.mem_cons_of_mem _ hb, hbo⟩⟩
  have hnew : q.origin ∉ (Finset.univ.image fun i => (s.1.get i).mac).erase a.origin := by
    intro hm
    obtain ⟨j, -, hj⟩ := Finset.mem_image.1 (Finset.mem_erase.1 hm).2
    exact (markOf_eq_none h.wf).1 hev.unknown j (hev.full j) hj
  have hmem : a.origin ∈ Finset.univ.image fun i => (s.1.get i).mac :=
    Finset.mem_image.2 ⟨i, Finset.mem_univ i, him⟩
  have hcard := Finset.card_le_card hsub
  rw [Finset.card_insert_of_notMem hnew, Finset.card_erase_of_mem hmem,
    card_full h.wf hev.full] at hcard
  unfold replayMaxOrigins at hcard ⊢
  omega

theorem Covered.hear (h : Covered s) (hl : Logged s) (ht : Timed s.2)
    (hq : ∀ a ∈ s.2, a.2.toNat < q.2.toNat) : Covered (ReplayCache.hear s q) := by
  cases hacc : (isReplay s.1 q.1 q.2).1 with
  | true =>
    rw [hear_of_replay hacc]
    exact h
  | false =>
    rw [hear_of_accepted hacc]
    obtain ⟨⟨e₀, he₀, hm₀⟩, hother⟩ := markOf_isReplay hl.wf hacc
    intro later a earlier hs
    cases later with
    -- the frame itself
    | nil =>
      obtain ⟨rfl, -⟩ := List.cons_eq_cons.1 hs
      refine .inl ⟨e₀, he₀, ?_, ?_⟩
      · rw [hm₀.epoch, hm₀.seq]
        exact le_refl _
      · rw [hm₀.lastSeenMs]
    | cons q' later =>
      -- an earlier frame keeps its mark, is outdone by this one, or loses its mark now
      obtain ⟨rfl, hs'⟩ := List.cons_eq_cons.1 hs
      rcases h later a earlier hs' with ⟨e, he, hst, hle⟩ | hcard
      · by_cases hm : a.origin = q.origin
        · have hf := isReplay_fst_of_some (q := q) hl.wf (hm ▸ he)
          have ha : a ∈ s.2 := by simp [hs']
          refine .inl ⟨e₀, by rw [hm]; exact he₀, ?_, ?_⟩
          · rw [hacc] at hf
            have hn : newer q.1.epochNum q.1.seqNum e.epoch e.seq = true := by simpa using hf
            rw [newer_iff_stampOf] at hn
            rw [hm₀.epoch, hm₀.seq]
            omega
          · rw [hm₀.lastSeenMs]
            exact le_of_lt (hq a ha)
        · rcases hother a.origin hm with hsame | ⟨-, hev⟩
          · exact .inl ⟨e, by rw [← he]; exact hsame, hst, hle⟩
          · exact .inr (hl.card_later ht hs' he hle hev)
      · exact .inr (le_trans hcard (erase_card_mono fun a ha => List.mem_cons_of_mem _ ha))

/-! ### Runs -/

/-- The cache and the log after a sequence of frames. -/
def heard (qs : List Heard) : ReplayCache × List Heard := Runs.run hear (empty, []) qs

theorem heard_append (qs : List Heard) (q : Heard) : heard (qs ++ [q]) = hear (heard qs) q :=
  Runs.run_append qs [q]

theorem originsOf_log_subset (qs : List Heard) : originsOf (log qs) ⊆ originsOf qs := by
  induction qs using List.reverseRecOn with
  | nil => exact fun _ h => h
  | append_singleton qs q ih =>
    intro m hm
    obtain ⟨a, ha, hao⟩ := mem_originsOf.1 hm
    have ha' : a ∈ (hear (heard qs) q).2 := by
      rw [← heard_append]
      exact ha
    have hmem : a ∈ log qs ∨ a = q := by
      cases hacc : (isReplay (heard qs).1 q.1 q.2).1 with
      | true =>
        rw [hear_of_replay hacc] at ha'
        exact .inl ha'
      | false =>
        rw [hear_of_accepted hacc] at ha'
        exact (List.mem_cons.1 ha').symm
    rcases hmem with hmem | rfl
    · obtain ⟨b, hb, hbo⟩ := mem_originsOf.1 (ih (mem_originsOf.2 ⟨a, hmem, hao⟩))
      exact mem_originsOf.2 ⟨b, List.mem_append_left _ hb, hbo⟩
    · exact mem_originsOf.2 ⟨a, by simp, hao⟩

theorem logged (qs : List Heard) : Logged (heard qs) := by
  induction qs using List.reverseRecOn with
  | nil =>
    refine ⟨wellFormed_empty, fun mac e he => ?_⟩
    obtain ⟨i, hu, -⟩ := (markOf_eq_some wellFormed_empty).1 he
    rw [empty, List.Vector.get_replicate] at hu
    cases hu
  | append_singleton qs q ih =>
    rw [heard_append]
    exact ih.hear q

theorem roomy {qs : List Heard} (h : (originsOf qs).card ≤ replayMaxOrigins) :
    Roomy (heard qs) := by
  induction qs using List.reverseRecOn with
  | nil => exact ⟨by simp [heard, Runs.run], by simp [heard, Runs.run]⟩
  | append_singleton qs q ih =>
    have hlog := originsOf_log_subset (qs ++ [q])
    have hqs : originsOf qs ⊆ originsOf (qs ++ [q]) := by
      intro m hm
      obtain ⟨a, ha, hao⟩ := mem_originsOf.1 hm
      exact mem_originsOf.2 ⟨a, List.mem_append_left _ ha, hao⟩
    rw [heard_append]
    refine (ih (le_trans (Finset.card_le_card hqs) h)).hear (logged qs) ?_
    rw [← heard_append]
    exact le_trans (Finset.card_le_card hlog) h

theorem mem_log {qs : List Heard} {a : Heard} (h : a ∈ log qs) : a ∈ qs := by
  induction qs using List.reverseRecOn with
  | nil => exact h
  | append_singleton qs q ih =>
    have h' : a ∈ (hear (heard qs) q).2 := by
      rw [← heard_append]
      exact h
    cases hacc : (isReplay (heard qs).1 q.1 q.2).1 with
    | true =>
      rw [hear_of_replay hacc] at h'
      exact List.mem_append_left _ (ih h')
    | false =>
      rw [hear_of_accepted hacc] at h'
      rcases List.mem_cons.1 h' with rfl | h'
      · simp
      · exact List.mem_append_left _ (ih h')

/-- The log only grows. -/
theorem log_append (qs rs : List Heard) : ∃ later, log (qs ++ rs) = later ++ log qs := by
  induction rs using List.reverseRecOn with
  | nil => exact ⟨[], by simp⟩
  | append_singleton rs r ih =>
    obtain ⟨later, hl⟩ := ih
    have hlog : log (qs ++ (rs ++ [r])) = (hear (heard (qs ++ rs)) r).2 := by
      rw [← List.append_assoc, ← heard_append]
      rfl
    cases hacc : (isReplay (heard (qs ++ rs)).1 r.1 r.2).1 with
    | true =>
      rw [hlog, hear_of_replay hacc]
      exact ⟨later, hl⟩
    | false =>
      rw [hlog, hear_of_accepted hacc]
      exact ⟨r :: later, congrArg (r :: ·) hl⟩

/-- The frames were heard one after the other. -/
def InTime (qs : List Heard) : Prop := qs.Pairwise fun a b => a.2.toNat < b.2.toNat

theorem timed_covered {qs : List Heard} (h : InTime qs) :
    Timed (heard qs).2 ∧ Covered (heard qs) := by
  induction qs using List.reverseRecOn with
  | nil => exact ⟨List.Pairwise.nil, fun later a earlier hs => by simp [heard, Runs.run] at hs⟩
  | append_singleton qs q ih =>
    obtain ⟨hqs, -, hq⟩ := List.pairwise_append.1 h
    obtain ⟨ht, hc⟩ := ih hqs
    have hlt : ∀ a ∈ (heard qs).2, a.2.toNat < q.2.toNat :=
      fun a ha => hq a (mem_log ha) q (by simp)
    rw [heard_append]
    refine ⟨?_, hc.hear (logged qs) ht hlt⟩
    cases hacc : (isReplay (heard qs).1 q.1 q.2).1 with
    | true =>
      rw [hear_of_replay hacc]
      exact ht
    | false =>
      rw [hear_of_accepted hacc]
      exact List.pairwise_cons.2 ⟨hlt, ht⟩

/-- A frame of the log was accepted when the earlier frames made up the log. -/
theorem log_split {qs later earlier : List Heard} {b : Heard} (h : log qs = later ++ b :: earlier) :
    ∃ pre post, qs = pre ++ b :: post ∧ log pre = earlier ∧
      (isReplay (after pre) b.1 b.2).1 = false := by
  induction qs using List.reverseRecOn generalizing later with
  | nil => simp [log, Runs.run] at h
  | append_singleton qs q ih =>
    have h' : (hear (heard qs) q).2 = later ++ b :: earlier := by
      rw [← heard_append]
      exact h
    have hold : ∀ {l : List Heard}, log qs = l ++ b :: earlier → ∃ pre post,
        qs ++ [q] = pre ++ b :: post ∧ log pre = earlier ∧
          (isReplay (after pre) b.1 b.2).1 = false := by
      intro l hl
      obtain ⟨pre, post, hqs, hpre, hacc⟩ := ih hl
      exact ⟨pre, post ++ [q], by rw [hqs]; simp, hpre, hacc⟩
    cases hacc : (isReplay (heard qs).1 q.1 q.2).1 with
    | true =>
      rw [hear_of_replay hacc] at h'
      exact hold h'
    | false =>
      rw [hear_of_accepted hacc] at h'
      cases later with
      | nil =>
        obtain ⟨rfl, he⟩ := List.cons_eq_cons.1 h'
        exact ⟨qs, [], rfl, he, hacc⟩
      | cons q' later => exact hold (List.cons_eq_cons.1 h').2

/-- What an exact log is: the frames of one origin rise, none is accepted twice, and a frame above
all accepted frames of its origin is accepted. -/
structure LogExact (qs : List Heard) : Prop where
  rising : (log qs).Pairwise fun q a => q.origin = a.origin → q.Newer a
  nodup : ((log qs).map Heard.triple).Nodup
  accepts : ∀ pre q post, qs = pre ++ q :: post →
    (∀ a ∈ log pre, q.origin = a.origin → q.Newer a) → (isReplay (after pre) q.1 q.2).1 = false

theorem logExact {qs : List Heard} (h : (originsOf qs).card ≤ replayMaxOrigins) : LogExact qs := by
  have hr := (roomy h).rising
  refine ⟨hr, ?_, fun pre q post hqs hnew => ?_⟩
  · rw [List.Nodup, List.pairwise_map]
    refine hr.imp fun {q a} hqa heq => ?_
    obtain ⟨ho, hes⟩ := Prod.mk.inj heq
    obtain ⟨he, hs⟩ := Prod.mk.inj hes
    have hlt := newer_iff_stamp.1 (hqa ho)
    rw [Message.stamp, Message.stamp, he, hs] at hlt
    exact lt_irrefl _ hlt
  · cases hm : markOf (after pre) q.origin with
    | none => exact isReplay_fst_of_none hm
    | some e =>
      obtain ⟨a, ha, hma⟩ := (logged pre).marks _ _ hm
      have hqa : q.origin = a.origin := Eq.symm (by simpa using List.find?_some ha)
      have hn : newer q.1.epochNum q.1.seqNum a.1.epochNum a.1.seqNum = true :=
        hnew a (List.mem_of_find?_eq_some ha) hqa
      have hf := isReplay_fst_of_some (logged pre).wf hm
      rw [hma.epoch, hma.seq, hn] at hf
      exact hf

/-- **As long as at most twelve origins occur the log is exact; and at any number of origins, a
frame that is accepted twice was forgotten in between for twelve other origins.** -/
theorem log_exact (qs : List Heard) :
    ((originsOf qs).card ≤ replayMaxOrigins → LogExact qs) ∧
      (InTime qs → ∀ later b between a earlier,
        log qs = later ++ b :: (between ++ a :: earlier) → b.triple = a.triple →
          replayMaxOrigins ≤ ((originsOf between).erase a.origin).card) := by
  refine ⟨logExact, fun ht later b between a earlier hlog htr => ?_⟩
  obtain ⟨ho, hes⟩ := Prod.mk.inj htr
  obtain ⟨he, hs⟩ := Prod.mk.inj hes
  obtain ⟨pre, post, hqs, hpre, hacc⟩ := log_split hlog
  have hin : InTime pre := by
    rw [hqs] at ht
    exact (List.pairwise_append.1 ht).1
  rcases (timed_covered hin).2 between a earlier hpre with ⟨e, hme, hst, -⟩ | hcard
  · -- as long as the mark covers the frame, its second copy is refused
    have hf := isReplay_fst_of_some (q := b) (logged pre).wf
      (show markOf (heard pre).1 b.origin = some e by rw [← hme]; exact congrArg _ ho)
    have hn : newer b.1.epochNum b.1.seqNum e.epoch e.seq = true := by
      rw [show (isReplay (heard pre).1 b.1 b.2).1 = false from hacc] at hf
      simpa using hf
    rw [newer_iff_stampOf] at hn
    rw [Message.stamp, ← he, ← hs] at hst
    omega
  · exact hcard

end ReplayCache

end LatticeMesh
