import LatticeMesh.Mesh
import LatticeMesh.ReplayLog

/-!
# What forged frames leave in the replay cache

Two replay caches that check the same sequence of frames, except that the second one never sees the
extra ones among them.  An extra frame makes the two differ when it is newer than the mark of the
origin whose address it bears, or takes a slot.  As long as no origin loses its slot afterwards, the
difference is that one mark: it stops the genuine frames of that origin which the extra frame is not
below.

## Main definitions

* `Reception` — a frame that is received, genuine or extra.
* `ReplayCache.check` — what the checks of a received frame make of it.
* `ReplayCache.Raises` — the frame raises the mark of its origin, or takes a slot.
* `ReplayCache.Harmless` — an extra frame that does so stops no genuine frame.
* `ReplayCache.Agree` — the two caches say the same about the genuine frames that are still to come.

## Main results

* `ReplayCache.check_of_accepted` — a frame that passed the checks has every later frame of its
  origin dropped that is not newer.
* `ReplayCache.Agree.answer`, `ReplayCache.Agree.genuine`, `ReplayCache.Agree.extra` — **caches that
  agree answer a genuine frame alike, and agree after it and after a harmless extra frame.**
-/

namespace LatticeMesh

/-- A frame that is received, and whether it is one of the extra ones. -/
structure Reception where
  env : Env
  srcMac : Mac
  msg : Message
  extra : Bool := false

/-- The frame with the time at which it is received. -/
def Reception.heard (r : Reception) : Heard := (r.msg, r.env.nowMs)

/-- The frame is one that the replay cache is asked about: it has this protocol version, and its
epoch is not zero. -/
def Reception.Recorded (r : Reception) : Prop :=
  r.msg.protoVersion = protoVersion ∧ r.msg.epochNum > 0

instance (r : Reception) : Decidable r.Recorded := inferInstanceAs (Decidable (_ ∧ _))

/-- The sequence without the extra frames. -/
def genuine (rs : List Reception) : List Reception := rs.filter fun r => !r.extra

/-- The origins that a sequence of frames may enter into the cache. -/
def recordedOrigins (rs : List Reception) : Finset Mac :=
  ((rs.filter fun r => r.Recorded).map fun r => r.msg.originMac).toFinset

variable {r : Reception} {rs : List Reception}

theorem genuine_cons_extra (rs : List Reception) (h : r.extra = true) :
    genuine (r :: rs) = genuine rs := List.filter_cons_of_neg (by simp [h])

theorem genuine_cons (rs : List Reception) (h : r.extra = false) :
    genuine (r :: rs) = r :: genuine rs := List.filter_cons_of_pos (by simp [h])

theorem mem_recordedOrigins_cons (h : r.Recorded) :
    r.msg.originMac ∈ recordedOrigins (r :: rs) := by
  simp [recordedOrigins, h]

theorem recordedOrigins_subset_cons : recordedOrigins rs ⊆ recordedOrigins (r :: rs) := by
  intro mac hm
  simp only [recordedOrigins, List.mem_toFinset, List.mem_map, List.mem_filter] at hm ⊢
  obtain ⟨q, ⟨hq, hrec⟩, rfl⟩ := hm
  exact ⟨q, ⟨List.mem_cons_of_mem r hq, hrec⟩, rfl⟩

namespace ReplayCache

/-- The origins that have a slot. -/
def origins (c : ReplayCache) : Finset Mac :=
  (Finset.univ.filter fun i => (c.get i).used = true).image fun i => (c.get i).mac

/-- What the checks of a received frame make of it: whether they drop it, and the cache
afterwards. -/
def check (c : ReplayCache) (r : Reception) : Bool × ReplayCache :=
  if r.msg.protoVersion ≠ protoVersion then (true, c) else replayGate c r.msg r.env.nowMs

/-- The frame is newer than the mark of its origin, or its origin has no slot. -/
def Raises (c : ReplayCache) (r : Reception) : Prop :=
  r.Recorded ∧ ∀ e, markOf c r.msg.originMac = some e → stampOf e.epoch e.seq < r.msg.stamp

instance (c : ReplayCache) (r : Reception) : Decidable (Raises c r) :=
  inferInstanceAs (Decidable (_ ∧ _))

/-- An extra frame that raises a mark and stops no genuine frame of those that come later: those of
its origin that are newer than the old mark are newer than the extra frame too, and the slots
suffice for the origins that have one and for those that are still to come. -/
structure Harmless (c : ReplayCache) (x : Reception) (later : List Reception) : Prop where
  newer : ∀ g ∈ genuine later, g.msg.originMac = x.msg.originMac → Raises c g →
    x.msg.stamp < g.msg.stamp
  room : (c.origins ∪ recordedOrigins (x :: later)).card ≤ replayMaxOrigins

instance (c : ReplayCache) (x : Reception) (later : List Reception) :
    Decidable (Harmless c x later) :=
  decidable_of_iff
    ((∀ g ∈ genuine later, g.msg.originMac = x.msg.originMac → Raises c g →
      x.msg.stamp < g.msg.stamp) ∧
      (c.origins ∪ recordedOrigins (x :: later)).card ≤ replayMaxOrigins)
    ⟨fun h => ⟨h.1, h.2⟩, fun h => ⟨h.newer, h.room⟩⟩

/-- What the genuine frames that are still to come meet at two caches that are no longer the same:
the second cache knows no other origins, the slots suffice, and both say the same about each of
those frames. -/
structure Apart (c c' : ReplayCache) (rs : List Reception) : Prop where
  sub : c'.origins ⊆ c.origins
  room : (c.origins ∪ recordedOrigins rs).card ≤ replayMaxOrigins
  raises : ∀ g ∈ genuine rs, Raises c g ↔ Raises c' g

/-- Two caches that are the same, or say the same about the genuine frames of the sequence. -/
structure Agree (c c' : ReplayCache) (rs : List Reception) : Prop where
  wf : WellFormed c
  wf' : WellFormed c'
  apart : c' = c ∨ Apart c c' rs

variable {c c' : ReplayCache} {mac : Mac}

theorem mem_origins (h : WellFormed c) : mac ∈ c.origins ↔ (markOf c mac).isSome = true := by
  rw [Option.isSome_iff_exists]
  simp only [origins, Finset.mem_image, Finset.mem_filter, Finset.mem_univ, true_and,
    markOf_eq_some h]
  constructor
  · rintro ⟨i, hu, hm⟩
    exact ⟨c.get i, i, hu, hm, rfl⟩
  · rintro ⟨-, i, hu, hm, -⟩
    exact ⟨i, hu, hm⟩

/-! ### The checks of one frame -/

/-- Frames that the cache is asked about. -/
theorem check_of_recorded (h : r.Recorded) : check c r = isReplay c r.heard.1 r.heard.2 := by
  rw [check, if_neg (not_not.2 h.1), replayGate, if_pos h.2]
  rfl

/-- The other ones are answered without the cache. -/
theorem check_of_not_recorded (h : ¬r.Recorded) :
    check c r = (decide (r.msg.protoVersion ≠ protoVersion), c) := by
  unfold check
  by_cases hv : r.msg.protoVersion = protoVersion
  · have he : ¬r.msg.epochNum > 0 := fun he => h ⟨hv, he⟩
    rw [if_neg (not_not.2 hv), replayGate, if_neg he]
    simp [hv]
  · rw [if_pos hv]
    simp [hv]

/-- A frame that the cache is asked about passes exactly when it raises the mark of its origin. -/
theorem check_fst_iff (hwf : WellFormed c) (h : r.Recorded) :
    (check c r).1 = false ↔ Raises c r := by
  rw [check_of_recorded h, Raises, and_iff_right h]
  cases hm : markOf c r.msg.originMac with
  | none =>
    rw [isReplay_fst_of_none (q := r.heard) hm]
    simp
  | some e =>
    rw [isReplay_fst_of_some (q := r.heard) hwf hm, Bool.not_eq_false', newer_iff_stampOf]
    simp only [Option.some.injEq, forall_eq']
    rfl

/-- A frame that raises no mark leaves the cache alone. -/
theorem check_of_not_raises (hwf : WellFormed c) (h : ¬Raises c r) : (check c r).2 = c := by
  by_cases hr : r.Recorded
  · have hdrop : (check c r).1 = true := by
      rw [← Bool.not_eq_false, check_fst_iff hwf hr]
      exact h
    rw [check_of_recorded hr] at hdrop ⊢
    exact isReplay_snd_of_replay hdrop
  · rw [check_of_not_recorded hr]

theorem wellFormed_check (h : WellFormed c) : WellFormed (check c r).2 := by
  by_cases hr : r.Recorded
  · rw [check_of_recorded hr]
    exact h.isReplay r.heard
  · rw [check_of_not_recorded hr]
    exact h

/-- An origin is evicted only where the slots do not suffice. -/
theorem not_evicts (hwf : WellFormed c)
    (hroom : (insert r.msg.originMac c.origins).card ≤ replayMaxOrigins) :
    ¬Evicts c r.heard mac := by
  intro hev
  have horigins : c.origins = Finset.univ.image fun i => (c.get i).mac := by
    rw [origins, Finset.filter_true_of_mem fun i _ => hev.full i]
  have hnew : r.msg.originMac ∉ c.origins := by
    rw [mem_origins hwf, show markOf c r.msg.originMac = none from hev.unknown]
    simp
  rw [Finset.card_insert_of_notMem hnew, horigins,
    Finset.card_image_of_injective _ fun i j hij => hwf.mac_inj i j (hev.full i) (hev.full j) hij,
    Finset.card_univ, Fintype.card_fin] at hroom
  omega

/-- A frame that raises a mark where the slots suffice changes only the mark of its origin. -/
theorem markOf_check (hwf : WellFormed c) (h : Raises c r)
    (hroom : (insert r.msg.originMac c.origins).card ≤ replayMaxOrigins) :
    (∃ e, markOf (check c r).2 r.msg.originMac = some e ∧ stampOf e.epoch e.seq = r.msg.stamp) ∧
      ∀ mac, mac ≠ r.msg.originMac → markOf (check c r).2 mac = markOf c mac := by
  have hpass := (check_fst_iff hwf h.1).2 h
  rw [check_of_recorded h.1] at hpass ⊢
  obtain ⟨⟨e, he, hmark⟩, hother⟩ := markOf_isReplay (q := r.heard) hwf hpass
  refine ⟨⟨e, he, ?_⟩, fun mac hne => ?_⟩
  · rw [hmark.epoch, hmark.seq]
    rfl
  · rcases hother mac hne with hsame | ⟨-, hev⟩
    · exact hsame
    · exact absurd hev (not_evicts hwf hroom)

theorem origins_check (hwf : WellFormed c) (h : Raises c r)
    (hroom : (insert r.msg.originMac c.origins).card ≤ replayMaxOrigins) :
    (check c r).2.origins = insert r.msg.originMac c.origins := by
  obtain ⟨⟨e, he, -⟩, hother⟩ := markOf_check hwf h hroom
  ext mac
  rw [Finset.mem_insert, mem_origins (wellFormed_check hwf), mem_origins hwf]
  by_cases hm : mac = r.msg.originMac
  · simp [hm, he]
  · rw [hother mac hm, or_iff_right hm]

/-- What a frame that raised the mark of its origin means for the frames of that origin. -/
theorem raises_check_same {q : Reception} (hwf : WellFormed c) (h : Raises c r)
    (hroom : (insert r.msg.originMac c.origins).card ≤ replayMaxOrigins)
    (ho : q.msg.originMac = r.msg.originMac) :
    Raises (check c r).2 q ↔ q.Recorded ∧ r.msg.stamp < q.msg.stamp := by
  obtain ⟨⟨e, he, hstamp⟩, -⟩ := markOf_check hwf h hroom
  rw [Raises, ho, he, ← hstamp]
  simp

/-- It means nothing to the frames of other origins. -/
theorem raises_check_other {q : Reception} (hwf : WellFormed c) (h : Raises c r)
    (hroom : (insert r.msg.originMac c.origins).card ≤ replayMaxOrigins)
    (ho : q.msg.originMac ≠ r.msg.originMac) : Raises (check c r).2 q ↔ Raises c q := by
  obtain ⟨-, hother⟩ := markOf_check hwf h hroom
  rw [Raises, Raises, hother _ ho]

/-- **A frame that passed the checks has every frame of its origin dropped that is not newer**,
whoever sent it. -/
theorem check_of_accepted {q : Reception} (hwf : WellFormed c) (h : (check c r).1 = false)
    (hr : r.Recorded) (hq : q.Recorded) (ho : q.msg.originMac = r.msg.originMac)
    (hle : q.msg.stamp ≤ r.msg.stamp) : (check (check c r).2 q).1 = true := by
  rw [← Bool.not_eq_false, check_fst_iff (wellFormed_check hwf) hq]
  rw [check_of_recorded hr] at h ⊢
  obtain ⟨⟨e, he, hmark⟩, -⟩ := markOf_isReplay (q := r.heard) hwf h
  intro hraise
  have hlt := hraise.2 e (by rw [ho]; exact he)
  rw [hmark.epoch, hmark.seq] at hlt
  exact absurd hlt (not_lt.2 hle)

/-! ### Two caches -/

theorem Agree.refl (h : WellFormed c) : Agree c c rs := ⟨h, h, .inl rfl⟩

/-- The slots suffice for the frame at hand. -/
theorem Apart.room_cons (h : Apart c c' (r :: rs)) (hr : r.Recorded) :
    (insert r.msg.originMac c.origins).card ≤ replayMaxOrigins := by
  refine le_trans (Finset.card_le_card ?_) h.room
  refine Finset.insert_subset ?_ Finset.subset_union_left
  exact Finset.mem_union_right _ (mem_recordedOrigins_cons hr)

/-- They suffice at the second cache too. -/
theorem Apart.room_cons' (h : Apart c c' (r :: rs)) (hr : r.Recorded) :
    (insert r.msg.originMac c'.origins).card ≤ replayMaxOrigins :=
  le_trans (Finset.card_le_card (Finset.insert_subset_insert _ h.sub)) (h.room_cons hr)

theorem room_check (h : Raises c r)
    (hroom : (c.origins ∪ recordedOrigins (r :: rs)).card ≤ replayMaxOrigins) :
    (insert r.msg.originMac c.origins ∪ recordedOrigins rs).card ≤ replayMaxOrigins := by
  refine le_trans (Finset.card_le_card ?_) hroom
  rw [Finset.insert_union]
  refine Finset.insert_subset ?_ (Finset.union_subset_union_right recordedOrigins_subset_cons)
  exact Finset.mem_union_right _ (mem_recordedOrigins_cons h.1)

/-- A frame that raises nothing leaves the caches as they were. -/
theorem Apart.tail (h : Apart c c' (r :: rs)) : Apart c c' rs := by
  refine ⟨h.sub, ?_, fun g hg => h.raises g ?_⟩
  · refine le_trans (Finset.card_le_card ?_) h.room
    exact Finset.union_subset_union_right recordedOrigins_subset_cons
  · simp only [genuine, List.mem_filter] at hg ⊢
    exact ⟨List.mem_cons_of_mem r hg.1, hg.2⟩

theorem Apart.head (h : Apart c c' (r :: rs)) (hr : r.extra = false) :
    Raises c r ↔ Raises c' r := by
  refine h.raises r ?_
  rw [genuine_cons rs hr]
  exact List.mem_cons_self

/-- **Caches that agree answer a genuine frame alike.** -/
theorem Agree.answer (h : Agree c c' (r :: rs)) (hr : r.extra = false) :
    (check c r).1 = (check c' r).1 := by
  rcases h.apart with rfl | ha
  · rfl
  · by_cases hrec : r.Recorded
    · rw [Bool.eq_iff_iff, ← not_iff_not, Bool.not_eq_true, Bool.not_eq_true,
        check_fst_iff h.wf hrec, check_fst_iff h.wf' hrec]
      exact ha.head hr
    · rw [check_of_not_recorded hrec, check_of_not_recorded hrec]

/-- A genuine frame that raises the mark of its origin does so at both caches. -/
theorem Apart.genuine (h : Apart c c' (r :: rs)) (hwf : WellFormed c) (hwf' : WellFormed c')
    (hc : Raises c r) (hc' : Raises c' r) : Apart (check c r).2 (check c' r).2 rs := by
  have hroom := h.room_cons hc.1
  have hroom' := h.room_cons' hc.1
  refine ⟨?_, ?_, fun g hg => ?_⟩
  · rw [origins_check hwf hc hroom, origins_check hwf' hc' hroom']
    exact Finset.insert_subset_insert _ h.sub
  · rw [origins_check hwf hc hroom]
    exact room_check hc h.room
  · by_cases ho : g.msg.originMac = r.msg.originMac
    · rw [raises_check_same hwf hc hroom ho, raises_check_same hwf' hc' hroom' ho]
    · rw [raises_check_other hwf hc hroom ho, raises_check_other hwf' hc' hroom' ho]
      exact h.tail.raises g hg

/-- **Caches that agree still do after a genuine frame.** -/
theorem Agree.genuine (h : Agree c c' (r :: rs)) (hr : r.extra = false) :
    Agree (check c r).2 (check c' r).2 rs := by
  refine ⟨wellFormed_check h.wf, wellFormed_check h.wf', ?_⟩
  rcases h.apart with rfl | ha
  · exact .inl rfl
  · right
    by_cases hc : Raises c r
    · exact ha.genuine h.wf h.wf' hc ((ha.head hr).1 hc)
    · rw [check_of_not_raises h.wf hc, check_of_not_raises h.wf' fun hc' => hc ((ha.head hr).2 hc')]
      exact ha.tail

/-- An extra frame raises a mark of the first cache only. -/
theorem Apart.extra (h : c' = c ∨ Apart c c' (r :: rs)) (hwf : WellFormed c) (hc : Raises c r)
    (hless : Harmless c r rs) : Apart (check c r).2 c' rs := by
  have hsub : c'.origins ⊆ c.origins := by
    rcases h with rfl | h
    · exact subset_rfl
    · exact h.sub
  have hsame : ∀ g ∈ LatticeMesh.genuine rs, Raises c g ↔ Raises c' g := by
    rcases h with rfl | h
    · exact fun _ _ => Iff.rfl
    · exact h.tail.raises
  have hroom : (insert r.msg.originMac c.origins).card ≤ replayMaxOrigins :=
    le_trans (Finset.card_le_card Finset.subset_union_left) (room_check hc hless.room)
  refine ⟨?_, ?_, fun g hg => ?_⟩
  · rw [origins_check hwf hc hroom]
    exact hsub.trans (Finset.subset_insert _ _)
  · rw [origins_check hwf hc hroom]
    exact room_check hc hless.room
  · rw [← hsame g hg]
    by_cases ho : g.msg.originMac = r.msg.originMac
    · rw [raises_check_same hwf hc hroom ho]
      constructor
      · -- what is above the extra frame is above the mark that it raised
        rintro ⟨hg, hlt⟩
        refine ⟨hg, fun e he => ?_⟩
        rw [ho] at he
        exact (hc.2 e he).trans hlt
      · exact fun hg' => ⟨hg'.1, hless.newer g hg ho hg'⟩
    · rw [raises_check_other hwf hc hroom ho]

/-- **Caches that agree still do after a harmless extra frame.** -/
theorem Agree.extra (h : Agree c c' (r :: rs)) (hless : Raises c r → Harmless c r rs) :
    Agree (check c r).2 c' rs := by
  refine ⟨wellFormed_check h.wf, h.wf', ?_⟩
  by_cases hc : Raises c r
  · exact .inr (.extra h.apart h.wf hc (hless hc))
  · rw [check_of_not_raises h.wf hc]
    exact h.apart.imp_right Apart.tail

end ReplayCache

end LatticeMesh
