import LatticeMesh.Tables
import Mathlib.Data.List.Induction
import Mathlib.Data.Vector.Mem

/-!
# The neighbour table

What the single pass over the neighbour table computes, and which neighbour it offers as the next
hop.

## Main definitions

* `NeighborTable.Rival` — a fresh entry of some other neighbour.
* `NeighborTable.Distinct` — no neighbour has two valid entries.
* `NeighborTable.Eligible` — a fresh entry that is closer to the master.

## Main results

* `NeighborTable.observed` — **the table and the distance after a neighbour was heard.**
* `NeighborTable.selectNextHop_eq_some` — the next hop is the freshest of the eligible neighbours.
-/

namespace LatticeMesh

namespace NeighborTable

variable {t : NeighborTable} {mac : Mac} {d : UInt8} {now : UInt64}

/-! ### Hearing a neighbour -/

/-- A fresh entry of another neighbour than `mac`. -/
structure Rival (t : NeighborTable) (mac : Mac) (now : UInt64) (e : Entry) : Prop where
  mem : e ∈ t.toList
  valid : e.valid = true
  ne : e.mac ≠ mac
  fresh : e.stale now = false

/-- No neighbour has two valid entries. -/
def Distinct (t : NeighborTable) : Prop :=
  ∀ i j, (t.get i).valid = true → (t.get j).valid = true → (t.get i).mac = (t.get j).mac → i = j

theorem distinct_empty : Distinct empty := by
  intro i j hi
  rw [empty, List.Vector.get_replicate] at hi
  cases hi

theorem not_valid_of_mem_empty {e : Entry} (h : e ∈ empty.toList) : e.valid = false := by
  obtain ⟨i, rfl⟩ := (List.Vector.mem_iff_get _ _).1 h
  rw [empty, List.Vector.get_replicate]

/-- What the pass knows after the slots in `l`. -/
structure Scanned (t : NeighborTable) (mac : Mac) (now : UInt64) (l : List (Fin neighborMax))
    (a : Scan) : Prop where
  matched : ∀ i, a.matchIdx = some i → (t.get i).valid = true ∧ (t.get i).mac = mac
  isSome : ∀ i ∈ l, (t.get i).valid = true → (t.get i).mac = mac → a.matchIdx.isSome = true
  best_le : ∀ i ∈ l, Rival t mac now (t.get i) → a.bestOther ≤ (t.get i).masterDistance
  attained : a.bestOther = 0xFF ∨ ∃ e, Rival t mac now e ∧ e.masterDistance = a.bestOther

theorem round_matchIdx (a : Scan) (i : Fin neighborMax) :
    (Scan.round t mac now a i).matchIdx =
      if (t.get i).valid = true ∧ (t.get i).mac = mac then some i else a.matchIdx := by
  unfold Scan.round
  by_cases hv : (t.get i).valid = true
  · by_cases hm : (t.get i).mac = mac
    · simp [hv, hm]
    · simp only [hv, hm, Bool.not_true, Bool.false_eq_true, if_false, and_false]
      split_ifs <;> rfl
  · simp [hv]

theorem round_bestOther (a : Scan) (i : Fin neighborMax) :
    (Scan.round t mac now a i).bestOther =
      if (t.get i).valid = true ∧ (t.get i).mac ≠ mac ∧ (t.get i).stale now = false ∧
        (t.get i).masterDistance < a.bestOther then (t.get i).masterDistance else a.bestOther := by
  by_cases hv : (t.get i).valid = true
  · by_cases hm : (t.get i).mac = mac
    · rw [if_neg fun h => h.2.1 hm]
      simp [Scan.round, hv, hm]
    · by_cases hs : (t.get i).stale now = true
      · rw [if_neg fun h => by simp [hs] at h]
        simp only [Scan.round, hv, hm, hs, Bool.not_true, Bool.false_eq_true, if_false, if_true]
        split_ifs <;> rfl
      · by_cases hd : (t.get i).masterDistance < a.bestOther
        · rw [if_pos ⟨hv, hm, Bool.eq_false_iff.2 hs, hd⟩]
          simp only [Scan.round, hv, hm, hs, hd, Bool.not_true, Bool.false_eq_true, if_false,
            if_true]
          split_ifs <;> rfl
        · rw [if_neg fun h => hd h.2.2.2]
          simp only [Scan.round, hv, hm, hs, hd, Bool.not_true, Bool.false_eq_true, if_false]
          split_ifs <;> rfl
  · rw [if_neg fun h => hv h.1]
    simp [Scan.round, hv]

/-- One round of the pass. -/
theorem Scanned.round {l : List (Fin neighborMax)} {a : Scan} (h : Scanned t mac now l a)
    (i : Fin neighborMax) : Scanned t mac now (l ++ [i]) (Scan.round t mac now a i) := by
  refine ⟨fun k hk => ?_, fun k hk hv hm => ?_, fun k hk hr => ?_, ?_⟩
  · rw [round_matchIdx] at hk
    split at hk
    · obtain rfl := Option.some.inj hk
      assumption
    · exact h.matched k hk
  · rw [round_matchIdx]
    split
    · rfl
    · rename_i hne
      rcases List.mem_append.1 hk with hk | hk
      · exact h.isSome k hk hv hm
      · obtain rfl := List.mem_singleton.1 hk
        exact absurd ⟨hv, hm⟩ hne
  · rw [round_bestOther]
    -- the best distance so far is below all entries that were looked at
    rcases List.mem_append.1 hk with hk | hk
    · have hle := h.best_le k hk hr
      split
      · rename_i hlt
        exact UInt8.le_of_lt (UInt8.lt_of_lt_of_le hlt.2.2.2 hle)
      · exact hle
    · obtain rfl := List.mem_singleton.1 hk
      split
      · exact UInt8.le_refl _
      · rename_i hge
        exact UInt8.not_lt.1 fun hlt => hge ⟨hr.valid, hr.ne, hr.fresh, hlt⟩
  · rw [round_bestOther]
    split
    · rename_i hlt
      exact .inr ⟨t.get i, ⟨List.Vector.get_mem i t, hlt.1, hlt.2.1, hlt.2.2.1⟩, rfl⟩
    · exact h.attained

theorem scanned (t : NeighborTable) (mac : Mac) (now : UInt64) :
    Scanned t mac now (List.finRange neighborMax)
      ((List.finRange neighborMax).foldl (Scan.round t mac now) {}) := by
  have h : ∀ l : List (Fin neighborMax),
      Scanned t mac now l (l.foldl (Scan.round t mac now) {}) := by
    intro l
    induction l using List.reverseRecOn with
    | nil => exact ⟨by simp, by simp, by simp, .inl rfl⟩
    | append_singleton l i ih =>
      rw [List.foldl_append]
      exact ih.round i
  exact h _

/-- The table and the distance after the neighbour `mac` was heard at the distance `d`. -/
structure Observed (t : NeighborTable) (mac : Mac) (d : UInt8) (now : UInt64)
    (r : UInt8 × NeighborTable) : Prop where
  le : r.1 ≤ d
  le_rival : ∀ e, Rival t mac now e → r.1 ≤ e.masterDistance
  attained : r.1 = d ∨ ∃ e, Rival t mac now e ∧ e.masterDistance = r.1
  heard : ⟨mac, d, true, now⟩ ∈ r.2.toList
  entries : ∀ e ∈ r.2.toList, e.valid = true →
    e = ⟨mac, d, true, now⟩ ∨ e ∈ t.toList ∧ e.mac ≠ mac
  distinct : Distinct r.2

/-- **What hearing a neighbour does.** -/
theorem observed (h : Distinct t) (mac : Mac) (d : UInt8) (now : UInt64) :
    Observed t mac d now (t.observeAndMinDistance mac d now) := by
  have hs := scanned t mac now
  unfold observeAndMinDistance
  generalize (List.finRange neighborMax).foldl (Scan.round t mac now) {} = a at hs
  dsimp only
  generalize hslot : (a.matchIdx.or (a.firstInvalidIdx.or
    (a.firstStaleIdx.or a.farthestIdx))).getD ⟨0, by decide⟩ = slot
  -- the slots of the other entries keep neighbours with other addresses
  have hother : ∀ i, i ≠ slot → (t.get i).valid = true → (t.get i).mac ≠ mac := by
    intro i hi hv hm
    obtain ⟨k, hk⟩ := Option.isSome_iff_exists.1 (hs.isSome i (List.mem_finRange i) hv hm)
    obtain ⟨hkv, hkm⟩ := hs.matched k hk
    rw [hk] at hslot
    have hks : k = slot := hslot
    exact hi ((h i k hv hkv (hm.trans hkm.symm)).trans hks)
  have hget : ∀ i, (t.set slot ⟨mac, d, true, now⟩).get i =
      if i = slot then ⟨mac, d, true, now⟩ else t.get i := by
    intro i
    split
    · rename_i hi
      rw [hi, List.Vector.get_set_same]
    · rename_i hi
      exact List.Vector.get_set_of_ne (Ne.symm hi) _
  refine ⟨?_, fun e he => ?_, ?_, ?_, fun e he hv => ?_, fun i j hi hj hm => ?_⟩
  -- the distance: the smaller of the sender's and the best of the others
  · split
    · exact UInt8.le_refl _
    · exact UInt8.not_lt.1 ‹_›
  · obtain ⟨i, rfl⟩ := (List.Vector.mem_iff_get _ _).1 he.mem
    have hle := hs.best_le i (List.mem_finRange i) he
    split
    · exact UInt8.le_of_lt (UInt8.lt_of_lt_of_le ‹_› hle)
    · exact hle
  · split
    · exact .inl rfl
    · rename_i hge
      rcases hs.attained with hff | hr
      · refine .inl (UInt8.le_antisymm (UInt8.not_lt.1 hge) ?_)
        rw [hff]
        exact UInt8.le_iff_toNat_le.2 (Nat.le_of_lt_succ d.toNat_lt)
      · exact .inr hr
  · have := List.Vector.get_mem slot (t.set slot ⟨mac, d, true, now⟩)
    rwa [hget, if_pos rfl] at this
  -- the entries: the slot of the sender, and the other slots as they were
  · obtain ⟨i, rfl⟩ := (List.Vector.mem_iff_get _ _).1 he
    rw [hget] at hv ⊢
    by_cases hi : i = slot
    · exact .inl (if_pos hi)
    · rw [if_neg hi] at hv ⊢
      exact .inr ⟨List.Vector.get_mem i t, hother i hi hv⟩
  -- two slots with one address: one of them would be the sender's
  · rw [hget] at hi hj hm
    rw [hget] at hm
    by_cases hi' : i = slot <;> by_cases hj' : j = slot
    · exact hi'.trans hj'.symm
    · rw [if_pos hi', if_neg hj'] at hm
      rw [if_neg hj'] at hj
      exact absurd hm.symm (hother j hj' hj)
    · rw [if_neg hi', if_pos hj'] at hm
      rw [if_neg hi'] at hi
      exact absurd hm (hother i hi' hi)
    · rw [if_neg hi', if_neg hj'] at hm
      rw [if_neg hi'] at hi
      rw [if_neg hj'] at hj
      exact h i j hi hj hm

/-! ### The next hop -/

/-- A fresh entry that is closer to the master than `ownDistance`. -/
structure Eligible (t : NeighborTable) (ownDistance : UInt8) (now : UInt64) (e : Entry) : Prop where
  mem : e ∈ t.toList
  valid : e.valid = true
  fresh : e.stale now = false
  closer : e.masterDistance < ownDistance

/-- Whether the choice of the next hop looks at an entry. -/
def Entry.offered (e : Entry) (ownDistance : UInt8) (now : UInt64) : Prop :=
  e.valid = true ∧ e.stale now = false ∧ e.masterDistance < ownDistance

/-- One round of the choice: an entry that is offered and fresher than the best one so far takes
its place. -/
def Entry.fresher (ownDistance : UInt8) (now : UInt64) (best : Option Entry) (e : Entry) :
    Option Entry :=
  if !e.valid || e.stale now || e.masterDistance ≥ ownDistance then best
  else match best with
    | none => some e
    | some b => if e.lastSeenMs > b.lastSeenMs then some e else best

/-- The best entry so far is the freshest of those that were offered. -/
structure Freshest (ownDistance : UInt8) (now : UInt64) (l : List Entry) (best : Option Entry) :
    Prop where
  offered : ∀ e, best = some e → e ∈ l ∧ e.offered ownDistance now
  le : ∀ e ∈ l, e.offered ownDistance now → ∃ b, best = some b ∧ e.lastSeenMs ≤ b.lastSeenMs

theorem Freshest.fresher {ownDistance : UInt8} {l : List Entry} {best : Option Entry}
    (h : Freshest ownDistance now l best) (e : Entry) :
    Freshest ownDistance now (l ++ [e]) (Entry.fresher ownDistance now best e) := by
  have hold : ∀ x, best = some x → x ∈ l ++ [e] ∧ x.offered ownDistance now := fun x hx =>
    ⟨List.mem_append_left _ (h.offered x hx).1, (h.offered x hx).2⟩
  unfold Entry.fresher
  split
  -- the entry is not offered, so the best one stays
  · rename_i hno
    refine ⟨hold, fun x hx ho => ?_⟩
    rcases List.mem_append.1 hx with hx | hx
    · exact h.le x hx ho
    · obtain rfl := List.mem_singleton.1 hx
      have := UInt8.not_le.2 ho.2.2
      simp [ho.1, ho.2.1, this] at hno
  rename_i hyes
  have he : e ∈ l ++ [e] ∧ e.offered ownDistance now := by
    simp only [Bool.or_eq_true, Bool.not_eq_true', decide_eq_true_eq, not_or] at hyes
    exact ⟨by simp, by simpa using hyes.1.1, by simpa using hyes.1.2, UInt8.not_le.1 hyes.2⟩
  have hnew : ∀ x, some e = some x → x ∈ l ++ [e] ∧ x.offered ownDistance now := fun x hx =>
    Option.some.inj hx ▸ he
  cases best with
  | none =>
    refine ⟨hnew, fun x hx ho => ?_⟩
    rcases List.mem_append.1 hx with hx | hx
    · obtain ⟨b, hb, -⟩ := h.le x hx ho
      cases hb
    · obtain rfl := List.mem_singleton.1 hx
      exact ⟨x, rfl, UInt64.le_refl _⟩
  | some b =>
    dsimp only
    split
    -- the entry is offered and fresher than the best one
    · rename_i hlt
      refine ⟨hnew, fun x hx ho => ⟨e, rfl, ?_⟩⟩
      rcases List.mem_append.1 hx with hx | hx
      · obtain ⟨b', hb', hle⟩ := h.le x hx ho
        obtain rfl := Option.some.inj hb'
        exact UInt64.le_of_lt (UInt64.lt_of_le_of_lt hle hlt)
      · obtain rfl := List.mem_singleton.1 hx
        exact UInt64.le_refl _
    -- the entry is offered, but not fresher
    · rename_i hge
      refine ⟨hold, fun x hx ho => ?_⟩
      rcases List.mem_append.1 hx with hx | hx
      · exact h.le x hx ho
      · obtain rfl := List.mem_singleton.1 hx
        exact ⟨b, rfl, UInt64.not_lt.1 hge⟩

/-- The choice of the next hop looks at the whole table. -/
theorem freshest (t : NeighborTable) (ownDistance : UInt8) (now : UInt64) :
    Freshest ownDistance now t.toList (t.toList.foldl (Entry.fresher ownDistance now) none) := by
  have hfold : ∀ l : List Entry,
      Freshest ownDistance now l (l.foldl (Entry.fresher ownDistance now) none) := by
    intro l
    induction l using List.reverseRecOn with
    | nil => exact ⟨by simp, by simp⟩
    | append_singleton l e ih =>
      rw [List.foldl_append]
      exact ih.fresher e
  exact hfold t.toList

theorem selectNextHop_eq (t : NeighborTable) (ownDistance : UInt8) (now : UInt64) :
    t.selectNextHop ownDistance now =
      (t.toList.foldl (Entry.fresher ownDistance now) none).map Entry.mac := rfl

/-- **The next hop is the freshest of the eligible neighbours.** -/
theorem selectNextHop_eq_some {ownDistance : UInt8}
    (h : t.selectNextHop ownDistance now = some mac) :
    ∃ e, Eligible t ownDistance now e ∧ e.mac = mac ∧
      ∀ e', Eligible t ownDistance now e' → e'.lastSeenMs ≤ e.lastSeenMs := by
  have hbest := freshest t ownDistance now
  rw [selectNextHop_eq] at h
  obtain ⟨e, he, rfl⟩ := Option.map_eq_some_iff.1 h
  rw [he] at hbest
  obtain ⟨hmem, hv, hf, hd⟩ := hbest.offered e rfl
  refine ⟨e, ⟨hmem, hv, hf, hd⟩, rfl, fun e' he' => ?_⟩
  obtain ⟨b, hb, hle⟩ := hbest.le e' he'.mem ⟨he'.valid, he'.fresh, he'.closer⟩
  obtain rfl := Option.some.inj hb
  exact hle

/-- With an eligible neighbour there is a next hop. -/
theorem Eligible.selectNextHop {ownDistance : UInt8} {e : Entry}
    (h : Eligible t ownDistance now e) : (t.selectNextHop ownDistance now).isSome = true := by
  obtain ⟨b, hb, -⟩ := (freshest t ownDistance now).le e h.mem ⟨h.valid, h.fresh, h.closer⟩
  rw [selectNextHop_eq, hb]
  rfl

/-! ### Time -/

variable {e : Entry} {now' : UInt64}

/-- An entry that is fresh was fresh all the time since it was heard. -/
theorem stale_mono (h : e.stale now' = false) (hle : e.lastSeenMs ≤ now) (hnow : now ≤ now') :
    e.stale now = false := by
  unfold Entry.stale at h ⊢
  have hn := UInt64.toNat_lt now'
  rw [decide_eq_false_iff_not, UInt64.not_le, UInt64.lt_iff_toNat_lt] at h ⊢
  rw [UInt64.le_iff_toNat_le] at hle hnow
  have hs : (now - e.lastSeenMs).toNat = now.toNat - e.lastSeenMs.toNat :=
    UInt64.toNat_sub_of_le _ _ (UInt64.le_iff_toNat_le.2 hle)
  have hs' : (now' - e.lastSeenMs).toNat = now'.toNat - e.lastSeenMs.toNat :=
    UInt64.toNat_sub_of_le _ _ (UInt64.le_iff_toNat_le.2 (hle.trans hnow))
  omega

/-- An entry that was heard later than a fresh one is fresh. -/
theorem fresh_of_le {e' : Entry} (h : e.stale now = false) (hle : e.lastSeenMs ≤ e'.lastSeenMs)
    (hnow : e'.lastSeenMs ≤ now) : e'.stale now = false := by
  unfold Entry.stale at h ⊢
  rw [decide_eq_false_iff_not, UInt64.not_le, UInt64.lt_iff_toNat_lt] at h ⊢
  have hs : (now - e.lastSeenMs).toNat = now.toNat - e.lastSeenMs.toNat :=
    UInt64.toNat_sub_of_le _ _ (UInt64.le_trans hle hnow)
  have hs' : (now - e'.lastSeenMs).toNat = now.toNat - e'.lastSeenMs.toNat :=
    UInt64.toNat_sub_of_le _ _ hnow
  rw [UInt64.le_iff_toNat_le] at hle hnow
  omega

end NeighborTable

end LatticeMesh
