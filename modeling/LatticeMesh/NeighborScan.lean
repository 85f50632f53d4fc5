import LatticeMesh.Lib.Runs
import LatticeMesh.Neighbors

/-!
# One pass over the neighbour table instead of two

The neighbour table can be updated and then searched for the smallest distance, in two calls, or
both can be done in one pass over the slots.  Both come to the same.  The pass sees the entry that
is about to be overwritten, so the distance of that entry must not show in the result: if the entry
is fresh, the table is full of fresh entries and it is the farthest of them.

## Main definitions

* `NeighborTable.observe`, `NeighborTable.minFreshDistance` — the two calls.
* `NeighborTable.Packed` — the slots in use come first, and no neighbour has two of them.
* `NeighborTable.Call` — a call that changes a table.

## Main results

* `NeighborTable.Packed.slot_eq` — the pass chooses the slot that the first call chooses.
* `NeighborTable.minFreshDistance_isLeast` — what the second call computes.
* `NeighborTable.fused_eq_twoCalls` — **the pass is equal to the two calls on every table
  that any calls lead to.**
-/

namespace LatticeMesh

namespace NeighborTable

/-! ### The two calls -/

/-- The slot that holds the neighbour `mac`. -/
def findSlot (t : NeighborTable) (mac : Mac) : Option (Fin neighborMax) :=
  (KeyTable.find t Entry.mac mac).filter fun i => (t.get i).valid

theorem neighborMax_pos : 0 < neighborMax := by decide

/-- The first of the slots that are farthest from the master. -/
def farthestSlot (t : NeighborTable) : Fin neighborMax :=
  (List.finRange neighborMax).foldl
    (fun far i => if (t.get i).masterDistance > (t.get far).masterDistance then i else far)
    ⟨0, neighborMax_pos⟩

/-- The slot a new neighbour goes to: the first free one, else the first stale one, else the
farthest one. -/
def allocateSlot (t : NeighborTable) (nowMs : UInt64) : Fin neighborMax :=
  (KeyTable.firstSlot t fun e => !e.valid).getD
    ((KeyTable.firstSlot t fun e => e.stale nowMs).getD t.farthestSlot)

/-- Record the neighbour `mac`. -/
def observe (t : NeighborTable) (mac : Mac) (masterDistance : UInt8) (nowMs : UInt64) :
    NeighborTable :=
  t.set ((t.findSlot mac).getD (t.allocateSlot nowMs)) ⟨mac, masterDistance, true, nowMs⟩

/-- One round of the search for the smallest distance. -/
def Entry.closest (nowMs : UInt64) (best : UInt8) (e : Entry) : UInt8 :=
  if !e.valid || e.stale nowMs then best
  else if e.masterDistance < best then e.masterDistance else best

/-- The smallest distance among the fresh entries. -/
def minFreshDistance (t : NeighborTable) (nowMs : UInt64) : UInt8 :=
  t.toList.foldl (Entry.closest nowMs) 0xFF

/-- A call that changes a table. -/
inductive Call
  | observe (mac : Mac) (masterDistance : UInt8) (nowMs : UInt64)
  | observeAndMinDistance (mac : Mac) (masterDistance : UInt8) (nowMs : UInt64)
  deriving DecidableEq

/-- The table after a call. -/
def Call.apply (t : NeighborTable) : Call → NeighborTable
  | .observe mac d now => t.observe mac d now
  | .observeAndMinDistance mac d now => (t.observeAndMinDistance mac d now).2

variable {t : NeighborTable} {mac : Mac} {d : UInt8} {now : UInt64}

/-! ### The smallest fresh distance -/

/-- An entry that the search for the smallest distance looks at. -/
structure FreshIn (t : NeighborTable) (now : UInt64) (e : Entry) : Prop where
  mem : e ∈ t.toList
  valid : e.valid = true
  fresh : e.stale now = false

/-- The smallest distance of the entries that satisfy `p`, or `0xFF` if there are none. -/
structure IsLeastDistance (p : Entry → Prop) (best : UInt8) : Prop where
  le : ∀ e, p e → best ≤ e.masterDistance
  attained : best = 0xFF ∨ ∃ e, p e ∧ e.masterDistance = best

theorem le_ff (d : UInt8) : d ≤ 0xFF := UInt8.le_iff_toNat_le.2 (Nat.le_of_lt_succ d.toNat_lt)

/-- There is only one smallest distance. -/
theorem IsLeastDistance.unique {p : Entry → Prop} {a b : UInt8} (ha : IsLeastDistance p a)
    (hb : IsLeastDistance p b) : a = b := by
  have hle : ∀ {a b : UInt8}, IsLeastDistance p a → IsLeastDistance p b → a ≤ b := by
    intro a b ha hb
    rcases hb.attained with rfl | ⟨e, he, rfl⟩
    · exact le_ff a
    · exact ha.le e he
  exact UInt8.le_antisymm (hle ha hb) (hle hb ha)

/-- What the search computes. -/
theorem minFreshDistance_isLeast (t : NeighborTable) (now : UInt64) :
    IsLeastDistance (FreshIn t now) (t.minFreshDistance now) := by
  have hfold : ∀ l : List Entry, IsLeastDistance
      (fun e => e ∈ l ∧ e.valid = true ∧ e.stale now = false)
      -- by induction on the entries from the front, as the search folds them
      (l.foldl (Entry.closest now) 0xFF) := by
    intro l
    induction l using List.reverseRecOn with
    | nil => exact ⟨by simp, .inl rfl⟩
    | append_singleton l e ih =>
      rw [List.foldl_append, List.foldl_cons, List.foldl_nil]
      generalize l.foldl (Entry.closest now) 0xFF = best at ih ⊢
      have hold : best = 0xFF ∨ ∃ x, (x ∈ l ++ [e] ∧ x.valid = true ∧ x.stale now = false) ∧
          x.masterDistance = best :=
        ih.attained.imp_right fun ⟨x, hx, hd⟩ => ⟨x, ⟨List.mem_append_left _ hx.1, hx.2⟩, hd⟩
      unfold Entry.closest
      split
      · -- an entry that is not looked at
        rename_i hno
        refine ⟨fun x hx => ?_, hold⟩
        rcases List.mem_append.1 hx.1 with hm | hm
        · exact ih.le x ⟨hm, hx.2⟩
        · rw [List.mem_singleton.1 hm] at hx
          simp [hx.2.1, hx.2.2] at hno
      rename_i hyes
      rw [Bool.or_eq_true, not_or, Bool.not_eq_true', Bool.not_eq_false, Bool.not_eq_true] at hyes
      split
      -- the entry is closer than all before it
      · rename_i hlt
        refine ⟨fun x hx => ?_, .inr ⟨e, ⟨by simp, hyes⟩, rfl⟩⟩
        rcases List.mem_append.1 hx.1 with hm | hm
        · exact UInt8.le_of_lt (UInt8.lt_of_lt_of_le hlt (ih.le x ⟨hm, hx.2⟩))
        · rw [List.mem_singleton.1 hm]
          exact UInt8.le_refl _
      -- an earlier entry is as close
      · rename_i hge
        refine ⟨fun x hx => ?_, hold⟩
        rcases List.mem_append.1 hx.1 with hm | hm
        · exact ih.le x ⟨hm, hx.2⟩
        · rw [List.mem_singleton.1 hm]
          exact UInt8.not_lt.1 hge
  obtain ⟨hle, hatt⟩ := hfold t.toList
  exact ⟨fun e he => hle e ⟨he.mem, he.valid, he.fresh⟩,
    hatt.imp_right fun ⟨e, ⟨hm, hv, hf⟩, hd⟩ => ⟨e, ⟨hm, hv, hf⟩, hd⟩⟩

/-- An entry that was just heard is fresh. -/
theorem stale_self (mac : Mac) (d : UInt8) (now : UInt64) :
    (⟨mac, d, true, now⟩ : Entry).stale now = false := by
  unfold Entry.stale
  rw [UInt64.sub_self]
  decide

/-! ### The slot that is chosen -/

/-- The slots in use come first, and no neighbour has two of them. -/
structure Packed (t : NeighborTable) : Prop where
  distinct : Distinct t
  first : ∀ i j, i ≤ j → (t.get j).valid = true → (t.get i).valid = true

theorem packed_empty : Packed empty := by
  refine ⟨distinct_empty, fun i j _ hj => ?_⟩
  rw [empty, List.Vector.get_replicate] at hj
  cases hj

/-- The slot that holds a neighbour is found. -/
theorem Packed.findSlot_eq (h : Packed t) {i : Fin neighborMax} (hv : (t.get i).valid = true)
    (hm : (t.get i).mac = mac) : t.findSlot mac = some i := by
  unfold findSlot
  cases hf : KeyTable.find t Entry.mac mac with
  | none => exact absurd hm (KeyTable.find_eq_none.1 hf i)
  | some k =>
    -- the first slot with this address lies no later, so it is in use as well
    have hk : (t.get k).valid = true := h.first k i (KeyTable.find_le hf hm) hv
    rw [Option.filter_some_pos (p := fun i => (t.get i).valid) hk]
    exact congrArg some (h.distinct k i hk hv ((KeyTable.find_key hf).trans hm.symm))

theorem findSlot_eq_some {i : Fin neighborMax} (h : t.findSlot mac = some i) :
    (t.get i).valid = true ∧ (t.get i).mac = mac := by
  obtain ⟨hf, hv⟩ := Option.filter_eq_some_iff.1 h
  exact ⟨hv, KeyTable.find_key hf⟩

theorem Packed.findSlot_eq_none (h : Packed t) (hn : t.findSlot mac = none) (i : Fin neighborMax)
    (hv : (t.get i).valid = true) : (t.get i).mac ≠ mac := by
  intro hm
  rw [h.findSlot_eq hv hm] at hn
  cases hn

/-- The first free slot that the pass comes across. -/
theorem foldl_firstInvalidIdx (l : List (Fin neighborMax)) (a : Scan) :
    (l.foldl (Scan.round t mac now) a).firstInvalidIdx =
      a.firstInvalidIdx.or (l.find? fun i => !(t.get i).valid) := by
  induction l generalizing a with
  | nil => simp
  | cons i l ih =>
    have hround : (Scan.round t mac now a i).firstInvalidIdx =
        if (t.get i).valid then a.firstInvalidIdx else a.firstInvalidIdx.or (some i) := by
      unfold Scan.round
      by_cases hv : (t.get i).valid = true
      · simp only [hv, Bool.not_true, Bool.false_eq_true, if_false, if_true]
        split_ifs <;> rfl
      · simp [hv]
    rw [List.foldl_cons, ih, hround]
    by_cases hv : (t.get i).valid = true
    · simp [hv]
    · simp [hv]

/-- The first stale slot that the pass comes across, in a table full of other neighbours. -/
theorem foldl_firstStaleIdx (hfull : ∀ i, (t.get i).valid = true ∧ (t.get i).mac ≠ mac)
    (l : List (Fin neighborMax)) (a : Scan) :
    (l.foldl (Scan.round t mac now) a).firstStaleIdx =
      a.firstStaleIdx.or (l.find? fun i => (t.get i).stale now) := by
  induction l generalizing a with
  | nil => simp
  | cons i l ih =>
    have hround : (Scan.round t mac now a i).firstStaleIdx =
        if (t.get i).stale now then a.firstStaleIdx.or (some i) else a.firstStaleIdx := by
      unfold Scan.round
      simp only [(hfull i).1, (hfull i).2, Bool.not_true, Bool.false_eq_true, if_false]
      by_cases hs : (t.get i).stale now = true
      · simp only [hs, if_true]
        split_ifs <;> rfl
      · simp only [hs, Bool.false_eq_true, if_false]
        split_ifs <;> rfl
    rw [List.foldl_cons, ih, hround]
    by_cases hs : (t.get i).stale now = true
    · simp [hs]
    · simp [hs]

/-- The farthest slot that the pass comes across, in a table full of other neighbours. -/
theorem foldl_farthestIdx (hfull : ∀ i, (t.get i).valid = true ∧ (t.get i).mac ≠ mac)
    (l : List (Fin neighborMax)) {a : Scan} {far : Fin neighborMax}
    (hf : a.farthestIdx = some far) (hd : a.farthestDistance = (t.get far).masterDistance) :
    (l.foldl (Scan.round t mac now) a).farthestIdx =
      some (l.foldl (fun far i =>
        if (t.get i).masterDistance > (t.get far).masterDistance then i else far) far) := by
  induction l generalizing a far with
  | nil => exact hf
  | cons i l ih =>
    rw [List.foldl_cons, List.foldl_cons]
    have hround : (Scan.round t mac now a i).farthestIdx =
          some (if (t.get i).masterDistance > (t.get far).masterDistance then i else far) ∧
        (Scan.round t mac now a i).farthestDistance = (t.get
          (if (t.get i).masterDistance > (t.get far).masterDistance then i else far)).masterDistance
        := by
      unfold Scan.round
      simp only [(hfull i).1, (hfull i).2, Bool.not_true, Bool.false_eq_true, if_false]
      by_cases hlt : (t.get i).masterDistance > (t.get far).masterDistance
      · by_cases hs : (t.get i).stale now = true
        · simp [hs, hf, hd, hlt]
        · by_cases hb : (t.get i).masterDistance < a.bestOther <;> simp [hs, hb, hf, hd, hlt]
      · by_cases hs : (t.get i).stale now = true
        · simp [hs, hf, hd, hlt]
        · by_cases hb : (t.get i).masterDistance < a.bestOther <;> simp [hs, hb, hf, hd, hlt]
    exact ih hround.1 hround.2

/-- In a table full of other neighbours the pass finds the farthest slot. -/
theorem farthestIdx_eq (hfull : ∀ i, (t.get i).valid = true ∧ (t.get i).mac ≠ mac) :
    ((List.finRange neighborMax).foldl (Scan.round t mac now) {}).farthestIdx =
      some t.farthestSlot := by
  obtain ⟨l, hl⟩ : ∃ l, List.finRange neighborMax = ⟨0, by decide⟩ :: l := ⟨_, rfl⟩
  unfold farthestSlot
  rw [hl, List.foldl_cons, List.foldl_cons, if_neg (UInt8.lt_irrefl _)]
  refine foldl_farthestIdx hfull l ?_ ?_
  · unfold Scan.round
    simp only [(hfull _).1, (hfull _).2, Bool.not_true, Bool.false_eq_true, if_false]
    split_ifs <;> simp_all
  · unfold Scan.round
    simp only [(hfull _).1, (hfull _).2, Bool.not_true, Bool.false_eq_true, if_false]
    split_ifs <;> simp_all

/-- What the first call knows of the slot it chooses. -/
inductive Chosen (t : NeighborTable) (mac : Mac) (now : UInt64) (i : Fin neighborMax) : Prop
  | known (hv : (t.get i).valid = true) (hm : (t.get i).mac = mac)
  | free (hv : (t.get i).valid = false) (hlt : ∀ j < i, (t.get j).valid = true)
  | stale (hs : (t.get i).stale now = true) (hfull : ∀ j, (t.get j).valid = true)
  | farthest (hfull : ∀ j, (t.get j).valid = true) (hfresh : ∀ j, (t.get j).stale now = false)
      (hle : ∀ j, (t.get j).masterDistance ≤ (t.get i).masterDistance)

/-- No slot is farther than the farthest one. -/
theorem le_farthestSlot (t : NeighborTable) (j : Fin neighborMax) :
    (t.get j).masterDistance ≤ (t.get t.farthestSlot).masterDistance := by
  have hfold : ∀ (l : List (Fin neighborMax)) (far : Fin neighborMax),
      let r := l.foldl (fun far i =>
        if (t.get i).masterDistance > (t.get far).masterDistance then i else far) far
      (t.get far).masterDistance ≤ (t.get r).masterDistance ∧
        ∀ i ∈ l, (t.get i).masterDistance ≤ (t.get r).masterDistance := by
    intro l
    induction l with
    | nil => exact fun far => ⟨UInt8.le_refl _, by simp⟩
    | cons i l ih =>
      intro far
      obtain ⟨hfar, hl⟩ := ih
        (if (t.get i).masterDistance > (t.get far).masterDistance then i else far)
      rw [List.foldl_cons]
      by_cases hlt : (t.get i).masterDistance > (t.get far).masterDistance
      · rw [if_pos hlt] at hfar hl ⊢
        refine ⟨UInt8.le_trans (UInt8.le_of_lt hlt) hfar, fun k hk => ?_⟩
        rcases List.mem_cons.1 hk with rfl | hk
        · exact hfar
        · exact hl k hk
      · rw [if_neg hlt] at hfar hl ⊢
        refine ⟨hfar, fun k hk => ?_⟩
        rcases List.mem_cons.1 hk with rfl | hk
        · exact UInt8.le_trans (UInt8.not_lt.1 hlt) hfar
        · exact hl k hk
  exact (hfold (List.finRange neighborMax) ⟨0, by decide⟩).2 j (List.mem_finRange j)

/-- The slot that the first call chooses. -/
theorem chosen (t : NeighborTable) (mac : Mac) (now : UInt64) :
    Chosen t mac now ((t.findSlot mac).getD (t.allocateSlot now)) := by
  cases hf : t.findSlot mac with
  | some i =>
    obtain ⟨hv, hm⟩ := findSlot_eq_some hf
    exact .known hv hm
  | none =>
    rw [Option.getD_none]
    unfold allocateSlot
    cases hfree : KeyTable.firstSlot t fun e => !e.valid with
    | some i =>
      have hv : (t.get i).valid = false := by simpa using KeyTable.firstSlot_some hfree
      refine .free hv fun j hj => ?_
      by_contra hno
      have hle := KeyTable.firstSlot_le hfree (j := j) (by simpa using hno)
      exact absurd hle (not_le.2 hj)
    | none =>
      have hfull : ∀ j, (t.get j).valid = true := by
        simpa using KeyTable.firstSlot_eq_none.1 hfree
      rw [Option.getD_none]
      cases hstale : KeyTable.firstSlot t fun e => e.stale now with
      | some i => exact .stale (KeyTable.firstSlot_some hstale) hfull
      | none => exact .farthest hfull (KeyTable.firstSlot_eq_none.1 hstale) t.le_farthestSlot

/-- **The pass chooses the slot that the first call chooses.** -/
theorem Packed.slot_eq (h : Packed t) (mac : Mac) (now : UInt64) :
    let a := (List.finRange neighborMax).foldl (Scan.round t mac now) {}
    (a.matchIdx.or (a.firstInvalidIdx.or (a.firstStaleIdx.or a.farthestIdx))).getD
      ⟨0, by decide⟩ = (t.findSlot mac).getD (t.allocateSlot now) := by
  intro a
  have hs := scanned t mac now
  -- the slot of a known neighbour is the same in both
  have hmatch : a.matchIdx = t.findSlot mac := by
    cases ha : a.matchIdx with
    | some i =>
      obtain ⟨hv, hm⟩ := hs.matched i ha
      exact (h.findSlot_eq hv hm).symm
    | none =>
      cases hf : t.findSlot mac with
      | none => rfl
      | some i =>
        obtain ⟨hv, hm⟩ := findSlot_eq_some hf
        have hsome := hs.isSome i (List.mem_finRange i) hv hm
        rw [show (List.foldl (Scan.round t mac now) {} (List.finRange neighborMax)).matchIdx = none
          from ha] at hsome
        cases hsome
  rw [hmatch]
  cases hf : t.findSlot mac with
  | some i => rfl
  -- a new neighbour: the first free slot, else the first stale one, else the farthest
  | none =>
    have hfree : a.firstInvalidIdx = KeyTable.firstSlot t fun e => !e.valid :=
      foldl_firstInvalidIdx _ _
    rw [Option.getD_none, Option.none_or, hfree]
    unfold allocateSlot
    cases hfirst : KeyTable.firstSlot t fun e => !e.valid with
    | some i => rfl
    | none =>
      have hfull : ∀ i, (t.get i).valid = true ∧ (t.get i).mac ≠ mac := by
        intro i
        have hv : (t.get i).valid = true := by simpa using KeyTable.firstSlot_eq_none.1 hfirst i
        exact ⟨hv, h.findSlot_eq_none hf i hv⟩
      have hstale : a.firstStaleIdx = KeyTable.firstSlot t fun e => e.stale now :=
        foldl_firstStaleIdx hfull _ _
      rw [Option.none_or, hstale, Option.getD_none]
      cases KeyTable.firstSlot t fun e => e.stale now with
      | some i => rfl
      | none =>
        rw [Option.none_or, show a.farthestIdx = some t.farthestSlot from farthestIdx_eq hfull]
        rfl

/-- The pass leaves the table that the first call leaves. -/
theorem Packed.observeAndMinDistance_snd (h : Packed t) (mac : Mac) (d : UInt8) (now : UInt64) :
    (t.observeAndMinDistance mac d now).2 = t.observe mac d now := by
  unfold observe
  rw [← h.slot_eq mac now]
  rfl

/-! ### Both calls -/

/-- The entries after a neighbour was heard. -/
theorem get_observe (t : NeighborTable) (mac : Mac) (d : UInt8) (now : UInt64)
    (i : Fin neighborMax) :
    (t.observe mac d now).get i = if i = (t.findSlot mac).getD (t.allocateSlot now)
      then ⟨mac, d, true, now⟩ else t.get i := by
  unfold observe
  split
  · rename_i hi
    rw [hi, List.Vector.get_set_same]
  · rename_i hi
    exact List.Vector.get_set_of_ne (Ne.symm hi) _

/-- The slots in use stay packed. -/
theorem Packed.observe (h : Packed t) (mac : Mac) (d : UInt8) (now : UInt64) :
    Packed (t.observe mac d now) := by
  refine ⟨?_, fun i j hij hj => ?_⟩
  · rw [← h.observeAndMinDistance_snd]
    exact (observed h.distinct mac d now).distinct
  rw [get_observe] at hj ⊢
  have hchosen := chosen t mac now
  generalize (t.findSlot mac).getD (t.allocateSlot now) = slot at hj hchosen ⊢
  split
  · rfl
  rename_i hi
  by_cases hjs : j = slot
  · -- the slots before the one that is written were in use
    subst hjs
    cases hchosen with
    | known hv => exact h.first i j hij hv
    | free _ hlt => exact hlt i (lt_of_le_of_ne hij hi)
    | stale _ hfull => exact hfull i
    | farthest hfull => exact hfull i
  · rw [if_neg hjs] at hj
    exact h.first i j hij hj

/-- Of the entries in a table full of fresh neighbours, one that is no farther is left when the
farthest one is overwritten. -/
theorem exists_fresh_observe {e : Entry} (he : Rival t mac now e) :
    ∃ e', FreshIn (t.observe mac d now) now e' ∧ e'.masterDistance ≤ e.masterDistance := by
  obtain ⟨i, rfl⟩ := (List.Vector.mem_iff_get _ _).1 he.mem
  have hchosen := chosen t mac now
  have hget := get_observe t mac d now
  generalize (t.findSlot mac).getD (t.allocateSlot now) = slot at hchosen hget
  by_cases hi : i = slot
  · subst hi
    cases hchosen with
    | known _ hm => exact absurd hm he.ne
    | free hv => exact absurd he.valid (by simp [hv])
    | stale hs => exact absurd hs (by simp [he.fresh])
    | farthest hfull hfresh hle =>
      have hmany : Nontrivial (Fin neighborMax) := inferInstanceAs (Nontrivial (Fin 8))
      obtain ⟨j, hj⟩ : ∃ j : Fin neighborMax, j ≠ i := exists_ne i
      have hgetj := hget j
      rw [if_neg hj] at hgetj
      refine ⟨_, ⟨List.Vector.get_mem j _, ?_, ?_⟩, ?_⟩
      · rw [hgetj]
        exact hfull j
      · rw [hgetj]
        exact hfresh j
      · rw [hgetj]
        exact hle j
  -- the entry itself is left
  · have hgeti := hget i
    rw [if_neg hi] at hgeti
    refine ⟨_, ⟨List.Vector.get_mem i _, ?_, ?_⟩, ?_⟩
    · rw [hgeti]
      exact he.valid
    · rw [hgeti]
      exact he.fresh
    · rw [hgeti]
      exact UInt8.le_refl _

/-- The pass returns the smallest fresh distance of the table that it leaves. -/
theorem Packed.observeAndMinDistance_isLeast (h : Packed t) (mac : Mac) (d : UInt8) (now : UInt64) :
    IsLeastDistance (FreshIn (t.observe mac d now) now) (t.observeAndMinDistance mac d now).1 := by
  have hobs := observed h.distinct mac d now
  have hsnd := h.observeAndMinDistance_snd mac d now
  have hle : ∀ e, FreshIn (t.observe mac d now) now e →
      (t.observeAndMinDistance mac d now).1 ≤ e.masterDistance := by
    intro e he
    rcases hobs.entries e (by rw [hsnd]; exact he.mem) he.valid with rfl | ⟨hmem, hne⟩
    · exact hobs.le
    · exact hobs.le_rival e ⟨hmem, he.valid, hne, he.fresh⟩
  refine ⟨hle, .inr ?_⟩
  rcases hobs.attained with hd | ⟨e, he, hd⟩
  · exact ⟨⟨mac, d, true, now⟩, ⟨by rw [← hsnd]; exact hobs.heard, rfl, stale_self mac d now⟩,
      hd.symm⟩
  · obtain ⟨e', he', hle'⟩ := exists_fresh_observe (d := d) he
    exact ⟨e', he', UInt8.le_antisymm (hd ▸ hle') (hle e' he')⟩

/-- On a packed table the pass is equal to the two calls. -/
theorem Packed.observeAndMinDistance_eq (h : Packed t) (mac : Mac) (d : UInt8) (now : UInt64) :
    t.observeAndMinDistance mac d now =
      ((t.observe mac d now).minFreshDistance now, t.observe mac d now) := by
  refine Prod.ext ?_ (h.observeAndMinDistance_snd mac d now)
  exact (h.observeAndMinDistance_isLeast mac d now).unique (minFreshDistance_isLeast _ now)

/-- Every call keeps the slots in use packed. -/
theorem Packed.apply (h : Packed t) (c : Call) : Packed (c.apply t) := by
  cases c with
  | observe mac d now => exact h.observe mac d now
  | observeAndMinDistance mac d now =>
    show Packed (t.observeAndMinDistance mac d now).2
    rw [h.observeAndMinDistance_snd]
    exact h.observe mac d now

/-- **The pass is equal to the two calls on every table that any calls lead to.** -/
theorem fused_eq_twoCalls (calls : List Call) (mac : Mac) (d : UInt8) (now : UInt64) :
    let t := Runs.run Call.apply empty calls
    t.observeAndMinDistance mac d now =
      ((t.observe mac d now).minFreshDistance now, t.observe mac d now) := by
  have hpacked : Packed (Runs.run Call.apply empty calls) :=
    Runs.run_invariant (C := fun _ _ => True) packed_empty (fun _ c h _ => h.apply c)
      (Runs.along_of_forall (fun _ _ => trivial) _ _)
  exact hpacked.observeAndMinDistance_eq mac d now

end NeighborTable

end LatticeMesh
