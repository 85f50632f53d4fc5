import LatticeMesh.Lib.KeyTable

/-!
# A table of slots as a map

Tables whose entries carry a flag that tells the slots in use from the free ones.  The search for a
key does not look at the flag: it takes the first slot that has the key, and the flag of that slot
is tested afterwards.  Free slots have a key too, so this is only right because of where the free
slots are: behind the slots in use.

## Main definitions

* `KeyTable.holder` — the slot of a key, found without the flag, which is tested afterwards.
* `KeyTable.scanUsed` — the slot of a key, searched among the slots in use alone.
* `KeyTable.Packed` — the slots in use come first, and no two of them have one key.
* `KeyTable.slotFor` — where an entry goes: to the slot of its key, to a free slot, or over another
  entry.
* `KeyTable.evicted` — the key that an entry drives out.
* `KeyTable.entryAt`, `KeyTable.keys` — the table as a map, and the keys of the map.

## Main results

* `KeyTable.Packed.holder_eq` — **in a packed table the two searches agree, on every key.**
* `KeyTable.Packed.set`, `KeyTable.Packed.insert` — an insertion keeps a table packed.
* `KeyTable.Packed.entryAt_insert` — what an insertion does to the map.
* `KeyTable.Packed.nodup_keys`, `KeyTable.length_keys_le` — the map has no more keys than slots.
-/

namespace KeyTable

variable {κ ε : Type*} {n : ℕ} [DecidableEq κ]

/-- The slot that holds the key: the first slot with the key, if that one is in use. -/
def holder (t : List.Vector ε n) (key : ε → κ) (used : ε → Bool) (k : κ) : Option (Fin n) :=
  (find t key k).filter fun i => used (t.get i)

/-- The slot that holds the key, searched among the slots in use alone. -/
def scanUsed (t : List.Vector ε n) (key : ε → κ) (used : ε → Bool) (k : κ) : Option (Fin n) :=
  firstSlot t fun e => used e && decide (key e = k)

/-- The slot an entry with the key `k` goes to: the one that holds the key, else the first free one,
else `other`. -/
def slotFor (t : List.Vector ε n) (key : ε → κ) (used : ε → Bool) (k : κ) (other : Fin n) : Fin n :=
  (holder t key used k).getD ((firstSlot t fun e => !used e).getD other)

/-- The key that an entry with the key `k` drives out: that of `other`, if the key `k` has no slot
and no slot is free. -/
def evicted (t : List.Vector ε n) (key : ε → κ) (used : ε → Bool) (k : κ) (other : Fin n) :
    Option κ :=
  if holder t key used k = none ∧ (firstSlot t fun e => !used e) = none then
    some (key (t.get other))
  else none

/-- The entry of a key, if it has one. -/
def entryAt (t : List.Vector ε n) (key : ε → κ) (used : ε → Bool) (k : κ) : Option ε :=
  (holder t key used k).map t.get

/-- The keys of the slots in use. -/
def keys (t : List.Vector ε n) (key : ε → κ) (used : ε → Bool) : List κ :=
  ((List.finRange n).filter fun i => used (t.get i)).map fun i => key (t.get i)

/-- The slots in use come first, and no two of them have one key. -/
structure Packed (t : List.Vector ε n) (key : ε → κ) (used : ε → Bool) : Prop where
  used_of_le : ∀ i j, i ≤ j → used (t.get j) = true → used (t.get i) = true
  key_inj : ∀ i j, used (t.get i) = true → used (t.get j) = true →
    key (t.get i) = key (t.get j) → i = j

variable {t : List.Vector ε n} {key : ε → κ} {used : ε → Bool} {k : κ} {e : ε} {i : Fin n}

omit [DecidableEq κ] in
/-- A table without a slot in use. -/
theorem packed_of_unused (h : ∀ i, used (t.get i) = false) : Packed t key used := by
  constructor
  · intro i j _ hj
    rw [h j] at hj
    cases hj
  · intro i j hi
    rw [h i] at hi
    cases hi

/-- A slot that was found by the scan is in use and holds the key. -/
theorem scanUsed_some (h : scanUsed t key used k = some i) :
    used (t.get i) = true ∧ key (t.get i) = k := by
  simpa using firstSlot_some h

theorem scanUsed_eq_none :
    scanUsed t key used k = none ↔ ∀ i, used (t.get i) = true → key (t.get i) ≠ k := by
  simp [scanUsed, firstSlot_eq_none]

theorem holder_some (h : holder t key used k = some i) :
    used (t.get i) = true ∧ key (t.get i) = k := by
  obtain ⟨hf, hu⟩ := Option.filter_eq_some_iff.1 h
  exact ⟨hu, find_key hf⟩

/-- The slot in use that has the key holds it. -/
theorem Packed.holder_eq_some (h : Packed t key used) :
    holder t key used k = some i ↔ used (t.get i) = true ∧ key (t.get i) = k := by
  constructor
  · exact holder_some
  · rintro ⟨hu, hk⟩
    cases hf : find t key k with
    | none => exact absurd hk (find_eq_none.1 hf i)
    | some j =>
      -- the slot that is found comes first, so it is in use too, and then it is this one
      have hj := find_key hf
      have huj := h.used_of_le j i (find_le hf hk) hu
      obtain rfl := h.key_inj j i huj hu (hj.trans hk.symm)
      rw [holder, hf, Option.filter_some, if_pos huj]

/-- A key is not held exactly when no slot in use has it. -/
theorem Packed.holder_eq_none (h : Packed t key used) :
    holder t key used k = none ↔ ∀ i, used (t.get i) = true → key (t.get i) ≠ k := by
  constructor
  · intro hn i hu hk
    rw [h.holder_eq_some.2 ⟨hu, hk⟩] at hn
    cases hn
  · intro hall
    cases hh : holder t key used k with
    | none => rfl
    | some i =>
      obtain ⟨hu, hk⟩ := holder_some hh
      exact absurd hk (hall i hu)

/-- **In a packed table the two searches agree, on every key.** -/
theorem Packed.holder_eq (h : Packed t key used) (k : κ) :
    holder t key used k = scanUsed t key used k := by
  cases hs : scanUsed t key used k with
  | none => exact h.holder_eq_none.2 (scanUsed_eq_none.1 hs)
  | some i => exact h.holder_eq_some.2 (scanUsed_some hs)

/-- The first free slot lies behind slots in use alone. -/
theorem used_of_lt_free {a : Fin n} (ha : (firstSlot t fun e => !used e) = some a) :
    ∀ i < a, used (t.get i) = true := by
  intro i hi
  by_contra hu
  exact absurd hi (not_lt.2 (firstSlot_le ha (by simpa using hu)))

theorem used_of_full (h : (firstSlot t fun e => !used e) = none) (i : Fin n) :
    used (t.get i) = true := by
  simpa using firstSlot_eq_none.1 h i

/-- The slots of a table after one of them was overwritten. -/
theorem get_set (t : List.Vector ε n) (i j : Fin n) (e : ε) :
    (t.set i e).get j = if j = i then e else t.get j := by
  by_cases hj : j = i
  · rw [hj, if_pos rfl, List.Vector.get_set_same]
  · rw [if_neg hj, List.Vector.get_set_of_ne (Ne.symm hj)]

omit [DecidableEq κ] in
/-- Overwriting a slot with an entry in use, whose key no other slot in use has. -/
theorem Packed.set (h : Packed t key used) (he : used e = true)
    (hi : ∀ k < i, used (t.get k) = true)
    (hk : ∀ j, used (t.get j) = true → key (t.get j) = key e → j = i) :
    Packed (t.set i e) key used := by
  constructor
  · intro k j hkj hj
    rw [get_set] at hj ⊢
    split
    · exact he
    · split at hj
      · rename_i hne heq
        exact hi k (lt_of_le_of_ne (heq ▸ hkj) hne)
      · exact h.used_of_le k j hkj hj
  · intro a b ha hb hab
    rw [get_set] at ha hb hab
    rw [get_set] at hab
    by_cases hai : a = i <;> by_cases hbi : b = i
    · rw [hai, hbi]
    · rw [if_pos hai, if_neg hbi] at hab
      rw [if_neg hbi] at hb
      rw [hai, hk b hb hab.symm]
    · rw [if_neg hai, if_pos hbi] at hab
      rw [if_neg hai] at ha
      rw [hbi, hk a ha hab]
    · rw [if_neg hai, if_neg hbi] at hab
      rw [if_neg hai] at ha
      rw [if_neg hbi] at hb
      exact h.key_inj a b ha hb hab

/-- Where an entry goes, all slots before are in use. -/
theorem Packed.used_of_lt_slotFor (h : Packed t key used) (k : κ) (other : Fin n) :
    ∀ i < slotFor t key used k other, used (t.get i) = true := by
  intro i hi
  unfold slotFor at hi
  cases hh : holder t key used k with
  | some j =>
    rw [hh] at hi
    exact h.used_of_le i j (le_of_lt hi) (holder_some hh).1
  | none =>
    rw [hh] at hi
    cases hf : firstSlot t fun e => !used e with
    | some a =>
      rw [hf] at hi
      exact used_of_lt_free hf i hi
    | none => exact used_of_full hf i

/-- Where an entry goes, there is no other slot in use with its key. -/
theorem Packed.eq_slotFor (h : Packed t key used) {j : Fin n} (hu : used (t.get j) = true)
    (hk : key (t.get j) = k) (other : Fin n) : j = slotFor t key used k other := by
  rw [slotFor, h.holder_eq_some.2 ⟨hu, hk⟩]
  rfl

/-- An insertion keeps a table packed. -/
theorem Packed.insert (h : Packed t key used) (hu : used e = true) (hk : key e = k)
    (other : Fin n) : Packed (t.set (slotFor t key used k other) e) key used := by
  refine h.set hu (h.used_of_lt_slotFor k other) ?_
  intro j hj hje
  exact h.eq_slotFor hj (hje.trans hk) other

/-! ### The map -/

theorem Packed.entryAt_eq_some (h : Packed t key used) :
    entryAt t key used k = some e ↔
      ∃ i, used (t.get i) = true ∧ key (t.get i) = k ∧ t.get i = e := by
  unfold entryAt
  rw [Option.map_eq_some_iff]
  constructor
  · rintro ⟨i, hi, rfl⟩
    obtain ⟨hu, hk⟩ := holder_some hi
    exact ⟨i, hu, hk, rfl⟩
  · rintro ⟨i, hu, hk, rfl⟩
    exact ⟨i, h.holder_eq_some.2 ⟨hu, hk⟩, rfl⟩

theorem Packed.entryAt_eq_none (h : Packed t key used) :
    entryAt t key used k = none ↔ ∀ i, used (t.get i) = true → key (t.get i) ≠ k := by
  rw [entryAt, Option.map_eq_none_iff]
  exact h.holder_eq_none

/-- The map after a slot was overwritten. -/
theorem Packed.entryAt_set (h : Packed t key used) (h' : Packed (t.set i e) key used)
    (he : used e = true) (m : κ) :
    entryAt (t.set i e) key used m = if m = key e then some e
      else if used (t.get i) = true ∧ key (t.get i) = m then none else entryAt t key used m := by
  by_cases hm : m = key e
  · rw [if_pos hm]
    refine h'.entryAt_eq_some.2 ⟨i, ?_⟩
    rw [get_set, if_pos rfl]
    exact ⟨he, hm.symm, rfl⟩
  rw [if_neg hm]
  split
  · rename_i hi
    refine h'.entryAt_eq_none.2 ?_
    intro j hj hjm
    rw [get_set] at hj hjm
    split at hj
    · rename_i hji
      rw [if_pos hji] at hjm
      exact hm hjm.symm
    · rename_i hji
      rw [if_neg hji] at hjm
      exact hji (h.key_inj j i hj hi.1 (hjm.trans hi.2.symm))
  · rename_i hi
    cases hs : entryAt t key used m with
    | none =>
      refine h'.entryAt_eq_none.2 ?_
      intro j hj hjm
      rw [get_set] at hj hjm
      split at hj
      · rename_i hji
        rw [if_pos hji] at hjm
        exact hm hjm.symm
      · rename_i hji
        rw [if_neg hji] at hjm
        exact h.entryAt_eq_none.1 hs j hj hjm
    | some f =>
      obtain ⟨j, hj, hjm, rfl⟩ := h.entryAt_eq_some.1 hs
      have hji : j ≠ i := by
        rintro rfl
        exact hi ⟨hj, hjm⟩
      refine h'.entryAt_eq_some.2 ⟨j, ?_⟩
      rw [get_set, if_neg hji]
      exact ⟨hj, hjm, rfl⟩

/-- What an insertion does to the map: the new entry is there, and the evicted key is not. -/
theorem Packed.entryAt_insert (h : Packed t key used) (hu : used e = true) (hk : key e = k)
    (other : Fin n) (m : κ) :
    entryAt (t.set (slotFor t key used k other) e) key used m = if m = k then some e
      else if evicted t key used k other = some m then none else entryAt t key used m := by
  rw [h.entryAt_set (h.insert hu hk other) hu, hk]
  by_cases hm : m = k
  · rw [if_pos hm, if_pos hm]
  rw [if_neg hm, if_neg hm]
  refine if_congr ?_ rfl rfl
  unfold slotFor evicted
  cases hh : holder t key used k with
  | some j =>
    -- the slot of the key itself: no other key is driven out
    have hj := (holder_some hh).2
    simp only [Option.getD_some, reduceCtorEq, false_and, if_false, iff_false, not_and]
    exact fun _ hjm => hm (hjm.symm.trans hj)
  | none =>
    cases hf : firstSlot t fun e => !used e with
    | some a =>
      have ha : used (t.get a) = false := by simpa using firstSlot_some hf
      simp [ha]
    | none => simp [used_of_full hf other]

/-! ### The keys of the map -/

omit [DecidableEq κ] in
theorem mem_keys {m : κ} :
    m ∈ keys t key used ↔ ∃ i, used (t.get i) = true ∧ key (t.get i) = m := by
  simp [keys]

omit [DecidableEq κ] in
/-- No key occurs twice. -/
theorem Packed.nodup_keys (h : Packed t key used) : (keys t key used).Nodup := by
  refine List.Nodup.map_on ?_ ((List.nodup_finRange n).filter _)
  intro i hi j hj hij
  exact h.key_inj i j (List.mem_filter.1 hi).2 (List.mem_filter.1 hj).2 hij

omit [DecidableEq κ] in
/-- There are no more keys than slots. -/
theorem length_keys_le (t : List.Vector ε n) (key : ε → κ) (used : ε → Bool) :
    (keys t key used).length ≤ n := by
  rw [keys, List.length_map]
  exact (List.length_filter_le _ _).trans (le_of_eq List.length_finRange)

omit [DecidableEq κ] in
/-- A table without a free slot has as many keys as slots. -/
theorem length_keys_of_full (h : (firstSlot t fun e => !used e) = none) :
    (keys t key used).length = n := by
  rw [keys, List.length_map, List.filter_eq_self.2 fun i _ => used_of_full h i]
  exact List.length_finRange

/-- The keys are those that the map has an entry for. -/
theorem Packed.mem_keys_iff (h : Packed t key used) {m : κ} :
    m ∈ keys t key used ↔ ∃ e, entryAt t key used m = some e := by
  rw [mem_keys]
  constructor
  · rintro ⟨i, hu, hk⟩
    exact ⟨t.get i, h.entryAt_eq_some.2 ⟨i, hu, hk, rfl⟩⟩
  · rintro ⟨e, he⟩
    obtain ⟨i, hu, hk, -⟩ := h.entryAt_eq_some.1 he
    exact ⟨i, hu, hk⟩

/-- A key is driven out only by a key that is not there, from a table without a free slot. -/
theorem evicted_eq_some {other : Fin n} {m : κ} (h : evicted t key used k other = some m) :
    holder t key used k = none ∧ (firstSlot t fun e => !used e) = none ∧ key (t.get other) = m := by
  unfold evicted at h
  split at h
  · rename_i hno
    exact ⟨hno.1, hno.2, Option.some.inj h⟩
  · cases h

end KeyTable
