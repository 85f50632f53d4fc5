import LatticeMesh.Reachable

/-!
# The counters of a device

How the epoch and the sequence number move: each draw moves them up, and an epoch that was drawn
leaves an event in the history, so the history bounds the epochs of a whole life.

## Main definitions

* `SameCounters` — the counters and the stored epoch did not move.
* `EpochBound` — the epochs in use and in flash are bounded by the draws of the history.

## Main results

* `Effect.counters` — a change leaves the counters alone, or draws one number.
* `EpochBound.stamp_drawn` — **a draw moves the counters up, short of the last epoch.**
-/

namespace LatticeMesh

open EffectSpec Relation

variable {w : World} {s₀ s t : Node} {i : Input}

/-- The counters and the stored epoch are the same. -/
structure SameCounters (s t : Node) : Prop where
  bootEpoch : t.txState.bootEpoch = s.txState.bootEpoch
  txSeqNum : t.txState.txSeqNum = s.txState.txSeqNum
  stored : t.nvs.bootEpoch = s.nvs.bootEpoch
  devFlag : t.nvs.devFlag = s.nvs.devFlag

theorem SameCounters.refl (s : Node) : SameCounters s s := ⟨rfl, rfl, rfl, rfl⟩

theorem SameCounters.stamp (h : SameCounters s t) : t.txState.stamp = s.txState.stamp := by
  rw [OutboundSequenceState.stamp, h.bootEpoch, h.txSeqNum, OutboundSequenceState.stamp]

theorem SameCounters.saved {op : NvsOp} (hb : (op.apply s.nvs).bootEpoch = s.nvs.bootEpoch)
    (hd : (op.apply s.nvs).devFlag = s.nvs.devFlag) : SameCounters s (s.saved op) := by
  unfold Node.saved
  split
  · exact .refl s
  · exact ⟨rfl, rfl, hb, hd⟩

/-- A change leaves the counters alone, draws one number, or wipes the flash. -/
theorem Effect.counters (h : Effect w s₀ i s t) :
    SameCounters s t ∨
      SameCounters s.drawn t ∧ epochDraws t.trace = epochDraws s.drawn.trace ∨
      i = .resetButton ∧ t.txState = s.txState ∧ t.nvs = {} := by
  cases h with
  | quiet h =>
    rw [← h]
    exact .inl ⟨rfl, rfl, rfl, rfl⟩
  | draw => exact .inr (.inl ⟨.refl _, rfl⟩)
  | build => exact .inr (.inl ⟨⟨rfl, rfl, rfl, rfl⟩, by simp [Node.emit, epochDraws_cons,
      Event.isEpoch]⟩)
  | wipe hi => exact .inr (.inr ⟨hi, rfl, rfl⟩)
  | setting op h =>
    refine .inl ⟨rfl, rfl, ?_, ?_⟩
    · cases op <;> first | rfl | cases h
    · cases op <;> first | rfl | cases h
  | register _ _ hp hw =>
    have hn := hw.nvs
    rw [hp]
    refine .inl ⟨rfl, rfl, ?_, ?_⟩
    · show t.nvs.bootEpoch = _
      rw [hn]
    · show t.nvs.devFlag = _
      rw [hn]
  | learnMaster mac =>
    have h : SameCounters (s.learnedMaster mac)
        ((s.learnedMaster mac).saved (.knownMasterMac mac)) := .saved rfl rfl
    exact .inl ⟨h.1, h.2, h.3, h.4⟩
  | learnSecondary mac =>
    have h : SameCounters (s.learnedSecondary mac)
        ((s.learnedSecondary mac).saved (.knownMasterMacSec mac)) := .saved rfl rfl
    exact .inl ⟨h.1, h.2, h.3, h.4⟩
  | storeEnrolled => exact .inl (SameCounters.saved rfl rfl)
  | _ => exact .inl ⟨rfl, rfl, rfl, rfl⟩

theorem Node.drawn_devFlag (s : Node) : s.drawn.nvs.devFlag = s.nvs.devFlag := by
  unfold Node.drawn Node.savedEpoch
  split
  · split <;> rfl
  · rfl

/-- A draw of a production device stores the epoch that it uses. -/
theorem Node.stored_drawn (hd : s.eeprom.isDevMode = false)
    (h : s.nvs.bootEpoch = some s.txState.bootEpoch) :
    s.drawn.nvs.bootEpoch = some s.drawn.txState.bootEpoch := by
  by_cases h0 : s.txState.txSeqNum + 1 = 0
  · rw [Node.drawn_of_zero h0]
    show (s.savedEpoch _).nvs.bootEpoch = some _
    rw [Node.savedEpoch, if_neg (by simp [hd])]
    rfl
  · rw [Node.drawn_of_ne h0]
    exact h

/-- The number that was drawn is never zero. -/
theorem Node.drawn_txSeqNum_ne_zero (s : Node) : s.drawn.txState.txSeqNum ≠ 0 := by
  by_cases h0 : s.txState.txSeqNum + 1 = 0
  · rw [Node.drawn_of_zero h0]
    show (1 : UInt16) ≠ 0
    decide
  · rw [Node.drawn_of_ne h0]
    exact h0

/-- Only a reset touches the dev mode flag. -/
theorem Effect.devFlag (h : Effect w s₀ i s t) (hi : i ≠ .resetButton) :
    t.nvs.devFlag = s.nvs.devFlag := by
  rcases h.counters with hc | ⟨hc, -⟩ | ⟨hr, -⟩
  · exact hc.devFlag
  · exact hc.devFlag.trans s.drawn_devFlag
  · exact absurd hr hi

/-- The history of draws only grows. -/
theorem Effect.epochDraws_le (h : Effect w s₀ i s t) : epochDraws s.trace ≤ epochDraws t.trace := by
  obtain ⟨es, he, -⟩ := h.history
  rw [he, epochDraws_append]
  omega

/-! ### The bound on epochs -/

/-- The epochs in use and in flash are bounded by the epoch `v₀` at the start of the life and the
draws since. -/
structure EpochBound (v₀ : ℕ) (s : Node) : Prop where
  inUse : s.txState.bootEpoch.toNat ≤ v₀ + epochDraws s.trace
  stored : (s.nvs.bootEpoch.getD 0).toNat ≤ v₀ + epochDraws s.trace

theorem toNat_succ_le (e : UInt32) : (e + 1).toNat ≤ e.toNat + 1 := by
  rw [UInt32.toNat_add]
  exact Nat.mod_le _ _

/-- The epoch after one that is not the last. -/
theorem toNat_succ {e : UInt32} (h : e.toNat + 1 < 2 ^ 32) : (e + 1).toNat = e.toNat + 1 := by
  rw [UInt32.toNat_add]
  exact Nat.mod_eq_of_lt (by simpa using h)

/-- A draw that starts an epoch is counted. -/
theorem Node.epochDraws_drawn (h : s.txState.txSeqNum + 1 = 0) :
    epochDraws s.drawn.trace = epochDraws s.trace + 1 := by
  rw [Node.drawn_of_zero h]
  show epochDraws (s.savedEpoch _).trace = _
  unfold Node.savedEpoch
  split <;> simp [Node.emit, epochDraws_cons, Event.isEpoch]

variable {v₀ : ℕ}

theorem EpochBound.drawn (h : EpochBound v₀ s) : EpochBound v₀ s.drawn := by
  by_cases h0 : s.txState.txSeqNum + 1 = 0
  · have hd := Node.epochDraws_drawn h0
    have hle := toNat_succ_le s.txState.bootEpoch
    have hu := h.inUse
    have hs := h.stored
    rw [Node.drawn_of_zero h0] at hd ⊢
    refine ⟨?_, ?_⟩
    · rw [hd]
      show (s.txState.bootEpoch + 1).toNat ≤ _
      omega
    · rw [hd]
      show ((s.savedEpoch _).nvs.bootEpoch.getD 0).toNat ≤ _
      unfold Node.savedEpoch
      split
      · exact le_trans hs (by omega)
      · show (s.txState.bootEpoch + 1).toNat ≤ _
        omega
  · rw [Node.drawn_of_ne h0]
    exact ⟨h.inUse, h.stored⟩

/-- **A draw moves the counters up, short of the last epoch.** -/
theorem EpochBound.stamp_drawn (h : EpochBound v₀ s)
    (hb : v₀ + epochDraws s.drawn.trace < 2 ^ 32) : s.txState.stamp < s.drawn.txState.stamp := by
  have hseq : s.txState.txSeqNum.toNat < 65536 := s.txState.txSeqNum.toNat_lt
  by_cases h0 : s.txState.txSeqNum + 1 = 0
  · have hu := h.inUse
    rw [Node.epochDraws_drawn h0] at hb
    have he : (s.txState.bootEpoch + 1).toNat = s.txState.bootEpoch.toNat + 1 :=
      toNat_succ (by omega)
    rw [Node.drawn_of_zero h0]
    show stampOf _ _ < stampOf (s.txState.bootEpoch + 1) 1
    unfold stampOf
    rw [he]
    have h1 : (1 : UInt16).toNat = 1 := rfl
    omega
  · rw [Node.drawn_of_ne h0]
    show stampOf _ _ < stampOf s.txState.bootEpoch (s.txState.txSeqNum + 1)
    have hs : (s.txState.txSeqNum + 1).toNat = s.txState.txSeqNum.toNat + 1 := by
      have hne : (s.txState.txSeqNum + 1).toNat ≠ 0 := fun hz => h0 (UInt16.toNat_inj.1 hz)
      rw [UInt16.toNat_add] at hne ⊢
      simp at hne ⊢
      omega
    unfold stampOf
    omega

theorem EpochBound.effect (h : EpochBound v₀ s) (he : Effect w s₀ i s t) : EpochBound v₀ t := by
  have hle := he.epochDraws_le
  rcases he.counters with hc | ⟨hc, hd⟩ | ⟨-, hx, hn⟩
  · refine ⟨?_, ?_⟩
    · rw [hc.bootEpoch]
      exact le_trans h.inUse (by omega)
    · rw [hc.stored]
      exact le_trans h.stored (by omega)
  · have hdr := h.drawn
    refine ⟨?_, ?_⟩
    · rw [hc.bootEpoch, hd]
      exact hdr.inUse
    · rw [hc.stored, hd]
      exact hdr.stored
  · refine ⟨?_, ?_⟩
    · rw [hx]
      exact le_trans h.inUse (by omega)
    · rw [hn]
      exact Nat.zero_le _

/-- The counters never move down. -/
theorem Effect.stamp_le (h : Effect w s₀ i s t) (hb : EpochBound v₀ s)
    (hlt : v₀ + epochDraws t.trace < 2 ^ 32) : s.txState.stamp ≤ t.txState.stamp := by
  rcases h.counters with hc | ⟨hc, hdr⟩ | ⟨-, hx, -⟩
  · exact le_of_eq hc.stamp.symm
  · rw [hdr] at hlt
    rw [hc.stamp]
    exact le_of_lt (hb.stamp_drawn hlt)
  · rw [hx]

/-! ### The bound along a life -/

/-- The bound on the epoch in flash, which a restart keeps. -/
def StoredBound (v₀ : ℕ) (s : Node) : Prop :=
  (s.nvs.bootEpoch.getD 0).toNat ≤ v₀ + epochDraws s.trace

namespace Device

variable {b : Board} {d : Device} {e : Env}

theorem epochDraws_bootNode : epochDraws (d.bootNode b).trace = epochDraws d.node.trace := by
  show epochDraws (.input .boot :: d.node.trace) = _
  simp [epochDraws_cons, Event.isEpoch]

theorem bootEpochOf_le {c : Config} {v : Nvs} :
    (bootEpochOf c v).toNat ≤ (v.bootEpoch.getD 0).toNat + 1 := by
  unfold bootEpochOf
  split
  · exact Nat.le_add_left 1 _
  · exact toNat_succ_le _

theorem epochBound_booted {t : Node} (hd : StoredBound v₀ d.node)
    (h : Booted (b.world e) (d.bootNode b) t) : EpochBound v₀ t := by
  have hlt := h.epochDraws_lt rfl
  have hle : (bootEpochOf b.config d.node.nvs).toNat ≤ _ := bootEpochOf_le
  rw [epochDraws_bootNode] at hlt
  unfold StoredBound at hd
  refine ⟨?_, ?_⟩
  · rw [h.txState]
    show (bootEpochOf b.config d.node.nvs).toNat ≤ _
    omega
  · rw [h.bootEpoch]
    show (Option.getD (if bootsInDevMode b.config d.node.nvs then d.node.nvs.bootEpoch
      else some (bootEpochOf b.config d.node.nvs)) 0).toNat ≤ _
    split
    · omega
    · show (bootEpochOf b.config d.node.nvs).toNat ≤ _
      omega

/-- A production boot stores the epoch it starts, and that epoch is the next one. -/
theorem booted_epoch {t : Node} (hp : b.config.devMode = false)
    (hf : Nvs.flag d.node.nvs.devFlag = false) (hb : StoredBound v₀ d.node)
    (h : Booted (b.world e) (d.bootNode b) t) (hlt : v₀ + epochDraws t.trace < 2 ^ 32) :
    t.eeprom.isDevMode = false ∧ t.nvs.bootEpoch = some t.txState.bootEpoch ∧
      t.txState.bootEpoch.toNat = (d.node.nvs.bootEpoch.getD 0).toNat + 1 := by
  have hprod : bootsInDevMode (b.world e).config (d.bootNode b).nvs = false := by
    show (b.config.devMode || Nvs.flag d.node.nvs.devFlag) = false
    rw [hp, hf]
    rfl
  have hepoch : bootEpochOf (b.world e).config (d.bootNode b).nvs =
      d.node.nvs.bootEpoch.getD 0 + 1 := by
    rw [bootEpochOf, hprod]
    rfl
  refine ⟨h.isDevMode.trans hprod, ?_, ?_⟩
  · rw [h.bootEpoch, Nvs.epochAfterBoot, if_neg (by simp [hprod]), h.txState]
    rfl
  · -- the draw of this boot was counted, so the epoch did not wrap
    have hdr := h.epochDraws_lt rfl
    rw [epochDraws_bootNode] at hdr
    unfold StoredBound at hb
    rw [h.txState, hepoch]
    exact toNat_succ (by omega)

theorem storedBound_bootHalted {u : Node} (hd : StoredBound v₀ d.node)
    (h : BootFrame b.config (d.bootNode b) u) : StoredBound v₀ u := by
  have hle := h.epochDraws_le
  rw [epochDraws_bootNode] at hle
  unfold StoredBound at hd ⊢
  rcases h.epoch with ⟨hn, -⟩ | hlt
  · rw [hn]
    exact le_trans hd (by omega)
  · rw [epochDraws_bootNode] at hlt
    rcases h.nvs.bootEpoch with hn | ⟨-, hn⟩
    · rw [hn]
      exact le_trans hd (by omega)
    · have hs := toNat_succ_le (d.node.nvs.bootEpoch.getD 0)
      rw [hn]
      show ((d.node.nvs.bootEpoch.getD 0) + 1).toNat ≤ _
      omega

/-- A boot does not move the stored epoch down. -/
theorem storedEpoch_le_bootFrame {u : Node} (hb : StoredBound v₀ d.node)
    (h : BootFrame b.config (d.bootNode b) u) (hlt : v₀ + epochDraws u.trace < 2 ^ 32) :
    (d.node.nvs.bootEpoch.getD 0).toNat ≤ (u.nvs.bootEpoch.getD 0).toNat := by
  rcases h.nvs.bootEpoch with hn | ⟨-, hn⟩
  · rw [hn]
    exact le_refl _
  · rcases h.epoch with ⟨hsame, -⟩ | hdr
    · rw [hsame]
      exact le_refl _
    · rw [epochDraws_bootNode] at hdr
      unfold StoredBound at hb
      rw [hn]
      show _ ≤ (d.node.nvs.bootEpoch.getD 0 + 1).toNat
      rw [toNat_succ (by omega)]
      omega

theorem storedBound_stop {h : Halt} {s u : Node} (hs : StoredBound v₀ s) (hu : Stop w s₀ i h s u) :
    StoredBound v₀ u := by
  obtain ⟨es, he, -⟩ := hu.history
  unfold StoredBound at hs ⊢
  rw [hu.nvs_eq, he, epochDraws_append]
  exact le_trans hs (by omega)

end Device

end LatticeMesh
