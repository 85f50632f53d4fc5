import LatticeMesh.Platform
import LatticeMesh.Lib.KeyTable

/-!
# Replay protection

The cache that decides whether a received frame was seen before, and the node's own outbound
sequence state with the guard that keeps it from sealing twice under one nonce.

## Main definitions

* `ReplayCache.isReplay` — accept a frame only if its `(epoch, seq)` is above its origin's mark.
* `OutboundSequenceState` — the epoch and sequence counters of the frames this node originates.
* `OutboundSequenceState.sealAdvances`, `OutboundSequenceState.markSealed` — the seal-time guard.

## Main results

* `ReplayCache.isReplay_snd_of_replay` — a frame that is dropped leaves the cache alone.
* `OutboundSequenceState.sealAdvances_of_lt` — **a pair above the last sealed one passes the
  guard.**
-/

namespace LatticeMesh

/-- The number of origins the replay cache can hold. -/
def replayMaxOrigins : ℕ := 12

/-- The lexicographic order of `(epoch, seq)` pairs, as the firmware compares them. -/
def newer (epoch : UInt32) (seq : UInt16) (epoch₀ : UInt32) (seq₀ : UInt16) : Bool :=
  epoch > epoch₀ || (epoch == epoch₀ && seq > seq₀)

theorem newer_iff {epoch epoch₀ : UInt32} {seq seq₀ : UInt16} :
    newer epoch seq epoch₀ seq₀ = true ↔
      epoch₀.toNat < epoch.toNat ∨ epoch = epoch₀ ∧ seq₀.toNat < seq.toNat := by
  simp [newer, UInt32.lt_iff_toNat_lt, UInt16.lt_iff_toNat_lt]

/-- An `(epoch, seq)` pair as one number. -/
def stampOf (epoch : UInt32) (seq : UInt16) : ℕ := epoch.toNat * 65536 + seq.toNat

/-- The order of the pairs is the order of these numbers. -/
theorem newer_iff_stampOf {epoch epoch₀ : UInt32} {seq seq₀ : UInt16} :
    newer epoch seq epoch₀ seq₀ = true ↔ stampOf epoch₀ seq₀ < stampOf epoch seq := by
  have hs : seq.toNat < 65536 := seq.toNat_lt
  have hs₀ : seq₀.toNat < 65536 := seq₀.toNat_lt
  rw [newer_iff]
  unfold stampOf
  constructor
  · rintro (h | ⟨rfl, h⟩)
    · omega
    · omega
  · intro h
    by_cases he : epoch.toNat = epoch₀.toNat
    · exact .inr ⟨UInt32.toNat_inj.1 he, by omega⟩
    · exact .inl (by omega)

/-- The number of a frame. -/
def Message.stamp (m : Message) : ℕ := stampOf m.epochNum m.seqNum

/-! ### The replay cache -/

namespace ReplayCache

/-- One origin of the cache. -/
structure Entry where
  epoch : UInt32 := 0
  lastSeenMs : UInt64 := 0
  seq : UInt16 := 0
  mac : Mac := zeroMac
  used : Bool := false
  deriving DecidableEq

end ReplayCache

/-- The replay cache: one high-water mark for each of the last origins heard. -/
abbrev ReplayCache := List.Vector ReplayCache.Entry replayMaxOrigins

namespace ReplayCache

/-- The cache after `init`. -/
def empty : ReplayCache := List.Vector.replicate _ {}

/-- The slot that holds the origin `mac`. -/
def slotOf (c : ReplayCache) (mac : Mac) : Option (Fin replayMaxOrigins) :=
  (KeyTable.find c Entry.mac mac).filter fun i => (c.get i).used

/-- The slot a new origin goes to: the first free one, else the least recently heard one. -/
def allocSlot (c : ReplayCache) : Fin replayMaxOrigins :=
  (KeyTable.firstSlot c fun e => !e.used).getD (KeyTable.oldest c Entry.lastSeenMs)

/-- The entry that a frame leaves behind. -/
def entryOf (m : Message) (nowMs : UInt64) : Entry where
  epoch := m.epochNum
  lastSeenMs := nowMs
  seq := m.seqNum
  mac := m.originMac
  used := true

/-- Whether the frame is a replay, and the cache afterwards. -/
def isReplay (c : ReplayCache) (m : Message) (nowMs : UInt64) : Bool × ReplayCache :=
  match slotOf c m.originMac with
  | some i =>
    if newer m.epochNum m.seqNum (c.get i).epoch (c.get i).seq then
      (false, c.set i
        { c.get i with epoch := m.epochNum, seq := m.seqNum, lastSeenMs := nowMs })
    else
      (true, c)
  | none => (false, c.set (allocSlot c) (entryOf m nowMs))

/-- A frame that is dropped leaves the cache alone. -/
theorem isReplay_snd_of_replay {c : ReplayCache} {m : Message} {nowMs : UInt64}
    (h : (isReplay c m nowMs).1 = true) : (isReplay c m nowMs).2 = c := by
  unfold isReplay at h ⊢
  cases hs : slotOf c m.originMac with
  | none => rw [hs] at h; cases h
  | some i =>
    rw [hs] at h
    simp only at h ⊢
    split at h
    · cases h
    · rw [if_neg ‹_›]

end ReplayCache

/-! ### Outbound sequence state -/

/-- The largest epoch, which the seal guard reads as "nothing sealed yet". -/
def noSealEpoch : UInt32 := 0xFFFFFFFF

/-- The counters of the frames this node originates, the mark of the last beacon it relayed and the
mark of the last frame it sealed. -/
structure OutboundSequenceState where
  bootEpoch : UInt32 := 0
  txSeqNum : UInt16 := 0
  lastRelayedEpoch : UInt32 := 0
  lastRelayedSeqNum : UInt16 := 0
  lastSealedEpoch : UInt32 := noSealEpoch
  lastSealedSeq : UInt16 := 0
  deriving DecidableEq

namespace OutboundSequenceState

/-- The state at the start of a boot epoch. -/
def init (t : OutboundSequenceState) (epoch : UInt32) : OutboundSequenceState :=
  { t with bootEpoch := epoch, txSeqNum := 0, lastRelayedEpoch := 0, lastRelayedSeqNum := 0 }

def bumpEpoch (t : OutboundSequenceState) (epoch : UInt32) : OutboundSequenceState :=
  { t with bootEpoch := epoch }

def markRelayed (t : OutboundSequenceState) (epoch : UInt32) (seq : UInt16) :
    OutboundSequenceState :=
  { t with lastRelayedEpoch := epoch, lastRelayedSeqNum := seq }

def wasRelayedBefore (t : OutboundSequenceState) (epoch : UInt32) (seq : UInt16) : Bool :=
  !newer epoch seq t.lastRelayedEpoch t.lastRelayedSeqNum

/-- Whether the seal guard lets the pair `(epoch, seq)` pass. -/
def sealAdvances (t : OutboundSequenceState) (epoch : UInt32) (seq : UInt16) : Bool :=
  t.lastSealedEpoch == noSealEpoch || newer epoch seq t.lastSealedEpoch t.lastSealedSeq

/-- The guard's state after a pair passed. -/
def markSealed (t : OutboundSequenceState) (epoch : UInt32) (seq : UInt16) :
    OutboundSequenceState :=
  { t with lastSealedEpoch := epoch, lastSealedSeq := seq }

/-- The counters as one number. -/
def stamp (t : OutboundSequenceState) : ℕ := stampOf t.bootEpoch t.txSeqNum

/-- The last pair that passed the guard, as one number. -/
def sealedStamp (t : OutboundSequenceState) : ℕ := stampOf t.lastSealedEpoch t.lastSealedSeq

/-- **A pair above the last sealed one passes the guard.** -/
theorem sealAdvances_of_lt {t : OutboundSequenceState} {epoch : UInt32} {seq : UInt16}
    (h : t.lastSealedEpoch = noSealEpoch ∨ t.sealedStamp < stampOf epoch seq) :
    t.sealAdvances epoch seq = true := by
  unfold sealAdvances
  rcases h with h | h
  · simp [h]
  · simp [newer_iff_stampOf.2 h]

end OutboundSequenceState

end LatticeMesh
