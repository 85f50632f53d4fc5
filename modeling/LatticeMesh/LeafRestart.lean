import LatticeMesh.Counters

/-!
# Restarts of a leaf

The seal guard restarts the device when it refuses a frame.  A frame that the node built itself is
never refused, since its number was drawn for it and lies above everything that was sealed before in
this boot.  Only a frame that comes back under the node's own address can be.

## Main definitions

* `GuardBelow` — the mark of the seal guard is not above the counters, and a frame that was just
  built passes the guard.
* `Event.isFailRestart` — an error report that restarts the device.
* `Device.NoReflection` — no frame under the node's own address reaches the seal guard.

## Main results

* `guard_invariant` — without such a frame, `GuardBelow` holds in every reachable state.
* `rx_noFailRestart` — **without such a frame, no received frame restarts a node by way of an
  error.**
* `not_rx_noFailRestart_reflected` — a leaf that hears its own frame again restarts.
-/

namespace LatticeMesh

open EffectSpec Relation

variable {w : World} {s₀ s t u : Node} {i : Input} {v₀ : ℕ}

/-! ### The mark of the guard -/

/-- What a change does to the mark of the seal guard. -/
theorem Effect.sealMark (h : Effect w s₀ i s t) :
    t.txState.lastSealedEpoch = s.txState.lastSealedEpoch ∧
        t.txState.lastSealedSeq = s.txState.lastSealedSeq ∨
      ∃ m, Guardable w s₀ i s m ∧ s.txState.sealAdvances m.epochNum m.seqNum = true ∧
        t = { s with txState := s.txState.markSealed m.epochNum m.seqNum }.emit
          (.guarded m.epochNum m.seqNum) := by
  have hdrawn : s.drawn.txState.lastSealedEpoch = s.txState.lastSealedEpoch ∧
      s.drawn.txState.lastSealedSeq = s.txState.lastSealedSeq := by
    unfold Node.drawn
    split <;> exact ⟨rfl, rfl⟩
  have hsaved : ∀ (n : Node) op, (n.saved op).txState = n.txState := by
    intro n op
    unfold Node.saved
    split <;> rfl
  cases h with
  | quiet h =>
    rw [← h]
    exact .inl ⟨rfl, rfl⟩
  | draw => exact .inl hdrawn
  | build => exact .inl hdrawn
  | guardSeal m hm ha => exact .inr ⟨m, hm, ha, rfl⟩
  | register _ _ hp =>
    rw [hp]
    exact .inl ⟨rfl, rfl⟩
  | learnMaster mac =>
    rw [hsaved]
    exact .inl ⟨rfl, rfl⟩
  | learnSecondary mac =>
    rw [hsaved]
    exact .inl ⟨rfl, rfl⟩
  | storeEnrolled =>
    rw [hsaved]
    exact .inl ⟨rfl, rfl⟩
  | _ => exact .inl ⟨rfl, rfl⟩

/-- The mark of the seal guard is not above the counters, and a frame that was just built passes the
guard and carries the counters. -/
structure GuardBelow (s : Node) : Prop where
  mark : s.txState.lastSealedEpoch = noSealEpoch ∨ s.txState.sealedStamp ≤ s.txState.stamp
  built : ∀ m, s.trace.head? = some (.built m) →
    m.stamp ≤ s.txState.stamp ∧ s.txState.sealAdvances m.epochNum m.seqNum = true

theorem sealAdvances_congr {t t' : OutboundSequenceState} {epoch : UInt32} {seq : UInt16}
    (he : t'.lastSealedEpoch = t.lastSealedEpoch) (hs : t'.lastSealedSeq = t.lastSealedSeq) :
    t'.sealAdvances epoch seq = t.sealAdvances epoch seq := by
  unfold OutboundSequenceState.sealAdvances
  rw [he, hs]

theorem sealedStamp_congr {t t' : OutboundSequenceState}
    (he : t'.lastSealedEpoch = t.lastSealedEpoch) (hs : t'.lastSealedSeq = t.lastSealedSeq) :
    t'.sealedStamp = t.sealedStamp := by
  unfold OutboundSequenceState.sealedStamp
  rw [he, hs]

/-- A frame that was just built passes the guard, whatever its target. -/
theorem GuardBelow.justBuilt {m : Message} (h : GuardBelow s) (hm : JustBuilt s m) :
    m.stamp ≤ s.txState.stamp ∧ s.txState.sealAdvances m.epochNum m.seqNum = true := by
  obtain ⟨m', hhead, heq⟩ := hm
  rw [heq]
  exact h.built m' hhead

/-- What follows for the frame just built from the events that were added. -/
theorem head_append {es tr : List Event} {m : Message} (hes : ∀ e ∈ es, e.isPlain = true)
    (h : (es ++ tr).head? = some (.built m)) : tr.head? = some (.built m) := by
  cases es with
  | nil => exact h
  | cons e es =>
    obtain rfl := Option.some.inj h
    exact absurd (hes _ List.mem_cons_self) (by simp [Event.isPlain])

/-- **A change of a step that guards no received frame keeps the mark below the counters.** -/
theorem GuardBelow.effect (hs : GuardBelow s) (h : Effect w s₀ i s t)
    (hno : reflectsUplink w s₀ i = false) (hb : EpochBound v₀ s)
    (hlt : v₀ + epochDraws t.trace < 2 ^ 32) : GuardBelow t := by
  have hle := h.stamp_le hb hlt
  rcases h.sealMark with ⟨he, hq⟩ | ⟨m, hm, ha, rfl⟩
  · refine ⟨?_, fun m hm => ?_⟩
    · rw [he, sealedStamp_congr he hq]
      exact hs.mark.imp_right fun h => le_trans h hle
    · rw [sealAdvances_congr he hq]
      obtain ⟨es, htr, hadds⟩ := h.history
      rw [htr] at hm
      cases hadds with
      | routine hes =>
        obtain ⟨hms, ha⟩ := hs.built m (head_append (fun e he =>
          Event.isPlain_of_isRoutine (hes e he)) hm)
        exact ⟨le_trans hms hle, ha⟩
      | built hp ht hes =>
        -- the number of the new frame was drawn for it
        obtain rfl := Event.built.inj (Option.some.inj hm)
        have hd : epochDraws t.trace = epochDraws s.drawn.trace := by
          rw [ht]
          simp [Node.emit, epochDraws_cons, Event.isEpoch]
        have hrise : s.txState.stamp < s.drawn.txState.stamp := hb.stamp_drawn (by rwa [← hd])
        refine ⟨?_, OutboundSequenceState.sealAdvances_of_lt (hs.mark.imp_right fun h => ?_)⟩
        · rw [ht]
          exact le_refl _
        · exact lt_of_le_of_lt h hrise
      | guarded | «sealed» | opened => cases hm
  · refine ⟨.inr ?_, fun m' hm' => by cases hm'⟩
    rcases hm with hm | hr
    · exact (hs.justBuilt hm).1
    · rw [hno] at hr
      cases hr

/-! ### Along a run -/

/-- Whether an event is an error report that restarts the device. -/
def Event.isFailRestart : Event → Bool
  | .errFail t .. => t.restarts
  | _ => false

theorem Event.isFailRestart_of_isCrash {e : Event} (h : e.isCrash = false) :
    e.isFailRestart = false := by
  cases e with
  | errFail => exact h
  | _ => rfl

namespace Device

variable {b : Board} {d : Device} {e : Env}

/-- No frame under the node's own address reaches the seal guard in this step. -/
def NoReflection (b : Board) (d : Device) (x : Env × Input) : Prop :=
  d.status = .running → reflectsUplink (b.world x.1) d.node x.2 = false

instance (b : Board) (d : Device) (x : Env × Input) : Decidable (NoReflection b d x) :=
  inferInstanceAs (Decidable (_ → _))

/-- The invariant of a running device, as long as the epochs last. -/
structure GuardInv (v₀ : ℕ) (s : Node) : Prop where
  bound : EpochBound v₀ s
  guard : v₀ + epochDraws s.trace < 2 ^ 32 → GuardBelow s

/-- Without a reflected frame the mark of the guard stays below the counters. -/
theorem guard_invariant (b : Board) (v₀ : ℕ) :
    Invariant b (NoReflection b) (GuardInv v₀) (StoredBound v₀) where
  weaken s h := h.bound.stored
  boot d e t _ hd ht := by
    refine ⟨epochBound_booted hd ht, fun _ => ⟨.inl (by rw [ht.txState]; rfl), fun m hm => ?_⟩⟩
    obtain ⟨es, he, hes⟩ := boot_history ht.frame
    rw [he] at hm
    cases head_append hes hm
  bootHalt d e u _ hd hu := storedBound_bootHalted hd hu
  input d e i _ _ h := by
    have hdr : epochDraws (d.inputNode i).trace = epochDraws d.node.trace := epochDraws_cons _ _
    refine ⟨⟨?_, ?_⟩, fun hlt => ⟨(h.guard (by rwa [hdr] at hlt)).mark, fun m hm => by cases hm⟩⟩
    · rw [hdr]
      exact h.bound.inUse
    · rw [hdr]
      exact h.bound.stored
  effect d e i s t hw hs h := by
    refine ⟨hs.bound.effect h, fun hlt => ?_⟩
    have hle := h.epochDraws_le
    exact (hs.guard (by omega)).effect h (hw.admissible hw.running) hs.bound hlt
  stop d e i s h u _ hs hu := storedBound_stop hs.bound.stored hu

/-- **Without a reflected frame, no received frame restarts a node by way of an error**, whatever
else it receives and sends. -/
theorem rx_noFailRestart {b : Board} {v : Nvs} {xs : List (Env × Input)} {e : Env} {srcMac : Mac}
    {m : Message}
    (hxs : Runs.Along (step b) (NoReflection b) (blank v) (xs ++ [(e, .rx srcMac m)]))
    (hrun : (run b (blank v) xs).status = .running)
    (hlt : (v.bootEpoch.getD 0).toNat +
      epochDraws (run b (blank v) (xs ++ [(e, .rx srcMac m)])).node.trace < 2 ^ 32)
    (hnvs : ∀ op, e.nvsOk op = true)
    (hdisplay : b.config.enableSevsegDisplay = true → e.displayAck = true) :
    ∀ ev ∈ (step b (run b (blank v) xs) (e, .rx srcMac m)).node.stepEvents,
      ev.isFailRestart = false := by
  obtain ⟨hxs, hx, -⟩ := Runs.along_append.1 hxs
  have hmeets : (run b (blank v) xs).Meets _ _ :=
    (guard_invariant b (v.bootEpoch.getD 0).toNat).run (meets_blank (Nat.le_add_right _ _)) hxs
  have hlast : run b (blank v) (xs ++ [(e, .rx srcMac m)]) =
      step b (run b (blank v) xs) (e, .rx srcMac m) := Runs.run_append xs _
  rw [hlast] at hlt
  change NoReflection b (run b (blank v) xs) _ at hx
  generalize run b (blank v) xs = d₀ at hrun hmeets hx hlt ⊢
  have hst := stepTo b d₀ e (.rx srcMac m)
  generalize step b d₀ (e, .rx srcMac m) = d at hst hlt
  have hran : ∀ t, ReflTransGen (Effect (b.world e) (d₀.inputNode (.rx srcMac m)) (.rx srcMac m))
      (d₀.inputNode (.rx srcMac m)) t → ∀ ev ∈ t.stepEvents, ev.isFailRestart = false :=
    fun t ht ev hev => Event.isFailRestart_of_isCrash (stepEvents_noCrash ht ev hev)
  cases hst with
  | ignored _ hs => exact absurd hrun hs
  | ran _ _ ht => exact hran _ ht
  | @halted _ h t u _ _ ht hu =>
    -- the last event is the only one that may be a report of trouble
    have hlast : ∀ ev₀ : Event, ev₀.isFailRestart = false → u = t.emit ev₀ →
        ∀ ev ∈ u.stepEvents, ev.isFailRestart = false := by
      rintro ev₀ h0 rfl ev hev
      by_cases hin : ev₀.isInput = true
      · simp [Node.stepEvents, Node.emit, hin] at hev
      · rw [Node.stepEvents_append (show _ = [ev₀] ++ t.trace from rfl) (by simpa using hin)] at hev
        rcases List.mem_cons.1 hev with rfl | hev
        · exact h0
        · exact hran t ht ev hev
    rcases hu.of_works hnvs hdisplay with ⟨m', hg, -, ha, rfl⟩ | ⟨_, _, _, _, -, -, -, hk⟩ | ⟨-, hr⟩
    · -- a frame that was built here passes the guard, and none is reflected
      rcases hg with hg | hr
      · have hinv := (guard_invariant b _).within hmeets ⟨hx, by simp, hrun, ht⟩
        have hdr : epochDraws (t.emit (.errFail .crypto .mesh 1
            "AEAD epoch rollback — refusing seal")).trace = epochDraws t.trace := by
          simp [Node.emit, epochDraws_cons, Event.isEpoch]
        have hlt' : (v.bootEpoch.getD 0).toNat + epochDraws t.trace < 2 ^ 32 := by
          rw [← hdr]
          exact hlt
        rw [((hinv.guard hlt').justBuilt hg).2] at ha
        cases ha
      · have hno :
            reflectsUplink (b.world e) (d₀.inputNode (.rx srcMac m)) (.rx srcMac m) = false :=
          hx hrun
        rw [hno] at hr
        cases hr
    · exact hlast _ rfl hk
    · exact hlast _ rfl hr

set_option maxRecDepth 100000 in
/-- A leaf that was admitted and sent a frame hears the next beacon. -/
theorem rx_noFailRestart_beacon :
    (run Sample.board (blank {}) (Sample.admitted ++
      [(Sample.env 1 400, .transmit AdapterType.pir (Bytes.fill 64 5))])).status = .running ∧
    ∀ ev ∈ (step Sample.board (run Sample.board (blank {}) (Sample.admitted ++
      [(Sample.env 1 400, .transmit AdapterType.pir (Bytes.fill 64 5))]))
        (Sample.env 1 500, .rx (Sample.mac 7) Sample.beacon)).node.stepEvents,
      ev.isFailRestart = false :=
  ⟨by decide +kernel, rx_noFailRestart (v := {}) (by decide +kernel) (by decide +kernel)
    (by decide +kernel) (fun _ => rfl) fun h => by cases h⟩

set_option maxRecDepth 100000 in
/-- **A leaf that hears its own first frame again restarts.** -/
theorem not_rx_noFailRestart_reflected :
    (run Sample.board (blank {}) (Sample.admitted ++
        [(Sample.env 1 400, .transmit AdapterType.pir (Bytes.fill 64 5))])).node.isMaster = false ∧
      ¬∀ ev ∈ (step Sample.board (run Sample.board (blank {}) (Sample.admitted ++
        [(Sample.env 1 400, .transmit AdapterType.pir (Bytes.fill 64 5))]))
          (Sample.env 1 500, .rx (Sample.mac 9) (Sample.reflected 1 1))).node.stepEvents,
        ev.isFailRestart = false := by
  refine ⟨by decide +kernel, ?_⟩
  decide +kernel

end Device

end LatticeMesh
