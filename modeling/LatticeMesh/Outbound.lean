import LatticeMesh.Counters
import LatticeMesh.RollbackGuard

/-!
# The numbers of outgoing frames

A node numbers the frames that it originates at three places.  This file follows them through the
life of a device that does nothing else and is restarted at any time: a power loss in the middle of
a draw is a draw whose frame is never sent, followed by a restart.

## Main definitions

* `StampSite`, `stamped` — the places where a frame gets its number.
* `Sender`, `Sender.step` — a device that stamps, stamps and seals, and restarts.

## Main results

* `sendEnrollmentRequest_eq`, `enrollPeer_eq` — the programs of the firmware in terms of `stamped`.
* `Sender.stamps_rise` — **the stamps of a life rise, none has the number zero, none is of an epoch
  above the stored one, and the seal guard refuses none of them.**
-/

namespace LatticeMesh

open EffectSpec

/-! ### Where frames get their numbers -/

/-- Where a frame that this node originates gets its number. -/
inductive StampSite
  | build (type : AdapterType) (data : Payload) (msgType : UInt8)
  | enrollmentRequest
  | joinAck (mac : Mac) (nodePublicKey : Key) (secondary : Option (Mac × Key))

/-- Draw a number and fill in the frame. -/
def stamped (w : World) : StampSite → MeshM Message
  | .build type data msgType => buildMessage w type data msgType
  | .enrollmentRequest => do
    let seq ← nextSeqGuarded w
    let s ← get
    pure (enrollmentRequest s s.txState.bootEpoch seq)
  | .joinAck mac nodePublicKey secondary => do
    let seq ← nextSeqGuarded w
    let s ← get
    pure (joinAck s seq mac nodePublicKey secondary)

variable {w : World} {s t u : Node}

/-- An enrollment request is stamped and broadcast. -/
theorem sendEnrollmentRequest_eq :
    sendEnrollmentRequest w = stamped w .enrollmentRequest >>= sendBroadcast w := by
  unfold sendEnrollmentRequest stamped
  simp only [bind_assoc, pure_bind]

/-- A node that was approved is registered, and then its acknowledgement is stamped and
broadcast. -/
theorem enrollPeer_eq {mac : Mac} {secondary : Option (Mac × Key)} {p : PeerInfo}
    (hp : s.peers.find mac = some p) :
    enrollPeer w mac secondary s = (registerPeerWithKey w mac p.publicKey true >>= fun registered =>
      if registered then stamped w (.joinAck mac p.publicKey secondary) >>= sendBroadcast w
      else pure ()) s := by
  unfold enrollPeer stamped
  rw [bind_ok (x := get) (s := s) rfl, hp]
  simp only [bind_assoc, pure_bind]

/-- From `s` to `t` one number was drawn. -/
structure DrewOne (s t : Node) : Prop where
  txState : t.txState = s.drawn.txState
  nvs : t.nvs = s.drawn.nvs
  eeprom : t.eeprom = s.drawn.eeprom
  draws : epochDraws t.trace = epochDraws s.drawn.trace

/-- Every site stamps its frame with the counters that it drew. -/
theorem wp_stamped {site : StampSite} : wp (stamped w site) (fun m t => DrewOne s t ∧
    m.epochNum = t.txState.bootEpoch ∧ m.seqNum = t.txState.txSeqNum)
    (fun _ u => Aborted s u) s := by
  cases site with
  | build type data msgType =>
    unfold stamped buildMessage
    rw [wp_bind]
    refine wp_nextSeqGuarded ⟨⟨rfl, rfl, rfl, ?_⟩, rfl, rfl⟩ fun _ _ u hu => hu
    simp [Node.emit, epochDraws_cons, Event.isEpoch]
  | enrollmentRequest =>
    unfold stamped
    rw [wp_bind]
    exact wp_nextSeqGuarded ⟨⟨rfl, rfl, rfl, rfl⟩, rfl, rfl⟩ fun _ _ u hu => hu
  | joinAck mac nodePublicKey secondary =>
    unfold stamped
    rw [wp_bind]
    exact wp_nextSeqGuarded ⟨⟨rfl, rfl, rfl, rfl⟩, rfl, rfl⟩ fun _ _ u hu => hu

/-! ### The machine -/

/-- What a sender does: it restarts, stamps a frame, or builds a frame and checks it for sealing. -/
inductive SendOp
  | boot
  | stamp (site : StampSite)
  | send (type : AdapterType) (data : Payload) (msgType : UInt8)

/-- A device, the stamps of the frames it originated so far, latest first, and whether the seal
guard refused one of them. -/
structure Sender where
  device : Device
  stamps : List (UInt32 × UInt16) := []
  refused : Bool := false

namespace Sender

/-- The sender after a frame was stamped. -/
def ofStamped (st : Sender) : EStateM.Result Halt Node Message → Sender
  | .ok m t => { st with device := ⟨t, .running⟩, stamps := (m.epochNum, m.seqNum) :: st.stamps }
  | .error h u => { st with device := ⟨u, .halted h⟩ }

/-- The sender after a frame was checked. -/
def ofChecked (st : Sender) : EStateM.Result Halt Node Unit → Sender
  | .ok _ t => { st with device := ⟨t, .running⟩ }
  | .error h u => { st with device := ⟨u, .halted h⟩, refused := true }

/-- Stamp a frame. -/
def stamp (w : World) (st : Sender) (site : StampSite) : Sender :=
  st.ofStamped (stamped w site st.device.node)

/-- Check the frame that was stamped last. -/
def check (w : World) (st : Sender) : Sender :=
  match st.device.status, st.stamps with
  | .running, x :: _ => st.ofChecked (checkEpochRollback w x.1 x.2 st.device.node)
  | _, _ => st

/-- One step of the sender; a device that does not run only boots. -/
def step (b : Board) (st : Sender) (x : Env × SendOp) : Sender :=
  match x.2 with
  | .boot => { st with device := Device.step b st.device (x.1, .boot) }
  | .stamp site =>
    if st.device.status = .running then st.stamp (b.world x.1) site else st
  | .send type data msgType =>
    if st.device.status = .running then
      (st.stamp (b.world x.1) (.build type data msgType)).check (b.world x.1)
    else st

/-- A run of the sender. -/
def run (b : Board) (st : Sender) (xs : List (Env × SendOp)) : Sender := Runs.run (step b) st xs

/-- The life of a device begins with its flash. -/
def blank (v : Nvs) : Sender := { device := Device.blank v }

end Sender

/-! ### The invariant -/

/-- What the stamps of a life have come to, when the stored epoch is `stored`. -/
structure StampsRise (st : Sender) : Prop where
  rise : st.stamps.Pairwise fun later earlier => Prod.Lex (· < ·) (· < ·) earlier later
  ne_zero : ∀ x ∈ st.stamps, x.2 ≠ 0
  stored : ∀ x ∈ st.stamps, x.1.toNat ≤ (st.device.node.nvs.bootEpoch.getD 0).toNat
  passed : st.refused = false

/-- What holds of a node that runs: it uses the stored epoch, and neither a stamp nor the mark of
the seal guard is above its counters. -/
structure CountersAbove (stamps : List (UInt32 × UInt16)) (s : Node) : Prop where
  production : s.eeprom.isDevMode = false
  stored : s.nvs.bootEpoch = some s.txState.bootEpoch
  stamps : ∀ x ∈ stamps, stampOf x.1 x.2 ≤ s.txState.stamp
  guard : s.txState.lastSealedEpoch = noSealEpoch ∨ s.txState.sealedStamp ≤ s.txState.stamp

/-- The invariant, as long as the epochs last. -/
structure SenderInv (v₀ : ℕ) (st : Sender) : Prop where
  bound : StoredBound v₀ st.device.node
  devFlag : Nvs.flag st.device.node.nvs.devFlag = false
  rise : v₀ + epochDraws st.device.node.trace < 2 ^ 32 → StampsRise st
  running : st.device.status = .running → EpochBound v₀ st.device.node ∧
    (v₀ + epochDraws st.device.node.trace < 2 ^ 32 → CountersAbove st.stamps st.device.node)

variable {v₀ : ℕ} {stamps : List (UInt32 × UInt16)}

theorem DrewOne.drawnDevFlag (h : DrewOne s t) : t.nvs.devFlag = s.nvs.devFlag := by
  rw [h.nvs]
  exact s.drawn_devFlag

theorem DrewOne.draws_le (h : DrewOne s t) : epochDraws s.trace ≤ epochDraws t.trace := by
  obtain ⟨es, he, -⟩ := s.drawn_trace
  rw [h.draws, he, epochDraws_append]
  omega

theorem DrewOne.bound (h : DrewOne s t) (hb : EpochBound v₀ s) : EpochBound v₀ t := by
  have hd := hb.drawn
  refine ⟨?_, ?_⟩
  · rw [h.txState, h.draws]
    exact hd.inUse
  · rw [h.nvs, h.draws]
    exact hd.stored

/-- A draw leaves the mark of the seal guard alone. -/
theorem DrewOne.sameMark (h : DrewOne s t) :
    t.txState.lastSealedEpoch = s.txState.lastSealedEpoch ∧
      t.txState.sealedStamp = s.txState.sealedStamp := by
  rw [h.txState]
  unfold Node.drawn
  split <;> exact ⟨rfl, rfl⟩

/-- The counters after a draw are above the ones before, which are above all stamps. -/
theorem DrewOne.above (h : DrewOne s t) (hb : EpochBound v₀ s) (hs : CountersAbove stamps s)
    (hlt : v₀ + epochDraws t.trace < 2 ^ 32) :
    s.txState.stamp < t.txState.stamp ∧
      CountersAbove ((t.txState.bootEpoch, t.txState.txSeqNum) :: stamps) t := by
  have hrise : s.txState.stamp < t.txState.stamp := by
    rw [h.txState]
    exact hb.stamp_drawn (by rwa [← h.draws])
  refine ⟨hrise, ?_, ?_, ?_, ?_⟩
  · rw [h.eeprom]
    exact s.drawn_sameDevice.isDevMode.trans hs.production
  · rw [h.nvs, h.txState]
    exact Node.stored_drawn hs.production hs.stored
  · rintro x (_ | ⟨_, hx⟩)
    · exact le_refl _
    · exact le_trans (hs.stamps x hx) (le_of_lt hrise)
  · rw [h.sameMark.1, h.sameMark.2]
    exact hs.guard.imp_right fun hle => le_trans hle (le_of_lt hrise)

/-- What was drawn passes the seal guard. -/
theorem DrewOne.advances (h : DrewOne s t) (hb : EpochBound v₀ s) (hs : CountersAbove stamps s)
    (hlt : v₀ + epochDraws t.trace < 2 ^ 32) :
    t.txState.sealAdvances t.txState.bootEpoch t.txState.txSeqNum = true := by
  apply OutboundSequenceState.sealAdvances_of_lt
  rw [h.sameMark.1, h.sameMark.2]
  exact hs.guard.imp_right fun hle => lt_of_le_of_lt hle (h.above hb hs hlt).1

/-- An abandoned program keeps what is known of the flash. -/
theorem StoredBound.aborted (h : StoredBound v₀ s) (hu : Aborted s u) : StoredBound v₀ u := by
  obtain ⟨es, he, -⟩ := hu.trace
  unfold StoredBound at h ⊢
  rw [hu.nvs, he, epochDraws_append]
  exact le_trans h (by omega)

theorem Aborted.epochDraws_le (h : Aborted s u) : epochDraws s.trace ≤ epochDraws u.trace := by
  obtain ⟨es, he, -⟩ := h.trace
  rw [he, epochDraws_append]
  omega

/-- The stored epoch may move up. -/
theorem StampsRise.congr {st st' : Sender} (h : StampsRise st) (hs : st'.stamps = st.stamps)
    (hr : st'.refused = st.refused)
    (hle : (st.device.node.nvs.bootEpoch.getD 0).toNat ≤
      (st'.device.node.nvs.bootEpoch.getD 0).toNat) :
    StampsRise st' := by
  refine ⟨hs ▸ h.rise, hs ▸ h.ne_zero, fun x hx => ?_, hr.trans h.passed⟩
  rw [hs] at hx
  exact le_trans (h.stored x hx) hle

namespace Sender

variable {b : Board} {st : Sender} {e : Env}

/-- Stamping a frame. -/
theorem stamp_inv {site : StampSite} (h : SenderInv v₀ st) (hrun : st.device.status = .running) :
    SenderInv v₀ (st.stamp w site) := by
  obtain ⟨hb, habove⟩ := h.running hrun
  have hwp : wp (stamped w site) _ _ st.device.node := wp_stamped
  unfold Sender.stamp
  cases hr : stamped w site st.device.node with
  -- the frame is stamped with the number that was drawn, or the node halts before
  | ok m t =>
    obtain ⟨hd, he, hq⟩ := wp_ok hr hwp
    have hle := hd.draws_le
    refine ⟨(hd.bound hb).stored, hd.drawnDevFlag ▸ h.devFlag, fun hlt => ?_,
      fun _ => ⟨hd.bound hb, fun hlt => ?_⟩⟩
    -- the stamps behind it are not above the state, and the draw raised the state
    · have hs := h.rise (by have : v₀ + epochDraws t.trace < 2 ^ 32 := hlt; omega)
      have hc := habove (by have : v₀ + epochDraws t.trace < 2 ^ 32 := hlt; omega)
      obtain ⟨hrise, ht⟩ := hd.above hb hc hlt
      have hstored : t.nvs.bootEpoch.getD 0 = m.epochNum := by rw [ht.stored, he]; rfl
      refine ⟨List.Pairwise.cons (fun x hx => ?_) hs.rise, ?_, ?_, hs.passed⟩
      · rw [lex_iff_stampOf]
        show _ < stampOf m.epochNum m.seqNum
        rw [he, hq]
        exact lt_of_le_of_lt (hc.stamps x hx) hrise
      · rintro x (_ | ⟨_, hx⟩)
        · show m.seqNum ≠ 0
          rw [hq, hd.txState]
          exact st.device.node.drawn_txSeqNum_ne_zero
        · exact hs.ne_zero x hx
      · rintro x (_ | ⟨_, hx⟩)
        · exact le_of_eq (congrArg UInt32.toNat hstored.symm)
        · -- the epochs of earlier stamps are not above the one in use
          have hx' := ht.stamps x (List.mem_cons_of_mem _ hx)
          show x.1.toNat ≤ (t.nvs.bootEpoch.getD 0).toNat
          rw [hstored, he]
          have hseq := t.txState.txSeqNum.toNat_lt
          unfold OutboundSequenceState.stamp stampOf at hx'
          omega
    · have hc := habove (by have : v₀ + epochDraws t.trace < 2 ^ 32 := hlt; omega)
      have ht := (hd.above hb hc hlt).2
      rw [← he, ← hq] at ht
      exact ht
  -- an aborted draw leaves the stored epoch alone
  | error k u =>
    have hu := wp_error hr hwp
    have hle := hu.epochDraws_le
    refine ⟨h.bound.aborted hu, ?_, fun hlt => ?_, fun hrun => by cases hrun⟩
    · show Nvs.flag u.nvs.devFlag = false
      rw [hu.nvs]
      exact h.devFlag
    · refine (h.rise ?_).congr rfl rfl ?_
      · have : v₀ + epochDraws u.trace < 2 ^ 32 := hlt
        omega
      · show _ ≤ (u.nvs.bootEpoch.getD 0).toNat
        rw [hu.nvs]

/-- A frame that was just stamped passes the seal guard. -/
theorem stamp_advances {site : StampSite} (h : SenderInv v₀ st)
    (hrun : st.device.status = .running) (hrun' : (st.stamp w site).device.status = .running)
    (hlt : v₀ + epochDraws (st.stamp w site).device.node.trace < 2 ^ 32) :
    ∀ x ∈ (st.stamp w site).stamps.head?,
      (st.stamp w site).device.node.txState.sealAdvances x.1 x.2 = true := by
  obtain ⟨hb, habove⟩ := h.running hrun
  have hwp : wp (stamped w site) _ _ st.device.node := wp_stamped
  unfold Sender.stamp at hrun' hlt ⊢
  cases hr : stamped w site st.device.node with
  | ok m t =>
    rw [hr] at hlt
    obtain ⟨hd, he, hq⟩ := wp_ok hr hwp
    have hle : epochDraws st.device.node.trace ≤ epochDraws t.trace := hd.draws_le
    have hlt' : v₀ + epochDraws t.trace < 2 ^ 32 := hlt
    rintro _ ⟨⟩
    show t.txState.sealAdvances m.epochNum m.seqNum = true
    rw [he, hq]
    exact hd.advances hb (habove (by omega)) hlt'
  | error k u =>
    rw [hr] at hrun'
    cases hrun'

/-- Checking the frame that was stamped last. -/
theorem check_inv (h : SenderInv v₀ st)
    (hadv : st.device.status = .running → v₀ + epochDraws st.device.node.trace < 2 ^ 32 →
      ∀ x ∈ st.stamps.head?, st.device.node.txState.sealAdvances x.1 x.2 = true) :
    SenderInv v₀ (st.check w) := by
  unfold Sender.check
  split
  · rename_i x rest hrun hst
    cases ha : st.device.node.txState.sealAdvances x.1 x.2 with
    -- the guard lets the frame pass, and marks it
    | true =>
      rw [checkEpochRollback_pass ha]
      obtain ⟨hb, habove⟩ := h.running hrun
      have hdr : ∀ n : Node, epochDraws (n.emit (.guarded x.1 x.2)).trace = epochDraws n.trace :=
        fun n => epochDraws_cons _ _
      refine ⟨?_, h.devFlag, fun hlt => ?_, fun _ => ⟨⟨?_, ?_⟩, fun hlt => ?_⟩⟩
      · exact le_of_le_of_eq h.bound (by rw [ofChecked, hdr])
      · exact (h.rise (by simpa only [ofChecked, hdr] using hlt)).congr rfl rfl (le_refl _)
      · exact le_of_le_of_eq hb.inUse (by rw [ofChecked, hdr])
      · exact le_of_le_of_eq hb.stored (by rw [ofChecked, hdr])
      · have hc := habove (by simpa only [ofChecked, hdr] using hlt)
        refine ⟨hc.production, hc.stored, hc.stamps, .inr ?_⟩
        exact hc.stamps x (by rw [hst]; exact List.mem_cons_self)
    -- the guard cannot refuse, since the frame was just stamped
    | false =>
      obtain ⟨es, hes⟩ := checkEpochRollback_refuse (w := w) ha
      rw [hes]
      have hle : epochDraws st.device.node.trace ≤ epochDraws (es ++ st.device.node.trace) := by
        rw [epochDraws_append]
        omega
      refine ⟨le_trans h.bound (Nat.add_le_add_left hle _), h.devFlag, fun hlt => ?_,
        fun hr => by cases hr⟩
      have hlt' : v₀ + epochDraws (es ++ st.device.node.trace) < 2 ^ 32 := hlt
      have hpass := hadv hrun (by omega) x (by rw [hst]; rfl)
      rw [hpass] at ha
      cases ha
  · exact h

/-- A restart. -/
theorem boot_inv (hp : b.config.devMode = false) (h : SenderInv v₀ st) :
    SenderInv v₀ { st with device := Device.step b st.device (e, .boot) } := by
  have hst := Device.stepTo b st.device e .boot
  generalize Device.step b st.device (e, .boot) = d at hst
  cases hst with
  | ignored hi => exact absurd rfl hi
  | ran hi => exact absurd rfl hi
  | halted hi => exact absurd rfl hi
  | @booted t ht =>
    have hle := ht.frame.epochDraws_le
    rw [Device.epochDraws_bootNode] at hle
    refine ⟨(Device.epochBound_booted h.bound ht).stored, ?_, fun hlt => ?_,
      fun _ => ⟨Device.epochBound_booted h.bound ht, fun hlt => ?_⟩⟩
    · show Nvs.flag t.nvs.devFlag = false
      rw [ht.frame.nvs.devFlag]
      exact h.devFlag
    -- the new epoch is above the stored one, so above all stamps
    · obtain ⟨-, hstored, hepoch⟩ := Device.booted_epoch hp h.devFlag h.bound ht hlt
      have hlt' : v₀ + epochDraws t.trace < 2 ^ 32 := hlt
      refine (h.rise (by omega)).congr rfl rfl ?_
      show _ ≤ (t.nvs.bootEpoch.getD 0).toNat
      rw [hstored, Option.getD_some]
      omega
    · obtain ⟨hdev, hstored, hepoch⟩ := Device.booted_epoch hp h.devFlag h.bound ht hlt
      have hlt' : v₀ + epochDraws t.trace < 2 ^ 32 := hlt
      have hs := h.rise (by omega)
      refine ⟨hdev, hstored, fun x hx => ?_, .inl (by rw [ht.txState]; rfl)⟩
      -- the stamps are of stored epochs, and this boot is above them
      have hx' := hs.stored x hx
      have hseq := x.2.toNat_lt
      show stampOf x.1 x.2 ≤ stampOf t.txState.bootEpoch t.txState.txSeqNum
      unfold stampOf
      omega
  | @bootHalted k u hu =>
    have hle := hu.epochDraws_le
    rw [Device.epochDraws_bootNode] at hle
    refine ⟨Device.storedBound_bootHalted h.bound hu, ?_, fun hlt => ?_, fun hr => by cases hr⟩
    · show Nvs.flag u.nvs.devFlag = false
      rw [hu.nvs.devFlag]
      exact h.devFlag
    · have hlt' : v₀ + epochDraws u.trace < 2 ^ 32 := hlt
      exact (h.rise (by omega)).congr rfl rfl (Device.storedEpoch_le_bootFrame h.bound hu hlt')

/-- The step lemma. -/
theorem step_inv (hp : b.config.devMode = false) (h : SenderInv v₀ st) (x : Env × SendOp) :
    SenderInv v₀ (step b st x) := by
  obtain ⟨e, op⟩ := x
  cases op with
  | boot => exact boot_inv hp h
  | stamp site =>
    by_cases hrun : st.device.status = .running
    · simp only [step, if_pos hrun]
      exact stamp_inv h hrun
    · simp only [step, if_neg hrun]
      exact h
  | send type data msgType =>
    by_cases hrun : st.device.status = .running
    · simp only [step, if_pos hrun]
      exact check_inv (stamp_inv h hrun) (stamp_advances h hrun)
    · simp only [step, if_neg hrun]
      exact h

/-- **The stamps of a life rise**, over any number of restarts: none has the number zero, none is of
an epoch above the stored one, and the seal guard refuses no frame that is checked as it was
built. -/
theorem stamps_rise {b : Board} {v : Nvs} {xs : List (Env × SendOp)}
    (hp : b.config.devMode = false) (hv : Nvs.flag v.devFlag = false)
    (hlt : (v.bootEpoch.getD 0).toNat +
      epochDraws (run b (blank v) xs).device.node.trace < 2 ^ 32 - 1) :
    StampsRise (run b (blank v) xs) := by
  have h0 : SenderInv (v.bootEpoch.getD 0).toNat (blank v) := by
    refine ⟨Nat.le_add_right _ _, hv, fun _ => ⟨List.Pairwise.nil, ?_, ?_, rfl⟩,
      fun h => by cases h⟩
    · exact fun x hx => absurd hx List.not_mem_nil
    · exact fun x hx => absurd hx List.not_mem_nil
  have hinv := Runs.run_invariant (C := fun _ _ => True) h0 (fun st x h _ => step_inv hp h x)
    (Runs.along_of_forall (fun _ _ => trivial) (blank v) xs)
  have hlt' : (v.bootEpoch.getD 0).toNat +
      epochDraws (run b (blank v) xs).device.node.trace < 2 ^ 32 := by omega
  exact hinv.rise hlt'

set_option maxRecDepth 100000 in
/-- A node that restarts between its frames. -/
theorem stamps_rise_restarted : StampsRise (run Sample.board (blank {})
    [(Sample.env 1 100, .boot), (Sample.env 1 200, .stamp .enrollmentRequest),
      (Sample.env 1 300, .send AdapterType.pir (Bytes.fill 64 5) MessageType.adapterData),
      (Sample.env 1 100, .boot),
      (Sample.env 1 200, .send AdapterType.pir (Bytes.fill 64 6) MessageType.adapterData)]) :=
  stamps_rise rfl rfl (by decide +kernel)

end Sender

end LatticeMesh
