import LatticeMesh.Counters
import LatticeMesh.Sealing

/-!
# Nonces over a whole life

The nonce of a seal is made of the epoch, the sequence number and the origin.  Over the life of a
production device the epochs come from flash and only move up, so the numbers of the frames it
seals rise from seal to seal, across reboots and across the wrap of the sequence number.

## Main definitions

* `NoncesUnique` — no two seals of a history under one key use one nonce for different plaintexts.
* `RisingTo` — the seals of a history rise, up to a number.
* `RisingInv`, `RisingNvs` — the invariants of a running and of any device.

## Main results

* `noncesUnique_run` — **without a frame that is resealed, no nonce is used twice in a life.**
* `not_noncesUnique_reflected` — a reflected frame of a later epoch leads to a nonce used twice.
-/

namespace LatticeMesh

open EffectSpec Relation History

/-- The key and the frame of a seal. -/
def Event.seal? : Event → Option (Key × Message)
  | .sealed key m => some (key, m)
  | _ => none

/-- The seals of a history. -/
def sealsOf (tr : List Event) : List (Key × Message) := tr.filterMap Event.seal?

/-- No two seals under one key use one nonce for different plaintexts. -/
def NoncesUnique (tr : List Event) : Prop :=
  (sealsOf tr).Pairwise fun a b =>
    a.1 = b.1 → a.2.data ≠ b.2.data → buildNonce a.2 ≠ buildNonce b.2

instance (tr : List Event) : Decidable (NoncesUnique tr) :=
  inferInstanceAs (Decidable (List.Pairwise _ _))

theorem mem_sealsOf {key : Key} {m : Message} {tr : List Event} :
    (key, m) ∈ sealsOf tr ↔ .sealed key m ∈ tr := by
  unfold sealsOf
  rw [List.mem_filterMap]
  constructor
  · rintro ⟨e, he, hs⟩
    cases e with
    | «sealed» =>
      obtain ⟨rfl, rfl⟩ := Prod.mk.inj (Option.some.inj hs)
      exact he
    | _ => cases hs
  · exact fun h => ⟨_, h, rfl⟩

/-- A seal is above all seals before it. -/
def Rising (e : Event) (tr : List Event) : Prop :=
  match e with
  | .sealed _ m => ∀ key m', .sealed key m' ∈ tr → m'.stamp < m.stamp
  | _ => True

/-- Whether an event belongs to the making of a sealed frame. -/
def Event.isSealing : Event → Bool
  | .built _ | .guarded .. | .sealed .. => true
  | _ => false

theorem Event.isSealing_of_isPlain {e : Event} (h : e.isPlain = true) : e.isSealing = false := by
  cases e with
  | built | guarded | «sealed» => cases h
  | _ => rfl

theorem rising_of_isSealing {e : Event} (h : e.isSealing = false) (tr : List Event) :
    Rising e tr := by
  cases e with
  | «sealed» => cases h
  | _ => trivial

/-- Seals that rise have nonces of their own. -/
theorem noncesUnique_of_always {tr : List Event} (h : Always Rising tr) : NoncesUnique tr := by
  induction tr with
  | nil => exact List.Pairwise.nil
  | cons e tr ih =>
    cases e with
    | «sealed» key m =>
      refine List.Pairwise.cons ?_ (ih h.2)
      rintro ⟨key', m'⟩ hm' - - hn
      have hlt : m'.stamp < m.stamp := h.1 key' m' (mem_sealsOf.1 hm')
      obtain ⟨he, hs, -⟩ := buildNonce_inj hn
      rw [Message.stamp, Message.stamp, ← he, ← hs] at hlt
      exact lt_irrefl _ hlt
    | _ => exact ih h.2

/-- The number of the frame that was built here and is about to be sealed, if there is one. -/
def pendingStamp : List Event → Option ℕ
  | .built m :: _ => some m.stamp
  | .guarded _ _ :: .built m :: _ => some m.stamp
  | _ => none

/-- The seals of a history rise, up to `n`, and a frame that is about to be sealed is above them. -/
structure RisingTo (tr : List Event) (n : ℕ) : Prop where
  below : ∀ key m, .sealed key m ∈ tr → m.stamp ≤ n
  pending : ∀ k, pendingStamp tr = some k → k ≤ n ∧ ∀ key m, .sealed key m ∈ tr → m.stamp < k
  rising : Always Rising tr

namespace RisingTo

variable {tr es : List Event} {n n' : ℕ}

theorem mono (h : RisingTo tr n) (hn : n ≤ n') : RisingTo tr n' := by
  refine ⟨fun key m hm => le_trans (h.below key m hm) hn, fun k hk => ?_, h.rising⟩
  obtain ⟨hle, habove⟩ := h.pending k hk
  exact ⟨le_trans hle hn, habove⟩

theorem pendingStamp_append (hes : ∀ e ∈ es, Event.isSealing e = false) (hne : es ≠ []) :
    pendingStamp (es ++ tr) = none := by
  cases es with
  | nil => exact absurd rfl hne
  | cons e es =>
    have he := hes e List.mem_cons_self
    cases e with
    | built | guarded => cases he
    | _ => rfl

theorem sealed_of_append {key : Key} {m : Message} (hes : ∀ e ∈ es, e.isSealing = false)
    (h : .sealed key m ∈ es ++ tr) : .sealed key m ∈ tr := by
  rcases List.mem_append.1 h with h | h
  · exact absurd (hes _ h) (by simp [Event.isSealing])
  · exact h

/-- Events that concern no seal. -/
theorem append (h : RisingTo tr n) (hes : ∀ e ∈ es, e.isSealing = false) :
    RisingTo (es ++ tr) n := by
  by_cases hnil : es = []
  · rw [hnil]
    exact h
  · refine ⟨fun key m hm => h.below key m (sealed_of_append hes hm), fun k hk => ?_,
      h.rising.append fun e he => rising_of_isSealing (hes e he)⟩
    rw [pendingStamp_append hes hnil] at hk
    cases hk

theorem cons {e : Event} (h : RisingTo tr n) (he : e.isSealing = false) :
    RisingTo (e :: tr) n := by
  show RisingTo ([e] ++ tr) n
  exact h.append (by simpa using he)

/-- Plain events. -/
theorem plain (h : RisingTo tr n) (hes : ∀ e ∈ es, e.isPlain = true) : RisingTo (es ++ tr) n :=
  h.append fun e he => Event.isSealing_of_isPlain (hes e he)

theorem built {m : Message} (h : RisingTo tr n) (hlt : n < m.stamp) :
    RisingTo (.built m :: tr) m.stamp := by
  have hold : ∀ key m', .sealed key m' ∈ Event.built m :: tr → m'.stamp < m.stamp := by
    intro key m' hm
    exact lt_of_le_of_lt (h.below key m' (by simpa using hm)) hlt
  refine ⟨fun key m' hm => le_of_lt (hold key m' hm), fun k hk => ?_, ⟨trivial, h.rising⟩⟩
  obtain rfl := Option.some.inj hk
  exact ⟨le_refl _, hold⟩

theorem guarded {e : UInt32} {q : UInt16} (h : RisingTo tr n) :
    RisingTo (.guarded e q :: tr) n := by
  refine ⟨fun key m hm => h.below key m (by simpa using hm), fun k hk => ?_, ⟨trivial, h.rising⟩⟩
  -- what is pending behind the guard's event was pending before it
  have hk' : pendingStamp tr = some k := by
    cases tr with
    | nil => cases hk
    | cons e' tr =>
      cases e' with
      | built => exact hk
      | _ => cases hk
  obtain ⟨hle, habove⟩ := h.pending k hk'
  exact ⟨hle, fun key m hm => habove key m (by simpa using hm)⟩

theorem «sealed» {key : Key} {m : Message} (h : RisingTo tr n)
    (hp : pendingStamp tr = some m.stamp) : RisingTo (.sealed key m :: tr) n := by
  obtain ⟨hle, habove⟩ := h.pending _ hp
  refine ⟨fun key' m' hm => ?_, fun k hk => (by cases hk), ⟨habove, h.rising⟩⟩
  rcases List.mem_cons.1 hm with heq | hm
  · obtain ⟨-, rfl⟩ := Event.sealed.inj heq
    exact hle
  · exact h.below key' m' hm

end RisingTo

/-- What holds of a running production device: the epoch in use is the stored one, and the seals
rise up to the counters. -/
structure RisingInv (s : Node) : Prop where
  production : s.eeprom.isDevMode = false
  stored : s.nvs.bootEpoch = some s.txState.bootEpoch
  rising : RisingTo s.trace s.txState.stamp

/-- What holds of any production device: the stored epoch is that of the last seal or a later
one. -/
structure RisingNvs (s : Node) : Prop where
  below : ∀ key m, .sealed key m ∈ s.trace → m.epochNum.toNat ≤ (s.nvs.bootEpoch.getD 0).toNat
  rising : Always Rising s.trace

theorem Message.epochNum_le {m : Message} {t : OutboundSequenceState} (h : m.stamp ≤ t.stamp) :
    m.epochNum.toNat ≤ t.bootEpoch.toNat := by
  have hs : t.txSeqNum.toNat < 65536 := t.txSeqNum.toNat_lt
  unfold Message.stamp OutboundSequenceState.stamp stampOf at h
  omega

theorem RisingInv.nvs {s : Node} (h : RisingInv s) : RisingNvs s := by
  refine ⟨fun key m hm => ?_, h.rising.rising⟩
  rw [h.stored]
  exact Message.epochNum_le (h.rising.below key m hm)

theorem RisingNvs.append {s u : Node} {es : List Event} (h : RisingNvs s)
    (he : u.trace = es ++ s.trace) (hes : ∀ e ∈ es, e.isSealing = false)
    (hle : (s.nvs.bootEpoch.getD 0).toNat ≤ (u.nvs.bootEpoch.getD 0).toNat) : RisingNvs u := by
  refine ⟨fun key m hm => ?_, ?_⟩
  · rw [he] at hm
    exact le_trans (h.below key m (RisingTo.sealed_of_append hes hm)) hle
  · rw [he]
    exact h.rising.append fun e he => rising_of_isSealing (hes e he)

/-! ### Changes -/

variable {w : World} {s₀ s t : Node} {i : Input} {v₀ : ℕ}

theorem Effect.stored (h : Effect w s₀ i s t) (hi : i ≠ .resetButton)
    (hd : s.eeprom.isDevMode = false) (hs : s.nvs.bootEpoch = some s.txState.bootEpoch) :
    t.nvs.bootEpoch = some t.txState.bootEpoch := by
  rcases h.counters with hc | ⟨hc, -⟩ | ⟨hr, -, -⟩
  · rw [hc.stored, hc.bootEpoch, hs]
  · rw [hc.stored, hc.bootEpoch]
    exact Node.stored_drawn hd hs
  · exact absurd hr hi

theorem JustGuarded.pendingStamp {m : Message} (h : JustGuarded s m) :
    pendingStamp s.trace = some m.stamp := by
  obtain ⟨m', tr, ht, hm⟩ := h
  rw [ht, hm]
  rfl

/-- **A change that seals no received frame keeps the seals rising.** -/
theorem RisingTo.effect (hs : RisingTo s.trace s.txState.stamp) (h : Effect w s₀ i s t)
    (hno : resealsUplink w s₀ i = false) (hb : EpochBound v₀ s)
    (hlt : v₀ + epochDraws t.trace < 2 ^ 32) : RisingTo t.trace t.txState.stamp := by
  have hle := h.stamp_le hb hlt
  obtain ⟨es, he, hadds⟩ := h.history
  cases hadds with
  | routine hes =>
    rw [he]
    exact (hs.plain fun e he => Event.isPlain_of_isRoutine (hes e he)).mono hle
  | @built es type data msgType hp ht hes =>
    have hd : epochDraws t.trace = epochDraws s.drawn.trace := by
      rw [ht]
      simp [Node.emit, epochDraws_cons, Event.isEpoch]
    have hrise : s.txState.stamp < s.drawn.txState.stamp := hb.stamp_drawn (by rwa [← hd])
    have hx : t.txState.stamp = s.drawn.txState.stamp := by rw [ht]; rfl
    have hold := hs.plain fun e he => Event.isPlain_of_isRoutine (hes e he)
    rw [he, hx]
    exact hold.built hrise
  | guarded =>
    rw [he]
    exact hs.guarded.mono hle
  | «sealed» hg =>
    rw [he]
    rcases hg with hg | hr
    · exact (hs.sealed hg.pendingStamp).mono hle
    · rw [hno] at hr
      cases hr
  | opened =>
    rw [he]
    exact (hs.cons rfl).mono hle

namespace Device

variable {b : Board} {d : Device} {e : Env}

/-- The steps of the life that is considered: no frame is resealed, and the flash is not wiped. -/
def Keeps (b : Board) (d : Device) (x : Env × Input) : Prop :=
  NoReseal b d x ∧ x.2 ≠ .resetButton

instance (b : Board) (d : Device) (x : Env × Input) : Decidable (Keeps b d x) :=
  inferInstanceAs (Decidable (_ ∧ _))

/-- A running device of the life: a production device whose seals rise, as long as epochs last. -/
structure LifeInv (v₀ : ℕ) (s : Node) : Prop where
  bound : EpochBound v₀ s
  devFlag : Nvs.flag s.nvs.devFlag = false
  inv : v₀ + epochDraws s.trace < 2 ^ 32 → RisingInv s

/-- Any device of the life. -/
structure LifeNvs (v₀ : ℕ) (s : Node) : Prop where
  bound : StoredBound v₀ s
  devFlag : Nvs.flag s.nvs.devFlag = false
  inv : v₀ + epochDraws s.trace < 2 ^ 32 → RisingNvs s

/-- A boot keeps the seals rising: it starts above all epochs that were stored. -/
theorem risingInv_booted {t : Node} (hp : b.config.devMode = false)
    (hf : Nvs.flag d.node.nvs.devFlag = false) (hb : StoredBound v₀ d.node)
    (h : Booted (b.world e) (d.bootNode b) t) (hd : RisingNvs d.node)
    (hlt : v₀ + epochDraws t.trace < 2 ^ 32) : RisingInv t := by
  obtain ⟨hdev, hstored, hepoch⟩ := booted_epoch hp hf hb h hlt
  have hstamp : ∀ key m, .sealed key m ∈ d.node.trace → m.stamp ≤ t.txState.stamp := by
    intro key m hm
    have hle := hd.below key m hm
    have hseq := m.seqNum.toNat_lt
    show stampOf m.epochNum m.seqNum ≤ stampOf t.txState.bootEpoch t.txState.txSeqNum
    unfold stampOf
    omega
  refine ⟨hdev, hstored, ?_⟩
  obtain ⟨es, he, hes⟩ := boot_history h.frame
  rw [he]
  refine RisingTo.plain ⟨fun key m hm => hstamp key m (by simpa using hm),
    fun k hk => (by cases hk), ⟨trivial, hd.rising⟩⟩ hes

/-- **The invariant of the life of a production device.** -/
theorem life_invariant {b : Board} (hp : b.config.devMode = false) (v₀ : ℕ) :
    Invariant b (Keeps b) (LifeInv v₀) (LifeNvs v₀) where
  weaken s h := ⟨h.bound.stored, h.devFlag, fun hlt => (h.inv hlt).nvs⟩
  boot d e t _ hd ht := by
    refine ⟨epochBound_booted hd.bound ht, ?_, fun hlt => ?_⟩
    · rw [ht.frame.nvs.devFlag]
      exact hd.devFlag
    · have hle := ht.frame.epochDraws_le
      rw [epochDraws_bootNode] at hle
      exact risingInv_booted hp hd.devFlag hd.bound ht (hd.inv (by omega)) hlt
  bootHalt d e u _ hd hu := by
    refine ⟨storedBound_bootHalted hd.bound hu, ?_, fun hlt => ?_⟩
    · rw [hu.nvs.devFlag]
      -- the boot is above the stored epoch, so what it seals is above all earlier seals
      exact hd.devFlag
    · have hle := hu.epochDraws_le
      rw [epochDraws_bootNode] at hle
      have hr := hd.inv (by omega)
      have hin : RisingNvs (d.node.emit (.input .boot)) :=
        hr.append (u := d.node.emit (.input .boot)) rfl
          -- a boot that halts has sealed nothing
          (List.forall_mem_singleton.2 rfl) (le_refl _)
      obtain ⟨es, he, hes⟩ := boot_history hu
      exact hin.append he (fun e he => Event.isSealing_of_isPlain (hes e he))
        (storedEpoch_le_bootFrame hd.bound hu hlt)
  input d e i _ _ h := by
    have hdr : epochDraws (d.inputNode i).trace = epochDraws d.node.trace :=
      epochDraws_cons _ _
    refine ⟨⟨by rw [hdr]; exact h.bound.inUse, by rw [hdr]; exact h.bound.stored⟩, h.devFlag,
      fun hlt => ?_⟩
    have hr := h.inv (by rwa [hdr] at hlt)
    exact ⟨hr.production, hr.stored, hr.rising.cons rfl⟩
  effect d e i s t hw hs h := by
    have hc := hw.admissible
    refine ⟨hs.bound.effect h, ?_, fun hlt => ?_⟩
    · rcases h.counters with hc' | ⟨hc', -⟩ | ⟨hr, -, -⟩
      -- the counters stay, or the next number is drawn; nobody wipes the flash
      · rw [hc'.devFlag]
        exact hs.devFlag
      · rw [hc'.devFlag, Node.drawn_devFlag]
        exact hs.devFlag
      · exact absurd hr hc.2
    · have hle := h.epochDraws_le
      have hr := hs.inv (by omega)
      exact ⟨h.sameDevice.isDevMode.trans hr.production, h.stored hc.2 hr.production hr.stored,
        hr.rising.effect h (hc.1 hw.running) hs.bound hlt⟩
  stop d e i s h u _ hs hu := by
    obtain ⟨es, he, hes⟩ := hu.plain
    -- a halt reports errors, and neither seals nor stores anything
    refine ⟨storedBound_stop hs.bound.stored hu, by rw [hu.nvs_eq]; exact hs.devFlag, fun hlt => ?_⟩
    have hr := hs.inv (by rw [he, epochDraws_append] at hlt; omega)
    exact hr.nvs.append he (fun e he => Event.isSealing_of_isPlain (hes e he))
      (by rw [hu.nvs_eq])

/-- **Without a frame that is resealed, no nonce is used twice in the life of a device**: over any
number of boots, as long as the epochs last. -/
theorem noncesUnique_run {b : Board} {v : Nvs} {xs : List (Env × Input)}
    (hp : b.config.devMode = false) (hv : Nvs.flag v.devFlag = false)
    (hc : Runs.Along (step b) (Keeps b) (blank v) xs)
    (hlt : (v.bootEpoch.getD 0).toNat + epochDraws (run b (blank v) xs).node.trace < 2 ^ 32) :
    NoncesUnique (run b (blank v) xs).node.trace := by
  have h0 : LifeNvs (v.bootEpoch.getD 0).toNat { nvs := v } :=
    ⟨Nat.le_add_right _ _, hv, fun _ => ⟨fun _ _ hm => absurd hm List.not_mem_nil, trivial⟩⟩
  have h := ((life_invariant hp _).run (meets_blank h0) hc).1
  exact noncesUnique_of_always (h.inv hlt).rising

set_option maxRecDepth 100000 in
/-- A leaf that sends, is switched off and on, and sends again. -/
theorem noncesUnique_sends : NoncesUnique (run Sample.board (blank {}) (Sample.admitted ++
    [(Sample.env 1 400, .transmit AdapterType.pir (Bytes.fill 64 5)), (Sample.env 1 100, .boot),
      (Sample.env 1 300, .rx (Sample.mac 7) Sample.beacon),
      (Sample.env 1 400, .transmit AdapterType.pir (Bytes.fill 64 6))])).node.trace :=
  noncesUnique_run rfl rfl (by decide +kernel) (by decide +kernel)

set_option maxRecDepth 100000 in
/-- **A reflected frame that runs ahead of the epoch takes the nonce of a later frame.** -/
theorem not_noncesUnique_reflected : ¬NoncesUnique (run Sample.board (blank {}) (Sample.admitted ++
    [(Sample.env 1 400, .rx (Sample.mac 9) (Sample.reflected 2 1)), (Sample.env 1 100, .boot),
      (Sample.env 1 300, .rx (Sample.mac 7) Sample.beacon),
      (Sample.env 1 400, .transmit AdapterType.pir (Bytes.fill 64 5))])).node.trace := by
  decide +kernel

end Device

end LatticeMesh
