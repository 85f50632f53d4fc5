import LatticeMesh.Handlers
import Mathlib.Data.Vector.Mem

/-!
# What a boot does

A boot starts from the flash alone.  This file says what the flash and the history look like after
any part of a boot, and what the whole node looks like after a boot that succeeds.

## Main definitions

* `BootNvs`, `BootFrame` — what a boot may have done to the flash and the history so far.
* `Booted` — the node after a boot.

## Main results

* `boots_initSubsystems` — **a boot ends in such a node, or halts with the flash as described.**
-/

namespace LatticeMesh

open EffectSpec Relation

variable {w : World} {s₀ s : Node}

/-! ### The flash and the history of a boot -/

/-- The default peers as the first boot writes them to slot `j`. -/
def Config.defaultRecords (c : Config) (j : Fin maxPeers) : Option PeerRecord :=
  if j.val < c.defaultPeers.length then some (peerRecordAt c.defaultPeerBytes j) else none

/-- Whether a boot writes the default peers. -/
def bootstraps (c : Config) (v : Nvs) : Bool :=
  !bootsInDevMode c v && !v.hasPeers && c.defaultPeers.length ≤ maxPeers

theorem bootsInDevMode_congr {c : Config} {v v' : Nvs} (h : v'.devFlag = v.devFlag) :
    bootsInDevMode c v' = bootsInDevMode c v := by
  unfold bootsInDevMode
  rw [h]

/-- What a boot may have done so far to the flash it started with. -/
structure BootNvs (c : Config) (v v' : Nvs) : Prop where
  devFlag : v'.devFlag = v.devFlag
  masterFlag : v'.masterFlag = v.masterFlag
  enrolledFlag : v'.enrolledFlag = v.enrolledFlag
  knownMasterMac : v'.knownMasterMac = v.knownMasterMac
  peer : ∀ j, v'.peer.get j = v.peer.get j ∨
    bootstraps c v = true ∧ v'.peer.get j = c.defaultRecords j
  bootEpoch : v'.bootEpoch = v.bootEpoch ∨
    bootsInDevMode c v = false ∧ v'.bootEpoch = some (v.bootEpoch.getD 0 + 1)
  keypair : ∀ kp, v.loadKeypair = some kp → v'.loadKeypair = some kp
  knownMasterMacSec : v'.knownMasterMacSec = v.knownMasterMacSec

theorem BootNvs.refl (c : Config) (v : Nvs) : BootNvs c v v :=
  ⟨rfl, rfl, rfl, rfl, fun _ => .inl rfl, .inl rfl, fun _ h => h, rfl⟩

/-- The events of a boot. -/
def Event.isBoot : Event → Bool
  | .nvs _ | .devEpoch _ => true
  | e => e.isFault

theorem Event.isPlain_of_isBoot {e : Event} (h : e.isBoot = true) : e.isPlain = true := by
  cases e with
  | input | built | guarded | sealed | opened => cases h
  | _ => rfl

/-- What a boot that started in `s₀` may have done so far. -/
structure BootFrame (c : Config) (s₀ s : Node) : Prop where
  nvs : BootNvs c s₀.nvs s.nvs
  trace : ∃ es, s.trace = es ++ s₀.trace ∧ ∀ e ∈ es, e.isBoot = true
  /-- An epoch that is stored counts as drawn. -/
  epoch : s.nvs.bootEpoch = s₀.nvs.bootEpoch ∧ s.eeprom.devEpoch = s₀.eeprom.devEpoch ∨
    epochDraws s₀.trace < epochDraws s.trace

theorem BootFrame.refl (c : Config) (s : Node) : BootFrame c s s :=
  ⟨.refl c s.nvs, ⟨[], rfl, by simp⟩, .inl ⟨rfl, rfl⟩⟩

theorem BootFrame.epochDraws_le {c : Config} (h : BootFrame c s₀ s) :
    epochDraws s₀.trace ≤ epochDraws s.trace := by
  obtain ⟨es, ht, -⟩ := h.trace
  rw [ht, epochDraws_append]
  omega

/-- One more event, and with it a write that leaves the epoch alone. -/
theorem BootFrame.write {c : Config} {e : Event} {v : Nvs} (h : BootFrame c s₀ s)
    (hv : BootNvs c s₀.nvs v) (he : e.isBoot = true)
    (hb : v.bootEpoch = s.nvs.bootEpoch ∨ e.isEpoch = true) :
    BootFrame c s₀ ({ s with nvs := v }.emit e) := by
  have hle := h.epochDraws_le
  obtain ⟨-, ⟨es, ht, hes⟩, hd⟩ := h
  refine ⟨hv, ⟨e :: es, congrArg (e :: ·) ht, ?_⟩, ?_⟩
  · rintro x (_ | ⟨_, hx⟩)
    · exact he
    · exact hes x hx
  · show v.bootEpoch = _ ∧ _ ∨ epochDraws s₀.trace < epochDraws (e :: s.trace)
    rw [epochDraws_cons]
    rcases hb with hb | hb
    · rw [hb]
      exact hd.imp_right fun h => by omega
    · rw [if_pos hb]
      exact .inr (by omega)

theorem BootFrame.emit {c : Config} {e : Event} (h : BootFrame c s₀ s) (he : e.isBoot = true) :
    BootFrame c s₀ (s.emit e) := h.write h.nvs he (.inl rfl)

/-- The write of an epoch in dev mode. -/
theorem BootFrame.devWrite {c : Config} (h : BootFrame c s₀ s) (epoch : UInt32) :
    BootFrame c s₀
      ({ s with eeprom := { s.eeprom with devEpoch := epoch } }.emit (.devEpoch epoch)) := by
  have he := h.emit (e := .devEpoch epoch) rfl
  refine ⟨he.nvs, he.trace, .inr ?_⟩
  show epochDraws s₀.trace < epochDraws (.devEpoch epoch :: s.trace)
  rw [epochDraws_cons]
  exact Nat.lt_succ_of_le h.epochDraws_le

/-- A change of memory alone. -/
theorem BootFrame.congr {c : Config} {t : Node} (h : BootFrame c s₀ s) (hn : t.nvs = s.nvs)
    (ht : t.trace = s.trace) (hd : t.eeprom.devEpoch = s.eeprom.devEpoch) : BootFrame c s₀ t :=
  ⟨hn ▸ h.nvs, ht ▸ h.trace, by rw [hn, ht, hd]; exact h.epoch⟩

theorem Event.isBoot_of_isFault {e : Event} (h : e.isFault = true) : e.isBoot = true := by
  cases e with
  | nvs | devEpoch => rfl
  | _ => exact h

/-- An abandoned part of a boot. -/
theorem BootFrame.aborted {u : Node} (h : BootFrame w.config s₀ s) (hu : Aborted s u) :
    BootFrame w.config s₀ u := by
  obtain ⟨es, ht, hes⟩ := h.trace
  obtain ⟨es', ht', hes'⟩ := hu.trace
  refine ⟨hu.nvs ▸ h.nvs, ⟨es' ++ es, by rw [ht', ht, List.append_assoc], fun e he => ?_⟩, ?_⟩
  · rcases List.mem_append.1 he with he | he
    · exact Event.isBoot_of_isFault (hes' e he)
    · exact hes e he
  · rw [hu.nvs, hu.eeprom, ht', epochDraws_append]
    exact h.epoch.imp_right fun h => by omega

/-- The program `x`, run in `s` within a boot that started in `s₀`, stays within the frame of a
boot, also where it halts, and returns values that meet `Q`. -/
abbrev Boots {α : Type} (w : World) (s₀ s : Node) (x : MeshM α) (Q : α → Node → Prop) : Prop :=
  Spec (fun _ t => BootFrame w.config s₀ t) (fun _ _ u => BootFrame w.config s₀ u) s x Q

/-- The frame is kept along a program. -/
theorem boots_frame {t : Node} (h : BootFrame w.config s₀ s)
    (hst : ReflTransGen (fun _ t => BootFrame w.config s₀ t) s t) : BootFrame w.config s₀ t := by
  cases hst with
  | refl => exact h
  | tail _ h => exact h

/-- Sequencing within a boot. -/
theorem boots_bind {α β : Type} {x : MeshM α} {f : α → MeshM β} {Q : α → Node → Prop}
    {Q' : β → Node → Prop} (h : BootFrame w.config s₀ s) (hx : Boots w s₀ s x Q)
    (hf : ∀ a t, BootFrame w.config s₀ t → Q a t → Boots w s₀ t (f a) Q') :
    Boots w s₀ s (x >>= f) Q' :=
  Spec.bind hx fun a t hst hq => hf a t (boots_frame h hst) hq

/-! ### Errors and writes -/

theorem boots_stop {α : Type} {e : Halt} {Q : α → Node → Prop} (h : BootFrame w.config s₀ s) :
    Boots w s₀ s (throw e) Q := Spec.raise h

theorem boots_fail {t : ErrorTypeDigit} {m : ModuleDigit} {sub : ℕ} {text : String}
    (h : BootFrame w.config s₀ s) :
    Boots w s₀ s (fail w t m sub text) fun _ u =>
      t.restarts = false ∧ u = s.emit (.errFail t m sub text) := by
  have h' := h.emit (e := .errFail t m sub text) rfl
  refine wp_signalError (fun _ _ => ⟨s, .refl, h'.emit rfl⟩) (fun _ => ⟨s, .refl, h'⟩) ?_
  exact fun hr => ⟨.single h', hr, rfl⟩

theorem boots_fatal {α : Type} {t : ErrorTypeDigit} {m : ModuleDigit} {sub : ℕ} {text : String}
    {Q : α → Node → Prop} (h : BootFrame w.config s₀ s) :
    Boots w s₀ s (fatal w t m sub text) Q := by
  have h' := h.emit (e := .errFatal t m sub text) rfl
  unfold Boots Spec fatal
  rw [wp_bind, wp_emit, wp_bind]
  exact wp_signalError (fun _ _ => ⟨s, .refl, h'.emit rfl⟩) (fun _ => ⟨s, .refl, h'⟩)
    fun _ => ⟨s, .refl, h'⟩

theorem boots_checkEsp {ok : Bool} {type : ErrorType} {text : String}
    (h : BootFrame w.config s₀ s) :
    Boots w s₀ s (checkEsp w ok type text) fun _ t =>
      t = { s with trace := t.trace } ∧ (ok = false → (toDigit type).restarts = false) := by
  refine Spec.ite (fun hok => Spec.ret ⟨rfl, by simp [hok]⟩) fun _ => ?_
  refine Spec.mono (boots_fail h) ?_
  rintro _ _ - ⟨hr, rfl⟩
  exact ⟨rfl, fun _ => hr⟩

/-- A security-relevant write within a boot. -/
theorem boots_nvsSave {op : NvsOp} (h : BootFrame w.config s₀ s)
    (hb : (op.apply s.nvs).bootEpoch = s.nvs.bootEpoch)
    (hn : s.eeprom.isDevMode = false → BootNvs w.config s₀.nvs (op.apply s.nvs)) :
    Boots w s₀ s (nvsSave w op true) fun _ t => t = s.saved op := by
  refine wp_nvsSave ⟨.single ?_, rfl⟩ fun _ u hu => ⟨s, .refl, ?_⟩
  · unfold Node.saved
    split
    · exact h
    · exact h.write (hn (by simpa using ‹¬s.eeprom.isDevMode = true›)) rfl (.inl hb)
  · exact h.aborted hu

/-! ### Default peers -/

theorem Nvs.hasPeers_of_get {v : Nvs} {j : Fin maxPeers} {r : PeerRecord}
    (h : v.peer.get j = some r) : v.hasPeers = true := by
  refine List.any_eq_true.2 ⟨some r, ?_, rfl⟩
  rw [← h]
  exact List.Vector.get_mem j v.peer

theorem Nvs.get_of_not_hasPeers {v : Nvs} (h : v.hasPeers = false) (j : Fin maxPeers) :
    v.peer.get j = none := by
  have := List.any_eq_false.1 h _ (List.Vector.get_mem j v.peer)
  simpa using this

/-- The stored registry after the default peers were bootstrapped. -/
def BootPeers (c : Config) (v : Nvs) (p : List.Vector (Option PeerRecord) maxPeers) : Prop :=
  if bootstraps c v then ∀ j, p.get j = c.defaultRecords j else p = v.peer

/-- The state at the start of a boot, before anything was written. -/
structure BootStart (c : Config) (s₀ s : Node) : Prop where
  frame : BootFrame c s₀ s
  nvs : s.nvs = s₀.nvs
  isDevMode : s.eeprom.isDevMode = bootsInDevMode c s₀.nvs

theorem Event.isBoot_of_isPeerWrite {e : Event} (h : e.isPeerWrite = true) : e.isBoot = true := by
  cases e with
  | nvs => rfl
  | _ => cases h

/-- The default records, written up to some slot. -/
theorem BootStart.savedBelow {k : ℕ} {t : Node} (h : BootStart w.config s₀ s)
    (hb : bootstraps w.config s₀.nvs = true)
    (ht : SavedBelow w.config.defaultRecords k s t) : BootFrame w.config s₀ t ∧
      ∀ j : Fin maxPeers, j.val < k → t.nvs.peer.get j = w.config.defaultRecords j := by
  have hb' := hb
  simp only [bootstraps, Bool.and_eq_true, Bool.not_eq_true'] at hb'
  -- the slots written so far hold the records of the configuration
  have hslot : ∀ j : Fin maxPeers, j.val < k →
      t.nvs.peer.get j = w.config.defaultRecords j := by
    intro j hj
    have hs := ht.slots j
    rw [if_pos hj, h.isDevMode, hb'.1.1, h.nvs, Nvs.get_of_not_hasPeers hb'.1.2] at hs
    cases hr : w.config.defaultRecords j with
    | some r =>
      rw [hr, slotSaved_some] at hs
      exact hs
    | none =>
      rw [hr, slotSaved_none, or_self] at hs
      exact hs
  refine ⟨⟨?_, ?_, ?_⟩, hslot⟩
  -- the other slots are as they were
  · rw [ht.written.nvs]
    refine ⟨by rw [h.nvs], by rw [h.nvs], by rw [h.nvs], by rw [h.nvs], fun j => ?_,
      .inl (by rw [h.nvs]), by rw [h.nvs]; exact fun _ h => h, by rw [h.nvs]⟩
    by_cases hj : j.val < k
    · exact .inr ⟨hb, hslot j hj⟩
    · have hs := ht.slots j
      rw [if_neg hj, h.nvs] at hs
      exact .inl hs
  · obtain ⟨es, htr, hes⟩ := ht.written.trace
    obtain ⟨es₀, htr₀, hes₀⟩ := h.frame.trace
    refine ⟨es ++ es₀, by rw [htr, htr₀, List.append_assoc], fun e he => ?_⟩
    exact (List.mem_append.1 he).elim (fun he => Event.isBoot_of_isPeerWrite (hes e he)) (hes₀ e)
  · have hle := h.frame.epochDraws_le
    obtain ⟨es, htr, -⟩ := ht.written.trace
    rw [ht.rest, htr, epochDraws_append]
    show t.nvs.bootEpoch = _ ∧ s.eeprom.devEpoch = _ ∨ _
    rw [ht.written.nvs]
    exact h.frame.epoch.imp_right fun h => by omega

/-- After the default peers. -/
def AfterPeers (c : Config) (s₀ s t : Node) : Prop :=
  ∃ p tr, t = { s with nvs := { s₀.nvs with peer := p }, trace := tr } ∧ BootPeers c s₀.nvs p

theorem AfterPeers.skip {c : Config} (h : BootStart c s₀ s) (hb : bootstraps c s₀.nvs = false) :
    AfterPeers c s₀ s s := by
  refine ⟨s₀.nvs.peer, s.trace, ?_, ?_⟩
  · rw [← h.nvs]
  · rw [BootPeers, hb]
    rfl

theorem boots_bootstrapPeers (h : BootStart w.config s₀ s) :
    Boots w s₀ s (bootstrapPeers w) fun _ t => AfterPeers w.config s₀ s t := by
  refine Spec.read_bind (Spec.ite (fun hc => Spec.ret (.skip h ?_)) fun hc => Spec.read_bind
    (Spec.ite (fun hc' => Spec.ret (.skip h ?_)) fun hc' => ?_))
  · rw [h.isDevMode, h.nvs] at hc
    rcases hc with hc | hc <;> simp [bootstraps, hc]
  · rw [h.isDevMode, h.nvs] at hc
    rw [h.isDevMode] at hc'
    have : ¬w.config.defaultPeers.length ≤ maxPeers := by
      rcases hc' with hc' | hc'
      · exact absurd hc' (fun hd => hc (.inl hd))
      · omega
    simp [bootstraps, this]
  · rw [h.isDevMode, h.nvs, not_or, Bool.not_eq_true, Bool.not_eq_true] at hc
    rw [h.isDevMode, not_or, Bool.not_eq_true, not_lt] at hc'
    have hb : bootstraps w.config s₀.nvs = true := by simp [bootstraps, hc, hc'.2]
    refine wp_mono _ (fun _ t ht => ?_) ?_ (wp_writePeerSlots w.config.defaultRecords)
    · obtain ⟨hf, hs⟩ := h.savedBelow hb ht
      refine ⟨.single hf, t.nvs.peer, t.trace, ?_, ?_⟩
      · have hn := ht.written.nvs
        rw [h.nvs] at hn
        rw [← hn]
        exact ht.rest
      · rw [BootPeers, hb]
        exact fun j => hs j j.isLt
    · rintro _ u ⟨-, k, t, -, ht, -, hu⟩
      exact ⟨s, .refl, (h.savedBelow hb ht).1.aborted hu⟩

/-! ### Adapter and keys -/

theorem boots_initializeDefaultsIfUnset (h : BootFrame w.config s₀ s) :
    Boots w s₀ s (initializeDefaultsIfUnset w) fun _ t =>
      ∃ a tr, t = { s with nvs := { s.nvs with adapterType := a }, trace := tr } := by
  refine Spec.read_bind (Spec.ite (fun _ => Spec.ret ⟨_, _, rfl⟩) fun _ => ?_)
  refine Spec.ite (fun _ => ?_) fun _ => Spec.ret ⟨_, _, rfl⟩
  refine Spec.read_bind (Spec.ite (fun _ => Spec.ret ⟨_, _, rfl⟩) fun _ => ?_)
  refine Spec.ite (fun _ => ⟨.single (h.write ?_ rfl (.inl rfl)), _, _, rfl⟩) fun _ =>
    Spec.ret ⟨_, _, rfl⟩
  have hn := h.nvs
  exact ⟨hn.1, hn.2, hn.3, hn.4, hn.5, hn.6, hn.7, hn.8⟩

theorem boots_initPir (h : BootFrame w.config s₀ s) :
    Boots w s₀ s (initPir w) fun _ t => ∃ tr, t = { s with trace := tr } := by
  have hfail : ∀ sub text, Boots w s₀ s (do fail w .config .adapter sub text; pure false)
      fun _ t => ∃ tr, t = { s with trace := tr } := by
    intro sub text
    refine boots_bind h (boots_fail h) ?_
    rintro _ _ - ⟨-, rfl⟩
    exact Spec.ret ⟨_, rfl⟩
  refine Spec.ite (fun _ => hfail _ _) fun _ => Spec.ite (fun _ => hfail _ _) fun _ => ?_
  exact Spec.ret ⟨_, rfl⟩

theorem boots_createAdapter (h : BootFrame w.config s₀ s) :
    Boots w s₀ s (createAdapter w) fun _ t =>
      ∃ a tr, t = { s with adapterType := a, trace := tr } := by
  refine Spec.read_bind (Spec.ite (fun _ => ?_) fun _ => ?_)
  · have h' : BootFrame w.config s₀ { s with adapterType := bootAdapterType s w.config } :=
      h.congr rfl rfl rfl
    refine Spec.update_bind h' (boots_bind (Q := fun _ t => ∃ tr, t =
      { s with adapterType := bootAdapterType s w.config, trace := tr }) h' ?_ ?_)
    · exact Spec.ite (fun _ => boots_initPir h') fun _ => Spec.ret ⟨_, rfl⟩
    · rintro ok t ht ⟨tr, rfl⟩
      exact Spec.ite (fun _ => Spec.ret ⟨_, _, rfl⟩) fun _ => boots_fatal ht
  · exact boots_bind h (boots_fail h) fun _ _ ht _ => boots_fatal ht

theorem Node.saved_meshKey (s : Node) (k : Bytes 16) : ∃ v tr,
    s.saved (.meshKey k) = { s with nvs := { s.nvs with meshKey := v }, trace := tr } := by
  by_cases hd : s.eeprom.isDevMode = true
  · exact ⟨s.nvs.meshKey, s.trace, Node.saved_of_dev hd _⟩
  · exact ⟨some k, _, Node.saved_of_not_dev hd _⟩

theorem boots_loadMeshKey (h : BootFrame w.config s₀ s) :
    Boots w s₀ s (loadMeshKeyFromEEPROM w) fun _ t =>
      ∃ k v tr, t = { s with meshKey := k, nvs := { s.nvs with meshKey := v }, trace := tr } := by
  refine Spec.update_bind (h.congr rfl rfl rfl) (Spec.read_bind (Spec.ite (fun _ => ?_) fun _ =>
    Spec.ret ⟨_, _, _, rfl⟩))
  refine Spec.update_bind (h.congr rfl rfl rfl)
    (Spec.mono (boots_nvsSave (h.congr rfl rfl rfl) rfl ?_) ?_)
  · have hn := h.nvs
    exact fun _ => ⟨hn.1, hn.2, hn.3, hn.4, hn.5, hn.6, hn.7, hn.8⟩
  · rintro _ t - ht
    obtain ⟨v, tr, hv⟩ := Node.saved_meshKey _ w.config.defaultMeshKey
    exact ⟨_, v, tr, ht.trans hv⟩

/-- The stored keypair is the one in memory, unless dev mode stores none. -/
def KeypairStored (s : Node) : Prop :=
  s.eeprom.isDevMode = false →
    s.nvs.loadKeypair = some (s.enrollment.devicePrivateKey, s.enrollment.devicePublicKey)

/-- Where the keypair of a boot comes from: the flash, or key generation. -/
def KeypairFrom (w : World) (v : Nvs) (e : Enrollment) : Prop :=
  v.loadKeypair = some (e.devicePrivateKey, e.devicePublicKey) ∨
    v.loadKeypair = none ∧
      w.crypto.x25519Keygen w.entropy = some (e.devicePrivateKey, e.devicePublicKey)

theorem toUInt32_ne_unset (c : UInt16) : c.toUInt32 ≠ 0xFFFFFFFF := by
  intro h
  have h' := congrArg UInt32.toNat h
  have hlt := c.toNat_lt
  simp at h'
  omega

/-- A stored keypair is loaded again. -/
theorem loadKeypair_saved {v : Nvs} {priv pub : Key} :
    Nvs.loadKeypair { v with
      privateKey := some priv, publicKey := some pub
      keypairCrc := some (crcOfKeypair priv pub).toUInt32 } = some (priv, pub) := by
  unfold Nvs.loadKeypair
  simp [toUInt32_ne_unset]

theorem boots_saveKeypair {priv pub : Key} (h : BootFrame w.config s₀ s)
    (hnone : s₀.nvs.loadKeypair = none) :
    Boots w s₀ s (saveKeypair w priv pub) fun _ t =>
      ∃ a b c tr, t = { s with
          nvs := { s.nvs with privateKey := a, publicKey := b, keypairCrc := c }, trace := tr } ∧
        (s.eeprom.isDevMode = false → t.nvs.loadKeypair = some (priv, pub)) := by
  have hkeep : ∀ kp, s₀.nvs.loadKeypair = some kp → False := by simp [hnone]
  have hn := h.nvs
  unfold saveKeypair
  refine boots_bind h (boots_nvsSave h rfl fun _ =>
    ⟨hn.1, hn.2, hn.3, hn.4, hn.5, hn.6, fun kp hk => (hkeep kp hk).elim, hn.8⟩) ?_
  rintro _ t ht rfl
  have hn := ht.nvs
  refine boots_bind ht (boots_nvsSave ht rfl fun _ =>
    ⟨hn.1, hn.2, hn.3, hn.4, hn.5, hn.6, fun kp hk => (hkeep kp hk).elim, hn.8⟩) ?_
  rintro _ u hu rfl
  have hn := hu.nvs
  refine Spec.mono (boots_nvsSave hu rfl fun _ =>
    ⟨hn.1, hn.2, hn.3, hn.4, hn.5, hn.6, fun kp hk => (hkeep kp hk).elim, hn.8⟩) ?_
  rintro _ _ - rfl
  by_cases hd : s.eeprom.isDevMode = true
  · rw [Node.saved_of_dev hd, Node.saved_of_dev hd, Node.saved_of_dev hd]
    exact ⟨_, _, _, _, rfl, fun hf => absurd hf (by simp [hd])⟩
  · have hd' : s.eeprom.isDevMode = false := by simpa using hd
    simp only [Node.saved, Node.emit, hd', Bool.false_eq_true, if_false]
    exact ⟨_, _, _, _, rfl, fun _ => loadKeypair_saved⟩

theorem boots_loadOrGenerateKeypair (h : BootFrame w.config s₀ s)
    (hk : s.nvs.loadKeypair = s₀.nvs.loadKeypair) :
    Boots w s₀ s (loadOrGenerateKeypair w) fun _ t =>
      ∃ a b c tr priv pub, t = { s.withKeypair priv pub with
          nvs := { s.nvs with privateKey := a, publicKey := b, keypairCrc := c }, trace := tr } ∧
        KeypairFrom w s₀.nvs t.enrollment ∧ KeypairStored t := by
  refine Spec.read_bind ?_
  cases hload : s.nvs.loadKeypair with
  | some kp =>
    refine Spec.update (h.congr rfl rfl rfl) ⟨_, _, _, _, kp.1, kp.2, rfl, .inl ?_, fun _ => hload⟩
    rw [← hk]
    exact hload
  | none =>
    have hnone : s₀.nvs.loadKeypair = none := hk ▸ hload
    cases hg : w.crypto.x25519Keygen w.entropy with
    | none => exact boots_fatal h
    | some kp =>
      refine Spec.update_bind (h.congr rfl rfl rfl)
        (Spec.mono (boots_saveKeypair (h.congr rfl rfl rfl) hnone) ?_)
      rintro _ _ - ⟨a, b, c, tr, rfl, hs⟩
      exact ⟨a, b, c, tr, kp.1, kp.2, rfl, .inr ⟨hnone, hg⟩, hs⟩

/-! ### Epoch and radio -/

/-- The epoch that a boot starts. -/
def bootEpochOf (c : Config) (v : Nvs) : UInt32 :=
  (if bootsInDevMode c v then 0 else v.bootEpoch.getD 0) + 1

/-- The epoch that is stored after a boot; dev mode stores none. -/
def Nvs.epochAfterBoot (c : Config) (v : Nvs) : Option UInt32 :=
  if bootsInDevMode c v then v.bootEpoch else some (bootEpochOf c v)

/-- The mode after a boot; dev mode keeps the epoch in memory. -/
def EepromState.afterBoot (e : EepromState) (c : Config) (v : Nvs) : EepromState :=
  { e with devEpoch := if bootsInDevMode c v then bootEpochOf c v else e.devEpoch }

theorem boots_startEpoch (h : BootFrame w.config s₀ s) (he : s.nvs.bootEpoch = s₀.nvs.bootEpoch)
    (hd : s.eeprom.isDevMode = bootsInDevMode w.config s₀.nvs) (hz : s.eeprom.devEpoch = 0) :
    Boots w s₀ s (startEpoch w) fun _ t =>
      ∃ tr, t = { s with
        eeprom := s.eeprom.afterBoot w.config s₀.nvs
        nvs := { s.nvs with bootEpoch := s₀.nvs.epochAfterBoot w.config }
        replay := ReplayCache.empty
        txState := s.txState.init (bootEpochOf w.config s₀.nvs)
        trace := tr } := by
  have hepoch : s.loadBootEpoch + 1 = bootEpochOf w.config s₀.nvs := by
    unfold Node.loadBootEpoch bootEpochOf
    rw [hd, he, hz]
  refine Spec.read_bind ?_
  simp only [hepoch]
  refine boots_bind (Q := fun _ t => t = s.savedEpoch (bootEpochOf w.config s₀.nvs)) h ?_ ?_
  · refine wp_saveBootEpoch ⟨.single ?_, rfl⟩ fun op ho u hu => ⟨s, .refl, h.aborted hu⟩
    unfold Node.savedEpoch
    split
    · exact (h.devWrite _)
    · rename_i hdev
      have hdev' : bootsInDevMode w.config s₀.nvs = false := by rw [← hd]; simpa using hdev
      have hn := h.nvs
      refine h.write ⟨hn.1, hn.2, hn.3, hn.4, hn.5, .inr ⟨hdev', ?_⟩, hn.7, hn.8⟩ rfl (.inr rfl)
      simp [bootEpochOf, hdev']
  · rintro _ _ ht rfl
    refine Spec.update (ht.congr rfl rfl rfl) ?_
    unfold Nvs.epochAfterBoot EepromState.afterBoot
    rw [← he]
    cases hdev : bootsInDevMode w.config s₀.nvs with
    | true =>
      rw [Node.savedEpoch, if_pos (hd.trans hdev)]
      exact ⟨.devEpoch (bootEpochOf w.config s₀.nvs) :: s.trace, rfl⟩
    | false =>
      rw [Node.savedEpoch, if_neg (by simp [hd, hdev])]
      exact ⟨.nvs (.bootEpoch (bootEpochOf w.config s₀.nvs)) :: s.trace, rfl⟩

theorem boots_setupRadio (h : BootFrame w.config s₀ s) :
    Boots w s₀ s (setupRadio w) fun _ t =>
      ∃ tr, t = { s with
        deviceMac := w.stationMac, peers := s.peers.setDeviceMac w.stationMac, trace := tr } := by
  refine boots_bind (Q := fun _ t => t = s) h ?_ ?_
  · exact Spec.ite (fun _ => Spec.ret rfl) fun _ => boots_stop h
  rintro _ _ - rfl
  refine boots_bind h (boots_checkEsp h) ?_
  rintro _ t ht ⟨hrest, -⟩
  refine boots_bind (Q := fun _ u => u = { t with deviceMac := w.stationMac }) ht ?_ ?_
  · refine Spec.ite (fun _ => Spec.update (ht.congr rfl rfl rfl) rfl) fun _ => ?_
    exact Spec.mono (boots_fail ht) fun _ _ _ hu => absurd hu.1 (by decide)
  · rintro _ _ hu rfl
    refine Spec.update (hu.congr rfl rfl rfl) ⟨t.trace, ?_⟩
    rw [hrest]

theorem boots_setupEspNow (h : BootFrame w.config s₀ s) :
    Boots w s₀ s (setupEspNow w) fun _ t =>
      ∃ r tr, t = { s with radioPeers := r, trace := tr } := by
  refine Spec.ite (fun _ => ?_) fun _ => ?_
  · refine boots_bind h (boots_fail h) ?_
    rintro _ _ - ⟨-, rfl⟩
    exact Spec.ret ⟨_, _, rfl⟩
  refine boots_bind h (boots_checkEsp h) ?_
  rintro _ t ht ⟨hrest, -⟩
  refine Spec.update_bind (ht.congr rfl rfl rfl) (Spec.read_bind ?_)
  refine boots_bind (Q := fun _ u => ∃ r tr, u = { s with radioPeers := r, trace := tr })
    (ht.congr rfl rfl rfl) ?_ fun _ _ _ hq => Spec.ret hq
  refine Spec.forM ⟨_, t.trace, by rw [hrest]⟩ ?_
  rintro p - u hu ⟨r, tr, rfl⟩
  have hf : BootFrame w.config s₀ { s with radioPeers := r, trace := tr } := by
    refine boots_frame ?_ hu
    exact ht.congr rfl rfl rfl
  refine Spec.read_bind (Spec.ite (fun _ => Spec.ret ⟨r, tr, rfl⟩) fun _ => Spec.ite (fun _ => ?_)
    fun _ => ?_)
  · exact Spec.update (hf.congr rfl rfl rfl) ⟨_, _, rfl⟩
  · refine Spec.mono (boots_checkEsp hf) ?_
    rintro _ v - ⟨hv, -⟩
    exact ⟨r, v.trace, hv⟩

/-! ### The whole boot -/

/-- The node after a boot that started in `s₀`. -/
structure Booted (w : World) (s₀ t : Node) : Prop where
  frame : BootFrame w.config s₀ t
  deviceMac : t.deviceMac = w.stationMac
  isDevMode : t.eeprom.isDevMode = bootsInDevMode w.config s₀.nvs
  isMaster : t.isMaster = if t.eeprom.isDevMode then w.config.defaultDevMaster
    else Nvs.flag s₀.nvs.masterFlag
  dualMasterMode : t.dualMasterMode = s₀.dualMasterMode
  stored : BootPeers w.config s₀.nvs t.nvs.peer
  peers : t.peers.peers = (PeerRegistry.loadFromEEPROM {} w.config t.nvs).peers
  e2eKeys : t.e2eKeys.Holds fun _ => False
  bootEpoch : t.nvs.bootEpoch = s₀.nvs.epochAfterBoot w.config
  devEpoch : t.eeprom.devEpoch =
    if bootsInDevMode w.config s₀.nvs then bootEpochOf w.config s₀.nvs else s₀.eeprom.devEpoch
  txState : t.txState = OutboundSequenceState.init {} (bootEpochOf w.config s₀.nvs)
  replay : t.replay = ReplayCache.empty
  knownMasterMac : (t.enrollment.knownMasterMac, t.enrollment.hasMasterMac) =
    Nvs.loadMac s₀.nvs.knownMasterMac broadcastMac
  enrolled : t.enrollment.enrolled = Nvs.flag s₀.nvs.enrolledFlag
  keypair : KeypairFrom w s₀.nvs t.enrollment
  keypairStored : KeypairStored t

theorem boots_initMesh (h : BootFrame w.config s₀ s)
    (hk : s.nvs.loadKeypair = s₀.nvs.loadKeypair) (he : s.nvs.bootEpoch = s₀.nvs.bootEpoch)
    (hd : s.eeprom.isDevMode = bootsInDevMode w.config s₀.nvs) (hz : s.eeprom.devEpoch = 0) :
    Boots w s₀ s (initMesh w) fun _ t => ∃ v r m tr priv pub,
      (t = { (({ s with peers := s.peers.loadFromEEPROM w.config s.nvs }.withKeypair
          priv pub).loadMasters).reevaluateRouteTable with
        deviceMac := w.stationMac
        peers := (s.peers.loadFromEEPROM w.config s.nvs).setDeviceMac w.stationMac
        meshKey := m
        eeprom := s.eeprom.afterBoot w.config s₀.nvs
        nvs := v
        replay := ReplayCache.empty
        txState := s.txState.init (bootEpochOf w.config s₀.nvs)
        radioPeers := r
        trace := tr }) ∧ v.bootEpoch = s₀.nvs.epochAfterBoot w.config ∧ v.peer = s.nvs.peer ∧
      KeypairFrom w s₀.nvs t.enrollment ∧ KeypairStored t := by
  refine Spec.update_bind (h.congr rfl rfl rfl) ?_
  refine boots_bind (h.congr rfl rfl rfl) (boots_loadMeshKey (h.congr rfl rfl rfl)) ?_
  rintro _ _ h₁ ⟨k, vk, tr₁, rfl⟩
  refine boots_bind (Q := fun _ t => ∃ a b c tr priv pub, t = Node.loadMasters
      { ({ s with
          peers := s.peers.loadFromEEPROM w.config s.nvs, meshKey := k }.withKeypair priv pub) with
        nvs := { s.nvs with meshKey := vk, privateKey := a, publicKey := b, keypairCrc := c }
        trace := tr } ∧ KeypairFrom w s₀.nvs t.enrollment ∧ KeypairStored t) h₁ ?_ ?_
  · refine boots_bind h₁ (boots_loadOrGenerateKeypair h₁ hk) ?_
    rintro _ _ h₂ ⟨a, b, c, tr, priv, pub, rfl, hf, hs⟩
    exact Spec.update (h₂.congr rfl rfl rfl) ⟨a, b, c, tr, priv, pub, rfl, hf, hs⟩
  rintro _ _ h₂ ⟨a, b, c, tr₂, priv, pub, rfl, hf, hs⟩
  refine Spec.update_bind (h₂.congr rfl rfl rfl) ?_
  refine boots_bind (h₂.congr rfl rfl rfl) (boots_startEpoch (h₂.congr rfl rfl rfl) he hd hz) ?_
  rintro _ _ h₃ ⟨tr₃, rfl⟩
  refine boots_bind h₃ (boots_setupRadio h₃) ?_
  rintro _ _ h₄ ⟨tr₄, rfl⟩
  refine boots_bind h₄ (boots_setupEspNow h₄) ?_
  rintro ok _ h₅ ⟨r, tr₅, rfl⟩
  refine Spec.ite (fun _ => Spec.ret ?_) fun _ => boots_fatal h₅
  exact ⟨_, r, k, tr₅, priv, pub, rfl, rfl, rfl, hf, hs⟩

/-- The loaded peers depend on the stored records alone. -/
theorem PeerRegistry.loadFromEEPROM_peers {r r' : PeerRegistry} {c : Config} {v v' : Nvs}
    (h : v.peer = v'.peer) :
    (r.loadFromEEPROM c v).peers = (r'.loadFromEEPROM c v').peers := by
  have hs : storedPeers v = storedPeers v' := by rw [storedPeers, h, ← storedPeers]
  show List.take _ (if storedPeers v = [] then _ else _) = _
  rw [hs]
  rfl

theorem bootRole_eq {c : Config} {v : Option UInt8} (h : s.nvs.masterFlag = v) :
    bootRole s c = if s.eeprom.isDevMode then c.defaultDevMaster else Nvs.flag v := by
  rw [bootRole, h]

/-- **A boot ends in a booted node, or is abandoned within its frame.** -/
theorem boots_initSubsystems {d : Node} (hs : s₀ = (d.powerOn w.config).emit (.input .boot)) :
    Boots w s₀ s₀ (initSubsystems w) fun _ t => Booted w s₀ t := by
  have h := BootFrame.refl w.config s₀
  refine Spec.update_bind (h.congr rfl rfl rfl) ?_
  refine boots_bind (h.congr rfl rfl rfl) (boots_bootstrapPeers ⟨h.congr rfl rfl rfl, rfl, rfl⟩) ?_
  rintro _ _ h₁ ⟨p, tr₁, rfl, hp⟩
  refine boots_bind h₁ (boots_initializeDefaultsIfUnset h₁) ?_
  rintro _ _ h₂ ⟨a, tr₂, rfl⟩
  refine boots_bind h₂ (boots_createAdapter h₂) ?_
  rintro _ _ h₃ ⟨b, tr₃, rfl⟩
  refine boots_bind h₃ (boots_initMesh h₃ rfl rfl rfl ?_) ?_
  · rw [hs]
    rfl
  rintro _ t ht ⟨v, r, m, tr₄, priv, pub, rfl, hb, hv, hf, hk⟩
  refine Spec.update (ht.congr rfl rfl rfl) ?_
  refine ⟨ht.congr rfl rfl rfl, rfl, rfl, ?_, rfl, ?_, ?_, ?_, hb, rfl, ?_, rfl, ?_, rfl, hf, hk⟩
  · exact bootRole_eq ht.nvs.masterFlag
  · have hp' : BootPeers w.config s₀.nvs v.peer := by rwa [hv]
    exact hp'
  · exact PeerRegistry.loadFromEEPROM_peers (r := s₀.peers) hv.symm
  · refine E2EKeyStore.Holds.setCapacity (E2EKeyStore.Holds.setCapacity ?_ _) _
    rw [hs]
    exact E2EKeyStore.holds_ofCapacity _
  · rw [hs]
    rfl
  · rw [hs]
    rfl

/-- The node when the mesh is up: a leaf whatever its stored role, without any next hop, and with
the masters of the flash. -/
structure MeshUp (w : World) (s₀ t : Node) : Prop where
  isMaster : t.isMaster = s₀.isMaster
  isDevMode : t.eeprom.isDevMode = bootsInDevMode w.config s₀.nvs
  masterFlag : t.nvs.masterFlag = s₀.nvs.masterFlag
  currentMaster : t.currentMaster = s₀.currentMaster
  downlinkPeerLru : t.downlinkPeerLru = s₀.downlinkPeerLru
  forwardingPeer : t.forwardingPeer = s₀.forwardingPeer
  beacon : t.beacon = s₀.beacon
  masters : t.enrollment = { t.enrollment with
    knownMasterMac := (Nvs.loadMac s₀.nvs.knownMasterMac s₀.enrollment.knownMasterMac).1
    hasMasterMac := (Nvs.loadMac s₀.nvs.knownMasterMac s₀.enrollment.knownMasterMac).2
    knownMasterMacSecondary :=
      (Nvs.loadMac s₀.nvs.knownMasterMacSec s₀.enrollment.knownMasterMacSecondary).1
    hasMasterMacSecondary :=
      (Nvs.loadMac s₀.nvs.knownMasterMacSec s₀.enrollment.knownMasterMacSecondary).2 }

theorem boots_initBeforeRole (hz : s₀.eeprom.devEpoch = 0) :
    Boots w s₀ s₀ (initBeforeRole w) fun _ t => MeshUp w s₀ t := by
  have h := BootFrame.refl w.config s₀
  refine Spec.update_bind (h.congr rfl rfl rfl) ?_
  refine boots_bind (h.congr rfl rfl rfl) (boots_bootstrapPeers ⟨h.congr rfl rfl rfl, rfl, rfl⟩) ?_
  rintro _ _ h₁ ⟨p, tr₁, rfl, hp⟩
  refine boots_bind h₁ (boots_initializeDefaultsIfUnset h₁) ?_
  rintro _ _ h₂ ⟨a, tr₂, rfl⟩
  refine boots_bind h₂ (boots_createAdapter h₂) ?_
  rintro _ _ h₃ ⟨b, tr₃, rfl⟩
  refine Spec.mono (boots_initMesh h₃ rfl rfl rfl hz) ?_
  rintro _ t ht ⟨v, r, m, tr₄, priv, pub, ht', -⟩
  have hkept : ∀ {δ : Type} (f : Node → δ), f t = f _ := fun f => congrArg f ht'
  exact ⟨hkept Node.isMaster, hkept fun u => u.eeprom.isDevMode,
    (boots_frame h₃ ht).nvs.masterFlag, hkept Node.currentMaster, hkept Node.downlinkPeerLru,
    hkept Node.forwardingPeer, hkept Node.beacon, by rw [hkept Node.enrollment]; rfl⟩

theorem succ_ne_self (e : UInt32) : e + 1 ≠ e := by
  intro h
  have hn := congrArg UInt32.toNat h
  have hlt := e.toNat_lt
  have h1 : (1 : UInt32).toNat = 1 := rfl
  rw [UInt32.toNat_add, h1] at hn
  omega

/-- A boot that succeeds draws an epoch. -/
theorem Booted.epochDraws_lt {t : Node} (h : Booted w s₀ t) (hz : s₀.eeprom.devEpoch = 0) :
    epochDraws s₀.trace < epochDraws t.trace := by
  rcases h.frame.epoch with ⟨hn, hd⟩ | hlt
  · rw [h.bootEpoch, Nvs.epochAfterBoot] at hn
    rw [h.devEpoch] at hd
    by_cases hdev : bootsInDevMode w.config s₀.nvs = true
    · rw [if_pos hdev, hz, bootEpochOf, if_pos hdev] at hd
      cases hd
    · rw [if_neg hdev, bootEpochOf, if_neg hdev] at hn
      cases hv : s₀.nvs.bootEpoch with
      | none => rw [hv] at hn; cases hn
      | some e =>
        rw [hv] at hn
        exact absurd (Option.some.inj hn) (succ_ne_self e)
  · exact hlt

end LatticeMesh
