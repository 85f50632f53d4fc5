import LatticeMesh.Effects

/-!
# What the handlers do

Every function of the firmware that runs after the boot is a sequence of the changes of `Effect`,
abandoned only for the reasons of `Stop`.  One lemma a function, in the order in which they call
one another.

## Main results

* `does_handleInput` — **every input of a running node is such a sequence.**
-/

namespace LatticeMesh

open EffectSpec Relation

variable {w : World} {s₀ s : Node} {i : Input}

/-! ### Errors and events -/

@[simp] theorem wp_emit {e : Event} {Q : Unit → Node → Prop} {E : Halt → Node → Prop} :
    wp (emit e) Q E s ↔ Q () (s.emit e) := Iff.rfl

theorem does_emit {e : Event} (h : Effect w s₀ i s (s.emit e)) :
    Does w s₀ i s (emit e) fun _ t => t = s.emit e := Spec.update h rfl

/-- A dead display ends every report. -/
theorem stop_display {h : Halt} (es : List Event) (he : w.config.enableSevsegDisplay = true)
    (hd : w.displayAck = false) (hes : ∀ e ∈ es, e.isFault = true) :
    Stop w s₀ i h s { s with trace := es ++ s.trace } :=
  .display he hd ⟨rfl, rfl, es, rfl, hes⟩

/-- The reports of `signalError`: a restarting error, or a display that does not answer. -/
theorem wp_signalError {t : ErrorTypeDigit} {Q : Unit → Node → Prop} {E : Halt → Node → Prop}
    (hd : w.config.enableSevsegDisplay = true → w.displayAck = false →
      E .failRestart (s.emit (.errFail .hardware .hw 2 "7Seg ACK timeout")))
    (hr : t.restarts = true → E .failRestart s) (hq : t.restarts = false → Q () s) :
    wp (signalError w t) Q E s := by
  unfold signalError
  split
  · rename_i h
    simp only [Bool.and_eq_true, Bool.not_eq_true'] at h
    exact hd h.1 h.2
  · split
    · exact hr ‹_›
    · exact hq (by simpa using ‹¬t.restarts = true›)

/-- A report that restarts the device is a stop. -/
theorem does_fail_stop {t : ErrorTypeDigit} {m : ModuleDigit} {sub : ℕ} {text : String}
    {Q : Unit → Node → Prop} (hr : t.restarts = true)
    (h : Stop w s₀ i .failRestart s (s.emit (.errFail t m sub text))) :
    Does w s₀ i s (fail w t m sub text) Q := by
  refine wp_signalError (fun he hd => ⟨s, .refl, ?_⟩) (fun _ => ⟨s, .refl, h⟩) ?_
  · exact stop_display [_, _] he hd (by simp [Event.isFault])
  · exact fun h => absurd h (by simp [hr])

/-- A report that does not restart the device is a change. -/
theorem does_warn {t : ErrorTypeDigit} {m : ModuleDigit} {sub : ℕ} {text : String}
    (hr : t.restarts = false) :
    Does w s₀ i s (fail w t m sub text) fun _ t' => t' = s.emit (.errFail t m sub text) := by
  have hw : Effect w s₀ i s (s.emit (.errFail t m sub text)) := .warn s t m sub text hr
  refine wp_signalError (fun he hd => ⟨_, .single hw, ?_⟩) ?_ fun _ => ⟨.single hw, rfl⟩
  · exact stop_display [_] he hd (by simp [Event.isFault])
  · exact fun h => absurd h (by simp [hr])

/-- A fatal report is a stop. -/
theorem does_fatal {α : Type} {t : ErrorTypeDigit} {m : ModuleDigit} {sub : ℕ} {text : String}
    {Q : α → Node → Prop} (h : ∀ e, Stop w s₀ i e s (s.emit (.errFatal t m sub text))) :
    Does w s₀ i s (fatal w t m sub text) Q := by
  unfold Does Spec fatal
  rw [wp_bind, wp_emit, wp_bind]
  refine wp_signalError (fun he hd => ⟨s, .refl, ?_⟩) (fun _ => ⟨s, .refl, h _⟩)
    fun _ => ⟨s, .refl, h _⟩
  exact stop_display [_, _] he hd (by simp [Event.isFault])

/-- A restarting report leaves the flash alone. -/
theorem wp_fail_restart {t : ErrorTypeDigit} {m : ModuleDigit} {sub : ℕ} {text : String}
    {Q : Unit → Node → Prop} {E : Halt → Node → Prop} (hr : t.restarts = true)
    (hE : ∀ u, Aborted s u → E .failRestart u) : wp (fail w t m sub text) Q E s := by
  refine wp_signalError (fun _ _ => hE _ ⟨rfl, rfl, [_, _], rfl, ?_⟩)
    (fun _ => hE _ ⟨rfl, rfl, [_], rfl, ?_⟩)
    fun h => absurd h (by simp [hr])
  · simp [Event.isFault]
  · simp [Event.isFault]

/-- A security-relevant write that dev mode skips. -/
theorem wp_nvsSave {op : NvsOp} {Q : Unit → Node → Prop} {E : Halt → Node → Prop}
    (hq : Q () (s.saved op))
    (hE : w.nvsOk op = false → ∀ u, Aborted s u → E .failRestart u) :
    wp (nvsSave w op true) Q E s := by
  unfold nvsSave nvsPut
  rw [wp_bind, wp_get]
  unfold Node.saved at hq
  split
  · rwa [if_pos ‹_›] at hq
  · rw [if_neg ‹_›] at hq
    cases ho : w.nvsOk op with
    | true => exact hq
    | false => exact wp_fail_restart rfl (hE ho)

/-- A write whose failure is ignored. -/
theorem does_setting {op : NvsOp} (h : op.isSetting = true)
    (hc : op.isConfig = true → MayConfigure w i s) (hr : op.isRole = true → i = .configButton) :
    Does w s₀ i s (nvsPut w op false) fun _ _ => True := by
  unfold nvsPut
  refine Spec.ite (fun _ => ?_) fun _ => Spec.ret trivial
  exact ⟨.single (.setting s op h hc hr), trivial⟩

theorem does_nvsSave_setting {op : NvsOp} (h : op.isSetting = true)
    (hc : op.isConfig = true → MayConfigure w i s) (hr : op.isRole = true → i = .configButton) :
    Does w s₀ i s (nvsSave w op false) fun _ _ => True :=
  Spec.read_bind (Spec.ite (fun _ => Spec.ret trivial) fun _ => does_setting h hc hr)

/-! ### Steps in sequence -/

/-- A change of housekeeping fields. -/
theorem does_quiet {f : Node → Node} (h : Quiet s (f s)) :
    Does w s₀ i s (modify f) fun _ t => t = f s := Spec.update (.quiet h) rfl

/-- What a running node is stays the same along every sequence of changes. -/
theorem effects_sameDevice {t : Node} (h : ReflTransGen (Effect w s₀ i) s t) :
    SameDevice s t := by
  induction h with
  | refl => exact .refl s
  | tail _ h ih => exact ih.trans h.sameDevice

/-- So does its role, outside the config button. -/
theorem effects_isMaster {t : Node} (hi : i ≠ .configButton)
    (h : ReflTransGen (Effect w s₀ i) s t) : t.isMaster = s.isMaster := by
  induction h with
  | refl => rfl
  | tail _ h ih => exact (h.isMaster hi).trans ih

/-- Within a step the history only grows, without an input or a crash. -/
theorem effects_trace {t : Node} (h : ReflTransGen (Effect w s₀ i) s t) :
    ∃ es, t.trace = es ++ s.trace ∧ ∀ e ∈ es, e.isInput = false ∧ e.isCrash = false := by
  induction h with
  | refl => exact ⟨[], rfl, by simp⟩
  | tail _ h ih =>
    obtain ⟨es, he, hes⟩ := ih
    obtain ⟨es', he', hadds⟩ := h.history
    refine ⟨es' ++ es, by rw [he', he, List.append_assoc], fun e hm => ?_⟩
    exact (List.mem_append.1 hm).elim (hadds.forall e) (hes e)

/-- New events of a step come in front of the ones it has. -/
theorem Node.stepEvents_append {t : Node} {es : List Event} (ht : t.trace = es ++ s.trace)
    (hes : ∀ e ∈ es, e.isInput = false) : t.stepEvents = es ++ s.stepEvents := by
  unfold Node.stepEvents
  rw [ht, List.takeWhile_append_of_pos fun e he => by simp [hes e he]]

/-- A frame built in this step stays one for the rest of the step. -/
theorem BuiltInStep.mono {t : Node} {out : Message} (h : BuiltInStep s out)
    (hst : ReflTransGen (Effect w s₀ i) s t) : BuiltInStep t out := by
  obtain ⟨ho, b, hb, hn⟩ := h
  obtain ⟨es, he, hes⟩ := effects_trace hst
  refine ⟨by rw [ho, (effects_sameDevice hst).deviceMac], b, ?_, hn⟩
  rw [Node.stepEvents_append he fun e he => (hes e he).1]
  exact List.mem_append_right es hb

theorem MaySend.mono {t : Node} {out : Message} (h : MaySend i s out)
    (hst : ReflTransGen (Effect w s₀ i) s t) : MaySend i t out := by
  intro srcMac m hi hne
  rw [(effects_sameDevice hst).deviceMac] at hne
  exact (h srcMac m hi hne).imp_right fun hb => hb.mono hst

/-- A frame of this node may be sent under any header and payload that keep its nonce. -/
theorem MaySend.own {m out : Message} (h : MaySend i s m) (ho : m.originMac = s.deviceMac)
    (hn : buildNonce out = buildNonce m) : MaySend i s out := by
  intro srcMac m' hi hne
  rcases h srcMac m' hi hne with hr | hb
  · rw [Message.relayOf_iff.1 hr] at ho
    exact absurd ho hne
  · obtain ⟨-, b, hb, hb'⟩ := hb
    exact .inr ⟨(buildNonce_inj hn).2.2.trans ho, b, hb, hn.trans hb'⟩

/-- What is sent in a step that receives nothing is not restricted. -/
theorem MaySend.of_not_rx {m : Message} (hi : ∀ srcMac m', i ≠ .rx srcMac m') :
    MaySend i s m := fun srcMac m' h => absurd h (hi srcMac m')

/-- A frame that was just built may be sent, to any target. -/
theorem MaySend.built {m : Message} (ho : m.originMac = s.deviceMac) :
    MaySend i (s.emit (.built m)) m :=
  fun _ _ _ _ => .inr ⟨ho, m, by simp [Node.stepEvents, Node.emit, Event.isInput], rfl⟩

/-- A relayed copy of the frame that is being processed may be sent. -/
theorem MaySend.relay {srcMac : Mac} {m out : Message} (hi : i = .rx srcMac m)
    (h : Message.RelayOf m out) : MaySend i s out := by
  rintro _ m' rfl -
  cases hi
  exact .inl h

/-- A specification without a promise on the result. -/
theorem does_any {α : Type} {x : MeshM α} {Q : α → Node → Prop} (h : Does w s₀ i s x Q) :
    Does w s₀ i s x fun _ _ => True := h.mono fun _ _ _ _ => trivial

/-- Sequencing after a program whose result does not matter. -/
theorem Does.seq {α : Type} {x : MeshM Unit} {f : Unit → MeshM α} {Q : Unit → Node → Prop}
    {Q' : α → Node → Prop} (hx : Does w s₀ i s x Q)
    (hf : ∀ t, SameDevice s t → ReflTransGen (Effect w s₀ i) s t → Q () t →
      Does w s₀ i t (f ()) Q') : Does w s₀ i s (x >>= f) Q' :=
  Spec.bind hx fun _ t ht hq => hf t (effects_sameDevice ht) ht hq

/-! ### Radio -/

/-- The radio and its peers change, and errors are reported; nothing else. -/
structure RadioOnly (s t : Node) : Prop where
  peers : t.peers = s.peers
  enrollment : t.enrollment = s.enrollment
  currentMaster : t.currentMaster = s.currentMaster

theorem RadioOnly.trans {t u : Node} (h : RadioOnly s t) (h' : RadioOnly t u) : RadioOnly s u :=
  ⟨h'.1.trans h.1, h'.2.trans h.2, h'.3.trans h.3⟩

theorem does_espNowSend {target : Mac} {m : Message} (hm : MaySend i s m) :
    Does w s₀ i s (espNowSend w target m) fun _ _ => True := by
  refine Spec.read_bind (Spec.ite (fun _ => ?_) fun _ => Spec.ret trivial)
  exact Spec.bind (does_emit (.tx s target m hm)) fun _ _ _ _ => Spec.ret trivial

theorem does_registerPeerWithEspNow {mac : Mac} :
    Does w s₀ i s (registerPeerWithEspNow w mac) fun _ t => RadioOnly s t := by
  refine Spec.read_bind (Spec.ite (fun _ => Spec.ret ⟨rfl, rfl, rfl⟩) fun _ => ?_)
  refine Spec.ite (fun _ => ?_) fun _ => ?_
  · exact Spec.mono (does_quiet rfl) fun _ t _ ht => ht ▸ ⟨rfl, rfl, rfl⟩
  · exact Spec.mono (does_warn rfl) fun _ t _ ht => ht ▸ ⟨rfl, rfl, rfl⟩

theorem does_espNowDelPeer {mac : Mac} :
    Does w s₀ i s (espNowDelPeer mac) fun _ t => RadioOnly s t :=
  Spec.mono (does_quiet rfl) fun _ _ _ ht => ht ▸ ⟨rfl, rfl, rfl⟩

theorem does_sendMessage {target : Mac} {m : Message} {deviceMac : Mac}
    (hm : MaySend i s m) :
    Does w s₀ i s (sendMessage w target m deviceMac) fun _ _ => True := by
  refine Spec.ite (fun _ => Spec.ret trivial) fun _ => ?_
  refine Spec.bind (does_espNowSend hm) fun ok t _ _ => ?_
  exact Spec.ite (fun _ => Spec.ret trivial) fun _ => does_any (does_warn rfl)

/-- Send copies of a frame to the peers of a list. -/
theorem does_sendToPeers {l : List PeerInfo} {m : Message} {deviceMac : Mac}
    (hm : MaySend i s m) :
    Does w s₀ i s (l.forM fun p =>
      if p.mac = deviceMac then pure () else sendMessage w p.mac m deviceMac) fun _ _ => True := by
  refine Spec.forM trivial fun p _ t hst _ => Spec.ite (fun _ => Spec.ret trivial) fun _ => ?_
  exact does_sendMessage (hm.mono hst)

theorem does_broadcastToAllPeers {m : Message} {peers : PeerRegistry} {deviceMac : Mac}
    (hm : MaySend i s m) :
    Does w s₀ i s (broadcastToAllPeers w m peers deviceMac) fun _ _ => True :=
  does_sendToPeers hm

theorem does_sendBroadcast {m : Message} (hm : MaySend i s m) :
    Does w s₀ i s (sendBroadcast w m) fun _ _ => True :=
  Spec.bind (does_espNowSend hm) fun _ _ _ _ => Spec.ret trivial

/-! ### Sequence numbers and keys -/

/-- Storing an epoch. -/
theorem wp_saveBootEpoch {epoch : UInt32} {Q : Unit → Node → Prop} {E : Halt → Node → Prop}
    (hq : Q () (s.savedEpoch epoch))
    (hE : ∀ op, w.nvsOk op = false → ∀ u, Aborted s u → E .failRestart u) :
    wp (saveBootEpoch w epoch) Q E s := by
  unfold saveBootEpoch nvsPut
  rw [wp_bind, wp_get]
  unfold Node.savedEpoch at hq
  split
  · rwa [if_pos ‹_›] at hq
  · rw [if_neg ‹_›] at hq
    cases ho : w.nvsOk (.bootEpoch epoch) with
    | true => exact hq
    | false => exact wp_fail_restart rfl (hE _ ho)

theorem Node.drawn_of_ne (h : s.txState.txSeqNum + 1 ≠ 0) :
    s.drawn = { s with txState := { s.txState with txSeqNum := s.txState.txSeqNum + 1 } } :=
  if_neg h

theorem Node.drawn_of_zero (h : s.txState.txSeqNum + 1 = 0) :
    s.drawn = { s.savedEpoch (s.txState.bootEpoch + 1) with
      txState := { s.txState with bootEpoch := s.txState.bootEpoch + 1, txSeqNum := 1 } } :=
  if_pos h

/-- Drawing a sequence number. -/
theorem wp_nextSeqGuarded {Q : UInt16 → Node → Prop} {E : Halt → Node → Prop}
    (hq : Q s.drawn.txState.txSeqNum s.drawn)
    (hE : ∀ op, w.nvsOk op = false → ∀ u, Aborted s u → E .failRestart u) :
    wp (nextSeqGuarded w) Q E s := by
  unfold nextSeqGuarded nextSeq
  simp only [wp_bind, wp_modify, wp_get, wp_pure]
  by_cases h0 : s.txState.txSeqNum + 1 = 0
  · rw [if_pos h0, wp_bind, wp_get, wp_bind]
    refine wp_saveBootEpoch ?_ fun op ho u hu => hE op ho u ⟨hu.nvs, hu.eeprom, hu.trace⟩
    simp only [wp_bind, wp_modify, wp_get, wp_pure]
    suffices h : ∀ n t, t = s.drawn → n = t.txState.txSeqNum → Q n t by
      refine h _ _ ?_ rfl
      rw [Node.drawn_of_zero h0]
      by_cases hdev : s.eeprom.isDevMode = true <;>
        simp [Node.savedEpoch, OutboundSequenceState.bumpEpoch, Node.emit, hdev, h0]
    rintro _ _ rfl rfl
    exact hq
  · rw [if_neg h0]
    rwa [Node.drawn_of_ne h0] at hq

/-- Drawing a sequence number is one change. -/
theorem does_nextSeqGuarded :
    Does w s₀ i s (nextSeqGuarded w) fun seq t => t = s.drawn ∧ seq = s.drawn.txState.txSeqNum :=
  wp_nextSeqGuarded ⟨.single (.draw s), rfl, rfl⟩ fun _ ho _ hu => ⟨s, .refl, .nvs ho hu⟩

/-- Building a frame is one change; the frame carries the number just drawn. -/
theorem does_buildMessage {type : AdapterType} {data : Payload} {msgType : UInt8}
    (h : OwnPayload w i s data) :
    Does w s₀ i s (buildMessage w type data msgType) fun m t =>
      m = builtMessage s.drawn type data msgType s.drawn.txState.txSeqNum ∧
        t = s.drawn.emit (.built m) := by
  have hb : Effect w s₀ i s _ := .build s type data msgType h
  have hn : Does w s₀ i s (nextSeqGuarded w) _ := does_nextSeqGuarded
  unfold Does Spec buildMessage
  rw [wp_bind]
  refine wp_mono _ ?_ (fun _ _ hE => hE) hn
  rintro seq _ ⟨-, rfl, rfl⟩
  exact ⟨.single hb, rfl, rfl⟩

/-- The seal guard. -/
theorem does_checkEpochRollback {m : Message} (hm : Guardable w s₀ i s m)
    (hl : s.isMaster = false ∨ ∃ f, i = .serial f) :
    Does w s₀ i s (checkEpochRollback w m.epochNum m.seqNum) fun _ t =>
      s.txState.sealAdvances m.epochNum m.seqNum = true ∧
        t = { s with txState := s.txState.markSealed m.epochNum m.seqNum }.emit
          (.guarded m.epochNum m.seqNum) := by
  refine Spec.read_bind (Spec.ite (fun ha => ?_) fun ha => ?_)
  · exact ⟨.single (.guardSeal s m hm ha), ha, rfl⟩
  · exact does_fail_stop rfl (.sealRefused hm hl (by simpa using ha))

/-- Deriving the keys of a registered peer. -/
theorem does_deriveE2EKeys {mac : Mac} {p : PeerInfo} (hp : s.peers.find mac = some p)
    (hz : p.publicKey.isZero = false) :
    Does w s₀ i s (deriveE2EKeys w s.enrollment.devicePrivateKey p.publicKey) fun keys t =>
      t = s ∧ e2eKeysOf w.crypto s.enrollment.devicePrivateKey p.publicKey = some keys := by
  have hstop : e2eKeysOf w.crypto s.enrollment.devicePrivateKey p.publicKey = none →
      ∀ e sub text, Stop w s₀ i e s (s.emit (.errFatal .config .mesh sub text)) :=
    fun hk e sub text => .keyRejected hp hz hk
  unfold deriveE2EKeys computeSharedSecret
  unfold e2eKeysOf at hstop ⊢
  cases hs : w.crypto.x25519Shared s.enrollment.devicePrivateKey p.publicKey with
  | none => exact Spec.bind_stop (does_fatal fun e => hstop (by rw [hs]; rfl) e _ _)
  | some secret =>
    refine Spec.bind (Q := fun a t => a = secret ∧ t = s) (Spec.ret ⟨rfl, rfl⟩) ?_
    rintro _ t - ⟨rfl, rfl⟩
    rw [hs] at hstop
    cases hu : w.crypto.hkdfSha256 _ upLabel with
    | none => exact does_fatal fun e => hstop (by simp [hu]) e _ _
    | some kUp =>
      cases hd : w.crypto.hkdfSha256 _ downLabel with
      | none => exact does_fatal fun e => hstop (by simp [hu, hd]) e _ _
      | some kDown => exact Spec.ret ⟨rfl, by simp [hu, hd]⟩

/-- Only the key cache changes. -/
def KeysOnly (s t : Node) : Prop := ∃ c, t = { s with e2eKeys := c }

theorem KeysOnly.refl (s : Node) : KeysOnly s s := ⟨_, rfl⟩

/-- What a key lookup finds. -/
structure LooksUp (c : Crypto) (s : Node) (mac : Mac) (r : Option E2EKeys) (t : Node) : Prop where
  keysOnly : KeysOnly s t
  result : r = s.keysOf c mac
  keysFor : ∀ keys, r = some keys → KeysFor c t mac keys

/-- The keys of a registered peer. -/
theorem does_getKeys {mac : Mac} {p : PeerInfo} (hp : s.peers.find mac = some p) :
    Does w s₀ i s (getKeys w mac s.enrollment.devicePrivateKey p.publicKey)
      (LooksUp w.crypto s mac) := by
  have hkey : s.peers.keyOf mac = some p.publicKey := by rw [PeerRegistry.keyOf, hp]; rfl
  refine Spec.read_bind (Spec.ite (fun h0 => Spec.ret ⟨.refl s, ?_, by simp⟩) fun h0 => ?_)
  · rw [Node.keysOf, hkey]
    simp [h0]
  cases hc : s.e2eKeys.cached mac with
  | some keys =>
    refine Spec.ret ⟨.refl s, ?_, ?_⟩
    · rw [Node.keysOf, hkey]
      simp [h0, hc]
    · rintro _ ⟨⟩
      exact ⟨h0, _, hkey, .inl hc⟩
  | none =>
    refine Spec.ite (fun hz => Spec.ret ⟨.refl s, ?_, by simp⟩) fun hz => ?_
    · rw [Node.keysOf, hkey]
      simp [h0, hc, hz]
    have hz' : p.publicKey.isZero = false := by simpa using hz
    refine Spec.bind (does_deriveE2EKeys hp hz') ?_
    rintro keys t - ⟨rfl, hk⟩
    refine Spec.update_bind (.cacheKeys t mac hp hz' hk) (Spec.ret ⟨⟨_, rfl⟩, ?_, ?_⟩)
    · rw [Node.keysOf, hkey]
      simp [h0, hc, hz', hk]
    · rintro _ ⟨⟩
      refine ⟨?_, _, hkey, .inr ⟨hz', hk⟩⟩
      rwa [E2EKeyStore.capacity_insert]

/-- The keys of an origin. -/
theorem does_peerE2EKeys {originMac : Mac} :
    Does w s₀ i s (peerE2EKeys w originMac) (LooksUp w.crypto s originMac) := by
  refine Spec.read_bind ?_
  cases hp : s.peers.find originMac with
  | none =>
    refine Spec.ret ⟨.refl s, ?_, by simp⟩
    rw [Node.keysOf, PeerRegistry.keyOf, hp]
    rfl
  | some p =>
    have hmac : p.mac = originMac := PeerRegistry.find_mac hp
    exact hmac ▸ does_getKeys (by rwa [hmac])

theorem does_masterE2EKeys :
    Does w s₀ i s (masterE2EKeys w) fun r t => KeysOnly s t ∧ r = s.masterKeys w.crypto ∧
      ∀ keys, r = some keys → KeysFor w.crypto t s.currentMaster.mac keys := by
  refine Spec.read_bind (Spec.ite (fun hm => ?_) fun hm => Spec.ret ⟨.refl s, ?_, by simp⟩)
  · refine Spec.mono does_peerE2EKeys fun r t _ h => ⟨h.keysOnly, ?_, h.keysFor⟩
    rw [h.result, Node.masterKeys, if_pos hm]
  · rw [Node.masterKeys, if_neg hm]

/-! ### Uplink -/

theorem seedAuthPath_originMac {c : Crypto} {kUp : Key} {m : Message} {deviceMac : Mac} :
    (seedAuthPath c kUp m deviceMac).originMac = m.originMac := by
  unfold seedAuthPath
  split <;> rfl

theorem sealPayload_originMac {c : Crypto} {key : Key} {m sm : Message}
    (h : sealPayload c key m = some sm) : sm.originMac = m.originMac := by
  obtain ⟨x, -, rfl⟩ := Option.map_eq_some_iff.1 h
  rfl

theorem seedAuthPath_buildNonce {c : Crypto} {kUp : Key} {m : Message} {deviceMac : Mac} :
    buildNonce (seedAuthPath c kUp m deviceMac) = buildNonce m := by
  unfold seedAuthPath
  split <;> rfl

theorem sealPayload_buildNonce {c : Crypto} {key : Key} {m sm : Message}
    (h : sealPayload c key m = some sm) : buildNonce sm = buildNonce m := by
  obtain ⟨x, -, rfl⟩ := Option.map_eq_some_iff.1 h
  rfl

/-- A frame on its way to the seal: it may pass the guard, and once it did and the keys of the
master were found it may be sealed. -/
structure Uplink (w : World) (s₀ : Node) (i : Input) (s : Node) (m : Message) : Prop where
  guardable : Guardable w s₀ i s m
  leaf : s.isMaster = false ∨ ∃ f, i = .serial f
  resealed : s.txState.sealAdvances m.epochNum m.seqNum = true →
    (s.masterKeys w.crypto).isSome = true → JustBuilt s m ∨ resealsUplink w s₀ i = true

/-- A frame that was built here and passed the guard. -/
theorem JustBuilt.guarded {t : Node} {m : Message} (h : JustBuilt s m)
    (ht : t.trace = .guarded m.epochNum m.seqNum :: s.trace) : JustGuarded t m := by
  obtain ⟨m', hh, hm⟩ := h
  cases htr : s.trace with
  | nil => rw [htr] at hh; cases hh
  | cons e tr =>
    rw [htr] at hh ht
    cases hh
    exact ⟨m', tr, ht, hm⟩

theorem does_sealUplink {m : Message} (h : Uplink w s₀ i s m) :
    Does w s₀ i s (sealUplink w m) fun r _ => ∀ sm, r = some sm → buildNonce sm = buildNonce m := by
  unfold sealUplink
  refine Spec.bind (does_checkEpochRollback h.guardable h.leaf) ?_
  rintro _ _ - ⟨ha, rfl⟩
  refine Spec.read_bind (Spec.bind does_masterE2EKeys ?_)
  rintro r _ - ⟨⟨c, rfl⟩, hr, -⟩
  cases r with
  | none => exact Spec.ret (by simp)
  | some keys =>
    have hkeys : (s.masterKeys w.crypto).isSome = true :=
      (congrArg Option.isSome hr).symm
    refine Spec.bind (does_emit (.sealed _ _ _ ?_)) ?_
    · exact (h.resealed ha hkeys).imp_left fun hb => hb.guarded rfl
    rintro _ _ - rfl
    cases hs : sealPayload w.crypto keys.kUp m with
    | none => exact Spec.ret (by simp)
    | some sm =>
      refine Spec.ret ?_
      rintro _ ⟨⟩
      rw [seedAuthPath_buildNonce, sealPayload_buildNonce hs]

theorem does_evictForwardingPeer {s' : Node} {hopMac : Mac} :
    Does w s₀ i s (evictForwardingPeer s' hopMac) fun _ t => RadioOnly s t :=
  Spec.ite (fun _ => does_espNowDelPeer) fun _ => Spec.ret ⟨rfl, rfl, rfl⟩

theorem does_findNextHopToMaster :
    Does w s₀ i s (findNextHopToMaster w) fun _ t => RadioOnly s t := by
  refine Spec.read_bind (Spec.ite (fun _ => Spec.ret ⟨rfl, rfl, rfl⟩) fun _ => ?_)
  split
  · exact Spec.ret ⟨rfl, rfl, rfl⟩
  split
  · exact Spec.ret ⟨rfl, rfl, rfl⟩
  refine Spec.ite (fun _ => Spec.ret ⟨rfl, rfl, rfl⟩) fun _ => ?_
  refine Spec.bind does_evictForwardingPeer fun _ t _ ht => ?_
  refine Spec.bind does_registerPeerWithEspNow fun _ u _ hu => ?_
  refine Spec.update_bind (.quiet rfl) (Spec.ret ?_)
  exact ht.trans (hu.trans ⟨rfl, rfl, rfl⟩)

theorem does_routeToMaster {m : Message} (hm : MaySend i s m) :
    Does w s₀ i s (routeToMaster w m) fun _ _ => True := by
  refine Spec.read_bind (Spec.bind does_findNextHopToMaster fun r t ht _ => ?_)
  split
  · exact Spec.ite (fun _ => Spec.ret trivial) fun _ => does_sendMessage (hm.mono ht)
  · exact Spec.ret trivial

theorem retarget_originMac {msgType : UInt8} {m : Message} :
    (retarget s msgType m).originMac = m.originMac := by
  unfold retarget
  split <;> rfl

theorem retarget_messageType {msgType : UInt8} {m : Message} :
    (retarget s msgType m).messageType = m.messageType := by
  unfold retarget
  split <;> rfl

theorem retarget_buildNonce {msgType : UInt8} {m : Message} :
    buildNonce (retarget s msgType m) = buildNonce m := by
  unfold retarget
  split <;> rfl

/-- Retargeting keeps a frame that was just built one that was just built. -/
theorem JustBuilt.retarget {s' : Node} {msgType : UInt8} {m : Message} (h : JustBuilt s m) :
    JustBuilt s (retarget s' msgType m) := by
  obtain ⟨m', ht, hm⟩ := h
  refine ⟨m', ht, ?_⟩
  unfold LatticeMesh.retarget
  split <;> rw [hm]

theorem Uplink.retarget {s' : Node} {msgType : UInt8} {m : Message} (h : Uplink w s₀ i s m) :
    Uplink w s₀ i s (retarget s' msgType m) := by
  have hn : buildNonce (LatticeMesh.retarget s' msgType m) = buildNonce m := retarget_buildNonce
  obtain ⟨he, hs, -⟩ := buildNonce_inj hn
  refine ⟨h.guardable.imp_left JustBuilt.retarget, h.leaf, fun ha hk => ?_⟩
  rw [he, hs] at ha
  exact (h.resealed ha hk).imp_left JustBuilt.retarget

/-- A frame of another node is not retargeted. -/
theorem retarget_of_ne {msgType : UInt8} {m : Message} (h : m.originMac ≠ s.deviceMac) :
    retarget s msgType m = m := if_neg fun hc => h hc.2

/-- Transmitting a given frame: one of this node's own address has to be on its way to the seal. -/
theorem does_transmitFrame {msgType : UInt8} {isMaster : Bool} {m : Message}
    (hown : m.originMac = s.deviceMac → isMaster = false → isSealedType m.messageType = true →
      Uplink w s₀ i s m)
    (hm : MaySend i s m) :
    Does w s₀ i s (transmitFrame w msgType isMaster m) fun _ _ => True := by
  refine Spec.read_bind (Spec.ite (fun hc => ?_) fun _ => ?_)
  · rw [retarget_originMac, retarget_messageType] at hc
    have hu := hown hc.2.1 (by simpa using hc.1) hc.2.2
    refine Spec.bind (does_sealUplink hu.retarget) fun r t ht hr => ?_
    cases r with
    | none => exact Spec.ret trivial
    | some sm =>
      have hn : buildNonce sm = buildNonce m := (hr sm rfl).trans retarget_buildNonce
      exact does_routeToMaster ((hm.own hc.2.1 hn).mono ht)
  · refine does_routeToMaster ?_
    by_cases hself : m.originMac = s.deviceMac
    · exact hm.own hself retarget_buildNonce
    · rwa [retarget_of_ne hself]

/-- A frame just built carries this node's address. -/
theorem builtMessage_originMac {type : AdapterType} {data : Payload} {msgType : UInt8}
    {seq : UInt16} : (builtMessage s type data msgType seq).originMac = s.deviceMac := rfl

/-- Transmitting a frame that is built here. -/
theorem does_transmitBuilt {type : AdapterType} {data : Payload} {msgType : UInt8}
    (h : OwnPayload w i s data) :
    Does w s₀ i s (transmitCore w type data msgType none s.isMaster) fun _ _ => True := by
  refine Spec.bind (does_buildMessage h) ?_
  rintro _ _ - ⟨rfl, rfl⟩
  set b := builtMessage s.drawn type data msgType s.drawn.txState.txSeqNum
  have hb : JustBuilt (s.drawn.emit (.built b)) b := ⟨b, rfl, rfl⟩
  refine does_transmitFrame (fun _ hm _ => ⟨.inl hb, .inl ?_, fun _ _ => .inl hb⟩) (.built rfl)
  rw [← hm]
  exact s.drawn_isMaster

/-! ### The registry -/

/-- The slots below `k` are written, the others are as before. -/
structure SavedBelow (records : Fin maxPeers → Option PeerRecord) (k : ℕ) (s t : Node) : Prop where
  rest : t = { s with nvs := t.nvs, trace := t.trace }
  written : PeersWritten s t
  slots : ∀ j : Fin maxPeers, if j.val < k then
      SlotSaved s.eeprom.isDevMode (records j) (s.nvs.peer.get j) (t.nvs.peer.get j)
    else t.nvs.peer.get j = s.nvs.peer.get j

theorem SavedBelow.zero (records : Fin maxPeers → Option PeerRecord) (s : Node) :
    SavedBelow records 0 s s := ⟨rfl, ⟨rfl, [], rfl, by simp⟩, fun j => by simp⟩

/-- A slot that is kept extends the written part by one. -/
theorem SavedBelow.skip {records : Fin maxPeers → Option PeerRecord} {k : Fin maxPeers} {t : Node}
    (h : SavedBelow records k s t)
    (hs : SlotSaved s.eeprom.isDevMode (records k) (s.nvs.peer.get k) (s.nvs.peer.get k)) :
    SavedBelow records (k + 1) s t := by
  refine ⟨h.rest, h.written, fun j => ?_⟩
  have hj := h.slots j
  split
  · rename_i hlt
    rcases Nat.lt_succ_iff_lt_or_eq.1 hlt with hlt' | heq
    · rwa [if_pos hlt'] at hj
    · rw [if_neg (by omega)] at hj
      rwa [hj, Fin.ext heq]
  · rename_i hge
    rwa [if_neg (by omega)] at hj

/-- A slot that is written extends the written part by one. -/
theorem SavedBelow.write {records : Fin maxPeers → Option PeerRecord} {k : Fin maxPeers} {t : Node}
    {v : Option PeerRecord} {e : Event} (h : SavedBelow records k s t) (he : e.isPeerWrite = true)
    (hs : SlotSaved s.eeprom.isDevMode (records k) (s.nvs.peer.get k) v) :
    SavedBelow records (k + 1) s
      ({ t with nvs := { t.nvs with peer := t.nvs.peer.set k v } }.emit e) := by
  obtain ⟨es, htr, hes⟩ := h.written.trace
  have hrest := h.rest
  have hnvs := h.written.nvs
  refine ⟨?_, ⟨?_, e :: es, ?_, ?_⟩, fun j => ?_⟩
  · rw [hrest]
    rfl
  · exact congrArg (fun n : Nvs => { n with peer := t.nvs.peer.set k v }) hnvs
  · show e :: t.trace = _
    rw [htr]
    rfl
  · rintro x (_ | ⟨_, hx⟩)
    · exact he
    · exact hes x hx
  · show if j.val < k + 1 then SlotSaved _ _ _ ((t.nvs.peer.set k v).get j)
      else (t.nvs.peer.set k v).get j = _
    by_cases hj : j = k
    · subst hj
      rwa [if_pos (Nat.lt_succ_self _), List.Vector.get_set_same]
    · have hslot := h.slots j
      have hlt : j.val < k.val + 1 ↔ j.val < k.val := by
        have : j.val ≠ k.val := fun h => hj (Fin.ext h)
        omega
      rw [List.Vector.get_set_of_ne (Ne.symm hj)]
      simpa only [hlt] using hslot

/-- Slot after slot is written; a failed write leaves the slots from there on as they were. -/
theorem wp_writePeerSlots (records : Fin maxPeers → Option PeerRecord) :
    wp (writePeerSlots w records) (fun _ t => SavedBelow records maxPeers s t)
      (fun h u => h = .failRestart ∧ ∃ k t op, SavedBelow records k s t ∧ w.nvsOk op = false ∧
        Aborted t u) s := by
  refine wp_finRange_forM (I := fun k t => SavedBelow records k s t) (.zero records s)
    fun k t ht => ?_
  have hdev : t.eeprom.isDevMode = s.eeprom.isDevMode := by rw [ht.rest]
  cases hr : records k with
  | some r =>
    refine wp_nvsSave ?_ fun ho u hu => ⟨rfl, k, t, _, ht, ho, hu⟩
    unfold Node.saved
    rw [hdev]
    split
    · rename_i hd
      exact ht.skip (by rw [hr, slotSaved_some, if_pos hd])
    · rename_i hd
      exact ht.write rfl (by rw [hr, slotSaved_some, if_neg hd])
  | none =>
    show wp (if w.nvsOk _ then _ else _) _ _ _
    split
    · exact ht.write rfl (by rw [hr, slotSaved_none]; exact .inl rfl)
    · exact ht.skip (by rw [hr, slotSaved_none]; exact .inr rfl)

namespace PeerRegistry

/-- A registration sets the key of that address alone. -/
theorem keyOf_register {r : PeerRegistry} {mac : Mac} (key : Key) (nowMs : UInt64)
    (h : (r.find mac).isSome ∨ r.count < maxPeers) (mac' : Mac) :
    (r.register mac key nowMs).keyOf mac' = if mac' = mac then some key else r.keyOf mac' := by
  unfold register
  split
  · rename_i hs
    rw [keyOf_setKey]
    split
    · rename_i he
      obtain ⟨p, hp⟩ := Option.isSome_iff_exists.1 hs
      rw [he, keyOf, hp]
      rfl
    · rfl
  · rename_i hs
    have hn : r.find mac = none := by simpa using hs
    rw [keyOf, find_append (h.resolve_left hs)]
    by_cases he : mac' = mac
    · subst he
      rw [hn, if_pos rfl, if_pos rfl]
      rfl
    · rw [if_neg he, if_neg (Ne.symm he), Option.or_none]
      rfl

theorem keyEstablished_eq {r : PeerRegistry} {mac : Mac} :
    r.keyEstablished mac = ((r.keyOf mac).map fun k => !k.isZero).getD false := by
  unfold keyEstablished keyOf
  cases r.find mac <;> rfl

theorem keyEstablished_touch {r : PeerRegistry} {mac mac' : Mac} {nowMs : UInt64} :
    (r.touch mac nowMs).keyEstablished mac' = r.keyEstablished mac' := by
  rw [keyEstablished_eq, keyEstablished_eq, keyOf_touch]

theorem isSome_of_keyEstablished {r : PeerRegistry} {mac : Mac}
    (h : r.keyEstablished mac = true) : (r.find mac).isSome := by
  unfold keyEstablished at h
  cases hf : r.find mac with
  | none => rw [hf] at h; cases h
  | some p => rfl

end PeerRegistry

/-- After a registration the address is registered, and a non-zero key is established. -/
theorem find_isSome_register {r : PeerRegistry} {mac : Mac} (key : Key) (nowMs : UInt64)
    (h : (r.find mac).isSome ∨ r.count < maxPeers) :
    ((r.register mac key nowMs).find mac).isSome ∧
      (key.isZero = false → (r.register mac key nowMs).keyEstablished mac = true) := by
  have hf := PeerRegistry.keyOf_register key nowMs h mac
  rw [if_pos rfl] at hf
  refine ⟨?_, fun hz => ?_⟩
  · rw [← PeerRegistry.isSome_keyOf, hf]
    rfl
  · rw [PeerRegistry.keyEstablished_eq, hf]
    simp [hz]

/-- Registering and saving is one change. -/
theorem does_register {α : Type} {mac : Mac} {key : Key} {f : Node → Node} {g : Unit → MeshM α}
    {Q : α → Node → Prop} (hm : MayRegister w i s mac key)
    (hc : (s.peers.find mac).isSome ∨ s.peers.count < maxPeers)
    (hf : f s = { s with peers := s.peers.register mac key w.nowMs })
    (hg : ∀ t, t.peers = s.peers.register mac key w.nowMs → t.enrollment = s.enrollment →
      Does w s₀ i t (g ()) Q) :
    Does w s₀ i s (modify f >>= fun _ => saveToEEPROM w >>= g) Q := by
  unfold Does Spec
  rw [wp_bind, wp_modify, hf, wp_bind]
  unfold saveToEEPROM
  rw [wp_bind, wp_get]
  refine wp_mono _ (fun _ t ht => ?_) ?_
    (wp_writePeerSlots (s.peers.register mac key w.nowMs).records)
  · have hp : t.peers = s.peers.register mac key w.nowMs := by rw [ht.rest]
    have he : Effect w s₀ i s t := by
      refine .register hm hc ht.rest ⟨ht.written.nvs, ht.written.trace⟩ fun j => ?_
      have hj := ht.slots j
      rwa [if_pos j.isLt, ← hp] at hj
    refine wp_mono _ (fun _ _ h => ⟨.head he h.1, h.2⟩) ?_ (hg t hp (by rw [ht.rest]))
    exact fun _ _ ⟨v, hv, hs⟩ => ⟨v, .head he hv, hs⟩
  · rintro _ u ⟨rfl, k, t, op, ht, ho, hu⟩
    obtain ⟨es, htr, hes⟩ := ht.written.trace
    obtain ⟨es', hur, hes'⟩ := hu.trace
    have hn := ht.written.nvs
    refine ⟨s, .refl, .register k hm hc ho ?_ (fun j => ?_) ⟨es' ++ es, ?_, ?_⟩⟩
    · rw [hu.nvs]
      exact hn
    · rw [hu.nvs]
      exact ht.slots j
    · rw [hur, htr, List.append_assoc]
    · intro e he
      rcases List.mem_append.1 he with he | he
      · exact .inl (hes' e he)
      · exact .inr (hes e he)

theorem does_enrollPeerWithRadio {mac : Mac} :
    Does w s₀ i s (enrollPeerWithRadio w mac) fun _ t => RadioOnly s t := by
  refine Spec.bind does_espNowDelPeer fun _ t _ ht => ?_
  exact Spec.mono does_registerPeerWithEspNow fun _ u _ hu => ht.trans hu

/-- What a successful registration leaves behind. -/
structure RegisteredAs (mac : Mac) (key : Key) (t : Node) : Prop where
  found : (t.peers.find mac).isSome
  established : key.isZero = false → t.peers.keyEstablished mac = true

theorem does_registerPeerWithKey {mac : Mac} {key : Key} {allowRekey : Bool}
    (hm : allowRekey = true ∨ s.peers.keyEstablished mac = false → MayRegister w i s mac key) :
    Does w s₀ i s (registerPeerWithKey w mac key allowRekey) fun r t =>
      t.enrollment = s.enrollment ∧ (r = true → RegisteredAs mac key t) := by
  -- the part after the registry was saved is the same in both registering branches
  have htail : ∀ t, t.peers = s.peers.register mac key w.nowMs → t.enrollment = s.enrollment →
      ((s.peers.find mac).isSome ∨ s.peers.count < maxPeers) →
      Does w s₀ i t (do enrollPeerWithRadio w mac; pure true) fun r t =>
        t.enrollment = s.enrollment ∧ (r = true → RegisteredAs mac key t) := by
    intro t hp he hc
    refine Spec.bind does_enrollPeerWithRadio fun _ u _ hu => Spec.ret ⟨?_, fun _ => ?_⟩
    · rw [hu.enrollment, he]
    · obtain ⟨hfound, hest⟩ := find_isSome_register key w.nowMs hc
      exact ⟨by rw [hu.peers, hp, hfound], by rw [hu.peers, hp]; exact hest⟩
  refine Spec.read_bind (Spec.ite (fun hc => ?_) fun hc => ?_)
  · simp only [Bool.and_eq_true, Bool.not_eq_true'] at hc
    refine Spec.update_bind (.touch s mac w.nowMs) (Spec.ret ⟨rfl, fun _ => ?_⟩)
    have hest : (s.peers.touch mac w.nowMs).keyEstablished mac = true := by
      rw [PeerRegistry.keyEstablished_touch]
      exact hc.2
    exact ⟨PeerRegistry.isSome_of_keyEstablished hest, fun _ => hest⟩
  · have hm' : MayRegister w i s mac key := by
      refine hm ?_
      cases allowRekey <;> simp_all
    refine Spec.ite (fun hs => ?_) fun hs => ?_
    · exact does_register hm' (.inl hs) (by rw [PeerRegistry.register, if_pos hs])
        fun t hp he => htail t hp he (.inl hs)
    · refine Spec.ite (fun _ => Spec.ret ⟨rfl, by simp⟩) fun hlt => ?_
      have hc : s.peers.count < maxPeers := by omega
      exact does_register hm' (.inr hc) (by rw [PeerRegistry.register, if_neg hs])
        fun t hp he => htail t hp he (.inr hc)

/-! ### Masters and enrollment -/

theorem does_learnMasterMac {mac : Mac} (h : MayLearn w i s mac) :
    Does w s₀ i s (learnMasterMac w mac) fun _ t => t = (s.learnedMaster mac).saved
      (.knownMasterMac mac) := by
  unfold Does Spec learnMasterMac
  rw [wp_bind, wp_modify]
  refine wp_nvsSave ⟨.single (.learnMaster s mac h), rfl⟩ fun ho u hu => ⟨s, .refl, ?_⟩
  exact .nvs ho ⟨hu.nvs, hu.eeprom, hu.trace⟩

theorem does_learnSecondaryMasterMac {mac : Mac} (h : MayLearnSecondary w i s mac) :
    Does w s₀ i s (learnSecondaryMasterMac w mac) fun _ t => t = (s.learnedSecondary mac).saved
      (.knownMasterMacSec mac) := by
  unfold Does Spec learnSecondaryMasterMac
  rw [wp_bind, wp_modify]
  refine wp_nvsSave ⟨.single (.learnSecondary s mac h), rfl⟩ fun ho u hu => ⟨s, .refl, ?_⟩
  exact .nvs ho ⟨hu.nvs, hu.eeprom, hu.trace⟩

@[simp] theorem Node.saved_peers (s : Node) (op : NvsOp) : (s.saved op).peers = s.peers := by
  unfold Node.saved
  split <;> rfl

@[simp] theorem Node.saved_enrollment (s : Node) (op : NvsOp) :
    (s.saved op).enrollment = s.enrollment := by
  unfold Node.saved
  split <;> rfl

theorem RegisteredAs.origin {t : Node} {m : Message}
    (h : RegisteredAs m.originMac m.enrollmentPublicKey t) : OriginRegistered t m :=
  ⟨h.found, h.established⟩

/-- An accepted acknowledgement stays accepted while the trust state stays the same. -/
theorem AcceptsJoinAck.congr {t : Node} {m : Message} (h : AcceptsJoinAck w i s m)
    (he : t.enrollment = s.enrollment) (hm : t.isMaster = s.isMaster)
    (hd : t.deviceMac = s.deviceMac) : AcceptsJoinAck w i t m := by
  obtain ⟨hi, ht, hl, hto, ha⟩ := h
  exact ⟨hi, ht, hm.trans hl, hto.trans hd.symm, by rw [he]; exact ha⟩

/-- It also stays accepted when its sender becomes the known master. -/
theorem joinAckAccepted_learned {c : Config} {e : Enrollment} {m : Message}
    (h : joinAckAccepted c e m = true) :
    joinAckAccepted c { e with knownMasterMac := m.originMac, hasMasterMac := true } m = true := by
  unfold joinAckAccepted at h ⊢
  simp only [Bool.and_eq_true] at h ⊢
  exact ⟨h.1, by simp⟩

/-- An acknowledgement is a received frame, so its role is fixed for the whole step. -/
theorem AcceptsJoinAck.ne_configButton {m : Message} (h : AcceptsJoinAck w i s m) :
    i ≠ .configButton := by
  obtain ⟨⟨srcMac, rfl⟩, -⟩ := h
  simp

/-- The state in which the secondary master of an acknowledgement is registered. -/
structure AckReady (w : World) (i : Input) (m : Message) (t : Node) : Prop where
  accepted : AcceptsJoinAck w i t m
  origin : OriginRegistered t m

theorem does_learnMasterFromAck {m : Message} (h : AckReady w i m s) :
    Does w s₀ i s (learnMasterFromAck w m.originMac) fun _ t => AckReady w i m t := by
  obtain ⟨ha, ho⟩ := h
  refine Spec.read_bind (Spec.ite (fun _ => Spec.ret ⟨ha, ho⟩) fun hm => ?_)
  have hm' : s.enrollment.hasMasterMac = false := by simpa using hm
  refine Spec.mono (does_learnMasterMac (.joinAck ha ho hm')) ?_
  rintro _ t - rfl
  obtain ⟨hi, ht, hl, hto, hacc⟩ := ha
  refine ⟨⟨hi, ht, by rw [Node.saved_isMaster]; exact hl, ?_, ?_⟩, ?_⟩
  · exact hto.trans ((s.learnedMaster m.originMac).saved_sameDevice _).deviceMac.symm
  · rw [Node.saved_enrollment]
    exact joinAckAccepted_learned hacc
  · unfold OriginRegistered at ho ⊢
    rw [Node.saved_peers]
    exact ho

theorem does_processJoinAckSecondary {m : Message} (h : AckReady w i m s) :
    Does w s₀ i s (processJoinAckSecondary w m) fun _ _ => True := by
  refine Spec.ite (fun _ => Spec.ret trivial) fun hz => ?_
  refine Spec.bind (does_registerPeerWithKey fun hk => ?_) fun r t hst hr => ?_
  · exact .secondary h.accepted h.origin hz (hk.resolve_left (by simp))
  · have hacc : AcceptsJoinAck w i t m := h.accepted.congr hr.1
      (effects_isMaster h.accepted.ne_configButton hst) (effects_sameDevice hst).deviceMac
    refine Spec.read_bind (Spec.ite (fun hc => ?_) fun _ => Spec.ret trivial)
    simp only [Bool.and_eq_true, Bool.not_eq_true'] at hc
    exact does_any (does_learnSecondaryMasterMac (.joinAck hacc hc.2))

theorem does_saveEnrolledFlag (h : MayEnroll w i s) :
    Does w s₀ i s (saveEnrolledFlag w true) fun _ t =>
      t.peers = s.peers ∧ t.enrollment = s.enrollment := by
  refine Spec.read_bind (Spec.ite (fun _ => Spec.ret ⟨rfl, rfl⟩) fun hd => ?_)
  refine Spec.ite (fun _ => ?_) fun _ => Spec.ret ⟨rfl, rfl⟩
  have he : Effect w s₀ i s (s.saved (.enrolledFlag 1)) := .storeEnrolled s h
  rw [Node.saved, if_neg hd] at he
  exact ⟨.single he, rfl, rfl⟩

theorem does_processJoinAck {srcMac : Mac} {m : Message} (hi : i = .rx srcMac m)
    (ht : m.messageType = MessageType.joinAck) (hl : s.isMaster = false)
    (hto : m.targetMac = s.deviceMac) :
    Does w s₀ i s (processJoinAck w m) fun _ _ => True := by
  refine Spec.read_bind (Spec.ite (fun ha => ?_) fun _ => Spec.ret trivial)
  have hacc : AcceptsJoinAck w i s m := ⟨⟨srcMac, hi⟩, ht, hl, hto, ha⟩
  refine Spec.bind (does_registerPeerWithKey fun hk => .joinAck hacc (hk.resolve_left (by simp)))
    fun r t hst hr => ?_
  refine Spec.ite (fun hreg => ?_) fun _ => Spec.ret trivial
  have hready : AckReady w i m t :=
    ⟨hacc.congr hr.1 (effects_isMaster hacc.ne_configButton hst) (effects_sameDevice hst).deviceMac,
      (hr.2 hreg).origin⟩
  refine Spec.bind (does_saveEnrolledFlag ⟨m, hready.1, hready.2⟩) fun _ u htu hu => ?_
  have hready' : AckReady w i m u := by
    refine ⟨hready.1.congr hu.2 (effects_isMaster hacc.ne_configButton htu)
      (effects_sameDevice htu).deviceMac, ?_⟩
    unfold OriginRegistered
    rw [hu.1]
    exact hready.2
  refine Spec.update_bind (.enroll u ⟨m, hready'.1, hready'.2⟩) ?_
  refine Spec.bind (does_learnMasterFromAck ⟨?_, hready'.2⟩) fun _ v _ hv =>
    does_processJoinAckSecondary hv
  exact hready'.1

end LatticeMesh
