import LatticeMesh.KeyLookup
import LatticeMesh.Reachable

/-!
# Relays and the seal

A frame that is passed on by other nodes stays what its origin sealed: a relay rewrites the fields
that routing needs, and neither the nonce nor the associated data nor the ciphertext depends on
them.

## Main definitions

* `SameSealed` — two frames agree in everything the seal depends on.
* `Device.transmits`, `Device.Relays` — what a node transmits in a step, and what of it is relayed.

## Main results

* `Device.transmits_of_running` — **a node that processes a frame of another one transmits copies of
  it with the same seal, and frames that it built itself.**
* `Device.relays_sealed` — **after any chain of relays the frame opens to what was sealed.**
-/

namespace LatticeMesh

open EffectSpec Relation

/-- The frames `m` and `r` agree in everything the seal depends on. -/
structure SameSealed (m r : Message) : Prop where
  nonce : buildNonce r = buildNonce m
  aad : buildAad r = buildAad m
  data : r.data = m.data
  authTag : r.authTag = m.authTag

theorem SameSealed.refl (m : Message) : SameSealed m m := ⟨rfl, rfl, rfl, rfl⟩

theorem SameSealed.trans {m r q : Message} (h : SameSealed m r) (h' : SameSealed r q) :
    SameSealed m q :=
  ⟨h'.1.trans h.1, h'.2.trans h.2, h'.3.trans h.3, h'.4.trans h.4⟩

theorem Message.RelayOf.sameSealed {m r : Message} (h : Message.RelayOf m r) : SameSealed m r := by
  refine ⟨buildNonce_relay h, buildAad_relay h, ?_, ?_⟩
  · rw [Message.relayOf_iff.1 h]
    rfl
  · rw [Message.relayOf_iff.1 h]
    rfl

/-- Frames with the same seal open alike. -/
theorem SameSealed.openPayload {c : Crypto} {key : Key} {m r : Message} (h : SameSealed m r) :
    openPayload c key r =
      (c.aeadOpen key (buildNonce m) (buildAad m) m.data m.authTag).map fun data =>
        { r with data := data } := by
  rw [LatticeMesh.openPayload, h.nonce, h.aad, h.data, h.authTag]

/-! ### What is transmitted -/

/-- Whether an event is a transmission. -/
def Event.isTx : Event → Bool
  | .tx _ _ => true
  | _ => false

variable {w : World} {s₀ s t : Node} {i : Input}

theorem Node.drawn_noTx (s : Node) :
    ∃ es, s.drawn.trace = es ++ s.trace ∧ ∀ e ∈ es, e.isTx = false := by
  unfold Node.drawn Node.savedEpoch
  split
  · split <;> exact ⟨[_], rfl, by simp [Event.isTx]⟩
  · exact ⟨[], rfl, by simp⟩

theorem Node.saved_noTx (s : Node) (op : NvsOp) :
    ∃ es, (s.saved op).trace = es ++ s.trace ∧ ∀ e ∈ es, e.isTx = false := by
  unfold Node.saved
  split
  · exact ⟨[], rfl, by simp⟩
  · exact ⟨[_], rfl, by simp [Event.isTx]⟩

theorem Event.isTx_of_isPeerWrite {e : Event} (h : e.isPeerWrite = true) : e.isTx = false := by
  cases e with
  | nvs => rfl
  | _ => cases h

/-- A change that adds events other than transmissions. -/
theorem maySend_of_noTx {es : List Event} (h : ∀ e ∈ es, e.isTx = false) :
    ∀ dest out, .tx dest out ∈ es → MaySend i s out := by
  intro dest out hm
  have := h _ hm
  cases this

/-- **What a change transmits may be sent.** -/
theorem Effect.transmits (h : Effect w s₀ i s t) :
    ∃ es, t.trace = es ++ s.trace ∧ ∀ dest out, .tx dest out ∈ es → MaySend i s out := by
  cases h with
  | quiet h => exact ⟨[], by rw [← h]; rfl, by simp⟩
  | touch | role | cacheKeys | enroll => exact ⟨[], rfl, by simp⟩
  | tx dest out h =>
    refine ⟨[_], rfl, fun dest' out' hm => ?_⟩
    cases List.mem_singleton.1 hm
    exact h
  | draw =>
    obtain ⟨es, he, hes⟩ := s.drawn_noTx
    exact ⟨es, he, maySend_of_noTx hes⟩
  | build type data msgType h =>
    obtain ⟨es, he, hes⟩ := s.drawn_noTx
    refine ⟨_ :: es, congrArg (_ :: ·) he, maySend_of_noTx ?_⟩
    rintro e (_ | ⟨_, hm⟩)
    · rfl
    · exact hes e hm
  | register _ _ _ hw =>
    obtain ⟨es, he, hes⟩ := hw.trace
    exact ⟨es, he, maySend_of_noTx fun e hm => Event.isTx_of_isPeerWrite (hes e hm)⟩
  | learnMaster mac =>
    obtain ⟨es, he, hes⟩ := (s.learnedMaster mac).saved_noTx (.knownMasterMac mac)
    exact ⟨es, he, maySend_of_noTx hes⟩
  | learnSecondary mac =>
    obtain ⟨es, he, hes⟩ := (s.learnedSecondary mac).saved_noTx (.knownMasterMacSec mac)
    exact ⟨es, he, maySend_of_noTx hes⟩
  | storeEnrolled =>
    obtain ⟨es, he, hes⟩ := s.saved_noTx (.enrolledFlag 1)
    exact ⟨es, he, maySend_of_noTx hes⟩
  | _ => exact ⟨[_], rfl, maySend_of_noTx (by simp [Event.isTx])⟩

/-- What was transmitted so far in the step that is going on may be sent. -/
def SentInStep (i : Input) (s : Node) : Prop :=
  ∀ dest out, .tx dest out ∈ s.stepEvents → MaySend i s out

theorem SentInStep.effect (h : SentInStep i s) (ht : Effect w s₀ i s t) : SentInStep i t := by
  obtain ⟨es, he, hsend⟩ := ht.transmits
  obtain ⟨es', he', hes'⟩ := effects_trace (.single ht)
  obtain rfl : es' = es := List.append_cancel_right (he'.symm.trans he)
  intro dest out hm
  rw [Node.stepEvents_append he fun e he => (hes' e he).1] at hm
  have hs : MaySend i s out := (List.mem_append.1 hm).elim (hsend dest out) (h dest out)
  exact hs.mono (.single ht)

/-- A program that is abandoned transmits nothing more. -/
theorem SentInStep.stop {h : Halt} {u : Node} (hs : SentInStep i s) (hu : Stop w s₀ i h s u) :
    ∀ dest out, .tx dest out ∈ u.stepEvents → MaySend i s out := by
  obtain ⟨es, he, hes⟩ := hu.history
  intro dest out hm
  have hin : ∀ e ∈ es, e.isInput = false := by
    intro e hme
    rcases hes e hme with hf | hp
    · exact Event.isInput_of_isPlain (Event.isPlain_of_isFault hf)
    · exact Event.isInput_of_isPlain (Event.isPlain_of_isPeerWrite hp)
  rw [Node.stepEvents_append he hin] at hm
  rcases List.mem_append.1 hm with hm | hm
  · rcases hes _ hm with hf | hp
    · cases hf
    · cases hp
  · exact hs dest out hm

theorem BuiltInStep.stop {h : Halt} {u : Node} {out : Message} (hb : BuiltInStep s out)
    (hu : Stop w s₀ i h s u) : ∃ b, .built b ∈ u.stepEvents ∧ buildNonce out = buildNonce b := by
  obtain ⟨-, b, hb, hn⟩ := hb
  obtain ⟨es, he, hes⟩ := hu.plain
  rw [Node.stepEvents_append he fun e hm => Event.isInput_of_isPlain (hes e hm)]
  exact ⟨b, List.mem_append_right es hb, hn⟩

namespace Device

variable {b : Board} {d : Device} {e : Env} {srcMac : Mac} {m r : Message}

/-- The frames that a device transmits in the step `x`. -/
def transmits (b : Board) (d : Device) (x : Env × Input) : List Message :=
  (step b d x).node.stepEvents.filterMap fun
    | .tx _ out => some out
    | _ => none

/-- The frames that a device builds in the step `x`. -/
def builds (b : Board) (d : Device) (x : Env × Input) : List Message :=
  (step b d x).node.stepEvents.filterMap fun
    | .built m => some m
    | _ => none

/-- The frame `out` carries the nonce of a frame that the device builds in the step `x`. -/
def Builds (b : Board) (d : Device) (x : Env × Input) (out : Message) : Prop :=
  ∃ m ∈ builds b d x, buildNonce out = buildNonce m

instance (b : Board) (d : Device) (x : Env × Input) (out : Message) :
    Decidable (Builds b d x out) := inferInstanceAs (Decidable (∃ m ∈ _, _))

theorem mem_transmits {x : Env × Input} {out : Message} :
    out ∈ transmits b d x ↔ ∃ dest, .tx dest out ∈ (step b d x).node.stepEvents := by
  unfold transmits
  rw [List.mem_filterMap]
  constructor
  · rintro ⟨ev, hev, h⟩
    cases ev with
    | tx dest out' =>
      cases Option.some.inj h
      exact ⟨dest, hev⟩
    | _ => cases h
  · exact fun ⟨dest, h⟩ => ⟨_, h, rfl⟩

theorem builds_of_mem {x : Env × Input} {out m : Message}
    (h : .built m ∈ (step b d x).node.stepEvents) (hn : buildNonce out = buildNonce m) :
    Builds b d x out := ⟨m, List.mem_filterMap.2 ⟨_, h, rfl⟩, hn⟩

theorem sentInStep_inputNode : SentInStep i (d.inputNode i) := by
  intro dest out hm
  cases hm

/-- **A node that processes a frame of another one transmits copies of it with the same seal, and
frames that it built itself.** -/
theorem transmits_of_running (hrun : d.status = .running) (ho : m.originMac ≠ d.node.deviceMac)
    (hr : r ∈ transmits b d (e, .rx srcMac m)) :
    Message.RelayOf m r ∨ Builds b d (e, .rx srcMac m) r := by
  obtain ⟨dest, hr⟩ := mem_transmits.1 hr
  have hst := stepTo b d e (.rx srcMac m)
  suffices Message.RelayOf m r ∨ ∃ m', .built m' ∈ (step b d (e, .rx srcMac m)).node.stepEvents ∧
      buildNonce r = buildNonce m' from
    this.imp_right fun ⟨_, hm, hn⟩ => builds_of_mem hm hn
  generalize step b d (e, .rx srcMac m) = d' at hst hr ⊢
  have hreach : ∀ t, ReflTransGen (Effect (b.world e) (d.inputNode (.rx srcMac m)) (.rx srcMac m))
      (d.inputNode (.rx srcMac m)) t → SentInStep (.rx srcMac m) t ∧
        t.deviceMac = d.node.deviceMac := by
    intro t ht
    refine ⟨?_, (effects_sameDevice ht).deviceMac⟩
    induction ht with
    | refl => exact sentInStep_inputNode
    | tail _ h ih => exact ih.effect h
  cases hst with
  | ignored _ hs => exact absurd hrun hs
  | @ran _ t _ _ ht =>
    obtain ⟨hsent, hmac⟩ := hreach t ht
    exact (hsent dest r hr srcMac m rfl (by rwa [hmac])).imp_right And.right
  | @halted _ h t u _ _ ht hu =>
    obtain ⟨hsent, hmac⟩ := hreach t ht
    exact (hsent.stop hu dest r hr srcMac m rfl (by rwa [hmac])).imp_right fun hb => hb.stop hu

/-- Some node relays the frame `m` of another one as `r`: it transmits `r` while it processes `m`,
and `r` is not a frame that it built. -/
def Relays (m r : Message) : Prop :=
  ∃ (b : Board) (d : Device) (e : Env) (srcMac : Mac), d.status = .running ∧
    m.originMac ≠ d.node.deviceMac ∧ r ∈ transmits b d (e, .rx srcMac m) ∧
    ¬Builds b d (e, .rx srcMac m) r

theorem Relays.relayOf (h : Relays m r) : Message.RelayOf m r := by
  obtain ⟨b, d, e, srcMac, hrun, ho, hr, hb⟩ := h
  exact (transmits_of_running hrun ho hr).resolve_right hb

/-- A chain of relays. -/
theorem relayOf_chain (h : ReflTransGen Relays m r) : Message.RelayOf m r := by
  induction h with
  | refl => exact .refl m
  | tail _ h ih => exact ih.trans h.relayOf

/-- **A relay keeps the nonce, the associated data, the ciphertext and the tag**, and after any
chain of relays the frame opens to what was sealed. -/
theorem relays_sealed :
    (∀ (b : Board) (d : Device) (e : Env) (srcMac : Mac) (m r : Message), d.status = .running →
      m.originMac ≠ d.node.deviceMac → r ∈ transmits b d (e, .rx srcMac m) →
      (SameSealed m r ∧ Message.RelayOf m r) ∨ Builds b d (e, .rx srcMac m) r) ∧
    ∀ (c : Crypto) (key : Key) (m sm r : Message), c.OpensSealed → sealPayload c key m = some sm →
      ReflTransGen Relays sm r → openPayload c key r = some { r with data := m.data } := by
  refine ⟨fun b d e srcMac m r hrun ho hr => ?_, fun c key m sm r hc hs hr => ?_⟩
  · exact (transmits_of_running hrun ho hr).imp_left fun h => ⟨h.sameSealed, h⟩
  · have hsame := (relayOf_chain hr).sameSealed
    have hopen := openPayload_sealPayload hc hs
    rw [hsame.openPayload]
    obtain ⟨data, hd, heq⟩ := Option.map_eq_some_iff.1 hopen
    have hdata : data = m.data := congrArg Message.data heq
    rw [hd, Option.map_some, hdata]

end Device

namespace Sample

/-- A leaf that was admitted. -/
def admittedLeaf : Device := Device.run board (Device.blank {}) admitted

/-- A frame of another node for a third one, before and after it is sealed. -/
def foreign : Message :=
  { frame 9 MessageType.adapterData 4 2 with targetMac := mac 5, data := Bytes.fill 64 8 }

def foreignSealed : Message :=
  { foreign with
    data := foreign.data.map (· ^^^ 6), authTag := tag (key 6) (buildNonce foreign) foreign.data }

end Sample

namespace Device

/-- The leaf floods a frame that is for another node, and the frame opens afterwards. -/
theorem relays_sealed_flood :
    ((SameSealed Sample.foreignSealed (Sample.foreignSealed.relayed (Sample.mac 1)) ∧
        Message.RelayOf Sample.foreignSealed (Sample.foreignSealed.relayed (Sample.mac 1))) ∨
      Builds Sample.board Sample.admittedLeaf
        (Sample.env 1 400, .rx (Sample.mac 9) Sample.foreignSealed)
        (Sample.foreignSealed.relayed (Sample.mac 1))) ∧
    openPayload Sample.crypto (Sample.key 6) (Sample.foreignSealed.relayed (Sample.mac 1)) =
      some { Sample.foreignSealed.relayed (Sample.mac 1) with data := Sample.foreign.data } := by
  have hrun : Sample.admittedLeaf.status = .running := by decide +kernel
  have horigin : Sample.foreignSealed.originMac ≠ Sample.admittedLeaf.node.deviceMac := by
    decide +kernel
  have hsent : Sample.foreignSealed.relayed (Sample.mac 1) ∈ transmits Sample.board
      Sample.admittedLeaf (Sample.env 1 400, .rx (Sample.mac 9) Sample.foreignSealed) := by
    decide +kernel
  have hforeign : ¬Builds Sample.board Sample.admittedLeaf
      (Sample.env 1 400, .rx (Sample.mac 9) Sample.foreignSealed)
      (Sample.foreignSealed.relayed (Sample.mac 1)) := by decide +kernel
  exact ⟨relays_sealed.1 _ _ _ _ _ _ hrun horigin hsent,
    relays_sealed.2 _ _ Sample.foreign _ _ Sample.opensSealed (by decide +kernel)
      (.single ⟨_, _, _, _, hrun, horigin, hsent, hforeign⟩)⟩

end Device

end LatticeMesh
