import LatticeMesh.Reachable

/-!
# The trust state

Which steps change what a node knows of its master and whether it counts as enrolled, in memory and
in flash, and what follows for the acknowledgement that a step processes: what it is checked
against is the state in which the step began.

## Main definitions

* `SameTrust` — the trust state did not change.
* `TrustChange` — what one change does to it.

## Main results

* `Effect.trustChange` — every change is one of these.
* `AcceptsJoinAck.atStart` — **an acknowledgement that is accepted within a step is accepted at its
  start.**
-/

namespace LatticeMesh

open EffectSpec Relation

variable {w : World} {s₀ s t : Node} {i : Input}

/-- The master that is known and the enrolled flag are the same, in memory and in flash. -/
structure SameTrust (s t : Node) : Prop where
  hasMasterMac : t.enrollment.hasMasterMac = s.enrollment.hasMasterMac
  knownMasterMac : t.enrollment.knownMasterMac = s.enrollment.knownMasterMac
  enrolled : t.enrollment.enrolled = s.enrollment.enrolled
  storedMaster : t.nvs.knownMasterMac = s.nvs.knownMasterMac
  storedEnrolled : t.nvs.enrolledFlag = s.nvs.enrolledFlag

/-- What one change does to the trust state. -/
inductive TrustChange (w : World) (i : Input) (s t : Node) : Prop
  | same (h : SameTrust s t)
  | wiped (hi : i = .resetButton)
  | learned {mac} (h : MayLearn w i s mac) (hh : t.enrollment.hasMasterMac = true)
      (hk : t.enrollment.knownMasterMac = mac)
      (he : t.enrollment.enrolled = s.enrollment.enrolled)
      (hm : t.nvs.knownMasterMac = s.nvs.knownMasterMac ∨ t.nvs.knownMasterMac = some mac)
      (hn : t.nvs.enrolledFlag = s.nvs.enrolledFlag)
  | enrolled (h : MayEnroll w i s)
      (hh : t.enrollment.hasMasterMac = s.enrollment.hasMasterMac)
      (hk : t.enrollment.knownMasterMac = s.enrollment.knownMasterMac)
      (hm : t.nvs.knownMasterMac = s.nvs.knownMasterMac)
      (hp : t.peers = s.peers) (hs : t.nvs.peer = s.nvs.peer)

theorem Node.savedEpoch_trust (s : Node) (epoch : UInt32) : SameTrust s (s.savedEpoch epoch) := by
  unfold Node.savedEpoch
  split <;> exact ⟨rfl, rfl, rfl, rfl, rfl⟩

theorem Node.drawn_trust (s : Node) : SameTrust s s.drawn := by
  have h := s.savedEpoch_trust (s.txState.bootEpoch + 1)
  unfold Node.drawn
  split
  · exact ⟨h.1, h.2, h.3, h.4, h.5⟩
  · exact ⟨rfl, rfl, rfl, rfl, rfl⟩

/-- Every change is one of these. -/
theorem Effect.trustChange (h : Effect w s₀ i s t) : TrustChange w i s t := by
  cases h with
  | quiet h =>
    rw [← h]
    exact .same ⟨rfl, rfl, rfl, rfl, rfl⟩
  | setting op h =>
    refine .same ⟨rfl, rfl, rfl, ?_, ?_⟩
    · cases op <;> first | rfl | cases h
    · cases op <;> first | rfl | cases h
  | wipe hi => exact .wiped hi
  | draw => exact .same s.drawn_trust
  | build =>
    have h := s.drawn_trust
    exact .same ⟨h.1, h.2, h.3, h.4, h.5⟩
  | register _ _ hp hw =>
    have hn := hw.nvs
    rw [hp]
    refine .same ⟨rfl, rfl, rfl, ?_, ?_⟩
    · show t.nvs.knownMasterMac = _
      rw [hn]
    · show t.nvs.enrolledFlag = _
      rw [hn]
  | learnMaster mac h =>
    unfold Node.saved
    split
    · exact .learned h rfl rfl rfl (.inl rfl) rfl
    · exact .learned h rfl rfl rfl (.inr rfl) rfl
  | learnSecondary mac =>
    unfold Node.saved
    split <;> exact .same ⟨rfl, rfl, rfl, rfl, rfl⟩
  | storeEnrolled h =>
    unfold Node.saved
    split <;> exact .enrolled h rfl rfl rfl rfl rfl
  | enroll h => exact .enrolled h rfl rfl rfl rfl rfl
  | _ => exact .same ⟨rfl, rfl, rfl, rfl, rfl⟩

/-- What the check of an acknowledgement depends on. -/
theorem joinAckAccepted_congr {c : Config} {e e' : Enrollment} {m : Message}
    (hp : e'.devicePublicKey = e.devicePublicKey) (hh : e'.hasMasterMac = e.hasMasterMac)
    (hk : e'.knownMasterMac = e.knownMasterMac) :
    joinAckAccepted c e' m = joinAckAccepted c e m := by
  unfold joinAckAccepted
  rw [hp, hh, hk]

/-- A step that processes an acknowledgement which is not accepted learns no master. -/
theorem rejected_keeps {srcMac : Mac} {m : Message} (hi : i = .rx srcMac m)
    (ht : m.messageType = MessageType.joinAck)
    (hno : joinAckAccepted w.config s₀.enrollment m = false)
    (hst : ReflTransGen (Effect w s₀ i) s₀ s) :
    s.enrollment.hasMasterMac = s₀.enrollment.hasMasterMac ∧
      s.enrollment.knownMasterMac = s₀.enrollment.knownMasterMac := by
  induction hst with
  | refl => exact ⟨rfl, rfl⟩
  | @tail s t hst h ih =>
    have hrej : ∀ m', AcceptsJoinAck w i s m' → False := by
      rintro m' ⟨⟨_, hi'⟩, -, -, -, ha⟩
      obtain ⟨-, rfl⟩ := Input.rx.inj (hi.symm.trans hi')
      have hp := (effects_sameDevice hst).devicePublicKey
      rw [joinAckAccepted_congr hp ih.1 ih.2, hno] at ha
      cases ha
    cases h.trustChange with
    | same hs => exact ⟨hs.hasMasterMac.trans ih.1, hs.knownMasterMac.trans ih.2⟩
    | wiped hi' => cases hi.symm.trans hi'
    | learned hl =>
      cases hl with
      | beacon hi' ht' =>
        obtain ⟨-, rfl⟩ := Input.rx.inj (hi.symm.trans hi')
        exact absurd (ht.symm.trans ht') (by decide)
      | joinAck ha => exact (hrej _ ha).elim
    | enrolled he =>
      obtain ⟨m', ha, -⟩ := he
      exact (hrej _ ha).elim

/-- **An acknowledgement that is accepted within a step is accepted at its start.** -/
theorem AcceptsJoinAck.atStart {m : Message} (h : AcceptsJoinAck w i s m)
    (hst : ReflTransGen (Effect w s₀ i) s₀ s) : AcceptsJoinAck w i s₀ m := by
  obtain ⟨⟨srcMac, hi⟩, ht, hl, hto, ha⟩ := h
  refine ⟨⟨srcMac, hi⟩, ht, ?_, hto.trans (effects_sameDevice hst).deviceMac, ?_⟩
  · rwa [← effects_isMaster (by rw [hi]; simp) hst]
  · by_contra hno
    rw [Bool.not_eq_true] at hno
    obtain ⟨hh, hk⟩ := rejected_keeps hi ht hno hst
    have hp := (effects_sameDevice hst).devicePublicKey
    rw [joinAckAccepted_congr hp hh hk, hno] at ha
    cases ha

end LatticeMesh
