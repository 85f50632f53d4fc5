import LatticeMesh.MasterOnly

/-!
# Commands for a leaf

A leaf opens the data frames that are addressed to it with the key for downlink frames that it
shares with its current master, and lets a command pass only if the frame was opened and names a
known master as its origin.

## Main definitions

* `Node.openedDownlink` — what a frame for this leaf opens to.
* `LeafAuthorized` — what an authorised frame of a leaf went through.

## Main results

* `wp_authorize_leaf` — what a leaf authorises.
* `Device.leafAuthorized_run` — **in every reachable state of a leaf, a command that it authorises
  is for this leaf, was opened under the key of the current master and comes from a known master.**
-/

namespace LatticeMesh

open EffectSpec

variable {w : World} {s t : Node} {c : Crypto} {m opened : Message}

/-! ### What a leaf authorises -/

/-- What a frame for this leaf opens to under the keys that it shares with its master. -/
def Node.openedDownlink (c : Crypto) (s : Node) (m : Message) : Option Message :=
  (s.masterKeys c).bind fun keys => openPayload c keys.kDown m

/-- Whether a leaf opens a frame before it delivers it. -/
def Node.opensDownlink (s : Node) (m : Message) : Bool :=
  m.targetMac = s.deviceMac && m.messageType = MessageType.adapterData

/-- What reaches the gates of a leaf: the opened frame, or the frame as it came. -/
def Node.gatedDownlink (c : Crypto) (s : Node) (m : Message) : Option Message :=
  if s.opensDownlink m then s.openedDownlink c m else some m

/-- Opening a frame with the keys of the master. -/
theorem wp_openDownlink : wp (openDownlink w m) (fun r _ => r = s.openedDownlink w.crypto m)
    (fun _ _ => True) s := by
  unfold openDownlink Node.openedDownlink
  rw [wp_bind]
  refine wp_mono _ (fun r t hr => ?_) (fun _ _ _ => trivial) wp_masterE2EKeys_eq
  obtain ⟨rfl, -⟩ := hr
  cases s.masterKeys w.crypto with
  | none => rfl
  | some keys =>
    dsimp only [Option.bind_some]
    unfold openWith
    cases openPayload w.crypto keys.kDown m with
    | none => rfl
    | some opened =>
      rw [wp_bind, wp_emit]
      rfl

/-- What a leaf authorises: what reaches the gates, unless they forbid it. -/
theorem wp_authorize_leaf (hl : s.isMaster = false) :
    wp (authorize w m (m.targetMac = s.deviceMac))
      (fun r _ => r = (s.gatedDownlink w.crypto m).filter fun o =>
        configAllowed s.enrollment o (s.opensDownlink m)) (fun _ _ => True) s := by
  have hopens : (!false && decide (m.targetMac = s.deviceMac) &&
      decide (m.messageType = MessageType.adapterData)) = s.opensDownlink m := by
    unfold Node.opensDownlink
    rw [Bool.not_false, Bool.true_and]
  unfold authorize Node.gatedDownlink
  rw [wp_bind, wp_get]
  simp only [hl, Bool.false_and, Bool.false_eq_true, if_false, Bool.false_or, hopens]
  by_cases ho : s.opensDownlink m = true
  · simp only [ho, if_true, wp_bind]
    refine wp_mono _ (fun r t hr => ?_) (fun _ _ _ => trivial) wp_openDownlink
    obtain rfl := hr
    cases s.openedDownlink w.crypto m with
    | none => rfl
    | some opened =>
      rw [Option.filter_some]
      dsimp only
      split <;> rfl
  · simp only [ho, Bool.false_eq_true, if_false, wp_bind, wp_pure, Option.filter_some]
    split <;> rfl

/-- What an authorised frame of a leaf went through. -/
structure LeafAuthorized (c : Crypto) (s : Node) (m opened : Message) : Prop where
  /-- A command is for this leaf, was opened under the key that the registry has of the current
  master, and comes from a known master. -/
  command : isConfigOpcode opened = true → m.targetMac = s.deviceMac ∧
    s.enrollment.KnowsMaster m.originMac ∧
    ∃ key keys, s.peers.keyOf s.currentMaster.mac = some key ∧
      e2eKeysOf c s.enrollment.devicePrivateKey key = some keys ∧
      openPayload c keys.kDown m = some opened
  /-- A data frame for this leaf was opened. -/
  isOpened : m.targetMac = s.deviceMac → m.messageType = MessageType.adapterData →
    ∃ keys, s.masterKeys c = some keys ∧ openPayload c keys.kDown m = some opened
  /-- Opening changes the payload alone. -/
  data : opened = { m with data := opened.data }

/-- A leaf that finds the keys of its master knows a master. -/
theorem hasMasterMac_of_masterKeys {keys : E2EKeys} (h : s.masterKeys c = some keys) :
    s.enrollment.hasMasterMac = true ∧ s.keysOf c s.currentMaster.mac = some keys := by
  unfold Node.masterKeys at h
  split at h
  · exact ⟨‹_›, h⟩
  · cases h

/-- A command passes the gates only in a frame that was opened. -/
theorem opensDownlink_of_allowed {e : Enrollment} (hc : isConfigOpcode opened = true)
    (ha : configAllowed e opened (s.opensDownlink m) = true) : s.opensDownlink m = true := by
  unfold configAllowed at ha
  rw [hc, Bool.not_true, Bool.false_or] at ha
  exact (Bool.and_eq_true_iff.1 ha).1

/-- What a leaf with a coherent cache authorises. -/
theorem leafAuthorized (hl : s.isMaster = false) (hcoh : CacheCoherent w.crypto s)
    (h : authorize w m (m.targetMac = s.deviceMac) s = .ok (some opened) t) :
    LeafAuthorized w.crypto s m opened := by
  have hr := wp_ok h (wp_authorize_leaf hl)
  obtain ⟨hg, ha⟩ := Option.filter_eq_some_iff.1 hr.symm
  have hopen : s.opensDownlink m = true →
      ∃ keys, s.masterKeys w.crypto = some keys ∧
        openPayload w.crypto keys.kDown m = some opened := by
    intro ho
    unfold Node.gatedDownlink at hg
    rw [if_pos ho] at hg
    exact Option.bind_eq_some_iff.1 hg
  refine ⟨fun hc => ?_, fun hto ht => hopen ?_, ?_⟩
  · have ho := opensDownlink_of_allowed hc ha
    obtain ⟨keys, hk, hopened⟩ := hopen ho
    obtain ⟨hhas, hkeys⟩ := hasMasterMac_of_masterKeys hk
    obtain ⟨key, hkey, -, hd⟩ := hcoh.keysOf hkeys
    refine ⟨?_, ?_, key, keys, hkey, hd, hopened⟩
    · unfold Node.opensDownlink at ho
      exact of_decide_eq_true (Bool.and_eq_true_iff.1 ho).1
    · rw [ho] at ha
      have hknown := (configAllowed_opened hc).1 ha hhas
      rw [openPayload_originMac hopened] at hknown
      exact (Enrollment.knowsMaster_iff hhas).2 hknown
  · simp [Node.opensDownlink, hto, ht]
  · by_cases ho : s.opensDownlink m = true
    · obtain ⟨keys, -, hopened⟩ := hopen ho
      exact openPayload_data hopened
    · unfold Node.gatedDownlink at hg
      rw [if_neg ho] at hg
      obtain rfl := Option.some.inj hg
      rfl

namespace Device

/-- **A command that a leaf authorises is for this leaf, was opened under the key of its current
master and comes from a known master**, in every reachable state and for every frame. -/
theorem leafAuthorized_run {b : Board} {v : Nvs} {xs : List (Env × Input)} {e : Env}
    {m opened : Message} {t : Node} (hrun : (run b (blank v) xs).status = .running)
    (hl : (run b (blank v) xs).node.isMaster = false)
    (h : authorize (b.world e) m (m.targetMac = (run b (blank v) xs).node.deviceMac)
      (run b (blank v) xs).node = .ok (some opened) t) :
    LeafAuthorized b.crypto (run b (blank v) xs).node m opened := by
  have hmeets : (run b (blank v) xs).Meets _ _ := (cacheCoherent_invariant b fun _ _ => True).run
    (meets_blank trivial) (Runs.along_of_forall (fun _ _ => trivial) _ _)
  exact leafAuthorized (w := b.world e) hl (hmeets.2 hrun) h

end Device

namespace Sample

theorem nodeId_length : [(9 : UInt8)].length = 1 := rfl

/-- The command to take up another node id, which the master seals for the leaf. -/
def nodeIdCommand : Message :=
  let data := Bytes.ofList (n := 1) [Opcode.nodeIdSet] ++ mac 1 ++ Bytes.ofList [9] nodeId_length
  let m :=
    { frame 7 MessageType.adapterData 1 3 with
      targetMac := mac 1, dataType := AdapterType.serial
      data := Bytes.blit (Bytes.zero 64) 0 data command_le }
  (sealPayload crypto ((xor (key 1) (key 7)).map (· + 2)) m).getD m

/-- Whether a command was authorised. -/
def isCommand : EStateM.Result Halt Node (Option Message) → Bool
  | .ok (some opened) _ => isConfigOpcode opened
  | _ => false

theorem exists_of_isCommand {r : EStateM.Result Halt Node (Option Message)}
    (h : isCommand r = true) :
    ∃ opened t, r = .ok (some opened) t ∧ isConfigOpcode opened = true := by
  cases r with
  | ok opened t =>
    cases opened with
    | some opened => exact ⟨opened, t, rfl, h⟩
    | none => cases h
  | error => cases h

end Sample

namespace Device

set_option maxRecDepth 100000 in
/-- The leaf that was admitted obeys its master. -/
theorem leafAuthorized_admitted : ∃ opened t,
    authorize (Sample.board.world (Sample.env 1 400)) Sample.nodeIdCommand
        (Sample.nodeIdCommand.targetMac =
          (run Sample.board (blank {}) Sample.admitted).node.deviceMac)
        (run Sample.board (blank {}) Sample.admitted).node = .ok (some opened) t ∧
      isConfigOpcode opened = true ∧
      LeafAuthorized Sample.board.crypto (run Sample.board (blank {}) Sample.admitted).node
        Sample.nodeIdCommand opened := by
  obtain ⟨opened, t, h, hc⟩ := Sample.exists_of_isCommand
    (r := authorize (Sample.board.world (Sample.env 1 400)) Sample.nodeIdCommand
      (Sample.nodeIdCommand.targetMac =
        (run Sample.board (blank {}) Sample.admitted).node.deviceMac)
      (run Sample.board (blank {}) Sample.admitted).node) (by decide +kernel)
  exact ⟨opened, t, h, hc, leafAuthorized_run (by decide +kernel) (by decide +kernel) h⟩

end Device

end LatticeMesh
