import LatticeMesh.PeerKeys
import LatticeMesh.Trust

/-!
# What halts a master

A master derives keys from the public keys of the registered peers, and the derivation treats a key
that the key agreement rejects as fatal.  As long as no such key gets into the registry, nothing
that a master receives halts it.

## Main definitions

* `KeyAccepted` — the key is zero, which means unknown, or every key agreement accepts it.
* `frameKeys`, `offeredKeys` — the keys that a frame, and a step, registers.
* `PeerRegistry.OneShort` — a registry without room for the secondary master besides the sender.
* `Device.OffersAccepted` — all of them are accepted.

## Main results

* `Device.rx_noCrash` — **without a rejected key, no received frame halts or restarts a master.**
* `Device.not_rx_noCrash_lowOrder` — an enrollment request with a rejected key does, one frame
  later.
-/

namespace LatticeMesh

open EffectSpec Relation

/-! ### Keys that get into the registry -/

/-- The key is zero, or every key agreement accepts it. -/
def KeyAccepted (c : Crypto) (key : Key) : Prop :=
  key.isZero = true ∨ ∀ priv, (c.x25519Shared priv key).isSome

/-- The public keys that an accepted acknowledgement registers: that of its sender, and once the
sender is registered, that of the secondary master. -/
def PeerRegistry.ackKeys (r : PeerRegistry) (m : Message) (nowMs : UInt64) : List Key :=
  (if r.stores m.originMac false then [m.enrollmentPublicKey] else []) ++
    if ¬r.Refuses m.originMac ∧ m.ackSecondaryMac ≠ zeroMac ∧
        (r.registered m.originMac m.enrollmentPublicKey false nowMs).stores m.ackSecondaryMac
          false = true then [m.ackSecondaryKey]
    else []

/-- The public keys that a received frame registers, once it was read. -/
def frameKeys (w : World) (s : Node) (m : Message) : List Key :=
  if m.messageType = MessageType.enrollment then
    if s.isMaster && s.peers.stores m.originMac false then [m.enrollmentPublicKey] else []
  else if m.messageType = MessageType.joinAck then
    if !s.isMaster && m.targetMac = s.deviceMac && joinAckAccepted w.config s.enrollment m then
      s.peers.ackKeys m w.nowMs
    else []
  else []

/-- The public keys that a step registers: those of the default peers on a first boot, and those of
a frame that passes the checks. -/
def offeredKeys (w : World) (s : Node) : Input → List Key
  | .boot =>
    if bootstraps w.config s.nvs then
      (List.finRange maxPeers).filterMap fun j =>
        ((w.config.defaultRecords j).filter fun r => r.mac ≠ broadcastMac).map PeerRecord.publicKey
    else []
  | .rx _ m => if passesChecks w s m then frameKeys w s m else []
  | _ => []

/-! ### Room in the registry -/

section Room

variable {w : World} {s₀ s t : Node} {i : Input} {srcMac mac : Mac} {m : Message} {r : PeerRegistry}

theorem PeerRegistry.find_register_eq_none {mac' : Mac} {key : Key} {nowMs : UInt64}
    (hc : (r.find mac).isSome ∨ r.count < maxPeers) (hne : mac' ≠ mac) (h : r.find mac' = none) :
    (r.register mac key nowMs).find mac' = none := by
  rwa [find_eq_none_iff_keyOf, keyOf_register key nowMs hc, if_neg hne, ← find_eq_none_iff_keyOf]

theorem PeerRegistry.count_register_of_none {key : Key} {nowMs : UInt64} (hf : r.find mac = none)
    (hc : r.count < maxPeers) : (r.register mac key nowMs).count = r.count + 1 := by
  unfold register append
  rw [if_neg (by simp [hf]), dif_pos (show r.peers.length < maxPeers from hc)]
  exact List.length_append

/-- The sender of an acknowledgement takes the last slot, or has taken it: the secondary master, who
is somebody else and not registered, finds none. -/
structure PeerRegistry.OneShort (r : PeerRegistry) (m : Message) : Prop where
  ne : m.ackSecondaryMac ≠ m.originMac
  unknown : r.find m.ackSecondaryMac = none
  full : r.find m.originMac = none ∧ r.count + 1 = maxPeers ∨ maxPeers ≤ r.count

theorem PeerRegistry.OneShort.touch {nowMs : UInt64} (h : r.OneShort m) :
    (r.touch mac nowMs).OneShort m := by
  have hfind : ∀ mac', r.find mac' = none → (r.touch mac nowMs).find mac' = none := by
    intro mac' hnone
    rwa [find_eq_none_iff_keyOf, keyOf_touch, ← find_eq_none_iff_keyOf]
  refine ⟨h.ne, hfind _ h.unknown, ?_⟩
  rw [PeerRegistry.touch, count_update]
  exact h.full.imp_left fun hs => ⟨hfind _ hs.1, hs.2⟩

/-- While an acknowledgement is processed, the secondary master finds no slot. -/
theorem PeerChange.oneShort (h : PeerChange w (.rx srcMac m) s t)
    (ht : m.messageType = MessageType.joinAck) (hs : s.peers.OneShort m) : t.peers.OneShort m := by
  cases h with
  | same hp | wiped _ hp => rwa [hp]
  | touched hp =>
    rw [hp]
    exact hs.touch
  | registered hr hc hp =>
    cases hr with
    | enrollment hi ht' =>
      cases hi
      exact absurd (ht.symm.trans ht') (by decide)
    | joinAck ha =>
      obtain ⟨_, hi⟩ := ha.1
      cases hi
      rw [hp]
      refine ⟨hs.ne, PeerRegistry.find_register_eq_none hc hs.ne hs.unknown, .inr ?_⟩
      rcases hs.full with ⟨hnone, hcount⟩ | hfull
      · rw [PeerRegistry.count_register_of_none hnone (by omega)]
        exact hcount.ge
      · rwa [PeerRegistry.count_register (hc.resolve_right (not_lt.2 hfull))]
    | secondary ha ho =>
      -- by now the sender is registered, so the registry is full
      obtain ⟨_, hi⟩ := ha.1
      cases hi
      exfalso
      have hfull : maxPeers ≤ s.peers.count :=
        hs.full.resolve_left fun h => absurd ho.1 (by simp [h.1])
      rcases hc with hc | hc
      · simp [hs.unknown] at hc
      · omega
    | approved hi => cases hi

theorem effects_oneShort (hst : ReflTransGen (Effect w s₀ (.rx srcMac m)) s t)
    (ht : m.messageType = MessageType.joinAck) (hs : s.peers.OneShort m) : t.peers.OneShort m := by
  induction hst with
  | refl => exact hs
  | tail _ h ih => exact h.peerChange.oneShort ht ih

/-- A registry that refuses the secondary master once the sender is registered does so from the
start, or the sender takes the last slot. -/
theorem PeerRegistry.refuses_or_oneShort {nowMs : UInt64}
    (h : (r.registered m.originMac m.enrollmentPublicKey false nowMs).Refuses m.ackSecondaryMac) :
    r.Refuses m.ackSecondaryMac ∨ r.OneShort m := by
  unfold registered at h
  split at h
  · rename_i hst
    have hroom := not_refuses_iff.1 (stores_iff.1 hst).2
    obtain ⟨hnone, hfull⟩ := h
    rw [find_eq_none_iff_keyOf, keyOf_register _ _ hroom] at hnone
    have hne : m.ackSecondaryMac ≠ m.originMac := fun he => by simp [he] at hnone
    rw [if_neg hne, ← find_eq_none_iff_keyOf] at hnone
    cases hf : r.find m.originMac with
    | some p =>
      rw [count_register (by simp [hf])] at hfull
      exact .inl ⟨hnone, hfull⟩
    | none =>
      have hlt := hroom.resolve_left (by simp [hf])
      rw [count_register_of_none hf hlt] at hfull
      exact .inr ⟨hne, hnone, .inl ⟨hf, by omega⟩⟩
  · split at h
    · refine .inl ⟨?_, ?_⟩
      · have hnone := h.1
        rwa [find_eq_none_iff_keyOf, keyOf_touch, ← find_eq_none_iff_keyOf] at hnone
      · have hfull := h.2
        rwa [touch, count_update] at hfull
    · exact .inl h

/-- A key that the registration of the sender establishes is established already, or the
sender's. -/
theorem PeerRegistry.keyEstablished_registered {nowMs : UInt64} {mac' : Mac} {key : Key}
    (h : (r.registered mac key false nowMs).keyEstablished mac' = true) :
    r.keyEstablished mac' = true ∨ mac' = mac ∧ key.isZero = false := by
  unfold registered at h
  split at h
  · rename_i hst
    have hroom := not_refuses_iff.1 (stores_iff.1 hst).2
    rw [keyEstablished_eq, keyOf_register _ _ hroom] at h
    split at h
    · exact .inr ⟨‹_›, by simpa using h⟩
    · exact .inl (by rwa [keyEstablished_eq])
  · split at h
    · exact .inl (by rwa [keyEstablished_touch] at h)
    · exact .inl h

/-- The secondary master is registered only if there is room for it besides the sender. -/
theorem stores_secondary (hst : ReflTransGen (Effect w s₀ (.rx srcMac m)) s t)
    (ht : m.messageType = MessageType.joinAck) (ho : OriginRegistered t m)
    (hk : t.peers.keyEstablished m.ackSecondaryMac = false)
    (hroom : ¬t.peers.Refuses m.ackSecondaryMac) (nowMs : UInt64) :
    (s.peers.registered m.originMac m.enrollmentPublicKey false nowMs).stores m.ackSecondaryMac
      false = true := by
  refine PeerRegistry.stores_iff.2 ⟨?_, fun hno => ?_⟩
  · by_contra hest
    rw [Bool.not_eq_false] at hest
    rcases PeerRegistry.keyEstablished_registered hest with hest | ⟨heq, hz⟩
    · rw [effects_keyEstablished hst hest] at hk
      cases hk
    · rw [heq, ho.2 hz] at hk
      cases hk
  · rcases PeerRegistry.refuses_or_oneShort hno with h | h
    · exact hroom (effects_refuses hst h)
    · have hlast := effects_oneShort hst ht h
      exact hroom ⟨hlast.unknown, hlast.full.resolve_left fun h => absurd ho.1 (by simp [h.1])⟩

end Room

namespace Device

variable {b : Board} {d : Device} {e : Env} {i : Input} {s : Node}

/-- The step registers no key that a key agreement rejects. -/
def OffersAccepted (b : Board) (d : Device) (x : Env × Input) : Prop :=
  x.2 = .boot ∨ d.status = .running → ∀ key ∈ offeredKeys (b.world x.1) d.node x.2,
    KeyAccepted b.crypto key

theorem offeredKeys_rx {srcMac : Mac} {m : Message}
    (hp : passesChecks (b.world e) d.node m = true) :
    offeredKeys (b.world e) d.node (.rx srcMac m) = frameKeys (b.world e) d.node m := if_pos hp

theorem frameKeys_joinAck {srcMac : Mac} {m : Message}
    (ha : AcceptsJoinAck (b.world e) (.rx srcMac m) (d.inputNode (.rx srcMac m)) m) :
    frameKeys (b.world e) d.node m = d.node.peers.ackKeys m e.nowMs := by
  obtain ⟨-, ht, hl, hto, hacc⟩ := ha
  have hne : m.messageType ≠ MessageType.enrollment := by rw [ht]; decide
  have hc : (!d.node.isMaster && decide (m.targetMac = d.node.deviceMac) &&
      joinAckAccepted b.config d.node.enrollment m) = true := by
    rw [show d.node.isMaster = false from hl,
      show joinAckAccepted b.config d.node.enrollment m = true from hacc,
      decide_eq_true (show m.targetMac = d.node.deviceMac from hto)]
    rfl
  unfold frameKeys
  rw [if_neg hne, if_pos ht]
  exact if_pos hc

/-- The keys that are registered in a step are offered by it, or registered already. -/
theorem offered_of_mayRegister {mac : Mac} {key : Key}
    (hw : Within b (fun d x => OffersAccepted b d x ∧ Reads b d x) d e i s)
    (h : MayRegister (b.world e) i s mac key) (hroom : ¬s.peers.Refuses mac) :
    key ∈ offeredKeys (b.world e) d.node i ∨
      ∃ p ∈ s.peers.peers, p.mac = mac ∧ p.publicKey = key := by
  -- what holds of the registry by now tells what the step found
  have hstart : ∀ {mac}, s.peers.keyEstablished mac = false → ¬s.peers.Refuses mac →
      (d.inputNode i).peers.stores mac false = true := fun hk hroom =>
    effects_stores hw.reached (PeerRegistry.stores_iff.2 ⟨hk, hroom⟩)
  cases h with
  | @enrollment srcMac m hi ht hm hk =>
    subst hi
    left
    rw [offeredKeys_rx (hw.admissible.2 srcMac m rfl), frameKeys, if_pos ht]
    have hm' : d.node.isMaster = true := (effects_isMaster (by simp) hw.reached).symm.trans hm
    have hst : d.node.peers.stores m.originMac false = true := hstart hk hroom
    rw [hm', hst]
    exact List.mem_singleton.2 rfl
  | @joinAck m ha hk =>
    obtain ⟨srcMac, rfl⟩ := ha.1
    left
    rw [offeredKeys_rx (hw.admissible.2 srcMac m rfl), frameKeys_joinAck (ha.atStart hw.reached)]
    have hst : d.node.peers.stores m.originMac false = true := hstart hk hroom
    refine List.mem_append_left _ ?_
    rw [if_pos hst]
    exact List.mem_singleton.2 rfl
  | @secondary m ha ho hz hk =>
    obtain ⟨srcMac, rfl⟩ := ha.1
    left
    rw [offeredKeys_rx (hw.admissible.2 srcMac m rfl), frameKeys_joinAck (ha.atStart hw.reached)]
    have hsender : ¬d.node.peers.Refuses m.originMac := fun hfull => by
      have hsome := ho.1
      rw [(effects_refuses hw.reached hfull).1] at hsome
      cases hsome
    refine List.mem_append_right _ ?_
    rw [if_pos ⟨hsender, hz, stores_secondary hw.reached ha.2.1 ho hk hroom e.nowMs⟩]
    exact List.mem_singleton.2 rfl
  | approved _ _ _ hp =>
    exact .inr ⟨_, List.mem_of_find?_eq_some hp, PeerRegistry.find_mac hp, rfl⟩

theorem mem_offeredKeys_boot (hb : bootstraps b.config d.node.nvs = true) {j : Fin maxPeers}
    {r : PeerRecord} (hr : b.config.defaultRecords j = some r) (hm : r.mac ≠ broadcastMac) :
    r.publicKey ∈ offeredKeys (b.world e) d.node .boot := by
  unfold offeredKeys
  rw [if_pos (show bootstraps (b.world e).config d.node.nvs = true from hb)]
  refine List.mem_filterMap.2 ⟨j, List.mem_finRange j, ?_⟩
  rw [show (b.world e).config.defaultRecords j = some r from hr,
    Option.filter_some_pos (by simpa using hm), Option.map_some]

/-- As long as no rejected key is offered, none is registered. -/
theorem acceptedKeys_rule (b : Board) :
    PeerRule b (fun d x => OffersAccepted b d x ∧ Reads b d x)
      fun _ key => KeyAccepted b.crypto key where
  register d e i s hw hs mac key h hroom := by
    rcases offered_of_mayRegister hw h hroom with hk | ⟨p, hp, -, rfl⟩
    · exact hw.admissible.1 (.inr hw.running) key hk
    · exact hs p hp
  bootstrap d e hc hb j r hr hm := hc.1 (.inl rfl) _ (mem_offeredKeys_boot hb hr hm)
  default mac _ := .inl rfl

/-! ### Received frames -/

/-- The key derivation takes every accepted key. -/
theorem KeyAccepted.derives {c : Crypto} {key : Key} (h : KeyAccepted c key)
    (hkdf : ∀ secret label, (c.hkdfSha256 secret label).isSome) (hz : key.isZero = false)
    (priv : Key) : e2eKeysOf c priv key ≠ none := by
  obtain ⟨secret, hs⟩ := Option.isSome_iff_exists.1 ((h.resolve_left (by simp [hz])) priv)
  obtain ⟨kUp, hu⟩ := Option.isSome_iff_exists.1 (hkdf secret upLabel)
  obtain ⟨kDown, hd⟩ := Option.isSome_iff_exists.1 (hkdf secret downLabel)
  unfold e2eKeysOf
  simp [hs, hu, hd]

/-- A received frame abandons the program of a master only to restart it on command. -/
theorem stop_of_rx {w : World} {s₀ s u : Node} {srcMac : Mac} {m : Message} {h : Halt}
    (hu : Stop w s₀ (.rx srcMac m) h s u) (hnvs : ∀ op, w.nvsOk op = true)
    (hdisplay : w.config.enableSevsegDisplay = true → w.displayAck = true)
    (hkdf : ∀ secret label, (w.crypto.hkdfSha256 secret label).isSome)
    (hm : s.isMaster = true) (hkeys : s.peers.All fun _ key => KeyAccepted w.crypto key) :
    h = .espRestart ∧ u = s.emit .espRestart := by
  rcases hu.of_works hnvs hdisplay with ⟨_, -, hl, -⟩ | ⟨_, p, _, _, hp, hz, hk, -⟩ | hr
  · rcases hl with hl | ⟨f, hf⟩
    · rw [hm] at hl
      cases hl
    · cases hf
  · have hacc := hkeys _ (List.mem_of_find?_eq_some hp)
    exact absurd hk (KeyAccepted.derives hacc hkdf hz _)
  · exact hr

/-- **As long as no rejected key gets into the registry, no received frame halts a master or
restarts it by way of an error**: at most it restarts on command. -/
theorem rx_noCrash {b : Board} {xs : List (Env × Input)} {e : Env} {srcMac : Mac} {m : Message}
    (hkdf : ∀ secret label, (b.crypto.hkdfSha256 secret label).isSome)
    (hxs : Runs.Along (step b) (OffersAccepted b) (blank {}) (xs ++ [(e, .rx srcMac m)]))
    (hrun : (run b (blank {}) xs).status = .running)
    (hm : (run b (blank {}) xs).node.isMaster = true) (hnvs : ∀ op, e.nvsOk op = true)
    (hdisplay : b.config.enableSevsegDisplay = true → e.displayAck = true) :
    let d := step b (run b (blank {}) xs) (e, .rx srcMac m)
    (d.status = .running ∨ d.status = .halted .espRestart) ∧
      ∀ ev ∈ d.node.stepEvents, ev.isCrash = false := by
  obtain ⟨hxs, hx, -⟩ := Runs.along_append.1 hxs
  have hmeets : (run b (blank {}) xs).Meets _ _ :=
    (acceptedKeys_rule b).invariant.run_reads (fun _ _ h => h) (meets_blank Nvs.allPeers_blank) hxs
  change OffersAccepted b (run b (blank {}) xs) _ at hx
  generalize run b (blank {}) xs = d₀ at hrun hm hmeets hx ⊢
  by_cases hread : Reads b d₀ (e, .rx srcMac m)
  swap
  · rw [step_of_not_reads hread hrun]
    exact ⟨.inl rfl, fun _ h => nomatch h⟩
  have hst := stepTo b d₀ e (.rx srcMac m)
  generalize step b d₀ (e, .rx srcMac m) = d at hst
  cases hst with
  | ignored _ hs => exact absurd hrun hs
  | ran _ _ ht => exact ⟨.inl rfl, stepEvents_noCrash ht⟩
  | @halted _ h t u _ _ ht hu =>
    have hkeys : t.peers.All fun _ key => KeyAccepted b.crypto key :=
      ((acceptedKeys_rule b).invariant.within hmeets ⟨⟨hx, hread⟩, by simp, hrun, ht⟩).1
    have hm' : t.isMaster = true := (effects_isMaster (by simp) ht).trans hm
    obtain ⟨rfl, rfl⟩ := stop_of_rx hu hnvs hdisplay hkdf hm' hkeys
    refine ⟨.inr rfl, fun ev hev => ?_⟩
    rcases List.mem_cons.1 hev with rfl | hev
    · rfl
    · exact stepEvents_noCrash ht ev hev

end Device

namespace Sample

/-- A device that was made the master and restarted. -/
def becomesMaster : List (Env × Input) :=
  [(env 1 100, .boot), (env 1 200, .configButton), (env 1 300, .boot)]

/-- The enrollment request of the station 5 under the given key. -/
def enrollRequest (k : Key) : Message :=
  { frame 5 MessageType.enrollment 1 1 with enrollmentPublicKey := k }

/-- A data frame of the station 5 for the master, which is not sealed. -/
def unsealedData : Message := { frame 5 MessageType.adapterData 1 2 with targetMac := mac 7 }

theorem keyAccepted_of_ne {key : Key} (h : key ≠ lowOrderKey) : KeyAccepted crypto key := by
  refine .inr fun priv => ?_
  show (if key = lowOrderKey then none else some (xor priv key)).isSome = true
  rw [if_neg h]
  rfl

end Sample

namespace Device

set_option maxRecDepth 100000 in
/-- A data frame of a station that enrolled under a key of its own. -/
theorem rx_noCrash_enrolled :
    let d := step Sample.masterBoard (run Sample.masterBoard (blank {}) (Sample.becomesMaster ++
      [(Sample.env 1 400, .rx (Sample.mac 5) (Sample.enrollRequest (Sample.key 5)))]))
      (Sample.env 1 500, .rx (Sample.mac 5) Sample.unsealedData)
    (d.status = .running ∨ d.status = .halted .espRestart) ∧
      ∀ ev ∈ d.node.stepEvents, ev.isCrash = false := by
  have hxs : Runs.Along (step Sample.masterBoard)
      (fun d x => x.2 = .boot ∨ d.status = .running →
        ∀ key ∈ offeredKeys (Sample.masterBoard.world x.1) d.node x.2, key ≠ Sample.lowOrderKey)
      (blank {}) ((Sample.becomesMaster ++
        [(Sample.env 1 400, .rx (Sample.mac 5) (Sample.enrollRequest (Sample.key 5)))]) ++
        [(Sample.env 1 500, .rx (Sample.mac 5) Sample.unsealedData)]) := by decide +kernel
  exact rx_noCrash (fun _ _ => rfl)
    (hxs.mono fun d x h hx key hk => Sample.keyAccepted_of_ne (h hx key hk))
    (by decide +kernel) (by decide +kernel) (fun _ => rfl) fun _ => rfl

set_option maxRecDepth 100000 in
/-- **A station that enrolls under a key which the key agreement rejects**: the next data frame
under its address halts the master. -/
theorem not_rx_noCrash_lowOrder :
    let d₀ := run Sample.masterBoard (blank {}) (Sample.becomesMaster ++
      [(Sample.env 1 400, .rx (Sample.mac 5) (Sample.enrollRequest Sample.lowOrderKey))])
    let d := step Sample.masterBoard d₀ (Sample.env 1 500, .rx (Sample.mac 5) Sample.unsealedData)
    d₀.status = .running ∧ d₀.node.isMaster = true ∧
      (∀ secret label, (Sample.masterBoard.crypto.hkdfSha256 secret label).isSome) ∧
      (∀ op, (Sample.env 1 500).nvsOk op = true) ∧ d.status = .halted .fatal ∧
      ¬∀ ev ∈ d.node.stepEvents, ev.isCrash = false := by
  refine ⟨by decide +kernel, by decide +kernel, fun _ _ => rfl, fun _ => rfl, by decide +kernel, ?_⟩
  decide +kernel

end Device

end LatticeMesh
