import LatticeMesh.BeaconSteps
import LatticeMesh.RadioSafety
import LatticeMesh.Reachable

/-!
# The size of the radio's peer table

The peer table of the radio has twenty entries.  Five components add to it and take out of it, and
each of them looks only at what it knows itself.  Every registered address should have an owner: it
is the broadcast address, the master's pinned address, an enrolled peer, a tracked next hop of
downlink frames, or the relay that was chosen last.

## Main definitions

* `RadioCall`, `radioCallStep` — a boot, or one of the calls that reach the registered addresses.
* `radioOwners` — the addresses that may be registered.
* `RadioBounded` — every registered address is one of them, and there are no more than seventeen.
* `strandsZeroMac` — a relay is chosen in the place of the all-zero address, which stays registered.

## Main results

* `radioOwned_step` — one call keeps every address owned, but for a stranded all-zero address.
* `radioBounded_iff` — **the table stays bounded, exactly if the all-zero address is never
  stranded.**
* `radioPeers_lt_limit` — **in any case the table never fills up.**
-/

namespace LatticeMesh

open EffectSpec

variable {w : World} {s t : Node} {c : Config} {extra : List Mac} {E : Halt → Node → Prop}

/-! ### Owners -/

/-- The addresses that may be registered with the radio. -/
def radioOwners (c : Config) (s : Node) : List Mac :=
  broadcastMac :: c.pinMasterMac :: s.forwardingPeer :: (s.peers.macs ++ s.downlinkPeerLru)

/-- The entries of the radio's peer table. -/
def radioPeerLimit : ℕ := 20

/-- The entries that the owners account for. -/
def radioPeerMax : ℕ := 3 + maxPeers + downlinkPeerMax

example : radioPeerMax = 17 := rfl

/-- Every registered address has an owner, and the table is as small as that makes it. -/
structure RadioBounded (c : Config) (s : Node) : Prop where
  owned : s.radioPeers ⊆ radioOwners c s
  length_le : s.radioPeers.length ≤ radioPeerMax

/-- Every registered address has an owner or is one of the given ones; with it what the components
rely on. -/
structure RadioOwned (c : Config) (extra : List Mac) (s : Node) : Prop where
  owned : s.radioPeers ⊆ radioOwners c s ++ extra
  nodup : s.radioPeers.Nodup
  tracked : s.downlinkPeerLru.length ≤ downlinkPeerMax
  /-- The current master is the pinned one. -/
  pinned : s.currentMaster.distance ≠ 0xFF → s.currentMaster.mac = c.pinMasterMac

theorem length_radioOwners_le (h : s.downlinkPeerLru.length ≤ downlinkPeerMax) :
    (radioOwners c s).length ≤ radioPeerMax := by
  have hpeers : s.peers.macs.length ≤ maxPeers := by
    rw [PeerRegistry.macs, List.length_map]
    exact s.peers.length_le
  simp only [radioOwners, List.length_cons, List.length_append, radioPeerMax]
  omega

theorem RadioOwned.length_le (h : RadioOwned c extra s) :
    s.radioPeers.length ≤ radioPeerMax + extra.length := by
  have hsub := (List.subperm_of_subset h.nodup h.owned).length_le
  rw [List.length_append] at hsub
  have := length_radioOwners_le (c := c) h.tracked
  omega

theorem RadioOwned.bounded (h : RadioOwned c [] s) : RadioBounded c s := by
  refine ⟨?_, h.length_le⟩
  have howned := h.owned
  rwa [List.append_nil] at howned

theorem mem_radioOwners {x : Mac} : x ∈ radioOwners c s ↔ x = broadcastMac ∨ x = c.pinMasterMac ∨
    x = s.forwardingPeer ∨ x ∈ s.peers.macs ∨ x ∈ s.downlinkPeerLru := by
  simp only [radioOwners, List.mem_cons, List.mem_append]

/-- The owners of an address that a change leaves alone. -/
theorem radioOwners_subset (hf : t.forwardingPeer = s.forwardingPeer) {x : Mac}
    (hm : x ∈ s.peers.macs → x ∈ t.peers.macs)
    (hl : x ∈ s.downlinkPeerLru → x ∈ radioOwners c t) (h : x ∈ radioOwners c s ++ extra) :
    x ∈ radioOwners c t ++ extra := by
  rw [List.mem_append] at h ⊢
  refine h.imp_left fun h => ?_
  rcases mem_radioOwners.1 h with h | h | h | h | h
  · exact mem_radioOwners.2 (.inl h)
  · exact mem_radioOwners.2 (.inr (.inl h))
  · exact mem_radioOwners.2 (.inr (.inr (.inl (h.trans hf.symm))))
  · exact mem_radioOwners.2 (.inr (.inr (.inr (.inl (hm h)))))
  · exact hl h

/-! ### The calls one by one -/

/-- An address stays tracked, or it is evicted, or it is the next hop and owned by another. -/
theorem mem_downlinkLru_of_mem (mac : Mac) {x : Mac} (h : x ∈ s.downlinkPeerLru) :
    x ∈ downlinkLru s mac ∨ downlinkEvicted s mac = some x ∨
      x = mac ∧ downlinkTracks s mac = false := by
  unfold downlinkLru downlinkEvicted
  have herase : ∀ hx : x ≠ mac, x ∈ s.downlinkPeerLru.erase mac := fun hx =>
    (List.mem_erase_of_ne hx).2 h
  by_cases hxm : x = mac
  · subst hxm
    cases ht : downlinkTracks s x with
    | false => exact .inr (.inr ⟨rfl, rfl⟩)
    | true =>
      rw [if_pos rfl, if_pos (by simpa using h)]
      exact .inl List.mem_cons_self
  · split
    · rename_i ht
      split
      · exact .inl (List.mem_cons_of_mem _ (herase hxm))
      rename_i hin
      split
      · rename_i hfull
        have hne : s.downlinkPeerLru ≠ [] := List.ne_nil_of_mem h
        rw [if_pos (by simp only [ht, hin, hfull]; simp), List.getLastD_eq_getLast?,
          List.getLast?_eq_some_getLast hne]
        rw [← List.dropLast_concat_getLast hne, List.mem_append, List.mem_singleton] at h
        rcases h with h | h
        · exact .inl (List.mem_cons_of_mem _ h)
        · exact .inr (.inl (congrArg some h.symm))
      · exact .inl (List.mem_cons_of_mem _ h)
    · exact .inl (herase hxm)

theorem length_downlinkLru_le (s : Node) (mac : Mac)
    (h : s.downlinkPeerLru.length ≤ downlinkPeerMax) :
    (downlinkLru s mac).length ≤ downlinkPeerMax := by
  have herase := List.length_erase_le (a := mac) (l := s.downlinkPeerLru)
  unfold downlinkLru
  split
  · split
    · rename_i hin
      have hmem : mac ∈ s.downlinkPeerLru := by simpa using hin
      rw [List.length_cons, List.length_erase_of_mem hmem]
      have := List.length_pos_of_mem hmem
      omega
    split
    · rw [List.length_cons, List.length_dropLast]
      have : 0 < downlinkPeerMax := by decide
      omega
    · rw [List.length_cons]
      omega
  · omega

/-- An address that the downlink router does not track is enrolled, or it is the master's. -/
theorem RadioOwned.not_tracks {mac : Mac} (h : RadioOwned c extra s)
    (ht : downlinkTracks s mac = false) : mac ∈ s.peers.macs ∨ mac = c.pinMasterMac := by
  simp only [downlinkTracks, Bool.not_eq_false', Bool.or_eq_true, Bool.and_eq_true,
    decide_eq_true_eq] at ht
  rcases ht with hp | ⟨hd, hmac⟩
  · refine .inl (not_not.1 fun hno => ?_)
    rw [PeerRegistry.find_eq_none_iff.2 hno] at hp
    cases hp
  · exact .inr (hmac.trans (h.pinned hd))

theorem RadioOwned.downlink {mac : Mac} (h : RadioOwned c extra s)
    (ht : DownlinkRegistered s mac t) (hm : t.currentMaster = s.currentMaster) :
    RadioOwned c extra t := by
  have hmacs : t.peers.macs = s.peers.macs := by rw [ht.peers]
  have hown : downlinkTracks s mac = false → mac ∈ radioOwners c t := by
    intro hno
    rw [mem_radioOwners, hmacs]
    exact (h.not_tracks hno).elim (fun h => .inr (.inr (.inr (.inl h)))) fun h => .inr (.inl h)
  refine ⟨fun x hx => ?_, ht.nodup h.nodup, ?_, by rw [hm]; exact h.pinned⟩
  · rcases (ht.mem_radioPeers x).1 hx with ⟨hx, hev⟩ | rfl
    · refine radioOwners_subset ht.forwardingPeer (fun hx => hmacs ▸ hx) (fun hl => ?_) (h.owned hx)
      rcases mem_downlinkLru_of_mem mac hl with hl | hl | ⟨rfl, hno⟩
      · rw [← ht.downlinkPeerLru] at hl
        exact mem_radioOwners.2 (.inr (.inr (.inr (.inr hl))))
      · exact absurd hl hev
      · exact hown hno
    · refine List.mem_append_left _ ?_
      cases htr : downlinkTracks s x with
      | false => exact hown htr
      | true =>
        refine mem_radioOwners.2 (.inr (.inr (.inr (.inr ?_))))
        rw [ht.downlinkPeerLru, downlinkLru, if_pos htr]
        split
        · exact List.mem_cons_self
        split <;> exact List.mem_cons_self
  · rw [ht.downlinkPeerLru]
    exact length_downlinkLru_le s mac h.tracked

theorem RadioOwned.added {mac : Mac} (h : RadioOwned c extra s) (ht : PeerAdded s mac t)
    (hm : t.currentMaster = s.currentMaster) : RadioOwned c extra t := by
  have hmacs : ∀ x ∈ s.peers.macs, x ∈ t.peers.macs := by
    intro x hx
    rcases ht.macs with heq | ⟨heq, -⟩
    · rwa [heq]
    · rw [heq]
      exact List.mem_append_left _ hx
  refine ⟨fun x hx => ?_, ht.nodup h.nodup, by rw [ht.downlinkPeerLru]; exact h.tracked,
    by rw [hm]; exact h.pinned⟩
  rcases ht.mem_radioPeers x hx with hx | ⟨rfl, hin⟩
  · refine radioOwners_subset ht.forwardingPeer (hmacs x) (fun hl => ?_) (h.owned hx)
    rw [← ht.downlinkPeerLru] at hl
    exact mem_radioOwners.2 (.inr (.inr (.inr (.inr hl))))
  · exact List.mem_append_left _ (mem_radioOwners.2 (.inr (.inr (.inr (.inl hin)))))

/-- A removal leaves the other peers. -/
theorem PeerRegistry.mem_macs_remove {r : PeerRegistry} {mac x : Mac} (h : x ∈ r.macs)
    (hne : x ≠ mac) : x ∈ (r.remove mac).macs := by
  show x ∈ (PeerRegistry.removeMac r.peers mac).map PeerInfo.mac
  rcases PeerRegistry.removeMac_perm r.peers mac with ⟨p, hp, hperm⟩ | ⟨hsame, -⟩
  · have hx := (hperm.map PeerInfo.mac).mem_iff.1 h
    rw [List.map_cons, hp] at hx
    exact (List.mem_cons.1 hx).resolve_left hne
  · rw [hsame]
    exact h

theorem RadioOwned.removed {mac : Mac} (h : RadioOwned c extra s) (ht : PeerRemoved s mac t)
    (hm : t.currentMaster = s.currentMaster) : RadioOwned c extra t := by
  refine ⟨fun x hx => ?_, ht.nodup h.nodup, by rw [ht.downlinkPeerLru]; exact h.tracked,
    by rw [hm]; exact h.pinned⟩
  obtain ⟨hx, hne⟩ := ht.mem_radioPeers x hx
  refine radioOwners_subset ht.forwardingPeer (fun hp => ?_) (fun hl => ?_) (h.owned hx)
  · rw [ht.macs]
    exact PeerRegistry.mem_macs_remove hp hne
  · rw [← ht.downlinkPeerLru] at hl
    exact mem_radioOwners.2 (.inr (.inr (.inr (.inr hl))))

/-! ### The choice of a relay -/

/-- A relay is chosen in the place of the all-zero address, which is taken for none at all: it stays
registered, and nobody else owns it. -/
def strandsZeroMac (c : Config) (s : Node) (nowMs : UInt64) : Bool :=
  match chosenRelay s nowMs with
  | some hopMac => s.forwardingPeer = zeroMac && s.radioPeers.contains zeroMac &&
      !(radioOwners c { s with forwardingPeer := hopMac }).contains zeroMac
  | none => false

theorem radioRest_relayChosen (s : Node) (hopMac : Mac) :
    (s.relayChosen hopMac).peers = s.peers ∧
      (s.relayChosen hopMac).downlinkPeerLru = s.downlinkPeerLru ∧
      (s.relayChosen hopMac).currentMaster = s.currentMaster := by
  unfold Node.relayChosen Node.radioAdd
  split <;> split <;> exact ⟨rfl, rfl, rfl⟩

theorem radioOwners_relayChosen (c : Config) (s : Node) (hopMac : Mac) :
    radioOwners c (s.relayChosen hopMac) = radioOwners c { s with forwardingPeer := hopMac } := by
  obtain ⟨hp, hl, -⟩ := radioRest_relayChosen s hopMac
  simp only [radioOwners, hp, hl]
  rfl

theorem mem_relayChosen {hopMac x : Mac} : x ∈ (s.relayChosen hopMac).radioPeers ↔
    x ∈ s.radioPeers ∧ (evictsForwardingPeer s hopMac = true → x ≠ s.forwardingPeer) ∨
      x = hopMac := by
  show x ∈ (Node.radioAdd _ hopMac).radioPeers ↔ _
  rw [mem_radioAdd]
  cases evictsForwardingPeer s hopMac with
  | true =>
    rw [if_pos rfl, mem_radioDel]
    simp
  | false => simp

/-- The relay chosen before leaves the radio, unless it has another owner or is the all-zero
address. -/
theorem RadioOwned.relayChosen {nowMs : UInt64} {hopMac : Mac} (h : RadioOwned c extra s)
    (hc : chosenRelay s nowMs = some hopMac)
    (hz : zeroMac ∈ extra ∨ strandsZeroMac c s nowMs = false) :
    RadioOwned c extra (s.relayChosen hopMac) := by
  obtain ⟨hpeers, hlru, hmaster⟩ := radioRest_relayChosen s hopMac
  have hnodup : (s.relayChosen hopMac).radioPeers.Nodup := by
    refine nodup_radioAdd ?_
    split
    · exact nodup_radioDel h.nodup
    · exact h.nodup
  refine ⟨fun x hx => ?_, hnodup, by rw [hlru]; exact h.tracked, by rw [hmaster]; exact h.pinned⟩
  rw [radioOwners_relayChosen, List.mem_append, mem_radioOwners]
  rcases mem_relayChosen.1 hx with ⟨hx, hev⟩ | rfl
  -- each address that stays is the broadcast address, the master, the relay, a peer, or tracked
  · rcases List.mem_append.1 (h.owned hx) with hown | hextra
    · rcases mem_radioOwners.1 hown with hb | hpin | hf | hm | hl
      · exact .inl (.inl hb)
      · exact .inl (.inr (.inl hpin))
      · -- it was chosen before and is not evicted
        have hkept : evictsForwardingPeer s hopMac = false :=
          Bool.eq_false_iff.2 fun he => hev he hf
        simp only [evictsForwardingPeer, Bool.and_eq_false_iff, decide_eq_false_iff_not,
          not_not] at hkept
        rcases hkept with ((hzero | hsame) | henrolled) | hmac
        · rw [← hf] at hzero
          rcases hz with hz | hz
          · exact .inr (hzero ▸ hz)
          · rw [strandsZeroMac, hc] at hz
            have hreg : s.radioPeers.contains zeroMac = true := by
              rw [← hzero]
              simpa using hx
            simp only [← hf, hzero, hreg, decide_true, Bool.true_and, Bool.not_eq_false'] at hz
            have hin : zeroMac ∈ radioOwners c { s with forwardingPeer := hopMac } := by
              simpa using hz
            rw [hzero]
            exact .inl (mem_radioOwners.1 hin)
        -- it is chosen again
        · exact .inl (.inr (.inr (.inl (hf.trans hsame))))
        -- it is enrolled
        · refine .inl (.inr (.inr (.inr (.inl (not_not.1 fun hno => ?_)))))
          rw [hf] at hno
          rw [PeerRegistry.find_eq_none_iff.2 hno] at henrolled
          cases henrolled
        -- it is the master
        · have hd : s.currentMaster.distance ≠ 0xFF := by
            unfold chosenRelay at hc
            intro hd
            rw [if_pos (.inl hd)] at hc
            cases hc
          exact .inl (.inr (.inl (hf.trans (hmac.trans (h.pinned hd)))))
      · exact .inl (.inr (.inr (.inr (.inl hm))))
      · exact .inl (.inr (.inr (.inr (.inr hl))))
    · exact .inr hextra
  -- the relay that is chosen now
  · exact .inl (.inr (.inr (.inl rfl)))

/-- A stranded address is registered without an owner. -/
theorem not_owned_of_strands {nowMs : UInt64} (h : strandsZeroMac c s nowMs = true) :
    ∃ hopMac, chosenRelay s nowMs = some hopMac ∧
      ¬(s.relayChosen hopMac).radioPeers ⊆ radioOwners c (s.relayChosen hopMac) := by
  unfold strandsZeroMac at h
  split at h
  · rename_i hopMac hc
    simp only [Bool.and_eq_true, decide_eq_true_eq, Bool.not_eq_true', List.contains_eq_mem,
      decide_eq_false_iff_not] at h
    obtain ⟨⟨hf, hreg⟩, hno⟩ := h
    refine ⟨hopMac, hc, fun hsub => hno ?_⟩
    rw [radioOwners_relayChosen] at hsub
    refine hsub (mem_relayChosen.2 (.inl ⟨hreg, fun he => ?_⟩))
    simp [evictsForwardingPeer, hf] at he
  · cases h

/-! ### Beacons, timeouts and boots -/

/-- A beacon that is taken note of names the pinned master. -/
theorem wp_processBeacon_pinned {m : Message} (hdev : w.config.devMode = false)
    (h : s.currentMaster.distance ≠ 0xFF → s.currentMaster.mac = w.config.pinMasterMac) :
    wp (processBeacon w m) (fun _ t => t.currentMaster.distance ≠ 0xFF →
      t.currentMaster.mac = w.config.pinMasterMac) (fun _ _ => True) s := by
  refine wp_mono _ (fun _ t ht => ?_) (fun _ _ _ => trivial) wp_processBeacon_routeState
  split at ht
  · rename_i hheed
    have hmaster : t.currentMaster = (s.heard w m).currentMaster :=
      congrArg RelayState.currentMaster ht
    intro _
    rw [hmaster, heard_currentMaster]
    simp only [heedsBeacon, beaconPinned, hdev, Bool.false_or, Bool.and_eq_true,
      decide_eq_true_eq] at hheed
    exact hheed.1.1.2
  · have hmaster : t.currentMaster = s.currentMaster := congrArg RelayState.currentMaster ht
    rw [hmaster]
    exact h

theorem RadioOwned.beacon (h : RadioOwned c extra s) (ht : BeaconHeard s t)
    (hp : t.currentMaster.distance ≠ 0xFF → t.currentMaster.mac = c.pinMasterMac) :
    RadioOwned c extra t := by
  refine ⟨?_, by rw [ht.radioPeers]; exact h.nodup, by rw [ht.downlinkPeerLru]; exact h.tracked, hp⟩
  have howners : radioOwners c t = radioOwners c s := by
    simp only [radioOwners, ht.peers, ht.forwardingPeer, ht.downlinkPeerLru]
  rw [ht.radioPeers, howners]
  exact h.owned

/-- A master that fell silent is no current master any more. -/
theorem RadioOwned.timeout (h : RadioOwned c extra s) :
    wp (checkTimeout w) (fun _ t => RadioOwned c extra t) E s := by
  unfold checkTimeout
  rw [wp_modify]
  dsimp only
  split
  · exact h
  split
  · exact ⟨h.owned, h.nodup, h.tracked, fun hd => absurd rfl hd⟩
  · exact h

/-- What a call keeps of the relay state, and what else it does. -/
theorem wp_and_keeps {α : Type} {x : MeshM α} {P : Node → Prop} (hk : KeepsRelay x)
    (h : wp x (fun _ t => P t) (fun _ _ => True) s) :
    wp x (fun _ t => P t ∧ t.currentMaster = s.currentMaster) (fun _ _ => True) s :=
  wp_mono _ (fun _ _ ht => ⟨ht.1, congrArg RelayState.currentMaster ht.2⟩) (fun _ _ _ => trivial)
    (wp_and _ h (hk s))

/-- **One call keeps every registered address owned**, up to a stranded all-zero address. -/
theorem radioOwned_step {op : RadioOp} (hdev : w.config.devMode = false)
    (hadd : ∀ mac, w.addPeerOk mac = true) (h : RadioOwned w.config extra s)
    (hz : zeroMac ∈ extra ∨
      (op = .findNextHopToMaster → strandsZeroMac w.config s w.nowMs = false)) :
    wp (op.run w) (fun _ t => RadioOwned w.config extra t) (fun _ _ => True) s := by
  cases op with
  | registerDownlinkPeer mac =>
    exact wp_mono _ (fun _ t ht => h.downlink ht.1 ht.2) (fun _ _ h => h)
      (wp_and_keeps (keeps_registerDownlinkPeer mac) (wp_registerDownlinkPeer hadd))
  | registerPeerWithKey mac key allowRekey =>
    show wp (LatticeMesh.registerPeerWithKey w mac key allowRekey >>= fun _ => pure ()) _ _ s
    rw [wp_bind]
    exact wp_mono _ (fun _ t ht => h.added ht.1 ht.2) (fun _ _ h => h)
      (wp_and_keeps (keeps_registerPeerWithKey mac key allowRekey) (wp_registerPeerWithKey hadd))
  | addPeer mac =>
    exact wp_mono _ (fun _ t ht => h.added ht.1 ht.2) (fun _ _ h => h)
      (wp_and_keeps (keeps_addPeer mac) (wp_addPeer hadd))
  | removePeer mac =>
    exact wp_mono _ (fun _ t ht => h.removed ht.1 ht.2) (fun _ _ h => h)
      (wp_and_keeps (keeps_removeAndPersist mac) wp_removeAndPersist)
  | processBeacon m =>
    exact wp_mono _ (fun _ t ht => h.beacon ht.1 ht.2) (fun _ _ _ => trivial)
      (wp_and _ beaconHeard_processBeacon (wp_processBeacon_pinned hdev h.pinned))
  | findNextHopToMaster =>
    show wp (LatticeMesh.findNextHopToMaster w >>= fun _ => pure ()) _ _ s
    rw [wp_bind]
    refine wp_mono _ (fun _ t ht => ?_) (fun _ _ h => h) (wp_findNextHopToMaster_eq hadd)
    rw [ht]
    show RadioOwned w.config extra ((chosenRelay s w.nowMs).elim s s.relayChosen)
    cases hc : chosenRelay s w.nowMs with
    | none => exact h
    | some hopMac => exact h.relayChosen hc (hz.imp_right fun h => h rfl)
  | checkTimeout => exact h.timeout

/-- The radio after the mesh came up: the broadcast address and the peers are registered. -/
theorem wp_initMesh_radioPeers (hadd : ∀ mac, w.addPeerOk mac = true) :
    wp (initMesh w) (fun _ t => (∀ x ∈ t.radioPeers, x = broadcastMac ∨ x ∈ t.peers.macs) ∧
      t.radioPeers.Nodup) (fun _ _ => True) s := by
  unfold initMesh
  refine wp_bind_any fun _ _ => wp_bind_any fun _ _ => wp_bind_any fun _ _ => wp_bind_any fun _ _ =>
    wp_bind_any fun _ _ => wp_bind_any fun _ t => ?_
  rw [wp_bind]
  refine wp_mono _ (fun ok u hu => ?_) (fun _ _ h => h) (wp_setupEspNow hadd)
  cases ok with
  | false => exact wp_bind_any fun _ _ => wp_bind_any fun _ _ => trivial
  | true =>
    obtain ⟨hrest, hmem, hnodup⟩ := hu rfl
    refine ⟨fun x hx => ?_, hnodup⟩
    rw [hrest.peers]
    exact (hmem x).1 hx

/-- After a boot every registered address is owned. -/
theorem radioOwned_boot (hadd : ∀ mac, w.addPeerOk mac = true) (d : Node) :
    wp (initSubsystems w) (fun _ t => RadioOwned w.config extra t) (fun _ _ => True)
      ((d.powerOn w.config).emit (.input .boot)) := by
  have hboot : Boots w ((d.powerOn w.config).emit (.input .boot)) _ (initBeforeRole w) _ :=
    boots_initBeforeRole rfl
  have hup := wp_mono (initBeforeRole w) (fun _ _ h => h.2) (fun _ _ _ => trivial) hboot
  have hradio : wp (initBeforeRole w) (fun _ t =>
      (∀ x ∈ t.radioPeers, x = broadcastMac ∨ x ∈ t.peers.macs) ∧ t.radioPeers.Nodup)
      (fun _ _ => True) ((d.powerOn w.config).emit (.input .boot)) :=
    wp_bind_any fun _ _ => wp_bind_any fun _ _ => wp_bind_any fun _ _ => wp_bind_any fun _ _ =>
      wp_initMesh_radioPeers hadd
  rw [initSubsystems_eq, wp_bind]
  refine wp_mono _ (fun _ t ht => ?_) (fun _ _ _ => trivial) (wp_and _ hup hradio)
  obtain ⟨hup, hmem, hnodup⟩ := ht
  refine ⟨fun x hx => ?_, hnodup, ?_, ?_⟩
  · refine List.mem_append_left _ (mem_radioOwners.2 ?_)
    exact (hmem x hx).imp_right fun h => .inr (.inr (.inl h))
  · show t.downlinkPeerLru.length ≤ _
    rw [hup.downlinkPeerLru]
    exact Nat.zero_le _
  · intro hd
    rw [show (t.setIsMaster _).currentMaster = t.currentMaster from rfl, hup.currentMaster] at hd
    exact absurd rfl hd

/-! ### Runs -/

/-- What reaches the registered addresses: a boot, or a call. -/
inductive RadioCall
  | boot
  | call (op : RadioOp)
  deriving DecidableEq

variable {b : Board} {d : Device}

/-- The device after a boot or a call; a device that does not run takes no call. -/
def radioCallStep (b : Board) (d : Device) (x : Env × RadioCall) : Device :=
  match x.2 with
  | .boot => Device.step b d (x.1, .boot)
  | .call op =>
    if d.status = .running then Device.ofResult (op.run (b.world x.1) d.node) else d

/-- The table of a device that runs is bounded. -/
def TableBounded (b : Board) (d : Device) : Prop :=
  d.status = .running → RadioBounded b.config d.node

instance : Decidable (RadioBounded c s) :=
  decidable_of_iff (s.radioPeers ⊆ radioOwners c s ∧ s.radioPeers.length ≤ radioPeerMax)
    ⟨fun h => ⟨h.1, h.2⟩, fun h => ⟨h.1, h.2⟩⟩

instance : Decidable (TableBounded b d) :=
  inferInstanceAs (Decidable (d.status = .running → RadioBounded b.config d.node))

/-- The call does not strand the all-zero address. -/
def SparesZeroMac (b : Board) (d : Device) (x : Env × RadioCall) : Prop :=
  x.2 = .call .findNextHopToMaster → d.status = .running →
    strandsZeroMac b.config d.node x.1.nowMs = false

instance (x : Env × RadioCall) : Decidable (SparesZeroMac b d x) :=
  inferInstanceAs (Decidable (x.2 = .call .findNextHopToMaster → d.status = .running →
    strandsZeroMac b.config d.node x.1.nowMs = false))

/-- One step keeps every registered address of a running device owned. -/
theorem radioOwned_radioCallStep {x : Env × RadioCall} (hdev : b.config.devMode = false)
    (hadd : ∀ mac, x.1.addPeerOk mac = true)
    (h : d.status = .running → RadioOwned b.config extra d.node)
    (hz : zeroMac ∈ extra ∨ SparesZeroMac b d x) :
    (radioCallStep b d x).status = .running →
      RadioOwned b.config extra (radioCallStep b d x).node := by
  obtain ⟨e, call⟩ := x
  cases call with
  | boot =>
    show (Device.ofResult (initSubsystems (b.world e) (d.bootNode b))).status = _ →
      RadioOwned b.config extra (Device.ofResult (initSubsystems (b.world e) (d.bootNode b))).node
    have hboot : wp (initSubsystems (b.world e)) (fun _ t => RadioOwned b.config extra t)
        (fun _ _ => True) (d.bootNode b) := radioOwned_boot (w := b.world e) hadd d.node
    cases hr : initSubsystems (b.world e) (d.bootNode b) with
    | ok a t =>
      have ht := wp_ok hr hboot
      exact fun _ => ht
    | error h u => exact fun hs => nomatch hs
  | call op =>
    show (if d.status = .running then _ else d : Device).status = _ →
      RadioOwned b.config extra (if d.status = .running then _ else d : Device).node
    split
    · rename_i hrun
      have hstep : wp (op.run (b.world e)) (fun _ t => RadioOwned b.config extra t)
          (fun _ _ => True) d.node := radioOwned_step (w := b.world e) hdev hadd (h hrun)
        (hz.imp_right fun hz hop => hz (congrArg RadioCall.call hop) hrun)
      cases hr : op.run (b.world e) d.node with
      | ok a t =>
        have ht := wp_ok hr hstep
        exact fun _ => ht
      | error h u => exact fun hs => nomatch hs
    · exact h

/-- The table is bounded after a step, exactly if the step does not strand the all-zero address. -/
theorem tableBounded_step_iff {x : Env × RadioCall} (hdev : b.config.devMode = false)
    (hadd : ∀ mac, x.1.addPeerOk mac = true)
    (h : d.status = .running → RadioOwned b.config [] d.node) :
    TableBounded b (radioCallStep b d x) ↔ SparesZeroMac b d x := by
  constructor
  -- a stranded address has no owner, so the table exceeds its owners
  · intro hbounded hx hrun
    obtain ⟨e, call⟩ := x
    obtain rfl : call = .call .findNextHopToMaster := hx
    refine Bool.eq_false_iff.2 fun hstrands => ?_
    obtain ⟨hopMac, hc, hno⟩ := not_owned_of_strands hstrands
    have hfind := wp_findNextHopToMaster_eq (w := b.world e) (s := d.node)
      (E := fun _ _ => False) hadd
    obtain ⟨r, t, hr, rfl⟩ := exists_ok hfind
    have hrun' : RadioOp.findNextHopToMaster.run (b.world e) d.node =
        .ok () ((chosenRelay d.node (b.world e).nowMs).elim d.node d.node.relayChosen) := by
      show (LatticeMesh.findNextHopToMaster (b.world e) >>= fun _ => pure ()) d.node = _
      rw [bind_ok hr]
      rfl
    have hstep : radioCallStep b d (e, .call .findNextHopToMaster) =
        ⟨d.node.relayChosen hopMac, .running⟩ := by
      show (if d.status = .running then _ else d : Device) = _
      rw [if_pos hrun, hrun']
      show Device.ofResult (.ok ()
        ((chosenRelay d.node e.nowMs).elim d.node d.node.relayChosen)) = _
      rw [hc]
      rfl
    rw [hstep] at hbounded
    exact hno (hbounded rfl).owned
  · exact fun hz hs => (radioOwned_radioCallStep hdev hadd h (.inr hz) hs).bounded

/-- **The peer table of the radio stays bounded over boots and calls, exactly if no relay is chosen
in the place of an all-zero address that nobody else owns.** -/
theorem radioBounded_iff {xs : List (Env × RadioCall)} (hdev : b.config.devMode = false)
    (hoff : d.status ≠ .running) (hadd : ∀ x ∈ xs, ∀ mac, x.1.addPeerOk mac = true) :
    Runs.Along (radioCallStep b) (fun d x => TableBounded b (radioCallStep b d x)) d xs ↔
      Runs.Along (radioCallStep b) (SparesZeroMac b) d xs := by
  refine Runs.along_congr (I := fun d => d.status = .running → RadioOwned b.config [] d.node)
    (fun hs => absurd hs hoff) ?_ fun d x hx h => tableBounded_step_iff hdev (hadd x hx) h
  intro d x hx h hbounded
  exact radioOwned_radioCallStep hdev (hadd x hx) h
    (.inr ((tableBounded_step_iff hdev (hadd x hx) h).1 hbounded))

/-- **In any case the table never fills up**: the all-zero address is the only one that is
stranded. -/
theorem radioPeers_lt_limit {xs : List (Env × RadioCall)} (hdev : b.config.devMode = false)
    (hoff : d.status ≠ .running) (hadd : ∀ x ∈ xs, ∀ mac, x.1.addPeerOk mac = true)
    (hrun : (Runs.run (radioCallStep b) d xs).status = .running) :
    (Runs.run (radioCallStep b) d xs).node.radioPeers.length < radioPeerLimit := by
  -- with the all-zero address allowed for, every run keeps the addresses owned
  have howned : ∀ (xs : List (Env × RadioCall)) (d : Device),
      (d.status = .running → RadioOwned b.config [zeroMac] d.node) →
      (∀ x ∈ xs, ∀ mac, x.1.addPeerOk mac = true) →
      (Runs.run (radioCallStep b) d xs).status = .running →
      RadioOwned b.config [zeroMac] (Runs.run (radioCallStep b) d xs).node := by
    intro xs
    induction xs with
    | nil => exact fun d h _ => h
    | cons x xs ih =>
      intro d h hadd
      refine ih _ ?_ fun y hy => hadd y (List.mem_cons_of_mem x hy)
      exact radioOwned_radioCallStep hdev (hadd x List.mem_cons_self) h
        (.inl List.mem_cons_self)
  have hlen := (howned xs d (fun hs => absurd hs hoff) hadd hrun).length_le
  exact lt_of_le_of_lt hlen (by decide)

namespace Sample

/-- A call at the given time. -/
def radioCall (nowMs : UInt64) (op : RadioOp) : Env × RadioCall := (env 1 nowMs, .call op)

/-- A beacon of the master that the given station passed on. -/
def passedOnBeacon (lastHop : Mac) (seqNum : UInt16) : Message :=
  { frame 7 MessageType.masterBeacon 1 seqNum with lastHopMac := lastHop }

/-- The leaf boots, enrolls ten peers, registers the master and four next hops of downlink frames,
and chooses one relay after the other. -/
def churn (relays : List Mac) : List (Env × RadioCall) :=
  (env 1 100, .boot) ::
    (List.range 10).map (fun n => radioCall 200
      (.registerPeerWithKey (mac (31 + n.toUInt8)) (key (31 + n.toUInt8)) false)) ++
    relays.zipIdx.flatMap (fun x =>
      [radioCall (300 + x.2.toUInt64) (.processBeacon (passedOnBeacon x.1 (1 + x.2.toUInt16))),
        radioCall (300 + x.2.toUInt64) .findNextHopToMaster]) ++
    ([7, 21, 22, 23, 24] : List UInt8).map fun n => radioCall 400 (.registerDownlinkPeer (mac n))

/-- The radio of the sample surroundings takes every address. -/
theorem addPeerOk_churn {relays : List Mac} :
    ∀ x ∈ churn relays, ∀ mac, x.1.addPeerOk mac = true := by
  intro x hx mac
  have henv : ∃ nowMs, x.1 = env 1 nowMs := by
    simp only [churn, List.mem_append, List.mem_cons, List.mem_map, List.mem_flatMap] at hx
    rcases hx with ((rfl | ⟨n, -, rfl⟩) | ⟨y, -, rfl | rfl | hx⟩) | ⟨n, -, rfl⟩
    · exact ⟨_, rfl⟩
    · exact ⟨_, rfl⟩
    · exact ⟨_, rfl⟩
    · exact ⟨_, rfl⟩
    · cases hx
    · exact ⟨_, rfl⟩
  obtain ⟨nowMs, h⟩ := henv
  rw [h]
  rfl

end Sample

set_option maxRecDepth 100000 in
/-- Two relays that have an address, one after the other: the second takes the place of the
first. -/
theorem radioBounded_churn : Runs.Along (radioCallStep Sample.board)
    (fun d x => TableBounded Sample.board (radioCallStep Sample.board d x)) (.blank {})
    (Sample.churn [Sample.mac 8, Sample.mac 9]) :=
  (radioBounded_iff rfl (by decide) Sample.addPeerOk_churn).2 (by decide +kernel)

set_option maxRecDepth 100000 in
/-- **The all-zero address stays in the table.**  A beacon names it as its last hop, the leaf
chooses it as its relay, and the next relay does not take its place. -/
theorem not_radioBounded_zeroRelay :
    let xs := Sample.churn [zeroMac, Sample.mac 9]
    let d := Runs.run (radioCallStep Sample.board) (.blank {}) xs
    Sample.board.config.devMode = false ∧ (∀ x ∈ xs, ∀ mac, x.1.addPeerOk mac = true) ∧
      ¬Runs.Along (radioCallStep Sample.board)
        (fun d x => TableBounded Sample.board (radioCallStep Sample.board d x)) (.blank {}) xs ∧
      d.status = .running ∧ zeroMac ∈ d.node.radioPeers ∧
      zeroMac ∉ radioOwners Sample.config d.node ∧ d.node.radioPeers.length = 18 :=
  ⟨rfl, Sample.addPeerOk_churn, by decide +kernel, by decide +kernel, by decide +kernel,
    by decide +kernel, by decide +kernel⟩

end LatticeMesh
