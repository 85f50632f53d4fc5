import LatticeMesh.RadioPeers

/-!
# Addresses that stay with the radio

Two kinds of address must not leave the radio: the enrolled peers, which a frame can reach only as
long as they are registered, and the broadcast address, which all broadcasts depend on.  The
downlink router decides what it may evict when it begins to track an address, and evicts later; the
uplink router looks again when it evicts.

## Main definitions

* `PeersReachable` — every enrolled peer is registered, and neither router would take one out.
* `BroadcastSafe` — the broadcast address is registered, and neither router may take it out.

## Main results

* `peersReachable_run` — **enrolled peers stay registered, as long as no address is enrolled while
  the downlink router tracks it.**
* `not_peersReachable_churn` — an address enrolled while it is tracked leaves the radio.
* `broadcastSafe_run` — **the broadcast address stays registered, as long as it is not taken as a
  next hop.**
* `not_broadcastSafe_churn` — a frame that names it as its next hop drives it out.
-/

namespace LatticeMesh

open EffectSpec

variable {w : World} {s t : Node} {E : Halt → Node → Prop}

/-! ### After the setup of the radio -/

/-- Registering every peer of a list. -/
theorem wp_registerAll {l : List PeerInfo} (hadd : ∀ mac, w.addPeerOk mac = true) :
    wp (l.forM fun p => registerPeerWithEspNow w p.mac) (fun _ t => RadioRest s t ∧
      (∀ x, x ∈ t.radioPeers ↔ x ∈ s.radioPeers ∨ x ∈ l.map PeerInfo.mac) ∧
      (s.radioPeers.Nodup → t.radioPeers.Nodup)) E s := by
  induction l generalizing s with
  | nil => exact ⟨.refl s, by simp, id⟩
  | cons p l ih =>
    show wp (registerPeerWithEspNow w p.mac >>= fun _ => l.forM _) _ _ _
    rw [wp_bind]
    refine wp_registerPeerWithEspNow (hadd p.mac) ?_
    refine wp_mono _ (fun _ t ht => ?_) (fun _ _ h => h) ih
    refine ⟨(radioRest_radioAdd s p.mac).trans ht.1, fun x => ?_,
      fun h => ht.2.2 (nodup_radioAdd h)⟩
    rw [ht.2.1, mem_radioAdd, List.map_cons, List.mem_cons, or_assoc]

/-- The radio after its setup: the broadcast address and every peer are registered. -/
theorem wp_setupEspNow (hadd : ∀ mac, w.addPeerOk mac = true) :
    wp (setupEspNow w) (fun ok t => ok = true → RadioRest s t ∧
      (∀ x, x ∈ t.radioPeers ↔ x = broadcastMac ∨ x ∈ s.peers.macs) ∧ t.radioPeers.Nodup)
      (fun _ _ => True) s := by
  unfold setupEspNow
  split
  · rw [wp_bind]
    refine wp_mono _ (fun _ _ _ => ?_) (fun _ _ h => h) (sameRadio_fail (s := s))
    exact fun h => absurd h (by decide)
  · have hcheck : wp (checkEsp w w.setPmkOk .hardwareFailure "Failed to set ESP-NOW PMK")
        (fun _ t => SameRadio s t) (fun _ _ => True) s := by
      unfold checkEsp
      split
      · exact SameRadio.refl s
      · exact sameRadio_fail
    rw [wp_bind]
    refine wp_mono _ (fun _ u hu => ?_) (fun _ _ h => h) hcheck
    rw [wp_bind, wp_modify, wp_bind, wp_get, wp_bind]
    refine wp_mono _ (fun _ t ht _ => ?_) (fun _ _ _ => trivial)
      (wp_registerAll (E := fun _ _ => True) hadd)
    obtain ⟨hr, hm, hd⟩ := ht
    refine ⟨hu.rest.trans ⟨hr.1, hr.2, hr.3, hr.4⟩, fun x => ?_, hd ?_⟩
    · rw [hm, if_pos (hadd broadcastMac), List.mem_singleton]
      show _ ∨ x ∈ u.peers.macs ↔ _
      rw [hu.rest.peers]
    · rw [if_pos (hadd broadcastMac)]
      exact List.nodup_singleton _

/-! ### Enrolled peers -/

/-- Every enrolled peer is registered with the radio, and neither router would take one out. -/
structure PeersReachable (s : Node) : Prop where
  registered : ∀ mac ∈ s.peers.macs, mac ∈ s.radioPeers
  downlink : ∀ mac old, downlinkEvicted s mac = some old → old ∉ s.peers.macs
  uplink : ∀ hopMac, evictsForwardingPeer s hopMac = true → s.forwardingPeer ∉ s.peers.macs

/-- Every enrolled peer is registered with the radio and not tracked by the downlink router. -/
structure PeersUntracked (s : Node) : Prop where
  registered : ∀ mac ∈ s.peers.macs, mac ∈ s.radioPeers
  untracked : ∀ mac ∈ s.peers.macs, mac ∉ s.downlinkPeerLru

/-- The radio accepts every address, no address enters the registry while the downlink router tracks
it, and no address that is removed from the registry was in it twice. -/
def EnrollsUntracked (s : Node) (x : World × RadioOp) : Prop :=
  (∀ mac, x.1.addPeerOk mac = true) ∧
    match x.2 with
    | .registerPeerWithKey mac _ _ | .addPeer mac =>
      s.peers.find mac = none → s.peers.count < maxPeers → mac ∉ s.downlinkPeerLru
    | .removePeer mac => s.peers.macs.count mac ≤ 1
    | _ => True

/-- Only tracked addresses are evicted. -/
theorem mem_of_downlinkEvicted {mac old : Mac} (h : downlinkEvicted s mac = some old) :
    old ∈ s.downlinkPeerLru := by
  unfold downlinkEvicted at h
  split at h
  · rename_i hc
    simp only [Bool.and_eq_true, decide_eq_true_eq] at hc
    obtain rfl := Option.some.inj h
    have hne : s.downlinkPeerLru ≠ [] := by
      intro hnil
      rw [hnil] at hc
      exact absurd hc.2 (by decide)
    rw [List.getLastD_eq_getLast?, List.getLast?_eq_some_getLast hne]
    exact List.getLast_mem hne
  · cases h

theorem PeersUntracked.reachable (h : PeersUntracked s) : PeersReachable s := by
  refine ⟨h.registered, fun mac old hev hin => ?_, fun hopMac hev => ?_⟩
  · exact h.untracked old hin (mem_of_downlinkEvicted hev)
  · simp only [evictsForwardingPeer, Bool.and_eq_true] at hev
    exact PeerRegistry.find_eq_none_iff.1 (by simpa using hev.1.2)

theorem PeersUntracked.added {mac : Mac} (h : PeersUntracked s) (ht : PeerAdded s mac t)
    (hc : s.peers.find mac = none → s.peers.count < maxPeers → mac ∉ s.downlinkPeerLru) :
    PeersUntracked t := by
  rcases ht.macs with hm | ⟨hm, hnew, hin⟩
  · refine ⟨fun x hx => ?_, fun x hx => ?_⟩
    · exact ht.radioPeers x (h.registered x (hm ▸ hx))
    · rw [ht.downlinkPeerLru]
      exact h.untracked x (hm ▸ hx)
  · have hlt : s.peers.count < maxPeers := by
      have hlen := congrArg List.length hm
      simp only [PeerRegistry.macs, List.length_map, List.length_append,
        List.length_singleton] at hlen
      have := t.peers.length_le
      unfold PeerRegistry.count
      omega
    refine ⟨fun x hx => ?_, fun x hx => ?_⟩ <;> rw [hm] at hx <;>
      rcases List.mem_append.1 hx with hx | hx
    · exact ht.radioPeers x (h.registered x hx)
    · rw [List.mem_singleton.1 hx]
      exact hin
    · rw [ht.downlinkPeerLru]
      exact h.untracked x hx
    · rw [ht.downlinkPeerLru, List.mem_singleton.1 hx]
      exact hc (PeerRegistry.find_eq_none_iff.2 hnew) hlt

theorem PeersUntracked.removed {mac : Mac} (h : PeersUntracked s) (ht : PeerRemoved s mac t)
    (hc : s.peers.macs.count mac ≤ 1) : PeersUntracked t := by
  have hmacs : t.peers.macs = (PeerRegistry.removeMac s.peers.peers mac).map PeerInfo.mac := by
    rw [ht.macs]
    rfl
  have hsub : ∀ x ∈ t.peers.macs, x ∈ s.peers.macs ∧ x ≠ mac := by
    rcases PeerRegistry.removeMac_perm s.peers.peers mac with ⟨p, hp, hperm⟩ | ⟨hsame, hno⟩
    · have hperm' : s.peers.macs.Perm (mac :: t.peers.macs) := by
        rw [hmacs]
        have hmap := hperm.map PeerInfo.mac
        rwa [List.map_cons, hp] at hmap
      have hzero : t.peers.macs.count mac = 0 := by
        rw [hperm'.count_eq, List.count_cons_self] at hc
        omega
      intro x hx
      refine ⟨hperm'.mem_iff.2 (List.mem_cons_of_mem _ hx), ?_⟩
      rintro rfl
      exact List.count_eq_zero.1 hzero hx
    · rw [hmacs, hsame]
      intro x hx
      obtain ⟨p, hp, rfl⟩ := List.mem_map.1 hx
      exact ⟨hx, hno p hp⟩
  refine ⟨fun x hx => ?_, fun x hx => ?_⟩
  · exact ht.radioPeers x (h.registered x (hsub x hx).1) (hsub x hx).2
  · rw [ht.downlinkPeerLru]
    exact h.untracked x (hsub x hx).1

/-- One admissible call keeps the enrolled peers registered and untracked. -/
theorem peersUntracked_step {x : World × RadioOp} (h : PeersUntracked s)
    (hc : EnrollsUntracked s x) :
    wp (x.2.run x.1) (fun _ t => PeersUntracked t) (fun _ _ => True) s := by
  obtain ⟨w, op⟩ := x
  obtain ⟨hadd, hop⟩ := hc
  cases op with
  | registerDownlinkPeer mac =>
    refine wp_mono _ (fun _ t ht => ?_) (fun _ _ h => h) (wp_registerDownlinkPeer hadd)
    refine ⟨fun x hx => ?_, fun x hx hl => ?_⟩ <;> rw [ht.peers] at hx
    -- only an address that the router tracks is evicted, and no enrolled one is
    · refine (ht.mem_radioPeers x).2 (.inl ⟨h.registered x hx, fun hev => ?_⟩)
      exact h.untracked x hx (mem_of_downlinkEvicted hev)
    · rcases ht.mem_downlinkPeerLru x hl with hl | ⟨rfl, htr⟩
      · exact h.untracked x hx hl
      · -- the router does not begin to track an enrolled peer
        simp only [downlinkTracks, Bool.not_eq_true', Bool.or_eq_false_iff] at htr
        exact PeerRegistry.find_eq_none_iff.1 (by simpa using htr.1) hx
  | registerPeerWithKey mac key allowRekey =>
    show wp (LatticeMesh.registerPeerWithKey w mac key allowRekey >>= fun _ => pure ()) _ _ s
    rw [wp_bind]
    exact wp_mono _ (fun _ t ht => h.added ht hop) (fun _ _ h => h) (wp_registerPeerWithKey hadd)
  | addPeer mac =>
    exact wp_mono _ (fun _ t ht => h.added ht hop) (fun _ _ h => h) (wp_addPeer hadd)
  | removePeer mac =>
    exact wp_mono _ (fun _ t ht => h.removed ht hop) (fun _ _ h => h) wp_removeAndPersist
  | processBeacon m =>
    refine wp_mono _ (fun _ t ht => ?_) (fun _ _ h => h) beaconHeard_processBeacon
    exact ⟨by rw [ht.peers, ht.radioPeers]; exact h.registered,
      by rw [ht.peers, ht.downlinkPeerLru]; exact h.untracked⟩
  | findNextHopToMaster =>
    show wp (LatticeMesh.findNextHopToMaster w >>= fun _ => pure ()) _ _ s
    rw [wp_bind]
    refine wp_mono _ (fun _ t ht => ?_) (fun _ _ h => h) (wp_findNextHopToMaster hadd)
    refine ⟨fun x hx => ?_, by rw [ht.peers, ht.downlinkPeerLru]; exact h.untracked⟩
    rw [ht.peers] at hx
    -- the relay chosen before is evicted only if it is not enrolled
    refine (ht.radioPeers x (h.registered x hx)).resolve_right fun hev => ?_
    exact PeerRegistry.find_eq_none_iff.1 hev.2 hx
  | checkTimeout =>
    refine wp_mono _ (fun _ t ht => ?_) (fun _ _ h => h) sameRadio_checkTimeout
    exact ⟨by rw [ht.rest.peers, ht.radioPeers]; exact h.registered,
      by rw [ht.rest.peers, ht.rest.downlinkPeerLru]; exact h.untracked⟩

/-- **Enrolled peers stay registered with the radio**, from its setup on, as long as no address is
enrolled while the downlink router tracks it. -/
theorem peersReachable_run {s₀ : Node} {xs : List (World × RadioOp)}
    (hadd : ∀ mac, w.addPeerOk mac = true) (hlru : s₀.downlinkPeerLru = [])
    (hs : setupEspNow w s₀ = .ok true s)
    (hc : Runs.Along radioStep (fun o x => ∀ s, o = some s → EnrollsUntracked s x) (some s) xs)
    (ht : Runs.run radioStep (some s) xs = some t) : PeersReachable t := by
  have h := wp_ok hs (wp_setupEspNow hadd) rfl
  have h0 : PeersUntracked s := by
    refine ⟨fun x hx => ?_, by rw [h.1.downlinkPeerLru, hlru]; simp⟩
    rw [h.1.peers] at hx
    exact (h.2.1 x).2 (.inr hx)
  exact (radio_invariant (fun _ _ h hc => peersUntracked_step h hc) h0 hc ht).reachable

namespace Sample

/-- The surroundings in which the radio of the leaf takes every address. -/
def radioWorld : World := board.world (env 1 100)

theorem onePeer_le : [(⟨mac 7, key 7, 0⟩ : PeerInfo)].length ≤ maxPeers := by decide

/-- The leaf before its radio is set up; the master is enrolled. -/
def beforeRadio : Node where
  deviceMac := mac 1
  peers := { peers := [⟨mac 7, key 7, 0⟩], deviceMac := mac 1, length_le := onePeer_le }

/-- The leaf after the setup of its radio. -/
def afterRadio : Node := { beforeRadio with radioPeers := [broadcastMac, mac 7] }

/-- Frames along source routes with the given next hops. -/
def nextHops (l : List UInt8) : List (World × RadioOp) :=
  l.map fun n => (radioWorld, .registerDownlinkPeer (mac n))

/-- The enrollment of the station `n`. -/
def enroll (n : UInt8) : World × RadioOp := (radioWorld, .registerPeerWithKey (mac n) (key n) false)

end Sample

/-- The station 8 is enrolled before a frame names it as its next hop, and stays registered. -/
theorem peersReachable_enrolled_first : ∃ t, Runs.run radioStep (some Sample.afterRadio)
    (Sample.enroll 8 :: Sample.nextHops [8, 21, 22, 23, 24]) = some t ∧ PeersReachable t := by
  have hs : setupEspNow Sample.radioWorld Sample.beforeRadio = .ok true Sample.afterRadio := rfl
  have ht : Runs.run radioStep (some Sample.afterRadio)
    (Sample.enroll 8 :: Sample.nextHops [8, 21, 22, 23, 24]) = some _ := rfl
  refine ⟨_, ht, peersReachable_run (fun _ => rfl) rfl hs ?_ ht⟩
  refine ⟨?_, ?_, ?_, ?_, ?_, ?_, trivial⟩ <;> rintro _ ⟨⟩ <;> refine ⟨fun _ => rfl, ?_⟩
  · exact fun _ _ => by decide
  all_goals trivial

/-- **An enrolled peer leaves the radio.**  A frame names the station 8 as its next hop, the station
enrolls, and four frames with other next hops follow. -/
theorem not_peersReachable_churn :
    setupEspNow Sample.radioWorld Sample.beforeRadio = .ok true Sample.afterRadio ∧
      ∃ t, Runs.run radioStep (some Sample.afterRadio) (Sample.nextHops [8] ++ Sample.enroll 8 ::
        Sample.nextHops [21, 22, 23, 24]) = some t ∧
      Sample.mac 8 ∈ t.peers.macs ∧ Sample.mac 8 ∉ t.radioPeers :=
  ⟨rfl, _, rfl, by decide, by decide⟩

/-! ### The broadcast address -/

/-- The broadcast address is registered with the radio, and no router may take it out. -/
structure BroadcastSafe (s : Node) : Prop where
  registered : broadcastMac ∈ s.radioPeers
  untracked : broadcastMac ∉ s.downlinkPeerLru
  forwardingPeer : s.forwardingPeer ≠ broadcastMac

/-- The radio accepts every address, and the broadcast address is neither tracked as the next hop of
a downlink frame, nor chosen as the next hop toward the master, nor removed by hand. -/
def SparesBroadcast (s : Node) (x : World × RadioOp) : Prop :=
  (∀ mac, x.1.addPeerOk mac = true) ∧
    match x.2 with
    | .registerDownlinkPeer mac => mac = broadcastMac → downlinkTracks s mac = false
    | .findNextHopToMaster => chosenRelay s x.1.nowMs ≠ some broadcastMac
    | .removePeer mac => mac ≠ broadcastMac
    | _ => True

/-- One admissible call keeps the broadcast address registered. -/
theorem broadcastSafe_step {x : World × RadioOp} (h : BroadcastSafe s) (hc : SparesBroadcast s x) :
    wp (x.2.run x.1) (fun _ t => BroadcastSafe t) (fun _ _ => True) s := by
  obtain ⟨w, op⟩ := x
  obtain ⟨hadd, hop⟩ := hc
  have hadded : ∀ mac t, PeerAdded s mac t → BroadcastSafe t := by
    intro mac t ht
    refine ⟨ht.radioPeers _ h.registered, ?_, ?_⟩
    · rw [ht.downlinkPeerLru]
      exact h.untracked
    · rw [ht.forwardingPeer]
      exact h.forwardingPeer
  cases op with
  | registerDownlinkPeer mac =>
    refine wp_mono _ (fun _ t ht => ?_) (fun _ _ h => h) (wp_registerDownlinkPeer hadd)
    refine ⟨?_, fun hl => ?_, by rw [ht.forwardingPeer]; exact h.forwardingPeer⟩
    -- what is evicted was tracked, and the broadcast address is not
    · refine (ht.mem_radioPeers _).2 (.inl ⟨h.registered, fun hev => ?_⟩)
      exact h.untracked (mem_of_downlinkEvicted hev)
    · rcases ht.mem_downlinkPeerLru _ hl with hl | ⟨heq, htr⟩
      · exact h.untracked hl
      · rw [hop heq.symm] at htr
        cases htr
  | registerPeerWithKey mac key allowRekey =>
    show wp (LatticeMesh.registerPeerWithKey w mac key allowRekey >>= fun _ => pure ()) _ _ s
    rw [wp_bind]
    exact wp_mono _ (fun _ t ht => hadded mac t ht) (fun _ _ h => h) (wp_registerPeerWithKey hadd)
  | addPeer mac =>
    exact wp_mono _ (fun _ t ht => hadded mac t ht) (fun _ _ h => h) (wp_addPeer hadd)
  | removePeer mac =>
    refine wp_mono _ (fun _ t ht => ?_) (fun _ _ h => h) wp_removeAndPersist
    exact ⟨ht.radioPeers _ h.registered (Ne.symm hop),
      by rw [ht.downlinkPeerLru]; exact h.untracked,
      by rw [ht.forwardingPeer]; exact h.forwardingPeer⟩
  | processBeacon m =>
    refine wp_mono _ (fun _ t ht => ?_) (fun _ _ h => h) beaconHeard_processBeacon
    exact ⟨by rw [ht.radioPeers]; exact h.registered, by rw [ht.downlinkPeerLru]; exact h.untracked,
      by rw [ht.forwardingPeer]; exact h.forwardingPeer⟩
  | findNextHopToMaster =>
    show wp (LatticeMesh.findNextHopToMaster w >>= fun _ => pure ()) _ _ s
    rw [wp_bind]
    refine wp_mono _ (fun _ t ht => ?_) (fun _ _ h => h) (wp_findNextHopToMaster_eq hadd)
    rw [ht]
    cases hc : chosenRelay s w.nowMs with
    | none => exact h
    | some hopMac =>
      have hhop := hopChosen_relayChosen s hopMac
      refine ⟨?_, hhop.downlinkPeerLru.symm ▸ h.untracked, fun hf => hop (hc.trans (congrArg _ hf))⟩
      -- the relay that is evicted was chosen before, and the broadcast address never was
      exact (hhop.radioPeers _ h.registered).resolve_right fun hev => h.forwardingPeer hev.1.symm
  | checkTimeout =>
    refine wp_mono _ (fun _ t ht => ?_) (fun _ _ h => h) sameRadio_checkTimeout
    exact ⟨by rw [ht.radioPeers]; exact h.registered,
      by rw [ht.rest.downlinkPeerLru]; exact h.untracked,
      by rw [ht.rest.forwardingPeer]; exact h.forwardingPeer⟩

/-- **The broadcast address stays registered with the radio**, from its setup on, as long as it
is not taken as a next hop. -/
theorem broadcastSafe_run {s₀ : Node} {xs : List (World × RadioOp)}
    (hadd : ∀ mac, w.addPeerOk mac = true) (hlru : s₀.downlinkPeerLru = [])
    (hf : s₀.forwardingPeer = zeroMac) (hs : setupEspNow w s₀ = .ok true s)
    (hc : Runs.Along radioStep (fun o x => ∀ s, o = some s → SparesBroadcast s x) (some s) xs)
    (ht : Runs.run radioStep (some s) xs = some t) : broadcastMac ∈ t.radioPeers := by
  have h := wp_ok hs (wp_setupEspNow hadd) rfl
  have h0 : BroadcastSafe s := by
    refine ⟨(h.2.1 _).2 (.inl rfl), ?_, ?_⟩
    · rw [h.1.downlinkPeerLru, hlru]
      exact List.not_mem_nil
    · rw [h.1.forwardingPeer, hf]
      decide
  exact (radio_invariant (fun _ _ h hc => broadcastSafe_step h hc) h0 hc ht).registered

/-- The broadcast address survives the eviction of other next hops. -/
theorem broadcastSafe_strangers : ∃ t, Runs.run radioStep (some Sample.afterRadio)
    (Sample.nextHops [21, 22, 23, 24, 25]) = some t ∧ broadcastMac ∈ t.radioPeers := by
  have hs : setupEspNow Sample.radioWorld Sample.beforeRadio = .ok true Sample.afterRadio := rfl
  have ht : Runs.run radioStep (some Sample.afterRadio)
    (Sample.nextHops [21, 22, 23, 24, 25]) = some _ := rfl
  refine ⟨_, ht, broadcastSafe_run (fun _ => rfl) rfl rfl hs ?_ ht⟩
  refine ⟨?_, ?_, ?_, ?_, ?_, trivial⟩ <;> rintro _ ⟨⟩ <;>
    exact ⟨fun _ => rfl, fun h => absurd h (by decide)⟩

namespace Sample

/-- A frame for the station 9 along the source route from this leaf to the given address. -/
def routedVia (nextHop : Mac) (seqNum : UInt16) : Message :=
  { frame 7 MessageType.adapterData 1 seqNum with
    targetMac := mac 9
    routeLen := 2
    routePath := mac 1 ++ nextHop ++ Bytes.zero 36 }

/-- A leaf forwards a frame to each of the given addresses. -/
def forwards (l : List (Mac × UInt16)) : List (Env × Input) :=
  l.map fun x => (env 1 300, .rx (mac 5) (routedVia x.1 x.2))

end Sample

/-- **The broadcast address leaves the radio.**  A frame names it as its next hop, four frames with
other next hops follow, and from then on no broadcast can be sent. -/
theorem not_broadcastSafe_churn :
    let d := Device.run Sample.board (.blank {}) ((Sample.env 1 100, .boot) :: Sample.forwards
      [(broadcastMac, 10), (Sample.mac 21, 11), (Sample.mac 22, 12), (Sample.mac 23, 13)])
    let d' := Device.run Sample.board d (Sample.forwards [(Sample.mac 24, 14)])
    broadcastMac ∈ d.node.radioPeers ∧ d'.status = .running ∧
    broadcastMac ∉ d'.node.radioPeers := by
  decide +kernel

end LatticeMesh
