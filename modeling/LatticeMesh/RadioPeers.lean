import LatticeMesh.Handlers
import LatticeMesh.Device
import LatticeMesh.Neighbors
import LatticeMesh.Lib.Calls

/-!
# The peers of the radio

A frame can only be sent to an address that is registered with the radio.  The registry registers
its peers, the two routers register the next hops they choose and take the older ones of them out
again.  This file follows the registered addresses through any sequence of the calls that change
them.

## Main definitions

* `RadioOp`, `RadioOp.run` — the calls that reach the registered addresses.
* `downlinkEvicted` — the address that leaves the radio for the next hop of a downlink frame.
* `DownlinkRegistered`, `PeerAdded`, `PeerRemoved`, `HopChosen`, `BeaconHeard` — what each call
  does.

## Main results

* `radio_invariant` — what every admissible call keeps holds after every run of admissible calls.
* `wp_registerDownlinkPeer`, `wp_registerPeerWithKey` and their like — each call does what is said.
-/

namespace LatticeMesh

open EffectSpec

variable {w : World} {s t : Node} {E : Halt → Node → Prop}

/-! ### Registering -/

/-- The state in which the address is registered with the radio. -/
def Node.radioAdd (s : Node) (mac : Mac) : Node :=
  if s.radioPeers.contains mac then s else { s with radioPeers := s.radioPeers ++ [mac] }

/-- The state in which the address is not registered with the radio. -/
def Node.radioDel (s : Node) (mac : Mac) : Node :=
  { s with radioPeers := s.radioPeers.filter (· ≠ mac) }

theorem mem_radioAdd {mac x : Mac} :
    x ∈ (s.radioAdd mac).radioPeers ↔ x ∈ s.radioPeers ∨ x = mac := by
  unfold Node.radioAdd
  split
  · rename_i h
    constructor
    · exact .inl
    · rintro (hx | rfl)
      · exact hx
      · simpa using h
  · simp

theorem mem_radioDel {mac x : Mac} :
    x ∈ (s.radioDel mac).radioPeers ↔ x ∈ s.radioPeers ∧ x ≠ mac := by
  simp [Node.radioDel]

theorem nodup_radioAdd {mac : Mac} (h : s.radioPeers.Nodup) :
    (s.radioAdd mac).radioPeers.Nodup := by
  unfold Node.radioAdd
  split
  · exact h
  · rename_i hno
    have hno' : mac ∉ s.radioPeers := by simpa using hno
    refine List.nodup_append.2 ⟨h, List.nodup_singleton mac, fun x hx y hy => ?_⟩
    rw [List.mem_singleton.1 hy]
    exact fun hxm => hno' (hxm ▸ hx)

theorem nodup_radioDel {mac : Mac} (h : s.radioPeers.Nodup) : (s.radioDel mac).radioPeers.Nodup :=
  h.filter _

/-- The registry and the routers, without the radio. -/
structure RadioRest (s t : Node) : Prop where
  peers : t.peers = s.peers
  forwardingPeer : t.forwardingPeer = s.forwardingPeer
  neighbors : t.neighbors = s.neighbors
  downlinkPeerLru : t.downlinkPeerLru = s.downlinkPeerLru

theorem RadioRest.refl (s : Node) : RadioRest s s := ⟨rfl, rfl, rfl, rfl⟩

theorem RadioRest.trans {u : Node} (h : RadioRest s t) (h' : RadioRest t u) : RadioRest s u :=
  ⟨h'.1.trans h.1, h'.2.trans h.2, h'.3.trans h.3, h'.4.trans h.4⟩

theorem radioRest_radioAdd (s : Node) (mac : Mac) : RadioRest s (s.radioAdd mac) := by
  unfold Node.radioAdd
  split <;> exact ⟨rfl, rfl, rfl, rfl⟩

theorem radioRest_radioDel (s : Node) (mac : Mac) : RadioRest s (s.radioDel mac) :=
  ⟨rfl, rfl, rfl, rfl⟩

/-- Registering an address, where the radio accepts all. -/
theorem wp_registerPeerWithEspNow {mac : Mac} {Q : Unit → Node → Prop}
    (hadd : w.addPeerOk mac = true) (hq : Q () (s.radioAdd mac)) :
    wp (registerPeerWithEspNow w mac) Q E s := by
  unfold registerPeerWithEspNow
  rw [wp_bind, wp_get]
  unfold Node.radioAdd at hq
  by_cases hc : s.radioPeers.contains mac = true
  · rwa [if_pos hc] at hq ⊢
  · rw [if_neg hc] at hq ⊢
    rwa [if_pos hadd]

/-- The registry, the radio and the routers are as before. -/
structure SameRadio (s t : Node) : Prop where
  rest : RadioRest s t
  radioPeers : t.radioPeers = s.radioPeers

theorem SameRadio.refl (s : Node) : SameRadio s s := ⟨.refl s, rfl⟩

theorem SameRadio.trans {u : Node} (h : SameRadio s t) (h' : SameRadio t u) : SameRadio s u :=
  ⟨h.rest.trans h'.rest, h'.radioPeers.trans h.radioPeers⟩

/-- A report leaves the radio alone. -/
theorem sameRadio_fail {ty : ErrorTypeDigit} {m : ModuleDigit} {sub : ℕ} {text : String} :
    wp (fail w ty m sub text) (fun _ t => SameRadio s t) (fun _ _ => True) s :=
  wp_signalError (fun _ _ => trivial) (fun _ => trivial) fun _ => ⟨⟨rfl, rfl, rfl, rfl⟩, rfl⟩

theorem sameRadio_saved (s : Node) (op : NvsOp) : SameRadio s (s.saved op) := by
  unfold Node.saved
  split <;> exact ⟨⟨rfl, rfl, rfl, rfl⟩, rfl⟩

/-- Saving the registry leaves the radio alone. -/
theorem sameRadio_saveToEEPROM :
    wp (saveToEEPROM w) (fun _ t => SameRadio s t) (fun _ _ => True) s := by
  unfold saveToEEPROM
  rw [wp_bind, wp_get]
  refine wp_mono _ (fun _ t ht => ?_) (fun _ _ _ => trivial) (wp_writePeerSlots s.peers.records)
  rw [ht.rest]
  exact ⟨⟨rfl, rfl, rfl, rfl⟩, rfl⟩

/-! ### Calls -/

/-- The calls that reach the addresses registered with the radio. -/
inductive RadioOp
  /-- The next hop of a downlink frame. -/
  | registerDownlinkPeer (mac : Mac)
  /-- An enrollment request, an acknowledgement or an approval. -/
  | registerPeerWithKey (mac : Mac) (publicKey : Key) (allowRekey : Bool)
  | addPeer (mac : Mac)
  | removePeer (mac : Mac)
  /-- A received beacon. -/
  | processBeacon (m : Message)
  | findNextHopToMaster
  | checkTimeout
  deriving DecidableEq

/-- What a call does. -/
def RadioOp.run (w : World) : RadioOp → MeshM Unit
  | .registerDownlinkPeer mac => LatticeMesh.registerDownlinkPeer w mac
  | .registerPeerWithKey mac key allowRekey => do
    let _ ← LatticeMesh.registerPeerWithKey w mac key allowRekey
  | .addPeer mac => LatticeMesh.addPeer w mac
  | .removePeer mac => removeAndPersist w mac
  | .processBeacon m => LatticeMesh.processBeacon w m
  | .findNextHopToMaster => do
    let _ ← LatticeMesh.findNextHopToMaster w
  | .checkTimeout => LatticeMesh.checkTimeout w

/-- The state in which a call returns. -/
def returned : EStateM.Result Halt Node Unit → Option Node
  | .ok _ t => some t
  | .error _ _ => none

/-- The state after a call, unless the call does not return or one before it did not. -/
def radioStep (o : Option Node) (x : World × RadioOp) : Option Node :=
  o.bind fun s => returned (x.2.run x.1 s)

theorem radioStep_eq : radioStep = Calls.step fun x : World × RadioOp => x.2.run x.1 := by
  funext o x
  refine congrArg (Option.bind o) (funext fun s => ?_)
  show returned (x.2.run x.1 s) = Calls.returned (x.2.run x.1 s)
  cases x.2.run x.1 s <;> rfl

/-- A property that every admissible call keeps holds after every run of admissible calls. -/
theorem radio_invariant {I : Node → Prop} {C : Node → World × RadioOp → Prop}
    (hstep : ∀ s x, I s → C s x → wp (x.2.run x.1) (fun _ t => I t) (fun _ _ => True) s)
    {xs : List (World × RadioOp)} (h0 : I s)
    (hc : Runs.Along radioStep (fun o x => ∀ s, o = some s → C s x) (some s) xs)
    (ht : Runs.run radioStep (some s) xs = some t) : I t := by
  rw [radioStep_eq] at hc ht
  exact Calls.invariant hstep h0 hc ht

/-! ### The downlink router -/

/-- Whether the downlink router tracks an address: it is neither enrolled nor the current master. -/
def downlinkTracks (s : Node) (mac : Mac) : Bool :=
  !((s.peers.find mac).isSome || (s.currentMaster.distance ≠ 0xFF && mac = s.currentMaster.mac))

/-- The address that leaves the radio for the next hop `mac`: the oldest one that is tracked, if
`mac` is to be tracked, is not tracked yet, and there is no room. -/
def downlinkEvicted (s : Node) (mac : Mac) : Option Mac :=
  if downlinkTracks s mac && !s.downlinkPeerLru.contains mac &&
      s.downlinkPeerLru.length ≥ downlinkPeerMax then
    some (s.downlinkPeerLru.getLastD mac)
  else none

/-- The addresses that are tracked after the next hop `mac`. -/
def downlinkLru (s : Node) (mac : Mac) : List Mac :=
  if downlinkTracks s mac then
    if s.downlinkPeerLru.contains mac then mac :: s.downlinkPeerLru.erase mac
    else if s.downlinkPeerLru.length ≥ downlinkPeerMax then mac :: s.downlinkPeerLru.dropLast
    else mac :: s.downlinkPeerLru
  else s.downlinkPeerLru.erase mac

/-- The state after the next hop of a downlink frame was registered. -/
structure DownlinkRegistered (s : Node) (mac : Mac) (t : Node) : Prop where
  peers : t.peers = s.peers
  forwardingPeer : t.forwardingPeer = s.forwardingPeer
  neighbors : t.neighbors = s.neighbors
  mem_radioPeers : ∀ x, x ∈ t.radioPeers ↔
    x ∈ s.radioPeers ∧ downlinkEvicted s mac ≠ some x ∨ x = mac
  nodup : s.radioPeers.Nodup → t.radioPeers.Nodup
  downlinkPeerLru : t.downlinkPeerLru = downlinkLru s mac

/-- Only the next hop becomes tracked. -/
theorem mem_downlinkLru {mac x : Mac} (h : x ∈ downlinkLru s mac) :
    x ∈ s.downlinkPeerLru ∨ x = mac ∧ downlinkTracks s mac = true := by
  unfold downlinkLru at h
  split at h
  · rename_i ht
    have hfront : ∀ l : List Mac, (∀ x ∈ l, x ∈ s.downlinkPeerLru) → x ∈ mac :: l →
        x ∈ s.downlinkPeerLru ∨ x = mac ∧ downlinkTracks s mac = true := by
      intro l hl hx
      rcases List.mem_cons.1 hx with rfl | hx
      · exact .inr ⟨rfl, ht⟩
      · exact .inl (hl x hx)
    split at h
    · exact hfront _ (fun x => List.mem_of_mem_erase) h
    split at h
    · exact hfront _ (fun x hx => List.dropLast_subset _ hx) h
    · exact hfront _ (fun x => id) h
  · exact .inl (List.mem_of_mem_erase h)

theorem DownlinkRegistered.mem_downlinkPeerLru {mac : Mac} (h : DownlinkRegistered s mac t) :
    ∀ x ∈ t.downlinkPeerLru, x ∈ s.downlinkPeerLru ∨ x = mac ∧ downlinkTracks s mac = true := by
  intro x hx
  rw [h.downlinkPeerLru] at hx
  exact mem_downlinkLru hx

/-- Registering after the tracked addresses were updated. -/
theorem downlinkRegistered_radioAdd {mac : Mac} {u : Node} (hp : u.peers = s.peers)
    (hf : u.forwardingPeer = s.forwardingPeer) (hn : u.neighbors = s.neighbors)
    (hr : ∀ x, x ∈ u.radioPeers ↔ x ∈ s.radioPeers ∧ downlinkEvicted s mac ≠ some x)
    (hd : s.radioPeers.Nodup → u.radioPeers.Nodup) (hl : u.downlinkPeerLru = downlinkLru s mac) :
    DownlinkRegistered s mac (u.radioAdd mac) := by
  have hrest := radioRest_radioAdd u mac
  refine ⟨hrest.peers.trans hp, hrest.forwardingPeer.trans hf, hrest.neighbors.trans hn,
    fun x => ?_, fun h => nodup_radioAdd (hd h), hrest.downlinkPeerLru.trans hl⟩
  rw [mem_radioAdd, hr x]

theorem wp_registerDownlinkPeer {mac : Mac} (hadd : ∀ mac, w.addPeerOk mac = true) :
    wp (registerDownlinkPeer w mac) (fun _ t => DownlinkRegistered s mac t) E s := by
  have hkeep : downlinkEvicted s mac = none → ∀ x, x ∈ s.radioPeers ↔
      x ∈ s.radioPeers ∧ downlinkEvicted s mac ≠ some x := by
    intro he x
    rw [he]
    simp
  unfold registerDownlinkPeer
  rw [wp_bind, wp_get]
  dsimp only
  split
  -- an address that somebody else manages
  · rename_i hc
    have ht : downlinkTracks s mac = false := by simp only [downlinkTracks, hc, Bool.not_true]
    rw [wp_bind, wp_modify]
    refine wp_registerPeerWithEspNow (hadd mac)
      (downlinkRegistered_radioAdd rfl rfl rfl (hkeep ?_) id ?_)
    · simp [downlinkEvicted, ht]
    · simp [downlinkLru, ht]
  rename_i hc
  have ht : downlinkTracks s mac = true := by
    rw [downlinkTracks, Bool.not_eq_true']
    exact Bool.eq_false_iff.2 hc
  split
  -- an address that is tracked already
  · rename_i hin
    rw [wp_bind, wp_modify]
    refine wp_registerPeerWithEspNow (hadd mac)
      (downlinkRegistered_radioAdd rfl rfl rfl (hkeep ?_) id ?_)
    · rw [downlinkEvicted, hin, Bool.not_true, Bool.and_false, Bool.false_and]
      rfl
    · rw [downlinkLru, if_pos ht, if_pos hin]
  rename_i hin
  split
  -- a new address in a full list, whose oldest address leaves the radio
  · rename_i hfull
    have he : downlinkEvicted s mac = some (s.downlinkPeerLru.getLastD mac) := by
      rw [downlinkEvicted, if_pos (by simp only [ht, hin, hfull]; simp)]
    show wp (espNowDelPeer _ >>= _) _ _ _
    unfold espNowDelPeer
    rw [wp_bind, wp_modify, wp_bind, wp_modify]
    refine wp_registerPeerWithEspNow (hadd mac)
      (downlinkRegistered_radioAdd rfl rfl rfl (fun x => ?_) nodup_radioDel ?_)
    · refine Iff.trans mem_radioDel ?_
      rw [he]
      simp [eq_comm]
    · rw [downlinkLru, if_pos ht, if_neg hin, if_pos hfull]
  -- a new address, and there is room
  · rename_i hfull
    rw [wp_bind, wp_modify]
    refine wp_registerPeerWithEspNow (hadd mac)
      (downlinkRegistered_radioAdd rfl rfl rfl (hkeep ?_) id ?_)
    · simp [downlinkEvicted, hfull]
    · rw [downlinkLru, if_pos ht, if_neg hin, if_neg hfull]

/-! ### The registry -/

/-- The addresses of the registry. -/
def PeerRegistry.macs (r : PeerRegistry) : List Mac := r.peers.map PeerInfo.mac

theorem PeerRegistry.find_eq_none_iff {r : PeerRegistry} {mac : Mac} :
    r.find mac = none ↔ mac ∉ r.macs := by
  rw [find, List.find?_eq_none, macs]
  constructor
  · rintro h hm
    obtain ⟨p, hp, hpm⟩ := List.mem_map.1 hm
    exact h p hp (by simpa using hpm)
  · intro h p hp hpm
    exact h (List.mem_map.2 ⟨p, hp, by simpa using hpm⟩)

theorem PeerRegistry.macs_update (r : PeerRegistry) {mac : Mac} {f : PeerInfo → PeerInfo}
    (hf : ∀ p, (f p).mac = p.mac) : (r.update mac f).macs = r.macs := by
  simp only [macs, update]
  induction r.peers with
  | nil => rfl
  | cons p l ih =>
    by_cases hp : p.mac = mac
    · simp [List.replaceF, hp, hf]
    · simpa [List.replaceF, hp] using ih

theorem macs_updateLastSeen (r : PeerRegistry) (mac : Mac) (nowMs : UInt64) :
    (r.updateLastSeen mac nowMs).macs = r.macs := by
  unfold PeerRegistry.updateLastSeen
  split
  · rfl
  · exact PeerRegistry.macs_update r fun _ => rfl

theorem PeerRegistry.macs_append {r : PeerRegistry} {p : PeerInfo} (h : r.count < maxPeers) :
    (r.append p).macs = r.macs ++ [p.mac] := by
  rw [append, dif_pos (show r.peers.length < maxPeers from h), macs, List.map_append]
  rfl

/-- A removal takes one peer of the address out, if there is one. -/
theorem PeerRegistry.removeMac_perm (l : List PeerInfo) (mac : Mac) :
    (∃ p, p.mac = mac ∧ l.Perm (p :: removeMac l mac)) ∨
      removeMac l mac = l ∧ ∀ p ∈ l, p.mac ≠ mac := by
  unfold removeMac
  split
  · rename_i i last hi hlast
    obtain ⟨l', rfl⟩ := List.getLast?_eq_some_iff.1 hlast
    obtain ⟨hlt, hp, -⟩ := List.findIdx?_eq_some_iff_getElem.1 hi
    refine .inl ⟨(l' ++ [last])[i], by simpa using hp, ?_⟩
    by_cases hil : i < l'.length
    · have hset : ((l' ++ [last]).set i last).dropLast = l'.set i last := by
        rw [List.set_append_left _ _ hil, List.dropLast_concat]
      rw [hset, List.getElem_append_left hil]
      -- the peer at the end and the one that is removed change places
      have h₁ : (l' ++ [last]).Perm (last :: l') := List.perm_append_singleton last l'
      have h₂ : (last :: l').Perm (last :: l'[i] :: l'.eraseIdx i) :=
        (List.getElem_cons_eraseIdx_perm hil).symm.cons last
      have h₃ : (l'[i] :: l'.set i last).Perm (l'[i] :: last :: l'.eraseIdx i) :=
        (List.set_perm_cons_eraseIdx hil last).cons l'[i]
      exact h₁.trans (h₂.trans ((List.Perm.swap _ _ _).trans h₃.symm))
    · have hi' : i = l'.length := by simp at hlt; omega
      subst hi'
      simp only [List.getElem_concat_length]
      rw [List.set_append_right _ _ (le_refl _)]
      simp
  -- no peer has the address
  · rename_i hno
    refine .inr ⟨rfl, fun p hp hpm => ?_⟩
    have hne : l ≠ [] := List.ne_nil_of_mem hp
    obtain ⟨last, hlast⟩ := Option.ne_none_iff_exists'.1 (mt List.getLast?_eq_none_iff.1 hne)
    cases hi : l.findIdx? fun p => p.mac = mac with
    | some i => exact hno i last hi hlast
    | none => simpa [hpm] using List.findIdx?_eq_none_iff.1 hi p hp

theorem PeerRegistry.mem_of_mem_macs_remove {r : PeerRegistry} {mac x : Mac}
    (h : x ∈ (r.remove mac).macs) : x ∈ r.macs := by
  change x ∈ (PeerRegistry.removeMac r.peers mac).map PeerInfo.mac at h
  rcases PeerRegistry.removeMac_perm r.peers mac with ⟨p, -, hperm⟩ | ⟨hsame, -⟩
  · refine (hperm.map PeerInfo.mac).mem_iff.2 ?_
    rw [List.map_cons]
    exact List.mem_cons_of_mem _ h
  · rwa [hsame] at h

/-- What a call that adds or registers a peer does to the registry and the radio. -/
structure PeerAdded (s : Node) (mac : Mac) (t : Node) : Prop where
  forwardingPeer : t.forwardingPeer = s.forwardingPeer
  neighbors : t.neighbors = s.neighbors
  downlinkPeerLru : t.downlinkPeerLru = s.downlinkPeerLru
  radioPeers : ∀ x ∈ s.radioPeers, x ∈ t.radioPeers
  mem_radioPeers : ∀ x ∈ t.radioPeers, x ∈ s.radioPeers ∨ x = mac ∧ mac ∈ t.peers.macs
  nodup : s.radioPeers.Nodup → t.radioPeers.Nodup
  macs : t.peers.macs = s.peers.macs ∨
    t.peers.macs = s.peers.macs ++ [mac] ∧ mac ∉ s.peers.macs ∧ mac ∈ t.radioPeers

/-- The radio part of a registration. -/
theorem wp_enrollPeerWithRadio {mac : Mac} {Q : Unit → Node → Prop}
    (hadd : ∀ mac, w.addPeerOk mac = true) (hq : Q () ((s.radioDel mac).radioAdd mac)) :
    wp (enrollPeerWithRadio w mac) Q E s := by
  show wp (espNowDelPeer mac >>= fun _ => registerPeerWithEspNow w mac) Q E s
  unfold espNowDelPeer
  rw [wp_bind, wp_modify]
  exact wp_registerPeerWithEspNow (hadd mac) hq

/-- Saving the changed registry and registering the address afresh. -/
theorem wp_saveAndEnroll {mac : Mac} {u : Node} (hadd : ∀ mac, w.addPeerOk mac = true)
    (hf : u.forwardingPeer = s.forwardingPeer) (hn : u.neighbors = s.neighbors)
    (hl : u.downlinkPeerLru = s.downlinkPeerLru) (hr : u.radioPeers = s.radioPeers)
    (hm : u.peers.macs = s.peers.macs ∧ mac ∈ s.peers.macs ∨
      u.peers.macs = s.peers.macs ++ [mac] ∧ mac ∉ s.peers.macs) :
    wp (do saveToEEPROM w; enrollPeerWithRadio w mac; pure true) (fun _ t => PeerAdded s mac t)
      (fun _ _ => True) u := by
  rw [wp_bind]
  refine wp_mono _ (fun _ v hv => ?_) (fun _ _ h => h) sameRadio_saveToEEPROM
  rw [wp_bind]
  refine wp_enrollPeerWithRadio hadd ?_
  have hd := (radioRest_radioDel v mac).trans (radioRest_radioAdd (v.radioDel mac) mac)
  have hv' := hv.rest.trans hd
  have hmem : ∀ x, x ∈ ((v.radioDel mac).radioAdd mac).radioPeers ↔
      x ∈ v.radioPeers ∧ x ≠ mac ∨ x = mac := by
    intro x
    rw [mem_radioAdd, mem_radioDel]
  -- the address is in the registry by now
  have hin : mac ∈ u.peers.macs := by
    rcases hm with ⟨hm, h⟩ | ⟨hm, -⟩
    · rwa [hm]
    · rw [hm]
      exact List.mem_append_right _ List.mem_cons_self
  refine ⟨hv'.forwardingPeer.trans hf, hv'.neighbors.trans hn, hv'.downlinkPeerLru.trans hl,
    fun x hx => ?_, fun x hx => ?_, fun h => ?_, ?_⟩
  · rw [hmem, hv.radioPeers, hr]
    by_cases hxm : x = mac
    · exact .inr hxm
    · exact .inl ⟨hx, hxm⟩
  · rw [hmem, hv.radioPeers, hr] at hx
    rw [hv'.peers]
    exact hx.imp And.left fun h => ⟨h, hin⟩
  · rw [← hr, ← hv.radioPeers] at h
    exact nodup_radioAdd (nodup_radioDel h)
  · rw [hv'.peers]
    refine hm.imp And.left fun h => ⟨h.1, h.2, ?_⟩
    rw [hmem]
    exact .inr rfl

theorem wp_registerPeerWithKey {mac : Mac} {key : Key} {allowRekey : Bool}
    (hadd : ∀ mac, w.addPeerOk mac = true) :
    wp (registerPeerWithKey w mac key allowRekey) (fun _ t => PeerAdded s mac t)
      (fun _ _ => True) s := by
  have hsame : ∀ r : PeerRegistry, r.macs = s.peers.macs → PeerAdded s mac { s with peers := r } :=
    fun r hr => ⟨rfl, rfl, rfl, fun _ h => h, fun _ h => .inl h, id, .inl hr⟩
  unfold registerPeerWithKey
  rw [wp_bind, wp_get]
  split
  · rw [wp_bind, wp_modify]
    exact hsame _ (PeerRegistry.macs_update _ fun _ => rfl)
  split
  · rename_i hsome
    rw [wp_bind, wp_modify]
    refine wp_saveAndEnroll hadd rfl rfl rfl rfl
      (.inl ⟨PeerRegistry.macs_update _ fun _ => rfl, not_not.1 fun hno => ?_⟩)
    rw [PeerRegistry.find_eq_none_iff.2 hno] at hsome
    cases hsome
  split
  · exact hsame s.peers rfl
  · rename_i hno hlt
    have hno' : s.peers.find mac = none := by simpa using hno
    rw [wp_bind, wp_modify]
    refine wp_saveAndEnroll hadd rfl rfl rfl rfl (.inr ⟨?_, ?_⟩)
    · exact PeerRegistry.macs_append (by omega)
    · exact PeerRegistry.find_eq_none_iff.1 hno'

theorem wp_addAndPersist {mac : Mac} :
    wp (addAndPersist w mac) (fun _ t => SameRadio s t ∨
      (RadioRest { s with peers := s.peers.append ⟨mac, Bytes.zero 32, w.nowMs⟩ } t ∧
        t.radioPeers = s.radioPeers ∧ mac ∉ s.peers.macs ∧ s.peers.count < maxPeers))
      (fun _ _ => True) s := by
  unfold addAndPersist
  rw [wp_bind, wp_get]
  split
  · exact .inl (.refl s)
  split
  · refine wp_mono _ (fun _ _ h => .inl h) (fun _ _ h => h) sameRadio_fail
  · rename_i hno hlt
    rw [Bool.or_eq_true, not_or] at hno
    rw [wp_bind, wp_modify]
    refine wp_mono _ (fun _ t ht => .inr ⟨ht.rest, ht.radioPeers, ?_, by omega⟩) (fun _ _ h => h)
      sameRadio_saveToEEPROM
    exact PeerRegistry.find_eq_none_iff.1 (by simpa using hno.1)

theorem wp_addPeer {mac : Mac} (hadd : ∀ mac, w.addPeerOk mac = true) :
    wp (addPeer w mac) (fun _ t => PeerAdded s mac t) (fun _ _ => True) s := by
  unfold addPeer
  rw [wp_bind, wp_get, wp_bind]
  refine wp_mono _ (fun _ t ht => ?_) (fun _ _ h => h) wp_addAndPersist
  rw [wp_bind, wp_get]
  rcases ht with ht | ⟨ht, hr, hm, hlt⟩
  -- nothing was added
  · rw [if_neg (by rw [ht.rest.peers]; exact lt_irrefl _)]
    refine ⟨ht.rest.forwardingPeer, ht.rest.neighbors, ht.rest.downlinkPeerLru,
      fun x hx => by rwa [ht.radioPeers], fun x hx => .inl (by rwa [← ht.radioPeers]),
      fun h => by rwa [ht.radioPeers], .inl (by rw [ht.rest.peers])⟩
  -- the new peer is the last one, and the radio is told about it
  · have hp : t.peers.peers = s.peers.peers ++ [⟨mac, Bytes.zero 32, w.nowMs⟩] := by
      rw [ht.peers, PeerRegistry.append, dif_pos (show s.peers.peers.length < maxPeers from hlt)]
    have hcount : t.peers.count > s.peers.count := by
      unfold PeerRegistry.count
      rw [hp, List.length_append]
      simp
    rw [if_pos hcount, hp, List.getLast?_concat]
    refine wp_registerPeerWithEspNow (hadd mac) ?_
    have hd := radioRest_radioAdd t mac
    have hrest := ht.trans hd
    have hmacs : (t.radioAdd mac).peers.macs = s.peers.macs ++ [mac] := by
      rw [hrest.peers]
      exact PeerRegistry.macs_append hlt
    refine ⟨hrest.forwardingPeer, hrest.neighbors, hrest.downlinkPeerLru, fun x hx => ?_,
      fun x hx => ?_, fun h => nodup_radioAdd (by rwa [hr]),
      .inr ⟨hmacs, hm, mem_radioAdd.2 (.inr rfl)⟩⟩
    · rw [mem_radioAdd, hr]
      exact .inl hx
    · rw [mem_radioAdd, hr] at hx
      refine hx.imp_right fun h => ⟨h, ?_⟩
      rw [hmacs]
      exact List.mem_append_right _ List.mem_cons_self

/-- What a removal does. -/
structure PeerRemoved (s : Node) (mac : Mac) (t : Node) : Prop where
  forwardingPeer : t.forwardingPeer = s.forwardingPeer
  neighbors : t.neighbors = s.neighbors
  downlinkPeerLru : t.downlinkPeerLru = s.downlinkPeerLru
  radioPeers : ∀ x ∈ s.radioPeers, x ≠ mac → x ∈ t.radioPeers
  mem_radioPeers : ∀ x ∈ t.radioPeers, x ∈ s.radioPeers ∧ x ≠ mac
  nodup : s.radioPeers.Nodup → t.radioPeers.Nodup
  macs : t.peers = s.peers.remove mac

theorem wp_removeAndPersist {mac : Mac} :
    wp (removeAndPersist w mac) (fun _ t => PeerRemoved s mac t) (fun _ _ => True) s := by
  unfold removeAndPersist
  rw [wp_bind, wp_modify, wp_bind]
  refine wp_mono _ (fun _ t ht => ?_) (fun _ _ h => h) sameRadio_saveToEEPROM
  rw [wp_bind, wp_get]
  have hr := ht.rest
  split
  · refine ⟨hr.forwardingPeer, hr.neighbors, hr.downlinkPeerLru, fun x hx hne => ?_,
      fun x hx => ?_, fun h => ?_, hr.peers⟩
    · refine (mem_radioDel (s := t)).2 ⟨?_, hne⟩
      rw [ht.radioPeers]
      exact hx
    · have hx' := (mem_radioDel (s := t)).1 hx
      rw [ht.radioPeers] at hx'
      exact hx'
    · exact nodup_radioDel (s := t) (by rwa [ht.radioPeers])
  · rename_i hno
    refine wp_mono _ (fun _ u hu => ?_) (fun _ _ h => h) (sameRadio_fail (s := t))
    have hu' := ht.trans hu
    refine ⟨hu'.rest.forwardingPeer, hu'.rest.neighbors, hu'.rest.downlinkPeerLru,
      fun x hx _ => by rw [hu'.radioPeers]; exact hx, fun x hx => ?_,
      fun h => by rw [hu'.radioPeers]; exact h, hu'.rest.peers⟩
    rw [hu'.radioPeers] at hx
    refine ⟨hx, fun hxm => hno ?_⟩
    rw [ht.radioPeers, ← hxm]
    simpa using hx

/-! ### The uplink router -/

/-- The relay that is chosen and registered as the next hop toward the master, if any. -/
def chosenRelay (s : Node) (nowMs : UInt64) : Option Mac :=
  if s.currentMaster.distance = 0xFF ∨ (directHop s nowMs).isSome then none
  else (s.neighbors.selectNextHop s.currentMaster.distance nowMs).filter (· ≠ s.deviceMac)

/-- The state after a relay was chosen. -/
def Node.relayChosen (s : Node) (hopMac : Mac) : Node :=
  { (if evictsForwardingPeer s hopMac then s.radioDel s.forwardingPeer else s).radioAdd hopMac with
    forwardingPeer := hopMac }

/-- The choice of a next hop either changes nothing or registers the relay that is chosen. -/
theorem wp_findNextHopToMaster_eq (hadd : ∀ mac, w.addPeerOk mac = true) :
    wp (findNextHopToMaster w)
      (fun _ t => t = (chosenRelay s w.nowMs).elim s s.relayChosen) E s := by
  unfold findNextHopToMaster chosenRelay
  rw [wp_bind, wp_get]
  split
  -- no route
  · rename_i hd
    rw [if_pos (.inl hd)]
    exact Eq.refl s
  rename_i hd
  split
  -- the master is a neighbour
  · rename_i hdirect
    rw [if_pos (.inr (by simp [hdirect]))]
    exact Eq.refl s
  rename_i hdirect
  rw [if_neg (by simp [hd, hdirect])]
  split
  -- no neighbour is closer
  · rename_i hsel
    rw [hsel]
    exact Eq.refl s
  · rename_i hopMac hsel
    rw [hsel]
    split
    -- the chosen neighbour is the node itself
    · rename_i hown
      have hf : (some hopMac).filter (· ≠ s.deviceMac) = none := by simp [hown]
      rw [hf]
      exact Eq.refl s
    rename_i hown
    have hf : (some hopMac).filter (· ≠ s.deviceMac) = some hopMac := by simp [hown]
    rw [hf, wp_bind]
    -- the chosen neighbour takes the place of the one before
    have htail : ∀ u : Node, wp (do
        registerPeerWithEspNow w hopMac
        modify fun s => { s with forwardingPeer := hopMac }
        pure (some hopMac)) (fun _ t => t = { u.radioAdd hopMac with forwardingPeer := hopMac })
        E u := by
      intro u
      rw [wp_bind]
      exact wp_registerPeerWithEspNow (hadd hopMac) rfl
    unfold evictForwardingPeer
    show wp _ (fun _ t => wp _ (fun _ t => t = s.relayChosen hopMac) E t) E s
    unfold Node.relayChosen
    split
    · exact htail (s.radioDel s.forwardingPeer)
    · exact htail s

/-- What the choice of a next hop toward the master does. -/
structure HopChosen (s t : Node) : Prop where
  peers : t.peers = s.peers
  downlinkPeerLru : t.downlinkPeerLru = s.downlinkPeerLru
  radioPeers : ∀ x ∈ s.radioPeers, x ∈ t.radioPeers ∨ x = s.forwardingPeer ∧ s.peers.find x = none

/-- The relay chosen before leaves the radio only if it is not enrolled. -/
theorem hopChosen_relayChosen (s : Node) (hopMac : Mac) : HopChosen s (s.relayChosen hopMac) := by
  unfold Node.relayChosen
  split
  · rename_i hev
    have hrest := (radioRest_radioDel s s.forwardingPeer).trans
      (radioRest_radioAdd (s.radioDel s.forwardingPeer) hopMac)
    refine ⟨hrest.peers, hrest.downlinkPeerLru, fun x hx => ?_⟩
    by_cases hxf : x = s.forwardingPeer
    · refine .inr ⟨hxf, ?_⟩
      simp only [evictsForwardingPeer, Bool.and_eq_true] at hev
      rw [hxf]
      simpa using hev.1.2
    · exact .inl (mem_radioAdd.2 (.inl (mem_radioDel.2 ⟨hx, hxf⟩)))
  · have hrest := radioRest_radioAdd s hopMac
    exact ⟨hrest.peers, hrest.downlinkPeerLru, fun x hx => .inl (mem_radioAdd.2 (.inl hx))⟩

theorem wp_findNextHopToMaster (hadd : ∀ mac, w.addPeerOk mac = true) :
    wp (findNextHopToMaster w) (fun _ t => HopChosen s t) E s := by
  refine wp_mono _ (fun _ t ht => ?_) (fun _ _ h => h) (wp_findNextHopToMaster_eq hadd)
  rw [ht]
  cases chosenRelay s w.nowMs with
  | none => exact ⟨rfl, rfl, fun _ h => .inl h⟩
  | some hopMac => exact hopChosen_relayChosen s hopMac

/-- Whether the origin of a beacon is trusted. -/
def trustsBeaconOrigin (w : World) (s : Node) (mac : Mac) : Bool :=
  !s.enrollment.hasMasterMac || mac = s.enrollment.knownMasterMac ||
    s.dualMasterMode && (!s.enrollment.hasMasterMacSecondary ||
      mac = s.enrollment.knownMasterMacSecondary) ||
    w.nowMs - s.beacon.lastMasterBeaconReceivedMs ≥ staleMasterThresholdMs

/-- Whether a beacon is taken note of. -/
def heedsBeacon (w : World) (s : Node) (m : Message) : Bool :=
  m.originMac ≠ s.deviceMac && beaconPinned w.config m && m.hopCount.toNat < maxHops &&
    trustsBeaconOrigin w s m.originMac

/-- What a beacon does to the routers. -/
structure BeaconHeard (s t : Node) : Prop where
  peers : t.peers = s.peers
  forwardingPeer : t.forwardingPeer = s.forwardingPeer
  downlinkPeerLru : t.downlinkPeerLru = s.downlinkPeerLru
  radioPeers : t.radioPeers = s.radioPeers

theorem BeaconHeard.of_sameRadio (h : SameRadio s t) : BeaconHeard s t :=
  ⟨h.rest.peers, h.rest.forwardingPeer, h.rest.downlinkPeerLru, h.radioPeers⟩

/-- The origin of a beacon is accepted exactly if it is trusted. -/
theorem sameRadio_acceptBeaconOrigin {mac : Mac} :
    wp (acceptBeaconOrigin w mac)
      (fun r t => r = trustsBeaconOrigin w s mac ∧ SameRadio s t) (fun _ _ => True) s := by
  -- learning an address ends with a write to the flash
  have hlearn : ∀ (u : Node) (op : NvsOp), SameRadio s u → trustsBeaconOrigin w s mac = true →
      wp (do nvsSave w op true; pure true)
        (fun r t => r = trustsBeaconOrigin w s mac ∧ SameRadio s t) (fun _ _ => True) u := by
    intro u op hu ht
    rw [wp_bind]
    exact wp_nvsSave ⟨ht.symm, hu.trans (sameRadio_saved u op)⟩ fun _ _ _ => trivial
  unfold acceptBeaconOrigin
  rw [wp_bind, wp_get]
  dsimp only
  split
  -- the first master is trusted
  · rename_i hnone
    refine hlearn (s.learnedMaster mac) (.knownMasterMac mac) ⟨⟨rfl, rfl, rfl, rfl⟩, rfl⟩ ?_
    simp [trustsBeaconOrigin, hnone]
  rename_i hsome
  split
  -- a known master
  · rename_i hknown
    refine ⟨?_, .refl s⟩
    simp only [Bool.or_eq_true, Bool.and_eq_true, decide_eq_true_eq] at hknown
    rcases hknown with h | h <;> simp [trustsBeaconOrigin, h]
  rename_i hunknown
  split
  -- a secondary master, where one is wanted and none is known
  · rename_i hfree
    refine hlearn (s.learnedSecondary mac) (.knownMasterMacSec mac)
      ⟨⟨rfl, rfl, rfl, rfl⟩, rfl⟩ ?_
    simp only [Bool.and_eq_true] at hfree
    simp [trustsBeaconOrigin, hfree]
  rename_i hfull
  split
  -- an unknown origin while the known one is heard
  · rename_i halive
    refine ⟨?_, .refl s⟩
    have hsome : s.enrollment.hasMasterMac = true := by simpa using hsome
    have halive := UInt64.not_le.2 halive
    cases hd : s.dualMasterMode with
    | false => simpa [trustsBeaconOrigin, hd, hsome, halive] using hunknown
    | true =>
      have hsec : s.enrollment.hasMasterMacSecondary = true := by simpa [hd] using hfull
      simpa [trustsBeaconOrigin, hd, hsome, hsec, halive] using hunknown
  -- the known one fell silent
  · rename_i hsilent
    refine hlearn (s.learnedMaster mac) (.knownMasterMac mac) ⟨⟨rfl, rfl, rfl, rfl⟩, rfl⟩ ?_
    simp [trustsBeaconOrigin, UInt64.not_lt.1 hsilent]

theorem beaconHeard_processBeacon {m : Message} :
    wp (processBeacon w m) (fun _ t => BeaconHeard s t) (fun _ _ => True) s := by
  unfold processBeacon
  rw [wp_bind, wp_get]
  split
  -- a beacon that does not pass the gate
  · exact .of_sameRadio (.refl s)
  rw [wp_bind]
  refine wp_mono _ (fun r u hu => ?_) (fun _ _ h => h) sameRadio_acceptBeaconOrigin
  obtain ⟨-, hu⟩ := hu
  split
  · rw [wp_bind]
    -- the warning about another master touches nothing here
    have hwarn : wp (warnOtherMaster w m.originMac) (fun _ t => SameRadio u t) (fun _ _ => True)
        u := by
      unfold warnOtherMaster
      rw [wp_bind, wp_get]
      split
      · exact sameRadio_fail
      · exact SameRadio.refl u
    refine wp_mono _ (fun _ v hv => ?_) (fun _ _ h => h) hwarn
    have hnote : BeaconHeard s (v.noteBeacon w m) :=
      ⟨(hu.trans hv).rest.peers, (hu.trans hv).rest.forwardingPeer,
        (hu.trans hv).rest.downlinkPeerLru, (hu.trans hv).radioPeers⟩
    rw [wp_modify]
    unfold Node.scheduleRelay
    split
    · exact hnote
    · exact ⟨hnote.1, hnote.2, hnote.3, hnote.4⟩
  · exact .of_sameRadio hu

theorem sameRadio_checkTimeout :
    wp (checkTimeout w) (fun _ t => SameRadio s t) E s := by
  unfold checkTimeout
  rw [wp_modify]
  dsimp only
  split
  · exact .refl s
  split
  · exact ⟨⟨rfl, rfl, rfl, rfl⟩, rfl⟩
  · exact .refl s

end LatticeMesh
