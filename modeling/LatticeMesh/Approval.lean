import LatticeMesh.Counters
import LatticeMesh.PeerKeys

/-!
# Approval by the server

A master registers a node as soon as it asks to be enrolled, and tells the server.  The server
answers with a join acknowledgement, which approves the node, or with a zero key, or not at all.
Payloads of a node are opened with the key that its own request carried; so it is the request, and
not the approval, that opens the way.

## Main definitions

* `Device.approves` — the server approves an address in a step.
* `Device.watch` — the device, and whether an address was approved so far.
* `Device.Delivers` — a payload of an address is opened and delivered in a step.
* `Device.AsMaster`, `Device.Keyless` — the steps of a master, and those that give an address no key
  before it is approved.

## Main results

* `Device.delivers_approved` — **an address that gets no key before it is approved is delivered only
  after it was approved**, whatever the server or the radio does, and across restarts.
* `Device.not_delivers_approved_pending` — a request that the server never answered is enough.
-/

namespace LatticeMesh

open EffectSpec Relation

variable {w : World} {s₀ s t : Node} {i : Input} {c : Config}

/-! ### Default peers are written once -/

/-- A boot would not write any default peer. -/
def NoBootstrap (c : Config) (v : Nvs) : Prop :=
  bootstraps c v = true → ∀ j, c.defaultRecords j = none

theorem noBootstrap_of_get {v : Nvs} {j : Fin maxPeers} {r : PeerRecord}
    (h : v.peer.get j = some r) : NoBootstrap c v := by
  intro hb
  rw [bootstraps, Nvs.hasPeers_of_get h] at hb
  simp at hb

theorem noBootstrap_of_dev {v : Nvs} (h : bootsInDevMode c v = true) : NoBootstrap c v := by
  intro hb
  rw [bootstraps, h] at hb
  cases hb

theorem NoBootstrap.congr {v v' : Nvs} (h : NoBootstrap c v) (hd : v'.devFlag = v.devFlag)
    (hp : v'.peer = v.peer) : NoBootstrap c v' := by
  unfold NoBootstrap bootstraps bootsInDevMode Nvs.hasPeers at h ⊢
  rwa [hd, hp]

/-- The registry is not empty after a registration. -/
theorem PeerRegistry.records_register {r : PeerRegistry} {mac : Mac} (key : Key) (nowMs : UInt64)
    (h : (r.find mac).isSome ∨ r.count < maxPeers) :
    ∃ rec, (r.register mac key nowMs).records ⟨0, by decide⟩ = some rec := by
  have hfound := (find_isSome_register key nowMs h).1
  obtain ⟨p, hp⟩ := Option.isSome_iff_exists.1 hfound
  unfold records
  have hmem := List.mem_of_find?_eq_some hp
  cases hl : (r.register mac key nowMs).peers with
  | nil => rw [hl] at hmem; cases hmem
  | cons q l => exact ⟨_, rfl⟩

/-- The first slot after a registration, outside dev mode. -/
theorem noBootstrap_register {r : PeerRegistry} {mac : Mac} {key : Key} {nowMs : UInt64} {v : Nvs}
    {isDevMode : Bool} {old : Option PeerRecord}
    (hc : (r.find mac).isSome ∨ r.count < maxPeers) (hd : isDevMode = bootsInDevMode c v)
    (hs : SlotSaved isDevMode ((r.register mac key nowMs).records ⟨0, by decide⟩) old
      (v.peer.get ⟨0, by decide⟩)) : NoBootstrap c v := by
  cases hdev : isDevMode with
  | true => exact noBootstrap_of_dev (hd.symm.trans hdev)
  | false =>
    obtain ⟨rec, hr⟩ := PeerRegistry.records_register key nowMs hc
    rw [hr, slotSaved_some, hdev, if_neg (by decide)] at hs
    exact noBootstrap_of_get hs

namespace Device

variable {b : Board} {d : Device} {e : Env} {X : Mac}

/-- The node runs in the mode that its flash asks for, and no further boot writes default peers. -/
structure Bootstrapped (c : Config) (s : Node) : Prop where
  isDevMode : s.eeprom.isDevMode = bootsInDevMode c s.nvs
  noBootstrap : NoBootstrap c s.nvs

/-- A boot writes the default peers, or finds peers in flash. -/
theorem bootstrapped_booted {w : World} {s₀ t : Node} (h : Booted w s₀ t) :
    Bootstrapped w.config t := by
  have hdev := bootsInDevMode_congr (c := w.config) h.frame.nvs.devFlag
  refine ⟨h.isDevMode.trans hdev.symm, fun hb => ?_⟩
  have hstored := h.stored
  unfold BootPeers at hstored
  split at hstored
  · -- what was written was nothing
    simp only [bootstraps, Bool.and_eq_true, Bool.not_eq_true'] at hb
    intro j
    rw [← hstored j]
    exact Nvs.get_of_not_hasPeers hb.1.2 j
  · rename_i hno
    unfold bootstraps Nvs.hasPeers at hb hno
    rw [hdev, hstored] at hb
    exact absurd hb hno

theorem noBootstrap_bootFrame {s₀ u : Node} (h : BootFrame c s₀ u) (hv : NoBootstrap c s₀.nvs) :
    NoBootstrap c u.nvs := by
  by_cases hb : bootstraps c s₀.nvs = true
  · exact fun _ => hv hb
  · have hpeer : u.nvs.peer = s₀.nvs.peer := by
      refine List.Vector.ext fun j => ?_
      rcases h.nvs.peer j with hj | ⟨hb', -⟩
      · exact hj
      · exact absurd hb' hb
    exact hv.congr h.nvs.devFlag hpeer

theorem bootstrapped_effect (h : Bootstrapped c s) (hi : i ≠ .resetButton)
    (ht : Effect w s₀ i s t) : Bootstrapped c t := by
  have hflag := ht.devFlag hi
  have hdev : t.eeprom.isDevMode = bootsInDevMode c t.nvs := by
    rw [ht.sameDevice.isDevMode, h.isDevMode, bootsInDevMode_congr hflag]
  refine ⟨hdev, ?_⟩
  cases ht.peerChange with
  | same _ hn | touched _ hn => exact h.noBootstrap.congr hflag hn
  | wiped hi' => exact absurd hi' hi
  | registered _ hc hp hs =>
    have hs0 := hs ⟨0, by decide⟩
    rw [hp] at hs0
    exact noBootstrap_register hc (h.isDevMode.trans (bootsInDevMode_congr hflag).symm) hs0

theorem noBootstrap_stop {h : Halt} {u : Node} (hs : Bootstrapped c s) (hu : Stop w s₀ i h s u) :
    NoBootstrap c u.nvs := by
  cases hu with
  | display _ _ ha | nvs _ ha =>
    rw [ha.nvs]
    exact hs.noBootstrap
  | register k _ hc _ hn hslot =>
    have hflag : u.nvs.devFlag = s.nvs.devFlag := by rw [hn]
    by_cases hk : k = 0
    · refine hs.noBootstrap.congr hflag (List.Vector.ext fun j => ?_)
      have hj := hslot j
      rwa [hk, if_neg (Nat.not_lt_zero _)] at hj
    · have hj := hslot ⟨0, by decide⟩
      rw [if_pos (Nat.pos_of_ne_zero hk)] at hj
      exact noBootstrap_register hc (hs.isDevMode.trans (bootsInDevMode_congr hflag).symm) hj
  | _ => exact hs.noBootstrap

/-- **Without a reset the default peers are written once.** -/
theorem bootstrapped_invariant (b : Board) :
    Invariant b (fun _ x => x.2 ≠ .resetButton) (Bootstrapped b.config)
      fun s => NoBootstrap b.config s.nvs where
  weaken _ h := h.noBootstrap
  boot _ _ _ _ _ ht := bootstrapped_booted ht
  bootHalt _ _ _ _ hd hu := noBootstrap_bootFrame hu hd
  input _ _ _ _ _ h := ⟨h.isDevMode, h.noBootstrap⟩
  effect _ _ _ _ _ hw h ht := bootstrapped_effect h hw.admissible ht
  stop _ _ _ _ _ _ _ h hu := noBootstrap_stop h hu

/-! ### Approvals and deliveries -/

/-- The server approves the address `X`: it sends a join acknowledgement for it with a non-zero key,
and the master acts on it. -/
def approves (d : Device) (X : Mac) : Input → Bool
  | .serial f => d.status = .running && d.node.adapterType = AdapterType.serial &&
      f.messageType = MessageType.joinAck && !f.enrollmentPublicKey.isZero && f.targetMac = X
  | _ => false

/-- The device, and whether `X` was approved so far. -/
def watch (b : Board) (X : Mac) (st : Device × Bool) (x : Env × Input) : Device × Bool :=
  (step b st.1 x, st.2 || approves st.1 X x.2)

/-- In this step a master opens a payload of `X` and delivers a payload. -/
def Delivers (b : Board) (d : Device) (x : Env × Input) (X : Mac) : Prop :=
  d.status = .running ∧ d.node.isMaster = true ∧
    (∃ key m, .opened key m ∈ (step b d x).node.stepEvents ∧ m.originMac = X) ∧
    ∃ m, .deliver m ∈ (step b d x).node.stepEvents

/-- The step is one of a master that keeps its role and its flash. -/
def AsMaster (d : Device) (x : Env × Input) : Prop :=
  (d.status = .running → d.node.isMaster = true) ∧ x.2 ≠ .configButton ∧ x.2 ≠ .resetButton

/-- The step is not an enrollment request that gives `X` a key before it is approved: such a request
is dropped unread, or has no key, or its key is not stored. -/
def Keyless (b : Board) (X : Mac) (st : Device × Bool) (x : Env × Input) : Prop :=
  st.2 = false → match x.2 with
    | .rx _ m => passesChecks (b.world x.1) st.1.node m = true →
        m.messageType = MessageType.enrollment → m.originMac = X →
        st.1.node.peers.stores X false = false ∨ m.enrollmentPublicKey.isZero = true
    | _ => True

/-- The address `X` has no key. -/
def NoKey (X : Mac) (mac : Mac) (key : Key) : Prop := mac = X → key.isZero = true

/-- What keeps `X` without a key. -/
def KeepsKeyless (b : Board) (X : Mac) (d : Device) (x : Env × Input) : Prop :=
  AsMaster d x ∧ Keyless b X (d, false) x ∧ NoBootstrap b.config d.node.nvs

theorem keyless_rule (b : Board) (X : Mac) :
    PeerRule b (fun d x => KeepsKeyless b X d x ∧ Reads b d x) (NoKey X) where
  register d e i s hw hs mac key h hroom := by
    obtain ⟨⟨⟨hmaster, hconfig, -⟩, hkey, -⟩, hread⟩ := hw.admissible
    have hm : s.isMaster = true := (effects_isMaster hconfig hw.reached).trans (hmaster hw.running)
    rintro rfl
    cases h with
    | @enrollment srcMac m hi ht _ hk =>
      subst hi
      refine (hkey rfl (hread srcMac m rfl) ht rfl).resolve_left fun hno => ?_
      have hst : d.node.peers.stores m.originMac false = true :=
        effects_stores hw.reached (PeerRegistry.stores_iff.2 ⟨hk, hroom⟩)
      rw [hno] at hst
      cases hst
    | joinAck ha | secondary ha =>
      have hl := ha.2.2.1
      rw [hm] at hl
      cases hl
    | approved _ _ _ hp => exact hs _ (List.mem_of_find?_eq_some hp) (PeerRegistry.find_mac hp)
  bootstrap d e hc hb j r hr _ := by
    rw [hc.1.2.2 hb j] at hr
    cases hr
  default _ _ _ := rfl

/-- Without a key the lookup finds none. -/
theorem not_keysFor {c : Crypto} {s : Node} {keys : E2EKeys} (hs : s.peers.All (NoKey X))
    (hc : CacheCoherent c s) : ¬KeysFor c s X keys := by
  intro h
  obtain ⟨key, hkey, hz, -⟩ := hc.keysFor h
  have hzero := hs.keyOf hkey rfl
  rw [hzero] at hz
  cases hz

/-- A step during which the lookup finds no keys of `X` opens nothing of `X`. -/
theorem not_opened {w : World} {t : Node}
    (ht : ReflTransGen (Effect w (d.inputNode i) i) (d.inputNode i) t)
    (hno : ∀ s, ReflTransGen (Effect w (d.inputNode i) i) (d.inputNode i) s →
      s.isMaster = true ∧ ∀ keys, ¬KeysFor w.crypto s X keys) :
    ∀ key m, .opened key m ∈ t.stepEvents → m.originMac ≠ X := by
  induction ht with
  | refl => exact fun _ _ hm => by cases hm
  | @tail s t hst h ih =>
    obtain ⟨es, he, hadds⟩ := h.history
    intro key m hm
    rw [Node.stepEvents_append he fun ev hev => (hadds.forall ev hev).1] at hm
    rcases List.mem_append.1 hm with hm | hm
    · cases hadds with
      | routine hes => cases hes _ hm
      | built _ _ hes =>
        rcases List.mem_cons.1 hm with hm | hm
        · cases hm
        · cases hes _ hm
      | guarded | «sealed» => cases List.mem_singleton.1 hm
      | opened _ hk =>
        cases List.mem_singleton.1 hm
        obtain ⟨hmaster, hnone⟩ := hno s hst
        obtain ⟨keys, hkeys, -⟩ := hk hmaster
        rintro rfl
        exact hnone keys hkeys
    · exact ih key m hm

/-- A boot opens nothing. -/
theorem boot_stepEvents {u : Node} (h : BootFrame b.config (d.bootNode b) u) :
    ∀ ev ∈ u.stepEvents, ev.isPlain = true := by
  obtain ⟨es, he, hes⟩ := boot_history h
  intro ev hev
  unfold Node.stepEvents at hev
  rw [he, List.takeWhile_append_of_pos fun ev hm => by
    simp [Event.isInput_of_isPlain (hes ev hm)]] at hev
  rcases List.mem_append.1 hev with hev | hev
  · exact hes ev hev
  · cases hev

/-- What holds along a run: until `X` is approved it has no key. -/
structure Watched (b : Board) (X : Mac) (st : Device × Bool) : Prop where
  bootstrapped : st.1.Meets (Bootstrapped b.config) fun s => NoBootstrap b.config s.nvs
  coherent : st.1.Meets (CacheCoherent b.crypto) fun _ => True
  keyless : st.2 = false → st.1.Meets (fun s => s.peers.All (NoKey X) ∧ s.nvs.AllPeers (NoKey X))
    fun s => s.nvs.AllPeers (NoKey X)

theorem Watched.keeps {st : Device × Bool} {x : Env × Input} (h : Watched b X st)
    (hx : AsMaster st.1 x ∧ Keyless b X st x) (ha : st.2 = false) : KeepsKeyless b X st.1 x :=
  ⟨hx.1, fun _ => hx.2 ha, h.bootstrapped.1⟩

theorem Watched.step {st : Device × Bool} {x : Env × Input} (h : Watched b X st)
    (hx : AsMaster st.1 x ∧ Keyless b X st x) : Watched b X (watch b X st x) := by
  refine ⟨(bootstrapped_invariant b).step h.bootstrapped hx.1.2.2,
    (cacheCoherent_invariant b fun _ _ => True).step h.coherent trivial, fun ha => ?_⟩
  have ha' : st.2 = false := (Bool.or_eq_false_iff.1 ha).1
  exact (keyless_rule b X).invariant.step_reads (fun _ _ h => h) (h.keyless ha') (h.keeps hx ha')

/-- A boot that does not find `X` in its registry. -/
theorem watched_boot (hrun : (Device.step b d (e, .boot)).status = .running)
    (hX : (Device.step b d (e, .boot)).node.peers.find X = none) :
    Watched b X (Device.step b d (e, .boot), false) := by
  have hst := stepTo b d e .boot
  generalize Device.step b d (e, .boot) = d₀ at hst hrun hX
  cases hst with
  | @booted t h =>
    have hX : t.peers.find X = none := hX
    have hnone : ∀ p ∈ t.peers.peers, p.mac ≠ X := by
      simpa [PeerRegistry.find] using hX
    -- a stored peer would have been loaded
    have hstored : t.nvs.AllPeers (NoKey X) := by
      rintro j r hr hm rfl
      have hmem := PeerRegistry.storedPeers_of_get hr hm
      have hpeers := h.peers
      rw [PeerRegistry.loadFromEEPROM_stored (List.ne_nil_of_mem hmem)] at hpeers
      rw [← hpeers] at hmem
      exact absurd rfl (hnone _ hmem)
    have hall : t.peers.All (NoKey X) := fun p hp hm => absurd hm (hnone p hp)
    have hboot := bootstrapped_booted h
    exact ⟨⟨hboot.noBootstrap, fun _ => hboot⟩,
      ⟨trivial, fun _ j hj => (h.e2eKeys j hj).elim⟩, fun _ => ⟨hstored, fun _ => ⟨hall, hstored⟩⟩⟩
  | bootHalted => cases hrun
  | ignored hi | ran hi | halted hi => exact absurd rfl hi

/-- **An address that gets no key before the server approves it is delivered only after it was
approved**, whatever frames and commands come in between, and across restarts. -/
theorem delivers_approved {xs : List (Env × Input)} {x : Env × Input}
    (hrun : (Device.step b d (e, .boot)).status = .running)
    (hX : (Device.step b d (e, .boot)).node.peers.find X = none)
    (hxs : Runs.Along (watch b X) (fun st x => AsMaster st.1 x ∧ Keyless b X st x)
      (Device.step b d (e, .boot), false) (xs ++ [x]))
    (hdel : Delivers b
      (Runs.run (watch b X) (Device.step b d (e, .boot), false) xs).1 x X) :
    (Runs.run (watch b X) (Device.step b d (e, .boot), false) xs).2 = true := by
  obtain ⟨hxs, hx, -⟩ := Runs.along_append.1 hxs
  have hw := Runs.run_invariant (I := Watched b X) (watched_boot hrun hX)
    (fun _ _ h hc => h.step hc) hxs
  generalize Runs.run (watch b X) (Device.step b d (e, .boot), false) xs = st at hx hw hdel ⊢
  by_contra ha
  rw [Bool.not_eq_true] at ha
  obtain ⟨hrun, hmaster, ⟨key, m, hopened, ho⟩, -⟩ := hdel
  have hinv := keyless_rule b X
  have hkeeps := hw.keeps hx ha
  obtain ⟨e', i⟩ := x
  -- a frame that is dropped unread opens nothing
  by_cases hread : Reads b st.1 (e', i)
  swap
  · rw [step_of_not_reads hread hrun] at hopened
    cases hopened
  have hreach : i ≠ .boot → ∀ s, ReflTransGen
      (Effect (b.world e') (st.1.inputNode i) i) (st.1.inputNode i) s →
      s.isMaster = true ∧ ∀ keys, ¬KeysFor (b.world e').crypto s X keys := by
    intro hi s hs
    have hwithin : Within b (fun d x => KeepsKeyless b X d x ∧ Reads b d x) st.1 e' i s :=
      ⟨⟨hkeeps, hread⟩, hi, hrun, hs⟩
    have hall := (hinv.invariant.within (hw.keyless ha) hwithin).1
    have hcoh := (cacheCoherent_invariant b fun _ _ => True).within hw.coherent
      ⟨trivial, hi, hrun, hs⟩
    exact ⟨(effects_isMaster hx.1.2.1 hs).trans hmaster, fun keys => not_keysFor hall hcoh⟩
  have hst := stepTo b st.1 e' i
  generalize Device.step b st.1 (e', i) = d' at hst hopened
  cases hst with
  | ignored _ hs => exact hs hrun
  | booted h => cases boot_stepEvents h.frame _ hopened
  | bootHalted hf => cases boot_stepEvents hf _ hopened
  | ran hi _ ht => exact not_opened ht (hreach hi) key m hopened ho
  | halted hi _ ht hu =>
    obtain ⟨es, he, hes⟩ := hu.plain
    rw [Node.stepEvents_append he fun ev hev => Event.isInput_of_isPlain (hes ev hev)] at hopened
    rcases List.mem_append.1 hopened with hm | hm
    · cases hes _ hm
    · exact not_opened ht (hreach hi) key m hm ho

end Device

namespace Sample

/-- The board of a master with a serial adapter. -/
def serialMaster : Board :=
  { masterBoard with config := { config with defaultAdapter := AdapterType.serial } }

/-- A device that was never switched on, but for its role. -/
def futureMaster : Device := Device.blank { masterFlag := some 1 }

/-- The enrollment request of the station 5. -/
def request : Message :=
  { frame 5 MessageType.enrollment 1 1 with enrollmentPublicKey := key 5 }

/-- The acknowledgement with which the server approves the station 5. -/
def approval : Message :=
  { frame 0 MessageType.joinAck 0 0 with targetMac := mac 5, enrollmentPublicKey := key 5 }

/-- A request of the station 5 without a key. -/
def keylessRequest : Message :=
  { frame 5 MessageType.enrollment 1 1 with enrollmentPublicKey := Bytes.zero 32 }

/-- A sealed data frame of the station 5 for the master. -/
def sealedData (seqNum : UInt16) : Message :=
  let m := { frame 5 MessageType.adapterData 1 seqNum with targetMac := mac 7 }
  let kUp := (xor (key 1) (key 5)).map (· + 1)
  { m with data := m.data.map (· ^^^ kUp.head), authTag := tag kUp (buildNonce m) m.data }

end Sample

namespace Device

instance (d : Device) (x : Env × Input) : Decidable (AsMaster d x) :=
  inferInstanceAs (Decidable (_ ∧ _))

instance (X : Mac) (st : Device × Bool) (x : Env × Input) : Decidable (Keyless b X st x) := by
  unfold Keyless
  cases x.2 <;> infer_instance

set_option maxRecDepth 100000 in
/-- The station 5 asks without a key, is approved, asks with a key, and is delivered. -/
theorem delivers_approved_serial :
    (Runs.run (watch Sample.serialMaster (Sample.mac 5))
      (step Sample.serialMaster Sample.futureMaster (Sample.env 1 100, .boot), false)
      [(Sample.env 1 200, .rx (Sample.mac 5) Sample.keylessRequest),
        (Sample.env 1 210, .serial Sample.approval),
        (Sample.env 1 220, .rx (Sample.mac 5) { Sample.request with seqNum := 2 })]).2 = true := by
  refine delivers_approved (X := Sample.mac 5) (x := (Sample.env 1 300, .rx (Sample.mac 5)
    (Sample.sealedData 3))) (by decide +kernel) (by decide +kernel) (by decide +kernel) ?_
  refine ⟨by decide +kernel, by decide +kernel, ⟨(Sample.xor (Sample.key 1) (Sample.key 5)).map
    (· + 1), Sample.sealedData 3, by decide +kernel, by decide⟩, ?_⟩
  exact ⟨{ Sample.sealedData 3 with data := Bytes.zero 64 }, by decide +kernel⟩

set_option maxRecDepth 100000 in
/-- **The station 5 asks with its key, and the server never answers**: its data is delivered. -/
theorem not_delivers_approved_pending :
    let d₀ := step Sample.serialMaster Sample.futureMaster (Sample.env 1 100, .boot)
    let st := Runs.run (watch Sample.serialMaster (Sample.mac 5)) (d₀, false)
      [(Sample.env 1 200, .rx (Sample.mac 5) Sample.request)]
    d₀.status = .running ∧ d₀.node.isMaster = true ∧ d₀.node.peers.find (Sample.mac 5) = none ∧
      Delivers Sample.serialMaster st.1
        (Sample.env 1 300, .rx (Sample.mac 5) (Sample.sealedData 2)) (Sample.mac 5) ∧
      st.2 = false := by
  refine ⟨by decide +kernel, by decide +kernel, by decide +kernel, ?_, by decide +kernel⟩
  refine ⟨by decide +kernel, by decide +kernel, ⟨(Sample.xor (Sample.key 1) (Sample.key 5)).map
    (· + 1), Sample.sealedData 2, by decide +kernel, by decide⟩, ?_⟩
  exact ⟨{ Sample.sealedData 2 with data := Bytes.zero 64 }, by decide +kernel⟩

end Device

end LatticeMesh
