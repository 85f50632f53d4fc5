import LatticeMesh.Counters
import LatticeMesh.PeerKeys
import LatticeMesh.Trust
import LatticeMesh.Lib.FirstHit

/-!
# The master pin

A production leaf is built with the public key and the address of its master.  A join
acknowledgement is checked against the key, which is no secret, and a beacon against the address;
nothing ties the two together.  As long as the acknowledgements that a leaf accepts come from the
pinned address, it believes itself enrolled only with the pinned master.

## Main definitions

* `Pinned` — a master pin is active.
* `PinKey` — the key of the pinned address is unknown or the pinned one.
* `pinHits` — where a registry, or the flash, holds the pinned address.
* `Device.PinState`, `Device.PinFlash` — the invariants of a running and of any leaf.

## Main results

* `Device.pinSound_run` — **if every accepted acknowledgement comes from the pinned address, the
  registry and the enrollment of a leaf agree with the pin.**
* `Device.not_pinSound_forgedAck` — one acknowledgement from elsewhere breaks both.
-/

namespace LatticeMesh

open EffectSpec Relation FirstHit

/-- A master pin is active: production firmware, a station address and a key. -/
structure Pinned (c : Config) : Prop where
  prod : c.devMode = false
  station : c.pinMasterMac ≠ broadcastMac
  keyed : c.pinMasterPubkey.isZero = false

/-- The key of the pinned address is not known yet or the pinned one. -/
def PinKey (c : Config) (mac : Mac) (key : Key) : Prop :=
  mac = c.pinMasterMac → key.isZero = true ∨ key = c.pinMasterPubkey

instance (c : Config) (mac : Mac) (key : Key) : Decidable (PinKey c mac key) :=
  inferInstanceAs (Decidable (_ → _))

/-! ### Where the pinned address is found -/

/-- The peer that a slot holds, if it holds one. -/
def loadSlot : Option PeerRecord → Option PeerInfo
  | some r => if r.mac = broadcastMac then none else some ⟨r.mac, r.publicKey, 0⟩
  | none => none

/-- The key of a peer at the pinned address. -/
def pinKeyOf (c : Config) (p : PeerInfo) : Option Key :=
  if p.mac = c.pinMasterMac then some p.publicKey else none

/-- Where the registry holds the pinned address, and under which key. -/
def PeerRegistry.pinHits (c : Config) (r : PeerRegistry) : ℕ → Option Key :=
  hits (pinKeyOf c) r.peers

/-- Where the flash holds the pinned address, and under which key. -/
def Nvs.pinHits (c : Config) (v : Nvs) : ℕ → Option Key :=
  hits (fun o => (loadSlot o).bind (pinKeyOf c)) v.peer.toList

variable {w : World} {s₀ s t : Node} {i : Input} {c : Config} {r : PeerRegistry} {v : Nvs} {k : Key}

theorem keyOf_eq_findSome? (mac : Mac) (l : List PeerInfo) :
    (l.find? fun p => p.mac = mac).map PeerInfo.publicKey =
      l.findSome? fun p => if p.mac = mac then some p.publicKey else none := by
  induction l with
  | nil => rfl
  | cons p l ih =>
    by_cases hp : p.mac = mac
    · simp [hp]
    · simpa [hp] using ih

/-- A lookup finds the first entry of the pinned address. -/
theorem keyOf_pin_iff : r.keyOf c.pinMasterMac = some k ↔ ∃ p, FirstAt (r.pinHits c) p k := by
  unfold PeerRegistry.keyOf PeerRegistry.find
  rw [keyOf_eq_findSome?]
  exact findSome?_eq_some_iff

/-- The registry and the flash hold the pinned address under the same key, the registry no later
than the flash. -/
def InSync (c : Config) (r : PeerRegistry) (v : Nvs) (k : Key) : Prop :=
  ∃ p q, p ≤ q ∧ FirstAt (r.pinHits c) p k ∧ FirstAt (v.pinHits c) q k

/-- A registry that was loaded is in step with the flash. -/
theorem inSync_loaded {q : ℕ} (hr : r.peers = PeerRegistry.storedPeers v)
    (h : FirstAt (v.pinHits c) q k) : InSync c r v k := by
  obtain ⟨p, hp, hfirst⟩ := h.compact
  refine ⟨p, q, hp, ?_, h⟩
  unfold PeerRegistry.pinHits
  rw [hr]
  exact hfirst

theorem inSync_of_loaded (hr : r.peers = (PeerRegistry.loadFromEEPROM {} c v).peers)
    (hk : r.keyOf c.pinMasterMac = some k) (hz : k.isZero = false) : InSync c r v k := by
  obtain ⟨p, hp⟩ := keyOf_pin_iff.1 hk
  by_cases hnil : PeerRegistry.storedPeers v = []
  · -- the default peers have no keys
    obtain ⟨pi, hpi, rfl⟩ := Option.map_eq_some_iff.1 hk
    have hmem := List.mem_of_find?_eq_some hpi
    rw [hr] at hmem
    rcases PeerRegistry.mem_loadFromEEPROM hmem with hmem | ⟨-, mac, -, rfl⟩
    · rw [hnil] at hmem
      cases hmem
    · cases hz
  · rw [PeerRegistry.loadFromEEPROM_stored hnil] at hr
    unfold PeerRegistry.pinHits at hp
    rw [hr] at hp
    obtain ⟨q, hq, hfirst⟩ := hp.uncompact
    refine ⟨p, q, hq, ?_, hfirst⟩
    unfold PeerRegistry.pinHits
    rw [hr]
    exact hp

/-- A slot of the flash, by its index. -/
theorem Nvs.pinHits_get (j : Fin maxPeers) :
    v.pinHits c j = (loadSlot (v.peer.get j)).bind (pinKeyOf c) := by
  unfold Nvs.pinHits hits
  rw [List.getElem?_eq_getElem (by rw [v.peer.toList_length]; exact j.isLt)]
  rfl

/-- A slot that holds the record of a peer. -/
theorem Nvs.pinHits_of_records (hc : Pinned c) {j : Fin maxPeers} {rec : PeerRecord}
    (hr : r.records j = some rec) (hv : v.peer.get j = some rec) :
    v.pinHits c j = r.pinHits c j := by
  obtain ⟨p, hp, rfl⟩ := Option.map_eq_some_iff.1 hr
  rw [Nvs.pinHits_get, hv]
  unfold PeerRegistry.pinHits hits
  rw [hp]
  unfold loadSlot
  dsimp only
  rw [PeerRecord.mac_encode, PeerRecord.publicKey_encode]
  by_cases hb : p.mac = broadcastMac
  · rw [if_pos hb]
    show none = pinKeyOf c p
    unfold pinKeyOf
    rw [if_neg (by rw [hb]; exact hc.station.symm)]
  · rw [if_neg hb]
    rfl

/-- Up to the pinned address, the slots that were saved agree with the registry. -/
theorem pinHits_saved (hc : Pinned c) {p : ℕ} (hp : FirstAt (r.pinHits c) p k) {j : Fin maxPeers}
    (hj : j.val ≤ p) {old : Option PeerRecord}
    (hs : SlotSaved false (r.records j) old (v.peer.get j)) : v.pinHits c j = r.pinHits c j := by
  have hlt := lt_length_of_hits hp.1
  have hrec : ∃ rec, r.records j = some rec := by
    refine Option.isSome_iff_exists.1 ?_
    unfold PeerRegistry.records
    rw [List.getElem?_eq_getElem (by omega)]
    rfl
  obtain ⟨rec, hr⟩ := hrec
  rw [hr, slotSaved_some, if_neg (by decide)] at hs
  exact Nvs.pinHits_of_records hc hr hs

theorem lt_maxPeers_of_pinHits {p : ℕ} (hp : r.pinHits c p = some k) : p < maxPeers :=
  lt_of_lt_of_le (lt_length_of_hits hp) r.length_le

/-- A registry that was saved is in step with the flash. -/
theorem inSync_saved (hc : Pinned c) (hk : r.keyOf c.pinMasterMac = some k)
    {old : Fin maxPeers → Option PeerRecord}
    (hs : ∀ j, SlotSaved false (r.records j) (old j) (v.peer.get j)) : InSync c r v k := by
  obtain ⟨p, hp⟩ := keyOf_pin_iff.1 hk
  have hlt := lt_maxPeers_of_pinHits hp.1
  have heq : ∀ j ≤ p, v.pinHits c j = r.pinHits c j := fun j hj =>
    pinHits_saved hc hp (j := ⟨j, by omega⟩) hj (hs _)
  refine ⟨p, p, le_rfl, hp, ?_, fun j hj => ?_⟩
  · rw [heq p le_rfl]
    exact hp.1
  · rw [heq j (le_of_lt hj)]
    exact hp.2 j hj

/-- Entries that are replaced by entries which stand for the same leave all hits alone. -/
theorem hits_replaceF {g : PeerInfo → Option Key} {mac : Mac} {f : PeerInfo → PeerInfo}
    {l : List PeerInfo} (h : ∀ p, l.find? (fun p => p.mac = mac) = some p → g (f p) = g p) (j : ℕ) :
    hits g (l.replaceF fun p => if p.mac = mac then some (f p) else none) j = hits g l j := by
  induction l generalizing j with
  | nil => rfl
  | cons p l ih =>
    rw [List.replaceF_cons]
    by_cases hp : p.mac = mac
    · rw [if_pos hp]
      cases j with
      | zero => exact h p (by simp [hp])
      | succ j => rfl
    · rw [if_neg hp]
      cases j with
      | zero => rfl
      | succ j => exact ih (fun q hq => h q (by simpa [hp] using hq)) j

theorem pinHits_touch (mac : Mac) (nowMs : UInt64) (j : ℕ) :
    (r.touch mac nowMs).pinHits c j = r.pinHits c j :=
  hits_replaceF (f := fun p => { p with lastSeenMs := nowMs }) (fun _ _ => rfl) j

/-- A registration that leaves the key of the pinned address alone leaves its place alone. -/
theorem firstAt_register {p : ℕ} (hp : FirstAt (r.pinHits c) p k) {mac : Mac} {key : Key}
    (hkey : mac = c.pinMasterMac → key = k) (nowMs : UInt64) :
    FirstAt ((r.register mac key nowMs).pinHits c) p k := by
  have heq : ∀ j ≤ p, (r.register mac key nowMs).pinHits c j = r.pinHits c j := by
    intro j hj
    unfold PeerRegistry.register
    split
    · refine hits_replaceF (fun q hq => ?_) j
      have hm : q.mac = mac := PeerRegistry.find_mac (r := r) hq
      unfold pinKeyOf
      by_cases hpin : q.mac = c.pinMasterMac
      · have hk : r.keyOf c.pinMasterMac = some k := keyOf_pin_iff.2 ⟨p, hp⟩
        have hq' : r.keyOf mac = some q.publicKey := by
          rw [PeerRegistry.keyOf, show r.find mac = some q from hq]
          rfl
        rw [← hpin, hm, hq'] at hk
        have hmac : mac = c.pinMasterMac := hm.symm.trans hpin
        rw [if_pos hpin, if_pos hpin, hkey hmac, Option.some.inj hk]
      · rw [if_neg hpin, if_neg hpin]
    · unfold PeerRegistry.append
      split
      · exact hits_append_left (lt_of_le_of_lt hj (lt_length_of_hits hp.1))
      · rfl
  refine ⟨?_, fun j hj => ?_⟩
  · rw [heq p le_rfl]
    exact hp.1
  · rw [heq j (le_of_lt hj)]
    exact hp.2 j hj

/-- A registration that was saved in part leaves the pinned address in flash. -/
theorem pinHits_savedBelow (hc : Pinned c) {u : Nvs} (h : InSync c r v k) {mac : Mac} {key : Key}
    {nowMs : UInt64} (hkey : mac = c.pinMasterMac → key = k) {n : ℕ}
    (hs : ∀ j : Fin maxPeers, if j.val < n then
      SlotSaved false ((r.register mac key nowMs).records j) (v.peer.get j) (u.peer.get j)
      else u.peer.get j = v.peer.get j) : ∃ q, FirstAt (u.pinHits c) q k := by
  obtain ⟨p, q, hpq, hp, hq⟩ := h
  have hnew := firstAt_register hp hkey nowMs
  have hlt := lt_maxPeers_of_pinHits hp.1
  refine hnew.overwrite hq hpq (n := n) (fun j hj hjp => ?_) fun j hj => ?_
  · have hslot := hs ⟨j, by omega⟩
    rw [if_pos hj] at hslot
    exact pinHits_saved hc hnew (j := ⟨j, by omega⟩) hjp hslot
  · by_cases hjm : j < maxPeers
    · have hslot := hs ⟨j, hjm⟩
      rw [if_neg (not_lt.2 hj)] at hslot
      have hu := Nvs.pinHits_get (c := c) (v := u) ⟨j, hjm⟩
      have hv := Nvs.pinHits_get (c := c) (v := v) ⟨j, hjm⟩
      rw [hslot] at hu
      exact hu.trans hv.symm
    · unfold Nvs.pinHits hits
      rw [List.getElem?_eq_none (by rw [u.peer.toList_length]; omega),
        List.getElem?_eq_none (by rw [v.peer.toList_length]; omega)]

/-! ### Steps of a leaf -/

namespace Device

/-- The step is one of a leaf that keeps its role and its flash. -/
def AsLeaf (d : Device) (x : Env × Input) : Prop :=
  (d.status = .running → d.node.isMaster = false) ∧ x.2 ≠ .configButton ∧ x.2 ≠ .resetButton

/-- A first boot reads no other key for the pinned address, and an acknowledgement that the leaf
reads and accepts comes from there, unless it changes nothing or comes too late. -/
def PinKept (b : Board) (d : Device) (x : Env × Input) : Prop :=
  match x.2 with
  | .boot => bootstraps b.config d.node.nvs = true →
      ∀ j, ∀ r ∈ b.config.defaultRecords j, PinKey b.config r.mac r.publicKey
  | .rx _ m => d.status = .running → passesChecks (b.world x.1) d.node m = true →
      m.messageType = MessageType.joinAck → m.targetMac = d.node.deviceMac →
      joinAckAccepted b.config d.node.enrollment m = true →
        m.originMac = b.config.pinMasterMac ∨ d.node.peers.Refuses m.originMac ∨
          d.node.peers.keyOf b.config.pinMasterMac = some b.config.pinMasterPubkey
  | _ => True

/-- The registry and the enrollment of a node agree with the pin. -/
def PinSound (c : Config) (s : Node) : Prop :=
  (∀ p ∈ s.peers.peers, p.mac = c.pinMasterMac →
    p.publicKey.isZero = true ∨ p.publicKey = c.pinMasterPubkey) ∧
    (s.enrollment.enrolled = true → s.peers.keyOf c.pinMasterMac = some c.pinMasterPubkey)

/-- A step of a leaf that keeps the pin, in which it reads what it receives. -/
abbrev KeepsPin (b : Board) (d : Device) (x : Env × Input) : Prop :=
  (AsLeaf d x ∧ PinKept b d x) ∧ Reads b d x

variable {b : Board} {d : Device} {e : Env} {m : Message}

/-- What an accepted acknowledgement leaves of the pin. -/
theorem accepted_pin {t : Node} (hw : Within b (KeepsPin b) d e i t)
    (ha : AcceptsJoinAck (b.world e) i t m) (ho : OriginRegistered t m) :
    m.originMac = b.config.pinMasterMac ∨
      d.node.peers.keyOf b.config.pinMasterMac = some b.config.pinMasterPubkey := by
  obtain ⟨⟨srcMac, rfl⟩, ht, -, hto, hacc⟩ := ha.atStart hw.reached
  have hread := hw.admissible.2 srcMac m rfl
  rcases hw.admissible.1.2 hw.running hread ht hto hacc with h | h | h
  · exact .inl h
  · have h' : (d.inputNode (.rx srcMac m)).peers.Refuses m.originMac := h
    have hfull := effects_refuses hw.reached h'
    have hsome := ho.1
    rw [hfull.1] at hsome
    cases hsome
  · exact .inr h

/-- The key in an accepted acknowledgement is the pinned one. -/
theorem accepted_key (hc : Pinned b.config) {t : Node} (ha : AcceptsJoinAck (b.world e) i t m) :
    m.enrollmentPublicKey = b.config.pinMasterPubkey := by
  have hacc : joinAckAccepted b.config t.enrollment m = true := ha.2.2.2.2
  simp only [joinAckAccepted, hc.prod, Bool.and_eq_true, Bool.false_or, decide_eq_true_eq] at hacc
  exact hacc.1.2

theorem keyEstablished_of_keyOf {mac : Mac} (hk : r.keyOf mac = some k) (hz : k.isZero = false) :
    r.keyEstablished mac = true := by
  rw [PeerRegistry.keyEstablished_eq, hk]
  simp [hz]

/-- No registration gives the pinned address another key. -/
theorem pinKey_rule (hc : Pinned b.config) : PeerRule b (KeepsPin b) (PinKey b.config) where
  register d e i t hw hs mac key h _ hmac := by
    obtain ⟨⟨⟨hleaf, hconfig, -⟩, -⟩, -⟩ := hw.admissible
    cases h with
    | enrollment _ _ hm =>
      rw [effects_isMaster hconfig hw.reached, show (d.inputNode i).isMaster = false from
        hleaf hw.running] at hm
      cases hm
    | joinAck ha => exact .inr (accepted_key hc ha)
    | @secondary m ha ho _ hk =>
      -- the pinned address is established already
      exfalso
      rw [hmac] at hk
      have hest : t.peers.keyEstablished b.config.pinMasterMac = true := by
        rcases accepted_pin hw ha ho with h | h
        · rw [← h]
          exact ho.2 (by rw [accepted_key hc ha]; exact hc.keyed)
        · exact effects_keyEstablished hw.reached (keyEstablished_of_keyOf h hc.keyed)
      rw [hk] at hest
      cases hest
    | approved _ _ _ hp =>
      exact hs _ (List.mem_of_find?_eq_some hp) ((PeerRegistry.find_mac hp).trans hmac)
  bootstrap d e hadm hb j r hr _ := hadm.1.2 hb j r hr
  default _ _ _ := .inl rfl

/-! ### The invariant -/

/-- A flash that says the node is enrolled holds the pinned master. -/
structure PinFlash (c : Config) (v : Nvs) : Prop where
  production : bootsInDevMode c v = false
  peers : v.AllPeers (PinKey c)
  enrolled : Nvs.flag v.enrolledFlag = true → ∃ q, FirstAt (v.pinHits c) q c.pinMasterPubkey

/-- A running node that is enrolled knows the pinned master, and its flash is in step. -/
structure PinState (c : Config) (s : Node) : Prop where
  isDevMode : s.eeprom.isDevMode = false
  production : bootsInDevMode c s.nvs = false
  peers : s.peers.All (PinKey c) ∧ s.nvs.AllPeers (PinKey c)
  sync : s.peers.keyOf c.pinMasterMac = some c.pinMasterPubkey →
    InSync c s.peers s.nvs c.pinMasterPubkey
  enrolled : s.enrollment.enrolled = true ∨ Nvs.flag s.nvs.enrolledFlag = true →
    s.peers.keyOf c.pinMasterMac = some c.pinMasterPubkey

theorem PinState.flash (h : PinState c s) : PinFlash c s.nvs := by
  refine ⟨h.production, h.peers.2, fun hflag => ?_⟩
  obtain ⟨p, q, -, -, hq⟩ := h.sync (h.enrolled (.inr hflag))
  exact ⟨q, hq⟩

/-- A boot from a flash that holds the pinned master leaves the stored peers alone. -/
theorem peer_of_bootFrame {s₀ u : Node} (hf : BootFrame c s₀ u) {q : ℕ}
    (hq : FirstAt (s₀.nvs.pinHits c) q k) : u.nvs.peer = s₀.nvs.peer := by
  have hno : bootstraps c s₀.nvs = false := by
    have hlt := lt_length_of_hits hq.1
    rw [List.Vector.toList_length] at hlt
    have hget := Nvs.pinHits_get (c := c) (v := s₀.nvs) ⟨q, hlt⟩
    cases hr : s₀.nvs.peer.get ⟨q, hlt⟩ with
    | none =>
      rw [hr] at hget
      cases hget.symm.trans hq.1
    | some rec =>
      unfold bootstraps
      rw [Nvs.hasPeers_of_get hr]
      simp
  refine List.Vector.ext fun j => ?_
  rcases hf.nvs.peer j with hj | ⟨hb, -⟩
  · exact hj
  · rw [hno] at hb
    cases hb

theorem pinHits_congr {v' : Nvs} (h : v'.peer = v.peer) : v'.pinHits c = v.pinHits c := by
  unfold Nvs.pinHits
  rw [h]

/-- The flash after any part of a boot. -/
theorem pinFlash_bootFrame (hc : Pinned b.config) (hadm : KeepsPin b d (e, .boot))
    (hd : PinFlash b.config d.node.nvs) {u : Node} (hf : BootFrame b.config (d.bootNode b) u) :
    PinFlash b.config u.nvs := by
  refine ⟨(bootsInDevMode_congr hf.nvs.devFlag).trans hd.production,
    (pinKey_rule hc).bootNvs hadm hd.peers hf, fun hflag => ?_⟩
  rw [hf.nvs.enrolledFlag] at hflag
  obtain ⟨q, hq⟩ := hd.enrolled hflag
  refine ⟨q, ?_⟩
  rw [pinHits_congr (peer_of_bootFrame hf hq)]
  exact hq

theorem pinState_booted (hc : Pinned b.config) (hadm : KeepsPin b d (e, .boot))
    (hd : PinFlash b.config d.node.nvs) {t : Node} (h : Booted (b.world e) (d.bootNode b) t) :
    PinState b.config t := by
  have hflash := pinFlash_bootFrame hc hadm hd h.frame
  have hpeers : t.peers.peers = (PeerRegistry.loadFromEEPROM {} b.config t.nvs).peers := h.peers
  refine ⟨h.isDevMode.trans hd.production, hflash.production, ⟨?_, hflash.peers⟩,
    fun hk => inSync_of_loaded hpeers hk hc.keyed, fun hen => ?_⟩
  · intro p hp
    rw [hpeers] at hp
    exact (pinKey_rule hc).loaded hflash.peers p hp
  · have hflag : Nvs.flag t.nvs.enrolledFlag = true := by
      rcases hen with hen | hen
      · rw [h.enrolled] at hen
        rwa [h.frame.nvs.enrolledFlag]
      · exact hen
    obtain ⟨q, hq⟩ := hflash.enrolled hflag
    obtain ⟨p, -, hp⟩ := hq.compact
    have hne : PeerRegistry.storedPeers t.nvs ≠ [] := by
      intro hnil
      refine not_firstAt_nil (g := pinKeyOf b.config) (p := p) (k := b.config.pinMasterPubkey) ?_
      rw [← hnil]
      exact hp
    rw [PeerRegistry.loadFromEEPROM_stored hne] at hpeers
    obtain ⟨p, -, -, hfirst, -⟩ := inSync_loaded hpeers hq
    exact keyOf_pin_iff.2 ⟨p, hfirst⟩

/-- A change keeps memory and flash in step. -/
theorem pinSync_change (hc : Pinned c) (hd : s.eeprom.isDevMode = false)
    (hsync : s.peers.keyOf c.pinMasterMac = some c.pinMasterPubkey →
      InSync c s.peers s.nvs c.pinMasterPubkey)
    (h : PeerChange w i s t) (hi : i ≠ .resetButton)
    (hk : t.peers.keyOf c.pinMasterMac = some c.pinMasterPubkey) :
    InSync c t.peers t.nvs c.pinMasterPubkey := by
  cases h with
  | same hp hn =>
    rw [hp] at hk ⊢
    obtain ⟨p, q, hpq, hfirst, hflash⟩ := hsync hk
    exact ⟨p, q, hpq, hfirst, pinHits_congr hn ▸ hflash⟩
  | @touched mac nowMs hp hn =>
    rw [hp, PeerRegistry.keyOf_touch] at hk
    obtain ⟨p, q, hpq, hfirst, hflash⟩ := hsync hk
    have heq : t.peers.pinHits c = s.peers.pinHits c := by
      rw [hp]
      exact funext (pinHits_touch mac nowMs)
    exact ⟨p, q, hpq, heq ▸ hfirst, pinHits_congr hn ▸ hflash⟩
  | wiped hi' => exact absurd hi' hi
  | registered _ _ _ hs =>
    rw [hd] at hs
    exact inSync_saved hc hk hs

/-- An enrollment rests on the pinned master. -/
theorem keyOf_mayEnroll (hc : Pinned b.config) {t : Node} (hw : Within b (KeepsPin b) d e i t)
    (hs : t.peers.All (PinKey b.config)) (h : MayEnroll (b.world e) i t) :
    t.peers.keyOf b.config.pinMasterMac = some b.config.pinMasterPubkey := by
  obtain ⟨m, ha, ho⟩ := h
  rcases accepted_pin hw ha ho with hpin | hkey
  · have hest := ho.2 (by rw [accepted_key hc ha]; exact hc.keyed)
    rw [hpin, PeerRegistry.keyEstablished_eq] at hest
    cases hk : t.peers.keyOf b.config.pinMasterMac with
    | none => rw [hk] at hest; cases hest
    | some k =>
      rw [hk] at hest
      rcases hs.keyOf hk rfl with hz | rfl
      · simp [hz] at hest
      · rfl
  · exact effects_keyOf hw.reached hkey hc.keyed

theorem pinState_effect (hc : Pinned b.config) {s t : Node} (hw : Within b (KeepsPin b) d e i s)
    (hs : PinState b.config s) (h : Effect (b.world e) (d.inputNode i) i s t) :
    PinState b.config t := by
  have hreset := hw.admissible.1.1.2.2
  have hkeep : s.peers.keyOf b.config.pinMasterMac = some b.config.pinMasterPubkey →
      t.peers.keyOf b.config.pinMasterMac = some b.config.pinMasterPubkey := fun hk =>
    h.peerChange.keyOf hk hc.keyed
  refine ⟨h.sameDevice.isDevMode.trans hs.isDevMode,
    (bootsInDevMode_congr (h.devFlag hreset)).trans hs.production,
    h.peerChange.all hs.peers.1 hs.peers.2 ((pinKey_rule hc).register d e i s hw hs.peers.1),
    pinSync_change hc hs.isDevMode hs.sync h.peerChange hreset, fun hen => hkeep ?_⟩
  cases h.trustChange with
  | same ht =>
    rw [ht.enrolled, ht.storedEnrolled] at hen
    exact hs.enrolled hen
  | wiped hi => exact absurd hi hreset
  | learned _ _ _ he _ hn =>
    rw [he, hn] at hen
    exact hs.enrolled hen
  | enrolled he => exact keyOf_mayEnroll hc hw hs.peers.1 he

theorem pinFlash_stop (hc : Pinned b.config) {s u : Node} {h : Halt}
    (hw : Within b (KeepsPin b) d e i s) (hs : PinState b.config s)
    (hu : Stop (b.world e) (d.inputNode i) i h s u) : PinFlash b.config u.nvs := by
  have hn := hu.nvs_eq
  refine ⟨?_, hu.allPeers hs.peers.1 hs.peers.2 ((pinKey_rule hc).register d e i s hw hs.peers.1),
    fun hflag => ?_⟩
  · rw [← hs.production]
    exact bootsInDevMode_congr (by rw [hn])
  · rw [hn] at hflag
    have hsync := hs.sync (hs.enrolled (.inr hflag))
    cases hu with
    | display _ _ ha | nvs _ ha =>
      rw [ha.nvs]
      obtain ⟨p, q, -, -, hq⟩ := hsync
      exact ⟨q, hq⟩
    | @register _ _ _ mac key _ k hmr _ _ _ hslot =>
      rw [hs.isDevMode] at hslot
      obtain ⟨p, q, -, hp, -⟩ := hsync
      refine pinHits_savedBelow hc (hs.sync (keyOf_pin_iff.2 ⟨p, hp⟩)) (fun hmac => ?_) hslot
      exact hmr.key_eq (hmac ▸ keyOf_pin_iff.2 ⟨p, hp⟩) hc.keyed
    | _ =>
      obtain ⟨p, q, -, -, hq⟩ := hsync
      exact ⟨q, hq⟩

theorem pin_invariant (hc : Pinned b.config) :
    Invariant b (KeepsPin b) (PinState b.config) fun s => PinFlash b.config s.nvs where
  weaken _ h := h.flash
  boot _ _ _ hadm hd h := pinState_booted hc hadm hd h
  bootHalt _ _ _ hadm hd hf := pinFlash_bootFrame hc hadm hd hf
  input _ _ _ _ _ h := ⟨h.isDevMode, h.production, h.peers, h.sync, h.enrolled⟩
  effect _ _ _ _ _ hw hs h := pinState_effect hc hw hs h
  stop _ _ _ _ _ _ hw hs hu := pinFlash_stop hc hw hs hu

/-- **As long as the acknowledgements that a leaf accepts come from the pinned master**, its
registry and its enrollment agree with the pin, whatever else it receives and across restarts. -/
theorem pinSound_run {xs : List (Env × Input)} (hc : Pinned b.config)
    (hxs : Runs.Along (step b) (fun d x => AsLeaf d x ∧ PinKept b d x) (blank {}) xs)
    (hrun : (run b (blank {}) xs).status = .running) :
    PinSound b.config (run b (blank {}) xs).node := by
  have hblank : PinFlash b.config {} := by
    refine ⟨?_, Nvs.allPeers_blank, fun h => by cases h⟩
    unfold bootsInDevMode
    rw [hc.prod]
    rfl
  -- a frame that the leaf does not read leaves registry, enrollment and flash alone
  have hinput : ∀ s i, PinState b.config s → PinState b.config (Node.emit s (.input i)) :=
    fun _ _ h => ⟨h.isDevMode, h.production, h.peers, h.sync, h.enrolled⟩
  have hmeets : (run b (blank {}) xs).Meets _ _ :=
    (pin_invariant hc).run_reads hinput (meets_blank hblank) hxs
  have hs := hmeets.2 hrun
  exact ⟨hs.peers.1, fun hen => hs.enrolled (.inl hen)⟩

end Device

namespace Sample

/-- An acknowledgement of the station 9 under the pinned key, which names the pinned address as the
secondary master, under another key. -/
def forgedAck : Message :=
  { frame 9 MessageType.joinAck 1 1 with
    targetMac := mac 1, data := joinAckData (key 1) (some (mac 7, key 8))
    enrollmentPublicKey := key 7 }

theorem pinned : Pinned config := ⟨rfl, by decide, by decide⟩

end Sample

namespace Device

instance (d : Device) (x : Env × Input) : Decidable (AsLeaf d x) :=
  inferInstanceAs (Decidable (_ ∧ _))

instance (b : Board) (d : Device) : ∀ x : Env × Input, Decidable (PinKept b d x)
  | (_, .boot) | (_, .rx ..) => inferInstanceAs (Decidable (_ → _))
  | (_, .transmit ..) | (_, .transmitSelfOriginated ..) | (_, .loop) | (_, .checkMasterTimeout)
  | (_, .tickEnrollmentBroadcast) | (_, .serial _) | (_, .configButton) | (_, .resetButton) =>
    inferInstanceAs (Decidable True)

set_option maxRecDepth 100000 in
/-- The leaf that the pinned master admits. -/
theorem pinSound_admitted :
    PinSound Sample.board.config (run Sample.board (blank {}) Sample.admitted).node :=
  pinSound_run Sample.pinned (by decide +kernel) (by decide +kernel)

set_option maxRecDepth 100000 in
/-- **One acknowledgement from elsewhere** registers the pinned address under another key, and the
leaf believes itself enrolled. -/
theorem not_pinSound_forgedAck :
    let xs := [(Sample.env 1 100, .boot), (Sample.env 1 200, .rx (Sample.mac 9) Sample.forgedAck)]
    let d := run Sample.board (blank {}) xs
    Pinned Sample.board.config ∧ Runs.Along (step Sample.board) AsLeaf (blank {}) xs ∧
      d.status = .running ∧ ¬PinSound Sample.board.config d.node ∧
      (∃ p ∈ d.node.peers.peers, p.mac = Sample.mac 7 ∧ p.publicKey = Sample.key 8) ∧
      d.node.enrollment.enrolled = true := by
  refine ⟨Sample.pinned, by decide +kernel, by decide +kernel, fun h => ?_, by decide +kernel,
    by decide +kernel⟩
  have hkey := h.2 (by decide +kernel)
  revert hkey
  decide +kernel

end Device

end LatticeMesh
