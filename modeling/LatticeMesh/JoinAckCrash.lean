import LatticeMesh.PeerKeys
import LatticeMesh.PeerMirror

/-!
# Loss of power while a leaf is admitted

A join acknowledgement registers its sender, stores the enrolled flag and the master, and registers
the secondary master.  The power can be lost after each of these writes, and the enrolled flag must
never be stored without a peer to send to.

## Main definitions

* `Through` — the flash is what the events say, and it meets a property after each of them.
* `Nvs.HasRecord` — a record of an address is stored.
* `Node.KeysStored` — the established keys are stored, each no earlier than its peer is listed.
* `Device.Visits` — the states that a device goes through.
* `joinAckTaken`, `JoinAckAtomic` — which acknowledgements are taken, and what each of them does.

## Main results

* `keysStored_of_visits` — the established keys are stored in every state of a production device.
* `processJoinAck_refused`, `wp_processJoinAck` — an acknowledgement that is refused or taken.
* `processJoinAck_atomic` — **an acknowledgement is taken as a whole or not at all**, and the
  enrolled flag is stored behind the sender.
-/

namespace LatticeMesh

open EffectSpec Relation

variable {w : World} {s t u : Node} {A : Event → Prop} {P : Nvs → Prop}

/-! ### The flash along a program -/

/-- From `s` to `t` every event meets `A`, the flash is what the events say, and it meets `P` after
each of them. -/
def Through (A : Event → Prop) (P : Nvs → Prop) (s t : Node) : Prop :=
  ∃ es, t.trace = es ++ s.trace ∧ t.nvs = flashAfter es s.nvs ∧ (∀ e ∈ es, A e) ∧
    ∀ us, us <:+ es → P (flashAfter us s.nvs)

namespace Through

theorem refl (h : P s.nvs) : Through A P s s := by
  refine ⟨[], rfl, rfl, by simp, fun us hus => ?_⟩
  rw [List.suffix_nil.1 hus]
  exact h

/-- What comes before the events `es'` comes before all of them, or behind some of them. -/
theorem suffix_append {us es es' : List Event} (h : us <:+ es' ++ es) :
    us <:+ es ∨ ∃ vs, vs <:+ es' ∧ us = vs ++ es := by
  obtain ⟨pre, hpre⟩ := h
  rcases List.append_eq_append_iff.1 hpre with ⟨vs, hvs, hus⟩ | ⟨vs, hvs, hes⟩
  · exact .inr ⟨vs, ⟨pre, hvs.symm⟩, hus⟩
  · exact .inl ⟨vs, hes.symm⟩

theorem trans (h : Through A P s t) (h' : Through A P t u) : Through A P s u := by
  obtain ⟨es, ht, hn, hA, hP⟩ := h
  obtain ⟨es', ht', hn', hA', hP'⟩ := h'
  refine ⟨es' ++ es, ?_, ?_, fun e he => ?_, fun us hus => ?_⟩
  · rw [ht', ht, List.append_assoc]
  · rw [hn', hn, flashAfter_append]
  · exact (List.mem_append.1 he).elim (hA' e) (hA e)
  · rcases suffix_append hus with hus | ⟨vs, hvs, rfl⟩
    · exact hP us hus
    · rw [flashAfter_append, ← hn]
      exact hP' vs hvs

/-- One event. -/
theorem one {e : Event} (ht : t.trace = e :: s.trace) (hn : t.nvs = e.onFlash s.nvs) (he : A e)
    (hs : P s.nvs) (hp : P (e.onFlash s.nvs)) : Through A P s t := by
  refine ⟨[e], ht, hn, by simpa using he, fun us hus => ?_⟩
  rcases List.suffix_cons_iff.1 hus with rfl | hus
  · exact hp
  · rw [List.suffix_nil.1 hus]
    exact hs

/-- Fields that are neither the flash nor the history do not count. -/
theorem congr (h : Through A P s t) (ht : u.trace = t.trace) (hn : u.nvs = t.nvs) :
    Through A P s u := by
  obtain ⟨es, he, hf, hrest⟩ := h
  exact ⟨es, ht.trans he, hn.trans hf, hrest⟩

theorem mono {A' : Event → Prop} {P' : Nvs → Prop} (h : Through A P s t) (hA : ∀ e, A e → A' e)
    (hP : ∀ v, P v → P' v) : Through A' P' s t := by
  obtain ⟨es, ht, hn, hes, hflash⟩ := h
  exact ⟨es, ht, hn, fun e he => hA e (hes e he), fun us hus => hP _ (hflash us hus)⟩

theorem last (h : Through A P s t) : P t.nvs := by
  obtain ⟨es, -, hn, -, hP⟩ := h
  rw [hn]
  exact hP es (List.suffix_refl es)

end Through

/-- A program that writes nothing. -/
theorem NoWrite.through (h : NoWrite s t) (hA : ∀ e, Event.isWrite e = false → A e) (hs : P s.nvs) :
    Through A P s t := by
  obtain ⟨es, ht, hes⟩ := h.trace
  refine ⟨es, ht, ?_, fun e he => hA e (hes e he), fun us hus => ?_⟩
  · rw [h.nvs, flashAfter_of_no_write hes]
  · rw [flashAfter_of_no_write fun e he => hes e (hus.subset he)]
    exact hs

/-- The events before a loss of power are some of the events of the program. -/
theorem crashEvents_suffix {α : Type} {x : MeshM α} {es : List Event} (k : ℕ)
    (h : (Calls.final (x s)).trace = es ++ s.trace) : crashEvents x s k <:+ es := by
  unfold crashEvents
  rw [eventsOf_eq h]
  exact List.drop_suffix _ _

/-! ### Why a program halts -/

/-- A program may only halt because a write to the flash fails or the display is dead. -/
def Excused (w : World) (h : Halt) : Prop :=
  h = .failRestart ∧ ((∃ op, w.nvsOk op = false) ∨
    w.config.enableSevsegDisplay = true ∧ w.displayAck = false)

/-- The program writes nothing, and it halts only for a reason. -/
abbrev Harmless {α : Type} (w : World) (x : MeshM α) : Prop :=
  ∀ s, wp x (fun _ t => NoWrite s t) (fun h t => NoWrite s t ∧ Excused w h) s

theorem noWrite_emit {e : Event} (h : e.isWrite = false) : NoWrite s (s.emit e) :=
  ⟨rfl, rfl, rfl, rfl, [e], rfl, by simpa using h⟩

/-- A report of an error that does not restart the device, or of a failed write. -/
theorem harmless_fail {ty : ErrorTypeDigit} {m : ModuleDigit} {sub : ℕ} {text : String}
    (h : ty.restarts = true → ∃ op, w.nvsOk op = false) : Harmless w (fail w ty m sub text) := by
  intro s
  have hone : NoWrite s (s.emit (.errFail ty m sub text)) := noWrite_emit rfl
  refine wp_signalError (fun he hd => ⟨hone.trans (noWrite_emit rfl), rfl, .inr ⟨he, hd⟩⟩)
    (fun hr => ⟨hone, rfl, .inl (h hr)⟩) fun _ => hone

theorem harmless_enrollPeerWithRadio (mac : Mac) : Harmless w (enrollPeerWithRadio w mac) := by
  intro s
  unfold enrollPeerWithRadio espNowDelPeer registerPeerWithEspNow
  rw [wp_bind, wp_modify, wp_bind, wp_get]
  have hdel : NoWrite s { s with radioPeers := s.radioPeers.filter (· ≠ mac) } :=
    ⟨rfl, rfl, rfl, rfl, [], rfl, by simp⟩
  split
  · exact hdel
  split
  · exact ⟨rfl, rfl, rfl, rfl, [], rfl, by simp⟩
  · unfold checkEsp
    rw [if_neg (by simp)]
    exact wp_mono _ (fun _ _ h => hdel.trans h) (fun _ _ h => ⟨hdel.trans h.1, h.2⟩)
      (harmless_fail (fun h => by cases h) _)

/-! ### Saving the registry -/

/-- The events of a registration: writes of peers, and reports. -/
def Event.isRegistration (e : Event) : Prop := e.isWrite = false ∨ e.isPeerWrite = true

/-- What a save keeps from slot to slot: `J k` once the slots below `k` are saved, and `P` all
along. -/
structure SaveInvariant (records : Fin maxPeers → Option PeerRecord) (J : ℕ → Nvs → Prop)
    (P : Nvs → Prop) : Prop where
  holds : ∀ k v, J k v → P v
  write : ∀ (k : Fin maxPeers) v, J k v → J (k + 1) { v with peer := v.peer.set k (records k) }
  skip : ∀ (k : Fin maxPeers) v, records k = none → J k v → J (k + 1) v

/-- From `s` to `t` some slots were saved. -/
structure SlotsOnly (P : Nvs → Prop) (s t : Node) : Prop where
  through : Through Event.isRegistration P s t
  rest : t = { s with nvs := t.nvs, trace := t.trace }

/-- One slot is written. -/
theorem SlotsOnly.write {e : Event} {op : NvsOp} (h : SlotsOnly P s t) (he : e = .nvs op)
    (hw : e.isPeerWrite = true) (hp : P (op.apply t.nvs)) :
    SlotsOnly P s ({ t with nvs := op.apply t.nvs }.emit e) := by
  subst he
  refine ⟨h.through.trans (.one rfl rfl (.inr hw) h.through.last hp), ?_⟩
  conv_lhs => rw [h.rest]
  rfl

/-- Where a registration halts, and why. -/
def RegisterHalts (w : World) (P : Nvs → Prop) (s : Node) (h : Halt) (t : Node) : Prop :=
  (Through Event.isRegistration P s t ∧ t.enrollment = s.enrollment) ∧ Excused w h

/-- A save in production, slot after slot. -/
theorem slotsOnly_writePeerSlots {records : Fin maxPeers → Option PeerRecord} {J : ℕ → Nvs → Prop}
    (hd : s.eeprom.isDevMode = false) (hJ : SaveInvariant records J P) (h0 : J 0 s.nvs) :
    wp (writePeerSlots w records) (fun _ t => SlotsOnly P s t ∧ J maxPeers t.nvs)
      (RegisterHalts w P s) s := by
  -- after `k` slots, `J k` holds of the flash
  refine wp_finRange_forM (I := fun k t => SlotsOnly P s t ∧ J k t.nvs)
    ⟨⟨.refl (hJ.holds 0 _ h0), rfl⟩, h0⟩ fun k t ht => ?_
  obtain ⟨ht, hk⟩ := ht
  have hdev : ¬t.eeprom.isDevMode = true := by
    rw [ht.rest]
    simpa using hd
  have happly := hJ.write k t.nvs hk
  cases hr : records k with
  | some r =>
    dsimp only
    unfold savePeerRecord nvsSave nvsPut
    rw [wp_bind, wp_get, if_neg hdev]
    rw [hr] at happly
    split
    · rw [wp_bind, wp_modify, wp_emit]
      exact ⟨ht.write rfl rfl (hJ.holds _ _ happly), happly⟩
    -- a write that fails restarts the node, and the flash stays as it is
    · rename_i hno
      rw [if_pos rfl]
      refine wp_mono _ (fun _ _ _ => ?_) (fun h u hu => ?_)
        (wp_and _ (harmless_fail (fun _ => ⟨_, by simpa using hno⟩) t)
          (wp_fail_restart (Q := fun _ _ => False) (E := fun _ _ => True) rfl fun _ _ => trivial))
      · rename_i hfalse
        exact hfalse.2.elim
      · obtain ⟨⟨hnw, hex⟩, -⟩ := hu
        refine ⟨⟨ht.through.trans (hnw.through (fun _ he => .inl he) (hJ.holds _ _ hk)), ?_⟩, hex⟩
        rw [hnw.enrollment, ht.rest]
  | none =>
    dsimp only
    unfold erasePeerRecord nvsPut
    rw [hr] at happly
    split
    · rw [wp_bind, wp_modify, wp_emit]
      exact ⟨ht.write rfl rfl (hJ.holds _ _ happly), happly⟩
    · exact ⟨ht, hJ.skip k t.nvs hr hk⟩

/-- Where a registration ends: what it does to the registry, and what it stores. -/
structure RegisterEnds (w : World) (s : Node) (mac : Mac) (key : Key) (J : ℕ → Nvs → Prop)
    (P : Nvs → Prop) (r : Bool) (t : Node) : Prop where
  through : Through Event.isRegistration P s t
  enrollment : t.enrollment = s.enrollment
  eeprom : t.eeprom = s.eeprom
  peers : t.peers = s.peers.registered mac key false w.nowMs
  result : r = ((s.peers.find mac).isSome || s.peers.count < maxPeers)
  stored : s.peers.stores mac false = true → J maxPeers t.nvs
  kept : s.peers.stores mac false = false → t.nvs = s.nvs

/-- A registration over the air, in production. -/
theorem wp_registerPeerWithKey_through {mac : Mac} {key : Key} {J : ℕ → Nvs → Prop}
    (hd : s.eeprom.isDevMode = false) (h0 : P s.nvs)
    (hJ : s.peers.stores mac false = true →
      SaveInvariant (s.peers.register mac key w.nowMs).records J P ∧ J 0 s.nvs) :
    wp (registerPeerWithKey w mac key false) (RegisterEnds w s mac key J P)
      (RegisterHalts w P s) s := by
  -- the key is stored: the registry is saved, and then the radio takes the address
  refine wp_registration (fun hs => ?_) fun hno => ?_
  · obtain ⟨hinv, hstart⟩ := hJ hs
    set r := s.peers.registered mac key false w.nowMs with hr
    rw [← show r = s.peers.register mac key w.nowMs from if_pos hs] at hinv
    unfold saveToEEPROM
    rw [wp_bind, wp_bind, wp_get]
    refine wp_mono _ (fun _ t ht => ?_) (fun _ _ h => h)
      (slotsOnly_writePeerSlots (s := { s with peers := r }) hd hinv hstart)
    obtain ⟨ht, hend⟩ := ht
    have hthrough : Through Event.isRegistration P s t := ht.through
    rw [wp_bind]
    refine wp_mono _ (fun _ u hu => ?_) (fun h u hu => ?_) (harmless_enrollPeerWithRadio mac t)
    · refine ⟨hthrough.trans (hu.through (fun _ he => .inl he) hthrough.last),
        ?_, ?_, ?_, ?_, ?_, ?_⟩
      · rw [hu.enrollment, ht.rest]
      · rw [hu.eeprom, ht.rest]
      · rw [hu.peers, ht.rest]
      · simp only [PeerRegistry.stores, Bool.and_eq_true] at hs
        exact hs.2.symm
      · intro _
        rw [hu.nvs]
        exact hend
      · intro hno
        rw [hs] at hno
        cases hno
    · refine ⟨⟨hthrough.trans (hu.1.through (fun _ he => .inl he) hthrough.last), ?_⟩, hu.2⟩
      rw [hu.1.enrollment, ht.rest]
  -- the key is not stored: nothing is written
  · refine ⟨(Through.refl h0).congr rfl rfl, rfl, rfl, rfl, rfl, fun h => ?_, fun _ => rfl⟩
    rw [hno] at h
    cases h

/-! ### Stored addresses -/

/-- The slot `j` holds a record of the address. -/
def Nvs.SlotHolds (v : Nvs) (j : Fin maxPeers) (mac : Mac) : Prop :=
  ∃ r, v.peer.get j = some r ∧ r.mac = mac

/-- A record of the address is stored. -/
def Nvs.HasRecord (v : Nvs) (mac : Mac) : Prop := ∃ j, v.SlotHolds j mac

/-- A record of the address is stored, and the enrolled flag is `flag`. -/
structure Nvs.Admitted (mac : Mac) (flag : Option UInt8) (v : Nvs) : Prop where
  record : v.HasRecord mac
  flag : v.enrolledFlag = flag

/-- The address is listed, and stored in no earlier slot than its place in the list. -/
def Node.Holds (s : Node) (mac : Mac) : Prop :=
  ∃ i j : Fin maxPeers, i ≤ j ∧ s.peers.macs[i.val]? = some mac ∧ s.nvs.SlotHolds j mac

/-- The established keys are stored, each in no earlier slot than its peer is listed. -/
def Node.KeysStored (s : Node) : Prop :=
  ∀ (i : Fin maxPeers) e, s.peers.entries[i.val]? = some e → e.2.isZero = false →
    ∃ j, i ≤ j ∧ s.nvs.SlotHolds j e.1

theorem Nvs.slotHolds_set {v : Nvs} {j k : Fin maxPeers} {mac : Mac} {o : Option PeerRecord}
    (h : v.SlotHolds j mac) (hjk : k ≠ j) :
    Nvs.SlotHolds { v with peer := v.peer.set k o } j mac := by
  obtain ⟨r, hr, hm⟩ := h
  exact ⟨r, by rw [← hr]; exact List.Vector.get_set_of_ne hjk _, hm⟩

/-- The record of a listed address. -/
theorem PeerRegistry.records_of_macs {r : PeerRegistry} {i : Fin maxPeers} {mac : Mac}
    (h : r.macs[i.val]? = some mac) : ∃ rec, r.records i = some rec ∧ rec.mac = mac := by
  rw [macs_eq, List.getElem?_map] at h
  obtain ⟨e, he, rfl⟩ := Option.map_eq_some_iff.1 h
  refine ⟨recordOf e, ?_, PeerRecord.mac_encode _ _⟩
  rw [records_eq, List.getElem?_map, he]
  rfl

/-- While a registry is saved that lists an address in the place `i`, a record of it is stored all
along if it was stored in no earlier slot: its new slot is written before the old one. -/
theorem saveInvariant_holds {r : PeerRegistry} {i j : Fin maxPeers} {mac : Mac} {f : Option UInt8}
    (hij : i ≤ j) (hi : r.macs[i.val]? = some mac) :
    SaveInvariant r.records
      (fun k v => (if i.val < k then v.SlotHolds i mac else v.SlotHolds j mac) ∧ v.enrolledFlag = f)
      (Nvs.Admitted mac f) := by
  obtain ⟨rec, hrec, hmac⟩ := PeerRegistry.records_of_macs hi
  refine ⟨fun k v h => ⟨?_, h.2⟩, fun k v h => ⟨?_, h.2⟩, fun k v hnone h => ⟨?_, h.2⟩⟩
  · split at h
    · exact ⟨i, h.1⟩
    · exact ⟨j, h.1⟩
  · obtain ⟨h, -⟩ := h
    rcases Nat.lt_trichotomy i.val k.val with hik | hik | hik
    · rw [if_pos hik] at h
      rw [if_pos (by omega)]
      exact Nvs.slotHolds_set h fun hk => by rw [hk] at hik; exact lt_irrefl _ hik
    · obtain rfl := Fin.ext hik
      rw [if_pos (Nat.lt_succ_self _)]
      exact ⟨rec, by rw [← hrec]; exact List.Vector.get_set_same _ _ _, hmac⟩
    · rw [if_neg (by omega)] at h
      rw [if_neg (by omega)]
      have hij' : i.val ≤ j.val := hij
      exact Nvs.slotHolds_set h fun hk => by rw [hk] at hik; omega
  · obtain ⟨h, -⟩ := h
    have hik : i.val ≠ k.val := by
      intro hik
      obtain rfl := Fin.ext hik
      rw [hrec] at hnone
      cases hnone
    have hlt : i.val < k.val + 1 ↔ i.val < k.val := by omega
    simpa only [hlt] using h

/-- Once a registry is saved, its slots hold its records. -/
theorem saveInvariant_all {r : PeerRegistry} :
    SaveInvariant r.records
      (fun k v => ∀ (i : Fin maxPeers) rec, i.val < k → r.records i = some rec →
        v.peer.get i = some rec) (fun _ => True) := by
  refine ⟨fun _ _ _ => trivial, fun k v h i rec hik hrec => ?_,
    fun k v hnone h i rec hik hrec => ?_⟩
  · by_cases hk : k = i
    · subst hk
      rw [← hrec]
      exact List.Vector.get_set_same _ _ _
    · rw [← h i rec (by have : k.val ≠ i.val := fun he => hk (Fin.ext he)
                        omega) hrec]
      exact List.Vector.get_set_of_ne hk _
  · refine h i rec ?_ hrec
    have hne : i.val ≠ k.val := by
      intro hik
      obtain rfl := Fin.ext hik
      rw [hrec] at hnone
      cases hnone
    omega

/-! ### The states of a device -/

theorem Node.KeysStored.congr (h : s.KeysStored) (he : t.peers.entries = s.peers.entries)
    (hp : t.nvs.peer = s.nvs.peer) : t.KeysStored := by
  intro i e hi hz
  rw [he] at hi
  obtain ⟨j, hij, r, hr, hm⟩ := h i e hi hz
  exact ⟨j, hij, r, by rw [hp]; exact hr, hm⟩

/-- What a boot loads is stored; the default peers have no keys. -/
theorem keysStored_of_loaded {c : Config}
    (h : t.peers.peers = (PeerRegistry.loadFromEEPROM {} c t.nvs).peers) : t.KeysStored := by
  intro i e hi hz
  rw [PeerRegistry.entries, h, List.getElem?_map] at hi
  obtain ⟨p, hp, rfl⟩ := Option.map_eq_some_iff.1 hi
  by_cases hnil : PeerRegistry.storedPeers t.nvs = []
  · rcases PeerRegistry.mem_loadFromEEPROM (List.mem_of_getElem? hp) with hmem | ⟨-, mac, -, rfl⟩
    · rw [hnil] at hmem
      cases hmem
    · exact absurd (show (Bytes.zero 32).isZero = false from hz) (by decide)
  · rw [PeerRegistry.loadFromEEPROM_stored hnil] at hp
    obtain ⟨j, o, hij, hj, hload⟩ := SlotImage.getElem?_filterMap hp
    obtain ⟨hlt, rfl⟩ := List.getElem?_eq_some_iff.1 hj
    rw [t.nvs.peer.toList_length] at hlt
    refine ⟨⟨j, hlt⟩, hij, ?_⟩
    have hget : t.nvs.peer.get ⟨j, hlt⟩ = t.nvs.peer.toList[j] := by
      rw [List.Vector.get_eq_get_toList]
      rfl
    rw [← hget] at hload
    cases hr : t.nvs.peer.get ⟨j, hlt⟩ with
    | none =>
      rw [hr] at hload
      cases hload
    | some r =>
      rw [hr] at hload
      dsimp only at hload
      split at hload
      · cases hload
      · obtain rfl := Option.some.inj hload
        exact ⟨r, hr, rfl⟩

/-- Outside dev mode no change but a wipe loses a stored key. -/
theorem Node.KeysStored.effect {s₀ : Node} {i : Input} (h : s.KeysStored)
    (hd : s.eeprom.isDevMode = false) (hi : i ≠ .resetButton) (ht : Effect w s₀ i s t) :
    t.KeysStored := by
  cases ht.peerChange with
  | same hp hn => exact h.congr (by rw [hp]) hn
  | touched hp hn => exact h.congr (by rw [hp, PeerRegistry.entries_touch]) hn
  | wiped hw => exact absurd hw hi
  | registered _ _ _ hslot =>
    intro k e hk _
    have hk' : t.peers.macs[k.val]? = some e.1 := by
      rw [PeerRegistry.macs_eq, List.getElem?_map, hk]
      rfl
    obtain ⟨rec, hrec, hm⟩ := PeerRegistry.records_of_macs hk'
    have hnew := hslot k
    rw [hrec, hd, slotSaved_some, if_neg (by simp)] at hnew
    exact ⟨k, le_refl _, rec, hnew, hm⟩

namespace Device

/-- The states that a device goes through, from whatever flash it starts: those between its steps
while it runs, and those within the step of an input. -/
inductive Visits (b : Board) (v : Nvs) : Node → Prop
  | between (xs : List (Env × Input)) (h : (run b (blank v) xs).status = .running) :
      Visits b v (run b (blank v) xs).node
  | within (xs : List (Env × Input)) (e : Env) (i : Input) {s : Node} (hi : i ≠ .boot)
      (hr : i ≠ .resetButton) (h : (run b (blank v) xs).status = .running)
      (hs : ReflTransGen (Effect (b.world e) ((run b (blank v) xs).inputNode i) i)
        ((run b (blank v) xs).inputNode i) s) : Visits b v s

variable {b : Board}

/-- The invariant of a device that is not wiped. -/
theorem keysStored_invariant (b : Board) :
    Invariant b (fun _ x => x.2 ≠ .resetButton)
      (fun s => s.eeprom.isDevMode = false → s.KeysStored) fun _ => True where
  weaken _ _ := trivial
  boot _ _ _ _ _ ht _ := keysStored_of_loaded ht.peers
  bootHalt _ _ _ _ _ _ := trivial
  input _ _ _ _ _ h := h
  effect _ _ _ s t hw h ht hd := by
    rw [ht.sameDevice.isDevMode] at hd
    exact (h hd).effect hd hw.admissible ht
  stop _ _ _ _ _ _ _ _ _ := trivial

/-- The reset button never returns. -/
theorem step_resetButton {d : Device} {e : Env} (h : d.status = .running) :
    (step b d (e, .resetButton)).status ≠ .running := by
  rw [step_of_input (by simp) h]
  show (ofResult (tickReset (b.world e) (d.inputNode .resetButton))).status ≠ .running
  have hw : wp (tickReset (b.world e)) (fun _ _ => False) (fun _ _ => True)
      (d.inputNode .resetButton) := by
    unfold tickReset nvsPut
    rw [wp_bind]
    split
    · trivial
    · trivial
  cases hr : tickReset (b.world e) (d.inputNode .resetButton) with
  | ok _ t => exact (wp_ok hr hw).elim
  | error => simp [ofResult]

/-- **The established keys are stored in every state of a production device.** -/
theorem keysStored_of_visits {v : Nvs} (h : Visits b v s) (hd : s.eeprom.isDevMode = false) :
    s.KeysStored := by
  set I : Node → Prop := fun s => s.eeprom.isDevMode = false → s.KeysStored with hI
  have hrun : ∀ xs, (run b (blank v) xs).Meets I fun _ => True := by
    intro xs
    refine Runs.run_invariant (C := fun _ _ => True) (I := Meets I fun _ => True)
      (meets_blank trivial) (fun d x hd' _ => ?_) (Runs.along_of_forall (fun _ _ => trivial) _ xs)
    by_cases hx : x.2 = .resetButton
    · refine ⟨trivial, fun hrunning => ?_⟩
      obtain ⟨e, i⟩ := x
      obtain rfl : i = .resetButton := hx
      by_cases hs : d.status = .running
      · exact absurd hrunning (step_resetButton hs)
      · rw [step_ignored (by simp) hs] at hrunning
        exact absurd hrunning hs
    · exact (keysStored_invariant b).step (e := x.1) (i := x.2) hd' hx
  cases h with
  | between xs h => exact (hrun xs).2 h hd
  | within xs e i hi hr h hs =>
    exact (keysStored_invariant b).within (hrun xs) ⟨hr, hi, h, hs⟩ hd

end Device

/-! ### The acknowledgement -/

/-- A registration lists its address and loses none. -/
theorem PeerRegistry.macs_register (r : PeerRegistry) {mac : Mac} (key : Key) (nowMs : UInt64)
    (h : (r.find mac).isSome ∨ r.count < maxPeers) :
    mac ∈ (r.register mac key nowMs).macs ∧
      ∀ (i : ℕ) mac', r.macs[i]? = some mac' → (r.register mac key nowMs).macs[i]? = some mac' := by
  have hmem : mac ∈ (r.register mac key nowMs).macs := by
    by_contra hno
    have hfound := (find_isSome_register key nowMs h).1
    rw [find_eq_none_iff.2 hno] at hfound
    cases hfound
  refine ⟨hmem, fun i mac' hi => ?_⟩
  unfold register
  split
  · have hsame : (r.setKey mac key nowMs).macs = r.macs := macs_update r fun _ => rfl
    rw [hsame]
    exact hi
  · rename_i hnew
    rw [macs_append (h.resolve_left hnew)]
    rw [List.getElem?_append_left (List.getElem?_eq_some_iff.1 hi).1]
    exact hi

/-- A registration, whether it stores the key or not, loses no address. -/
theorem PeerRegistry.macs_registered (r : PeerRegistry) {mac : Mac} (key : Key) (nowMs : UInt64)
    {i : ℕ} {mac' : Mac} (hi : r.macs[i]? = some mac') :
    (r.registered mac key false nowMs).macs[i]? = some mac' := by
  unfold registered
  split
  · rename_i h
    simp only [stores, Bool.and_eq_true, Bool.or_eq_true, decide_eq_true_eq] at h
    exact (r.macs_register key nowMs h.2).2 i mac' hi
  · split
    · have hsame : (r.touch mac nowMs).macs = r.macs := macs_update r fun _ => rfl
      rw [hsame]
      exact hi
    · exact hi

theorem Node.Holds.listed {mac : Mac} (h : s.Holds mac) : (s.peers.find mac).isSome := by
  obtain ⟨i, -, -, hi, -⟩ := h
  by_contra hno
  have hnone : s.peers.find mac = none := by simpa using hno
  exact PeerRegistry.find_eq_none_iff.1 hnone (List.mem_of_getElem? hi)

theorem Node.Holds.hasRecord {mac : Mac} (h : s.Holds mac) : s.nvs.HasRecord mac := by
  obtain ⟨-, j, -, -, hj⟩ := h
  exact ⟨j, hj⟩

/-- A registration that succeeds leaves its address listed and stored. -/
theorem RegisterEnds.holds {mac : Mac} {key : Key}
    (h : RegisterEnds w s mac key (fun k v => ∀ (i : Fin maxPeers) rec, i.val < k →
      (s.peers.register mac key w.nowMs).records i = some rec → v.peer.get i = some rec) P true t)
    (hs : s.KeysStored) : t.Holds mac := by
  by_cases hsv : s.peers.stores mac false = true
  -- the registry was saved up to the slot of the new entry
  · have hc := hsv
    simp only [PeerRegistry.stores, Bool.and_eq_true, Bool.or_eq_true, decide_eq_true_eq] at hc
    obtain ⟨n, hn⟩ := List.mem_iff_getElem?.1 (s.peers.macs_register key w.nowMs hc.2).1
    have hlt : n < maxPeers := by
      have hlen := (List.getElem?_eq_some_iff.1 hn).1
      rw [PeerRegistry.macs, List.length_map] at hlen
      exact lt_of_lt_of_le hlen (PeerRegistry.length_le _)
    obtain ⟨rec, hrec, hm⟩ := PeerRegistry.records_of_macs (i := ⟨n, hlt⟩) hn
    refine ⟨⟨n, hlt⟩, ⟨n, hlt⟩, le_refl _, ?_, rec, h.stored hsv _ _ hlt hrec, hm⟩
    rw [h.peers, PeerRegistry.registered, if_pos hsv]
    exact hn
  -- nothing was stored, so the address was established before and is in its old slot
  · have hno : s.peers.stores mac false = false := by simpa using hsv
    have hest : s.peers.keyEstablished mac = true := by
      have hroom := h.result.symm
      by_contra hest
      simp [PeerRegistry.stores, hest, hroom] at hno
    obtain ⟨p, hp⟩ := Option.isSome_iff_exists.1 (PeerRegistry.isSome_of_keyEstablished hest)
    have hz : p.publicKey.isZero = false := by
      rw [PeerRegistry.keyEstablished, hp] at hest
      simpa using hest
    obtain ⟨n, hn⟩ := List.mem_iff_getElem?.1 (List.mem_of_find?_eq_some hp)
    have hlt : n < maxPeers :=
      lt_of_lt_of_le (List.getElem?_eq_some_iff.1 hn).1 s.peers.length_le
    have hent : s.peers.entries[n]? = some (p.mac, p.publicKey) := by
      rw [PeerRegistry.entries, List.getElem?_map, hn]
      rfl
    obtain ⟨j, hij, hslot⟩ := hs ⟨n, hlt⟩ _ hent hz
    rw [PeerRegistry.find_mac hp] at hslot
    refine ⟨⟨n, hlt⟩, j, hij, ?_, by rw [h.kept hno]; exact hslot⟩
    rw [h.peers]
    refine PeerRegistry.macs_registered _ _ _ ?_
    rw [PeerRegistry.macs, List.getElem?_map, hn, ← PeerRegistry.find_mac hp]
    rfl

/-- A further registration keeps what is listed and stored, all along. -/
theorem wp_registerPeerWithKey_holds (mac : Mac) (key : Key) {origin : Mac}
    (hd : s.eeprom.isDevMode = false) (h : s.Holds origin) :
    wp (registerPeerWithKey w mac key false)
      (fun r t => Through Event.isRegistration
          (Nvs.Admitted origin s.nvs.enrolledFlag) s t ∧
        t.enrollment = s.enrollment ∧ t.eeprom = s.eeprom ∧ (t.peers.find origin).isSome ∧
        (r = true → (t.peers.find mac).isSome))
      (RegisterHalts w (Nvs.Admitted origin s.nvs.enrolledFlag) s) s := by
  obtain ⟨i, j, hij, hi, hj⟩ := h
  have hlisted : ∀ {r : PeerRegistry} {mac' : Mac}, mac' ∈ r.macs → (r.find mac').isSome := by
    intro r mac' hm
    by_contra hno
    exact PeerRegistry.find_eq_none_iff.1 (by simpa using hno) hm
  -- the save writes slot `i`, and until then the copy in slot `j` stands
  set J : ℕ → Nvs → Prop := fun k v =>
    (if i.val < k then v.SlotHolds i origin else v.SlotHolds j origin) ∧
      v.enrolledFlag = s.nvs.enrolledFlag with hJ
  have hreg : wp (registerPeerWithKey w mac key false)
      (RegisterEnds w s mac key J (Nvs.Admitted origin s.nvs.enrolledFlag))
      (RegisterHalts w (Nvs.Admitted origin s.nvs.enrolledFlag) s) s := by
    refine wp_registerPeerWithKey_through hd ⟨⟨j, hj⟩, rfl⟩ fun hsv => ⟨?_, hj, rfl⟩
    simp only [PeerRegistry.stores, Bool.and_eq_true, Bool.or_eq_true, decide_eq_true_eq] at hsv
    exact saveInvariant_holds hij ((s.peers.macs_register key w.nowMs hsv.2).2 _ _ hi)
  refine wp_mono _ (fun r t ht => ⟨ht.through, ht.enrollment, ht.eeprom, ?_, fun hr => ?_⟩)
    (fun _ _ h => h) hreg
  · rw [ht.peers]
    exact hlisted (List.mem_of_getElem? (PeerRegistry.macs_registered _ key w.nowMs hi))
  · have hroom : (s.peers.find mac).isSome ∨ s.peers.count < maxPeers := by
      have hres := ht.result
      rw [hr] at hres
      simpa using hres.symm
    rw [ht.peers]
    -- a registration that succeeds lists the address, whether it stores a key or not
    by_cases hsv : s.peers.stores mac false = true
    · rw [PeerRegistry.registered, if_pos hsv]
      exact hlisted (s.peers.macs_register key w.nowMs hroom).1
    · have hest : s.peers.keyEstablished mac = true := by
        by_contra hest
        refine hsv ?_
        simp only [PeerRegistry.stores, Bool.and_eq_true, Bool.or_eq_true, decide_eq_true_eq]
        exact ⟨.inr (by simpa using hest), hroom⟩
      rw [PeerRegistry.registered, if_neg hsv, if_pos hest]
      have htouch : (s.peers.touch mac w.nowMs).keyEstablished mac = true := by
        rwa [PeerRegistry.keyEstablished_touch]
      exact PeerRegistry.isSome_of_keyEstablished htouch

/-- Events that leave the stored secondary master alone. -/
def Event.KeepsSecondary (e : Event) : Prop :=
  ∀ v, (e.onFlash v).knownMasterMacSec = v.knownMasterMacSec

theorem Event.keepsSecondary_of_not_write {e : Event} (h : e.isWrite = false) : e.KeepsSecondary :=
  fun v => by rw [Event.onFlash_of_not_write h]

theorem Event.keepsSecondary_of_registration {e : Event} (h : e.isRegistration) :
    e.KeepsSecondary := by
  rcases h with h | h
  · exact Event.keepsSecondary_of_not_write h
  · cases e with
    | nvs op =>
      cases op with
      | peer | erasePeer => exact fun _ => rfl
      | _ => cases h
    | _ => cases h

theorem flashAfter_keepsSecondary {es : List Event} (h : ∀ e ∈ es, Event.KeepsSecondary e)
    (v : Nvs) :
    (flashAfter es v).knownMasterMacSec = v.knownMasterMacSec := by
  induction es with
  | nil => rfl
  | cons e es ih =>
    show (e.onFlash (flashAfter es v)).knownMasterMacSec = _
    rw [h e List.mem_cons_self, ih fun e he => h e (List.mem_cons_of_mem _ he)]

/-- The secondary master that is known stays the same. -/
def SameSecondary (s t : Node) : Prop :=
  t.enrollment.knownMasterMacSecondary = s.enrollment.knownMasterMacSecondary ∧
    t.enrollment.hasMasterMacSecondary = s.enrollment.hasMasterMacSecondary

theorem SameSecondary.trans (h : SameSecondary s t) (h' : SameSecondary t u) : SameSecondary s u :=
  ⟨h'.1.trans h.1, h'.2.trans h.2⟩

/-- What the rest of an acknowledgement keeps, once its sender is registered. -/
structure Admitting (origin : Mac) (s t : Node) : Prop where
  through : Through Event.KeepsSecondary
    (Nvs.Admitted origin s.nvs.enrolledFlag) s t
  secondary : SameSecondary s t

theorem Node.Holds.congr {origin : Mac} (h : s.Holds origin) (hp : t.peers = s.peers)
    (hn : t.nvs.peer = s.nvs.peer) : t.Holds origin := by
  obtain ⟨i, j, hij, hi, r, hr, hm⟩ := h
  exact ⟨i, j, hij, by rw [hp]; exact hi, r, by rw [hn]; exact hr, hm⟩

/-- The sender of an acknowledgement becomes the master, if none is known. -/
theorem wp_learnMasterFromAck_holds {origin : Mac} (hd : s.eeprom.isDevMode = false)
    (h : s.Holds origin) :
    wp (learnMasterFromAck w origin)
      (fun _ t => Admitting origin s t ∧ t.Holds origin ∧ t.eeprom = s.eeprom ∧
        t.enrollment.enrolled = s.enrollment.enrolled)
      (fun h t => Admitting origin s t ∧ Excused w h) s := by
  have hstart : Nvs.Admitted origin s.nvs.enrolledFlag s.nvs := ⟨h.hasRecord, rfl⟩
  unfold learnMasterFromAck learnMasterMac saveKnownMasterMac nvsSave nvsPut
  rw [wp_bind, wp_get]
  split
  · exact ⟨⟨.refl hstart, rfl, rfl⟩, h, rfl, rfl⟩
  rw [wp_bind, wp_modify, wp_bind, wp_get, if_neg (by simpa using hd)]
  split
  · rw [wp_bind, wp_modify, wp_emit]
    refine ⟨⟨.one rfl rfl (fun _ => rfl) hstart ?_, rfl, rfl⟩, h.congr rfl rfl, rfl, rfl⟩
    exact ⟨hstart.record, rfl⟩
  -- the write fails, and the restart comes before anything else is stored
  · rename_i hno
    rw [if_pos rfl]
    refine wp_mono _ (fun _ _ hf => ?_) (fun h u hu => ?_)
      (wp_and _ (harmless_fail (fun _ => ⟨_, by simpa using hno⟩) _)
        (wp_fail_restart (Q := fun _ _ => False) (E := fun _ _ => True) rfl fun _ _ => trivial))
    · exact hf.2.elim
    · have hnw := hu.1.1
      have hlearned : Through Event.KeepsSecondary
          (Nvs.Admitted origin s.nvs.enrolledFlag) s
          (s.learnedMaster origin) := (Through.refl hstart).congr rfl rfl
      refine ⟨⟨hlearned.trans
        (hnw.through (fun _ => Event.keepsSecondary_of_not_write) hstart), ?_, ?_⟩, hu.1.2⟩
      · rw [hnw.enrollment]
      · rw [hnw.enrollment]

/-- The enrolled flag is stored, if its write succeeds. -/
theorem wp_saveEnrolledFlag_holds {origin : Mac} (hd : s.eeprom.isDevMode = false)
    (h : s.Holds origin) :
    wp (saveEnrolledFlag w true)
      (fun _ t => Through Event.KeepsSecondary (fun v => v.HasRecord origin) s t ∧ t.Holds origin ∧
        t.eeprom = s.eeprom ∧ t.enrollment = s.enrollment ∧
        (w.nvsOk (.enrolledFlag 1) = true → t.nvs.enrolledFlag = some 1))
      (fun _ _ => False) s := by
  unfold saveEnrolledFlag nvsSave nvsPut
  rw [wp_bind, wp_get, if_neg (by simpa using hd), if_pos rfl]
  split
  · rw [wp_bind, wp_modify, wp_emit]
    exact ⟨.one rfl rfl (fun _ => rfl) h.hasRecord h.hasRecord, h.congr rfl rfl, rfl, rfl,
      fun _ => rfl⟩
  · rename_i hno
    exact ⟨.refl h.hasRecord, h, rfl, rfl, fun hok => absurd hok hno⟩

/-- The secondary master is learned only if it is registered. -/
structure SecondaryEnds (m : Message) (s t : Node) : Prop where
  through : Through (fun e => t.peers.find m.ackSecondaryMac = none → e.KeepsSecondary)
    (Nvs.Admitted m.originMac s.nvs.enrolledFlag) s t
  secondary : t.peers.find m.ackSecondaryMac = none → SameSecondary s t

/-- The secondary master of an acknowledgement. -/
theorem wp_processJoinAckSecondary_holds {m : Message} (hd : s.eeprom.isDevMode = false)
    (h : s.Holds m.originMac) :
    wp (processJoinAckSecondary w m)
      (fun _ t => SecondaryEnds m s t ∧ (t.peers.find m.originMac).isSome ∧
        t.enrollment.enrolled = s.enrollment.enrolled)
      (fun h t => SecondaryEnds m s t ∧ Excused w h) s := by
  unfold processJoinAckSecondary
  split
  -- no secondary master is named
  · exact ⟨⟨.refl ⟨h.hasRecord, rfl⟩, fun _ => ⟨rfl, rfl⟩⟩, h.listed, rfl⟩
  rw [wp_bind]
  refine wp_mono _ (fun r t ht => ?_) (fun h t ht => ?_)
    (wp_registerPeerWithKey_holds m.ackSecondaryMac m.ackSecondaryKey hd h)
  · obtain ⟨hthrough, henr, heep, horigin, hreg⟩ := ht
    have hkeeps : ∀ {q : Prop}, Through (fun e => q → e.KeepsSecondary)
        (Nvs.Admitted m.originMac s.nvs.enrolledFlag) s t := fun {q} =>
      hthrough.mono (fun _ he _ => Event.keepsSecondary_of_registration he) fun _ hv => hv
    have hsame : SameSecondary s t := by
      unfold SameSecondary
      rw [henr]
      exact ⟨rfl, rfl⟩
    have henrolled : t.enrollment.enrolled = s.enrollment.enrolled := by rw [henr]
    rw [wp_bind, wp_get]
    split
    -- the secondary master is registered, so it may be learned
    · rename_i hlearn
      simp only [Bool.and_eq_true] at hlearn
      have hno : t.peers.find m.ackSecondaryMac ≠ none :=
        Option.isSome_iff_ne_none.1 (hreg hlearn.1)
      have hadm := hthrough.last
      have hdev : ¬t.eeprom.isDevMode = true := by
        rw [heep]
        simpa using hd
      unfold learnSecondaryMasterMac saveKnownMasterMacSecondary nvsSave nvsPut
      rw [wp_bind, wp_modify, wp_bind, wp_get, if_neg hdev]
      split
      · rw [wp_bind, wp_modify, wp_emit]
        refine ⟨⟨hkeeps.trans
          (.one rfl rfl (fun hn => absurd hn hno) hadm ⟨hadm.record, hadm.flag⟩),
          fun hn => absurd hn hno⟩, horigin, henrolled⟩
      -- its address is not stored, and the node restarts
      · rename_i hfail
        rw [if_pos rfl]
        refine wp_mono _ (fun _ _ hf => ?_) (fun h u hu => ?_)
          (wp_and _ (harmless_fail (fun _ => ⟨_, by simpa using hfail⟩) _)
            (wp_fail_restart (Q := fun _ _ => False) (E := fun _ _ => True) rfl fun _ _ => trivial))
        · exact hf.2.elim
        · have hnw := hu.1.1
          have hpeers : u.peers = t.peers := hnw.peers
          refine ⟨⟨?_, fun hn => absurd (hpeers ▸ hn) hno⟩, hu.1.2⟩
          have htail : Through (fun e => u.peers.find m.ackSecondaryMac = none → e.KeepsSecondary)
              (Nvs.Admitted m.originMac s.nvs.enrolledFlag)
                (t.learnedSecondary m.ackSecondaryMac) u :=
            hnw.through (fun _ he _ => Event.keepsSecondary_of_not_write he) hadm
          exact (hkeeps.congr rfl rfl).trans htail
    · exact ⟨⟨hkeeps, fun _ => hsame⟩, horigin, henrolled⟩
  -- the registration of the secondary master failed
  · obtain ⟨⟨hthrough, henr⟩, hex⟩ := ht
    refine ⟨⟨hthrough.mono (fun _ he _ => Event.keepsSecondary_of_registration he) fun _ hv => hv,
      fun _ => ?_⟩, hex⟩
    unfold SameSecondary
    rw [henr]
    exact ⟨rfl, rfl⟩

/-- What holds of an acknowledgement that is taken, however it ends: the enrolled flag is stored
behind a record of its sender, and the secondary master is learned only if it is registered. -/
structure JoinAckEnds (m : Message) (s t : Node) : Prop where
  flagged : ∃ es, t.trace = es ++ s.trace ∧
    (∀ us, us <:+ es → .nvs (.enrolledFlag 1) ∈ us → (flashAfter us s.nvs).HasRecord m.originMac) ∧
    (t.peers.find m.ackSecondaryMac = none → ∀ e ∈ es, Event.KeepsSecondary e)
  secondary : t.peers.find m.ackSecondaryMac = none → SameSecondary s t

theorem Event.not_flag_of_registration {e : Event} (h : e.isRegistration) :
    e ≠ .nvs (.enrolledFlag 1) := by
  rintro rfl
  rcases h with h | h <;> cases h

/-- A registration, and what comes after the sender is registered. -/
theorem JoinAckEnds.of_through {m : Message} {u : Node}
    (h : Through Event.isRegistration (fun _ => True) s u)
    (h' : Through (fun e => t.peers.find m.ackSecondaryMac = none → e.KeepsSecondary)
      (fun v => v.HasRecord m.originMac) u t)
    (hsec : t.peers.find m.ackSecondaryMac = none → SameSecondary s t) : JoinAckEnds m s t := by
  obtain ⟨es₁, ht₁, hn₁, hA₁, -⟩ := h
  obtain ⟨es₂, ht₂, -, hA₂, hP₂⟩ := h'
  refine ⟨⟨es₂ ++ es₁, by rw [ht₂, ht₁, List.append_assoc], fun us hus hflag => ?_,
    fun hno e he => ?_⟩, hsec⟩
  · rcases Through.suffix_append hus with hus | ⟨vs, hvs, rfl⟩
    · exact absurd rfl (Event.not_flag_of_registration (hA₁ _ (hus.subset hflag)))
    · rw [flashAfter_append, ← hn₁]
      exact hP₂ vs hvs
  · rcases List.mem_append.1 he with he | he
    · exact hA₂ e he hno
    · exact Event.keepsSecondary_of_registration (hA₁ e he)

/-- A registration that does not return. -/
theorem JoinAckEnds.of_registration {m : Message}
    (h : Through Event.isRegistration (fun _ => True) s t) (he : t.enrollment = s.enrollment) :
    JoinAckEnds m s t := by
  obtain ⟨es, ht, -, hA, -⟩ := h
  refine ⟨⟨es, ht, fun us hus hflag => ?_, fun _ e he => ?_⟩, fun _ => ?_⟩
  · exact absurd rfl (Event.not_flag_of_registration (hA _ (hus.subset hflag)))
  · exact Event.keepsSecondary_of_registration (hA e he)
  · unfold SameSecondary
    rw [he]
    exact ⟨rfl, rfl⟩

/-- Whether an acknowledgement is taken: it passes the checks, and its sender finds room. -/
def joinAckTaken (c : Config) (s : Node) (m : Message) : Bool :=
  joinAckAccepted c s.enrollment m &&
    ((s.peers.find m.originMac).isSome || s.peers.count < maxPeers)

/-- An acknowledgement that is not taken changes nothing. -/
theorem processJoinAck_refused {m : Message} (h : joinAckTaken w.config s m = false) :
    processJoinAck w m s = .ok () s := by
  have hw : wp (processJoinAck w m) (fun _ t => t = s) (fun _ _ => False) s := by
    unfold processJoinAck
    rw [wp_bind, wp_get]
    split
    · rename_i hacc
      rw [joinAckTaken, hacc, Bool.true_and, Bool.or_eq_false_iff] at h
      have hest : s.peers.keyEstablished m.originMac = false := by
        by_contra hest
        have hsome := PeerRegistry.isSome_of_keyEstablished (by simpa using hest)
        rw [h.1] at hsome
        cases hsome
      have hfull : s.peers.count ≥ maxPeers := by simpa using h.2
      unfold registerPeerWithKey
      rw [wp_bind, wp_bind, wp_get, if_neg (by simp [hest]), if_neg (by simp [h.1]), if_pos hfull]
      exact rfl
    · exact rfl
  obtain ⟨_, t, ht, rfl⟩ := exists_ok hw
  exact ht

/-- What an acknowledgement that is taken does. -/
theorem wp_processJoinAck {m : Message} (hd : s.eeprom.isDevMode = false) (hk : s.KeysStored)
    (h : joinAckTaken w.config s m = true) :
    wp (processJoinAck w m)
      (fun _ t => JoinAckEnds m s t ∧ (t.peers.find m.originMac).isSome ∧
        t.enrollment.enrolled = true ∧
        (w.nvsOk (.enrolledFlag 1) = true → t.nvs.enrolledFlag = some 1))
      (fun h t => JoinAckEnds m s t ∧ Excused w h) s := by
  rw [joinAckTaken, Bool.and_eq_true] at h
  unfold processJoinAck
  rw [wp_bind, wp_get, if_pos h.1, wp_bind]
  refine wp_mono _ (fun r t ht => ?_) (fun h t ht => ?_) (wp_registerPeerWithKey_through
    (P := fun _ => True) hd trivial fun _ =>
      ⟨saveInvariant_all, fun _ _ h => absurd h (Nat.not_lt_zero _)⟩)
  · -- the sender is registered and stored before anything else is written
    have hr : r = true := ht.result.trans h.2
    subst hr
    have hholds := ht.holds hk
    have hdt : t.eeprom.isDevMode = false := by rw [ht.eeprom]; exact hd
    rw [if_pos rfl, wp_bind]
    refine wp_mono _ (fun _ u hu => ?_) (fun _ _ hf => hf.elim)
      (wp_saveEnrolledFlag_holds hdt hholds)
    obtain ⟨htu, hhold, heep, henr, hflag⟩ := hu
    -- the node counts as enrolled in memory, whether the flag was stored or not
    set u' : Node := { u with enrollment := { u.enrollment with enrolled := true } } with hu'
    have hsec : SameSecondary s u' := by
      unfold SameSecondary
      show u.enrollment.knownMasterMacSecondary = _ ∧ u.enrollment.hasMasterMacSecondary = _
      rw [henr, ht.enrollment]
      exact ⟨rfl, rfl⟩
    have hdu : u'.eeprom.isDevMode = false := by
      show u.eeprom.isDevMode = false
      rw [heep]
      exact hdt
    rw [wp_bind, wp_modify, wp_bind]
    refine wp_mono _ (fun _ v hv => ?_) (fun _ v hv => ?_)
      (wp_learnMasterFromAck_holds (s := u') hdu (hhold.congr rfl rfl))
    · obtain ⟨hadm, hholdv, heepv, henrolled⟩ := hv
      have hthrough : ∀ {q : Prop}, Through (fun e => q → e.KeepsSecondary)
          (fun v => v.HasRecord m.originMac) t v := by
        intro q
        refine (htu.mono (fun _ h _ => h) fun _ h => h).trans ?_
        exact hadm.through.mono (fun _ h _ => h) fun _ h => h.record
      have hflagv := hadm.through.last.flag
      refine wp_mono _ (fun _ x hx => ?_) (fun _ x hx => ?_)
        (wp_processJoinAckSecondary_holds (by rw [heepv]; exact hdu) hholdv)
      · obtain ⟨hends, horigin, hen⟩ := hx
        refine ⟨.of_through ht.through (hthrough.trans (hends.through.mono (fun _ h => h)
          fun _ h => h.record)) fun hno => (hsec.trans hadm.secondary).trans (hends.secondary hno),
          horigin, ?_, fun hok => ?_⟩
        · rw [hen, henrolled]
        · rw [hends.through.last.flag, hflagv]
          exact hflag hok
      · obtain ⟨hends, hex⟩ := hx
        exact ⟨.of_through ht.through (hthrough.trans (hends.through.mono (fun _ h => h)
          fun _ h => h.record)) fun hno => (hsec.trans hadm.secondary).trans (hends.secondary hno),
            hex⟩
    -- the address of the master was not stored
    · obtain ⟨hadm, hex⟩ := hv
      refine ⟨.of_through ht.through ((htu.mono (fun _ h _ => h) fun _ h => h).trans ?_)
        fun _ => hsec.trans hadm.secondary, hex⟩
      exact hadm.through.mono (fun _ h _ => h) fun _ h => h.record
  -- the sender was not stored
  · exact ⟨.of_registration ht.1.1 ht.1.2, ht.2⟩

/-- What an acknowledgement does, wherever the power may be lost. -/
structure JoinAckAtomic (w : World) (s : Node) (m : Message) : Prop where
  /-- One that is refused changes nothing. -/
  refused : joinAckTaken w.config s m = false → processJoinAck w m s = .ok () s ∧
    ∀ k, crashFlash (processJoinAck w m) s k = s.nvs
  /-- One that is taken registers its sender and enrolls the node, unless the node restarts. -/
  taken : joinAckTaken w.config s m = true →
    (∃ t, processJoinAck w m s = .ok () t ∧ (t.peers.find m.originMac).isSome ∧
      t.enrollment.enrolled = true ∧
      (w.nvsOk (.enrolledFlag 1) = true → t.nvs.enrolledFlag = some 1)) ∨
    ∃ h t, processJoinAck w m s = .error h t ∧ Excused w h
  /-- The enrolled flag is stored behind a record of the sender. -/
  flagged : ∀ k, .nvs (.enrolledFlag 1) ∈ crashEvents (processJoinAck w m) s k →
    (crashFlash (processJoinAck w m) s k).HasRecord m.originMac
  /-- A secondary master that is not registered is learned neither in memory nor in flash. -/
  secondary : (Calls.final (processJoinAck w m s)).peers.find m.ackSecondaryMac = none →
    SameSecondary s (Calls.final (processJoinAck w m s)) ∧
      ∀ k, (crashFlash (processJoinAck w m) s k).knownMasterMacSec = s.nvs.knownMasterMacSec

/-- **An acknowledgement is taken as a whole or not at all**, in every state of a production
device. -/
theorem processJoinAck_atomic {b : Board} {v : Nvs} (hv : Device.Visits b v s)
    (hd : s.eeprom.isDevMode = false) (e : Env) (m : Message) :
    JoinAckAtomic (b.world e) s m := by
  have hk := Device.keysStored_of_visits hv hd
  have hnone : joinAckTaken b.config s m = false →
      ∀ k, crashEvents (processJoinAck (b.world e) m) s k = [] := by
    intro hno k
    have hrun := processJoinAck_refused (w := b.world e) hno
    exact List.suffix_nil.1 (crashEvents_suffix k (by rw [hrun]; rfl))
  have hends : joinAckTaken b.config s m = true →
      JoinAckEnds m s (Calls.final (processJoinAck (b.world e) m s)) := fun hyes =>
    Calls.wp_final (wp_mono _ (fun _ _ h => h.1) (fun _ _ h => h.1)
      (wp_processJoinAck (w := b.world e) hd hk hyes))
  refine ⟨fun hno => ⟨processJoinAck_refused (w := b.world e) hno, fun k => ?_⟩, fun hyes => ?_,
    fun k hflag => ?_, fun hsec => ?_⟩
  -- a refused acknowledgement writes nothing
  · unfold crashFlash
    rw [hnone hno k]
    rfl
  · have hrun := wp_processJoinAck (w := b.world e) hd hk hyes
    cases hr : processJoinAck (b.world e) m s with
    | ok _ t => exact .inl ⟨t, rfl, (wp_ok hr hrun).2⟩
    | error h t => exact .inr ⟨h, t, rfl, (wp_error hr hrun).2⟩
  -- the events up to the crash are a part of those of the whole call
  · cases htaken : joinAckTaken b.config s m with
    | false =>
      rw [hnone htaken k] at hflag
      cases hflag
    | true =>
      obtain ⟨es, ht, hflagged, -⟩ := (hends htaken).flagged
      exact hflagged _ (crashEvents_suffix k ht) hflag
  · cases htaken : joinAckTaken b.config s m with
    | false =>
      have hrun := processJoinAck_refused (w := b.world e) htaken
      refine ⟨by rw [hrun]; exact ⟨rfl, rfl⟩, fun k => ?_⟩
      unfold crashFlash
      rw [hnone htaken k]
      rfl
    | true =>
      refine ⟨(hends htaken).secondary hsec, fun k => ?_⟩
      obtain ⟨es, ht, -, hkeeps⟩ := (hends htaken).flagged
      exact flashAfter_keepsSecondary (fun e he =>
        hkeeps hsec e ((crashEvents_suffix k ht).subset he)) _

/-- A leaf that booted for the first time and is admitted, with two masters. -/
theorem processJoinAck_atomic_admitted :
    JoinAckAtomic (Sample.board.world (Sample.env 1 200))
      (Device.run Sample.board (.blank {}) [(Sample.env 1 100, .boot)]).node Sample.dualJoinAck :=
  processJoinAck_atomic (.between (v := {}) [(Sample.env 1 100, .boot)] (by decide +kernel))
    (by decide +kernel) _ _

end LatticeMesh
