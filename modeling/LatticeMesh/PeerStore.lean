import LatticeMesh.DevMode

/-!
# The registry and its slots

The registry is stored in flash, one peer a slot.  Every call that changes it saves it as a whole:
it writes the slots of the peers in their order and erases the slots behind them.

## Main definitions

* `crashEvents`, `crashFlash` — the events before a loss of power, and the flash after them.
* `saveOps` — the writes of a save, in their order.
* `PeerCall`, `PeerCall.run` — the calls that change the registry.
* `PeerCall.after`, `PeerCall.saves` — the registry after a call, and whether the call saves it.

## Main results

* `wp_writePeerSlots_works` — a save that works writes slot after slot.
* `PeerCall.peerSaved` — **a call changes the registry, then writes slot after slot.**
-/

namespace LatticeMesh

open EffectSpec

variable {w : World} {s t u : Node}

/-! ### Loss of power -/

/-- What an event does to the flash. -/
def Event.onFlash : Event → Nvs → Nvs
  | .nvs op, v => op.apply v
  | _, v => v

/-- Whether an event is a write to the flash. -/
def Event.isWrite : Event → Bool
  | .nvs _ => true
  | _ => false

theorem Event.onFlash_of_not_write {e : Event} (h : e.isWrite = false) (v : Nvs) :
    e.onFlash v = v := by
  cases e with
  | nvs => cases h
  | _ => rfl

/-- The flash after the events `es`, of which the newest is the first. -/
def flashAfter (es : List Event) (v : Nvs) : Nvs := es.foldr Event.onFlash v

theorem flashAfter_append (es es' : List Event) (v : Nvs) :
    flashAfter (es ++ es') v = flashAfter es (flashAfter es' v) := List.foldr_append

theorem flashAfter_of_no_write {es : List Event} (h : ∀ e ∈ es, e.isWrite = false) (v : Nvs) :
    flashAfter es v = v := by
  induction es with
  | nil => rfl
  | cons e es ih =>
    show e.onFlash (flashAfter es v) = v
    rw [ih fun e he => h e (List.mem_cons_of_mem _ he),
      Event.onFlash_of_not_write (h e List.mem_cons_self)]

/-- The events of a program that is started in `s`, newest first. -/
def eventsOf {α : Type} (x : MeshM α) (s : Node) : List Event :=
  let t := Calls.final (x s)
  t.trace.take (t.trace.length - s.trace.length)

/-- The first `k` events of a program, newest first: those before a loss of power. -/
def crashEvents {α : Type} (x : MeshM α) (s : Node) (k : ℕ) : List Event :=
  (eventsOf x s).drop ((eventsOf x s).length - k)

/-- What is in the flash if the power is lost after the first `k` events of a program. -/
def crashFlash {α : Type} (x : MeshM α) (s : Node) (k : ℕ) : Nvs :=
  flashAfter (crashEvents x s k) s.nvs

theorem eventsOf_eq {α : Type} {x : MeshM α} {es : List Event}
    (h : (Calls.final (x s)).trace = es ++ s.trace) : eventsOf x s = es := by
  unfold eventsOf
  simp only [h]
  rw [List.length_append, Nat.add_sub_cancel, List.take_left]

/-- The state after a list of writes, in their order. -/
def Node.wrote (s : Node) (ops : List NvsOp) : Node :=
  { s with
    nvs := ops.foldl (fun v op => op.apply v) s.nvs
    trace := (ops.map Event.nvs).reverse ++ s.trace }

@[simp] theorem Node.wrote_nil (s : Node) : s.wrote [] = s := rfl

theorem Node.wrote_concat (s : Node) (ops : List NvsOp) (op : NvsOp) :
    s.wrote (ops ++ [op]) =
      { s.wrote ops with nvs := op.apply (s.wrote ops).nvs }.emit (.nvs op) := by
  unfold Node.wrote Node.emit
  rw [List.foldl_concat, List.map_append, List.reverse_append]
  rfl

theorem flashAfter_writes (ops : List NvsOp) (v : Nvs) :
    flashAfter (ops.map Event.nvs).reverse v = ops.foldl (fun v op => op.apply v) v := by
  rw [flashAfter, List.foldr_reverse, List.foldl_map]
  rfl

/-- If the writes of a program come first, a loss of power cuts them short. -/
theorem crashFlash_of_writes {α : Type} {x : MeshM α} {es : List Event} {ops : List NvsOp}
    (h : (Calls.final (x s)).trace = es ++ (s.wrote ops).trace)
    (hes : ∀ e ∈ es, e.isWrite = false) (k : ℕ) :
    crashFlash x s k = (s.wrote (ops.take k)).nvs := by
  have hev : eventsOf x s = es ++ (ops.map Event.nvs).reverse :=
    eventsOf_eq (by rw [h, List.append_assoc]; rfl)
  have hops : ∀ v, flashAfter (ops.map Event.nvs).reverse v =
      (ops.foldl (fun v op => op.apply v) v) :=
    flashAfter_writes ops
  unfold crashFlash crashEvents
  rw [hev, List.length_append, List.length_reverse, List.length_map]
  show _ = (ops.take k).foldl (fun v op => op.apply v) s.nvs
  rcases Nat.le_total k ops.length with hk | hk
  · have hdrop : es.length + ops.length - k = es.length + (ops.length - k) := by omega
    rw [hdrop, List.drop_append, List.drop_eq_nil_of_le (by omega), List.nil_append,
      Nat.add_sub_cancel_left, ← flashAfter_writes, List.map_take, List.reverse_take,
      List.length_map]
  · rw [List.take_of_length_le hk, List.drop_append_of_le_length (by omega), flashAfter_append,
      hops]
    exact flashAfter_of_no_write (fun e he => hes e (List.mem_of_mem_drop he)) _

/-! ### Saving the registry -/

/-- The write with which a slot is saved. -/
def slotOp (records : Fin maxPeers → Option PeerRecord) (i : Fin maxPeers) : NvsOp :=
  match records i with
  | some r => .peer i r
  | none => .erasePeer i

theorem slotOp_apply (records : Fin maxPeers → Option PeerRecord) (i : Fin maxPeers) (v : Nvs) :
    (slotOp records i).apply v = { v with peer := v.peer.set i (records i) } := by
  unfold slotOp
  cases records i <;> rfl

/-- The slots that a save touches: dev mode only erases. -/
def savedSlots (isDevMode : Bool) (records : Fin maxPeers → Option PeerRecord) :
    List (Fin maxPeers) :=
  (List.finRange maxPeers).filter fun i => !isDevMode || (records i).isNone

/-- The writes of a save, in their order. -/
def saveOps (isDevMode : Bool) (records : Fin maxPeers → Option PeerRecord) : List NvsOp :=
  (savedSlots isDevMode records).map (slotOp records)

/-- The slots after the writes to some of them. -/
theorem peer_wrote (records : Fin maxPeers → Option PeerRecord) (l : List (Fin maxPeers))
    (j : Fin maxPeers) :
    (s.wrote (l.map (slotOp records))).nvs.peer.get j =
      if j ∈ l then records j else s.nvs.peer.get j := by
  induction l using List.reverseRecOn with
  | nil => rfl
  | append_singleton l i ih =>
    rw [List.map_append, List.map_singleton, Node.wrote_concat]
    show ((slotOp records i).apply (s.wrote (l.map (slotOp records))).nvs).peer.get j = _
    rw [slotOp_apply]
    by_cases hij : i = j
    · subst hij
      rw [List.Vector.get_set_same, if_pos (by simp)]
    · rw [List.Vector.get_set_of_ne hij, ih]
      have hmem : j ∈ l ++ [i] ↔ j ∈ l := by simp [Ne.symm hij]
      simp only [hmem]

/-- Every write to a slot of the registry succeeds. -/
def World.SlotsWork (w : World) : Prop :=
  ∀ i r, w.nvsOk (.peer i r) = true ∧ w.nvsOk (.erasePeer i) = true

theorem World.slotsWork_of_nvsOk (h : ∀ op, w.nvsOk op = true) : w.SlotsWork :=
  fun _ _ => ⟨h _, h _⟩

theorem take_finRange_succ {n : ℕ} (k : Fin n) :
    (List.finRange n).take (k + 1) = (List.finRange n).take k ++ [k] := by
  rw [List.take_add_one, List.getElem?_eq_getElem (by rw [List.length_finRange]; exact k.isLt),
    List.getElem_finRange]
  rfl

/-- The part of a save that concerns the slots below `k`. -/
def saveOpsBelow (isDevMode : Bool) (records : Fin maxPeers → Option PeerRecord) (k : ℕ) :
    List NvsOp :=
  (((List.finRange maxPeers).take k).filter fun i => !isDevMode || (records i).isNone).map
    (slotOp records)

theorem saveOpsBelow_all (isDevMode : Bool) (records : Fin maxPeers → Option PeerRecord) :
    saveOpsBelow isDevMode records maxPeers = saveOps isDevMode records := by
  unfold saveOpsBelow
  rw [List.take_of_length_le (by rw [List.length_finRange])]
  rfl

theorem saveOpsBelow_succ (isDevMode : Bool) (records : Fin maxPeers → Option PeerRecord)
    (k : Fin maxPeers) :
    saveOpsBelow isDevMode records (k + 1) = saveOpsBelow isDevMode records k ++
      if !isDevMode || (records k).isNone then [slotOp records k] else [] := by
  unfold saveOpsBelow
  rw [take_finRange_succ, List.filter_append, List.map_append, List.filter_singleton]
  cases !isDevMode || (records k).isNone <;> rfl

/-- A save that works writes slot after slot. -/
theorem wp_writePeerSlots_works (hw : w.SlotsWork) (records : Fin maxPeers → Option PeerRecord)
    {Q : Unit → Node → Prop} {E : Halt → Node → Prop}
    (hq : Q () (s.wrote (saveOps s.eeprom.isDevMode records))) :
    wp (writePeerSlots w records) Q E s := by
  set ops := saveOpsBelow s.eeprom.isDevMode records with hops
  refine wp_mono _ (fun _ t ht => ?_) (fun _ _ h => h.elim)
    (wp_finRange_forM (E := fun _ _ => False)
    (I := fun k t => t = s.wrote (ops k)) rfl fun k t ht => ?_)
  · rw [ht, hops, saveOpsBelow_all]
    exact hq
  · subst ht
    have hdev : (s.wrote (ops k)).eeprom.isDevMode = s.eeprom.isDevMode := rfl
    have hskip : s.eeprom.isDevMode = true → (records k).isSome → ops (k + 1) = ops k := by
      intro hd hr
      rw [hops, saveOpsBelow_succ, if_neg (by simp [hd, Option.isSome_iff_ne_none.1 hr]),
        List.append_nil]
    have hstep : (!s.eeprom.isDevMode || (records k).isNone) = true → s.wrote (ops (k + 1)) =
        { s.wrote (ops k) with nvs := (slotOp records k).apply (s.wrote (ops k)).nvs }.emit
          (.nvs (slotOp records k)) := by
      intro h
      rw [hops, saveOpsBelow_succ, if_pos h, Node.wrote_concat]
    cases hr : records k with
    | some r =>
      dsimp only
      unfold savePeerRecord nvsSave nvsPut
      rw [wp_bind, wp_get, hdev]
      by_cases hd : s.eeprom.isDevMode = true
      · rw [if_pos hd]
        exact congrArg s.wrote (hskip hd (by rw [hr]; rfl)).symm
      · rw [if_neg hd, if_pos (hw k r).1, wp_bind, wp_modify, wp_emit, hstep (by simp [hd]),
          slotOp, hr]
    | none =>
      dsimp only
      unfold erasePeerRecord nvsPut
      rw [if_pos (hw k (PeerRecord.encode zeroMac (Bytes.zero 32))).2, wp_bind, wp_modify, wp_emit,
        hstep (by simp [hr]), slotOp, hr]

/-! ### Programs that write nothing -/

/-- The registry, the flash, the mode and the trust state are as before, and no write is
reported. -/
structure NoWrite (s t : Node) : Prop where
  peers : t.peers = s.peers
  nvs : t.nvs = s.nvs
  eeprom : t.eeprom = s.eeprom
  enrollment : t.enrollment = s.enrollment
  trace : ∃ es, t.trace = es ++ s.trace ∧ ∀ e ∈ es, e.isWrite = false

theorem NoWrite.refl (s : Node) : NoWrite s s := ⟨rfl, rfl, rfl, rfl, [], rfl, by simp⟩

theorem NoWrite.trans (h : NoWrite s t) (h' : NoWrite t u) : NoWrite s u := by
  obtain ⟨es, he, hes⟩ := h.trace
  obtain ⟨es', he', hes'⟩ := h'.trace
  refine ⟨h'.1.trans h.1, h'.2.trans h.2, h'.3.trans h.3, h'.4.trans h.4, es' ++ es, ?_,
    fun e hm => ?_⟩
  · rw [he', he, List.append_assoc]
  · exact (List.mem_append.1 hm).elim (hes' e) (hes e)

/-- The program writes nothing, however it ends. -/
abbrev WritesNothing {α : Type} (x : MeshM α) : Prop :=
  ∀ s, wp x (fun _ t => NoWrite s t) (fun _ t => NoWrite s t) s

theorem writesNothing_fail (ty : ErrorTypeDigit) (m : ModuleDigit) (sub : ℕ) (text : String) :
    WritesNothing (fail w ty m sub text) := by
  intro s
  have hone : ∀ e, Event.isWrite e = false → NoWrite s (s.emit e) := fun e he =>
    ⟨rfl, rfl, rfl, rfl, [e], rfl, by simpa using he⟩
  refine wp_signalError (fun _ _ => ?_) (fun _ => hone _ rfl) fun _ => hone _ rfl
  exact (hone (.errFail ty m sub text) rfl).trans
    ⟨rfl, rfl, rfl, rfl, [_], rfl, by simp [Event.isWrite]⟩

theorem writesNothing_checkEsp (ok : Bool) (ty : ErrorType) (text : String) :
    WritesNothing (checkEsp w ok ty text) := by
  intro s
  unfold checkEsp
  split
  · exact .refl s
  · exact writesNothing_fail _ _ _ _ s

theorem writesNothing_espNowDelPeer (mac : Mac) : WritesNothing (espNowDelPeer mac) :=
  fun _ => ⟨rfl, rfl, rfl, rfl, [], rfl, by simp⟩

theorem writesNothing_registerPeerWithEspNow (mac : Mac) :
    WritesNothing (registerPeerWithEspNow w mac) := by
  intro s
  unfold registerPeerWithEspNow
  rw [wp_bind, wp_get]
  split
  · exact .refl s
  · split
    · exact ⟨rfl, rfl, rfl, rfl, [], rfl, by simp⟩
    · exact writesNothing_checkEsp _ _ _ s

theorem writesNothing_enrollPeerWithRadio (mac : Mac) :
    WritesNothing (enrollPeerWithRadio w mac) := by
  intro s
  unfold enrollPeerWithRadio
  rw [wp_bind]
  refine wp_mono _ (fun _ t ht => ?_) (fun _ _ h => h) (writesNothing_espNowDelPeer mac s)
  exact wp_mono _ (fun _ _ h => ht.trans h) (fun _ _ h => ht.trans h)
    (writesNothing_registerPeerWithEspNow mac t)

/-! ### Calls -/

/-- The calls that change the registry and save it. -/
inductive PeerCall
  | addAndPersist (mac : Mac)
  | removeAndPersist (mac : Mac)
  | registerPeerWithKey (mac : Mac) (publicKey : Key) (allowRekey : Bool)
  deriving DecidableEq

/-- Whether a peer can be added by hand: it is new, it is not this node, and there is room. -/
def PeerRegistry.adds (r : PeerRegistry) (mac : Mac) : Bool :=
  (r.find mac).isNone && mac ≠ r.deviceMac && r.count < maxPeers

namespace PeerCall

/-- What a call does. -/
def run (w : World) : PeerCall → MeshM Unit
  | .addAndPersist mac => LatticeMesh.addAndPersist w mac
  | .removeAndPersist mac => LatticeMesh.removeAndPersist w mac
  | .registerPeerWithKey mac key allowRekey => do
    let _ ← LatticeMesh.registerPeerWithKey w mac key allowRekey

/-- The address that a call is about. -/
def mac : PeerCall → Mac
  | .addAndPersist mac => mac
  | .removeAndPersist mac => mac
  | .registerPeerWithKey mac _ _ => mac

/-- The registry after a call. -/
def after (nowMs : UInt64) (r : PeerRegistry) : PeerCall → PeerRegistry
  | .addAndPersist mac => if r.adds mac then r.append ⟨mac, Bytes.zero 32, nowMs⟩ else r
  | .removeAndPersist mac => r.remove mac
  | .registerPeerWithKey mac key allowRekey => r.registered mac key allowRekey nowMs

/-- Whether a call saves the registry. -/
def saves (r : PeerRegistry) : PeerCall → Bool
  | .addAndPersist mac => r.adds mac
  | .removeAndPersist _ => true
  | .registerPeerWithKey mac _ allowRekey => r.stores mac allowRekey

/-- The writes of a call, in their order. -/
def ops (w : World) (s : Node) (c : PeerCall) : List NvsOp :=
  if c.saves s.peers then saveOps s.eeprom.isDevMode (c.after w.nowMs s.peers).records else []

/-- From `s` to `t` a call changed the registry and saved it. -/
structure Saved (w : World) (c : PeerCall) (s t : Node) : Prop where
  peers : t.peers = c.after w.nowMs s.peers
  eeprom : t.eeprom = s.eeprom
  nvs : t.nvs = (s.wrote (c.ops w s)).nvs
  trace : ∃ es, t.trace = es ++ (s.wrote (c.ops w s)).trace ∧ ∀ e ∈ es, e.isWrite = false

/-- A call that saves, followed by a program that writes nothing. -/
theorem Saved.of_tail {c : PeerCall} {r : PeerRegistry} (hr : r = c.after w.nowMs s.peers)
    (hs : c.saves s.peers = true)
    (ht : NoWrite (({ s with peers := r } : Node).wrote (saveOps s.eeprom.isDevMode r.records)) t) :
    Saved w c s t := by
  have hops : c.ops w s = saveOps s.eeprom.isDevMode r.records := by
    rw [ops, if_pos hs, hr]
  exact ⟨ht.peers.trans hr, ht.eeprom, by rw [hops]; exact ht.nvs, by rw [hops]; exact ht.trace⟩

/-- A call that does not save. -/
theorem Saved.of_noWrite {c : PeerCall} {r : PeerRegistry} (hr : r = c.after w.nowMs s.peers)
    (hs : c.saves s.peers = false) (ht : NoWrite { s with peers := r } t) : Saved w c s t := by
  have hops : c.ops w s = [] := by
    rw [ops, if_neg (by simp [hs])]
  exact ⟨ht.peers.trans hr, ht.eeprom, by rw [hops]; exact ht.nvs, by rw [hops]; exact ht.trace⟩

/-- Changing the registry, saving it, and then a program that writes nothing. -/
theorem wp_save_tail {α : Type} {c : PeerCall} {r : PeerRegistry} {g : Unit → MeshM α}
    (hw : w.SlotsWork) (hr : r = c.after w.nowMs s.peers) (hs : c.saves s.peers = true)
    (hg : WritesNothing (g ())) :
    wp (saveToEEPROM w >>= g) (fun _ t => Saved w c s t) (fun _ t => Saved w c s t)
      { s with peers := r } := by
  unfold saveToEEPROM
  rw [wp_bind, wp_bind, wp_get]
  refine wp_writePeerSlots_works hw _ ?_
  exact wp_mono _ (fun _ _ h => .of_tail hr hs h) (fun _ _ h => .of_tail hr hs h) (hg _)

end PeerCall

theorem saved_addAndPersist (hw : w.SlotsWork) (mac : Mac) :
    wp (addAndPersist w mac) (fun _ t => PeerCall.Saved w (.addAndPersist mac) s t)
      (fun _ t => PeerCall.Saved w (.addAndPersist mac) s t) s := by
  have hkept : s.peers.adds mac = false →
      s.peers = (PeerCall.addAndPersist mac).after w.nowMs s.peers := fun h =>
    (if_neg (by simp [h])).symm
  unfold addAndPersist
  rw [wp_bind, wp_get]
  -- an address that is known, or is its own
  split
  · rename_i hknown
    have hno : s.peers.adds mac = false := by
      rw [Bool.or_eq_true] at hknown
      unfold PeerRegistry.adds
      rcases hknown with h | h
      · simp [Option.isSome_iff_ne_none.1 h]
      · simp_all
    exact .of_noWrite (hkept hno) hno (.refl s)
  · rename_i hnew
    -- a full registry
    split
    · rename_i hfull
      have hno : s.peers.adds mac = false := by
        unfold PeerRegistry.adds
        simp [not_lt.2 hfull]
      exact wp_mono _ (fun _ _ h => .of_noWrite (hkept hno) hno h)
        (fun _ _ h => .of_noWrite (hkept hno) hno h) (writesNothing_fail _ _ _ _ s)
    · rename_i hroom
      -- a new peer
      have hyes : s.peers.adds mac = true := by
        rw [Bool.or_eq_true, not_or] at hnew
        unfold PeerRegistry.adds
        simp only [Bool.and_eq_true, decide_eq_true_eq]
        refine ⟨⟨by simpa using hnew.1, by simpa using hnew.2⟩, by omega⟩
      rw [wp_bind, wp_modify]
      have hsave : wp (saveToEEPROM w >>= fun _ => pure ())
          (fun _ t => PeerCall.Saved w (.addAndPersist mac) s t)
          (fun _ t => PeerCall.Saved w (.addAndPersist mac) s t) { s with peers := _ } :=
        PeerCall.wp_save_tail hw (if_pos hyes).symm hyes fun u => .refl u
      rw [wp_bind] at hsave
      exact hsave

theorem saved_removeAndPersist (hw : w.SlotsWork) (mac : Mac) :
    wp (removeAndPersist w mac) (fun _ t => PeerCall.Saved w (.removeAndPersist mac) s t)
      (fun _ t => PeerCall.Saved w (.removeAndPersist mac) s t) s := by
  unfold removeAndPersist
  rw [wp_bind, wp_modify]
  refine PeerCall.wp_save_tail hw rfl rfl fun u => ?_
  rw [wp_bind, wp_get]
  split
  · exact writesNothing_espNowDelPeer mac u
  · exact writesNothing_checkEsp _ _ _ u

theorem saved_registerPeerWithKey (hw : w.SlotsWork) (mac : Mac) (key : Key) (allowRekey : Bool) :
    wp (registerPeerWithKey w mac key allowRekey)
      (fun _ t => PeerCall.Saved w (.registerPeerWithKey mac key allowRekey) s t)
      (fun _ t => PeerCall.Saved w (.registerPeerWithKey mac key allowRekey) s t) s := by
  refine wp_registration (fun hs => ?_) fun hno => .of_noWrite rfl hno (.refl _)
  refine PeerCall.wp_save_tail hw rfl hs fun u => ?_
  rw [wp_bind]
  exact writesNothing_enrollPeerWithRadio mac u

/-- **A call changes the registry, then writes slot after slot**, and nothing else. -/
theorem PeerCall.peerSaved (hw : w.SlotsWork) (c : PeerCall) :
    wp (c.run w) (fun _ t => Saved w c s t) (fun _ t => Saved w c s t) s := by
  cases c with
  | addAndPersist mac => exact saved_addAndPersist hw mac
  | removeAndPersist mac => exact saved_removeAndPersist hw mac
  | registerPeerWithKey mac key allowRekey =>
    unfold run
    rw [wp_bind]
    exact saved_registerPeerWithKey hw mac key allowRekey

end LatticeMesh
