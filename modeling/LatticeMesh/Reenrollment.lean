import LatticeMesh.KeyCache
import LatticeMesh.RelayState

/-!
# A node that enrolls again

A master passes every enrollment request on to the server, with the key that it carries.  The
acknowledgement of an approval is built from the registry, which keeps the first key that it was
given.  A node that lost its key pair asks with a new one; the server sees the new key, and the
acknowledgement carries the old one.

## Main definitions

* `EnrollOp`, `EnrollOp.run` — a request, an approval, and the passing on of the requests.
* `Node.lastRelayed` — the key that the server saw last for an address.
* `AckAgrees` — the acknowledgement carries the fingerprint of that key.
* `EnrollOp.Agrees` — a request agrees with the registry and with the requests before it.

## Main results

* `ackAgrees_iff` — an acknowledgement carries the fingerprint of the registered key.
* `ackAgrees_run` — **acknowledgements carry what the server saw, as long as every request agrees.**
* `not_ackAgrees_new_key` — a node that comes back with a new key is acknowledged with the old one.
-/

namespace LatticeMesh

open EffectSpec

variable {w : World} {s t u : Node} {m : Message} {mac : Mac} {secondary : Option (Mac × Key)}

/-! ### Requests and approvals -/

/-- What a master does about enrollment: it takes in a request, it admits a node that the server
approved, and it passes the requests on to the server. -/
inductive EnrollOp
  | request (srcMac : Mac) (m : Message)
  | approve (mac : Mac) (secondary : Option (Mac × Key))
  | relay

/-- What a call does. -/
def EnrollOp.run (w : World) : EnrollOp → MeshM Unit
  | .request srcMac m =>
    handleReceivedMessage w srcMac { m with messageType := MessageType.enrollment }
  | .approve mac secondary => enrollPeer w mac secondary
  | .relay => drainPendingRelay

/-- A call in the given surroundings. -/
def EnrollOp.call (b : Board) (x : Env × EnrollOp) : MeshM Unit := x.2.run (b.world x.1)

/-- The key of the latest of the given requests for an address. -/
def latestKey (requests : List (Mac × Key)) (mac : Mac) : Option Key :=
  (requests.find? fun x => x.1 = mac).map Prod.snd

/-- The key that the server saw last for an address. -/
def Node.lastRelayed (s : Node) (mac : Mac) : Option Key := latestKey s.relayed mac

/-- The key that the server is about to see last for an address. -/
def Node.lastPending (s : Node) (mac : Mac) : Option Key :=
  latestKey s.enrollment.relayQueue.reverse mac

/-- What a node compares of its key. -/
def fingerprintOf (key : Key) : Bytes 4 := Bytes.slice key 0 4 fingerprint_le

/-- The acknowledgement of an approval carries the fingerprint of the key that the server saw last:
the node with that key finds it to be its own. -/
def AckAgrees (w : World) (s : Node) (mac : Mac) (secondary : Option (Mac × Key)) : Prop :=
  ∀ l, (Calls.final (enrollPeer w mac secondary s)).sentFrames = l ++ s.sentFrames →
    ∀ x ∈ l, ∀ key, s.lastRelayed mac = some key → x.2.ackFingerprint = fingerprintOf key

/-- A request agrees: if the registry keeps its key, the request is not passed on under another one;
if the registry takes the key, the server did not see another one last, nor is it about to. -/
structure RequestAgrees (w : World) (s : Node) (m : Message) : Prop where
  kept : s.peers.keyEstablished m.originMac = true →
    w.ringbufAccepts s.enrollment.relayQueue.length = true →
    ∀ key ∈ s.peers.keyOf m.originMac, fingerprintOf m.enrollmentPublicKey = fingerprintOf key
  relayed : s.peers.stores m.originMac false = true →
    ∀ key ∈ s.lastRelayed m.originMac, fingerprintOf key = fingerprintOf m.enrollmentPublicKey
  pending : s.peers.stores m.originMac false = true →
    w.ringbufAccepts s.enrollment.relayQueue.length = false →
    ∀ key ∈ s.lastPending m.originMac, fingerprintOf key = fingerprintOf m.enrollmentPublicKey

/-- A request that passes the checks of a received frame agrees. -/
def EnrollOp.Agrees (w : World) (s : Node) : EnrollOp → Prop
  | .request _ m => m.protoVersion = protoVersion → (replayGate s.replay m w.nowMs).1 = false →
    RequestAgrees w s m
  | _ => True

/-! ### What the calls say -/

/-- The role, the requests that wait, and what was said to the server and to the radio. -/
def Node.talk (s : Node) : Bool × List (Mac × Key) × List (Mac × Key) × List (Mac × Message) :=
  (s.isMaster, s.enrollment.relayQueue, s.relayed, s.sentFrames)

theorem talk_eq_iff : t.talk = s.talk ↔ t.isMaster = s.isMaster ∧
    t.enrollment.relayQueue = s.enrollment.relayQueue ∧ t.relayed = s.relayed ∧
    t.sentFrames = s.sentFrames := by
  unfold Node.talk
  rw [Prod.mk.injEq, Prod.mk.injEq, Prod.mk.injEq]

instance quietFrame_talk : QuietFrame Node.talk := by
  refine ⟨fun h => ?_⟩
  rw [Node.quietPart, Node.quietPart] at h
  simp only [Prod.mk.injEq] at h
  obtain ⟨hrelay, -, -, hqueue, hrelayed, hsent⟩ := h
  exact talk_eq_iff.2 ⟨congrArg RelayState.isMaster hrelay, hqueue, hrelayed, hsent⟩

/-! ### A request -/

/-- What a master makes of a request that gets through. -/
structure RequestHeard (w : World) (s : Node) (m : Message) (t : Node) : Prop where
  isMaster : t.isMaster = s.isMaster
  relayed : t.relayed = s.relayed
  queue : t.enrollment.relayQueue = if w.ringbufAccepts s.enrollment.relayQueue.length then
    s.enrollment.relayQueue ++ [(m.originMac, m.enrollmentPublicKey)] else s.enrollment.relayQueue
  keyOf : ∀ mac, t.peers.keyOf mac =
    if s.peers.stores m.originMac false = true ∧ mac = m.originMac then some m.enrollmentPublicKey
    else s.peers.keyOf mac

theorem wp_processEnrollment (hm : s.isMaster = true) :
    wp (processEnrollment w m) (fun _ t => RequestHeard w s m t) (fun _ _ => True) s := by
  unfold processEnrollment
  rw [wp_bind, wp_get, if_pos hm, wp_bind]
  refine wp_mono _ (fun r u hu => ?_) (fun _ _ _ => trivial)
    (wp_and _ keyRegistered_registerPeerWithKey
      (keeps_registerPeerWithKey (f := Node.talk) _ _ _ s))
  obtain ⟨hreg, htalk⟩ := hu
  obtain ⟨hmaster, -, hrelayed, -⟩ := talk_eq_iff.1 htalk
  unfold processRequest
  rw [wp_bind, wp_get, hreg.enrollment]
  split
  · rename_i hroom
    refine ⟨hmaster, hrelayed, ?_, hreg.keyOf⟩
    rw [if_pos hroom, ← hreg.enrollment]
  · rename_i hroom
    exact ⟨hmaster, hrelayed, by rw [if_neg hroom, hreg.enrollment], hreg.keyOf⟩

/-- Hearing a station gives no address a key. -/
theorem PeerRegistry.stores_updateLastSeen (r : PeerRegistry) (srcMac mac : Mac) (nowMs : UInt64)
    (allowRekey : Bool) : (r.updateLastSeen srcMac nowMs).stores mac allowRekey =
      r.stores mac allowRekey := by
  have hcount : (r.updateLastSeen srcMac nowMs).count = r.count := by
    unfold updateLastSeen
    split
    · rfl
    · exact List.length_replaceF
  have hfind : ((r.updateLastSeen srcMac nowMs).find mac).isSome = (r.find mac).isSome := by
    have h := congrArg Option.isSome (keyOf_updateLastSeen r srcMac mac nowMs)
    simpa [keyOf] using h
  unfold stores
  rw [keyEstablished_eq, keyOf_updateLastSeen, ← keyEstablished_eq, hcount, hfind]

/-- A request at a master: it is dropped by the checks of a received frame, or it gets through. -/
theorem wp_request {srcMac : Mac} (hm : s.isMaster = true) :
    wp (EnrollOp.run w (.request srcMac m)) (fun _ t =>
      t.peers = s.peers ∧ t.talk = s.talk ∨
        m.protoVersion = protoVersion ∧ (replayGate s.replay m w.nowMs).1 = false ∧
          RequestHeard w s m t) (fun _ _ => True) s := by
  show wp (handleReceivedMessage w srcMac { m with messageType := MessageType.enrollment }) _ _ s
  unfold handleReceivedMessage
  split
  · exact .inl ⟨rfl, rfl⟩
  rename_i hver
  simp only [ne_eq, not_not] at hver
  rw [wp_bind, wp_get]
  dsimp only
  rw [wp_bind, wp_modify]
  split
  · exact .inl ⟨rfl, rfl⟩
  rename_i hgate
  rw [wp_bind, wp_modify]
  unfold dispatchMessage
  rw [if_pos rfl]
  -- the request got through: what it does does not depend on when its sender was seen
  refine wp_mono _ (fun _ t ht => .inr ⟨hver, Bool.eq_false_of_not_eq_true hgate, ?_⟩)
    (fun _ _ h => h)
    (wp_processEnrollment hm)
  refine ⟨ht.isMaster, ht.relayed, ht.queue, fun mac => ?_⟩
  rw [ht.keyOf]
  simp only [PeerRegistry.stores_updateLastSeen, PeerRegistry.keyOf_updateLastSeen]

/-! ### An approval -/

theorem fingerprint_joinAckData (key : Key) :
    Bytes.slice (joinAckData key secondary) 0 4 ackFingerprint_le = fingerprintOf key := by
  unfold joinAckData
  cases secondary with
  | none => exact Bytes.slice_blit _ _ _ _
  | some x =>
    obtain ⟨mac, key'⟩ := x
    dsimp only
    rw [Bytes.slice_blit_of_disjoint _ _ _ _ (by decide),
      Bytes.slice_blit_of_disjoint _ _ _ _ (by decide)]
    exact Bytes.slice_blit _ _ _ _

/-- What an approval says: nothing, or one acknowledgement with the fingerprint of the registered
key. -/
def Acknowledges (s : Node) (mac : Mac) (t : Node) : Prop :=
  t.sentFrames = s.sentFrames ∨ ∃ key a, s.peers.keyOf mac = some key ∧
    t.sentFrames = (broadcastMac, a) :: s.sentFrames ∧ a.ackFingerprint = fingerprintOf key

theorem wp_approve : wp (enrollPeer w mac secondary)
    (fun _ t => Acknowledges s mac t ∧ t.isMaster = s.isMaster ∧ t.relayed = s.relayed ∧
      t.enrollment.relayQueue = s.enrollment.relayQueue)
    (fun _ t => Acknowledges s mac t) s := by
  unfold enrollPeer
  rw [wp_bind, wp_get]
  cases hp : s.peers.find mac with
  | none => exact ⟨.inl rfl, rfl, rfl, rfl⟩
  | some p =>
    have hkey : s.peers.keyOf mac = some p.publicKey := by rw [PeerRegistry.keyOf, hp]; rfl
    show wp (registerPeerWithKey w mac p.publicKey true >>= _) _ _ _
    rw [wp_bind]
    refine wp_mono _ (fun r u hu => ?_) (fun _ _ hu => .inl (talk_eq_iff.1 hu).2.2.2)
      (keeps_registerPeerWithKey (f := Node.talk) _ _ _ s)
    obtain ⟨hmaster, hqueue, hrelayed, hframes⟩ := talk_eq_iff.1 hu
    -- the acknowledgement goes out only if the radio takes it
    split
    · rw [wp_bind]
      refine wp_mono _ (fun seq v hv => ?_)
        (fun _ _ hv => .inl (talk_eq_iff.1 (hv.trans hu)).2.2.2)
        (keeps_nextSeqGuarded (f := Node.talk) u)
      obtain ⟨hmaster, hqueue, hrelayed, hframes⟩ := talk_eq_iff.1 (hv.trans hu)
      rw [wp_bind, wp_get]
      unfold sendBroadcast espNowSend
      rw [wp_bind, wp_bind, wp_get]
      split
      · rw [wp_bind, wp_emit]
        refine ⟨.inr ⟨p.publicKey, joinAck v seq mac p.publicKey secondary, hkey, ?_,
          fingerprint_joinAckData _⟩, hmaster, hrelayed, hqueue⟩
        rw [← hframes]
        rfl
      · exact ⟨.inl hframes, hmaster, hrelayed, hqueue⟩
    · exact ⟨.inl hframes, hmaster, hrelayed, hqueue⟩

/-- What the acknowledgement of an approval carries, if one is sent, is the fingerprint of the
registered key. -/
theorem ackAgrees_iff
    (hsent : (Calls.final (enrollPeer w mac secondary s)).sentFrames ≠ s.sentFrames) :
    AckAgrees w s mac secondary ↔ ∀ key key', s.lastRelayed mac = some key →
      s.peers.keyOf mac = some key' → fingerprintOf key' = fingerprintOf key := by
  have hack : Acknowledges s mac (Calls.final (enrollPeer w mac secondary s)) :=
    Calls.wp_final (wp_mono _ (fun _ _ h => h.1) (fun _ _ h => h) wp_approve)
  obtain ⟨registered, a, hkey, hframes, hfinger⟩ := hack.resolve_left hsent
  constructor
  · intro h key key' hlast hkey'
    obtain rfl := Option.some.inj (hkey.symm.trans hkey')
    rw [← hfinger]
    exact h [(broadcastMac, a)] hframes _ List.mem_cons_self key hlast
  · intro h l hl x hx key hlast
    rw [hframes] at hl
    obtain rfl : [(broadcastMac, a)] = l := List.append_cancel_right hl
    obtain rfl := List.mem_singleton.1 hx
    exact hfinger.trans (h key registered hlast hkey)

/-! ### Passing on -/

/-- Passing on the requests leaves none to wait. -/
theorem wp_drainPendingRelay : wp drainPendingRelay (fun _ t => t.isMaster = s.isMaster ∧
    t.peers = s.peers ∧ t.relayed = s.enrollment.relayQueue.reverse ++ s.relayed ∧
    t.enrollment.relayQueue = []) (fun _ _ => False) s := by
  have hloop : ∀ (l : List (Mac × Key)) (s : Node),
      wp (l.forM fun x => emit (.relayToServer x.1 x.2)) (fun _ t =>
        t.isMaster = s.isMaster ∧ t.peers = s.peers ∧ t.relayed = l.reverse ++ s.relayed)
        (fun _ _ => False) s := by
    intro l
    induction l with
    | nil => exact fun s => ⟨rfl, rfl, rfl⟩
    | cons x l ih =>
      intro s
      show wp (emit (.relayToServer x.1 x.2) >>= fun _ =>
        l.forM fun x => emit (.relayToServer x.1 x.2)) _ _ s
      rw [wp_bind, wp_emit]
      refine wp_mono _ (fun _ t ht => ⟨ht.1, ht.2.1, ?_⟩) (fun _ _ h => h) (ih _)
      rw [ht.2.2, List.reverse_cons, List.append_assoc]
      rfl
  unfold drainPendingRelay
  rw [wp_bind, wp_get, wp_bind]
  refine wp_mono _ (fun _ t ht => ?_) (fun _ _ h => h) (hloop _ s)
  rw [wp_modify]
  exact ⟨ht.1, ht.2.1, ht.2.2, rfl⟩

/-! ### Runs -/

/-- What the server saw last for an address, and what it is about to see last, has the fingerprint
of the registered key. -/
structure Agreed (s : Node) : Prop where
  isMaster : s.isMaster = true
  relayed : ∀ mac, ∀ key ∈ s.peers.keyOf mac, ∀ key' ∈ s.lastRelayed mac,
    fingerprintOf key' = fingerprintOf key
  pending : ∀ mac, ∀ key ∈ s.peers.keyOf mac, ∀ key' ∈ s.lastPending mac,
    fingerprintOf key' = fingerprintOf key

/-- A registered address without an established key is given the key of a request. -/
theorem PeerRegistry.stores_of_keyOf {r : PeerRegistry} {key : Key} (hk : r.keyOf mac = some key)
    (he : r.keyEstablished mac = false) : r.stores mac false = true := by
  obtain ⟨p, hp, -⟩ := Option.map_eq_some_iff.1 hk
  rw [stores, he, hp]
  rfl

/-- What the server is about to see last, once the request was queued. -/
theorem RequestHeard.lastPending (ht : RequestHeard w s m t) (mac : Mac) : t.lastPending mac =
    if w.ringbufAccepts s.enrollment.relayQueue.length = true ∧ mac = m.originMac then
      some m.enrollmentPublicKey
    else s.lastPending mac := by
  unfold Node.lastPending latestKey
  rw [ht.queue]
  by_cases hroom : w.ringbufAccepts s.enrollment.relayQueue.length = true
  · rw [if_pos hroom, List.reverse_append, List.reverse_singleton, List.singleton_append,
      List.find?_cons]
    by_cases hmac : mac = m.originMac
    · simp [hroom, hmac]
    · simp [hmac, Ne.symm hmac]
  · simp [hroom]

/-- **A request keeps the agreement exactly if it agrees.** -/
theorem Agreed.request_iff (h : Agreed s) (ht : RequestHeard w s m t) :
    Agreed t ↔ RequestAgrees w s m := by
  have hrelayed : ∀ mac, t.lastRelayed mac = s.lastRelayed mac := fun mac => by
    rw [Node.lastRelayed, ht.relayed]
    rfl
  have hkept : s.peers.keyEstablished m.originMac = true →
      s.peers.stores m.originMac false = false :=
    fun he => by simp [PeerRegistry.stores, he]
  constructor
  · intro ht'
    -- the three parts of the condition: one for each place in which an older key may still be
    refine ⟨fun he hroom key hkey => ?_, fun hs key hkey => ?_, fun hs hroom key hkey => ?_⟩
    · refine ht'.pending m.originMac key ?_ _ ?_
      · rw [ht.keyOf, if_neg (by rw [hkept he]; simp)]
        exact hkey
      · rw [ht.lastPending, if_pos ⟨hroom, rfl⟩]
        rfl
    · refine ht'.relayed m.originMac _ ?_ key ?_
      · rw [ht.keyOf, if_pos ⟨hs, rfl⟩]
        rfl
      · rw [hrelayed]
        exact hkey
    · refine ht'.pending m.originMac _ ?_ key ?_
      · rw [ht.keyOf, if_pos ⟨hs, rfl⟩]
        rfl
      · rw [ht.lastPending, if_neg (by rw [hroom]; simp)]
        exact hkey
  -- an address has the key of the request, or the key that it had
  · intro hm
    refine ⟨ht.isMaster.trans h.isMaster, fun mac key hk key' hk' => ?_,
      fun mac key hk key' hk' => ?_⟩
    · rw [hrelayed] at hk'
      rw [ht.keyOf] at hk
      split at hk
      · rename_i hnew
        obtain rfl := Option.some.inj hk
        exact hm.relayed hnew.1 key' (hnew.2 ▸ hk')
      · exact h.relayed mac key hk key' hk'
    -- what waits for the server last is the request, or what waited before
    · rw [ht.lastPending] at hk'
      rw [ht.keyOf] at hk
      split at hk
      · rename_i hnew
        obtain rfl := Option.some.inj hk
        split at hk'
        · obtain rfl := Option.some.inj hk'
          rfl
        · rename_i hroom
          refine hm.pending hnew.1 (Bool.eq_false_of_not_eq_true fun hr => ?_) key' (hnew.2 ▸ hk')
          exact hroom ⟨hr, hnew.2⟩
      · rename_i hold
        split at hk'
        · rename_i hnew
          obtain rfl := Option.some.inj hk'
          have hkey : s.peers.keyOf m.originMac = some key := hnew.2 ▸ hk
          refine hm.kept ?_ hnew.1 key hkey
          by_contra he
          exact hold ⟨PeerRegistry.stores_of_keyOf hkey (Bool.eq_false_of_not_eq_true he), hnew.2⟩
        · exact h.pending mac key hk key' hk'

theorem Agreed.of_same (h : Agreed s) (hm : t.isMaster = s.isMaster)
    (hk : ∀ mac, t.peers.keyOf mac = s.peers.keyOf mac) (hr : t.relayed = s.relayed)
    (hq : t.enrollment.relayQueue = s.enrollment.relayQueue) : Agreed t := by
  refine ⟨hm.trans h.isMaster, fun mac key hkey => ?_, fun mac key hkey => ?_⟩
  · rw [Node.lastRelayed, hr]
    exact h.relayed mac key (by rwa [← hk])
  · rw [Node.lastPending, hq]
    exact h.pending mac key (by rwa [← hk])

/-- A call that agrees keeps the agreement. -/
theorem agreed_step {op : EnrollOp} (h : Agreed s) (hop : op.Agrees w s) :
    wp (op.run w) (fun _ t => Agreed t) (fun _ _ => True) s := by
  cases op with
  | request srcMac m =>
    refine wp_mono _ (fun _ t ht => ?_) (fun _ _ h => h) (wp_request h.isMaster)
    rcases ht with ⟨hpeers, htalk⟩ | ⟨hver, hgate, ht⟩
    · obtain ⟨hm, hq, hr, -⟩ := talk_eq_iff.1 htalk
      exact h.of_same hm (fun _ => by rw [hpeers]) hr hq
    · exact (h.request_iff ht).2 (hop hver hgate)
  | approve mac secondary =>
    refine wp_mono _ (fun _ t ht => ?_) (fun _ _ _ => trivial)
      (wp_and _ wp_approve keyRegistered_enrollPeer)
    obtain ⟨⟨-, hm, hr, hq⟩, hkeys⟩ := ht
    refine h.of_same hm (fun mac' => ?_) hr hq
    rcases hkeys with hkept | ⟨key, hkey, hreg⟩
    · rw [hkept.peers]
    · -- the key that is stored is the one that was registered
      rw [hreg.keyOf]
      split
      · rename_i hnew
        rw [hnew.2, hkey]
      · rfl
  | relay =>
    refine wp_mono _ (fun _ t ht => ?_) (fun _ _ _ => trivial) wp_drainPendingRelay
    obtain ⟨hm, hp, hr, hq⟩ := ht
    refine ⟨hm.trans h.isMaster, fun mac key hk key' hk' => ?_, fun mac key _ key' hk' => ?_⟩
    · -- what was pending was seen last
      rw [hp] at hk
      rw [Node.lastRelayed, hr, latestKey, List.find?_append, Option.map_or] at hk'
      rcases Option.or_eq_some_iff.1 hk' with hk' | ⟨-, hk'⟩
      · exact h.pending mac key hk key' hk'
      · exact h.relayed mac key hk key' hk'
    · rw [Node.lastPending, hq] at hk'
      cases hk'

/-- Where the requests agree, so do the acknowledgements. -/
theorem Agreed.ackAgrees (h : Agreed s) : AckAgrees w s mac secondary := by
  by_cases hsent : (Calls.final (enrollPeer w mac secondary s)).sentFrames = s.sentFrames
  · intro l hl x hx
    rw [hsent, List.self_eq_append_left] at hl
    rw [hl] at hx
    cases hx
  · refine (ackAgrees_iff hsent).2 fun key key' hlast hkey' => ?_
    exact (h.relayed mac key' hkey' key hlast).symm

/-- **An acknowledgement carries the fingerprint of the key that the server saw last**, after every
sequence of requests and approvals at a master whose requests agree. -/
theorem ackAgrees_run {b : Board} {xs : List (Env × EnrollOp)} (hm : s.isMaster = true)
    (hr : s.relayed = []) (hq : s.enrollment.relayQueue = [])
    (hc : Calls.Admits (EnrollOp.call b) (fun s x => x.2.Agrees (b.world x.1) s) s xs)
    (ht : Runs.run (Calls.step (EnrollOp.call b)) (some s) xs = some t) (e : Env) (mac : Mac)
    (secondary : Option (Mac × Key)) : AckAgrees (b.world e) t mac secondary := by
  have h0 : Agreed s := by
    refine ⟨hm, fun mac key _ key' hk' => ?_, fun mac key _ key' hk' => ?_⟩
    · rw [Node.lastRelayed, hr] at hk'
      cases hk'
    · rw [Node.lastPending, hq] at hk'
      cases hk'
  have h := Calls.invariant (I := Agreed)
    (fun s x h hx => agreed_step (w := b.world x.1) h hx) h0 hc ht
  exact h.ackAgrees

namespace Sample

/-- A master that nobody asked yet. -/
def freshMaster : Node := { masterNode [] with radioPeers := [broadcastMac] }

/-- The request of the station 5 under the given key. -/
def requestCall (publicKey : Key) (seqNum : UInt16) : Env × EnrollOp :=
  (env 1 100, .request (Sample.mac 5)
    { frame 5 MessageType.enrollment 1 seqNum with enrollmentPublicKey := publicKey })

/-- The station 5 is enrolled, loses its keys and asks again under the given key. -/
def asksAgain (publicKey : Key) : List (Env × EnrollOp) :=
  [requestCall (key 5) 1, (env 1 110, .relay), (env 1 120, .approve (Sample.mac 5) none),
    requestCall publicKey 2, (env 1 130, .relay)]

/-- The master, which has seen both requests. -/
def askedAgain (publicKey : Key) : Option Node :=
  Runs.run (Calls.step (EnrollOp.call masterBoard)) (some freshMaster) (asksAgain publicKey)

end Sample

set_option maxRecDepth 100000 in
/-- The station 5 asks again with the key that it had. -/
theorem ackAgrees_same_key : ∃ t, Sample.askedAgain (Sample.key 5) = some t ∧
    AckAgrees (Sample.masterBoard.world (Sample.env 1 200)) t (Sample.mac 5) none := by
  have ht : Sample.askedAgain (Sample.key 5) = some _ := rfl
  refine ⟨_, ht, ackAgrees_run rfl rfl rfl ?_ ht _ _ _⟩
  refine ⟨?_, ?_, ?_, ?_, ?_, trivial⟩ <;> rintro _ ⟨⟩
  · exact fun _ _ => ⟨by decide, by decide, by decide⟩
  · trivial
  · trivial
  · exact fun _ _ => ⟨by decide, by decide, by decide⟩
  · trivial

set_option maxRecDepth 100000 in
/-- **A node that comes back with a new key is acknowledged with the old one**: the server saw the
request with the new key and approves it. -/
theorem not_ackAgrees_new_key : ∃ t, Sample.askedAgain (Sample.key 6) = some t ∧
    t.isMaster = true ∧ t.lastRelayed (Sample.mac 5) = some (Sample.key 6) ∧
      ¬AckAgrees (Sample.masterBoard.world (Sample.env 1 200)) t (Sample.mac 5) none := by
  have ht : Sample.askedAgain (Sample.key 6) = some _ := rfl
  refine ⟨_, ht, rfl, by decide +kernel, fun h => ?_⟩
  have hack := h [(broadcastMac, _)] rfl _ List.mem_cons_self (Sample.key 6) (by decide +kernel)
  revert hack
  decide +kernel

end LatticeMesh
