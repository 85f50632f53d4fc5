import LatticeMesh.KeyLookup
import LatticeMesh.Lib.ChainMac
import Mathlib.Data.List.Induction

/-!
# The authentication code of a route report

Three places compute one code.  The origin of a route report starts it, every relay extends it while
it appends itself to the path, and the master recomputes it from the path and its own keys.  They
agree at every position, so a report that was passed on by enrolled relays is accepted and its path
is recorded.

## Main definitions

* `seedCode`, `extendCode`, `pathCode` — the code at the origin, behind a relay, and of a path.
* `Message.path` — the addresses on the path of a route report.
* `Collected` — what a report has collected behind some relays.
* `ValidReport` — what a report has to be for the master to record its path.
* `PassesOn`, `Reported` — a report that is built and passed on from relay to relay.

## Main results

* `Collected.relay` — a relay extends what was collected by itself.
* `wp_verifyHops` — the master recomputes the code of the path.
* `routeReport_accepted` — **a report that at most eight enrolled relays pass on is accepted, and
  its origin is recorded with exactly those relays.**
-/

namespace LatticeMesh

open EffectSpec ChainMac

variable {γ : Type*} {w : World} {s : Node} {c : Crypto}

/-! ### The code -/

/-- The code with which an origin starts the chain. -/
def seedCode (step : Key → Bytes 30 → γ → γ) (zero : γ) (kUp : Key) (m : Message)
    (deviceMac : Mac) : γ :=
  step kUp (buildHopContext m zeroMac deviceMac) zero

/-- The code behind a relay. -/
def extendCode (step : Key → Bytes 30 → γ → γ) (kUp : Key) (m : Message) (deviceMac : Mac)
    (code : γ) : γ :=
  step kUp (buildHopContext m (prevHopOf m) deviceMac) code

/-- The code of a path, under the key of the origin and the keys of its relays. -/
def pathCode (step : Key → Bytes 30 → γ → γ) (zero : γ) (m : Message) (kUp : Key)
    (relays : List (Mac × Key)) : γ :=
  chain step (buildHopContext m) m.originMac relays (seedCode step zero kUp m m.originMac)

/-- The context of a hop rests on the origin, the target, the epoch and the sequence number. -/
theorem buildHopContext_relay {m r : Message} (h : Message.RelayOf m r) :
    buildHopContext r = buildHopContext m := by
  rw [Message.relayOf_iff.1 h]
  rfl

/-- The origin of a route report writes the seed into it. -/
theorem seedAuthPath_eq {kUp : Key} {m : Message} {deviceMac : Mac}
    (h : m.messageType = MessageType.routeReport) :
    seedAuthPath c kUp m deviceMac =
      { m with authPath := seedCode (chainStep c) (Bytes.zero 8) kUp m deviceMac } :=
  if_pos h

theorem Message.relayOf_appendHop (m : Message) (deviceMac : Mac) :
    Message.RelayOf m (appendHop m deviceMac) := by
  unfold appendHop
  split <;> rfl

/-- A relay writes the extended code into the report. -/
theorem extendAuthPath_eq (kUp : Key) (m : Message) (deviceMac : Mac) :
    extendAuthPath c kUp (appendHop m deviceMac) (prevHopOf m) deviceMac =
      { appendHop m deviceMac with
        authPath := extendCode (chainStep c) kUp m deviceMac m.authPath } := by
  have ha : (appendHop m deviceMac).authPath = m.authPath := by
    unfold appendHop
    split <;> rfl
  unfold extendAuthPath extendCode
  rw [buildHopContext_relay (m.relayOf_appendHop deviceMac), ha]

/-! ### The path -/

/-- The addresses on the path of a route report. -/
def Message.path (m : Message) : List Mac := m.hopIndices.map m.hop

theorem Message.path_length {m : Message} (h : m.routeLen.toNat ≤ maxHops) :
    m.path.length = m.routeLen.toNat := by
  rw [path, hopIndices, List.length_map, List.length_take, List.length_finRange]
  exact min_eq_left h

theorem Message.path_getElem? (m : Message) (i : Fin maxHops) :
    m.path[i.val]? = if i.val < m.routeLen.toNat then some (m.hop i) else none := by
  rw [path, hopIndices, List.getElem?_map, List.getElem?_take]
  split
  · rw [List.getElem?_eq_getElem (by rw [List.length_finRange]; exact i.isLt),
      List.getElem_finRange, Option.map_some]
    rfl
  · rfl

/-- The hop before a relay is the last one on the path, or the origin. -/
theorem prevHopOf_eq {m : Message} (h : m.routeLen.toNat ≤ maxHops) :
    prevHopOf m = m.path.getLastD m.originMac := by
  unfold prevHopOf
  split
  · rename_i hpos
    have hlast := m.path_getElem? ⟨m.routeLen.toNat - 1, by omega⟩
    rw [if_pos (show m.routeLen.toNat - 1 < _ by omega)] at hlast
    rw [List.getLastD_eq_getLast?, List.getLast?_eq_getElem?, Message.path_length h]
    exact (congrArg (Option.getD · m.originMac) hlast).symm
  · rename_i hzero
    have hnil : m.path = [] := List.eq_nil_of_length_eq_zero (by rw [Message.path_length h]; omega)
    rw [hnil]
    rfl

theorem toNat_routeLen_succ {m : Message} (h : m.routeLen.toNat < maxHops) :
    (m.routeLen + 1).toNat = m.routeLen.toNat + 1 := by
  simp only [maxHops] at h
  rw [UInt8.toNat_add]
  show (m.routeLen.toNat + 1) % 256 = _
  omega

/-- A relay appends itself to the path. -/
theorem path_appendHop {m : Message} {deviceMac : Mac} (h : m.routeLen.toNat < maxHops) :
    (appendHop m deviceMac).path = m.path ++ [deviceMac] := by
  have hlen : (appendHop m deviceMac).routeLen.toNat = m.routeLen.toNat + 1 := by
    rw [appendHop, dif_pos h]
    exact toNat_routeLen_succ h
  have hpath : (appendHop m deviceMac).routePath =
      setRouteHop m.routePath ⟨m.routeLen.toNat, h⟩ deviceMac := by
    rw [appendHop, dif_pos h]
  have hidx : (List.finRange maxHops).take (m.routeLen.toNat + 1) =
      (List.finRange maxHops).take m.routeLen.toNat ++ [⟨m.routeLen.toNat, h⟩] := by
    rw [List.take_succ_eq_append_getElem (by rw [List.length_finRange]; exact h),
      List.getElem_finRange]
    rfl
  unfold Message.path Message.hopIndices Message.hop
  rw [hlen, hpath, hidx, List.map_append, List.map_singleton, routeHop_setRouteHop]
  congr 1
  refine List.map_congr_left fun i hi => routeHop_setRouteHop_of_ne _ _ ?_
  -- the slots in use lie before the one that is written
  obtain ⟨j, hj, rfl⟩ := List.mem_take_iff_getElem.1 hi
  rw [List.getElem_finRange]
  simp only [List.length_finRange] at hj
  intro he
  have hval := congrArg Fin.val he
  simp at hval
  omega

/-! ### Collecting -/

/-- What the report `m₀`, started under the key `kUp`, has collected behind the given relays. -/
structure Collected (c : Crypto) (m₀ : Message) (kUp : Key) (relays : List (Mac × Key))
    (m : Message) : Prop where
  relayOf : Message.RelayOf m₀ m
  routeLen : m.routeLen.toNat = relays.length
  hopCount : m.hopCount.toNat = relays.length
  path : m.path = relays.map Prod.fst
  code : m.authPath = pathCode (chainStep c) (Bytes.zero 8) m₀ kUp relays

variable {m₀ m : Message} {kUp : Key} {relays : List (Mac × Key)} {keyAt : Mac → Key}

/-- A relay extends what was collected by itself. -/
theorem Collected.relay (h : Collected c m₀ kUp relays m) {deviceMac : Mac} {k : Key}
    (hlt : relays.length < maxHops) :
    Collected c m₀ kUp (relays ++ [(deviceMac, k)])
      (extendAuthPath c k (appendHop m deviceMac) (prevHopOf m) deviceMac) := by
  have hr : m.routeLen.toNat < maxHops := by rw [h.routeLen]; exact hlt
  have hroute : (appendHop m deviceMac).routeLen.toNat = relays.length + 1 := by
    rw [appendHop, dif_pos hr, ← h.routeLen]
    exact toNat_routeLen_succ hr
  have hcount : (appendHop m deviceMac).hopCount.toNat = relays.length + 1 := by
    have hc : (appendHop m deviceMac).hopCount = m.hopCount + 1 := by
      rw [appendHop, dif_pos hr]; rfl
    simp only [maxHops] at hlt
    rw [hc, UInt8.toNat_add, h.hopCount]
    show (relays.length + 1) % 256 = _
    omega
  have horigin : m.originMac = m₀.originMac := by rw [Message.relayOf_iff.1 h.relayOf]; rfl
  have hprev : prevHopOf m = lastHop m₀.originMac relays := by
    rw [prevHopOf_eq (le_of_lt hr), h.path, horigin, lastHop]
  rw [extendAuthPath_eq]
  refine ⟨h.relayOf.trans (m.relayOf_appendHop deviceMac), ?_, ?_, ?_, ?_⟩
  · rw [List.length_append]
    exact hroute
  · rw [List.length_append]
    exact hcount
  · rw [List.map_append, ← h.path]
    exact path_appendHop hr
  · rw [pathCode, chain_concat]
    show extendCode (chainStep c) k m deviceMac m.authPath = _
    rw [extendCode, buildHopContext_relay h.relayOf, hprev, h.code, pathCode]

/-! ### Verification -/

/-- The relays on the path of a report, each with the key that the master knows for it. -/
def Message.keyedPath (m : Message) (keyAt : Mac → Key) : List (Mac × Key) :=
  m.path.map fun hop => (hop, keyAt hop)

/-- The master folds the hops into the code, each under the key it knows for the hop. -/
theorem wp_verifyHops {hops : List Mac} {prevHop : Mac} {code : AuthPath}
    (h : KnowsKeys w.crypto s keyAt) :
    wp (verifyHops w m hops prevHop code) (fun r t => t.routes = s.routes ∧
      (∀ x, r = some x → x = chain (chainStep w.crypto) (buildHopContext m) prevHop
        (hops.map fun hop => (hop, keyAt hop)) code) ∧
      ((∀ hop ∈ hops, Usable w.crypto s hop) → r.isSome = true) ∧
      (CacheCoherent w.crypto s → r.isSome = true → ∀ hop ∈ hops, Usable w.crypto s hop))
      (fun _ _ => ¬∀ hop ∈ hops, Usable w.crypto s hop) s := by
  -- by induction on the hops, with the state after the lookups of the earlier ones
  induction hops generalizing prevHop code s with
  | nil =>
    refine ⟨rfl, ?_, fun _ => rfl, fun _ _ => by simp⟩
    rintro _ ⟨⟩
    rfl
  | cons hop hops ih =>
    unfold verifyHops
    rw [wp_bind]
    refine wp_mono _ (fun r t ht => ?_) (fun _ _ hno hall => ?_) wp_peerE2EKeys
    · obtain ⟨hr, hlook⟩ := ht
      have hroutes : t.routes = s.routes := by
        rcases hlook with rfl | ⟨keys, -, rfl⟩ <;> rfl
      cases r with
      | none =>
        exact ⟨hroutes, by simp, fun hall =>
          absurd hr.symm (hall hop List.mem_cons_self).keysOf_ne_none, fun _ hno => by cases hno⟩
      | some keys =>
        dsimp only
        rw [h.of_keysOf hr.symm]
        refine wp_mono _ (fun x u hu => ?_) (fun _ _ hno hall => hno fun y hy => ?_)
          (ih (h.lookedUp hr hlook))
        · refine ⟨hu.1.trans hroutes, hu.2.1, fun hall => hu.2.2.1 fun y hy => ?_,
            fun hcoh hsome y hy => ?_⟩
          · exact (hall y (List.mem_cons_of_mem _ hy)).lookedUp hlook
          · rcases List.mem_cons.1 hy with rfl | hy
            · exact hcoh.usable hr.symm
            · exact (hu.2.2.2 (hcoh.lookedUp hr hlook) hsome y hy).of_lookedUp hlook
        · exact (hall y (List.mem_cons_of_mem _ hy)).lookedUp hlook
    · exact (hall hop List.mem_cons_self).keysOf_ne_none hno

/-- What a route report has to be for the master to record its path. -/
structure ValidReport (c : Crypto) (s : Node) (keyAt : Mac → Key) (m opened : Message) : Prop where
  usable : ∀ mac, mac = m.originMac ∨ mac ∈ m.path → Usable c s mac
  opens : openPayload c (keyAt m.originMac) m = some opened
  opcode : opened.byte 0 = Opcode.routeReport
  routeLen : m.routeLen.toNat ≤ maxHops
  code : m.authPath =
    pathCode (chainStep c) (Bytes.zero 8) m (keyAt m.originMac) (m.keyedPath keyAt)

/-- The state after the path of a report was recorded. -/
def Node.recorded (s : Node) (m : Message) (nowMs : UInt64) : Node :=
  { s with
    routes := s.routes.map fun routes => routes.record m.originMac m.routePath m.routeLen nowMs }

/-- A route report at the master: a valid one is recorded and delivered, every other one is dropped;
the path of a report that is recorded has the code that the report carries. -/
theorem wp_acceptRouteReport {cb : Message → MeshM Unit} {Q : Unit → Node → Prop}
    {E : Halt → Node → Prop} (h : KnowsKeys w.crypto s keyAt)
    (hdrop : ∀ t : Node, t.routes = s.routes → (∀ o, ¬ValidReport w.crypto s keyAt m o) → Q () t)
    (hfail : ∀ e t, (∀ o, ¬ValidReport w.crypto s keyAt m o) → E e t)
    (hrec : ∀ (t : Node) opened, t.routes = s.routes →
      openPayload w.crypto (keyAt m.originMac) m = some opened → m.routeLen.toNat ≤ maxHops →
      m.authPath = pathCode (chainStep w.crypto) (Bytes.zero 8) m (keyAt m.originMac)
        (m.keyedPath keyAt) →
      (CacheCoherent w.crypto s → ValidReport w.crypto s keyAt m opened) →
      wp (cb opened) Q E (t.recorded m w.nowMs)) :
    wp (acceptRouteReport w m cb) Q E s := by
  have hroutes : ∀ {mac : Mac} {r : Option E2EKeys} {t : Node}, LookedUp s mac r t →
      t.routes = s.routes := by
    rintro mac r t (rfl | ⟨keys, -, rfl⟩) <;> rfl
  unfold acceptRouteReport
  rw [wp_bind]
  refine wp_mono _ (fun r t ht => ?_) (fun _ _ hno => hfail _ _ fun o ho => ?_)
    wp_peerE2EKeys
  -- the keys of the origin could not be derived at all
  swap
  · exact (ho.usable _ (.inl rfl)).keysOf_ne_none hno
  obtain ⟨hr, hlook⟩ := ht
  have ht := hroutes hlook
  cases r with
  | none => exact hdrop t ht fun o ho => absurd hr.symm (ho.usable _ (.inl rfl)).keysOf_ne_none
  | some keys =>
    dsimp only
    rw [h.of_keysOf hr.symm]
    unfold openWith
    cases hopen : openPayload w.crypto (keyAt m.originMac) m with
    | none =>
      refine hdrop t ht fun o ho => ?_
      rw [ho.opens] at hopen
      cases hopen
    | some opened =>
      rw [wp_bind]
      dsimp only
      rw [wp_bind, wp_emit, wp_pure]
      dsimp only
      -- a payload of another kind, or a path that does not fit
      split
      · rename_i hbad
        refine hdrop _ ht fun o ho => ?_
        obtain rfl := Option.some.inj (ho.opens.symm.trans hopen)
        rcases hbad with hop | hlen
        · exact hop ho.opcode
        · exact absurd ho.routeLen (not_le.2 hlen)
      · rename_i hgood
        simp only [not_or, not_not, not_lt] at hgood
        unfold verifyChain
        rw [wp_bind]
        -- the keys that the chain is checked with are the ones of the state before
        have hk : KnowsKeys w.crypto (t.emit (.opened (keyAt m.originMac) m)) keyAt :=
          ⟨(h.lookedUp hr hlook).cached, (h.lookedUp hr hlook).derived⟩
        have hu : ∀ o, ValidReport w.crypto s keyAt m o → ∀ hop ∈ m.path,
            Usable w.crypto (t.emit (.opened (keyAt m.originMac) m)) hop := by
          intro o ho hop hin
          have := (ho.usable hop (.inr hin)).lookedUp hlook
          exact ⟨this.capacity, this.keyed⟩
        refine wp_mono _ (fun x u hx => ?_) (fun _ _ hno => hfail _ _ fun o ho => hno (hu o ho))
          (wp_verifyHops hk)
        obtain ⟨hur, hcode, hsome, hfound⟩ := hx
        -- the code matches, so the path is recorded
        split
        · rename_i heq
          rw [wp_bind, wp_modify]
          refine hrec u opened (hur.trans ht) hopen hgood.2 (hcode _ heq) fun hcoh => ?_
          have hcoh' : CacheCoherent w.crypto t := hcoh.lookedUp hr hlook
          refine ⟨fun mac hmac => ?_, hopen, hgood.1, hgood.2, hcode _ heq⟩
          rcases hmac with rfl | hmac
          · exact hcoh.usable hr.symm
          · have hu := hfound hcoh' (by rw [heq]; rfl) mac hmac
            have hut : Usable w.crypto t mac := ⟨hu.capacity, hu.keyed⟩
            exact hut.of_lookedUp hlook
        -- the code does not match, and that of a valid report would
        · rename_i hne
          refine hdrop u (hur.trans ht) fun o ho => hne ?_
          obtain ⟨y, hy⟩ := Option.isSome_iff_exists.1 (hsome (hu o ho))
          rw [hy, hcode y hy, ho.code]
          rfl

/-! ### From the origin to the master -/

/-- Run from `s`, the program comes down to routing the frame `m` toward the master. -/
def PassesOn (w : World) (s : Node) (x : MeshM Unit) (m : Message) : Prop :=
  ∃ t, x s = routeToMaster w m t

/-- A relay that knows the master passes on the report with itself appended. -/
theorem passesOn_relay {cb : Message → MeshM Unit} {keys : E2EKeys} (hl : s.isMaster = false)
    (hk : s.masterKeys w.crypto = some keys) (ho : m.originMac ≠ s.deviceMac)
    (hh : m.hopCount.toNat < maxHops) (hr : m.routeLen.toNat < maxHops) :
    PassesOn w s (processRouteReport w m cb)
      (extendAuthPath w.crypto keys.kUp (appendHop m s.deviceMac) (prevHopOf m) s.deviceMac) := by
  obtain ⟨r, t, hx, rfl, hlook⟩ := exists_ok (wp_masterE2EKeys hk)
  refine ⟨t, ?_⟩
  have hdev : t.deviceMac = s.deviceMac := by
    rcases hlook with rfl | ⟨_, -, rfl⟩ <;> rfl
  set relay :=
    extendAuthPath w.crypto keys.kUp (appendHop m s.deviceMac) (prevHopOf m) s.deviceMac with hrelay
  -- the relay did not start the report, so it does not seal it again
  have horigin : relay.originMac = m.originMac := by
    rw [hrelay, extendAuthPath_eq, Message.relayOf_iff.1 (m.relayOf_appendHop s.deviceMac)]
    rfl
  have hframe : ∀ b, transmitFrame w MessageType.routeReport b relay t =
      routeToMaster w relay t := by
    intro b
    show (if _ then _ else _ : MeshM Unit) t = _
    have hre : retarget t MessageType.routeReport relay = relay :=
      if_neg (by simp [MessageType.routeReport, MessageType.adapterData])
    rw [hre, if_neg (by rw [horigin, hdev]; simp [ho])]
  show (if s.isMaster then _ else relayRouteReport w m) s = _
  rw [if_neg (by simp [hl])]
  show (if _ then _ else _ : MeshM Unit) s = _
  rw [if_neg (by omega), bind_ok hx]
  exact hframe _

/-- What the origin of a report needs: the frame is built, passes the seal guard, and is sealed with
the keys of the master. -/
structure OriginReady (w : World) (o o₁ : Node) (built sealedReport : Message) (keys : E2EKeys) :
    Prop where
  isBuilt :
    buildMessage w AdapterType.unknown routeReportData MessageType.routeReport o = .ok built o₁
  isGuarded : o₁.txState.sealAdvances built.epochNum built.seqNum = true
  hasKeys : o₁.masterKeys w.crypto = some keys
  isSealed : sealPayload w.crypto keys.kUp built = some sealedReport

/-- The report that the origin starts. -/
def startedReport (c : Crypto) (o : Node) (keys : E2EKeys) (sealedReport : Message) : Message :=
  seedAuthPath c keys.kUp sealedReport o.deviceMac

/-- The frame that an origin builds. -/
theorem OriginReady.built_eq {o o₁ : Node} {built sealedReport : Message} {keys : E2EKeys}
    (h : OriginReady w o o₁ built sealedReport keys) :
    built = builtMessage o.drawn AdapterType.unknown routeReportData MessageType.routeReport
      o.drawn.txState.txSeqNum ∧ o₁ = o.drawn.emit (.built built) := by
  have hd : Does w o .loop o
      (buildMessage w AdapterType.unknown routeReportData MessageType.routeReport) _ :=
    does_buildMessage (.inr (.inl rfl))
  exact (wp_ok h.isBuilt hd).2

/-- An origin passes on the report it started. -/
theorem passesOn_origin {o o₁ : Node} {built sealedReport : Message} {keys : E2EKeys}
    (h : OriginReady w o o₁ built sealedReport keys) :
    PassesOn w o (transmitCore w AdapterType.unknown routeReportData MessageType.routeReport none
      false) (startedReport w.crypto o keys sealedReport) := by
  obtain ⟨hb, ho₁⟩ := h.built_eq
  have hdev : o₁.deviceMac = o.deviceMac := by
    rw [ho₁]
    exact o.drawn_sameDevice.deviceMac
  have horigin : built.originMac = o₁.deviceMac := by
    rw [hb, ho₁]
    rfl
  have htype : built.messageType = MessageType.routeReport := by
    rw [hb]
    rfl
  have hseal : wp (sealUplink w built) (fun r _ => r =
      some (startedReport w.crypto o keys sealedReport)) (fun _ _ => False) o₁ := by
    unfold sealUplink checkEpochRollback
    rw [wp_bind, wp_bind, wp_get, if_pos h.isGuarded, wp_bind, wp_modify, wp_emit, wp_bind, wp_get,
      wp_bind]
    refine wp_mono _ (fun r t ht => ?_) (fun _ _ hf => hf) (wp_masterE2EKeys h.hasKeys)
    obtain ⟨rfl, -⟩ := ht
    rw [wp_bind, wp_emit, h.isSealed, startedReport, ← hdev]
    rfl
  obtain ⟨r, t, hx, rfl⟩ := exists_ok hseal
  refine ⟨t, ?_⟩
  show (buildMessage w AdapterType.unknown routeReportData MessageType.routeReport >>=
    fun m => transmitFrame w MessageType.routeReport false m) o = _
  rw [bind_ok h.isBuilt]
  show (if _ then _ else _ : MeshM Unit) o₁ = _
  have hre : retarget o₁ MessageType.routeReport built = built :=
    if_neg (by simp [MessageType.routeReport, MessageType.adapterData])
  rw [hre, if_pos ⟨rfl, horigin, by rw [htype]; decide⟩, bind_ok hx]

/-- What a relay of a report needs: it is no master, it is not the origin, and it shares with the
master the key that the master knows for it. -/
structure RelayReady (c : Crypto) (keyAt : Mac → Key) (origin : Mac) (x : World × Node)
    (keys : E2EKeys) : Prop where
  crypto : x.1.crypto = c
  leaf : x.2.isMaster = false
  other : x.2.deviceMac ≠ origin
  hasKeys : x.2.masterKeys c = some keys
  shared : keys.kUp = keyAt x.2.deviceMac

/-- The report `m` was passed on by the given relays in turn, each of which took in the report that
the one before it passed on. -/
inductive Reported (c : Crypto) (started : Message) : List (World × Node) → Message → Prop
  | origin : Reported c started [] started
  | relay {rs x m keys} (h : Reported c started rs m) (hk : x.2.masterKeys c = some keys)
      (hp : ∀ cb, PassesOn x.1 x.2 (processRouteReport x.1 m cb)
        (extendAuthPath c keys.kUp (appendHop m x.2.deviceMac) (prevHopOf m) x.2.deviceMac)) :
      Reported c started (rs ++ [x])
        (extendAuthPath c keys.kUp (appendHop m x.2.deviceMac) (prevHopOf m) x.2.deviceMac)

/-- A report that was just started has collected nothing. -/
theorem OriginReady.collected {o o₁ : Node} {built sealedReport : Message} {keys : E2EKeys}
    (h : OriginReady w o o₁ built sealedReport keys) :
    Collected w.crypto (startedReport w.crypto o keys sealedReport) keys.kUp []
      (startedReport w.crypto o keys sealedReport) := by
  obtain ⟨hb, -⟩ := h.built_eq
  obtain ⟨⟨data, tag⟩, -, hs⟩ := Option.map_eq_some_iff.1 h.isSealed
  have hmac : o.drawn.deviceMac = o.deviceMac := o.drawn_sameDevice.deviceMac
  have hstart : startedReport w.crypto o keys sealedReport =
      { sealedReport with
        authPath :=
          seedCode (chainStep w.crypto) (Bytes.zero 8) keys.kUp sealedReport o.deviceMac } :=
    seedAuthPath_eq (by rw [← hs, hb]; rfl)
  have horigin : sealedReport.originMac = o.deviceMac := by
    rw [← hs, hb]
    exact hmac
  have hlen : sealedReport.routeLen = 0 := by rw [← hs, hb]; rfl
  rw [hstart]
  refine ⟨rfl, ?_, ?_, ?_, ?_⟩
  · show sealedReport.routeLen.toNat = 0
    rw [hlen]
    rfl
  · show sealedReport.hopCount.toNat = 0
    rw [← hs, hb]
    rfl
  · show ((List.finRange maxHops).take sealedReport.routeLen.toNat).map _ = []
    rw [hlen]
    rfl
  · rw [pathCode, chain]
    show seedCode (chainStep w.crypto) (Bytes.zero 8) keys.kUp sealedReport o.deviceMac =
      seedCode (chainStep w.crypto) (Bytes.zero 8) keys.kUp sealedReport sealedReport.originMac
    rw [horigin]

/-- Relays that know the master pass the report on, up to the hop limit. -/
theorem reported {rs : List (World × Node)} {started : Message}
    (h₀ : Collected c started kUp [] started) (hlen : rs.length ≤ maxHops)
    (hrs : ∀ x ∈ rs, ∃ keys, RelayReady c keyAt started.originMac x keys) :
    ∃ m, Reported c started rs m ∧ Collected c started kUp
      (rs.map fun x => (x.2.deviceMac, keyAt x.2.deviceMac)) m := by
  -- by induction on the last relay, as each takes in what the one before it passed on
  induction rs using List.reverseRecOn with
  | nil => exact ⟨started, .origin, h₀⟩
  | append_singleton rs x ih =>
    rw [List.length_append, List.length_singleton] at hlen
    obtain ⟨m, hm, hcoll⟩ := ih (by omega) fun y hy => hrs y (List.mem_append_left _ hy)
    obtain ⟨keys, hx⟩ := hrs x (List.mem_append_right _ (List.mem_singleton_self x))
    have horigin : m.originMac = started.originMac := by
      rw [Message.relayOf_iff.1 hcoll.relayOf]
      rfl
    have hcount : m.hopCount.toNat < maxHops := by
      rw [hcoll.hopCount, List.length_map]
      exact hlen
    have hroute : m.routeLen.toNat < maxHops := by
      rw [hcoll.routeLen, List.length_map]
      exact hlen
    refine ⟨_, .relay hm hx.hasKeys fun cb => ?_, ?_⟩
    · rw [← hx.crypto]
      exact passesOn_relay hx.leaf (by rw [hx.crypto]; exact hx.hasKeys)
        (by rw [horigin]; exact Ne.symm hx.other) hcount hroute
    · rw [List.map_append, List.map_singleton, ← hx.shared]
      exact hcoll.relay (by rw [List.length_map]; exact hlen)

/-- A relayed copy opens as the original does. -/
theorem openPayload_of_relay {key : Key} {r o : Message} (h : Message.RelayOf m r)
    (ho : openPayload c key m = some o) :
    openPayload c key r = some { r with data := o.data } := by
  obtain ⟨data, hd, rfl⟩ := Option.map_eq_some_iff.1 ho
  rw [Message.relayOf_iff.1 h]
  show Option.map _ (c.aeadOpen key (buildNonce m) (buildAad m) m.data m.authTag) = _
  rw [hd]
  rfl

/-- **A route report that at most eight enrolled relays pass on is accepted**: the origin starts it,
each relay appends itself, and the master delivers it and records for the origin exactly those
relays, in the order from the origin to the master. -/
theorem routeReport_accepted {w' : World} {o o₁ M : Node} {built sealedReport : Message}
    {keys : E2EKeys} {rs : List (World × Node)} {routes : RouteTable} (cb : Message → MeshM Unit)
    (ho : OriginReady w o o₁ built sealedReport keys) (hkey : keys.kUp = keyAt o.deviceMac)
    (hopens : w.crypto.OpensSealed) (hlen : rs.length ≤ maxHops)
    (hrs : ∀ x ∈ rs, ∃ k, RelayReady w.crypto keyAt o.deviceMac x k)
    (hc : w'.crypto = w.crypto) (hM : M.isMaster = true) (hroutes : M.routes = some routes)
    (hknows : KnowsKeys w.crypto M keyAt)
    (huse : ∀ mac, mac = o.deviceMac ∨ mac ∈ rs.map (fun x => x.2.deviceMac) →
      Usable w.crypto M mac) :
    PassesOn w o (transmitCore w AdapterType.unknown routeReportData MessageType.routeReport none
      false) (startedReport w.crypto o keys sealedReport) ∧
    ∃ m, Reported w.crypto (startedReport w.crypto o keys sealedReport) rs m ∧
      ∃ t, (t.routes.bind fun routes => routes.relaysOf o.deviceMac) =
          some (rs.map fun x => x.2.deviceMac) ∧
        processRouteReport w' m cb M = cb { m with data := routeReportData } t := by
  have horigin : (startedReport w.crypto o keys sealedReport).originMac = o.deviceMac := by
    rw [startedReport, seedAuthPath_originMac, sealPayload_originMac ho.isSealed, ho.built_eq.1]
    exact o.drawn_sameDevice.deviceMac
  refine ⟨passesOn_origin ho, ?_⟩
  obtain ⟨m, hm, hcoll⟩ := reported ho.collected hlen (by rw [horigin]; exact hrs)
  refine ⟨m, hm, exists_eq ?_⟩
  -- the report still names its origin and its relays, and opens under the key of the origin
  have hmo : m.originMac = o.deviceMac := by
    rw [Message.relayOf_iff.1 hcoll.relayOf]
    exact horigin
  have hpath : m.path = rs.map fun x => x.2.deviceMac := by
    rw [hcoll.path, List.map_map]
    rfl
  have hrl : m.routeLen.toNat ≤ maxHops := by
    rw [hcoll.routeLen, List.length_map]
    exact hlen
  have hopen : openPayload w'.crypto (keyAt m.originMac) m =
      some { m with data := routeReportData } := by
    have hs := openPayload_sealPayload hopens ho.isSealed
    have hrel : Message.RelayOf sealedReport m :=
      Message.RelayOf.trans (by rw [startedReport, seedAuthPath]; split <;> rfl) hcoll.relayOf
    have hdata : built.data = routeReportData := by rw [ho.built_eq.1]; rfl
    have hk : keyAt m.originMac = keys.kUp := by rw [hmo, hkey]
    rw [hc, hk, openPayload_of_relay hrel hs, hdata]
  -- the codes of the relays are those that the master computes with its own keys
  have hcode : m.authPath = pathCode (chainStep w'.crypto) (Bytes.zero 8) m (keyAt m.originMac)
      (m.keyedPath keyAt) := by
    have hctx := buildHopContext_relay hcoll.relayOf
    rw [hc, hcoll.code, pathCode, pathCode, seedCode, seedCode, hctx, hmo, horigin, ← hkey,
      Message.keyedPath, hpath, List.map_map]
    rfl
  show wp (if M.isMaster then acceptRouteReport w' m cb else relayRouteReport w' m) _ _ M
  have hvalid : ValidReport w'.crypto M keyAt m { m with data := routeReportData } := by
    refine ⟨fun mac hmac => ?_, hopen, rfl, hrl, hcode⟩
    rw [hc]
    rw [hmo, hpath] at hmac
    exact huse mac hmac
  rw [if_pos hM]
  refine wp_acceptRouteReport (by rw [hc]; exact hknows) (fun _ _ hno => (hno _ hvalid).elim)
    (fun _ _ hno => (hno _ hvalid).elim) fun t opened ht hop _ _ _ => ?_
  obtain rfl := Option.some.inj (hop.symm.trans hopen)
  have hrec : ((t.recorded m w'.nowMs).routes.bind fun routes => routes.relaysOf o.deviceMac) =
      some (rs.map fun x => x.2.deviceMac) := by
    show ((t.routes.map _).bind _) = _
    rw [ht, hroutes, ← hmo]
    show RouteTable.relaysOf _ _ = _
    rw [RouteTable.relaysOf_record routes m.originMac m.routePath w'.nowMs hrl, ← hpath]
    rfl
  unfold wp
  split
  · exact ⟨_, hrec, ‹_›⟩
  · exact ⟨_, hrec, ‹_›⟩

namespace Sample

/-- The surroundings of a node in which everything works. -/
def meshWorld : World := board.world (env 1 100)

/-- The report that the leaf 1 builds. -/
def builtReport : Message :=
  builtMessage (leafNode 1).drawn AdapterType.unknown routeReportData MessageType.routeReport
    (leafNode 1).drawn.txState.txSeqNum

/-- The report of the leaf 1 with its payload sealed. -/
def sealedReport : Message :=
  { builtReport with
    data := builtReport.data.map (· ^^^ (sharedKeys 1).kUp.head)
    authTag := tag (sharedKeys 1).kUp (buildNonce builtReport) builtReport.data }

end Sample

/-- The report of the leaf 1 reaches the master by way of the leaves 2 and 3. -/
theorem routeReport_accepted_two_relays :
    ∃ m, Reported Sample.crypto
        (startedReport Sample.crypto (Sample.leafNode 1) (Sample.sharedKeys 1) Sample.sealedReport)
        [(Sample.meshWorld, Sample.leafNode 2), (Sample.meshWorld, Sample.leafNode 3)] m ∧
      ∃ t : Node, (t.routes.bind fun routes => routes.relaysOf (Sample.mac 1)) =
          some [Sample.mac 2, Sample.mac 3] ∧
        processRouteReport Sample.meshWorld m (fun _ => pure ()) (Sample.masterNode [1, 2, 3]) =
          .ok () t := by
  have hready : OriginReady Sample.meshWorld (Sample.leafNode 1)
      ((Sample.leafNode 1).drawn.emit (.built Sample.builtReport)) Sample.builtReport
      Sample.sealedReport (Sample.sharedKeys 1) := ⟨rfl, by decide, by decide, rfl⟩
  have hrelay : ∀ n : UInt8, n = 2 ∨ n = 3 → RelayReady Sample.crypto Sample.uplinkKey
      (Sample.mac 1) (Sample.meshWorld, Sample.leafNode n) (Sample.sharedKeys n) := by
    rintro n (rfl | rfl) <;> exact ⟨rfl, rfl, by decide, by decide, by decide⟩
  refine (routeReport_accepted (fun _ => pure ()) hready ?_ Sample.opensSealed ?_ ?_ rfl rfl rfl
    Sample.masterNode_knowsKeys ?_).2
  · decide
  · decide
  · intro x hx
    simp only [List.mem_cons, List.not_mem_nil, or_false] at hx
    rcases hx with rfl | rfl
    · exact ⟨_, hrelay 2 (.inl rfl)⟩
    · exact ⟨_, hrelay 3 (.inr rfl)⟩
  · intro mac hmac
    simp only [List.map_cons, List.map_nil, List.mem_cons, List.not_mem_nil, or_false] at hmac
    rcases hmac with rfl | rfl | rfl
    · exact Sample.masterNode_usable (.inl rfl)
    · exact Sample.masterNode_usable (.inr (.inl rfl))
    · exact Sample.masterNode_usable (.inr (.inr rfl))

end LatticeMesh
