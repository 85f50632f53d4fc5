import LatticeMesh.RouteChain

/-!
# Forging a route report

An adversary records what honest nodes emit, feeds them reports of its own making and assembles a
report for the master.  It may write any header; it can compute a step of the chain only under a key
that it holds, and it holds none of the keys that the nodes share with the master.  The codes are
free terms here, and a report carries the value of the term.

## Main definitions

* `Station`, `Report`, `Action` — honest nodes, the reports they take in, and what they do with
  them.
* `Application` — a step of the chain: who made it, for which frame, behind which hop and code.
* `Network` — the histories of the honest nodes among the adversary's doings.
* `Records` — the master records the path of a report.

## Main results

* `buildHopContext_inj` — the context of a hop determines each of its parts.
* `Network.madeOf` — every step inside a code that was emitted was made by an honest node.
* `routeReport_sound` — **if the master records a path, the origin and every relay on it applied its
  own key to exactly its place on the path.**
-/

namespace LatticeMesh

open EffectSpec ChainMac

/-! ### Contexts -/

/-- The context of a hop determines the origin, the target, the epoch, the sequence number, the hop
before and the hop itself. -/
theorem buildHopContext_inj {m n : Message} {p p' d d' : Mac}
    (h : buildHopContext m p d = buildHopContext n p' d') :
    m.originMac = n.originMac ∧ m.targetMac = n.targetMac ∧ m.epochNum = n.epochNum ∧
      m.seqNum = n.seqNum ∧ p = p' ∧ d = d' := by
  obtain ⟨h, hd⟩ := Bytes.append_inj h
  obtain ⟨h, hp⟩ := Bytes.append_inj h
  obtain ⟨h, hs⟩ := Bytes.append_inj h
  obtain ⟨h, he⟩ := Bytes.append_inj h
  obtain ⟨ho, ht⟩ := Bytes.append_inj h
  have he' := Bytes.le_inj (k := 4) (by simpa using m.epochNum.toNat_lt)
    (by simpa using n.epochNum.toNat_lt) he
  have hs' := Bytes.le_inj (k := 2) (by simpa using m.seqNum.toNat_lt)
    (by simpa using n.seqNum.toNat_lt) hs
  exact ⟨ho, ht, UInt32.toNat_inj.1 he', UInt16.toNat_inj.1 hs', hp, hd⟩

/-! ### Honest nodes -/

/-- The codes of route reports as free terms. -/
abbrev Code := Term AuthPath Key (Bytes 30)

/-- The code of an origin's report before its step. -/
def noCode : Code := .const (Bytes.zero 8)

/-- An honest node: its address and the uplink key it shares with the master. -/
structure Station where
  mac : Mac
  kUp : Key

/-- A report on the air: the frame, and the term behind the code that it carries. -/
structure Report where
  header : Message
  code : Code

/-- What an honest node does with route reports. -/
inductive Action
  /-- Start a report of its own. -/
  | originate (n : Station) (m : Message)
  /-- Take in a report, whoever sent it. -/
  | relay (n : Station) (r : Report)

/-- A step of the chain: the node that makes it, the frame it is made for, and the hop and the code
before it. -/
structure Application where
  station : Station
  header : Message
  prevHop : Mac
  code : Code

/-- The step behind the code that the node emits.  A report under the node's own address is started
anew on its way out. -/
def Action.applied : Action → Application
  | originate n m => ⟨n, m, zeroMac, noCode⟩
  | relay n r =>
    if r.header.originMac = n.mac then ⟨n, r.header, zeroMac, noCode⟩
    else ⟨n, r.header, prevHopOf r.header, r.code⟩

/-- The code after a step. -/
def Application.result (a : Application) : Code :=
  .mac a.station.kUp (buildHopContext a.header a.prevHop a.station.mac) a.code

/-- The codes that were emitted. -/
def emitted (acts : List Action) : Set Code := { t | ∃ a ∈ acts, a.applied.result = t }

/-- The histories of the honest nodes, latest action first: a node starts reports under its own
address, and it takes in whatever the adversary can assemble by then. -/
inductive Network (stations : Set Station) (held : Set Key) : List Action → Prop
  | nil : Network stations held []
  | originate {acts n m} (h : Network stations held acts) (hn : n ∈ stations)
      (ho : m.originMac = n.mac) : Network stations held (.originate n m :: acts)
  | relay {acts n r} (h : Network stations held acts) (hn : n ∈ stations)
      (hr : Derivable held (emitted acts) r.code) : Network stations held (.relay n r :: acts)

/-- A step that is on record in a history. -/
def Made (acts : List Action) (key : Key) (ctx : Bytes 30) (code : Code) : Prop :=
  ∃ a ∈ acts, a.applied.result = .mac key ctx code

variable {stations : Set Station} {held : Set Key} {acts : List Action}

theorem Made.cons {a : Action} {key : Key} {ctx : Bytes 30} {code : Code}
    (h : Made acts key ctx code) : Made (a :: acts) key ctx code := by
  obtain ⟨b, hb, heq⟩ := h
  exact ⟨b, List.mem_cons_of_mem a hb, heq⟩

/-- The code of an action, if the code before its step has no step of the adversary's own. -/
theorem madeOf_applied {a : Action} (h : a.applied.code.MadeOf held (Made acts)) :
    a.applied.result.MadeOf held (Made (a :: acts)) :=
  ⟨.inr ⟨a, List.mem_cons_self, rfl⟩, h.mono fun _ _ _ => Made.cons⟩

/-- Every step inside a code that was emitted was made by an honest node, or under a held key. -/
theorem Network.madeOf (h : Network stations held acts) :
    ∀ t ∈ emitted acts, t.MadeOf held (Made acts) := by
  have hcons : ∀ (a : Action) acts, a.applied.code.MadeOf held (Made acts) →
      (∀ t ∈ emitted acts, t.MadeOf held (Made acts)) →
      ∀ t ∈ emitted (a :: acts), t.MadeOf held (Made (a :: acts)) := by
    rintro a acts ha ih _ ⟨b, hb, rfl⟩
    rcases List.mem_cons.1 hb with rfl | hb
    · exact madeOf_applied ha
    · exact (ih _ ⟨b, hb, rfl⟩).mono fun _ _ _ => Made.cons
  induction h with
  | nil =>
    rintro _ ⟨a, ha, -⟩
    cases ha
  | originate _ hn ho ih => exact hcons _ _ trivial ih
  | @relay acts n r _ hn hr ih =>
    refine hcons _ _ ?_ ih
    unfold Action.applied
    dsimp only
    split
    · trivial
    · exact hr.madeOf ih

/-- The node of an action is honest. -/
theorem Network.station_mem (h : Network stations held acts) :
    ∀ a ∈ acts, a.applied.station ∈ stations := by
  induction h with
  | nil =>
    intro a ha
    cases ha
  | originate _ hn _ ih =>
    rintro a (_ | ⟨_, ha⟩)
    · exact hn
    · exact ih a ha
  | relay _ hn _ ih =>
    rintro a (_ | ⟨_, ha⟩)
    · unfold Action.applied
      dsimp only
      split <;> exact hn
    · exact ih a ha

/-! ### The frames behind the actions -/

/-- A report that a node starts carries the value of the code that its action emits; so does a
foreign report under its own address, which it starts anew. -/
theorem eval_originate {c : Crypto} {m : Message} {deviceMac : Mac} {kUp : Key}
    (ht : m.messageType = MessageType.routeReport) :
    (seedAuthPath c kUp m deviceMac).authPath =
      (Action.originate ⟨deviceMac, kUp⟩ m).applied.result.eval (chainStep c) := by
  rw [seedAuthPath_eq ht]
  rfl

/-- A report that a node passes on carries the value of the code that its action emits. -/
theorem eval_relay {c : Crypto} {m : Message} {deviceMac : Mac} {kUp : Key} {code : Code}
    (ho : m.originMac ≠ deviceMac) (ha : m.authPath = code.eval (chainStep c)) :
    (extendAuthPath c kUp (appendHop m deviceMac) (prevHopOf m) deviceMac).authPath =
      (Action.relay ⟨deviceMac, kUp⟩ ⟨m, code⟩).applied.result.eval (chainStep c) := by
  rw [extendAuthPath_eq, extendCode, Action.applied, if_neg ho, ha]
  rfl

/-! ### The master -/

/-- The honest node with the address `mac` and the key `key` applied the key to this place: a frame
with the origin, target, epoch and sequence number of `m`, behind the given hop and code. -/
def AppliedAt (stations : Set Station) (acts : List Action) (mac : Mac) (key : Key) (m : Message)
    (prevHop : Mac) (code : Code) : Prop :=
  ∃ a ∈ acts, a.applied.station ∈ stations ∧ a.applied.station = ⟨mac, key⟩ ∧
    a.applied.header.originMac = m.originMac ∧ a.applied.header.targetMac = m.targetMac ∧
    a.applied.header.epochNum = m.epochNum ∧ a.applied.header.seqNum = m.seqNum ∧
    a.applied.prevHop = prevHop ∧ a.applied.code = code

/-- A step on record was applied at its place. -/
theorem Network.appliedAt (h : Network stations held acts) {mac prevHop : Mac} {key : Key}
    {m : Message} {code : Code} (hm : Made acts key (buildHopContext m prevHop mac) code) :
    AppliedAt stations acts mac key m prevHop code := by
  obtain ⟨a, ha, heq⟩ := hm
  obtain ⟨hkey, hctx, hcode⟩ := Term.mac.inj heq
  obtain ⟨ho, ht, he, hs, hp, hd⟩ := buildHopContext_inj hctx
  refine ⟨a, ha, h.station_mem a ha, ?_, ho, ht, he, hs, hp, hcode⟩
  cases hst : a.applied.station with
  | mk x k =>
    rw [hst] at hd hkey
    subst hd hkey
    rfl

/-- The code of a path as a term. -/
def pathTerm (m : Message) (keyAt : Mac → Key) (hops : List Mac) : Code :=
  pathCode Term.mac noCode m (keyAt m.originMac) (hops.map fun hop => (hop, keyAt hop))

/-- The value of the term of a path is what the master computes. -/
theorem eval_pathTerm (c : Crypto) (m : Message) (keyAt : Mac → Key) :
    (pathTerm m keyAt m.path).eval (chainStep c) =
      pathCode (chainStep c) (Bytes.zero 8) m (keyAt m.originMac) (m.keyedPath keyAt) :=
  map_chain (f := Term.eval (chainStep c)) (fun _ _ _ => rfl) _ _ _

/-- The node records the path of the report: with some receiver of the payload, its table of routes
changes.  A report that is dropped never gets to the receiver. -/
def Records (w : World) (s : Node) (m : Message) : Prop :=
  ∃ cb t, processRouteReport w m cb s = .ok () t ∧ t.routes ≠ s.routes

/-- A master records only a path whose code the report carries. -/
theorem Records.authPath {w : World} {s : Node} {m : Message} {keyAt : Mac → Key}
    (h : Records w s m) (hM : s.isMaster = true) (hk : KnowsKeys w.crypto s keyAt) :
    m.authPath = (pathTerm m keyAt m.path).eval (chainStep w.crypto) := by
  obtain ⟨cb, t, ht, hne⟩ := h
  have hwp : wp (acceptRouteReport w m cb) (fun _ t => t.routes = s.routes ∨
      m.authPath = (pathTerm m keyAt m.path).eval (chainStep w.crypto)) (fun _ _ => True) s := by
    refine wp_acceptRouteReport hk (fun t ht _ => .inl ht) (fun _ _ _ => trivial) ?_
    intro t opened _ _ _ hcode _
    rw [← eval_pathTerm] at hcode
    unfold wp
    split
    · exact .inr hcode
    · trivial
  have hrun : acceptRouteReport w m cb s = .ok () t := by
    rw [← ht]
    show _ = (if s.isMaster then acceptRouteReport w m cb else relayRouteReport w m) s
    rw [if_pos hM]
  exact (wp_ok hrun hwp).resolve_left hne

/-- **If the master records a path, every hop applied its own key to exactly its place on it.**  The
report carries the value of a code that the adversary assembled, it holds none of the keys, and the
verification does not succeed by a collision of values. -/
theorem routeReport_sound {w : World} {s : Node} {m : Message} {keyAt : Mac → Key} {code : Code}
    (hM : s.isMaster = true) (hk : KnowsKeys w.crypto s keyAt)
    (hnet : Network stations held acts)
    (hheld : ∀ mac, mac = m.originMac ∨ mac ∈ m.path → keyAt mac ∉ held)
    (hcode : Derivable held (emitted acts) code)
    (hauth : m.authPath = code.eval (chainStep w.crypto))
    (hfree : (pathTerm m keyAt m.path).eval (chainStep w.crypto) =
      code.eval (chainStep w.crypto) → pathTerm m keyAt m.path = code)
    (hrec : Records w s m) :
    AppliedAt stations acts m.originMac (keyAt m.originMac) m zeroMac noCode ∧
      ∀ pre hop post, m.path = pre ++ hop :: post →
        AppliedAt stations acts hop (keyAt hop) m (pre.getLastD m.originMac)
          (pathTerm m keyAt pre) := by
  have hterm : pathTerm m keyAt m.path = code := hfree ((hrec.authPath hM hk).symm.trans hauth)
  have hmade : (pathTerm m keyAt m.path).MadeOf held (Made acts) := by
    rw [hterm]
    exact hcode.madeOf hnet.madeOf
  refine ⟨hnet.appliedAt ?_, fun pre hop post hp => hnet.appliedAt ?_⟩
  · -- the step of the origin starts the chain
    exact (Term.MadeOf.of_chain_start hmade).1.resolve_left (hheld _ (.inl rfl))
  · have hin : hop ∈ m.path := by
      rw [hp]
      exact List.mem_append_right _ List.mem_cons_self
    rw [hp, pathTerm, pathCode, List.map_append, List.map_cons] at hmade
    have hstep := hmade.of_chain (hheld hop (.inr hin))
    rw [lastHop, List.map_map] at hstep
    simpa [pathTerm, pathCode, Function.comp_def] using hstep

namespace Sample

/-- The report that the leaf 1 starts. -/
def started : Message := startedReport crypto (leafNode 1) (sharedKeys 1) sealedReport

/-- The leaf 1 and the leaf 2 as stations. -/
def station (n : UInt8) : Station := ⟨mac n, (sharedKeys n).kUp⟩

/-- The report of the leaf 1 behind the leaf 2. -/
def relayedReport : Message :=
  extendAuthPath crypto (sharedKeys 2).kUp (appendHop started (mac 2)) (prevHopOf started) (mac 2)

/-- The leaf 1 starts a report, and the leaf 2 passes it on. -/
def honestActions : List Action :=
  [.relay (station 2) ⟨started, (Action.originate (station 1) started).applied.result⟩,
    .originate (station 1) started]

end Sample

set_option maxRecDepth 100000 in
/-- The report of the leaf 1 behind the leaf 2 is recorded, and both applied their keys. -/
theorem routeReport_sound_one_relay :
    AppliedAt Set.univ Sample.honestActions Sample.relayedReport.originMac
        (Sample.uplinkKey Sample.relayedReport.originMac) Sample.relayedReport zeroMac noCode ∧
      ∀ pre hop post, Sample.relayedReport.path = pre ++ hop :: post →
        AppliedAt Set.univ Sample.honestActions hop (Sample.uplinkKey hop) Sample.relayedReport
          (pre.getLastD Sample.relayedReport.originMac)
          (pathTerm Sample.relayedReport Sample.uplinkKey pre) := by
  have hstart : Network Set.univ ∅ [.originate (Sample.station 1) Sample.started] :=
    .originate .nil trivial rfl
  have hnet : Network Set.univ ∅ Sample.honestActions :=
    .relay hstart trivial (.known ⟨_, List.mem_singleton_self _, rfl⟩)
  have hcode : Derivable ∅ (emitted Sample.honestActions) (Action.applied (.relay (Sample.station 2)
      ⟨Sample.started,
        (Action.originate (Sample.station 1) Sample.started).applied.result⟩)).result :=
    .known ⟨_, List.mem_cons_self, rfl⟩
  have hrec : Records Sample.meshWorld (Sample.masterNode [1, 2, 3]) Sample.relayedReport :=
    ⟨fun _ => pure (), _, rfl, by decide +kernel⟩
  refine routeReport_sound rfl Sample.masterNode_knowsKeys hnet (fun _ _ h => h) hcode ?_ ?_ hrec
  · decide +kernel
  · exact fun _ => rfl

end LatticeMesh
