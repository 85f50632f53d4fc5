import LatticeMesh.MasterOnly
import LatticeMesh.RouteForgery

/-!
# A chain of authentication codes that fails

When a step of the chain cannot compute its code, it leaves zeros, so that the report fails at the
master.  But the steps of the master leave zeros too.  Behind a step that fails the chain starts
again from the zeros, and what it comes to from there is a code that a report can carry.

## Main definitions

* `hmacStep` — a step of the chain that may fail.
* `Message.calls` — the steps that the code of a report rests on.
* `CallFails` — one of them fails.
* `PassesChecks`, `CarriesPathCode`, `CarriesRestartedCode` — what the master asks of a report.
* `FailSafe` — a report with a step that failed is not recorded.

## Main results

* `records_iff` — a master records exactly the valid reports.
* `carriesRestartedCode_of_built` — a report whose steps fail last where those of the master do
  carries the code that the master computes.
* `Device.failSafe_iff` — **a failing step keeps a report out, exactly if the report does not carry
  the code of the hops behind a failing step of the master, nor the whole code after a failure on
  its way.**
-/

namespace LatticeMesh

open EffectSpec ChainMac

variable {w : World} {s : Node} {c c' : Crypto} {m : Message} {keyAt : Mac → Key}

/-! ### Steps that fail -/

/-- A step of the chain, if the code can be computed. -/
def hmacStep (c : Crypto) (secret : Key) (ctx : Bytes 30) (prevMac : AuthPath) : Option AuthPath :=
  (c.hmacSha256 secret (ctx.toList ++ prevMac.toList)).map fun full =>
    Bytes.slice full 0 8 authPath_le

/-- A step that fails leaves zeros. -/
theorem chainStep_eq (c : Crypto) : chainStep c = orZero (hmacStep c) (Bytes.zero 8) := by
  funext secret ctx prevMac
  unfold chainStep orZero hmacStep
  cases c.hmacSha256 secret (ctx.toList ++ prevMac.toList) <;> rfl

/-- The steps that the code of a report rests on: the origin and the relays, each with the key that
the master knows for it. -/
def Message.calls (m : Message) (keyAt : Mac → Key) : List (Mac × Key) :=
  (m.originMac, keyAt m.originMac) :: m.keyedPath keyAt

/-- The code of a path is a chain of these steps. -/
theorem pathCode_eq_chain (c : Crypto) (m : Message) (keyAt : Mac → Key) :
    pathCode (chainStep c) (Bytes.zero 8) m (keyAt m.originMac) (m.keyedPath keyAt) =
      chain (orZero (hmacStep c) (Bytes.zero 8)) (buildHopContext m) zeroMac (m.calls keyAt)
        (Bytes.zero 8) := by
  rw [← chainStep_eq]
  rfl

/-- The step of the hop `x` fails, behind the hops `pre`. -/
def CallFailsAt (c : Crypto) (m : Message) (pre : List (Mac × Key)) (x : Mac × Key) : Prop :=
  FailsAt (hmacStep c) (Bytes.zero 8) (buildHopContext m) zeroMac (Bytes.zero 8) pre x

/-- One of the steps fails. -/
def CallFails (c : Crypto) (m : Message) (keyAt : Mac → Key) : Prop :=
  ∃ pre x post, m.calls keyAt = pre ++ x :: post ∧ CallFailsAt c m pre x

/-! ### What the master asks of a report -/

/-- What the master asks of a report besides its code: it has a table for the path, it knows the
keys of every hop, and the payload opens to a route report. -/
structure PassesChecks (c : Crypto) (s : Node) (m : Message) : Prop where
  table : s.routes ≠ none
  usable : ∀ mac, mac = m.originMac ∨ mac ∈ m.path → Usable c s mac
  opens : ∃ opened, openPayload c (s.uplinkKeyAt c m.originMac) m = some opened ∧
    opened.byte 0 = Opcode.routeReport
  routeLen : m.routeLen.toNat ≤ maxHops

/-- The report carries the code of its path, computed without a failure. -/
def CarriesPathCode (c : Crypto) (m : Message) (keyAt : Mac → Key) : Prop :=
  chainAll (hmacStep c) (buildHopContext m) zeroMac (m.calls keyAt) (Bytes.zero 8) = some m.authPath

/-- The report carries the code of the hops behind a failing step, computed from zeros without
another failure. -/
def CarriesRestartedCode (c : Crypto) (m : Message) (keyAt : Mac → Key) : Prop :=
  ∃ pre x post, m.calls keyAt = pre ++ x :: post ∧ CallFailsAt c m pre x ∧
    chainAll (hmacStep c) (buildHopContext m) x.1 post (Bytes.zero 8) = some m.authPath

/-- The master computes the code of a report in one of these two ways. -/
theorem authPath_eq_iff :
    m.authPath = pathCode (chainStep c) (Bytes.zero 8) m (keyAt m.originMac) (m.keyedPath keyAt) ↔
      CarriesPathCode c m keyAt ∨ CarriesRestartedCode c m keyAt := by
  rw [pathCode_eq_chain, eq_comm]
  exact chain_orZero

/-- The code of a path that was computed without a failure has no failing step. -/
theorem CarriesPathCode.not_callFails (h : CarriesPathCode c m keyAt) : ¬CallFails c m keyAt := by
  rintro ⟨pre, x, post, hsplit, hfail⟩
  unfold CarriesPathCode at h
  rw [hsplit] at h
  exact not_failsAt_of_chainAll h hfail

/-- A report whose steps fail last where those of the master do carries the code that the master
computes. -/
theorem carriesRestartedCode_of_built {pre post : List (Mac × Key)} {x : Mac × Key}
    {code' code : AuthPath} (hsplit : m.calls keyAt = pre ++ x :: post)
    (hagree : ∀ secret ctx prev r r', hmacStep c' secret ctx prev = some r →
      hmacStep c secret ctx prev = some r' → r = r')
    (hbuilt : m.authPath =
      pathCode (chainStep c') (Bytes.zero 8) m (keyAt m.originMac) (m.keyedPath keyAt))
    (hfail' : CallFailsAt c' m pre x) (hfail : CallFailsAt c m pre x)
    (hcode' : chainAll (hmacStep c') (buildHopContext m) x.1 post (Bytes.zero 8) = some code')
    (hcode : chainAll (hmacStep c) (buildHopContext m) x.1 post (Bytes.zero 8) = some code) :
    CarriesRestartedCode c m keyAt := by
  have hauth : m.authPath = code' := by
    rw [hbuilt, pathCode_eq_chain]
    exact chain_orZero.2 (.inr ⟨pre, x, post, hsplit, hfail', hcode'⟩)
  obtain rfl : code' = code := chainAll_congr hagree hcode' hcode
  exact ⟨pre, x, post, hsplit, hfail, by rw [hcode, hauth]⟩

/-! ### What a master records -/

/-- The master computes the code that the report carries. -/
def CarriesCode (c : Crypto) (m : Message) (keyAt : Mac → Key) : Prop :=
  m.authPath = pathCode (chainStep c) (Bytes.zero 8) m (keyAt m.originMac) (m.keyedPath keyAt)

theorem passesChecks_iff :
    PassesChecks c s m ∧ CarriesCode c m (s.uplinkKeyAt c) ↔
      s.routes ≠ none ∧ ∃ opened, ValidReport c s (s.uplinkKeyAt c) m opened := by
  constructor
  · rintro ⟨⟨htable, husable, ⟨opened, hopens, hop⟩, hlen⟩, hcode⟩
    exact ⟨htable, opened, husable, hopens, hop, hlen, hcode⟩
  · rintro ⟨htable, opened, h⟩
    exact ⟨⟨htable, h.usable, ⟨opened, h.opens, h.opcode⟩, h.routeLen⟩, h.code⟩

/-- A master records exactly the valid reports. -/
theorem records_iff (hM : s.isMaster = true) (hcoh : CacheCoherent w.crypto s)
    (htable : s.routes ≠ none) :
    Records w s m ↔ ∃ opened, ValidReport w.crypto s (s.uplinkKeyAt w.crypto) m opened := by
  have hrun : ∀ cb, processRouteReport w m cb s = acceptRouteReport w m cb s := by
    intro cb
    show (if s.isMaster then acceptRouteReport w m cb else relayRouteReport w m) s = _
    rw [if_pos hM]
  constructor
  · rintro ⟨cb, t, ht, hne⟩
    rw [hrun] at ht
    have hwp : wp (acceptRouteReport w m cb) (fun _ t => t.routes = s.routes ∨
        ∃ opened, ValidReport w.crypto s (s.uplinkKeyAt w.crypto) m opened)
          (fun _ _ => True) s := by
      refine wp_acceptRouteReport hcoh.knowsKeys (fun t ht _ => .inl ht) (fun _ _ _ => trivial) ?_
      intro t opened _ _ _ _ hvalid
      unfold wp
      split
      · exact .inr ⟨opened, hvalid hcoh⟩
      · trivial
    exact (wp_ok ht hwp).resolve_left hne
  · rintro ⟨o, ho⟩
    -- a receiver that drops the table shows that it was reached
    have hwp : wp (acceptRouteReport w m fun _ => modify fun t => { t with routes := none })
        (fun _ t => t.routes = none) (fun _ _ => False) s := by
      refine wp_acceptRouteReport hcoh.knowsKeys (fun _ _ hno => (hno _ ho).elim)
        (fun _ _ hno => (hno _ ho).elim) fun t opened _ _ _ _ _ => ?_
      rw [wp_modify]
    obtain ⟨r, t, ht, hnone⟩ := exists_ok hwp
    refine ⟨_, t, (hrun _).trans ht, ?_⟩
    rw [hnone]
    exact htable.symm

/-- A report with a step that failed, at the origin or at a relay, which compute with `built`, or at
the master, is not recorded. -/
def FailSafe (w : World) (s : Node) (built : Crypto) (m : Message) : Prop :=
  CallFails built m (s.uplinkKeyAt w.crypto) ∨ CallFails w.crypto m (s.uplinkKeyAt w.crypto) →
    s.routes = none ∨ ¬Records w s m

namespace Device

variable {b : Board}

/-- **A failing step keeps a report out, exactly if** a report that passes every other check carries
no code that starts again behind a failing step of the master, nor, if a step failed on its way, the
code of its path. -/
theorem failSafe_iff {v : Nvs} {xs : List (Env × Input)} {e : Env} {built : Crypto} {m : Message}
    (hrun : (run b (blank v) xs).status = .running)
    (hm : (run b (blank v) xs).node.isMaster = true) :
    let s := (run b (blank v) xs).node
    FailSafe (b.world e) s built m ↔
      (PassesChecks b.crypto s m → ¬CarriesRestartedCode b.crypto m (s.uplinkKeyAt b.crypto) ∧
        (CallFails built m (s.uplinkKeyAt b.crypto) →
          ¬CarriesPathCode b.crypto m (s.uplinkKeyAt b.crypto))) := by
  have hmeets : (run b (blank v) xs).Meets _ _ := (cacheCoherent_invariant b fun _ _ => True).run
    (meets_blank trivial) (Runs.along_of_forall (fun _ _ => trivial) _ _)
  generalize run b (blank v) xs = d at hrun hm hmeets ⊢
  have hcoh : CacheCoherent (b.world e).crypto d.node := hmeets.2 hrun
  have hrec : ∀ htable : d.node.routes ≠ none, Records (b.world e) d.node m ↔
      PassesChecks b.crypto d.node m ∧ CarriesCode b.crypto m (d.node.uplinkKeyAt b.crypto) := by
    intro htable
    rw [records_iff hm hcoh htable, passesChecks_iff]
    exact (and_iff_right htable).symm
  constructor
  -- a report with a code of either kind would be recorded
  · intro h hpass
    refine ⟨fun hrestart => ?_, fun hfails hpath => ?_⟩
    · have hfails : CallFails b.crypto m (d.node.uplinkKeyAt b.crypto) := by
        obtain ⟨pre, x, post, hsplit, hfail, -⟩ := hrestart
        exact ⟨pre, x, post, hsplit, hfail⟩
      refine (h (.inr hfails)).elim hpass.table fun hno => hno ?_
      exact (hrec hpass.table).2 ⟨hpass, authPath_eq_iff.2 (.inr hrestart)⟩
    · refine (h (.inl hfails)).elim hpass.table fun hno => hno ?_
      exact (hrec hpass.table).2 ⟨hpass, authPath_eq_iff.2 (.inl hpath)⟩
  · intro h hfails
    -- a report that is recorded carries one of the two
    by_contra hno
    rw [not_or, not_not] at hno
    obtain ⟨hpass, hcode⟩ := (hrec hno.1).1 hno.2
    obtain ⟨hrestart, hbuilt⟩ := h hpass
    have hpath := (authPath_eq_iff.1 hcode).resolve_right hrestart
    rcases hfails with hfails | hfails
    · exact hbuilt hfails hpath
    · exact hpath.not_callFails hfails

end Device

namespace Sample

/-- The computation of codes always fails. -/
def brokenHmac : Crypto := { crypto with hmacSha256 := fun _ _ => none }

/-- The board of a master on which it fails. -/
def brokenBoard : Board := { masterBoard with crypto := brokenHmac }

/-- A route report of the station 5 with zeros in place of its code. -/
def zeroReport : Message :=
  let m := { frame 5 MessageType.routeReport 1 2 with targetMac := mac 7, data := routeReportData }
  (sealPayload crypto ((xor (key 1) (key 5)).map (· + 1)) m).getD m

end Sample

namespace Device

set_option maxRecDepth 100000 in
/-- A master that works does not record a report whose origin failed. -/
theorem failSafe_zeroReport :
    FailSafe (Sample.masterBoard.world (Sample.env 1 500))
      (run Sample.masterBoard (blank {}) Sample.newMaster).node Sample.brokenHmac
      Sample.zeroReport := by
  refine (failSafe_iff (by decide +kernel) (by decide +kernel)).2 fun _ => ⟨?_, fun _ => ?_⟩
  · rintro ⟨pre, x, post, -, hfail, -⟩
    cases hfail
  · unfold CarriesPathCode
    decide +kernel

set_option maxRecDepth 100000 in
/-- **A master that fails itself records such a report**: it takes its own zeros for the code. -/
theorem not_failSafe_zeroReport :
    let d := run Sample.brokenBoard (blank {}) Sample.newMaster
    let d' := step Sample.brokenBoard d (Sample.env 1 500, .rx (Sample.mac 5) Sample.zeroReport)
    d.status = .running ∧ d.node.isMaster = true ∧ Sample.zeroReport.routeLen.toNat ≤ maxHops ∧
      ¬FailSafe (Sample.brokenBoard.world (Sample.env 1 500)) d.node Sample.brokenHmac
        Sample.zeroReport ∧
      (d.node.routes.bind fun routes => routes.relaysOf (Sample.mac 5)) = none ∧
      (d'.node.routes.bind fun routes => routes.relaysOf (Sample.mac 5)) = some [] := by
  refine ⟨by decide +kernel, by decide +kernel, by decide +kernel, fun h => ?_, by decide +kernel,
    by decide +kernel⟩
  rcases h (.inr ⟨[], _, [], rfl, rfl⟩) with htable | hno
  · revert htable
    decide +kernel
  · exact hno ⟨fun _ => pure (), _, rfl, by decide +kernel⟩

end Device

end LatticeMesh
