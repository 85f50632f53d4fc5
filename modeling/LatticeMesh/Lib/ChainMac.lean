import Mathlib.Data.Set.Basic

/-!
# Chained authentication codes

A message travels along a path, and every hop folds a step into a running code: the step is keyed
with the hop's own key and covers the hop before it and the code so far.  Whoever knows all the keys
recomputes the code from the path.

To ask what an adversary can forge, the codes are taken as free terms: two codes are equal only if
they were built in the same way, and a step can be made only by a holder of its key.

## Main definitions

* `ChainMac.chain` — the code after the hops of a path.
* `ChainMac.orZero`, `ChainMac.chainAll` — steps that may fail: with a constant in place of the code
  that was not computed, and all or nothing.
* `ChainMac.FailsAt` — the step of a hop fails.
* `ChainMac.Term` — codes as free terms.
* `ChainMac.Derivable` — the codes that can be assembled from known codes and held keys.
* `ChainMac.Term.MadeOf` — every step inside a code was made under a held key, or is on record.

## Main results

* `ChainMac.chain_concat` — the last hop makes the last step.
* `ChainMac.chain_orZero` — **behind the last step that fails the chain starts again from the
  constant.**
* `ChainMac.Derivable.madeOf` — **what an adversary assembles contains no step of its own under a
  key that it does not hold.**
* `ChainMac.Term.MadeOf.of_chain` — every step of such a chain is on record, with the code of the
  path before it.
-/

namespace ChainMac

variable {ι κ χ γ α : Type*}

/-! ### The chain -/

/-- The code after the hops of a path that starts behind `prev`; each hop has its key, and `ctx` is
what it covers besides the code so far. -/
def chain (step : κ → χ → γ → γ) (ctx : ι → ι → χ) : ι → List (ι × κ) → γ → γ
  | _, [], code => code
  | prev, (hop, key) :: hops, code => chain step ctx hop hops (step key (ctx prev hop) code)

/-- The last hop of a path that starts behind `prev`. -/
def lastHop (prev : ι) (hops : List (ι × κ)) : ι := (hops.map Prod.fst).getLastD prev

@[simp] theorem lastHop_nil (prev : ι) : lastHop prev ([] : List (ι × κ)) = prev := rfl

@[simp] theorem lastHop_cons (prev : ι) (x : ι × κ) (hops : List (ι × κ)) :
    lastHop prev (x :: hops) = lastHop x.1 hops := by
  rw [lastHop, List.map_cons, List.getLastD_cons, lastHop]

@[simp] theorem lastHop_concat (prev : ι) (x : ι × κ) (hops : List (ι × κ)) :
    lastHop prev (hops ++ [x]) = x.1 := by
  rw [lastHop, List.map_append, List.map_singleton, List.getLastD_concat]

variable {step : κ → χ → γ → γ} {ctx : ι → ι → χ}

theorem chain_append (prev : ι) (hops hops' : List (ι × κ)) (code : γ) :
    chain step ctx prev (hops ++ hops') code =
      chain step ctx (lastHop prev hops) hops' (chain step ctx prev hops code) := by
  induction hops generalizing prev code with
  | nil => rfl
  | cons x hops ih =>
    rw [List.cons_append, lastHop_cons]
    exact ih x.1 _

/-- The last hop makes the last step. -/
theorem chain_concat (prev hop : ι) (key : κ) (hops : List (ι × κ)) (code : γ) :
    chain step ctx prev (hops ++ [(hop, key)]) code =
      step key (ctx (lastHop prev hops) hop) (chain step ctx prev hops code) :=
  chain_append prev hops [(hop, key)] code

/-- A map of codes that commutes with the steps commutes with the chain. -/
theorem map_chain {δ : Type*} {step' : κ → χ → δ → δ} {f : γ → δ}
    (hf : ∀ key c code, f (step key c code) = step' key c (f code)) (prev : ι)
    (hops : List (ι × κ)) (code : γ) :
    f (chain step ctx prev hops code) = chain step' ctx prev hops (f code) := by
  induction hops generalizing prev code with
  | nil => rfl
  | cons x hops ih =>
    obtain ⟨hop, key⟩ := x
    simp only [chain]
    rw [ih, hf]

/-! ### Steps that fail -/

/-- A step that may fail, with the constant `zero` in place of what was not computed. -/
def orZero (step : κ → χ → γ → Option γ) (zero : γ) (key : κ) (c : χ) (code : γ) : γ :=
  (step key c code).getD zero

/-- The code after the hops of a path, if no step fails. -/
def chainAll (step : κ → χ → γ → Option γ) (ctx : ι → ι → χ) : ι → List (ι × κ) → γ → Option γ
  | _, [], code => some code
  | prev, (hop, key) :: hops, code =>
    (step key (ctx prev hop) code).bind (chainAll step ctx hop hops)

/-- The step of the hop `x` fails, on the code that the hops before it leave behind. -/
def FailsAt (step : κ → χ → γ → Option γ) (zero : γ) (ctx : ι → ι → χ) (prev : ι) (code : γ)
    (pre : List (ι × κ)) (x : ι × κ) : Prop :=
  step x.2 (ctx (lastHop prev pre) x.1) (chain (orZero step zero) ctx prev pre code) = none

section Failing

variable {step : κ → χ → γ → Option γ} {zero : γ} {ctx : ι → ι → χ}

theorem chainAll_cons_of_some {prev hop : ι} {key : κ} {hops : List (ι × κ)} {code next : γ}
    (h : step key (ctx prev hop) code = some next) :
    chainAll step ctx prev ((hop, key) :: hops) code = chainAll step ctx hop hops next := by
  rw [chainAll, h, Option.bind_some]

/-- The hop behind the first one fails as it does on the rest of the path. -/
theorem failsAt_cons {prev hop : ι} {key : κ} {pre : List (ι × κ)} {x : ι × κ} {code : γ} :
    FailsAt step zero ctx prev code ((hop, key) :: pre) x ↔
      FailsAt step zero ctx hop (orZero step zero key (ctx prev hop) code) pre x := by
  unfold FailsAt
  rw [lastHop_cons]
  rfl

/-- **Behind the last step that fails the chain starts again from the constant**: a chain has the
value `r` exactly if it has it without a failure, or if the hops behind a failing one have it, from
the constant and without a failure. -/
theorem chain_orZero {prev : ι} {hops : List (ι × κ)} {code r : γ} :
    chain (orZero step zero) ctx prev hops code = r ↔
      chainAll step ctx prev hops code = some r ∨ ∃ pre x post, hops = pre ++ x :: post ∧
        FailsAt step zero ctx prev code pre x ∧ chainAll step ctx x.1 post zero = some r := by
  induction hops generalizing prev code with
  | nil => simp [chain, chainAll]
  | cons y hops ih =>
    obtain ⟨hop, key⟩ := y
    rw [chain, ih]
    cases hstep : step key (ctx prev hop) code with
    | some next =>
      rw [chainAll_cons_of_some hstep, orZero, hstep, Option.getD_some]
      refine or_congr_right ⟨?_, ?_⟩
      · rintro ⟨pre, x, post, rfl, hfail, hpost⟩
        refine ⟨(hop, key) :: pre, x, post, rfl, failsAt_cons.2 ?_, hpost⟩
        rwa [orZero, hstep]
      · rintro ⟨pre, x, post, hsplit, hfail, hpost⟩
        cases pre with
        | nil =>
          -- the first step does not fail
          obtain ⟨rfl, rfl⟩ := List.cons.inj hsplit
          rw [FailsAt, lastHop_nil, chain, hstep] at hfail
          cases hfail
        | cons y pre =>
          obtain ⟨rfl, rfl⟩ := List.cons.inj hsplit
          rw [failsAt_cons, orZero, hstep] at hfail
          exact ⟨pre, x, post, rfl, hfail, hpost⟩
    | none =>
      rw [chainAll, hstep, orZero, hstep]
      constructor
      · rintro (hall | ⟨pre, x, post, rfl, hfail, hpost⟩)
        · exact .inr ⟨[], (hop, key), hops, rfl, hstep, hall⟩
        · refine .inr ⟨(hop, key) :: pre, x, post, rfl, failsAt_cons.2 ?_, hpost⟩
          rwa [orZero, hstep]
      · rintro (hall | ⟨pre, x, post, hsplit, hfail, hpost⟩)
        · cases hall
        · cases pre with
          | nil =>
            obtain ⟨rfl, rfl⟩ := List.cons.inj hsplit
            exact .inl hpost
          | cons y pre =>
            obtain ⟨rfl, rfl⟩ := List.cons.inj hsplit
            rw [failsAt_cons, orZero, hstep] at hfail
            exact .inr ⟨pre, x, post, rfl, hfail, hpost⟩

/-- No step of a chain that has a value fails. -/
theorem not_failsAt_of_chainAll {prev : ι} {pre post : List (ι × κ)} {x : ι × κ} {code r : γ}
    (h : chainAll step ctx prev (pre ++ x :: post) code = some r) :
    ¬FailsAt step zero ctx prev code pre x := by
  induction pre generalizing prev code with
  | nil =>
    intro hfail
    rw [FailsAt, lastHop_nil, chain] at hfail
    rw [List.nil_append, chainAll, hfail] at h
    cases h
  | cons y pre ih =>
    obtain ⟨hop, key⟩ := y
    rw [List.cons_append, chainAll] at h
    obtain ⟨next, hstep, hrest⟩ := Option.bind_eq_some_iff.1 h
    rw [failsAt_cons, orZero, hstep]
    exact ih hrest

/-- Where two machines agree on the steps that both can compute, they agree on the chains. -/
theorem chainAll_congr {step' : κ → χ → γ → Option γ} {prev : ι} {hops : List (ι × κ)}
    {code r r' : γ}
    (hagree : ∀ key c code r r', step key c code = some r → step' key c code = some r' → r = r')
    (h : chainAll step ctx prev hops code = some r)
    (h' : chainAll step' ctx prev hops code = some r') : r = r' := by
  induction hops generalizing prev code with
  | nil => exact Option.some.inj (h.symm.trans h')
  | cons y hops ih =>
    obtain ⟨hop, key⟩ := y
    obtain ⟨a, ha, h⟩ := Option.bind_eq_some_iff.1 h
    obtain ⟨b, hb, h'⟩ := Option.bind_eq_some_iff.1 h'
    obtain rfl := hagree _ _ _ _ _ ha hb
    exact ih h h'

end Failing

/-! ### Free terms -/

/-- A code as a free term: a constant, or a step under a key. -/
inductive Term (α κ χ : Type*)
  | const (a : α)
  | mac (key : κ) (c : χ) (code : Term α κ χ)

/-- The value of a term, given what a step computes. -/
def Term.eval (step : κ → χ → α → α) : Term α κ χ → α
  | .const a => a
  | .mac key c code => step key c (code.eval step)

/-- The codes that can be assembled from the known codes and constants with the held keys. -/
inductive Derivable (held : Set κ) (known : Set (Term α κ χ)) : Term α κ χ → Prop
  | known {t} (h : t ∈ known) : Derivable held known t
  | const (a) : Derivable held known (.const a)
  | mac {key c t} (hk : key ∈ held) (h : Derivable held known t) :
      Derivable held known (.mac key c t)

/-- Every step inside the code was made under a held key, or is on record. -/
def Term.MadeOf (held : Set κ) (made : κ → χ → Term α κ χ → Prop) : Term α κ χ → Prop
  | .const _ => True
  | .mac key c code => (key ∈ held ∨ made key c code) ∧ code.MadeOf held made

variable {held : Set κ} {known : Set (Term α κ χ)} {made : κ → χ → Term α κ χ → Prop}

theorem Term.MadeOf.mono {made' : κ → χ → Term α κ χ → Prop}
    (hm : ∀ key c t, made key c t → made' key c t) :
    ∀ {t : Term α κ χ}, t.MadeOf held made → t.MadeOf held made'
  | .const _, _ => trivial
  | .mac _ _ _, ⟨h, ht⟩ => ⟨h.imp_right (hm _ _ _), ht.mono hm⟩

/-- **What is assembled from such codes contains no other step** under a key that is not held. -/
theorem Derivable.madeOf {t : Term α κ χ} (h : Derivable held known t)
    (hk : ∀ u ∈ known, u.MadeOf held made) : t.MadeOf held made := by
  induction h with
  | known h => exact hk _ h
  | const a => trivial
  | mac hkey _ ih => exact ⟨.inl hkey, ih⟩

/-- The code at the start of a chain. -/
theorem Term.MadeOf.of_chain_start {ctx : ι → ι → χ} {prev : ι} {hops : List (ι × κ)}
    {code : Term α κ χ} (h : (chain Term.mac ctx prev hops code).MadeOf held made) :
    code.MadeOf held made := by
  induction hops generalizing prev code with
  | nil => exact h
  | cons x hops ih => exact (ih h).2

/-- Every step of a chain under a key that is not held is on record, with the code of the path
before it. -/
theorem Term.MadeOf.of_chain {ctx : ι → ι → χ} {prev hop : ι} {key : κ}
    {hops hops' : List (ι × κ)} {code : Term α κ χ}
    (h : (chain Term.mac ctx prev (hops ++ (hop, key) :: hops') code).MadeOf held made)
    (hkey : key ∉ held) :
    made key (ctx (lastHop prev hops) hop) (chain Term.mac ctx prev hops code) := by
  rw [chain_append] at h
  have hstart : (Term.mac key (ctx (lastHop prev hops) hop)
      (chain Term.mac ctx prev hops code)).MadeOf held made := Term.MadeOf.of_chain_start h
  exact hstart.1.resolve_left hkey

end ChainMac
