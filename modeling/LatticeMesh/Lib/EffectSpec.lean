import Mathlib.Data.List.FinRange
import Mathlib.Logic.Relation

/-!
# Effect specifications of programs with state and exceptions

A program that updates a state and may stop with an exception is specified by the single steps
its runs are made of: a relation `step` for the changes a run may make one after the other and a
relation `stop` for the change with which a run may be abandoned.  Once every function of a
program has such a specification, an invariant of the program is checked against the steps alone.

## Main definitions

* `wp` — the weakest precondition of a program for a normal and an exceptional postcondition.
* `Spec step stop s x Q` — started in `s`, the program `x` is a sequence of `step`s; it fails only
  by a `stop` and returns only values that meet `Q`.
* `Keeps f x` — the program `x` leaves the part `f` of the state alone.
* `Yields f x P` — so it does, and it returns only values that meet `P`.
* `Maintains I x` — the program `x` ends where `I` holds if it starts where `I` holds.

## Main results

* `wp_bind`, `wp_mono`, `wp_finRange_forM` — the rules of the weakest precondition.
* `Spec.bind`, `Spec.forM` — specifications compose along sequencing and loops.
* `Spec.invariant` — **a property kept by every step and every stop is kept by the program.**
* `Keeps.bind`, `Keeps.forM` — frames compose along sequencing and loops.
* `Maintains.bind`, `Maintains.forM` — so do invariants.
* `Keeps.maintains` — what leaves the part of the state alone that an invariant is about maintains
  it.
-/

namespace EffectSpec

variable {ε σ α β : Type}

/-! ### Weakest preconditions -/

/-- Started in `s`, the program `x` ends with `Q` or is abandoned with `E`. -/
def wp (x : EStateM ε σ α) (Q : α → σ → Prop) (E : ε → σ → Prop) (s : σ) : Prop :=
  match x s with
  | .ok a t => Q a t
  | .error e t => E e t

variable {Q Q' : α → σ → Prop} {E E' : ε → σ → Prop} {s t : σ}

@[simp] theorem wp_pure (a : α) : wp (pure a : EStateM ε σ α) Q E s ↔ Q a s := Iff.rfl

@[simp] theorem wp_get {Q : σ → σ → Prop} : wp (get : EStateM ε σ σ) Q E s ↔ Q s s := Iff.rfl

@[simp] theorem wp_set {Q : PUnit → σ → Prop} :
    wp (set t : EStateM ε σ PUnit) Q E s ↔ Q ⟨⟩ t := Iff.rfl

@[simp] theorem wp_modify {Q : PUnit → σ → Prop} (f : σ → σ) :
    wp (modify f : EStateM ε σ PUnit) Q E s ↔ Q ⟨⟩ (f s) := Iff.rfl

@[simp] theorem wp_throw (e : ε) : wp (throw e : EStateM ε σ α) Q E s ↔ E e s := Iff.rfl

@[simp] theorem wp_bind (x : EStateM ε σ α) (f : α → EStateM ε σ β) {Q : β → σ → Prop} :
    wp (x >>= f) Q E s ↔ wp x (fun a t => wp (f a) Q E t) E s := by
  show wp (EStateM.bind x f) Q E s ↔ _
  unfold wp EStateM.bind
  cases x s <;> rfl

theorem wp_mono (x : EStateM ε σ α) (hQ : ∀ a t, Q a t → Q' a t) (hE : ∀ e t, E e t → E' e t)
    (h : wp x Q E s) : wp x Q' E' s := by
  unfold wp at h ⊢
  cases hx : x s with
  | ok a t => rw [hx] at h; exact hQ a t h
  | error e t => rw [hx] at h; exact hE e t h

theorem wp_true (x : EStateM ε σ α) (s : σ) : wp x (fun _ _ => True) (fun _ _ => True) s := by
  unfold wp
  cases x s <;> trivial

/-- What the last part of a program ensures from any state, whatever came before. -/
theorem wp_bind_any {x : EStateM ε σ α} {f : α → EStateM ε σ β} {Q : β → σ → Prop}
    (h : ∀ a t, wp (f a) Q (fun _ _ => True) t) : wp (x >>= f) Q (fun _ _ => True) s := by
  rw [wp_bind]
  exact wp_mono x (fun a t _ => h a t) (fun _ _ _ => trivial) (wp_true x s)

/-- Two postconditions that hold separately hold together. -/
theorem wp_and (x : EStateM ε σ α) (h : wp x Q E s) (h' : wp x Q' E' s) :
    wp x (fun a t => Q a t ∧ Q' a t) (fun e t => E e t ∧ E' e t) s := by
  unfold wp at h h' ⊢
  cases hx : x s with
  | ok a t => rw [hx] at h h'; exact ⟨h, h'⟩
  | error e t => rw [hx] at h h'; exact ⟨h, h'⟩

theorem wp_ok {x : EStateM ε σ α} {a : α} (hx : x s = .ok a t) (h : wp x Q E s) : Q a t := by
  unfold wp at h
  rwa [hx] at h

theorem wp_error {x : EStateM ε σ α} {e : ε} (hx : x s = .error e t) (h : wp x Q E s) : E e t := by
  unfold wp at h
  rwa [hx] at h

/-- A program that is never abandoned returns. -/
theorem exists_ok {x : EStateM ε σ α} (h : wp x Q (fun _ _ => False) s) :
    ∃ a t, x s = .ok a t ∧ Q a t := by
  cases hx : x s with
  | ok a t => exact ⟨a, t, rfl, wp_ok hx h⟩
  | error e t => exact (wp_error hx h).elim

/-- A program that cannot return halts. -/
theorem exists_error {x : EStateM ε σ α} {E : ε → σ → Prop} (h : wp x (fun _ _ => False) E s) :
    ∃ e t, x s = .error e t ∧ E e t := by
  cases hx : x s with
  | ok a t => exact (wp_ok hx h).elim
  | error e t => exact ⟨e, t, rfl, wp_error hx h⟩

/-- A program whose first part returns goes on with the second one. -/
theorem bind_ok {x : EStateM ε σ α} {f : α → EStateM ε σ β} {a : α} (hx : x s = .ok a t) :
    (x >>= f) s = f a t := by
  show EStateM.bind x f s = f a t
  rw [EStateM.bind, hx]

/-- A program whose first part is abandoned is abandoned. -/
theorem bind_error {x : EStateM ε σ α} {f : α → EStateM ε σ β} {e : ε} (hx : x s = .error e t) :
    (x >>= f) s = .error e t := by
  show EStateM.bind x f s = .error e t
  rw [EStateM.bind, hx]

/-- Programs that start with parts that end alike. -/
theorem bind_congr_left {x y : EStateM ε σ α} {f : α → EStateM ε σ β} (h : x s = y s) :
    (x >>= f) s = (y >>= f) s := by
  show EStateM.bind x f s = EStateM.bind y f s
  rw [EStateM.bind, EStateM.bind, h]

/-- A program that ends as another one does from a state that meets `P`. -/
theorem exists_eq {x y : EStateM ε σ α} {P : σ → Prop}
    (h : wp x (fun a t => ∃ u, P u ∧ y u = .ok a t) (fun e t => ∃ u, P u ∧ y u = .error e t) s) :
    ∃ u, P u ∧ x s = y u := by
  cases hx : x s with
  | ok a t =>
    obtain ⟨u, hu, hy⟩ := wp_ok hx h
    exact ⟨u, hu, hy.symm⟩
  | error e t =>
    obtain ⟨u, hu, hy⟩ := wp_error hx h
    exact ⟨u, hu, hy.symm⟩

/-- A loop over the indices below `n`, with an invariant that says how far it got. -/
theorem wp_finRange_forM {n : ℕ} {f : Fin n → EStateM ε σ PUnit} {I : ℕ → σ → Prop} (h0 : I 0 s)
    (h : ∀ (k : Fin n) t, I k t → wp (f k) (fun _ u => I (k + 1) u) E t) :
    wp ((List.finRange n).forM f) (fun _ t => I n t) E s := by
  induction n generalizing s I with
  | zero => exact h0
  | succ n ih =>
    rw [List.finRange_succ]
    show wp (f 0 >>= fun _ => forM ((List.finRange n).map Fin.succ) f) _ _ _
    rw [wp_bind, List.forM_map]
    refine wp_mono _ (fun _ t ht => ?_) (fun _ _ hE => hE) (h 0 s h0)
    exact ih (f := fun a => f a.succ) (I := fun k t => I (k + 1) t) ht fun k t hk =>
      h k.succ t hk

/-! ### Programs as sequences of steps -/

variable {step : σ → σ → Prop} {stop : ε → σ → σ → Prop}

/-- Started in `s`, the program `x` is a sequence of `step`s.  It is abandoned only by a `stop`
after such a sequence, and a value that it returns meets `Q`. -/
def Spec (step : σ → σ → Prop) (stop : ε → σ → σ → Prop) (s : σ) (x : EStateM ε σ α)
    (Q : α → σ → Prop) : Prop :=
  wp x (fun a t => Relation.ReflTransGen step s t ∧ Q a t)
    (fun e u => ∃ t, Relation.ReflTransGen step s t ∧ stop e t u) s

namespace Spec

theorem ret {a : α} (h : Q a s) : Spec step stop s (pure a) Q := ⟨.refl, h⟩

theorem raise {e : ε} (h : stop e s s) : Spec step stop s (throw e : EStateM ε σ α) Q :=
  ⟨s, .refl, h⟩

theorem update {Q : PUnit → σ → Prop} {f : σ → σ} (h : step s (f s)) (hQ : Q ⟨⟩ (f s)) :
    Spec step stop s (modify f) Q := ⟨.single h, hQ⟩

theorem mono {x : EStateM ε σ α} (h : Spec step stop s x Q)
    (hQ : ∀ a t, Relation.ReflTransGen step s t → Q a t → Q' a t) : Spec step stop s x Q' :=
  wp_mono x (fun a t ht => ⟨ht.1, hQ a t ht.1 ht.2⟩) (fun _ _ h => h) h

/-- **Sequencing.**  The second program starts where the first one left off. -/
theorem bind {x : EStateM ε σ α} {f : α → EStateM ε σ β} {Q' : β → σ → Prop}
    (hx : Spec step stop s x Q)
    (hf : ∀ a t, Relation.ReflTransGen step s t → Q a t → Spec step stop t (f a) Q') :
    Spec step stop s (x >>= f) Q' := by
  unfold Spec
  rw [wp_bind]
  refine wp_mono x (fun a t ht => ?_) (fun e u h => h) hx
  exact wp_mono (f a) (fun b u hu => ⟨ht.1.trans hu.1, hu.2⟩)
    (fun e u ⟨v, hv, hs⟩ => ⟨v, ht.1.trans hv, hs⟩) (hf a t ht.1 ht.2)

/-- A program that never returns is not followed by anything. -/
theorem bind_stop {x : EStateM ε σ α} {f : α → EStateM ε σ β} {Q' : β → σ → Prop}
    (hx : Spec step stop s x fun _ _ => False) : Spec step stop s (x >>= f) Q' :=
  bind hx fun _ _ _ h => h.elim

/-- Reading the state. -/
theorem read_bind {f : σ → EStateM ε σ β} {Q' : β → σ → Prop} (h : Spec step stop s (f s) Q') :
    Spec step stop s (get >>= f) Q' := by
  unfold Spec
  rw [wp_bind]
  exact h

/-- Writing the state. -/
theorem update_bind {f : σ → σ} {g : PUnit → EStateM ε σ β} {Q' : β → σ → Prop}
    (h : step s (f s)) (hg : Spec step stop (f s) (g ⟨⟩) Q') :
    Spec step stop s (modify f >>= g) Q' :=
  bind (Q := fun _ t => t = f s) (update h rfl) fun _ _ _ ht => ht ▸ hg

/-- A conditional. -/
theorem ite {c : Prop} [Decidable c] {x y : EStateM ε σ α} (hx : c → Spec step stop s x Q)
    (hy : ¬c → Spec step stop s y Q) : Spec step stop s (if c then x else y) Q := by
  split
  · exact hx ‹_›
  · exact hy ‹_›

/-- A loop over a list, with an invariant `I` that every round keeps. -/
theorem forM {l : List α} {f : α → EStateM ε σ PUnit} {I : σ → Prop} (h0 : I s)
    (h : ∀ a ∈ l, ∀ t, Relation.ReflTransGen step s t → I t →
      Spec step stop t (f a) fun _ u => I u) :
    Spec step stop s (l.forM f) fun _ t => I t := by
  induction l generalizing s with
  | nil => exact ret h0
  | cons a l ih =>
    refine bind (h a List.mem_cons_self s .refl h0) fun _ t hst ht => ih ht fun b hb u htu hu => ?_
    exact h b (List.mem_cons_of_mem a hb) u (hst.trans htu) hu

/-- **Invariants.**  A property that every step keeps and every stop turns into `J` holds
whenever the program returns, and `J` holds whenever it is abandoned. -/
theorem invariant {I J : σ → Prop} {x : EStateM ε σ α} (h : Spec step stop s x Q) (h0 : I s)
    (hstep : ∀ t u, step t u → I t → I u) (hstop : ∀ e t u, stop e t u → I t → J u) :
    wp x (fun a t => I t ∧ Q a t) (fun _ u => J u) s := by
  have hmany : ∀ t, Relation.ReflTransGen step s t → I t := fun t ht => by
    induction ht with
    | refl => exact h0
    | tail _ hs ih => exact hstep _ _ hs ih
  exact wp_mono x (fun a t ht => ⟨hmany t ht.1, ht.2⟩)
    (fun e u ⟨t, ht, hs⟩ => hstop e t u hs (hmany t ht)) h

end Spec

/-! ### Frames -/

variable {δ : Type} {f : σ → δ}

/-- The program `x` leaves the part `f` of the state alone, however it ends. -/
def Keeps (f : σ → δ) (x : EStateM ε σ α) : Prop :=
  ∀ s, wp x (fun _ t => f t = f s) (fun _ t => f t = f s) s

namespace Keeps

theorem ret (a : α) : Keeps f (pure a : EStateM ε σ α) := fun _ => rfl

theorem raise (e : ε) : Keeps f (throw e : EStateM ε σ α) := fun _ => rfl

theorem update {g : σ → σ} (h : ∀ s, f (g s) = f s) : Keeps f (modify g : EStateM ε σ PUnit) := h

/-- Sequencing. -/
theorem bind {x : EStateM ε σ α} {g : α → EStateM ε σ β} (hx : Keeps f x)
    (hg : ∀ a, Keeps f (g a)) : Keeps f (x >>= g) := by
  intro s
  rw [wp_bind]
  refine wp_mono x (fun a t ht => ?_) (fun _ _ h => h) (hx s)
  exact wp_mono (g a) (fun _ _ hu => hu.trans ht) (fun _ _ hu => hu.trans ht) (hg a t)

/-- Reading the state. -/
theorem read_bind {g : σ → EStateM ε σ β} (h : ∀ s, Keeps f (g s)) : Keeps f (get >>= g) :=
  fun s => h s s

/-- A conditional. -/
theorem ite {c : Prop} [Decidable c] {x y : EStateM ε σ α} (hx : c → Keeps f x)
    (hy : ¬c → Keeps f y) : Keeps f (if c then x else y) := by
  split
  · exact hx ‹_›
  · exact hy ‹_›

/-- A loop over a list. -/
theorem forM {l : List α} {g : α → EStateM ε σ PUnit} (h : ∀ a ∈ l, Keeps f (g a)) :
    Keeps f (l.forM g) := by
  induction l with
  | nil => exact ret _
  | cons a l ih =>
    exact bind (h a List.mem_cons_self) fun _ => ih fun b hb => h b (List.mem_cons_of_mem a hb)

/-- What a program keeps, a part of it is kept as well. -/
theorem comp {δ' : Type} {x : EStateM ε σ α} (g : δ → δ') (h : Keeps f x) :
    Keeps (fun s => g (f s)) x := fun s =>
  wp_mono x (fun _ _ ht => congrArg g ht) (fun _ _ ht => congrArg g ht) (h s)

end Keeps

/-- The program `x` leaves the part `f` of the state alone, however it ends, and returns only values
that meet `P`. -/
def Yields (f : σ → δ) (x : EStateM ε σ α) (P : α → Prop) : Prop :=
  ∀ s, wp x (fun a t => f t = f s ∧ P a) (fun _ t => f t = f s) s

namespace Yields

variable {P : α → Prop} {P' : β → Prop} {x : EStateM ε σ α} {g : α → EStateM ε σ β}

theorem ret {a : α} (h : P a) : Yields f (pure a : EStateM ε σ α) P := fun _ => ⟨rfl, h⟩

theorem of_keeps (h : Keeps f x) : Yields f x fun _ => True := fun s =>
  wp_mono x (fun _ _ ht => ⟨ht, trivial⟩) (fun _ _ ht => ht) (h s)

/-- Sequencing. -/
theorem bind (hx : Yields f x P) (hg : ∀ a, P a → Yields f (g a) P') : Yields f (x >>= g) P' := by
  intro s
  rw [wp_bind]
  refine wp_mono x (fun a t ht => ?_) (fun _ _ h => h) (hx s)
  exact wp_mono (g a) (fun _ _ hu => ⟨hu.1.trans ht.1, hu.2⟩) (fun _ _ hu => hu.trans ht.1)
    (hg a ht.2 t)

/-- Reading the state. -/
theorem read_bind {g : σ → EStateM ε σ β} (h : ∀ s, Yields f (g s) P') :
    Yields f (get >>= g) P' := fun s => h s s

/-- Sequencing, with a program whose result does not matter. -/
theorem bind_keeps (hx : Yields f x P) (hg : ∀ a, P a → Keeps f (g a)) : Keeps f (x >>= g) := by
  intro s
  rw [wp_bind]
  refine wp_mono x (fun a t ht => ?_) (fun _ _ h => h) (hx s)
  exact wp_mono (g a) (fun _ _ hu => hu.trans ht.1) (fun _ _ hu => hu.trans ht.1) (hg a ht.2 t)

end Yields

/-! ### Invariants -/

variable {I : σ → Prop}

/-- Started where `I` holds, the program `x` ends where `I` holds, whether it returns or not. -/
def Maintains (I : σ → Prop) (x : EStateM ε σ α) : Prop :=
  ∀ s, I s → wp x (fun _ t => I t) (fun _ t => I t) s

/-- What leaves the part of the state alone that an invariant is about maintains it. -/
theorem Keeps.maintains {x : EStateM ε σ α} (h : Keeps f x)
    (hI : ∀ {s t : σ}, f t = f s → I s → I t) : Maintains I x := fun s hs =>
  wp_mono x (fun _ _ ht => hI ht hs) (fun _ _ ht => hI ht hs) (h s)

namespace Maintains

variable {x : EStateM ε σ α} {g : α → EStateM ε σ β}

theorem ret (a : α) : Maintains I (pure a : EStateM ε σ α) := fun _ h => h

theorem raise (e : ε) : Maintains I (throw e : EStateM ε σ α) := fun _ h => h

theorem update {g : σ → σ} (h : ∀ s, I s → I (g s)) :
    Maintains I (modify g : EStateM ε σ PUnit) := h

/-- Sequencing. -/
theorem bind (hx : Maintains I x) (hg : ∀ a, Maintains I (g a)) : Maintains I (x >>= g) := by
  intro s hs
  rw [wp_bind]
  exact wp_mono x (fun a t ht => hg a t ht) (fun _ _ h => h) (hx s hs)

/-- Sequencing after a program that leaves the invariant alone and whose results are known. -/
theorem yields_bind {P : α → Prop} (hx : Yields f x P)
    (hI : ∀ {s t : σ}, f t = f s → I s → I t) (hg : ∀ a, P a → Maintains I (g a)) :
    Maintains I (x >>= g) := by
  intro s hs
  rw [wp_bind]
  exact wp_mono x (fun a t ht => hg a ht.2 t (hI ht.1 hs)) (fun _ _ ht => hI ht hs) (hx s)

/-- Reading the state, of which the invariant is known. -/
theorem read_bind {g : σ → EStateM ε σ β} (h : ∀ s, I s → Maintains I (g s)) :
    Maintains I (get >>= g) := fun s hs => h s hs s hs

/-- A conditional. -/
theorem ite {c : Prop} [Decidable c] {x y : EStateM ε σ α} (hx : c → Maintains I x)
    (hy : ¬c → Maintains I y) : Maintains I (if c then x else y) := by
  split
  · exact hx ‹_›
  · exact hy ‹_›

/-- A loop over a list. -/
theorem forM {l : List α} {g : α → EStateM ε σ PUnit} (h : ∀ a ∈ l, Maintains I (g a)) :
    Maintains I (l.forM g) := by
  induction l with
  | nil => exact ret _
  | cons a l ih =>
    exact bind (h a List.mem_cons_self) fun _ => ih fun b hb => h b (List.mem_cons_of_mem a hb)

end Maintains

end EffectSpec
