import LatticeMesh.Lib.EffectSpec

/-!
# Two runs of one program

States that differ only in what a program does not depend on are related.  A program ends alike from
related states if it returns the same value or raises the same error, and leaves related states
behind.  Two programs that do nothing but move within the relation end alike, too, even where they
differ.

## Main definitions

* `SameEnd R` — two results agree, and their states are related.
* `Twice R x y s t` — the programs `x` and `y` end alike from the states `s` and `t`.
* `Alike R x` — the program `x` ends alike from related states.
* `Hushed R s x` — started in `s`, the program `x` returns and leaves a state behind that is related
  to `s`.

## Main results

* `Alike.bind`, `Alike.read_bind`, `Alike.forM` — programs that end alike compose.
* `Hushed.twice` — **programs that only move within the relation end alike.**
-/

namespace TwoRuns

open EffectSpec

variable {ε σ α β : Type} {R : σ → σ → Prop} {s t : σ}

/-- Two results agree: both are values or both are errors, and these are the same. -/
inductive SameEnd (R : σ → σ → Prop) : EStateM.Result ε σ α → EStateM.Result ε σ α → Prop
  | ok {a s t} (h : R s t) : SameEnd R (.ok a s) (.ok a t)
  | error {e s t} (h : R s t) : SameEnd R (.error e s) (.error e t)

theorem SameEnd.symm [Std.Symm R] {x y : EStateM.Result ε σ α} (h : SameEnd R x y) :
    SameEnd R y x := by
  cases h with
  | ok h => exact .ok (symm_of R h)
  | error h => exact .error (symm_of R h)

theorem SameEnd.trans [IsTrans σ R] {x y z : EStateM.Result ε σ α} (h : SameEnd R x y)
    (h' : SameEnd R y z) : SameEnd R x z := by
  cases h with
  | ok h =>
    cases h' with
    | ok h' => exact .ok (trans_of R h h')
  | error h =>
    cases h' with
    | error h' => exact .error (trans_of R h h')

/-- The programs `x` and `y`, started in `s` and in `t`, end alike. -/
def Twice (R : σ → σ → Prop) (x y : EStateM ε σ α) (s t : σ) : Prop := SameEnd R (x s) (y t)

/-- The program `x` ends alike from related states. -/
def Alike (R : σ → σ → Prop) (x : EStateM ε σ α) : Prop := ∀ s t, R s t → Twice R x x s t

/-- Started in a state `s` that is related to itself, the program `x` returns, and it leaves a state
behind that is related to `s`. -/
def Hushed (R : σ → σ → Prop) (s : σ) (x : EStateM ε σ α) : Prop :=
  R s s → wp x (fun _ t => R s t) (fun _ _ => False) s

/-! ### Programs side by side -/

namespace Twice

variable {x y : EStateM ε σ α} {f g : α → EStateM ε σ β}

theorem ret {a : α} (h : R s t) : Twice R (pure a) (pure a : EStateM ε σ α) s t := .ok h

/-- Sequencing. -/
theorem bind (hx : Twice R x y s t) (hf : ∀ a s' t', R s' t' → Twice R (f a) (g a) s' t') :
    Twice R (x >>= f) (y >>= g) s t := by
  unfold Twice at hx ⊢
  show SameEnd R (EStateM.bind x f s) (EStateM.bind y g t)
  unfold EStateM.bind
  cases hxs : x s with
  | ok a s' =>
    rw [hxs] at hx
    cases hyt : y t with
    | ok a' t' =>
      rw [hyt] at hx
      cases hx with
      | ok h => exact hf a s' t' h
    | error e t' => rw [hyt] at hx; cases hx
  | error e s' =>
    rw [hxs] at hx
    cases hyt : y t with
    | ok a' t' => rw [hyt] at hx; cases hx
    | error e' t' =>
      rw [hyt] at hx
      cases hx with
      | error h => exact .error h

/-- Reading the state. -/
theorem read_bind {f g : σ → EStateM ε σ β} (h : Twice R (f s) (g t) s t) :
    Twice R (get >>= f) (get >>= g) s t := h

/-- Reading the state on one side. -/
theorem read_left {f : σ → EStateM ε σ β} {z : EStateM ε σ β} (h : Twice R (f s) z s t) :
    Twice R (get >>= f) z s t := h

/-- A program that ends alike can be replaced by another one that ends as it does from each of two
related states. -/
theorem replace [Std.Symm R] [IsTrans σ R] (hx : Alike R x) (hs : Twice R y x s s)
    (ht : Twice R y x t t) (h : R s t) : Twice R y y s t :=
  SameEnd.trans hs (SameEnd.trans (hx s t h) (SameEnd.symm ht))

/-- Writing the state. -/
theorem update_bind {f g : σ → σ} {x y : PUnit → EStateM ε σ β}
    (h : Twice R (x ⟨⟩) (y ⟨⟩) (f s) (g t)) :
    Twice R (modify f >>= x) (modify g >>= y) s t := h

end Twice

/-! ### One program -/

namespace Alike

variable {x : EStateM ε σ α} {f : α → EStateM ε σ β}

theorem ret (a : α) : Alike R (pure a : EStateM ε σ α) := fun _ _ h => .ok h

theorem raise (e : ε) : Alike R (throw e : EStateM ε σ α) := fun _ _ h => .error h

theorem update {f : σ → σ} (h : ∀ s t, R s t → R (f s) (f t)) :
    Alike R (modify f : EStateM ε σ PUnit) := fun s t hst => .ok (h s t hst)

/-- Sequencing. -/
theorem bind (hx : Alike R x) (hf : ∀ a, Alike R (f a)) : Alike R (x >>= f) := fun s t h =>
  (hx s t h).bind fun a s' t' h' => hf a s' t' h'

/-- Reading the state, of which only a part matters that is the same in related states. -/
theorem read_bind {f : σ → EStateM ε σ β} (hf : ∀ s t, R s t → f t = f s)
    (h : ∀ s, Alike R (f s)) : Alike R (get >>= f) := by
  intro s t hst
  refine Twice.read_bind ?_
  rw [hf s t hst]
  exact h s s t hst

/-- A conditional. -/
theorem ite {c : Prop} [Decidable c] {x y : EStateM ε σ α} (hx : c → Alike R x)
    (hy : ¬c → Alike R y) : Alike R (if c then x else y) := by
  split
  · exact hx ‹_›
  · exact hy ‹_›

/-- A loop over a list. -/
theorem forM {l : List α} {f : α → EStateM ε σ PUnit} (h : ∀ a ∈ l, Alike R (f a)) :
    Alike R (l.forM f) := by
  induction l with
  | nil => exact ret _
  | cons a l ih =>
    exact bind (h a List.mem_cons_self) fun _ => ih fun b hb => h b (List.mem_cons_of_mem a hb)

end Alike

/-! ### Programs that move within the relation -/

namespace Hushed

theorem ret {a : α} : Hushed R s (pure a : EStateM ε σ α) := fun h => h

theorem update {f : σ → σ} (h : R s s → R s (f s)) :
    Hushed R s (modify f : EStateM ε σ PUnit) := h

/-- Reading the state. -/
theorem read_bind {f : σ → EStateM ε σ β} (h : Hushed R s (f s)) : Hushed R s (get >>= f) := h

/-- A conditional. -/
theorem ite {c : Prop} [Decidable c] {x y : EStateM ε σ α} (hx : c → Hushed R s x)
    (hy : ¬c → Hushed R s y) : Hushed R s (if c then x else y) := by
  split
  · exact hx ‹_›
  · exact hy ‹_›

variable [IsTrans σ R] [Std.Symm R]

/-- A state that is related to any other one is related to itself. -/
theorem refl_right (h : R s t) : R t t := trans_of R (symm_of R h) h

/-- Sequencing.  The second program starts in a state that is related to the first one. -/
theorem bind {x : EStateM ε σ α} {f : α → EStateM ε σ β} (hx : Hushed R s x)
    (hf : ∀ a t, R s t → Hushed R t (f a)) : Hushed R s (x >>= f) := by
  intro hs
  rw [wp_bind]
  refine wp_mono x (fun a t ht => ?_) (fun _ _ h => h) (hx hs)
  exact wp_mono (f a) (fun _ u hu => trans_of R ht hu) (fun _ _ h => h) (hf a t ht (refl_right ht))

/-- A loop over a list. -/
theorem forM {l : List α} {f : α → EStateM ε σ PUnit}
    (h : ∀ a ∈ l, ∀ t, R s t → Hushed R t (f a)) : Hushed R s (l.forM f) := by
  induction l generalizing s with
  | nil => exact ret
  | cons a l ih =>
    intro hs
    refine bind (h a List.mem_cons_self s hs) (fun _ t ht => ?_) hs
    exact ih fun b hb u hu => h b (List.mem_cons_of_mem a hb) u (trans_of R ht hu)

/-- **Programs that only move within the relation end alike**, from related states. -/
theorem twice {x y : EStateM ε σ PUnit} (hx : Hushed R s x) (hy : Hushed R t y) (h : R s t) :
    Twice R x y s t := by
  obtain ⟨⟨⟩, s', hxs, hs'⟩ := exists_ok (hx (refl_right (symm_of R h)))
  obtain ⟨⟨⟩, t', hyt, ht'⟩ := exists_ok (hy (refl_right h))
  unfold Twice
  rw [hxs, hyt]
  exact .ok (trans_of R (symm_of R hs') (trans_of R h ht'))

/-- A program that moves within the relation from every state ends alike. -/
theorem alike {x : EStateM ε σ PUnit} (h : ∀ s, Hushed R s x) : Alike R x := fun s t hst =>
  twice (h s) (h t) hst

end Hushed

end TwoRuns
