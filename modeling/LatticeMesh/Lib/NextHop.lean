import Mathlib.Data.Nat.Notation
import Mathlib.Data.Set.Basic

/-!
# Following next hops

Every station of a network knows one next hop toward a common destination.  When a rank falls from
each station to its next hop, the next hops lead from every station to the destination, and no
longer than the rank says.

## Main definitions

* `NextHop.Path` — the stations that the next hops lead over, up to the destination.
* `NextHop.Ranked` — a rank that falls along the next hops.
* `NextHop.Reached` — so many hops lead from a root to a station.

## Main results

* `NextHop.Ranked.exists_path` — **from every station there is a path, and it is as short as the
  rank of the station.**
* `NextHop.Path.unique` — there is no other one.
-/

namespace NextHop

variable {α : Type} {next : α → Option α} {dest x : α} {l : List α}

/-- The next hops lead from `x` over the stations `l` to `dest`; `x` itself is the first of them. -/
inductive Path (next : α → Option α) (dest : α) : α → List α → Prop
  | arrive : Path next dest dest []
  | hop {x y : α} {l : List α} (hx : x ≠ dest) (hn : next x = some y) (h : Path next dest y l) :
      Path next dest x (x :: l)

/-- The destination is not on the path to it. -/
theorem Path.ne_dest (h : Path next dest x l) : ∀ y ∈ l, y ≠ dest := by
  induction h with
  | arrive => intro y hy; cases hy
  | hop hx _ _ ih =>
    intro y hy
    rcases List.mem_cons.1 hy with rfl | hy
    · exact hx
    · exact ih y hy

/-- There is one path from a station. -/
theorem Path.unique {l' : List α} (h : Path next dest x l) (h' : Path next dest x l') : l = l' := by
  induction h generalizing l' with
  | arrive =>
    cases h' with
    | arrive => rfl
    | hop hx => exact absurd rfl hx
  | hop hx hn _ ih =>
    cases h' with
    | arrive => exact absurd rfl hx
    | hop _ hn' h' =>
      obtain rfl := Option.some.inj (hn.symm.trans hn')
      rw [ih h']

/-- In the set `S` of stations each has a next hop, and the rank falls on the way to it. -/
structure Ranked (next : α → Option α) (dest : α) (S : Set α) (rank : α → ℕ) : Prop where
  pos : ∀ x ∈ S, x ≠ dest → 0 < rank x
  next : ∀ x ∈ S, x ≠ dest → ∃ y ∈ S, next x = some y ∧ (y ≠ dest → rank y < rank x)

section

variable {S : Set α} {rank : α → ℕ}

/-- A path in `S` along which the rank falls, from at most `n` on. -/
structure Falls (S : Set α) (rank : α → ℕ) (n : ℕ) (l : List α) : Prop where
  mem : ∀ y ∈ l, y ∈ S
  le : ∀ y ∈ l, rank y ≤ n
  falls : l.Pairwise fun y z => rank z < rank y
  length_le : l.length ≤ n

theorem Falls.nodup {n : ℕ} (h : Falls S rank n l) : l.Nodup :=
  h.falls.imp fun hlt he => by
    subst he
    exact absurd hlt (lt_irrefl _)

/-- **From every station there is a path to the destination**, as short as the rank of the
station. -/
theorem Ranked.exists_path (h : Ranked next dest S rank) :
    ∀ x ∈ S, ∃ l, Path next dest x l ∧ (x ≠ dest → Falls S rank (rank x) l) := by
  suffices ∀ n, ∀ x ∈ S, x ≠ dest → rank x = n →
      ∃ l, Path next dest x l ∧ Falls S rank (rank x) l by
    intro x hx
    by_cases hd : x = dest
    · subst hd
      exact ⟨[], .arrive, fun hne => absurd rfl hne⟩
    · obtain ⟨l, hl, hf⟩ := this _ x hx hd rfl
      exact ⟨l, hl, fun _ => hf⟩
  -- by induction on the rank, which falls with every hop
  intro n
  induction n using Nat.strong_induction_on with
  | h n ih =>
    rintro x hx hd rfl
    have hpos := h.pos x hx hd
    obtain ⟨y, hy, hn, hlt⟩ := h.next x hx hd
    by_cases hyd : y = dest
    · subst hyd
      refine ⟨[x], .hop hd hn .arrive, ?_, ?_, List.pairwise_singleton _ _, hpos⟩
      · simpa using hx
      · simp
    · obtain ⟨l, hl, hf⟩ := ih _ (hlt hyd) y hy hyd rfl
      have hyx := hlt hyd
      refine ⟨x :: l, .hop hd hn hl, ?_, ?_, ?_, ?_⟩
      · rintro z (_ | ⟨_, hz⟩)
        · exact hx
        · exact hf.mem z hz
      · rintro z (_ | ⟨_, hz⟩)
        · exact le_rfl
        · exact (hf.le z hz).trans hyx.le
      · exact List.pairwise_cons.2 ⟨fun z hz => (hf.le z hz).trans_lt hyx, hf.falls⟩
      · have := hf.length_le
        rw [List.length_cons]
        omega

end

/-! ### Hop counts -/

/-- At most so many hops lead from `root` to a station: each station on the way hears the one
before. -/
inductive Reached (hears : α → α → Prop) (root : α) : α → ℕ → Prop
  | root (k : ℕ) : Reached hears root root k
  | hop {x y : α} {k : ℕ} (hx : hears x y) (h : Reached hears root y k) :
      Reached hears root x (k + 1)

section

variable {hears : α → α → Prop} {root : α} {k l : ℕ}

theorem Reached.mono (h : Reached hears root x k) (hl : k ≤ l) : Reached hears root x l := by
  induction h generalizing l with
  | root => exact .root l
  | hop hx _ ih =>
    cases l with
    | zero => omega
    | succ l => exact .hop hx (ih (by omega))

/-- The hop count of a station is the least one with which it is reached. -/
structure HopCount (hears : α → α → Prop) (root : α) (x : α) (k : ℕ) : Prop where
  reached : Reached hears root x k
  least : ∀ l, Reached hears root x l → k ≤ l

/-- A count with which a station is reached, and that is no more than its hop count, is its hop
count. -/
theorem HopCount.eq_of_reached (h : HopCount hears root x k) (hl : Reached hears root x l)
    (hle : l ≤ k) : l = k := le_antisymm hle (h.least l hl)

end

end NextHop
