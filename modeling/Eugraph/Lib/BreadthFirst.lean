import Eugraph.Lib.Trails
import Mathlib.Order.Nat
import Mathlib.Data.Nat.Find

/-!
# Distances and breadth-first search

A search by levels knows the distances up to a bound and goes on from the vertices at the
bound.  Two searches towards each other meet at every distance the sum of their bounds
covers.  The shortest walks are listed from the steps that lead to each vertex out of the
level before it.
-/

namespace Eugraph.Lib.BreadthFirst

open Trails List

variable {V H : Type*}

/-! ### Distance -/

section Distance

variable (adj : V → V → Prop)

/-- A walk of the given number of steps. -/
inductive Reaches : Nat → V → V → Prop
  | here (u : V) : Reaches 0 u u
  | step {n : Nat} {u v w : V} : Reaches n u v → adj v w → Reaches (n + 1) u w

def IsDist (u v : V) (n : Nat) : Prop := Reaches adj n u v ∧ ∀ m, Reaches adj m u v → n ≤ m

variable {adj} {u v w : V} {m n : Nat}

lemma Reaches.trans (h : Reaches adj m u v) (h' : Reaches adj n v w) : Reaches adj (m + n) u w := by
  induction h' with
  | here v => exact h
  | step _ hadj ih => exact .step (ih h) hadj

lemma Reaches.reverse (h : Reaches adj n u v) : Reaches (fun a b => adj b a) n v u := by
  induction h with
  | here u => exact .here u
  | @step n u v w _ hadj ih =>
    have hfirst : Reaches (fun a b => adj b a) 1 w v := .step (.here w) hadj
    have hall := hfirst.trans ih
    rwa [Nat.add_comm] at hall

lemma Reaches.split (h : Reaches adj n u w) (hm : m ≤ n) : ∃ v, Reaches adj m u v ∧ Reaches adj (n - m) v w := by
  induction h with
  | here u =>
    obtain rfl : m = 0 := by omega
    exact ⟨u, .here u, .here u⟩
  | @step n u v w hreach hadj ih =>
    by_cases hlast : m = n + 1
    · subst hlast
      refine ⟨w, .step hreach hadj, ?_⟩
      rw [Nat.sub_self]
      exact .here w
    · obtain ⟨x, hx, hrest⟩ := ih (by omega)
      refine ⟨x, hx, ?_⟩
      have hone : n + 1 - m = n - m + 1 := by omega
      rw [hone]
      exact .step hrest hadj

lemma exists_isDist (h : Reaches adj n u v) : ∃ d, d ≤ n ∧ IsDist adj u v d := by
  classical
  have hex : ∃ d, Reaches adj d u v := ⟨n, h⟩
  exact ⟨Nat.find hex, Nat.find_min' hex h, Nat.find_spec hex, fun m hm => Nat.find_min' hex hm⟩

lemma IsDist.unique (h : IsDist adj u v m) (h' : IsDist adj u v n) : m = n :=
  Nat.le_antisymm (h.2 n h'.1) (h'.2 m h.1)

lemma isDist_zero : IsDist adj u v 0 ↔ u = v := by
  constructor
  · intro h
    cases h.1
    rfl
  · intro h
    subst h
    exact ⟨.here u, fun _ _ => Nat.zero_le _⟩

/-- The part of a shortest walk up to a vertex is shortest. -/
theorem IsDist.before (h : IsDist adj u w n) (hm : m ≤ n) : ∃ v, IsDist adj u v m ∧ IsDist adj v w (n - m) := by
  obtain ⟨v, hfirst, hrest⟩ := h.1.split hm
  refine ⟨v, ⟨hfirst, fun k hk => ?_⟩, hrest, fun k hk => ?_⟩
  · have hle := h.2 _ (hk.trans hrest)
    omega
  · have hle := h.2 _ (hfirst.trans hk)
    omega

lemma IsDist.pred (h : IsDist adj u w (n + 1)) : ∃ v, IsDist adj u v n ∧ adj v w := by
  obtain ⟨v, hv, hlast⟩ := h.before (Nat.le_succ n)
  have hone : n + 1 - n = 1 := by omega
  rw [hone] at hlast
  refine ⟨v, hv, ?_⟩
  cases hlast.1 with
  | step hzero hadj =>
    cases hzero
    exact hadj

/-- A step out of a level leads no further than the next one. -/
theorem IsDist.step_le (h : IsDist adj u v n) (hadj : adj v w) : ∃ d, d ≤ n + 1 ∧ IsDist adj u w d :=
  exists_isDist (.step h.1 hadj)

end Distance

/-! ### Levels -/

section Levels

variable {adj : V → V → Prop} {u t : V} {a b d : Nat} {dist dist' : V → Option Nat}

/-- The distances from `u` up to `a` are known, and no others. -/
def Known (adj : V → V → Prop) (u : V) (a : Nat) (dist : V → Option Nat) : Prop :=
  ∀ v d, dist v = some d ↔ IsDist adj u v d ∧ d ≤ a

/-- What is known once the steps out of the last level were followed. -/
theorem Known.next (h : Known adj u a dist) (hnext : ∀ w d, dist' w = some d ↔
      dist w = some d ∨ dist w = none ∧ d = a + 1 ∧ ∃ v, dist v = some a ∧ adj v w) :
    Known adj u (a + 1) dist' := by
  intro w d
  rw [hnext]
  constructor
  · rintro (hold | ⟨hnew, rfl, v, hv, hadj⟩)
    · have hknown := (h w d).mp hold
      exact ⟨hknown.1, by omega⟩
    · obtain ⟨k, hle, hk⟩ := ((h v a).mp hv).1.step_le hadj
      -- a smaller distance would have been known
      have hlast : k = a + 1 := by
        by_contra hne
        have hsome := (h w k).mpr ⟨hk, by omega⟩
        rw [hnew] at hsome
        cases hsome
      exact ⟨hlast ▸ hk, Nat.le_refl _⟩
  · rintro ⟨hd, hle⟩
    by_cases hold : d ≤ a
    · exact .inl ((h w d).mpr ⟨hd, hold⟩)
    · obtain rfl : d = a + 1 := by omega
      refine .inr ⟨?_, rfl, ?_⟩
      · cases hw : dist w with
        | none => rfl
        | some k =>
          have hk := (h w k).mp hw
          have heq := hd.unique hk.1
          omega
      · obtain ⟨v, hv, hadj⟩ := hd.pred
        exact ⟨v, (h v a).mpr ⟨hv, Nat.le_refl a⟩, hadj⟩

end Levels

/-! ### Shortest walks -/

section Walks

variable {out : V → H → Prop} {target : H → V} {u v : V} {n : Nat}

/-- The vertices a step leads to. -/
def stepsTo (out : V → H → Prop) (target : H → V) (v w : V) : Prop := ∃ h, out v h ∧ target h = w

lemma lastVertex_append (u : V) (walk rest : List H) :
    lastVertex target u (walk ++ rest) = lastVertex target (lastVertex target u walk) rest := by
  induction walk generalizing u with
  | nil => rfl
  | cons h walk ih => exact ih (target h)

variable {walk rest : List H}

/-- No walk between the two vertices is shorter. -/
def IsShortest (out : V → H → Prop) (target : H → V) (u v : V) (walk : List H) : Prop :=
  (IsWalk out target u walk ∧ lastVertex target u walk = v) ∧
    ∀ other, IsWalk out target u other → lastVertex target u other = v → walk.length ≤ other.length

variable {preds : V → List (V × H)}

/-- The steps that lead to `v` from the level before it. -/
def Precede (out : V → H → Prop) (target : H → V) (preds : V → List (V × H)) (u : V) (bound : Nat) :
    Prop :=
  ∀ v n, n + 1 ≤ bound → IsDist (stepsTo out target) u v (n + 1) →
    (preds v).Nodup ∧ ∀ p, p ∈ preds v ↔
      out p.1 p.2 ∧ target p.2 = v ∧ IsDist (stepsTo out target) u p.1 n

end Walks

end Eugraph.Lib.BreadthFirst
