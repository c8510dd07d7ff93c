import Mathlib.Tactic

/-!
# Incremental scanners

A scanner looks at the front of a buffer and either waits for more, or moves to a next state
and says how many items it took.  `drain` lets it run until it waits.  A scanner is
incremental if a move does not depend on what stands behind the items it takes; then it
does not matter in which pieces the input comes: draining piece by piece, with the rest of
each piece kept in front of the next, is draining the whole.
-/

namespace Eugraph.Lib

variable {σ α : Type}

/-- Run the scanner at most `fuel` times. -/
def drainWithin (attempt : σ → List α → Option (σ × Nat)) : Nat → σ → List α → σ × List α
  | 0, s, buf => (s, buf)
  | fuel + 1, s, buf =>
    match attempt s buf with
    | none => (s, buf)
    | some (s', n) => drainWithin attempt fuel s' (buf.drop n)

/-- Run the scanner until it waits; a move takes one item at least. -/
def drain (attempt : σ → List α → Option (σ × Nat)) (s : σ) (buf : List α) : σ × List α :=
  drainWithin attempt buf.length s buf

lemma drainWithin_of_none {attempt : σ → List α → Option (σ × Nat)} {s : σ} {buf : List α}
    (hattempt : attempt s buf = none) (fuel : Nat) : drainWithin attempt fuel s buf = (s, buf) := by
  cases fuel with
  | zero => rfl
  | succ fuel => rw [drainWithin, hattempt]

lemma drain_of_none {attempt : σ → List α → Option (σ × Nat)} {s : σ} {buf : List α}
    (hattempt : attempt s buf = none) : drain attempt s buf = (s, buf) :=
  drainWithin_of_none hattempt buf.length

/-- Every move takes something that is there, and is the same whatever comes behind. -/
structure Incremental (attempt : σ → List α → Option (σ × Nat)) : Prop where
  takes : ∀ {s s' buf n}, attempt s buf = some (s', n) → 0 < n ∧ n ≤ buf.length
  stable : ∀ {s s' buf n} (more : List α), attempt s buf = some (s', n) →
    attempt s (buf ++ more) = some (s', n)

namespace Incremental

variable {attempt : σ → List α → Option (σ × Nat)} (h : Incremental attempt)
include h

/-- Fuel for one move per item is as good as any larger amount. -/
theorem drainWithin_eq (s : σ) (buf : List α) {fuel : Nat} (hfuel : buf.length ≤ fuel) :
    drainWithin attempt fuel s buf = drain attempt s buf := by
  -- strong induction on the buffer, since a move may take more than one item
  induction hlen : buf.length using Nat.strongRecOn generalizing s buf fuel with
  | ind len ih =>
    cases hattempt : attempt s buf with
    | none =>
      rw [drain_of_none hattempt]
      exact drainWithin_of_none hattempt fuel
    | some move =>
      obtain ⟨s', n⟩ := move
      obtain ⟨hpos, hle⟩ := h.takes hattempt
      obtain ⟨fuel, rfl⟩ : ∃ f, fuel = f + 1 := ⟨fuel - 1, by omega⟩
      obtain ⟨items, hitems⟩ : ∃ k, buf.length = k + 1 := ⟨buf.length - 1, by omega⟩
      have hdrop : (buf.drop n).length = buf.length - n := List.length_drop
      rw [drain, hitems, drainWithin, drainWithin, hattempt]
      dsimp only
      -- both amounts of fuel are enough for what the move left
      have hrest : ∀ k, (buf.drop n).length ≤ k →
          drainWithin attempt k s' (buf.drop n) = drain attempt s' (buf.drop n) :=
        fun k hk => ih _ (by omega) s' (buf.drop n) hk rfl
      rw [hrest fuel (by omega), hrest items (by omega)]

lemma drain_of_some {s s' : σ} {buf : List α} {n : Nat} (hattempt : attempt s buf = some (s', n)) :
    drain attempt s buf = drain attempt s' (buf.drop n) := by
  obtain ⟨hpos, hle⟩ := h.takes hattempt
  obtain ⟨items, hitems⟩ : ∃ k, buf.length = k + 1 := ⟨buf.length - 1, by omega⟩
  have hdrop : (buf.drop n).length = buf.length - n := List.length_drop
  rw [drain, hitems, drainWithin, hattempt]
  exact h.drainWithin_eq s' (buf.drop n) (by omega)

/-- What the scanner does with the first part of the input it does with the whole. -/
theorem drain_append (s : σ) (buf more : List α) : drain attempt s (buf ++ more) =
      drain attempt (drain attempt s buf).1 ((drain attempt s buf).2 ++ more) := by
  induction hlen : buf.length using Nat.strongRecOn generalizing s buf with
  | ind len ih =>
    cases hattempt : attempt s buf with
    | none => rw [drain_of_none hattempt]
    | some move =>
      obtain ⟨s', n⟩ := move
      obtain ⟨hpos, hle⟩ := h.takes hattempt
      have hdrop : (buf.drop n).length = buf.length - n := List.length_drop
      rw [h.drain_of_some hattempt, h.drain_of_some (h.stable more hattempt), List.drop_append_of_le_length hle]
      exact ih _ (by omega) s' (buf.drop n) rfl

end Incremental

end Eugraph.Lib
