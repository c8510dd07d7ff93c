import Mathlib.Tactic.Common

/-!
# Programs over a set of calls

A program is a tree of calls to an external component; what a call returns decides
how the program goes on.  `run` interprets the calls by a handler that threads a
state, so one program text can be run against a component that always succeeds and
against one that fails by a plan.
-/

namespace Eugraph.Lib

/-- Programs that make calls `C` with answers `R` and return an `α`. -/
inductive Program (C : Type) (R : C → Type) (α : Type) : Type
  | done (a : α)
  | call (c : C) (next : R c → Program C R α)

namespace Program

variable {C : Type} {R : C → Type} {α β σ : Type}

protected def bind : Program C R α → (α → Program C R β) → Program C R β
  | done a, f => f a
  | call c next, f => call c fun r => (next r).bind f

instance : Monad (Program C R) where
  pure := done
  bind := Program.bind

/-- A single call. -/
def ask (c : C) : Program C R (R c) := call c done

/-- `if (!p) return false; q`. -/
def andThen (p q : Program C R Bool) : Program C R Bool := do
  if ← p then q else pure false

/-- Run every element; `false` as soon as one returns `false`. -/
def allOf (body : β → Program C R Bool) : List β → Program C R Bool
  | [] => pure true
  | b :: rest => andThen (body b) (allOf body rest)

/-- Run every element and drop the answers. -/
def forEach (body : β → Program C R α) : List β → Program C R Unit
  | [] => pure ()
  | b :: rest => do
      let _ ← body b
      forEach body rest

/-- Run every element and keep the answers. -/
def mapEach (body : β → Program C R α) : List β → Program C R (List α)
  | [] => pure []
  | b :: rest => do
      let a ← body b
      let as ← mapEach body rest
      return a :: as

lemma forEach_map {γ : Type} (body : β → Program C R α) (f : γ → β) (items : List γ) :
    forEach body (items.map f) = forEach (fun c => body (f c)) items := by
  induction items with
  | nil => rfl
  | cons c rest ih => rw [List.map_cons, forEach, forEach, ih]

/-- Interpret the calls by a handler. -/
def run (handle : (c : C) → σ → R c × σ) : Program C R α → σ → α × σ
  | done a, s => (a, s)
  | call c next, s => run handle (next (handle c s).1) (handle c s).2

variable (handle : (c : C) → σ → R c × σ)

@[simp] lemma run_pure (a : α) (s : σ) : run handle (pure a) s = (a, s) := rfl

@[simp] lemma run_bind (p : Program C R α) (f : α → Program C R β) (s : σ) :
    run handle (p >>= f) s = run handle (f (run handle p s).1) (run handle p s).2 := by
  change run handle (p.bind f) s = _
  induction p generalizing s with
  | done a => rfl
  | call c next ih => exact ih (handle c s).1 (handle c s).2

@[simp] lemma run_ite (c : Prop) [Decidable c] (p q : Program C R α) (s : σ) :
    run handle (if c then p else q) s = if c then run handle p s else run handle q s := by
  split <;> rfl

lemma run_andThen (p q : Program C R Bool) (s : σ) : run handle (andThen p q) s =
      if (run handle p s).1 then run handle q (run handle p s).2
      else (false, (run handle p s).2) := by
  rw [andThen, run_bind]
  cases (run handle p s).1 <;> rfl

/-- A loop whose bodies all return `true` is a fold of their effects. -/
theorem run_allOf {body : β → Program C R Bool} {effect : σ → β → σ}
    (hbody : ∀ b s, run handle (body b) s = (true, effect s b)) (items : List β) (s : σ) :
    run handle (allOf body items) s = (true, items.foldl effect s) := by
  induction items generalizing s with
  | nil => rfl
  | cons b rest ih =>
    rw [allOf, run_andThen, hbody, if_pos rfl, ih]
    rfl

lemma run_forEach {body : β → Program C R α} {effect : σ → β → σ}
    (hbody : ∀ b s, (run handle (body b) s).2 = effect s b) (items : List β) (s : σ) :
    run handle (forEach body items) s = ((), items.foldl effect s) := by
  induction items generalizing s with
  | nil => rfl
  | cons b rest ih =>
    rw [forEach, run_bind, hbody, ih]
    rfl

/-- A loop whose bodies leave the state alone asks each of them in the same state. -/
theorem run_mapEach {body : β → Program C R α} {s : σ} (hbody : ∀ b, (run handle (body b) s).2 = s)
    (items : List β) :
    run handle (mapEach body items) s = (items.map fun b => (run handle (body b) s).1, s) := by
  induction items with
  | nil => rfl
  | cons b rest ih => rw [mapEach, run_bind, hbody, run_bind, ih, run_pure, List.map_cons]

/-- What every call keeps, every program keeps. -/
theorem run_preserves {Inv : σ → Prop} (hcall : ∀ c s, Inv s → Inv (handle c s).2)
    (p : Program C R α) {s : σ} (h : Inv s) : Inv (run handle p s).2 := by
  induction p generalizing s with
  | done a => exact h
  | call c next ih => exact ih (handle c s).1 (hcall c s h)

end Program

end Eugraph.Lib
