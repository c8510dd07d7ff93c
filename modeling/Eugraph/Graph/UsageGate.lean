import Mathlib.Data.List.Basic
import Mathlib.Logic.Function.Basic

/-!
# The usage gates of the graphs

`GraphUsageGate` counts the users of a graph instance and refuses new ones once it is
closed.  A user holds a `Guard`, an object that can be moved and gives its place back
when it is released or destroyed.  Every method of the gate runs under the gate's lock,
so each is one step.
-/

namespace Eugraph

open Function List Option

/-! ### The gate -/

structure GraphUsageGate where
  closed : Bool
  inflight : Nat
  deriving DecidableEq

namespace GraphUsageGate

def fresh : GraphUsageGate := ⟨false, 0⟩

/-- Whether a guard is granted. -/
def tryEnter (g : GraphUsageGate) : Bool × GraphUsageGate :=
  if g.closed then (false, g) else (true, { g with inflight := g.inflight + 1 })

def close (g : GraphUsageGate) : GraphUsageGate := { g with closed := true }

def leave (g : GraphUsageGate) : GraphUsageGate :=
  if 0 < g.inflight then { g with inflight := g.inflight - 1 } else g

lemma closed_leave (g : GraphUsageGate) : g.leave.closed = g.closed := by
  unfold leave
  split <;> rfl

lemma inflight_leave (g : GraphUsageGate) : g.leave.inflight = g.inflight - 1 := by
  unfold leave
  split
  · rfl
  · omega

end GraphUsageGate

open GraphUsageGate

/-- A guard object: the gate it points to, if any, and whether it holds a place there. -/
structure UsageGuard where
  gate : Option Nat
  valid : Bool
  deriving DecidableEq

namespace UsageGuard

/-- A guard after it was moved from or released. -/
def empty : UsageGuard := ⟨none, false⟩

/-- Whether the guard holds a place at gate `i`. -/
def holds (i : Nat) (g : UsageGuard) : Bool := g.valid && decide (g.gate = some i)

@[simp]
theorem holds_empty (i : Nat) : empty.holds i = false := rfl

lemma holds_none (i : Nat) (valid : Bool) : (UsageGuard.mk none valid).holds i = false := by
  simp [holds]

lemma holds_some (i j : Nat) : (UsageGuard.mk (some i) true).holds j = decide (i = j) := by
  simp [holds]

end UsageGuard

/-! ### All gates and all guards -/

open UsageGuard

/-- The gate of every graph instance and every guard object there has been. -/
structure GateTable where
  gate : Nat → GraphUsageGate
  guards : List UsageGuard

namespace GateTable

def setGate (u : GateTable) (i : Nat) (g : GraphUsageGate) : GateTable :=
  { u with gate := update u.gate i g }

/-- A client enters gate `i`; on success it has a new guard. -/
def enter (u : GateTable) (i : Nat) : GateTable :=
  match (u.gate i).tryEnter with
  | (false, _) => u
  | (true, g) => { u.setGate i g with guards := u.guards ++ [⟨some i, true⟩] }

def close (u : GateTable) (i : Nat) : GateTable := u.setGate i (u.gate i).close

/-- `Guard::release`, which `reset` and the destructor call. -/
def release (u : GateTable) (k : Nat) : Option GateTable :=
  match u.guards[k]? with
  | none => none
  | some ⟨some i, true⟩ =>
    some { u.setGate i (u.gate i).leave with guards := u.guards.set k .empty }
  | some ⟨_, valid⟩ => some { u with guards := u.guards.set k ⟨none, valid⟩ }

/-- A new guard is constructed from guard `k`. -/
def moveConstruct (u : GateTable) (k : Nat) : Option GateTable :=
  match u.guards[k]? with
  | none => none
  | some g => some { u with guards := u.guards.set k .empty ++ [g] }

/-- Guard `source` is assigned to guard `target`, which is released first. -/
def moveAssign (u : GateTable) (target source : Nat) : Option GateTable :=
  if target = source then some u
  else
    match u.release target with
    | none => none
    | some u =>
      match u.guards[source]? with
      | none => none
      | some g => some { u with guards := (u.guards.set target g).set source .empty }

/-- The number of guards that hold a place at gate `i`. -/
def live (u : GateTable) (i : Nat) : Nat := u.guards.countP (holds i)

/-- Every gate counts the guards on it. -/
def Counted (u : GateTable) : Prop := ∀ i, (u.gate i).inflight = u.live i

/-- A closed gate stays closed and gets no new guard. -/
def Narrows (u u' : GateTable) : Prop :=
  ∀ i, (u.gate i).closed = true → (u'.gate i).closed = true ∧ u'.live i ≤ u.live i

lemma Narrows.refl (u : GateTable) : u.Narrows u := fun _ h => ⟨h, Nat.le_refl _⟩

variable {u u' : GateTable}

lemma Narrows.trans {u'' : GateTable} (h : u.Narrows u') (h' : u'.Narrows u'') : u.Narrows u'' := by
  intro i hi
  obtain ⟨hclosed, hlive⟩ := h i hi
  obtain ⟨hclosed', hlive'⟩ := h' i hclosed
  exact ⟨hclosed', Nat.le_trans hlive' hlive⟩

/-- What an operation on gates and guards keeps. -/
structure Keeps (u u' : GateTable) : Prop where
  counted : u.Counted → u'.Counted
  narrows : u.Narrows u'

lemma Keeps.refl (u : GateTable) : u.Keeps u := ⟨id, .refl u⟩

lemma Keeps.trans {u'' : GateTable} (h : u.Keeps u') (h' : u'.Keeps u'') : u.Keeps u'' :=
  ⟨fun hcounted => h'.counted (h.counted hcounted), h.narrows.trans h'.narrows⟩

lemma enter_keeps (u : GateTable) (i : Nat) : u.Keeps (u.enter i) := by
  cases hclosed : (u.gate i).closed with
  | true =>
    have hrefused : u.enter i = u := by simp [enter, tryEnter, hclosed]
    rw [hrefused]
    exact .refl u
  | false =>
    have hgranted : u.enter i = { u.setGate i { u.gate i with inflight := (u.gate i).inflight + 1 } with
          guards := u.guards ++ [⟨some i, true⟩] } := by
      simp [enter, tryEnter, hclosed]
    rw [hgranted]
    have hlive : ∀ j, countP (holds j) (u.guards ++ [⟨some i, true⟩]) =
        u.live j + if i = j then 1 else 0 := by
      intro j
      simp [live, holds_some]
    constructor
    · intro hcounted j
      show (update u.gate i _ j).inflight = countP (holds j) (u.guards ++ [⟨some i, true⟩])
      rw [hlive]
      by_cases hj : i = j
      · subst hj
        simp [hcounted i]
      · simp [hj, Ne.symm hj, hcounted j]
    · intro j hj
      have hne : i ≠ j := by
        rintro rfl
        simp [hclosed] at hj
      refine ⟨by simpa [setGate, Ne.symm hne] using hj, ?_⟩
      show countP (holds j) (u.guards ++ [⟨some i, true⟩]) ≤ u.live j
      rw [hlive]
      simp [hne]

lemma close_keeps (u : GateTable) (i : Nat) : u.Keeps (u.close i) := by
  constructor
  · intro hcounted j
    show (update u.gate i _ j).inflight = u.live j
    by_cases hj : j = i
    · subst hj
      simpa [GraphUsageGate.close] using hcounted j
    · simpa [hj] using hcounted j
  · intro j hclosed
    refine ⟨?_, Nat.le_refl _⟩
    show (update u.gate i _ j).closed = true
    by_cases hj : j = i
    · subst hj
      simp [GraphUsageGate.close]
    · simpa [hj] using hclosed

variable {k : Nat}

/-- One guard object is replaced. -/
theorem countP_set_add {guards : List UsageGuard} {g : UsageGuard}
    (hg : guards[k]? = some g) (g' : UsageGuard) (i : Nat) :
    (guards.set k g').countP (holds i) + (if g.holds i then 1 else 0) =
      guards.countP (holds i) + if g'.holds i then 1 else 0 := by
  obtain ⟨hk, rfl⟩ := List.getElem?_eq_some_iff.mp hg
  rw [countP_set hk]
  -- A guard that holds a place is counted, so the subtraction does not truncate.
  have hpos : guards[k].holds i = true → 0 < guards.countP (holds i) :=
    fun h => countP_pos_iff.mpr ⟨guards[k], getElem_mem hk, h⟩
  split <;> split <;> simp_all

/-- A release gives the place back if the guard holds one. -/
theorem release_cases (h : u.release k = some u') : (∃ i, u.guards[k]? = some ⟨some i, true⟩ ∧
      u' = { u.setGate i (u.gate i).leave with guards := u.guards.set k .empty }) ∨
    ∃ g valid, u.guards[k]? = some g ∧ (∀ i, g.holds i = false) ∧
      u' = { u with guards := u.guards.set k ⟨none, valid⟩ } := by
  cases hg : u.guards[k]? with
  | none => simp [release, hg] at h
  | some g =>
    rcases g with ⟨_ | i, _ | _⟩
    · rw [release, hg] at h
      exact .inr ⟨_, false, rfl, (holds_none · false), (some.inj h).symm⟩
    · rw [release, hg] at h
      exact .inr ⟨_, true, rfl, (holds_none · true), (some.inj h).symm⟩
    · rw [release, hg] at h
      exact .inr ⟨_, false, rfl, fun _ => rfl, (some.inj h).symm⟩
    · rw [release, hg] at h
      exact .inl ⟨i, rfl, (some.inj h).symm⟩

/-- A released guard holds no place. -/
theorem guards_release (h : u.release k = some u') : ∃ g, u'.guards[k]? = some g ∧ ∀ i, g.holds i = false := by
  have hset : ∀ {g g' : UsageGuard}, u.guards[k]? = some g → (u.guards.set k g')[k]? = some g' := by
    intro g g' hg
    exact List.getElem?_set_self (List.getElem?_eq_some_iff.mp hg).1
  rcases release_cases h with ⟨i, hg, rfl⟩ | ⟨g, valid, hg, -, rfl⟩
  · exact ⟨.empty, hset hg, holds_empty⟩
  · exact ⟨⟨none, valid⟩, hset hg, (holds_none · valid)⟩

/-- An operation that only moves guard objects about. -/
theorem keeps_of_live_eq (hgate : u'.gate = u.gate) (hlive : ∀ i, u'.live i = u.live i) : u.Keeps u' := by
  constructor
  · intro hcounted i
    rw [hgate, hlive]
    exact hcounted i
  · intro i hclosed
    rw [hgate, hlive]
    exact ⟨hclosed, Nat.le_refl _⟩

lemma release_keeps (h : u.release k = some u') : u.Keeps u' := by
  rcases release_cases h with ⟨i, hg, rfl⟩ | ⟨g, valid, hg, hfree, rfl⟩
  · have hlive : ∀ j, (u.guards.set k .empty).countP (holds j) +
        (if i = j then 1 else 0) = u.live j := by
      intro j
      simpa [holds_some, live] using countP_set_add hg .empty j
    constructor
    · intro hcounted j
      show (update u.gate i _ j).inflight = (u.guards.set k .empty).countP (holds j)
      have hj := hlive j
      by_cases hij : j = i
      · subst hij
        rw [update_self, inflight_leave, hcounted j]
        simp at hj
        omega
      · rw [update_of_ne hij, hcounted j]
        simpa [Ne.symm hij] using hj.symm
    · intro j hclosed
      constructor
      · show (update u.gate i _ j).closed = true
        by_cases hij : j = i
        · subst hij
          rw [update_self, closed_leave]
          exact hclosed
        · rwa [update_of_ne hij]
      · show (u.guards.set k .empty).countP (holds j) ≤ u.live j
        have hj := hlive j
        omega
  · apply keeps_of_live_eq
    · rfl
    · intro j
      simpa [hfree, holds_none, live] using countP_set_add hg ⟨none, valid⟩ j

lemma moveConstruct_keeps (h : u.moveConstruct k = some u') : u.Keeps u' := by
  unfold moveConstruct at h
  split at h <;> cases h
  rename_i g hg
  apply keeps_of_live_eq
  · rfl
  · intro i
    have hset := countP_set_add hg .empty i
    simp only [live, countP_append, countP_singleton]
    simpa using hset

lemma moveAssign_keeps {target source : Nat} (h : u.moveAssign target source = some u') : u.Keeps u' := by
  unfold moveAssign at h
  split at h
  · obtain rfl := some.inj h
    exact .refl u
  · rename_i hne
    split at h
    · exact nomatch h
    · rename_i v hrelease
      split at h <;> cases h
      rename_i g hg
      apply (release_keeps hrelease).trans
      apply keeps_of_live_eq
      · rfl
      · intro i
        obtain ⟨g', hg', hfree⟩ := guards_release hrelease
        have htarget := countP_set_add hg' g i
        have hmoved : (v.guards.set target g)[source]? = some g := by
          rw [getElem?_set_ne hne]
          exact hg
        have hsource := countP_set_add hmoved .empty i
        simp only [hfree, holds_empty, Bool.false_eq_true, if_false] at htarget hsource
        show ((v.guards.set target g).set source .empty).countP (holds i) = v.live i
        unfold live
        omega

/-- A gate that is closed and has no user. -/
def Quiet (u : GateTable) (i : Nat) : Prop := (u.gate i).closed = true ∧ (u.gate i).inflight = 0

lemma Keeps.closed (h : u.Keeps u') {i : Nat} (hclosed : (u.gate i).closed = true) : (u'.gate i).closed = true :=
  (h.narrows i hclosed).1

/-- A quiet gate stays quiet. -/
theorem Keeps.quiet (h : u.Keeps u') (hcounted : u.Counted) {i : Nat} (hquiet : u.Quiet i) : u'.Quiet i := by
  obtain ⟨hclosed, hlive⟩ := h.narrows i hquiet.1
  refine ⟨hclosed, ?_⟩
  have hbefore : u.live i = 0 := (hcounted i).symm.trans hquiet.2
  have hafter := h.counted hcounted i
  omega

lemma closed_close (u : GateTable) (i : Nat) : ((u.close i).gate i).closed = true := by
  simp [close, setGate, GraphUsageGate.close]

end GateTable

end Eugraph
