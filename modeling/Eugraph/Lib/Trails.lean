import Mathlib.Data.List.Nodup
import Mathlib.Data.List.Induction
import Mathlib.Tactic.Common

/-!
# Walks, trails and their enumeration by depth-first search

A graph gives the steps out of each vertex, and each step leads to a vertex.  `explore`
lists the walks a search meets that takes the admissible steps and continues behind those
it may leave by; `Met` says which walks these are.  For searches that use no key twice,
`Met` is a statement about trails.
-/

namespace Eugraph.Lib.Trails

open List

variable {V H K : Type*}

/-- Consecutive steps, from a vertex. -/
inductive IsWalk (out : V → H → Prop) (target : H → V) : V → List H → Prop
  | nil (v : V) : IsWalk out target v []
  | cons {v : V} {h : H} {walk : List H} : out v h → IsWalk out target (target h) walk →
      IsWalk out target v (h :: walk)

variable {walk : List H}

lemma IsWalk.mono {out out' : V → H → Prop} {target : H → V} {v : V}
    (h : IsWalk out target v walk) (himp : ∀ v, ∀ step ∈ walk, out v step → out' v step) :
    IsWalk out' target v walk := by
  induction h with
  | nil v => exact .nil v
  | cons hstep _ ih =>
    exact .cons (himp _ _ mem_cons_self hstep)
      (ih fun v step hmem => himp v step (mem_cons_of_mem _ hmem))

/-- What holds of every step that may be taken holds of every step of a walk. -/
theorem IsWalk.forall_steps {out : V → H → Prop} {target : H → V} {P : H → Prop} {v : V}
    (h : IsWalk out target v walk) (hP : ∀ v step, out v step → P step) :
    ∀ step ∈ walk, P step := by
  induction h with
  | nil v => exact fun _ hmem => absurd hmem not_mem_nil
  | cons hstep _ ih =>
    intro step hmem
    rcases mem_cons.mp hmem with rfl | hmem
    · exact hP _ _ hstep
    · exact ih step hmem

/-- The vertex a walk ends in. -/
def lastVertex (target : H → V) : V → List H → V
  | v, [] => v
  | _, h :: walk => lastVertex target (target h) walk

lemma lastVertex_append (target : H → V) (v : V) (walk : List H) (h : H) :
    lastVertex target v (walk ++ [h]) = target h := by
  induction walk generalizing v with
  | nil => rfl
  | cons g walk ih => exact ih (target g)

/-! ### The search -/

section Search

variable (adj : V → List H) (target : H → V) (admissible deeper : List H → H → Bool)

/-- The walks met behind `path`, which ends in `v`, by at most the given number of further
steps; each before its continuations. -/
def explore : Nat → List H → V → List (List H)
  | 0, _, _ => []
  | n + 1, path, v => (adj v).flatMap fun h =>
    if admissible path h then
      (path ++ [h]) :: if deeper path h then explore n (path ++ [h]) (target h) else []
    else []

/-- What a pending step contributes. -/
def branch (n : Nat) (path : List H) (h : H) : List (List H) :=
  if admissible path h then
    (path ++ [h]) ::
      if deeper path h then explore adj target admissible deeper n (path ++ [h]) (target h) else []
  else []

lemma explore_succ (n : Nat) (path : List H) (v : V) : explore adj target admissible deeper (n + 1) path v =
      (adj v).flatMap (branch adj target admissible deeper n path) := rfl

/-- The walks from `v` the search meets behind `path`. -/
inductive Met : List H → V → List H → Prop
  | last {path : List H} {v : V} {h : H} : h ∈ adj v → admissible path h = true → Met path v [h]
  | more {path : List H} {v : V} {h : H} {walk : List H} : h ∈ adj v →
      admissible path h = true → deeper path h = true → Met (path ++ [h]) (target h) walk →
      Met path v (h :: walk)

variable {adj target admissible deeper} {path : List H}

lemma Met.ne_nil {v : V}
    (h : Met adj target admissible deeper path v walk) : walk ≠ [] := by
  cases h <;> simp

lemma mem_explore_iff {n : Nat} {v : V} {w : List H} :
    w ∈ explore adj target admissible deeper n path v ↔
      ∃ walk, w = path ++ walk ∧ walk.length ≤ n ∧ Met adj target admissible deeper path v walk := by
  induction n generalizing path v w with
  | zero =>
    simp only [explore, not_mem_nil, Nat.le_zero_eq, false_iff, not_exists, not_and]
    intro walk _ hlength hmet
    exact hmet.ne_nil (eq_nil_of_length_eq_zero hlength)
  | succ n ih =>
    rw [explore_succ, mem_flatMap]
    constructor
    · intro h
      obtain ⟨step, hstep, hmem⟩ := h
      unfold branch at hmem
      split at hmem
      next hadm =>
        rcases mem_cons.mp hmem with rfl | hmem
        · exact ⟨[step], rfl, by simp, .last hstep hadm⟩
        · split at hmem
          next hdeep =>
            obtain ⟨walk, rfl, hlength, hmet⟩ := ih.mp hmem
            exact ⟨step :: walk, by simp, by simpa using hlength, .more hstep hadm hdeep hmet⟩
          next => cases hmem
      next => cases hmem
    · intro h
      obtain ⟨walk, rfl, hlength, hmet⟩ := h
      cases hmet with
      | last hstep hadm => exact ⟨_, hstep, by simp [branch, hadm]⟩
      | @more _ _ step rest hstep hadm hdeep hrest =>
        refine ⟨step, hstep, ?_⟩
        unfold branch
        rw [if_pos hadm, if_pos hdeep]
        apply mem_cons_of_mem
        rw [ih]
        exact ⟨rest, by simp, by simpa using hlength, hrest⟩

/-- Every walk met behind `path` extends it. -/
theorem prefix_of_mem_branch {n : Nat} {h : H} {w : List H}
    (hmem : w ∈ branch adj target admissible deeper n path h) : path ++ [h] <+: w := by
  unfold branch at hmem
  split at hmem
  next =>
    rcases mem_cons.mp hmem with rfl | hmem
    · exact prefix_rfl
    · split at hmem
      next =>
        obtain ⟨walk, rfl, -⟩ := mem_explore_iff.mp hmem
        exact prefix_append _ _
      next => cases hmem
  next => cases hmem

/-- No walk is met twice if no vertex lists a step twice. -/
theorem nodup_explore (hadj : ∀ v, (adj v).Nodup) (n : Nat) (path : List H) (v : V) :
    (explore adj target admissible deeper n path v).Nodup := by
  induction n generalizing path v with
  | zero => exact nodup_nil
  | succ n ih =>
    rw [explore_succ, nodup_flatMap]
    constructor
    · intro h _
      unfold branch
      split
      next =>
        rw [nodup_cons]
        constructor
        · intro hmem
          split at hmem
          next =>
            obtain ⟨walk, heq, -, hmet⟩ := mem_explore_iff.mp hmem
            exact hmet.ne_nil (self_eq_append_right.mp heq)
          next => cases hmem
        · split
          · exact ih _ _
          · exact nodup_nil
      next => exact nodup_nil
    · refine (hadj v).imp fun {a b} hne => ?_
      intro w ha hb
      have hpa := prefix_of_mem_branch ha
      have hpb := prefix_of_mem_branch hb
      have hsame : path ++ [a] = path ++ [b] :=
        (prefix_of_prefix_length_le hpa hpb (by simp)).eq_of_length (by simp)
      exact hne (singleton_inj.mp (append_cancel_left hsame))

/-- The walks met are those all of whose steps are admissible behind the steps before, and
all but the last may be left by. -/
theorem met_iff {v : V} : Met adj target admissible deeper path v walk ↔
      walk ≠ [] ∧ IsWalk (fun v h => h ∈ adj v) target v walk ∧
        (∀ before h after, walk = before ++ h :: after → admissible (path ++ before) h = true) ∧
        (∀ before h after, walk = before ++ h :: after → after ≠ [] → deeper (path ++ before) h = true) := by
  constructor
  · intro hmet
    refine ⟨hmet.ne_nil, ?_⟩
    induction hmet with
    | @last path v h hstep hadm =>
      refine ⟨.cons hstep (.nil _), ?_, ?_⟩
      · intro before g after heq
        cases before with
        | nil =>
          obtain ⟨rfl, -⟩ := cons.inj heq
          simpa using hadm
        | cons b before => simp at heq
      · intro before g after heq hafter
        cases before with
        | nil => exact absurd (cons.inj heq).2.symm hafter
        | cons b before => simp at heq
    | @more path v h walk hstep hadm hdeep _ ih =>
      obtain ⟨hwalk, hadmissible, hdeeper⟩ := ih
      refine ⟨.cons hstep hwalk, ?_, ?_⟩
      · intro before g after heq
        cases before with
        | nil =>
          obtain ⟨rfl, -⟩ := cons.inj heq
          simpa using hadm
        | cons b before =>
          obtain ⟨rfl, hrest⟩ := cons.inj heq
          simpa using hadmissible before g after hrest
      · intro before g after heq hafter
        cases before with
        | nil =>
          obtain ⟨rfl, -⟩ := cons.inj heq
          simpa using hdeep
        | cons b before =>
          obtain ⟨rfl, hrest⟩ := cons.inj heq
          simpa using hdeeper before g after hrest hafter
  · intro h
    obtain ⟨hne, hwalk, hadmissible, hdeeper⟩ := h
    induction hwalk generalizing path with
    | nil v => exact absurd rfl hne
    | @cons v h walk hstep _ ih =>
      have hadm : admissible path h = true := by simpa using hadmissible [] h walk rfl
      cases walk with
      | nil => exact .last hstep hadm
      | cons g rest =>
        have hdeep : deeper path h = true := by
          simpa using hdeeper [] h (g :: rest) rfl (by simp)
        refine .more hstep hadm hdeep (ih (by simp) ?_ ?_)
        · intro before b after heq
          rw [append_assoc]
          exact hadmissible (h :: before) b after (by rw [heq]; rfl)
        · intro before b after heq hafter
          rw [append_assoc]
          exact hdeeper (h :: before) b after (by rw [heq]; rfl) hafter

end Search

/-! ### Searches that use no key twice -/

section Keys

/-- A place before the last step of a walk. -/
theorem split_of_concat_eq {before after : List H} {g b c : H}
    (heq : walk ++ [g] = before ++ b :: (after ++ [c])) : walk = before ++ b :: after := by
  have hconcat : walk ++ [g] = (before ++ b :: after) ++ [c] := by simpa using heq
  exact (append_inj' hconcat rfl).1

/-- A list is free of repetitions if no element appears before itself. -/
theorem nodup_map_iff_forall_split (key : H → K) (walk : List H) : (walk.map key).Nodup ↔
      ∀ before h after, walk = before ++ h :: after → key h ∉ before.map key := by
  induction walk using reverseRecOn with
  | nil => simp
  | append_singleton walk g ih =>
    rw [map_append, map_singleton, nodup_append]
    constructor
    · intro h before b after heq
      obtain ⟨hwalk, -, hlast⟩ := h
      rcases eq_nil_or_concat after with rfl | ⟨after', c, rfl⟩
      · obtain ⟨rfl, hb⟩ := append_inj' heq rfl
        obtain rfl := singleton_inj.mp hb
        intro hmem
        exact hlast _ hmem _ (mem_singleton_self _) rfl
      · rw [concat_eq_append] at heq
        exact ih.mp hwalk before b after' (split_of_concat_eq heq)
    · intro h
      refine ⟨ih.mpr ?_, nodup_singleton _, ?_⟩
      · intro before b after heq
        exact h before b (after ++ [g]) (by simp [heq])
      · intro a ha b hb heq
        rw [mem_singleton] at hb
        subst hb
        exact h walk g [] rfl (heq ▸ ha)

/-- The vertices a search must not enter again, along a walk: the start and the vertices of
all steps but the last are different. -/
theorem nodup_vertices_iff (target : H → V) (start : V) (walk : List H) :
    (start :: (walk.dropLast).map target).Nodup ↔ ∀ before h after, walk = before ++ h :: after → after ≠ [] →
        target h ∉ start :: before.map target := by
  rcases eq_nil_or_concat walk with rfl | ⟨walk, g, rfl⟩
  · simp
  rw [concat_eq_append, dropLast_concat, nodup_cons, nodup_map_iff_forall_split]
  constructor
  · intro h before b after heq hafter
    obtain ⟨after', c, rfl⟩ := (eq_nil_or_concat after).resolve_left hafter
    rw [concat_eq_append] at heq
    have hsplit := split_of_concat_eq heq
    have hne : target b ≠ start := by
      intro heq'
      exact h.1 (mem_map.mpr ⟨b, by simp [hsplit], heq'⟩)
    simpa [hne] using h.2 before b after' hsplit
  · intro h
    have hsplits : ∀ before b after, walk = before ++ b :: after →
        target b ∉ start :: before.map target := fun before b after heq =>
      h before b (after ++ [g]) (by simp [heq]) (by simp)
    constructor
    · intro hmem
      obtain ⟨b, hb, heq⟩ := mem_map.mp hmem
      obtain ⟨before, after, hsplit⟩ := append_of_mem hb
      exact hsplits before b after hsplit (by simp [heq])
    · intro before b after heq
      exact fun hmem => hsplits before b after heq (mem_cons_of_mem _ hmem)

/-- A walk is within a bound if every step but the last leaves room for another. -/
theorem length_le_iff (hne : walk ≠ []) (bound : Nat) : walk.length ≤ bound + 1 ↔
      ∀ before h after, walk = before ++ h :: after → after ≠ [] → before.length + 1 < bound + 1 := by
  constructor
  · intro hlength before h after heq hafter
    have hpos := length_pos_iff.mpr hafter
    rw [heq] at hlength
    simp only [length_append, length_cons] at hlength
    omega
  · intro h
    obtain ⟨walk, g, rfl⟩ := (eq_nil_or_concat walk).resolve_left hne
    rcases eq_nil_or_concat walk with rfl | ⟨walk, f, rfl⟩
    · simp
    · have hlast := h walk f [g] (by simp) (by simp)
      simp only [concat_eq_append, length_append, length_singleton]
      omega

end Keys

end Eugraph.Lib.Trails
