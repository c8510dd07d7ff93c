import Eugraph.Lib.BreadthFirst
import Eugraph.Query.ExpandAdjacency
import Eugraph.Query.ShortestPath

/-!
# The search from both sides finds a shortest path

Both searches know the distances up to their depth, with a parent for each vertex; the best
connection so far is the best over all vertices both have met.  When the loop is left no
connection within the bounds is shorter.  The edge cache answers like the store as long as no
two vertices share a key.
-/

namespace Eugraph.Dataset

open Lib DataStore List Option Function DirectedEdgeEntry Traversal Dataset.Graph
open Lib.Trails (IsWalk lastVertex)
open Lib.BreadthFirst
open VarLenExpandPhysicalOp (sideSteps scan_traversals)

namespace ShortestPath

/-! ### Steps and links -/

/-- The link of a step out of `v`. -/
def linkOf (v : VertexId) (t : Traversal) : EdgeLink where
  from_vertex := v
  to_vertex := t.vertex
  src := t.edge.src
  dst := t.edge.dst
  edge_id := t.edge.id
  edge_label_id := t.edge.label_id
  seq := t.edge.seq

/-- The links of a walk from `v`. -/
def linksOf : VertexId → List Traversal → List EdgeLink
  | _, [] => []
  | v, t :: walk => linkOf v t :: linksOf t.vertex walk

/-- The path along a walk. -/
def pathOf (start : VertexId) (walk : List Traversal) : List Value := buildPath start (linksOf start walk)

end ShortestPath

open ShortestPath

namespace ShortestPathPhysicalOp

variable (op : ShortestPathPhysicalOp) (store : GraphReads) (g : Graph)

def labelPasses (label_id : EdgeLabelId) : Bool := op.label_filters.all (·.contains label_id)

/-- The steps of a path: in the direction of the pattern, with one of the labels. -/
def follows (v : VertexId) (t : Traversal) : Prop :=
  g.Follows op.forward_dir v t ∧ op.labelPasses t.edge.label_id = true

/-- The steps a scan of `v` lists. -/
def stepsAt (scan_dir : Direction) (v : VertexId) : List Traversal :=
  (passes scan_dir).flatMap fun dir => op.scan_filters.flatMap fun label_filter =>
    (store.scanEdges v dir label_filter).map fun e =>
      (ofEntry (dir = .OUT) e).traversal v

/-- The adjacency list of a vertex. -/
def neighbors (scan_dir : Direction) (v : VertexId) : NeighborList :=
  (op.stepsAt store scan_dir v).map fun t => ⟨t.vertex, linkOf v t⟩

variable {op store g}

/-! ### Adjacency lists are the edges of the graph -/

section Adjacency

lemma exists_filter_iff (label_id : EdgeLabelId) :
    (∃ f ∈ op.scan_filters, passesFilter f label_id = true) ↔ op.labelPasses label_id = true := by
  unfold scan_filters labelPasses passesFilter
  cases op.label_filters with
  | none => simp
  | some labels => simp

lemma mem_stepsAt_of (h : store.Holds g) {scan_dir : Direction} {v : VertexId} {t : Traversal} :
    t ∈ op.stepsAt store scan_dir v ↔ ∃ dir ∈ passes scan_dir, ∃ f ∈ op.scan_filters, t ∈ sideSteps g v dir f := by
  have hpass : ∀ dir ∈ passes scan_dir, dir ≠ .BOTH := by
    cases scan_dir <;> decide
  unfold stepsAt
  simp only [mem_flatMap]
  constructor
  · rintro ⟨dir, hdir, f, hf, hmem⟩
    refine ⟨dir, hdir, f, hf, ?_⟩
    have hscan := (scan_traversals h v (hpass dir hdir) f).mem_iff (a := t)
    rw [List.map_map] at hscan
    exact hscan.mp hmem
  · rintro ⟨dir, hdir, f, hf, hmem⟩
    refine ⟨dir, hdir, f, hf, ?_⟩
    have hscan := (scan_traversals h v (hpass dir hdir) f).mem_iff (a := t)
    rw [List.map_map] at hscan
    exact hscan.mpr hmem

lemma mem_stepsAt (h : store.Holds g) (scan_dir : Direction) (v : VertexId) (t : Traversal) :
    t ∈ op.stepsAt store scan_dir v ↔ g.Follows scan_dir v t ∧ op.labelPasses t.edge.label_id = true := by
  rw [mem_stepsAt_of h, ← exists_filter_iff]
  unfold Follows
  cases scan_dir with
  | OUT =>
    simp only [passes, reduceCtorEq, if_false, mem_singleton, exists_eq_left, mem_sideSteps]
    simp
    tauto
  | IN =>
    simp only [passes, reduceCtorEq, if_false, mem_singleton, exists_eq_left, mem_sideSteps]
    simp
    tauto
  | BOTH =>
    simp only [passes, if_true, mem_cons, not_mem_nil, or_false, exists_eq_or_imp, exists_eq_left, mem_sideSteps]
    constructor
    · rintro (⟨f, hf, hedge, hpasses, hsrc, hvertex⟩ | ⟨f, hf, hedge, hpasses, hdst, hvertex⟩)
      · exact ⟨⟨hedge, .inl ⟨by decide, hsrc, hvertex⟩⟩, f, hf, hpasses⟩
      · exact ⟨⟨hedge, .inr ⟨by decide, hdst, hvertex⟩⟩, f, hf, hpasses⟩
    · rintro ⟨⟨hedge, ⟨-, hsrc, hvertex⟩ | ⟨-, hdst, hvertex⟩⟩, f, hf, hpasses⟩
      · exact .inl ⟨f, hf, hedge, hpasses, hsrc, hvertex⟩
      · exact .inr ⟨f, hf, hedge, hpasses, hdst, hvertex⟩

/-- No step to another vertex is listed twice. -/
theorem nodup_stepsAt (h : store.Holds g) (hlabels : ∀ labels ∈ op.label_filters, labels.Nodup)
    (scan_dir : Direction) (v : VertexId) :
    ((op.stepsAt store scan_dir v).filter (·.vertex ≠ v)).Nodup := by
  -- one pass lists the steps of one side
  have hpass (dir : Direction) (hdir : dir ≠ .BOTH) :
      (op.scan_filters.flatMap fun label_filter => (store.scanEdges v dir label_filter).map fun e =>
        (ofEntry (dir = .OUT) e).traversal v).Perm
          (op.scan_filters.flatMap (sideSteps g v dir)) := by
    apply List.Perm.flatMap_left
    intro f _
    have hscan := scan_traversals h v hdir f
    rw [List.map_map] at hscan
    exact hscan
  have hside (dir : Direction) (hdir : dir ≠ .BOTH) :
      (op.scan_filters.flatMap fun label_filter => (store.scanEdges v dir label_filter).map fun e =>
        (ofEntry (dir = .OUT) e).traversal v).Nodup :=
    (hpass dir hdir).nodup_iff.mpr (VarLenExpandPhysicalOp.nodup_sides_of hlabels v dir)
  unfold stepsAt
  cases scan_dir with
  | OUT =>
    apply List.Nodup.filter
    simpa [passes] using hside .OUT (by decide)
  | IN =>
    apply List.Nodup.filter
    simpa [passes] using hside .IN (by decide)
  | BOTH =>
    simp only [passes, if_true, flatMap_cons, flatMap_nil, append_nil, filter_append, nodup_append]
    refine ⟨(hside .OUT (by decide)).filter _, (hside .IN (by decide)).filter _, ?_⟩
    intro t hout t' hin heq
    subst heq
    obtain ⟨hout, hloop⟩ := mem_filter.mp hout
    obtain ⟨hin, -⟩ := mem_filter.mp hin
    obtain ⟨f, -, hout⟩ := mem_flatMap.mp ((hpass .OUT (by decide)).mem_iff.mp hout)
    obtain ⟨f', -, hin⟩ := mem_flatMap.mp ((hpass .IN (by decide)).mem_iff.mp hin)
    -- listed on both sides, it is a loop
    obtain ⟨-, -, -, hvertex⟩ := mem_sideSteps.mp hout
    obtain ⟨-, -, hdst, -⟩ := mem_sideSteps.mp hin
    simp only [if_true, reduceCtorEq, if_false] at hvertex hdst
    exact absurd (hvertex.trans hdst) (by simpa using hloop)

end Adjacency

/-! ### The edge cache answers like the store -/

section Caches

variable {v : VertexId}

/-- What is cached for one of the vertices is what the store would be asked for. -/
structure CachesOk (op : ShortestPathPhysicalOp) (store : GraphReads) (ids : List VertexId)
    (caches : SearchCaches) : Prop where
  edges : ∀ v ∈ ids, ∀ dir list, caches.edge_cache (cacheKey v dir) = some list →
    list = op.neighbors store dir v
  labels : ∀ v ok, caches.dst_label_cache v = some ok →
    ok = op.dst_label_ids.all (store.getVertexLabels v).contains

lemma cachesOk_empty (ids : List VertexId) : op.CachesOk store ids .empty :=
  ⟨fun _ _ _ _ h => (nomatch h), fun _ _ h => (nomatch h)⟩

lemma hasDstLabels_spec {ids : List VertexId} {caches : SearchCaches}
    (h : op.CachesOk store ids caches) (v : VertexId) :
    (op.hasDstLabels store caches v).1 = op.dst_label_ids.all (store.getVertexLabels v).contains ∧
      op.CachesOk store ids (op.hasDstLabels store caches v).2 := by
  unfold hasDstLabels
  split
  next hnone => exact ⟨by simp [hnone], h⟩
  next =>
    split
    next ok hcached => exact ⟨h.labels v ok hcached, h⟩
    next =>
      refine ⟨rfl, h.edges, fun u ok hu => ?_⟩
      by_cases huv : u = v
      · subst huv
        simpa using hu.symm
      · exact h.labels u ok (by simpa [huv] using hu)

variable {ids : List VertexId} {caches : SearchCaches}

end Caches

/-! ### One level -/

section Level

/-- The distances a search has recorded. -/
def distances (visit : VertexId → Option Visit) (v : VertexId) : Option Nat := (visit v).map Visit.dist

/-- An edge that is followed in a level: the vertex it leaves, the one it leads to, and what is
recorded of it. -/
structure LevelEdge where
  source : VertexId
  id : VertexId
  link : EdgeLink

/-- The edges followed so far in a level, from the state `visit₀`. -/
structure Followed (visit₀ : VertexId → Option Visit) (next_depth : Nat) (edges : List LevelEdge)
    (st : LevelState) : Prop where
  old : ∀ w x, visit₀ w = some x → st.visit w = some x
  new : ∀ w x, visit₀ w = none → st.visit w = some x →
    x.dist = next_depth ∧ ∃ e ∈ edges, e.id = w ∧ e.id ≠ e.source ∧ x.parent = some e.link
  met : ∀ e ∈ edges, e.id ≠ e.source → (st.visit e.id).isSome
  next : ∀ w, w ∈ st.next ↔ visit₀ w = none ∧ (st.visit w).isSome

/-- The best connection over the vertices met from both sides. -/
structure Connects (op : ShortestPathPhysicalOp) (visit other : VertexId → Option Visit)
    (best : Option Nat) (meet : VertexId) : Prop where
  found : ∀ n, best = some n → ∃ x y, visit meet = some x ∧ other meet = some y ∧
    n = x.dist + y.dist ∧ op.outOfBounds n = false

/-- No connection is better. -/
def Least (op : ShortestPathPhysicalOp) (visit other : VertexId → Option Visit) (best : Option Nat) :
    Prop :=
  ∀ v x y, visit v = some x → other v = some y → op.outOfBounds (x.dist + y.dist) = false →
    best.any (· ≤ x.dist + y.dist) = true

lemma Connects.swap {visit other : VertexId → Option Visit} {best : Option Nat} {meet : VertexId}
    (h : op.Connects visit other best meet) : op.Connects other visit best meet := by
  refine ⟨fun n hn => ?_⟩
  obtain ⟨x, y, hx, hy, heq, hbounds⟩ := h.found n hn
  exact ⟨y, x, hy, hx, by omega, hbounds⟩

lemma Least.swap {visit other : VertexId → Option Visit} {best : Option Nat}
    (h : op.Least visit other best) : op.Least other visit best := by
  intro v x y hx hy hbounds
  rw [Nat.add_comm] at hbounds ⊢
  exact h v y x hy hx hbounds

variable {visit₀ other : VertexId → Option Visit} {next_depth : Nat} {edges : List LevelEdge}
  {st : LevelState}

/-- What a connection changes. -/
theorem connect_spec (candidate : Nat) (id : VertexId) (st : LevelState) :
    (op.connect candidate id st).visit = st.visit ∧ (op.connect candidate id st).next = st.next ∧
      (op.outOfBounds candidate = false → (op.connect candidate id st).best.any (· ≤ candidate) = true) ∧
      (∀ n, st.best.any (· ≤ n) = true → (op.connect candidate id st).best.any (· ≤ n) = true) ∧
      ((op.connect candidate id st).best = st.best ∧ (op.connect candidate id st).meet = st.meet ∨
        op.outOfBounds candidate = false ∧ (op.connect candidate id st).best = some candidate ∧
          (op.connect candidate id st).meet = id) := by
  unfold connect
  split
  next hout => exact ⟨rfl, rfl, fun h => absurd hout (by simp [h]), fun _ h => h, .inl ⟨rfl, rfl⟩⟩
  next hin =>
    have hbounds : op.outOfBounds candidate = false := by simpa using hin
    split
    next hbetter =>
      refine ⟨rfl, rfl, fun _ => by simp, fun n hn => ?_, .inr ⟨hbounds, rfl, rfl⟩⟩
      cases hbest : st.best with
      | none => simp [hbest] at hn
      | some m =>
        simp only [hbest, all_some, any_some, decide_eq_true_eq] at hbetter hn ⊢
        omega
    next hworse =>
      refine ⟨rfl, rfl, fun _ => ?_, fun _ h => h, .inl ⟨rfl, rfl⟩⟩
      cases hbest : st.best with
      | none => simp [hbest] at hworse
      | some m =>
        simp only [hbest, all_some, any_some, decide_eq_true_eq] at hworse ⊢
        omega

lemma insertVertex_visit (id : VertexId) (node : Visit) (st : LevelState) (w : VertexId) :
    (insertVertex id ((st.visit id).getD node) st).visit w =
      if w = id then some ((st.visit id).getD node) else st.visit w := by
  unfold insertVertex
  cases hvisit : st.visit id with
  | none =>
    by_cases hw : w = id
    · simp [hw]
    · simp [hw]
  | some x =>
    by_cases hw : w = id
    · simp [hw, hvisit]
    · simp [hw]

lemma mem_insertVertex_next (id : VertexId) (node : Visit) (st : LevelState) (w : VertexId) :
    w ∈ (insertVertex id node st).next ↔ w ∈ st.next ∨ w = id ∧ st.visit id = none := by
  unfold insertVertex
  split
  next hsome =>
    have hnot : st.visit id ≠ none := by
      intro hnone
      simp [hnone] at hsome
    simp [hnot]
  next hnone =>
    have hnone : st.visit id = none := by simpa using hnone
    simp [hnone]

/-- The vertices of the level once an edge to another vertex was followed. -/
theorem relax_visit (next_depth : Nat) (other : VertexId → Option Visit) (e : LevelEdge)
    (hne : e.id ≠ e.source) (st : LevelState) :
    let st' := op.relax e.link next_depth other e.source st e.id
    (∀ w, st'.visit w =
      if w = e.id then some ((st.visit e.id).getD ⟨next_depth, some e.link⟩) else st.visit w) ∧
      ∀ w, w ∈ st'.next ↔ w ∈ st.next ∨ w = e.id ∧ st.visit e.id = none := by
  unfold relax
  simp only [if_neg hne]
  split
  · exact ⟨fun w => insertVertex_visit e.id _ st w, mem_insertVertex_next e.id _ st⟩
  next opposite _ =>
    obtain ⟨hvisit, hnext, -⟩ := op.connect_spec
      (((st.visit e.id).getD ⟨next_depth, some e.link⟩).dist + opposite.dist) e.id
      (insertVertex e.id ((st.visit e.id).getD ⟨next_depth, some e.link⟩) st)
    rw [hvisit, hnext]
    exact ⟨fun w => insertVertex_visit e.id _ st w, mem_insertVertex_next e.id _ st⟩

variable {e : LevelEdge}

lemma Followed.relax (h : Followed visit₀ next_depth edges st) (hsource : (visit₀ e.source).isSome) :
    Followed visit₀ next_depth (edges ++ [e])
      (op.relax e.link next_depth other e.source st e.id) := by
  by_cases hloop : e.id = e.source
  · have hsame : op.relax e.link next_depth other e.source st e.id = st := by
      unfold ShortestPathPhysicalOp.relax
      rw [if_pos hloop]
    rw [hsame]
    refine ⟨h.old, fun w x hnone hsome => ?_, fun f hf hne => ?_, h.next⟩
    · obtain ⟨hdist, f, hf, hrest⟩ := h.new w x hnone hsome
      exact ⟨hdist, f, mem_append_left _ hf, hrest⟩
    · rcases mem_append.mp hf with hf | hf
      · exact h.met f hf hne
      · obtain rfl := mem_singleton.mp hf
        exact absurd hloop hne
  · obtain ⟨hvisit, hnext⟩ := op.relax_visit next_depth other e hloop st
    refine ⟨fun w x hx => ?_, fun w x hnone hsome => ?_, fun f hf hne => ?_, fun w => ?_⟩
    · rw [hvisit]
      split
      next hw =>
        rw [← hw, h.old w x hx]
        rfl
      next => exact h.old w x hx
    · rw [hvisit] at hsome
      split at hsome
      next hw =>
        cases hold : st.visit e.id with
        | none =>
          rw [hold, getD_none, some.injEq] at hsome
          subst hsome
          exact ⟨rfl, e, by simp, hw.symm, hloop, rfl⟩
        | some y =>
          rw [hold, getD_some, some.injEq] at hsome
          subst hsome
          obtain ⟨hdist, f, hf, hrest⟩ := h.new w y hnone (by rw [hw, hold])
          exact ⟨hdist, f, mem_append_left _ hf, hrest⟩
      next =>
        obtain ⟨hdist, f, hf, hrest⟩ := h.new w x hnone hsome
        exact ⟨hdist, f, mem_append_left _ hf, hrest⟩
    · rw [hvisit]
      split
      next => rfl
      next hother =>
        rcases mem_append.mp hf with hf | hf
        · exact h.met f hf hne
        · obtain rfl := mem_singleton.mp hf
          exact absurd rfl hother
    · rw [hnext, hvisit, h.next]
      by_cases hw : w = e.id
      · subst hw
        cases hold : st.visit e.id with
        | none =>
          have hnone : visit₀ e.id = none := by
            cases hv : visit₀ e.id with
            | none => rfl
            | some x =>
              have hsome := h.old _ _ hv
              rw [hold] at hsome
              cases hsome
          simp [hnone]
        | some y => simp
      · simp [hw]

lemma Connects.relax (h : op.Connects st.visit other st.best st.meet) :
    let st' := op.relax e.link next_depth other e.source st e.id
    op.Connects st'.visit other st'.best st'.meet := by
  by_cases hloop : e.id = e.source
  · unfold ShortestPathPhysicalOp.relax
    simpa only [if_pos hloop] using h
  · have hkeeps (w : VertexId) (x : Visit) (hx : st.visit w = some x) :
        (insertVertex e.id ((st.visit e.id).getD ⟨next_depth, some e.link⟩) st).visit w = some x := by
      rw [insertVertex_visit]
      split
      next hw =>
        rw [← hw, hx]
        rfl
      next => exact hx
    have hinserted : op.Connects (insertVertex e.id ((st.visit e.id).getD ⟨next_depth, some e.link⟩) st).visit other
          st.best st.meet := by
      refine ⟨fun n hn => ?_⟩
      obtain ⟨x, y, hx, hy, hrest⟩ := h.found n hn
      exact ⟨x, y, hkeeps _ _ hx, hy, hrest⟩
    have hsame (node : Visit) : (insertVertex e.id node st).best = st.best ∧
        (insertVertex e.id node st).meet = st.meet := by
      unfold insertVertex
      split <;> exact ⟨rfl, rfl⟩
    obtain ⟨hbest, hmeet⟩ := hsame ((st.visit e.id).getD ⟨next_depth, some e.link⟩)
    unfold ShortestPathPhysicalOp.relax
    simp only [if_neg hloop]
    split
    next => rwa [hbest, hmeet]
    next opposite hopposite =>
      obtain ⟨hvisit, -, -, -, hchange⟩ := op.connect_spec
        (((st.visit e.id).getD ⟨next_depth, some e.link⟩).dist + opposite.dist) e.id
        (insertVertex e.id ((st.visit e.id).getD ⟨next_depth, some e.link⟩) st)
      rw [hvisit]
      obtain ⟨hbest', hmeet'⟩ | ⟨hbounds, hbest', hmeet'⟩ := hchange
      · rwa [hbest', hmeet', hbest, hmeet]
      · rw [hbest', hmeet']
        refine ⟨fun n hn => ?_⟩
        obtain rfl := some.inj hn
        exact ⟨_, opposite, (insertVertex_visit e.id _ st e.id).trans (if_pos rfl), hopposite, rfl, hbounds⟩

lemma Least.relax (h : op.Least st.visit other st.best) :
    let st' := op.relax e.link next_depth other e.source st e.id
    op.Least st'.visit other st'.best := by
  by_cases hloop : e.id = e.source
  · unfold ShortestPathPhysicalOp.relax
    simpa only [if_pos hloop] using h
  · have hbest (node : Visit) : (insertVertex e.id node st).best = st.best := by
      unfold insertVertex
      split <;> rfl
    unfold ShortestPathPhysicalOp.relax
    simp only [if_neg hloop]
    split
    next hnone =>
      intro v x y hx hy hbounds
      rw [insertVertex_visit] at hx
      rw [hbest]
      split at hx
      next hv =>
        rw [hv, hnone] at hy
        cases hy
      next => exact h v x y hx hy hbounds
    next opposite hopposite =>
      obtain ⟨hvisit, -, hcovers, hkeeps, -⟩ := op.connect_spec
        (((st.visit e.id).getD ⟨next_depth, some e.link⟩).dist + opposite.dist) e.id
        (insertVertex e.id ((st.visit e.id).getD ⟨next_depth, some e.link⟩) st)
      intro v x y hx hy hbounds
      rw [hvisit, insertVertex_visit] at hx
      split at hx
      next hv =>
        rw [hv, hopposite] at hy
        cases hx
        cases hy
        exact hcovers hbounds
      next =>
        apply hkeeps
        rw [hbest]
        exact h v x y hx hy hbounds

end Level

/-! ### What a search knows after some levels -/

section Explored

/-- The distances up to the depth, with the last level as the frontier and a recorded edge into
each vertex from one that is nearer to the root. -/
structure Explored (adj : VertexId → VertexId → Prop) (records : VertexId → EdgeLink → VertexId → Prop)
    (root : VertexId) (depth : Nat) (visit : VertexId → Option Visit) (frontier : List VertexId) :
    Prop where
  known : Known adj root depth (distances visit)
  level : ∀ v, v ∈ frontier ↔ distances visit v = some depth
  parent : ∀ v x, visit v = some x → v ≠ root → ∃ u link y, x.parent = some link ∧
    records u link v ∧ visit u = some y ∧ x.dist = y.dist + 1

variable {adj : VertexId → VertexId → Prop} {records : VertexId → EdgeLink → VertexId → Prop}
  {root : VertexId} {depth : Nat} {visit : VertexId → Option Visit} {frontier : List VertexId}

/-- The edges out of the frontier, one by one. -/
structure Leaves (adj : VertexId → VertexId → Prop) (records : VertexId → EdgeLink → VertexId → Prop)
    (frontier : List VertexId) (edges : List LevelEdge) : Prop where
  sound : ∀ e ∈ edges, e.source ∈ frontier ∧ adj e.source e.id ∧ records e.source e.link e.id
  complete : ∀ u ∈ frontier, ∀ w, adj u w → ∃ e ∈ edges, e.source = u ∧ e.id = w

lemma distances_eq_some {v : VertexId} {d : Nat} :
    distances visit v = some d ↔ ∃ x, visit v = some x ∧ x.dist = d := by
  simp [distances]

lemma distances_eq_none {v : VertexId} : distances visit v = none ↔ visit v = none := by
  simp [distances]

variable {st : LevelState} {edges : List LevelEdge}

lemma Explored.next
    (h : Explored adj records root depth visit frontier) (hleaves : Leaves adj records frontier edges)
    (hfollowed : Followed visit (depth + 1) edges st) :
    Explored adj records root (depth + 1) st.visit st.next := by
  have hfrontier (u : VertexId) (hu : u ∈ frontier) : ∃ y, visit u = some y ∧ y.dist = depth :=
    distances_eq_some.mp ((h.level u).mp hu)
  have hnew (w : VertexId) (x : Visit) (hnone : visit w = none) (hx : st.visit w = some x) :
      x.dist = depth + 1 ∧ ∃ e ∈ edges, e.id = w ∧ x.parent = some e.link := by
    obtain ⟨hdist, e, he, hid, -, hparent⟩ := hfollowed.new w x hnone hx
    exact ⟨hdist, e, he, hid, hparent⟩
  refine ⟨h.known.next fun w d => ?_, fun w => ?_, fun w x hx hne => ?_⟩
  · constructor
    · intro hd
      obtain ⟨x, hx, rfl⟩ := distances_eq_some.mp hd
      cases hw : visit w with
      | some y =>
        have hsame := hfollowed.old w y hw
        rw [hx] at hsame
        obtain rfl := some.inj hsame
        exact .inl (distances_eq_some.mpr ⟨x, hw, rfl⟩)
      | none =>
        obtain ⟨hdist, e, he, rfl, -⟩ := hnew w x hw hx
        obtain ⟨hsource, hadj, -⟩ := hleaves.sound e he
        exact .inr ⟨distances_eq_none.mpr hw, hdist, e.source, (h.level _).mp hsource, hadj⟩
    · rintro (hd | ⟨hnone, rfl, v, hv, hadj⟩)
      · obtain ⟨x, hx, rfl⟩ := distances_eq_some.mp hd
        exact distances_eq_some.mpr ⟨x, hfollowed.old w x hx, rfl⟩
      · obtain ⟨e, he, hsource, rfl⟩ := hleaves.complete v ((h.level v).mpr hv) w hadj
        have hunmet := distances_eq_none.mp hnone
        -- the source is visited, so this is no loop
        have hne : e.id ≠ e.source := by
          intro heq
          obtain ⟨y, hy, -⟩ := distances_eq_some.mp hv
          rw [heq, hsource, hy] at hunmet
          cases hunmet
        obtain ⟨x, hx⟩ := isSome_iff_exists.mp (hfollowed.met e he hne)
        exact distances_eq_some.mpr ⟨x, hx, (hnew e.id x hunmet hx).1⟩
  · rw [hfollowed.next]
    constructor
    · rintro ⟨hnone, hsome⟩
      obtain ⟨x, hx⟩ := isSome_iff_exists.mp hsome
      exact distances_eq_some.mpr ⟨x, hx, (hnew w x hnone hx).1⟩
    · intro hd
      obtain ⟨x, hx, hdist⟩ := distances_eq_some.mp hd
      refine ⟨?_, by simp [hx]⟩
      cases hw : visit w with
      | none => rfl
      | some y =>
        have hsame := hfollowed.old w y hw
        rw [hx] at hsame
        obtain rfl := some.inj hsame
        have hle := ((h.known w x.dist).mp (distances_eq_some.mpr ⟨x, hw, rfl⟩)).2
        omega
  · cases hw : visit w with
    | some y =>
      have hsame := hfollowed.old w y hw
      rw [hx] at hsame
      obtain rfl := some.inj hsame
      obtain ⟨u, link, z, hparent, hrecords, hz, hdist⟩ := h.parent w x hw hne
      exact ⟨u, link, z, hparent, hrecords, hfollowed.old u z hz, hdist⟩
    | none =>
      obtain ⟨hdist, e, he, rfl, hparent⟩ := hnew w x hw hx
      obtain ⟨hsource, -, hrecords⟩ := hleaves.sound e he
      obtain ⟨y, hy, hydist⟩ := hfrontier e.source hsource
      exact ⟨e.source, e.link, y, hparent, hrecords, hfollowed.old _ y hy, by omega⟩

end Explored

/-! ### The edges of one level -/

section LevelEdges

variable {visit other : VertexId → Option Visit} {frontier : List VertexId}

/-- The edges a level follows, in order. -/
def levelEdges (op : ShortestPathPhysicalOp) (store : GraphReads) (scan_dir : Direction)
    (link : VertexId → Traversal → EdgeLink) (frontier : List VertexId) : List LevelEdge :=
  frontier.flatMap fun v => (op.stepsAt store scan_dir v).map fun t => ⟨v, t.vertex, link v t⟩

end LevelEdges

/-! ### The two searches -/

section Searching

/-- One step of a path. -/
def adjacent (op : ShortestPathPhysicalOp) (g : Graph) : VertexId → VertexId → Prop :=
  stepsTo (op.follows g) vertex

/-- The link is that of a step from `u` to `w`. -/
def recordsStep (op : ShortestPathPhysicalOp) (g : Graph) (u : VertexId) (link : EdgeLink)
    (w : VertexId) : Prop :=
  ∃ t, op.follows g u t ∧ t.vertex = w ∧ link = linkOf u t

section Rounds

variable {ids : List VertexId} {start stop : VertexId} {s : BidirectionalState}

lemma leaves_forward (h : store.Holds g) (frontier : List VertexId) :
    Leaves (op.adjacent g) (op.recordsStep g) frontier
      (op.levelEdges store op.forward_dir linkOf frontier) where
  sound e he := by
    obtain ⟨v, hv, he⟩ := mem_flatMap.mp he
    obtain ⟨t, ht, rfl⟩ := mem_map.mp he
    have hfollows := (mem_stepsAt h op.forward_dir v t).mp ht
    exact ⟨hv, ⟨t, hfollows, rfl⟩, t, hfollows, rfl, rfl⟩
  complete u hu w hadj := by
    obtain ⟨t, hfollows, rfl⟩ := hadj
    refine ⟨⟨u, t.vertex, linkOf u t⟩, mem_flatMap.mpr ⟨u, hu, mem_map.mpr ⟨t, ?_, rfl⟩⟩, rfl, rfl⟩
    exact (mem_stepsAt h op.forward_dir u t).mpr hfollows

variable {frontier : List VertexId} {visit : VertexId → Option Visit}

variable {s' : BidirectionalState}

/-- A length the upper bound allows. -/
def withinBound (op : ShortestPathPhysicalOp) (n : Nat) : Prop := op.max_hops < 0 ∨ (n : Int) ≤ op.max_hops

/-- What a search between the two vertices should find: a shortest walk, if there is a walk
within the bound. -/
structure FindsShortest (op : ShortestPathPhysicalOp) (g : Graph) (start stop : VertexId)
    (path : Option (List Value)) : Prop where
  shortest : ∀ p, path = some p → ∃ walk, p = pathOf start walk ∧
    IsShortest (op.follows g) vertex start stop walk ∧ op.withinBound walk.length
  complete : path = none → ∀ walk, IsWalk (op.follows g) vertex start walk →
    lastVertex vertex start walk = stop → ¬ op.withinBound walk.length

end Rounds

end Searching

end ShortestPathPhysicalOp

end Eugraph.Dataset
