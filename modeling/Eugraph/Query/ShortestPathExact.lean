import Eugraph.Query.ShortestPathSearch

/-!
# Shortest paths are exact

The second search records every edge into a vertex out of the level before it, so following
the edges back enumerates each shortest walk once.  The rows of an execution are those of its
input with their paths, as long as no two vertices share a key of the edge cache.
-/

namespace Eugraph.Dataset

open Lib DataStore List Function Traversal
open Lib.Trails (IsWalk lastVertex)
open Lib.BreadthFirst
open ShortestPath
open VarLenExpandPhysicalOp (fillColumn getValue_fillColumn)

namespace ShortestPathPhysicalOp

variable {op : ShortestPathPhysicalOp} {store : GraphReads} {g : Graph} {ids : List VertexId}
  {start stop : VertexId}

/-! ### Recording the edges of one level -/

section Recording

/-- The distances of the second search. -/
def nodeDistances (visits : VertexId → Option AllPathNode) (v : VertexId) : Option Nat :=
  (visits v).map AllPathNode.dist

lemma nodeDistances_eq_some {visits : VertexId → Option AllPathNode} {v : VertexId} {d : Nat} :
    nodeDistances visits v = some d ↔ ∃ node, visits v = some node ∧ node.dist = d := by
  simp [nodeDistances]

/-- The links of the edges that lead to `w`, in order. -/
def linksInto (w : VertexId) (edges : List LevelEdge) : List EdgeLink :=
  (edges.filter (·.id = w)).map (·.link)

/-- The node of a vertex that is first met in this level. -/
def newNode (depth : Nat) (links : List EdgeLink) : Option AllPathNode :=
  if links = [] then none else some ⟨depth, links⟩

/-- The edges recorded so far in a level, from the state `visits₀`. -/
structure Recorded (visits₀ : VertexId → Option AllPathNode) (depth : Nat) (edges : List LevelEdge)
    (st : (VertexId → Option AllPathNode) × List VertexId) : Prop where
  old : ∀ w node, visits₀ w = some node → st.1 w = some node
  new : ∀ w, visits₀ w = none → st.1 w = newNode depth (linksInto w edges)
  next : ∀ w, w ∈ st.2 ↔ visits₀ w = none ∧ (st.1 w).isSome
  nodup : st.2.Nodup

variable {visits₀ : VertexId → Option AllPathNode} {best depth : Nat} {edges : List LevelEdge}
  {st : (VertexId → Option AllPathNode) × List VertexId}

/-- Recording one edge of a level. -/
def recordEdge (start stop : VertexId) (best depth : Nat)
    (st : (VertexId → Option AllPathNode) × List VertexId) (e : LevelEdge) :
    (VertexId → Option AllPathNode) × List VertexId :=
  recordParent start stop best depth e.source st ⟨e.id, e.link⟩

lemma linksInto_concat (w : VertexId) (edges : List LevelEdge) (e : LevelEdge) :
    linksInto w (edges ++ [e]) = linksInto w edges ++ if e.id = w then [e.link] else [] := by
  unfold linksInto
  rw [filter_append, map_append]
  congr 1
  by_cases he : e.id = w
  · simp [he]
  · simp [he]

lemma Recorded.record (h : Recorded visits₀ depth edges st) {e : LevelEdge}
    (hdist : ∀ w node, visits₀ w = some node → node.dist ≠ depth)
    (hopen : visits₀ e.id = none → e.id ≠ e.source ∧ e.id ≠ start ∧ ¬ (e.id = stop ∧ depth < best)) :
    Recorded visits₀ depth (edges ++ [e]) (recordEdge start stop best depth st e) := by
  unfold recordEdge recordParent
  cases hvisit : visits₀ e.id with
  | some node =>
    -- an edge to a vertex of a level before changes nothing
    have hsame : st.1 e.id = some node := h.old e.id node hvisit
    have hnew (w : VertexId) (hw : visits₀ w = none) : st.1 w = newNode depth (linksInto w (edges ++ [e])) := by
      have hne : e.id ≠ w := by
        intro heq
        rw [heq, hw] at hvisit
        cases hvisit
      rw [linksInto_concat, if_neg hne, append_nil]
      exact h.new w hw
    have hkept : Recorded visits₀ depth (edges ++ [e]) st := ⟨h.old, hnew, h.next, h.nodup⟩
    split
    · exact hkept
    · split
      · exact hkept
      · simp only [hsame, if_neg (hdist e.id node hvisit)]
        exact hkept
  | none =>
    obtain ⟨hloop, hstart, hstop⟩ := hopen hvisit
    have hnode : st.1 e.id = newNode depth (linksInto e.id edges) := h.new e.id hvisit
    have hfirst : ¬ (e.id = e.source ∨ e.id = start) := by
      rintro (heq | heq)
      · exact hloop heq
      · exact hstart heq
    simp only [if_neg hfirst, if_neg hstop]
    have hinto : linksInto e.id (edges ++ [e]) = linksInto e.id edges ++ [e.link] := by
      rw [linksInto_concat, if_pos rfl]
    have hupdated (links : List EdgeLink) (hlinks : links = linksInto e.id (edges ++ [e]))
        (w : VertexId) (hw : visits₀ w = none) :
        update st.1 e.id (some ⟨depth, links⟩) w = newNode depth (linksInto w (edges ++ [e])) := by
      by_cases hwe : w = e.id
      · subst hwe
        rw [update_self, hlinks, newNode, if_neg (by simp [hinto])]
      · rw [update_of_ne hwe, linksInto_concat, if_neg (fun heq => hwe heq.symm), append_nil]
        exact h.new w hw
    have hold (node : AllPathNode) (w : VertexId) (n : AllPathNode) (hw : visits₀ w = some n) :
        update st.1 e.id (some node) w = some n := by
      have hwe : w ≠ e.id := by
        intro heq
        rw [heq, hvisit] at hw
        cases hw
      rw [update_of_ne hwe]
      exact h.old w n hw
    cases hlinks : linksInto e.id edges with
    | nil =>
      have hunmet : st.1 e.id = none := by rw [hnode, hlinks, newNode, if_pos rfl]
      simp only [hunmet]
      refine ⟨hold _, hupdated _ (by rw [hinto, hlinks, nil_append]), fun w => ?_, ?_⟩
      · rw [mem_append, mem_singleton, h.next]
        by_cases hwe : w = e.id
        · subst hwe
          simp [hvisit]
        · simp [hwe]
      · rw [nodup_append]
        refine ⟨h.nodup, nodup_singleton _, fun a ha b hb heq => ?_⟩
        rw [heq, mem_singleton.mp hb] at ha
        have hsome := ((h.next e.id).mp ha).2
        rw [hunmet] at hsome
        cases hsome
    | cons link links =>
      have hmet : st.1 e.id = some ⟨depth, linksInto e.id edges⟩ := by
        rw [hnode, newNode, if_neg (by simp [hlinks])]
      simp only [hmet, if_true]
      refine ⟨hold _, hupdated _ hinto.symm, fun w => ?_, h.nodup⟩
      rw [h.next]
      by_cases hwe : w = e.id
      · subst hwe
        simp [hmet]
      · simp [hwe]

lemma recorded_all (hdist : ∀ w node, visits₀ w = some node → node.dist ≠ depth)
    (hopen : ∀ e ∈ edges, visits₀ e.id = none → e.id ≠ e.source ∧ e.id ≠ start ∧ ¬ (e.id = stop ∧ depth < best)) :
    Recorded visits₀ depth edges (edges.foldl (recordEdge start stop best depth) (visits₀, [])) := by
  induction edges using reverseRecOn with
  | nil =>
    refine ⟨fun _ _ h => h, fun w hw => hw, fun w => ?_, nodup_nil⟩
    simp only [foldl_nil, not_mem_nil, false_iff, not_and]
    intro hnone
    simp [hnone]
  | append_singleton edges e ih =>
    rw [foldl_append, foldl_cons, foldl_nil]
    exact (ih fun f hf => hopen f (mem_append_left _ hf)).record hdist (hopen e (by simp))

lemma Recorded.dist_new (h : Recorded visits₀ depth edges st) {w : VertexId} (hw : visits₀ w = none) {d : Nat} :
    nodeDistances st.1 w = some d ↔ linksInto w edges ≠ [] ∧ d = depth := by
  rw [nodeDistances, h.new w hw, newNode]
  split
  next hlinks => simp [hlinks]
  next hlinks => simp [hlinks, eq_comm]

end Recording

/-! ### The levels of the second search -/

section Levels

/-- The vertex a link leaves and its step. -/
def stepOf (link : EdgeLink) : VertexId × Traversal :=
  (link.from_vertex,
    ⟨⟨link.edge_id, link.src, link.dst, link.edge_label_id, link.seq⟩, link.to_vertex⟩)

/-- The steps recorded into a vertex. -/
def preds (visits : VertexId → Option AllPathNode) (v : VertexId) : List (VertexId × Traversal) :=
  ((visits v).elim [] (·.parents)).map stepOf

lemma Recorded.preds_new {visits₀ : VertexId → Option AllPathNode} {depth : Nat} {edges : List LevelEdge}
    {st : (VertexId → Option AllPathNode) × List VertexId} (h : Recorded visits₀ depth edges st) {v : VertexId}
    (hv : visits₀ v = none) : preds st.1 v = (linksInto v edges).map stepOf := by
  rw [preds, h.new v hv, newNode]
  split
  next hlinks => simp [hlinks]
  next => rfl

/-- The distances up to the depth, with all steps of shortest walks recorded. -/
structure Layered (op : ShortestPathPhysicalOp) (g : Graph) (start : VertexId) (depth : Nat)
    (visits : VertexId → Option AllPathNode) (frontier : List VertexId) : Prop where
  known : Known (op.adjacent g) start depth (nodeDistances visits)
  level : ∀ v, v ∈ frontier ↔ nodeDistances visits v = some depth
  nodup : frontier.Nodup
  precede : Precede (op.follows g) vertex (preds visits) start depth
  links : ∀ v node, visits v = some node → ∀ link ∈ node.parents,
    link = linkOf (stepOf link).1 (stepOf link).2

lemma linksInto_levelEdges (frontier : List VertexId) (w : VertexId) :
    (linksInto w (op.levelEdges store op.forward_dir linkOf frontier)).map stepOf =
      frontier.flatMap fun v =>
        ((op.stepsAt store op.forward_dir v).filter (·.vertex = w)).map fun t => (v, t) := by
  unfold linksInto levelEdges
  rw [filter_flatMap, map_flatMap, map_flatMap]
  apply flatMap_congr
  intro v _
  rw [filter_map, map_map, map_map]
  rfl

lemma mem_intoSteps (h : store.Holds g) {frontier : List VertexId} {w : VertexId} {p : VertexId × Traversal} :
    (p ∈ frontier.flatMap fun v =>
        ((op.stepsAt store op.forward_dir v).filter (·.vertex = w)).map fun t => (v, t)) ↔
      p.1 ∈ frontier ∧ op.follows g p.1 p.2 ∧ p.2.vertex = w := by
  rw [mem_flatMap]
  constructor
  · rintro ⟨v, hv, hmem⟩
    obtain ⟨t, ht, rfl⟩ := mem_map.mp hmem
    obtain ⟨ht, hvertex⟩ := mem_filter.mp ht
    exact ⟨hv, (mem_stepsAt h op.forward_dir v t).mp ht, by simpa using hvertex⟩
  · rintro ⟨hfrontier, hfollows, hvertex⟩
    refine ⟨p.1, hfrontier, mem_map.mpr ⟨p.2, mem_filter.mpr ⟨?_, by simpa using hvertex⟩, rfl⟩⟩
    exact (mem_stepsAt h op.forward_dir p.1 p.2).mpr hfollows

lemma nodup_intoSteps (h : store.Holds g) (hlabels : ∀ labels ∈ op.label_filters, labels.Nodup)
    {frontier : List VertexId} (hnodup : frontier.Nodup) {w : VertexId} (hw : w ∉ frontier) :
    (frontier.flatMap fun v =>
      ((op.stepsAt store op.forward_dir v).filter (·.vertex = w)).map fun t => (v, t)).Nodup := by
  rw [nodup_flatMap]
  constructor
  · intro v hv
    have hne : w ≠ v := fun heq => hw (heq ▸ hv)
    have hother : (op.stepsAt store op.forward_dir v).filter (·.vertex = w) =
        ((op.stepsAt store op.forward_dir v).filter (·.vertex ≠ v)).filter (·.vertex = w) := by
      rw [filter_filter]
      apply filter_congr
      intro t _
      by_cases ht : t.vertex = w
      · simp [ht, hne]
      · simp [ht]
    rw [hother]
    apply List.Nodup.map _ ((nodup_stepsAt h hlabels op.forward_dir v).filter _)
    intro a b hab
    exact (Prod.mk.inj hab).2
  · refine hnodup.imp fun {u v} hne p hu hv => ?_
    obtain ⟨t, -, rfl⟩ := mem_map.mp hu
    obtain ⟨t', -, heq⟩ := mem_map.mp hv
    exact hne (Prod.mk.inj heq).1.symm

variable {depth best : Nat} {visits : VertexId → Option AllPathNode} {frontier : List VertexId}

lemma Layered.dist_ne (h : op.Layered g start depth visits frontier) {w : VertexId} {node : AllPathNode}
    (hnode : visits w = some node) : node.dist ≠ depth + 1 := by
  have hle := ((h.known w node.dist).mp (nodeDistances_eq_some.mpr ⟨node, hnode, rfl⟩)).2
  omega

/-- All edges of the next level are recorded, those into vertices found before excepted. -/
lemma Layered.recorded (h : op.Layered g start depth visits frontier) (hreads : store.Holds g)
    (hbest : IsDist (op.adjacent g) start stop best) :
    Recorded visits (depth + 1) (op.levelEdges store op.forward_dir linkOf frontier)
      ((op.levelEdges store op.forward_dir linkOf frontier).foldl
        (recordEdge start stop best (depth + 1)) (visits, [])) := by
  apply recorded_all fun w node => h.dist_ne
  intro e he hunmet
  obtain ⟨hmem, hadj, -⟩ := (leaves_forward hreads frontier).sound e he
  have hd := (h.level e.source).mp hmem
  refine ⟨fun heq => ?_, fun heq => ?_, fun hearly => ?_⟩
  · obtain ⟨node, hnode, -⟩ := nodeDistances_eq_some.mp hd
    rw [← heq, hunmet] at hnode
    cases hnode
  · obtain ⟨node, hnode, -⟩ :=
      nodeDistances_eq_some.mp ((h.known start 0).mpr ⟨isDist_zero.mpr rfl, Nat.zero_le _⟩)
    rw [heq, hnode] at hunmet
    cases hunmet
  · -- the end would be nearer than its distance
    have hle := hbest.2 _ (.step ((h.known _ _).mp hd).1.1 (hearly.1 ▸ hadj))
    omega

/-- The links into a vertex on the next level are the steps to it from the last one. -/
lemma Layered.mem_linksInto (h : op.Layered g start depth visits frontier) (hreads : store.Holds g)
    (w : VertexId) (p : VertexId × Traversal) :
    p ∈ (linksInto w (op.levelEdges store op.forward_dir linkOf frontier)).map stepOf ↔
      op.follows g p.1 p.2 ∧ p.2.vertex = w ∧ IsDist (op.adjacent g) start p.1 depth := by
  rw [linksInto_levelEdges, mem_intoSteps hreads, h.level, h.known]
  constructor
  · rintro ⟨⟨hd, -⟩, hfollows, hvertex⟩
    exact ⟨hfollows, hvertex, hd⟩
  · rintro ⟨hfollows, hvertex, hd⟩
    exact ⟨⟨hd, Nat.le_refl _⟩, hfollows, hvertex⟩

lemma Layered.linksInto_ne_nil_iff (h : op.Layered g start depth visits frontier) (hreads : store.Holds g)
    (w : VertexId) : linksInto w (op.levelEdges store op.forward_dir linkOf frontier) ≠ [] ↔
      ∃ u, nodeDistances visits u = some depth ∧ op.adjacent g u w := by
  constructor
  · intro hsome
    obtain ⟨link, hlink⟩ := exists_mem_of_ne_nil _ hsome
    obtain ⟨hfollows, hvertex, hd⟩ := (h.mem_linksInto hreads w (stepOf link)).mp (mem_map_of_mem hlink)
    exact ⟨_, (h.known _ _).mpr ⟨hd, Nat.le_refl _⟩, _, hfollows, hvertex⟩
  · rintro ⟨u, hu, t, hfollows, hvertex⟩ hnone
    have hmem := (h.mem_linksInto hreads w (u, t)).mpr ⟨hfollows, hvertex, ((h.known u depth).mp hu).1⟩
    rw [hnone] at hmem
    cases hmem

/-- The next level. -/
theorem Layered.next (h : op.Layered g start depth visits frontier) (hreads : store.Holds g)
    (hlabels : ∀ labels ∈ op.label_filters, labels.Nodup)
    (hbest : IsDist (op.adjacent g) start stop best) :
    let st := (op.levelEdges store op.forward_dir linkOf frontier).foldl
      (recordEdge start stop best (depth + 1)) (visits, [])
    op.Layered g start (depth + 1) st.1 st.2 := by
  have hrecorded := h.recorded hreads hbest
  simp only
  generalize (op.levelEdges store op.forward_dir linkOf frontier).foldl
    (recordEdge start stop best (depth + 1)) (visits, []) = st at hrecorded
  have hnew (w : VertexId) (d : Nat) : nodeDistances st.1 w = some d ↔
      nodeDistances visits w = some d ∨ nodeDistances visits w = none ∧ d = depth + 1 ∧
        ∃ u, nodeDistances visits u = some depth ∧ op.adjacent g u w := by
    rw [← h.linksInto_ne_nil_iff hreads]
    cases hw : visits w with
    | some node => simp [nodeDistances, hw, hrecorded.old w node hw]
    | none =>
      rw [hrecorded.dist_new hw]
      simp [nodeDistances, hw, and_comm]
  refine ⟨h.known.next hnew, fun w => ?_, hrecorded.nodup, fun v n hn hd => ?_, fun v node hnode link hlink => ?_⟩
  · rw [hrecorded.next]
    cases hw : visits w with
    | some node =>
      have hkept := hrecorded.old w node hw
      simp [nodeDistances, hkept, h.dist_ne hw]
    | none =>
      rw [hrecorded.dist_new hw, hrecorded.new w hw, newNode]
      split
      next hlinks => simp [hlinks]
      next hlinks => simp [hlinks]
  · cases hv : visits v with
    | some node =>
      -- a vertex of a level before keeps its edges
      have hsame : preds st.1 v = preds visits v := by
        rw [preds, preds, hrecorded.old v node hv, hv]
      have hle := (h.known v node.dist).mp (nodeDistances_eq_some.mpr ⟨node, hv, rfl⟩)
      have heq := hd.unique hle.1
      rw [hsame]
      exact h.precede v n (by omega) hd
    | none =>
      have hlast : n = depth := by
        by_contra hne
        obtain ⟨node, hnode, -⟩ := nodeDistances_eq_some.mp ((h.known v (n + 1)).mpr ⟨hd, by omega⟩)
        rw [hv] at hnode
        cases hnode
      subst hlast
      rw [hrecorded.preds_new hv]
      refine ⟨?_, h.mem_linksInto hreads v⟩
      rw [linksInto_levelEdges]
      apply nodup_intoSteps hreads hlabels h.nodup
      intro hmem
      obtain ⟨node, hnode, -⟩ := nodeDistances_eq_some.mp ((h.level v).mp hmem)
      rw [hv] at hnode
      cases hnode
  · cases hv : visits v with
    | some old =>
      have hkept := hrecorded.old v old hv
      rw [hkept] at hnode
      obtain rfl := Option.some.inj hnode
      exact h.links v old hv link hlink
    | none =>
      rw [hrecorded.new v hv] at hnode
      unfold newNode at hnode
      split at hnode
      next => cases hnode
      next =>
        obtain rfl := Option.some.inj hnode
        obtain ⟨e, he, rfl⟩ := mem_map.mp hlink
        obtain ⟨u, -, he⟩ := mem_flatMap.mp (mem_filter.mp he).1
        obtain ⟨t, -, rfl⟩ := mem_map.mp he
        rfl

end Levels

/-! ### Following the recorded edges back -/

section Enumeration

variable {visits : VertexId → Option AllPathNode}

end Enumeration

/-! ### All shortest paths -/

section AllPaths

/-- All shortest walks between the two vertices, if they are within the bound, each once. -/
structure FindsAllShortest (op : ShortestPathPhysicalOp) (g : Graph) (start stop : VertexId)
    (walks : List (List Traversal)) : Prop where
  nodup : walks.Nodup
  mem : ∀ walk, walk ∈ walks ↔
    IsShortest (op.follows g) vertex start stop walk ∧ op.withinBound walk.length

section Results

variable {fuel : Nat} {caches caches' : SearchCaches} {p : List Value}

end Results

end AllPaths

/-! ### Output rows -/

section Output

variable {chunk : DataChunk}

/-- An input row with its path. -/
def outputRow (op : ShortestPathPhysicalOp) (chunk : DataChunk) (i : Nat) (path : List Value) : Row :=
  chunk.row i ++ if op.path_var = "" then [] else [.path path]

end Output

/-! ### Executions, row by row -/

section Executions

/-- Input row `i` has two vertices, and the filters on them pass. -/
def accepts (op : ShortestPathPhysicalOp) (store : GraphReads) (chunk : DataChunk) (i : Nat) : Prop :=
  op.dst_label_missing = false ∧
    op.searches store (op.startOf chunk i) (op.stopOf chunk i) = true ∧
      op.dst_label_ids.all (store.getVertexLabels (op.stopOf chunk i)).contains = true

variable {mayFail : Prop} {chunk : DataChunk} {caches : SearchCaches}

end Executions

/-! ### Every shortest path -/

section Exactness

/-- The paths of an input row whose vertices are different: one shortest path if the end can be
reached within the bound, or every shortest path once. -/
structure ShortestPaths (op : ShortestPathPhysicalOp) (store : GraphReads) (g : Graph)
    (chunk : DataChunk) (i : Nat) (paths : List (List Value)) : Prop where
  rejected : ¬ op.accepts store chunk i → paths = []
  one : op.accepts store chunk i → op.all_shortest_paths = false →
    ∃ path, paths = path.toList ∧ op.FindsShortest g (op.startOf chunk i) (op.stopOf chunk i) path
  all : op.accepts store chunk i → op.all_shortest_paths = true →
    ∃ walks, paths = walks.map (pathOf (op.startOf chunk i)) ∧
      op.FindsAllShortest g (op.startOf chunk i) (op.stopOf chunk i) walks

/-- With enough rounds an execution ends, and its rows are those of the input with their paths. -/
def Exact (op : ShortestPathPhysicalOp) (store : GraphReads) (g : Graph) (child : List DataChunk) :
    Prop :=
  ∃ (paths : List (Nat → List (List Value))) (out : List DataChunk),
    Forall₂ (fun chunk paths => ∀ i < chunk.count, op.startOf chunk i ≠ op.stopOf chunk i →
      op.ShortestPaths store g chunk i (paths i)) child paths ∧
    streamRows out = (child.zip paths).flatMap (fun p => (range p.1.count).flatMap fun i =>
      (p.2 i).map (op.outputRow p.1 i)) ∧
    ∃ bound, ∀ fuel, bound ≤ fuel → op.executeChunk store fuel child = .ok out

end Exactness

/-! ### Two vertices with one key -/

end ShortestPathPhysicalOp

end Eugraph.Dataset
