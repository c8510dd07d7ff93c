import Eugraph.Graph.UsageGate
import Eugraph.Lib.Transition
import Mathlib.Data.Finset.Basic
import Mathlib.Data.Finset.Lattice.Lemmas
import Mathlib.Data.Multiset.MapFold

/-!
# The graph manager

`GraphManager` with any number of clients in `acquireGraph`, holding and releasing
leases, and any number of threads in `createGraph`, `dropGraph` and `shutdown`.  A client
looks a graph up and enters its gate under one shared lock; the map changes only under
the exclusive lock, when no client stands between lookup and entry.  Closing a gate,
waiting for it and destroying the instance happen without the manager's lock, so each is
a step of its own.

A graph instance is named by a number that is never used again.
-/

namespace Eugraph

open Lib List

def kDefaultGraphName : String := "default"

/-- A thread in `dropGraph` after it took the instance out of the map. -/
inductive DropPhase
  | toClose (i : Nat)
  | draining (i : Nat)
  | drained (i : Nat)
  deriving DecidableEq

def DropPhase.target : DropPhase → Nat
  | .toClose i | .draining i | .drained i => i

/-- How far `shutdown` has come, with the instances it has taken out of the map. -/
inductive ShutdownPhase
  | notStarted
  | toExtract
  | closing (todo closed : List Nat)
  | draining (todo kept : List Nat)
  | destroying (kept : List Nat)
  | finished
  deriving DecidableEq

def ShutdownPhase.instances : ShutdownPhase → List Nat
  | .notStarted | .toExtract | .finished => []
  | .closing todo closed => todo ++ closed
  | .draining todo kept => todo ++ kept
  | .destroying kept => kept

structure GraphManager where
  running : Bool
  /-- The names in the catalog; nothing once it is closed. -/
  catalog : Option (Finset String)
  graphs : List (String × Nat)
  nextInstance : Nat
  gates : GateTable
  /-- The instances that clients have looked up under the shared lock they still hold. -/
  looking : List Nat
  drops : List DropPhase
  shutdownPhase : ShutdownPhase
  leaked : Finset Nat
  destroyed : Finset Nat

inductive ManagerAction
  | lookup (name : String)
  | enter (client : Nat)
  | releaseGuard (guard : Nat)
  | moveGuard (guard : Nat)
  | assignGuard (target source : Nat)
  | createGraph (name : String) (opened : Bool)
  | dropGraph (name : String) (catalogDropped : Bool)
  | dropClose (thread : Nat)
  | dropWait (thread : Nat) (timedOut : Bool)
  | dropFinish (thread : Nat) (outstanding : Nat)
  | shutdown
  | shutdownExtract
  | shutdownClose
  | shutdownWait (timedOut : Bool)
  | shutdownDestroy

namespace GraphManager

/-- The manager after `init`: the graphs of the catalog that could be opened, and the
names of those that could not. -/
def initial (names unopened : List String) : GraphManager where
  running := true
  catalog := some (names ++ unopened).toFinset
  graphs := names.zipIdx
  nextInstance := names.length
  gates := ⟨fun _ => .fresh, []⟩
  looking := []
  drops := []
  shutdownPhase := .notStarted
  leaked := ∅
  destroyed := ∅

def find (m : GraphManager) (name : String) : Option Nat :=
  (m.graphs.find? (·.1 = name)).map (·.2)

/-- `createGraph` under the exclusive lock.  An entry of that name that is still in the
map is overwritten, which destroys its instance. -/
def createGraph (m : GraphManager) (name : String) (opened : Bool) : GraphManager :=
  match m.catalog with
  | none => m
  | some names =>
    if name ∈ names then m
    else if opened then
      { m with
        catalog := some (insert name names)
        graphs := (name, m.nextInstance) :: m.graphs.filter (·.1 ≠ name)
        nextInstance := m.nextInstance + 1
        destroyed := m.destroyed ∪ ((m.graphs.filter (·.1 = name)).map (·.2)).toFinset }
    else m

/-- The part of `dropGraph` under the exclusive lock. -/
def dropGraph (m : GraphManager) (name : String) (catalogDropped : Bool) : GraphManager :=
  if name = kDefaultGraphName then m
  else
    match m.find name with
    | none => m
    | some i =>
      { m with
        graphs := m.graphs.filter (·.1 ≠ name)
        catalog := if catalogDropped then m.catalog.map (·.erase name) else m.catalog
        drops := m.drops ++ [.toClose i] }

def leak (m : GraphManager) (i : Nat) : GraphManager := { m with leaked := insert i m.leaked }

def destroy (m : GraphManager) (i : Nat) : GraphManager :=
  { m with destroyed := insert i m.destroyed }

/-- `waitDrained`: it returns once the gate has no user, or after the timeout. -/
def waitDrained (m : GraphManager) (i : Nat) (timedOut : Bool) : Option Bool :=
  if (m.gates.gate i).inflight = 0 then some true else if timedOut then some false else none

def step (m : GraphManager) : ManagerAction → Option GraphManager
  | .lookup name =>
    match m.find name with
    | none => some m
    | some i => some { m with looking := m.looking ++ [i] }
  | .enter client =>
    match m.looking[client]? with
    | none => none
    | some i => some { m with gates := m.gates.enter i, looking := m.looking.eraseIdx client }
  | .releaseGuard guard => (m.gates.release guard).map fun u => { m with gates := u }
  | .moveGuard guard => (m.gates.moveConstruct guard).map fun u => { m with gates := u }
  | .assignGuard target source =>
    (m.gates.moveAssign target source).map fun u => { m with gates := u }
  | .createGraph name opened => if m.looking = [] then some (m.createGraph name opened) else none
  | .dropGraph name catalogDropped =>
    if m.looking = [] then some (m.dropGraph name catalogDropped) else none
  | .dropClose thread =>
    match m.drops[thread]? with
    | some (.toClose i) =>
      some { m with gates := m.gates.close i, drops := m.drops.set thread (.draining i) }
    | _ => none
  | .dropWait thread timedOut =>
    match m.drops[thread]? with
    | some (.draining i) =>
      match m.waitDrained i timedOut with
      | none => none
      | some true => some { m with drops := m.drops.set thread (.drained i) }
      | some false => some { m.leak i with drops := m.drops.eraseIdx thread }
    | _ => none
  | .dropFinish thread outstanding =>
    match m.drops[thread]? with
    | some (.drained i) =>
      if outstanding ≠ 0 then some { m.leak i with drops := m.drops.eraseIdx thread }
      else some { m.destroy i with drops := m.drops.eraseIdx thread }
    | _ => none
  | .shutdown =>
    if m.running then some { m with running := false, shutdownPhase := .toExtract } else some m
  | .shutdownExtract =>
    if m.shutdownPhase = .toExtract ∧ m.looking = [] then
      some { m with graphs := [], shutdownPhase := .closing (m.graphs.map (·.2)) [] }
    else none
  | .shutdownClose =>
    match m.shutdownPhase with
    | .closing (i :: todo) closed =>
      some { m with gates := m.gates.close i, shutdownPhase := .closing todo (closed ++ [i]) }
    | .closing [] closed => some { m with shutdownPhase := .draining closed [] }
    | _ => none
  | .shutdownWait timedOut =>
    match m.shutdownPhase with
    | .draining (i :: todo) kept =>
      match m.waitDrained i timedOut with
      | none => none
      | some true => some { m with shutdownPhase := .draining todo (kept ++ [i]) }
      | some false => some { m.leak i with shutdownPhase := .draining todo kept }
    | .draining [] kept => some { m with shutdownPhase := .destroying kept }
    | _ => none
  | .shutdownDestroy =>
    match m.shutdownPhase with
    | .destroying (i :: rest) => some { m.destroy i with shutdownPhase := .destroying rest }
    | .destroying [] => some { m with catalog := none, shutdownPhase := .finished }
    | _ => none

example (m : GraphManager) (h : m.shutdownPhase = .finished) : m.step .shutdownDestroy = none := by
  simp [step, h]

end GraphManager

/-! ### The invariant -/

/-- What a thread in `dropGraph` has achieved. -/
def DropPhase.Reached (u : GateTable) : DropPhase → Prop
  | .toClose _ => True
  | .draining i => (u.gate i).closed = true
  | .drained i => u.Quiet i

/-- What `shutdown` has achieved. -/
def ShutdownPhase.Reached (u : GateTable) : ShutdownPhase → Prop
  | .notStarted | .toExtract | .finished => True
  | .closing _ closed => ∀ i ∈ closed, (u.gate i).closed = true
  | .draining todo kept => (∀ i ∈ todo, (u.gate i).closed = true) ∧ ∀ i ∈ kept, u.Quiet i
  | .destroying kept => ∀ i ∈ kept, u.Quiet i

variable {u : GateTable}

lemma DropPhase.Reached.keeps {u' : GateTable} (hkeeps : u.Keeps u') (hcounted : u.Counted)
    {d : DropPhase} (h : d.Reached u) : d.Reached u' := by
  cases d with
  | toClose i => trivial
  | draining i => exact hkeeps.closed h
  | drained i => exact hkeeps.quiet hcounted h

lemma ShutdownPhase.Reached.keeps {u' : GateTable} (hkeeps : u.Keeps u')
    (hcounted : u.Counted) {p : ShutdownPhase} (h : p.Reached u) : p.Reached u' := by
  cases p with
  | notStarted => trivial
  | toExtract => trivial
  | closing todo closed => exact fun i hi => hkeeps.closed (h i hi)
  | draining todo kept =>
    exact ⟨fun i hi => hkeeps.closed (h.1 i hi), fun i hi => hkeeps.quiet hcounted (h.2 i hi)⟩
  | destroying kept => exact fun i hi => hkeeps.quiet hcounted (h i hi)
  | finished => trivial

namespace GraphManager

/-- The instances somebody owns: the map, a thread in `dropGraph`, or `shutdown`. -/
def owned (m : GraphManager) : Multiset Nat :=
  (m.graphs.map (·.2) : List Nat) + (m.drops.map (·.target) : List Nat) +
    (m.shutdownPhase.instances : List Nat)

structure Inv (m : GraphManager) : Prop where
  counted : m.gates.Counted
  owned_nodup : m.owned.Nodup
  owned_lt : ∀ i ∈ m.owned, i < m.nextInstance
  owned_intact : ∀ i ∈ m.owned, i ∉ m.destroyed
  destroyed_lt : ∀ i ∈ m.destroyed, i < m.nextInstance
  destroyed_quiet : ∀ i ∈ m.destroyed, m.gates.Quiet i
  looking_mapped : ∀ i ∈ m.looking, i ∈ m.graphs.map (·.2)
  drops_reached : ∀ d ∈ m.drops, d.Reached m.gates
  shutdown_reached : m.shutdownPhase.Reached m.gates
  mapped_catalog : ∀ names, m.catalog = some names → ∀ e ∈ m.graphs, e.1 ∈ names

lemma inv_initial (names unopened : List String) : (initial names unopened).Inv := by
  have howned : (initial names unopened).owned = (List.range' 0 names.length : List Nat) := by
    simp [owned, initial, ShutdownPhase.instances]
  constructor
  · intro i
    rfl
  · rw [howned]
    exact nodup_range'
  · intro i hi
    rw [howned] at hi
    simpa [initial] using hi
  · intro i _
    exact Finset.notMem_empty i
  · intro i hi
    exact absurd hi (Finset.notMem_empty i)
  · intro i hi
    exact absurd hi (Finset.notMem_empty i)
  · intro i hi
    exact nomatch hi
  · intro d hd
    exact nomatch hd
  · trivial
  · intro names' hnames e he
    obtain rfl := Option.some.inj hnames
    have hname : e.1 ∈ names := fst_mem_of_mem_zipIdx he
    simp [hname]

variable {m m' : GraphManager}

/-- An operation on the gates and guards alone. -/
theorem Inv.gates (h : m.Inv) (hkeeps : m.gates.Keeps u) : Inv { m with gates := u } :=
  { h with
    counted := hkeeps.counted h.counted
    destroyed_quiet := fun i hi => hkeeps.quiet h.counted (h.destroyed_quiet i hi)
    drops_reached := fun d hd => (h.drops_reached d hd).keeps hkeeps h.counted
    shutdown_reached := h.shutdown_reached.keeps hkeeps h.counted }

/-- Nobody gets an instance that had no owner before. -/
theorem Inv.of_owned_le (h : m.Inv) (howned : m'.owned ≤ m.owned)
    (hnext : m'.nextInstance = m.nextInstance) (hdestroyed : m'.destroyed = m.destroyed)
    (hgates : m'.gates = m.gates) (hlooking : ∀ i ∈ m'.looking, i ∈ m'.graphs.map (·.2))
    (hdrops : ∀ d ∈ m'.drops, d.Reached m.gates) (hshutdown : m'.shutdownPhase.Reached m.gates)
    (hcatalog : ∀ names, m'.catalog = some names → ∀ e ∈ m'.graphs, e.1 ∈ names) : m'.Inv where
  counted := hgates ▸ h.counted
  owned_nodup := Multiset.nodup_of_le howned h.owned_nodup
  owned_lt := fun i hi => hnext ▸ h.owned_lt i (Multiset.mem_of_le howned hi)
  owned_intact := fun i hi => hdestroyed ▸ h.owned_intact i (Multiset.mem_of_le howned hi)
  destroyed_lt := fun i hi => hnext ▸ h.destroyed_lt i (hdestroyed ▸ hi)
  destroyed_quiet := fun i hi => hgates ▸ h.destroyed_quiet i (hdestroyed ▸ hi)
  looking_mapped := hlooking
  drops_reached := hgates ▸ hdrops
  shutdown_reached := hgates ▸ hshutdown
  mapped_catalog := hcatalog

variable {i : Nat}

lemma mem_graphs_of_find {name : String} (h : m.find name = some i) : ∃ e ∈ m.graphs, e.1 = name ∧ e.2 = i := by
  obtain ⟨e, he, hi⟩ := Option.map_eq_some_iff.mp h
  exact ⟨e, List.mem_of_find?_eq_some he, by simpa using List.find?_some he, hi⟩

/-- An entry of the map and all entries of other names. -/
theorem cons_le_of_mem {graphs : List (String × Nat)} {e : String × Nat} (he : e ∈ graphs) :
    (e.2 ::ₘ ((graphs.filter (·.1 ≠ e.1)).map (·.2) : List Nat) : Multiset Nat) ≤ (graphs.map (·.2) : List Nat) := by
  have hsplit : (e :: graphs.filter (·.1 ≠ e.1)).Subperm graphs := by
    have hmem : [e].Sublist (graphs.filter (·.1 = e.1)) :=
      singleton_sublist.mpr (mem_filter.mpr ⟨he, by simp⟩)
    have hperm := filter_append_perm (fun x => decide (x.1 = e.1)) graphs
    have hboth := (hmem.append_right (graphs.filter fun x => !decide (x.1 = e.1))).subperm
    simpa using hboth.trans hperm.subperm
  exact Multiset.map_le_map (Multiset.coe_le.mpr hsplit)

variable {thread : Nat} {d : DropPhase}

lemma owned_cons_of_drop (hd : m.drops[thread]? = some d) :
    m.owned = d.target ::ₘ { m with drops := m.drops.eraseIdx thread }.owned := by
  obtain ⟨hlt, rfl⟩ := List.getElem?_eq_some_iff.mp hd
  have hperm := (getElem_cons_eraseIdx_perm hlt).map DropPhase.target
  have htargets : ((m.drops.map (·.target) : List Nat) : Multiset Nat) =
      m.drops[thread].target ::ₘ ((m.drops.eraseIdx thread).map (·.target) : List Nat) :=
    (Multiset.coe_eq_coe.mpr hperm).symm
  simp only [owned, htargets, Multiset.cons_add, Multiset.add_cons]

/-- The threads in `dropGraph` stay with their instances. -/
theorem owned_of_drop_set {d' : DropPhase} (hd : m.drops[thread]? = some d)
    (htarget : d'.target = d.target) : { m with drops := m.drops.set thread d' }.owned = m.owned := by
  have htargets : (m.drops.set thread d').map (·.target) = m.drops.map (·.target) := by
    obtain ⟨hlt, rfl⟩ := List.getElem?_eq_some_iff.mp hd
    rw [map_set, htarget, ← getElem_map DropPhase.target]
    exact set_getElem_self (by simpa using hlt)
  simp only [owned, htargets]

lemma Inv.dropGraph (h : m.Inv) (name : String) (catalogDropped : Bool)
    (hlooking : m.looking = []) : (m.dropGraph name catalogDropped).Inv := by
  unfold GraphManager.dropGraph
  split
  · exact h
  · split
    · exact h
    · rename_i i hfind
      obtain ⟨e, he, rfl, rfl⟩ := mem_graphs_of_find hfind
      have hmap := cons_le_of_mem he
      apply h.of_owned_le
      · have hdrops : (((m.drops ++ [DropPhase.toClose e.2]).map (·.target) : List Nat) :
            Multiset Nat) = e.2 ::ₘ (m.drops.map (·.target) : List Nat) := by
          rw [map_append]
          exact Multiset.coe_eq_coe.mpr (perm_append_singleton e.2 _)
        simp only [owned, hdrops]
        rw [Multiset.add_cons, ← Multiset.cons_add]
        exact Multiset.add_le_add_right (Multiset.add_le_add_right hmap)
      · rfl
      · rfl
      · rfl
      · rw [hlooking]
        exact fun i hi => nomatch hi
      · intro d hd
        rcases mem_append.mp hd with hd | hd
        · exact h.drops_reached d hd
        · obtain rfl := mem_singleton.mp hd
          trivial
      · exact h.shutdown_reached
      · intro names hnames e' he'
        obtain ⟨hmem, hne⟩ := mem_filter.mp he'
        have hne : e'.1 ≠ e.1 := by simpa using hne
        cases catalogDropped with
        | false => exact h.mapped_catalog names hnames e' hmem
        | true =>
          obtain ⟨names', hnames', rfl⟩ := Option.map_eq_some_iff.mp hnames
          exact Finset.mem_erase.mpr ⟨hne, h.mapped_catalog names' hnames' e' hmem⟩

/-- A new instance enters the map. -/
theorem Inv.newInstance (h : m.Inv) {name : String} {names : Finset String}
    (hnames : m.catalog = some names) (hlooking : m.looking = []) :
    Inv { m with
      catalog := some (insert name names)
      graphs := (name, m.nextInstance) :: m.graphs
      nextInstance := m.nextInstance + 1 } := by
  have howned : { m with
      catalog := some (insert name names)
      graphs := (name, m.nextInstance) :: m.graphs
      nextInstance := m.nextInstance + 1 }.owned = m.nextInstance ::ₘ m.owned := by
    simp [owned]
  have hfresh : m.nextInstance ∉ m.owned := fun hmem => Nat.lt_irrefl _ (h.owned_lt _ hmem)
  refine { h with
    owned_nodup := ?_
    owned_lt := ?_
    owned_intact := ?_
    destroyed_lt := fun i hi => Nat.lt_succ_of_lt (h.destroyed_lt i hi)
    looking_mapped := ?_
    mapped_catalog := ?_ }
  · rw [howned]
    exact Multiset.nodup_cons.mpr ⟨hfresh, h.owned_nodup⟩
  · intro i hi
    rw [howned] at hi
    rcases Multiset.mem_cons.mp hi with rfl | hi
    · exact Nat.lt_succ_self _
    · exact Nat.lt_succ_of_lt (h.owned_lt i hi)
  · intro i hi hdestroyed
    rw [howned] at hi
    rcases Multiset.mem_cons.mp hi with rfl | hi
    · exact Nat.lt_irrefl _ (h.destroyed_lt _ hdestroyed)
    · exact h.owned_intact i hi hdestroyed
  · rw [hlooking]
    exact fun i hi => nomatch hi
  · intro names' hnames' e he
    obtain rfl := Option.some.inj hnames'
    rcases mem_cons.mp he with rfl | he
    · exact Finset.mem_insert_self name names
    · exact Finset.mem_insert_of_mem (h.mapped_catalog names hnames e he)

/-- The map has no entry that the catalog lacks, so none is overwritten. -/
theorem Inv.createGraph_cases (h : m.Inv) (name : String) (opened : Bool) :
    m.createGraph name opened = m ∨ ∃ names, m.catalog = some names ∧ m.createGraph name opened = { m with
        catalog := some (insert name names)
        graphs := (name, m.nextInstance) :: m.graphs
        nextInstance := m.nextInstance + 1 } := by
  unfold createGraph
  split
  · exact .inl rfl
  · rename_i names hnames
    split
    · exact .inl rfl
    · rename_i hname
      split
      · have habsent : ∀ e ∈ m.graphs, e.1 ≠ name := by
          rintro e he rfl
          exact hname (h.mapped_catalog names hnames e he)
        have hkept : m.graphs.filter (·.1 ≠ name) = m.graphs :=
          filter_eq_self.mpr fun e he => by simpa using habsent e he
        have hnone : m.graphs.filter (·.1 = name) = [] :=
          filter_eq_nil_iff.mpr fun e he => by simpa using habsent e he
        rw [hkept, hnone, map_nil, toFinset_nil, Finset.union_empty]
        exact .inr ⟨names, hnames, rfl⟩
      · exact .inl rfl

/-- A thread in `dropGraph` goes on with its instance. -/
theorem Inv.setDrop (h : m.Inv) {d' : DropPhase} (hd : m.drops[thread]? = some d) (htarget : d'.target = d.target)
    (hreached : d'.Reached m.gates) : Inv { m with drops := m.drops.set thread d' } := by
  apply h.of_owned_le
  · exact (owned_of_drop_set hd htarget).le
  · rfl
  · rfl
  · rfl
  · exact h.looking_mapped
  · intro d'' hd''
    rcases mem_or_eq_of_mem_set hd'' with hd'' | rfl
    · exact h.drops_reached d'' hd''
    · exact hreached
  · exact h.shutdown_reached
  · exact h.mapped_catalog

/-- An instance is given up: nobody owns it any more. -/
theorem Inv.leak (h : m.Inv) (i : Nat) : (m.leak i).Inv := { h with }

lemma Inv.eraseDrop (h : m.Inv) (hd : m.drops[thread]? = some d) :
    Inv { m with drops := m.drops.eraseIdx thread } := by
  apply h.of_owned_le
  · rw [owned_cons_of_drop hd]
    exact Multiset.le_cons_self _ _
  · rfl
  · rfl
  · rfl
  · exact h.looking_mapped
  · exact fun d' hd' => h.drops_reached d' (mem_of_mem_eraseIdx hd')
  · exact h.shutdown_reached
  · exact h.mapped_catalog

/-- An instance that nobody owns any more and whose gate is quiet is destroyed. -/
theorem Inv.destroy (h : m.Inv) (hlt : i < m.nextInstance) (hquiet : m.gates.Quiet i)
    (hfree : i ∉ m.owned) : (m.destroy i).Inv := by
  refine { h with owned_intact := ?_, destroyed_lt := ?_, destroyed_quiet := ?_ }
  · intro j hj hdestroyed
    rcases Finset.mem_insert.mp hdestroyed with rfl | hdestroyed
    · exact hfree hj
    · exact h.owned_intact j hj hdestroyed
  · intro j hj
    rcases Finset.mem_insert.mp hj with rfl | hj
    · exact hlt
    · exact h.destroyed_lt j hj
  · intro j hj
    rcases Finset.mem_insert.mp hj with rfl | hj
    · exact hquiet
    · exact h.destroyed_quiet j hj

lemma Inv.dropFinish (h : m.Inv) (hd : m.drops[thread]? = some (.drained i)) :
    Inv { m.destroy i with drops := m.drops.eraseIdx thread } := by
  have howned := owned_cons_of_drop hd
  have hmem : i ∈ m.owned := by
    rw [howned]
    exact Multiset.mem_cons_self i _
  have hquiet : m.gates.Quiet i := h.drops_reached (.drained i) (mem_of_getElem? hd)
  have hfree : i ∉ { m with drops := m.drops.eraseIdx thread }.owned := by
    have hnodup := h.owned_nodup
    rw [howned] at hnodup
    exact (Multiset.nodup_cons.mp hnodup).1
  exact (h.eraseDrop hd).destroy (h.owned_lt i hmem) hquiet hfree

/-- The shutdown goes on with instances it owns. -/
theorem Inv.setShutdown (h : m.Inv) {p : ShutdownPhase}
    (hsub : (p.instances : Multiset Nat) ≤ m.shutdownPhase.instances)
    (hreached : p.Reached m.gates) : Inv { m with shutdownPhase := p } := by
  apply h.of_owned_le
  · exact Multiset.add_le_add_left hsub
  · rfl
  · rfl
  · rfl
  · exact h.looking_mapped
  · exact h.drops_reached
  · exact hreached
  · exact h.mapped_catalog

/-- The shutdown takes all instances out of the map. -/
theorem Inv.shutdownExtract (h : m.Inv) (hphase : m.shutdownPhase = .toExtract) (hlooking : m.looking = []) :
    Inv { m with graphs := [], shutdownPhase := .closing (m.graphs.map (·.2)) [] } := by
  apply h.of_owned_le
  · simp only [owned, hphase, ShutdownPhase.instances, map_nil, append_nil, Multiset.coe_nil]
    rw [Multiset.zero_add, Multiset.add_zero, Multiset.add_comm]
  · rfl
  · rfl
  · rfl
  · rw [hlooking]
    exact fun i hi => nomatch hi
  · exact h.drops_reached
  · exact fun i hi => nomatch hi
  · exact fun _ _ e he => nomatch he

lemma Inv.shutdownDestroy (h : m.Inv) {rest : List Nat} (hphase : m.shutdownPhase = .destroying (i :: rest)) :
    Inv { m.destroy i with shutdownPhase := .destroying rest } := by
  have hreached : ∀ j ∈ i :: rest, m.gates.Quiet j := by
    have h' := h.shutdown_reached
    rwa [hphase] at h'
  have howned : m.owned = i ::ₘ { m with shutdownPhase := .destroying rest }.owned := by
    simp only [owned, hphase, ShutdownPhase.instances]
    rw [← Multiset.cons_coe, Multiset.add_cons]
  have hrest : Inv { m with shutdownPhase := .destroying rest } := by
    apply h.setShutdown
    · rw [hphase]
      exact Multiset.le_cons_self _ _
    · exact fun j hj => hreached j (mem_cons_of_mem i hj)
  have hmem : i ∈ m.owned := by
    rw [howned]
    exact Multiset.mem_cons_self i _
  apply hrest.destroy (h.owned_lt i hmem) (hreached i mem_cons_self)
  have hnodup := h.owned_nodup
  rw [howned] at hnodup
  exact (Multiset.nodup_cons.mp hnodup).1

/-! ### Every step -/

/-- What a step does to the gates and to the instances. -/
structure Advances (m m' : GraphManager) : Prop where
  inv : m'.Inv
  keeps : m.gates.Keeps m'.gates
  destroys : ∀ i ∈ m'.destroyed, i ∉ m.destroyed → m.gates.Quiet i

lemma Advances.of_intact (hinv : m'.Inv) (hkeeps : m.gates.Keeps m'.gates)
    (hdestroyed : m'.destroyed = m.destroyed) : Advances m m' :=
  ⟨hinv, hkeeps, fun _ hi hnot => absurd (hdestroyed ▸ hi) hnot⟩

lemma Advances.of_gates (h : m.Inv) (hkeeps : m.gates.Keeps u) : Advances m { m with gates := u } :=
  .of_intact (h.gates hkeeps) hkeeps rfl

lemma Advances.of_destroy (hinv : m'.Inv) (hgates : m'.gates = m.gates)
    (hquiet : m.gates.Quiet i) (hdestroyed : m'.destroyed = insert i m.destroyed) :
    Advances m m' := by
  refine ⟨hinv, hgates ▸ .refl m.gates, fun j hj hnot => ?_⟩
  rw [hdestroyed] at hj
  rcases Finset.mem_insert.mp hj with rfl | hj
  · exact hquiet
  · exact absurd hj hnot

variable {timedOut : Bool}

lemma waitDrained_true (h : m.waitDrained i timedOut = some true) : (m.gates.gate i).inflight = 0 := by
  unfold waitDrained at h
  split at h
  · assumption
  · split at h
    · exact nomatch h
    · exact nomatch h

lemma Inv.dropPhase (h : m.Inv) (hd : m.drops[thread]? = some d) : d.Reached m.gates :=
  h.drops_reached d (mem_of_getElem? hd)

lemma Inv.advances_createGraph (h : m.Inv) (name : String) (opened : Bool)
    (hlooking : m.looking = []) : Advances m (m.createGraph name opened) := by
  rcases h.createGraph_cases name opened with hsame | ⟨names, hnames, hnew⟩
  · rw [hsame]
    exact .of_intact h (.refl _) rfl
  · rw [hnew]
    exact .of_intact (h.newInstance hnames hlooking) (.refl _) rfl

lemma Inv.advances_dropGraph (h : m.Inv) (name : String) (catalogDropped : Bool)
    (hlooking : m.looking = []) : Advances m (m.dropGraph name catalogDropped) := by
  have hinv := h.dropGraph name catalogDropped hlooking
  unfold GraphManager.dropGraph at hinv ⊢
  split
  · exact .of_intact h (.refl _) rfl
  · rename_i hname
    rw [if_neg hname] at hinv
    split
    · exact .of_intact h (.refl _) rfl
    · rename_i hfind
      rw [hfind] at hinv
      exact .of_intact hinv (.refl _) rfl

lemma Inv.advances_dropClose (h : m.Inv) (hstep : m.step (.dropClose thread) = some m') : Advances m m' := by
  simp only [step] at hstep
  split at hstep <;> cases hstep
  rename_i i hd
  have hkeeps := m.gates.close_keeps i
  exact .of_intact ((h.gates hkeeps).setDrop hd rfl (m.gates.closed_close i)) hkeeps rfl

lemma Inv.advances_dropWait (h : m.Inv) (hstep : m.step (.dropWait thread timedOut) = some m') : Advances m m' := by
  simp only [step] at hstep
  split at hstep
  · rename_i i hd
    split at hstep <;> cases hstep
    · rename_i hdrained
      -- The gate was closed before the wait, so an empty gate is quiet.
      have hquiet : m.gates.Quiet i := ⟨h.dropPhase hd, waitDrained_true hdrained⟩
      exact .of_intact (h.setDrop hd rfl hquiet) (.refl _) rfl
    · exact .of_intact ((h.leak i).eraseDrop hd) (.refl _) rfl
  · exact nomatch hstep

lemma Inv.advances_dropFinish (h : m.Inv) {outstanding : Nat}
    (hstep : m.step (.dropFinish thread outstanding) = some m') : Advances m m' := by
  simp only [step] at hstep
  split at hstep
  · rename_i i hd
    split at hstep <;> cases hstep
    · exact .of_intact ((h.leak i).eraseDrop hd) (.refl _) rfl
    · exact .of_destroy (h.dropFinish hd) rfl (h.dropPhase hd) rfl
  · exact nomatch hstep

lemma Inv.advances_shutdownClose (h : m.Inv) (hstep : m.step .shutdownClose = some m') : Advances m m' := by
  have hreached := h.shutdown_reached
  simp only [step] at hstep
  split at hstep <;> cases hstep
  · rename_i i todo closed hphase
    rw [hphase] at hreached
    have hkeeps := m.gates.close_keeps i
    refine .of_intact ((h.gates hkeeps).setShutdown ?_ ?_) hkeeps rfl
    · show ((todo ++ (closed ++ [i]) : List Nat) : Multiset Nat) ≤ m.shutdownPhase.instances
      rw [hphase, ← append_assoc]
      exact (Multiset.coe_eq_coe.mpr (perm_append_singleton i (todo ++ closed))).le
    · intro j hj
      rcases mem_append.mp hj with hj | hj
      · exact hkeeps.closed (hreached j hj)
      · obtain rfl := mem_singleton.mp hj
        exact m.gates.closed_close j
  · rename_i closed hphase
    rw [hphase] at hreached
    refine .of_intact (h.setShutdown ?_ ⟨hreached, fun j hj => nomatch hj⟩) (.refl _) rfl
    rw [hphase]
    simp [ShutdownPhase.instances]

lemma Inv.advances_shutdownWait (h : m.Inv)
    (hstep : m.step (.shutdownWait timedOut) = some m') : Advances m m' := by
  have hreached := h.shutdown_reached
  simp only [step] at hstep
  split at hstep
  · rename_i i todo kept hphase
    rw [hphase] at hreached
    obtain ⟨hclosed, hkept⟩ := hreached
    have hrest : ∀ j ∈ todo, (m.gates.gate j).closed = true := fun j hj => hclosed j (mem_cons_of_mem i hj)
    split at hstep <;> cases hstep
    · rename_i hdrained
      have hquiet : m.gates.Quiet i := ⟨hclosed i mem_cons_self, waitDrained_true hdrained⟩
      refine .of_intact (h.setShutdown ?_ ⟨hrest, fun j hj => ?_⟩) (.refl _) rfl
      · rw [hphase]
        show ((todo ++ (kept ++ [i]) : List Nat) : Multiset Nat) ≤ (i :: (todo ++ kept) : List Nat)
        rw [← append_assoc]
        exact (Multiset.coe_eq_coe.mpr (perm_append_singleton i (todo ++ kept))).le
      · rcases mem_append.mp hj with hj | hj
        · exact hkept j hj
        · obtain rfl := mem_singleton.mp hj
          exact hquiet
    · refine .of_intact ((h.leak i).setShutdown ?_ ⟨hrest, hkept⟩) (.refl _) rfl
      show ((todo ++ kept : List Nat) : Multiset Nat) ≤ m.shutdownPhase.instances
      rw [hphase]
      exact Multiset.le_cons_self _ _
  · rename_i kept hphase
    obtain rfl := Option.some.inj hstep
    rw [hphase] at hreached
    refine .of_intact (h.setShutdown ?_ hreached.2) (.refl _) rfl
    rw [hphase]
    exact le_rfl
  · exact nomatch hstep

lemma Inv.advances_shutdownDestroy (h : m.Inv) (hstep : m.step .shutdownDestroy = some m') : Advances m m' := by
  have hreached := h.shutdown_reached
  simp only [step] at hstep
  split at hstep <;> cases hstep
  · rename_i i rest hphase
    rw [hphase] at hreached
    exact .of_destroy (h.shutdownDestroy hphase) rfl (hreached i mem_cons_self) rfl
  · rename_i hphase
    have hfinished : Inv { m with shutdownPhase := .finished } := h.setShutdown (Multiset.zero_le _) trivial
    exact .of_intact { hfinished with mapped_catalog := fun _ hnames => nomatch hnames } (.refl _) rfl

lemma Inv.advances (h : m.Inv) {action : ManagerAction} (hstep : m.step action = some m') : Advances m m' := by
  cases action with
  | lookup name =>
    simp only [step] at hstep
    split at hstep <;> cases hstep
    · exact .of_intact h (.refl _) rfl
    · rename_i i hfind
      obtain ⟨e, he, -, rfl⟩ := mem_graphs_of_find hfind
      refine .of_intact { h with looking_mapped := fun j hj => ?_ } (.refl _) rfl
      rcases mem_append.mp hj with hj | hj
      · exact h.looking_mapped j hj
      · obtain rfl := mem_singleton.mp hj
        exact mem_map_of_mem he
  | enter client =>
    simp only [step] at hstep
    split at hstep <;> cases hstep
    rename_i i hi
    have hgates := h.gates (m.gates.enter_keeps i)
    refine .of_intact { hgates with looking_mapped := fun j hj => ?_ } (m.gates.enter_keeps i) rfl
    exact h.looking_mapped j (mem_of_mem_eraseIdx hj)
  | releaseGuard guard =>
    obtain ⟨u, hu, rfl⟩ := Option.map_eq_some_iff.mp hstep
    exact .of_gates h (GateTable.release_keeps hu)
  | moveGuard guard =>
    obtain ⟨u, hu, rfl⟩ := Option.map_eq_some_iff.mp hstep
    exact .of_gates h (GateTable.moveConstruct_keeps hu)
  | assignGuard target source =>
    obtain ⟨u, hu, rfl⟩ := Option.map_eq_some_iff.mp hstep
    exact .of_gates h (GateTable.moveAssign_keeps hu)
  | createGraph name opened =>
    simp only [step] at hstep
    split at hstep <;> cases hstep
    rename_i hlooking
    exact h.advances_createGraph name opened hlooking
  | dropGraph name catalogDropped =>
    simp only [step] at hstep
    split at hstep <;> cases hstep
    rename_i hlooking
    exact h.advances_dropGraph name catalogDropped hlooking
  | dropClose thread => exact h.advances_dropClose hstep
  | dropWait thread timedOut => exact h.advances_dropWait hstep
  | dropFinish thread outstanding => exact h.advances_dropFinish hstep
  | shutdown =>
    simp only [step] at hstep
    split at hstep <;> cases hstep
    · have hphase : Inv { m with shutdownPhase := .toExtract } := h.setShutdown (Multiset.zero_le _) trivial
      exact .of_intact { hphase with } (.refl _) rfl
    · exact .of_intact h (.refl _) rfl
  | shutdownExtract =>
    simp only [step] at hstep
    split at hstep <;> cases hstep
    rename_i hphase
    exact .of_intact (h.shutdownExtract hphase.1 hphase.2) (.refl _) rfl
  | shutdownClose => exact h.advances_shutdownClose hstep
  | shutdownWait timedOut => exact h.advances_shutdownWait hstep
  | shutdownDestroy => exact h.advances_shutdownDestroy hstep

lemma inv_of_reaches {m₀ : GraphManager} (h₀ : m₀.Inv) (h : Reaches step (fun _ _ => True) m₀ m) : m.Inv :=
  h.invariant Inv h₀ fun _ _ _ hinv _ hstep => (hinv.advances hstep).inv

/-- Along a run a closed gate stays closed and gets no new guard. -/
theorem narrows_of_reaches (h : m.Inv) (hlater : Reaches step (fun _ _ => True) m m') :
    m.gates.Narrows m'.gates := by
  have hboth : m'.Inv ∧ m.gates.Narrows m'.gates := by
    apply hlater.invariant fun m' => m'.Inv ∧ m.gates.Narrows m'.gates
    · exact ⟨h, .refl m.gates⟩
    · rintro s action s' ⟨hinv, hnarrows⟩ - hstep
      have hadvances := hinv.advances hstep
      exact ⟨hadvances.inv, hnarrows.trans hadvances.keeps.narrows⟩
  exact hboth.2

/-- In every interleaving: the in-flight count of a gate is the number of live guards on
it; an instance is destroyed only when its gate is closed and has no user, and no guard
on it is live afterwards; a closed gate stays closed and gets no new guard; and a client
between lookup and entry looks at an instance that exists. -/
theorem graphDrop_safe (names unopened : List String) (m : GraphManager)
    (h : Reaches step (fun _ _ => True) (initial names unopened) m) :
    (∀ i, (m.gates.gate i).inflight = m.gates.live i) ∧
    (∀ action m', m.step action = some m' → ∀ i ∈ m'.destroyed, i ∉ m.destroyed →
      (m.gates.gate i).closed = true ∧ (m.gates.gate i).inflight = 0) ∧
    (∀ i ∈ m.destroyed, m.gates.live i = 0) ∧
    (∀ i, (m.gates.gate i).closed = true → ∀ m', Reaches step (fun _ _ => True) m m' →
      (m'.gates.gate i).closed = true ∧ m'.gates.live i ≤ m.gates.live i) ∧
    ∀ i ∈ m.looking, i ∉ m.destroyed := by
  have hinv := inv_of_reaches (inv_initial names unopened) h
  refine ⟨hinv.counted, fun action m' hstep i hi hnot => ?_, fun i hi => ?_,
    fun i hclosed m' hlater => ?_, fun i hi => ?_⟩
  · exact (hinv.advances hstep).destroys i hi hnot
  · exact (hinv.counted i).symm.trans (hinv.destroyed_quiet i hi).2
  · exact narrows_of_reaches hinv hlater i hclosed
  · apply hinv.owned_intact i
    have hmapped : i ∈ ((m.graphs.map (·.2) : List Nat) : Multiset Nat) := hinv.looking_mapped i hi
    exact Multiset.mem_add.mpr (.inl (Multiset.mem_add.mpr (.inl hmapped)))

/-- A client holds a lease while its graph is dropped; the drop waits for it. -/
def dropWhileInUse : List ManagerAction :=
  [.lookup "g", .enter 0, .moveGuard 0, .dropGraph "g" true, .dropClose 0, .lookup "g",
    .releaseGuard 1, .dropWait 0 false, .dropFinish 0 0]

theorem graphDrop_safe_dropWhileInUse :
    ∃ m, Reaches step (fun _ _ => True) (initial ["default", "g"] []) m ∧ m.destroyed = {1} ∧
      (m.gates.gate 1).inflight = m.gates.live 1 ∧ m.gates.live 1 = 0 := by
  obtain ⟨m, hrun, hdestroyed⟩ : ∃ m,
      runGuarded step (fun _ _ => True) (initial ["default", "g"] []) dropWhileInUse = some m ∧ m.destroyed = {1} :=
    ⟨_, rfl, rfl⟩
  have hreaches := reaches_of_runGuarded dropWhileInUse hrun
  obtain ⟨hcounted, -, hfree, -, -⟩ := graphDrop_safe ["default", "g"] [] m hreaches
  exact ⟨m, hreaches, hdestroyed, hcounted 1, hfree 1 (by simp [hdestroyed])⟩

end GraphManager

end Eugraph
