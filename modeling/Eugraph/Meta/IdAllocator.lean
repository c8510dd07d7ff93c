import Mathlib.Tactic
import Eugraph.Types
import Eugraph.Lib.Transition

/-!
# Id allocation (`AsyncGraphMetaStore::nextVertexIdRange` / `nextEdgeIdRange`)

Any number of calls run interleaved.  One action is one lock region under `id_mu_`
or one awaited metadata write; `refill_mu_` is the field `refillOwner`.  A crash drops
every running call and the caches, and reopening reads the persisted counters.

The final lock region of a call takes its ids without looking at the end of the
cache.  Between publishing a refilled cache and that region another call may take
from it, so `overrun_reissues` hands out ids twice; `rangesSafe_of_guarded` says that
this, and wrapping of the 64-bit counters, are the only ways.
-/

namespace Eugraph.Meta

open Lib List Function Or

inductive IdKind
  | vertex
  | edge
  deriving DecidableEq, Repr

/-- `kVertexIdCacheChunk`, `kEdgeIdCacheChunk`. -/
def idCacheChunk : UInt64 := 16384

/-- The variables of one kind of ids: `schema_.next_*_id`, the cache, and the value
stored under `M|next_ids`. -/
structure Counter where
  next : UInt64
  cacheNext : UInt64
  cacheEnd : UInt64
  persisted : UInt64
  deriving DecidableEq

/-- Where a call stands between two of its regions. -/
inductive Phase
  /-- before the fast path -/
  | entered
  /-- fast path missed, waiting for `refill_mu_` -/
  | waiting
  /-- holds `refill_mu_`, before the second look -/
  | locked
  /-- before the first region of the refill -/
  | refilling
  /-- reserved a chunk, `saveNextIds` awaited -/
  | saving (cacheStart chunk : UInt64)
  /-- chunk persisted, before it is published -/
  | publishing (cacheStart chunk : UInt64)
  /-- before the final region -/
  | taking
  deriving DecidableEq

structure Call where
  kind : IdKind
  count : UInt64
  phase : Phase
  deriving DecidableEq

/-- A range handed to a caller, with the mark that was persisted at that moment. -/
structure Range where
  kind : IdKind
  start : UInt64
  count : UInt64
  mark : UInt64
  deriving DecidableEq

structure State where
  counter : IdKind → Counter
  refillOwner : Option Nat
  calls : Nat → Option Call
  returned : List Range

open State

inductive Action
  | invoke (i : Nat) (kind : IdKind) (count : UInt64)
  | fastPath (i : Nat)
  | lockRefill (i : Nat)
  | recheck (i : Nat)
  | reserve (i : Nat)
  | save (i : Nat) (succeeds : Bool)
  | publish (i : Nat)
  | take (i : Nat)
  | crash
  deriving DecidableEq

/-- A store opened on a database with these counters. -/
def opened (marks : IdKind → UInt64) (returned : List Range) : State where
  counter k := ⟨marks k, 0, 0, marks k⟩
  refillOwner := none
  calls _ := none
  returned := returned

namespace State

def setCall (s : State) (i : Nat) (call : Option Call) : State :=
  { s with calls := update s.calls i call }

def setCounter (s : State) (k : IdKind) (c : Counter) : State :=
  { s with counter := update s.counter k c }

/-- `next + count <= end`, in 64-bit arithmetic. -/
def fits (s : State) (call : Call) : Prop :=
  (s.counter call.kind).cacheNext + call.count ≤ (s.counter call.kind).cacheEnd

instance (s : State) (call : Call) : Decidable (s.fits call) := by
  unfold fits
  infer_instance

/-- `start = cache_next; cache_next += count; co_return start`: the call ends, and
with it the scope of its refill lock. -/
def takeRange (s : State) (i : Nat) (call : Call) : State :=
  let c := s.counter call.kind
  { s with
    counter := update s.counter call.kind { c with cacheNext := c.cacheNext + call.count }
    refillOwner := if s.refillOwner = some i then none else s.refillOwner
    calls := update s.calls i none
    returned := ⟨call.kind, c.cacheNext, call.count, c.persisted⟩ :: s.returned }

/-- `saveNextIds`: one row holds the counters of both kinds. -/
def persistNextIds (s : State) : State :=
  { s with counter := fun k => { s.counter k with persisted := (s.counter k).next } }

end State

/-- `chunk = count > kIdCacheChunk ? count : kIdCacheChunk`. -/
def refillChunk (count : UInt64) : UInt64 := if count > idCacheChunk then count else idCacheChunk

def step (s : State) : Action → Option State
  | .invoke i kind count =>
    match s.calls i with
    | none => some (s.setCall i (some ⟨kind, count, .entered⟩))
    | some _ => none
  | .fastPath i =>
    match s.calls i with
    | some ⟨kind, count, .entered⟩ =>
      if s.fits ⟨kind, count, .entered⟩ then some (s.takeRange i ⟨kind, count, .entered⟩)
      else some (s.setCall i (some ⟨kind, count, .waiting⟩))
    | _ => none
  | .lockRefill i =>
    match s.calls i, s.refillOwner with
    | some ⟨kind, count, .waiting⟩, none =>
      some { s.setCall i (some ⟨kind, count, .locked⟩) with refillOwner := some i }
    | _, _ => none
  | .recheck i =>
    match s.calls i with
    | some ⟨kind, count, .locked⟩ =>
      if s.fits ⟨kind, count, .locked⟩ then some (s.takeRange i ⟨kind, count, .locked⟩)
      else some (s.setCall i (some ⟨kind, count, .refilling⟩))
    | _ => none
  | .reserve i =>
    match s.calls i with
    | some ⟨kind, count, .refilling⟩ =>
      if s.fits ⟨kind, count, .refilling⟩ then some (s.setCall i (some ⟨kind, count, .taking⟩))
      else
        let c := s.counter kind
        some ((s.setCounter kind { c with next := c.next + refillChunk count }).setCall i
          (some ⟨kind, count, .saving c.next (refillChunk count)⟩))
    | _ => none
  | .save i succeeds =>
    match s.calls i with
    | some ⟨kind, count, .saving cacheStart chunk⟩ =>
      if succeeds then
        some (s.persistNextIds.setCall i (some ⟨kind, count, .publishing cacheStart chunk⟩))
      else
        -- the exception ends the call and releases the refill lock
        some { s.setCall i none with
          refillOwner := if s.refillOwner = some i then none else s.refillOwner }
    | _ => none
  | .publish i =>
    match s.calls i with
    | some ⟨kind, count, .publishing cacheStart chunk⟩ =>
      let c := s.counter kind
      some ((s.setCounter kind { c with cacheNext := cacheStart
                                        cacheEnd := cacheStart + chunk }).setCall i
        (some ⟨kind, count, .taking⟩))
    | _ => none
  | .take i =>
    match s.calls i with
    | some ⟨kind, count, .taking⟩ => some (s.takeRange i ⟨kind, count, .taking⟩)
    | _ => none
  | .crash => some (opened (fun k => (s.counter k).persisted) s.returned)

/-! ### Specification -/

/-- First id after a range, as a number. -/
def Range.stop (r : Range) : Nat := r.start.toNat + r.count.toNat

def Range.disjoint (r r' : Range) : Prop := r.stop ≤ r'.start.toNat ∨ r'.stop ≤ r.start.toNat

/-- Ranges of one kind are disjoint, and each lies below the mark that was persisted
when it was returned. -/
structure RangesSafe (s : State) : Prop where
  disjoint : s.returned.Pairwise fun r r' => r.kind = r'.kind → r.disjoint r'
  belowMark : ∀ r ∈ s.returned, r.stop ≤ r.mark.toNat

/-- Counts of the calls are at least one. -/
def positiveCount (_ : State) : Action → Prop
  | .invoke _ _ count => 1 ≤ count
  | _ => True

/-- No addition of the region wraps, and the final region finds its ids still in the
cache. -/
def noOverrun (s : State) : Action → Prop
  | .fastPath i | .recheck i =>
    ∀ call ∈ s.calls i, (s.counter call.kind).cacheNext.toNat + call.count.toNat < 2 ^ 64
  | .reserve i =>
    ∀ call ∈ s.calls i,
      (s.counter call.kind).cacheNext.toNat + call.count.toNat < 2 ^ 64 ∧
      (s.counter call.kind).next.toNat + (refillChunk call.count).toNat < 2 ^ 64
  | .take i =>
    ∀ call ∈ s.calls i, (s.counter call.kind).cacheNext.toNat + call.count.toNat ≤
      (s.counter call.kind).cacheEnd.toNat
  | _ => True

/-! ### Invariant -/

/-- The phases inside the scope of the refill lock. -/
def Phase.holdsLock : Phase → Bool
  | .entered | .waiting => false
  | _ => true

/-- The chunk a refill has reserved and not yet published. -/
def Phase.reserved : Phase → Option (UInt64 × UInt64)
  | .saving cacheStart chunk | .publishing cacheStart chunk => some (cacheStart, chunk)
  | _ => none

/-- Per kind: returned ranges lie outside the cache and below the persisted mark, the
cache below the mark, the mark at most at the counter. -/
structure CounterInv (c : Counter) (returned : List Range) : Prop where
  cache : c.cacheNext.toNat ≤ c.cacheEnd.toNat
  cached : c.cacheEnd.toNat ≤ c.persisted.toNat
  marked : c.persisted.toNat ≤ c.next.toNat
  outside : ∀ r ∈ returned, r.stop ≤ c.cacheNext.toNat ∨ c.cacheEnd.toNat ≤ r.start.toNat
  below : ∀ r ∈ returned, r.stop ≤ c.persisted.toNat

/-- A reserved chunk is below the counter and above everything handed out or cached. -/
structure ReservedInv (c : Counter) (returned : List Range) (cacheStart chunk : UInt64) : Prop where
  below : cacheStart.toNat + chunk.toNat ≤ c.next.toNat
  aboveCache : c.cacheEnd.toNat ≤ cacheStart.toNat
  aboveReturned : ∀ r ∈ returned, r.stop ≤ cacheStart.toNat

/-- The returned ranges of one kind. -/
def State.returnedOf (s : State) (k : IdKind) : List Range := s.returned.filter fun r => r.kind = k

structure Inv (s : State) : Prop where
  safe : RangesSafe s
  counters : ∀ k, CounterInv (s.counter k) (s.returnedOf k)
  owner : ∀ i call, s.calls i = some call → call.phase.holdsLock = true → s.refillOwner = some i
  reserved : ∀ i call cacheStart chunk, s.calls i = some call →
    call.phase.reserved = some (cacheStart, chunk) →
    ReservedInv (s.counter call.kind) (s.returnedOf call.kind) cacheStart chunk
  stored : ∀ i kind count cacheStart chunk,
    s.calls i = some ⟨kind, count, .publishing cacheStart chunk⟩ →
    cacheStart.toNat + chunk.toNat ≤ (s.counter kind).persisted.toNat

lemma toNat_add_of_lt {a b : UInt64} (h : a.toNat + b.toNat < 2 ^ 64) : (a + b).toNat = a.toNat + b.toNat := by
  rw [UInt64.toNat_add, Nat.mod_eq_of_lt h]

lemma Phase.holdsLock_of_reserved {p : Phase} {x : UInt64 × UInt64} (h : p.reserved = some x) :
    p.holdsLock = true := by
  cases p <;> simp_all [Phase.reserved, Phase.holdsLock]

lemma inv_opened (marks : IdKind → UInt64) {returned : List Range}
    (hdisjoint : returned.Pairwise fun r r' => r.kind = r'.kind → r.disjoint r')
    (hmark : ∀ r ∈ returned, r.stop ≤ r.mark.toNat)
    (hbelow : ∀ r ∈ returned, r.stop ≤ (marks r.kind).toNat) : Inv (opened marks returned) where
  safe := ⟨hdisjoint, hmark⟩
  counters k :=
    { cache := Nat.le_refl _
      cached := Nat.zero_le _
      marked := Nat.le_refl _
      outside := fun r _ => inr (Nat.zero_le _)
      below := by
        intro r hr
        simp only [returnedOf, opened, mem_filter, decide_eq_true_eq] at hr
        rw [← hr.2]
        exact hbelow r hr.1 }
  owner := by simp [opened]
  reserved := by simp [opened]
  stored := by simp [opened]

/-! ### One step -/

variable {s : State}

/-- A call that is there after an update is the new one or another one of before. -/
lemma update_eq_some {calls : Nat → Option Call} {i j : Nat} {call : Option Call} {c : Call}
    (h : update calls i call j = some c) : (j = i ∧ call = some c) ∨ (j ≠ i ∧ calls j = some c) := by
  by_cases hij : j = i
  · subst hij
    rw [update_self] at h
    exact inl ⟨rfl, h⟩
  · rw [update_of_ne hij] at h
    exact inr ⟨hij, h⟩

/-- Moving a call to another phase that reserves nothing keeps the invariant. -/
theorem Inv.setCall (h : Inv s) (i : Nat) (call : Option Call)
    (howner : ∀ c ∈ call, c.phase.holdsLock = true → s.refillOwner = some i)
    (hreserved : ∀ c ∈ call, c.phase.reserved = none) : Inv (s.setCall i call) where
  safe := ⟨h.safe.disjoint, h.safe.belowMark⟩
  counters := h.counters
  owner := by
    intro j c hj hlock
    rcases update_eq_some hj with ⟨rfl, hc⟩ | ⟨-, hj⟩
    · exact howner c hc hlock
    · exact h.owner j c hj hlock
  reserved := by
    intro j c cacheStart chunk hj hres
    rcases update_eq_some hj with ⟨rfl, hc⟩ | ⟨-, hj⟩
    · rw [hreserved c hc] at hres
      cases hres
    · exact h.reserved j c cacheStart chunk hj hres
  stored := by
    intro j kind count cacheStart chunk hj
    rcases update_eq_some hj with ⟨rfl, hc⟩ | ⟨-, hj⟩
    · cases hreserved _ hc
    · exact h.stored j kind count cacheStart chunk hj

lemma State.returnedOf_takeRange (s : State) (i : Nat) (call : Call) (k : IdKind) :
    (s.takeRange i call).returnedOf k =
      if call.kind = k then
        ⟨call.kind, (s.counter call.kind).cacheNext, call.count, (s.counter call.kind).persisted⟩ :: s.returnedOf k
      else s.returnedOf k := by
  by_cases hk : call.kind = k
  · simp [returnedOf, takeRange, hk]
  · simp [returnedOf, takeRange, hk]

/-- A call that takes ids from inside the cache keeps the invariant. -/
theorem Inv.takeRange (h : Inv s) (i : Nat) (call : Call) (hcall : s.calls i = some call)
    (hfits : (s.counter call.kind).cacheNext.toNat + call.count.toNat ≤
      (s.counter call.kind).cacheEnd.toNat) : Inv (s.takeRange i call) := by
  have hinv := h.counters call.kind
  have hend := (s.counter call.kind).cacheEnd.toNat_lt
  have hadd := toNat_add_of_lt (Nat.lt_of_le_of_lt hfits hend)
  have hcached := hinv.cached
  refine ⟨⟨?_, ?_⟩, ?_, ?_, ?_, ?_⟩
  · refine pairwise_cons.mpr ⟨?_, h.safe.disjoint⟩
    intro r hr hkind
    have hmem : r ∈ s.returnedOf call.kind := mem_filter.mpr ⟨hr, by simpa using hkind.symm⟩
    rcases hinv.outside r hmem with hr | hr
    · exact inr hr
    · exact inl (Nat.le_trans hfits hr)
  · intro r hr
    rcases mem_cons.mp hr with rfl | hr
    · exact Nat.le_trans hfits hcached
    · exact h.safe.belowMark r hr
  · intro k
    rw [State.returnedOf_takeRange]
    by_cases hk : call.kind = k
    · subst hk
      rw [if_pos rfl]
      simp only [State.takeRange, update_self]
      refine ⟨by rw [hadd]; exact hfits, hcached, hinv.marked, ?_, ?_⟩
      · intro r hr
        rw [hadd]
        rcases mem_cons.mp hr with rfl | hr
        · exact inl (Nat.le_refl _)
        · rcases hinv.outside r hr with hr | hr
          · exact inl (Nat.le_trans hr (Nat.le_add_right _ _))
          · exact inr hr
      · intro r hr
        rcases mem_cons.mp hr with rfl | hr
        · exact Nat.le_trans hfits hcached
        · exact hinv.below r hr
    · rw [if_neg hk]
      simp only [State.takeRange, update_of_ne (Ne.symm hk)]
      exact h.counters k
  · intro j c hj hlock
    rcases update_eq_some hj with ⟨rfl, ⟨⟩⟩ | ⟨hij, hj⟩
    have howner := h.owner j c hj hlock
    rw [State.takeRange, howner, if_neg]
    simpa using hij
  · intro j c cacheStart chunk hj hres
    rcases update_eq_some hj with ⟨rfl, ⟨⟩⟩ | ⟨-, hj⟩
    obtain ⟨hbelow, hcache, hreturned⟩ := h.reserved j c cacheStart chunk hj hres
    rw [State.returnedOf_takeRange]
    by_cases hk : call.kind = c.kind
    · rw [if_pos hk]
      rw [← hk] at hbelow hcache hreturned ⊢
      simp only [State.takeRange, update_self]
      refine ⟨hbelow, hcache, ?_⟩
      intro r hr
      rcases mem_cons.mp hr with rfl | hr
      · exact Nat.le_trans hfits hcache
      · exact hreturned r hr
    · rw [if_neg hk]
      simp only [State.takeRange, update_of_ne (Ne.symm hk)]
      exact ⟨hbelow, hcache, hreturned⟩
  · intro j kind count cacheStart chunk hj
    rcases update_eq_some hj with ⟨rfl, ⟨⟩⟩ | ⟨-, hj⟩
    have hstored := h.stored j kind count cacheStart chunk hj
    simp only [State.takeRange]
    by_cases hk : kind = call.kind
    · subst hk
      simpa using hstored
    · simpa [update_of_ne hk] using hstored

/-- Only one call holds the refill lock. -/
lemma Inv.holder_unique (h : Inv s) {i j : Nat} {c : Call} (hj : s.calls j = some c)
    (hlock : c.phase.holdsLock = true)
    (howner : s.refillOwner = some i) : j = i :=
  Option.some.inj ((h.owner j c hj hlock).symm.trans howner)

/-- Reserving a chunk: the counter moves up, the caller remembers where it was. -/
theorem Inv.reserve (h : Inv s) (i : Nat) (kind : IdKind) (count chunk : UInt64)
    (hcall : s.calls i = some ⟨kind, count, .refilling⟩)
    (hadd : (s.counter kind).next.toNat + chunk.toNat < 2 ^ 64) :
    Inv ((s.setCounter kind { s.counter kind with next := (s.counter kind).next + chunk }).setCall i
      (some ⟨kind, count, .saving (s.counter kind).next chunk⟩)) := by
  have howner := h.owner i _ hcall rfl
  have hsum := toNat_add_of_lt hadd
  have hinv := h.counters kind
  have hcached := hinv.cached
  have hmarked := hinv.marked
  refine ⟨⟨h.safe.disjoint, h.safe.belowMark⟩, ?_, ?_, ?_, ?_⟩
  · intro k
    by_cases hk : k = kind
    · subst hk
      simp only [State.setCall, State.setCounter, update_self]
      refine ⟨hinv.cache, hcached, ?_, hinv.outside, hinv.below⟩
      show (s.counter k).persisted.toNat ≤ ((s.counter k).next + chunk).toNat
      rw [hsum]
      omega
    · simp only [State.setCall, State.setCounter, update_of_ne hk]
      exact h.counters k
  · intro j c hj hlock
    rcases update_eq_some hj with ⟨rfl, -⟩ | ⟨-, hj⟩
    · exact howner
    · exact h.owner j c hj hlock
  · intro j c cacheStart chunk' hj hres
    rcases update_eq_some hj with ⟨rfl, ⟨⟩⟩ | ⟨hij, hj⟩
    · cases hres
      simp only [State.setCall, State.setCounter, update_self]
      refine ⟨by rw [hsum], Nat.le_trans hcached hmarked, ?_⟩
      intro r hr
      have hbelow := hinv.below r hr
      omega
    · -- a second reservation would need the refill lock too
      exact absurd (h.holder_unique hj (Phase.holdsLock_of_reserved hres) howner) hij
  · intro j kind' count' cacheStart chunk' hj
    rcases update_eq_some hj with ⟨rfl, ⟨⟩⟩ | ⟨hij, hj⟩
    exact absurd (h.holder_unique hj rfl howner) hij

/-- Persisting both counters raises the marks and stores the saver's chunk. -/
theorem Inv.save (h : Inv s) (i : Nat) (kind : IdKind) (count cacheStart chunk : UInt64)
    (hcall : s.calls i = some ⟨kind, count, .saving cacheStart chunk⟩) :
    Inv (s.persistNextIds.setCall i (some ⟨kind, count, .publishing cacheStart chunk⟩)) := by
  have howner := h.owner i _ hcall rfl
  have hres := h.reserved i _ cacheStart chunk hcall rfl
  refine ⟨⟨h.safe.disjoint, h.safe.belowMark⟩, ?_, ?_, ?_, ?_⟩
  · intro k
    have hinv := h.counters k
    refine ⟨hinv.cache, Nat.le_trans hinv.cached hinv.marked, Nat.le_refl _, hinv.outside, ?_⟩
    intro r hr
    exact Nat.le_trans (hinv.below r hr) hinv.marked
  · intro j c hj hlock
    rcases update_eq_some hj with ⟨rfl, -⟩ | ⟨-, hj⟩
    · exact howner
    · exact h.owner j c hj hlock
  · intro j c cacheStart' chunk' hj hres'
    rcases update_eq_some hj with ⟨rfl, ⟨⟩⟩ | ⟨-, hj⟩
    · cases hres'
      exact ⟨hres.below, hres.aboveCache, hres.aboveReturned⟩
    · have hold := h.reserved j c cacheStart' chunk' hj hres'
      exact ⟨hold.below, hold.aboveCache, hold.aboveReturned⟩
  · intro j kind' count' cacheStart' chunk' hj
    rcases update_eq_some hj with ⟨rfl, ⟨⟩⟩ | ⟨-, hj⟩
    · exact hres.below
    · exact (h.reserved j _ cacheStart' chunk' hj rfl).below

/-- Publishing replaces the cache by the stored chunk. -/
theorem Inv.publish (h : Inv s) (i : Nat) (kind : IdKind) (count cacheStart chunk : UInt64)
    (hcall : s.calls i = some ⟨kind, count, .publishing cacheStart chunk⟩) :
    Inv ((s.setCounter kind { s.counter kind with cacheNext := cacheStart
                                                  cacheEnd := cacheStart + chunk }).setCall i
      (some ⟨kind, count, .taking⟩)) := by
  have howner := h.owner i _ hcall rfl
  have hres := h.reserved i _ cacheStart chunk hcall rfl
  have hstored := h.stored i kind count cacheStart chunk hcall
  have hinv := h.counters kind
  have hsum : (cacheStart + chunk).toNat = cacheStart.toNat + chunk.toNat :=
    toNat_add_of_lt (Nat.lt_of_le_of_lt hres.below (s.counter kind).next.toNat_lt)
  refine ⟨⟨h.safe.disjoint, h.safe.belowMark⟩, ?_, ?_, ?_, ?_⟩
  · intro k
    by_cases hk : k = kind
    · subst hk
      simp only [State.setCall, State.setCounter, update_self]
      refine ⟨?_, ?_, hinv.marked, ?_, hinv.below⟩
      · show cacheStart.toNat ≤ (cacheStart + chunk).toNat
        rw [hsum]
        exact Nat.le_add_right _ _
      · show (cacheStart + chunk).toNat ≤ (s.counter k).persisted.toNat
        rw [hsum]
        exact hstored
      · intro r hr
        exact inl (hres.aboveReturned r hr)
    · simp only [State.setCall, State.setCounter, update_of_ne hk]
      exact h.counters k
  · intro j c hj hlock
    rcases update_eq_some hj with ⟨rfl, -⟩ | ⟨-, hj⟩
    · exact howner
    · exact h.owner j c hj hlock
  · intro j c cacheStart' chunk' hj hres'
    rcases update_eq_some hj with ⟨rfl, ⟨⟩⟩ | ⟨hij, hj⟩
    · cases hres'
    · exact absurd (h.holder_unique hj (Phase.holdsLock_of_reserved hres') howner) hij
  · intro j kind' count' cacheStart' chunk' hj
    rcases update_eq_some hj with ⟨rfl, ⟨⟩⟩ | ⟨hij, hj⟩
    exact absurd (h.holder_unique hj rfl howner) hij

/-- Taking or giving up the refill lock while no call is in its scope. -/
theorem Inv.setOwner (h : Inv s) (owner : Option Nat)
    (hfree : ∀ i call, s.calls i = some call → call.phase.holdsLock = true → owner = some i) :
    Inv { s with refillOwner := owner } where
  safe := ⟨h.safe.disjoint, h.safe.belowMark⟩
  counters := h.counters
  owner := hfree
  reserved := h.reserved
  stored := h.stored

/-- A region that looks at the cache first: it takes what fits or goes on waiting. -/
theorem Inv.takeIfFits (h : Inv s) (i : Nat) (call : Call) (phase : Phase) (hcall : s.calls i = some call)
    (hadd : (s.counter call.kind).cacheNext.toNat + call.count.toNat < 2 ^ 64)
    (hlock : phase.holdsLock = true → call.phase.holdsLock = true)
    (hreserved : phase.reserved = none) {s' : State}
    (hstep : (if s.fits call then some (s.takeRange i call)
      else some (s.setCall i (some { call with phase := phase }))) = some s') : Inv s' := by
  split at hstep <;> cases hstep
  · rename_i hfits
    refine h.takeRange i call hcall ?_
    rw [← toNat_add_of_lt hadd]
    exact UInt64.le_iff_toNat_le.mp hfits
  · refine h.setCall i _ ?_ ?_
    · rintro c ⟨rfl⟩ hphase
      exact h.owner i call hcall (hlock hphase)
    · rintro c ⟨rfl⟩
      exact hreserved

lemma inv_step (s : State) (a : Action) (s' : State) (h : Inv s) (hguard : noOverrun s a)
    (hstep : step s a = some s') : Inv s' := by
  cases a
  all_goals simp only [step] at hstep
  all_goals try split at hstep
  all_goals try cases hstep
  next i kind count _ _ => -- invoke
    exact h.setCall i _ (by rintro c ⟨rfl⟩; simp [Phase.holdsLock]) (by rintro c ⟨rfl⟩; rfl)
  next i _ kind count hcall => -- fastPath
    exact h.takeIfFits i _ .waiting hcall (hguard _ hcall) (by simp [Phase.holdsLock]) rfl hstep
  next i _ _ kind count hcall hfree => -- lockRefill
    have hlocked := h.setOwner (some i) (by
      intro j call hj hlock
      rw [h.owner j call hj hlock] at hfree
      exact absurd hfree (by simp))
    exact hlocked.setCall i (some ⟨kind, count, .locked⟩) (by simp) (by rintro c ⟨rfl⟩; rfl)
  next i _ kind count hcall => -- recheck
    exact h.takeIfFits i _ .refilling hcall (hguard _ hcall) (fun _ => rfl) rfl hstep
  next i _ kind count hcall => -- reserve
    split at hstep
    all_goals cases hstep
    · exact h.setCall i _ (fun _ _ _ => h.owner i _ hcall rfl) (by rintro c ⟨rfl⟩; rfl)
    · exact h.reserve i kind count _ hcall (hguard _ hcall).2
  next i _ _ kind count cacheStart chunk hcall => -- save
    split at hstep
    all_goals cases hstep
    · exact h.save i kind count cacheStart chunk hcall
    · have hdropped := h.setCall i none (by simp) (by simp)
      refine hdropped.setOwner _ ?_
      intro j call hj hlock
      -- the saver was the owner, and its call is gone
      have hother := (h.owner i _ hcall rfl).symm.trans (hdropped.owner j call hj hlock)
      obtain rfl := Option.some.inj hother
      simp [setCall] at hj
  next i _ kind count cacheStart chunk hcall => -- publish
    exact h.publish i kind count cacheStart chunk hcall
  next i _ kind count hcall => -- take
    exact h.takeRange i _ hcall (hguard _ hcall)
  next => -- crash
    refine inv_opened _ h.safe.disjoint h.safe.belowMark ?_
    intro r hr
    exact (h.counters r.kind).below r (mem_filter.mpr ⟨hr, by simp⟩)

/-! ### Runs -/

/-- In every interleaving of calls, failed writes, crashes and reopens in which no
addition wraps and no final region overruns the cache, no id is handed out twice and
every range lies below the mark persisted when it was returned. -/
theorem rangesSafe_of_guarded (marks : IdKind → UInt64) (s : State)
    (h : Reaches step noOverrun (opened marks []) s) : RangesSafe s :=
  (h.invariant Inv (inv_opened marks List.Pairwise.nil (by simp) (by simp)) inv_step).safe

instance (s : State) (a : Action) : Decidable (noOverrun s a) := by
  cases a <;> unfold noOverrun <;> infer_instance

instance (s : State) (a : Action) : Decidable (positiveCount s a) := by
  cases a <;> unfold positiveCount <;> infer_instance

/-- A first call refills, a second one takes from the chunk before the first does: the
regions of the failing run below, with counts that leave room. -/
theorem rangesSafe_two_calls :
    ∃ s, runGuarded step noOverrun (opened (fun _ => 1) [])
        [.invoke 0 .vertex 16383, .fastPath 0, .lockRefill 0, .recheck 0, .reserve 0, .save 0 true,
          .publish 0, .invoke 1 .vertex 1, .fastPath 1, .take 0] = some s ∧
      s.returned = [⟨.vertex, 2, 16383, 16385⟩, ⟨.vertex, 1, 1, 16385⟩] ∧ RangesSafe s :=
  ⟨_, rfl, rfl, rangesSafe_of_guarded (fun _ => 1) _ (reaches_of_runGuarded
    [.invoke 0 .vertex 16383, .fastPath 0, .lockRefill 0, .recheck 0, .reserve 0, .save 0 true,
      .publish 0, .invoke 1 .vertex 1, .fastPath 1, .take 0] rfl)⟩

/-- Call 0 asks for a whole chunk and refills; call 1 takes one id of it before call 0
does, so call 0 runs one past the chunk; call 2 refills and is given that id again. -/
def overrunActions : List Action :=
  [.invoke 0 .vertex 16384, .fastPath 0, .lockRefill 0, .recheck 0, .reserve 0, .save 0 true,
    .publish 0, .invoke 1 .vertex 1, .fastPath 1, .take 0,
    .invoke 2 .vertex 1, .fastPath 2, .lockRefill 2, .recheck 2, .reserve 2, .save 2 true,
    .publish 2, .take 2]

theorem overrun_reissues : ¬ ∀ s, Reaches step positiveCount (opened (fun _ => 1) []) s → RangesSafe s := by
  intro hall
  have hrun : (runGuarded step positiveCount (opened (fun _ => 1) []) overrunActions).map
      returned = some [⟨.vertex, 16385, 1, 32769⟩, ⟨.vertex, 2, 16384, 16385⟩, ⟨.vertex, 1, 1, 16385⟩] := rfl
  obtain ⟨s, hs, hreturned⟩ := Option.map_eq_some_iff.mp hrun
  have hdisjoint := (hall s (reaches_of_runGuarded overrunActions hs)).disjoint
  rw [hreturned] at hdisjoint
  have hclash := (pairwise_cons.mp hdisjoint).1 ⟨.vertex, 2, 16384, 16385⟩ (by simp) rfl
  simp [Range.disjoint, Range.stop] at hclash

end Eugraph.Meta
