import Eugraph.Storage.SessionLifecycle
import Mathlib.Data.Finset.Card

/-!
# The session pool

`SessionPoolCore` and the leases over it.  `acquire` and `shutdown` run under the pool's
lock; `put` takes the lock twice and closes the session in between, so it is three steps
and other threads may run between them.  While a lease is live its holder may do anything
with the session.  An address is taken from the allocator, which may hand out the address
of a destroyed session again.
-/

namespace Eugraph

open Lib List Function SessionObject Finset Option

/-! ### The pool -/

structure SessionPoolCore where
  maxTotal : Nat
  all : Finset Nat
  object : Nat → SessionObject
  idle : List Nat
  leased : Finset Nat
  closed : Bool

namespace SessionPoolCore

def setObject (c : SessionPoolCore) (a : Nat) (s : SessionObject) : SessionPoolCore :=
  { c with object := update c.object a s }

/-- The back of the idle vector is the head of the list.  `addr` is the address a new
session gets, and `made` says whether the factory delivers one. -/
def acquire (c : SessionPoolCore) (addr : Nat) (made : Bool) : Option Nat × SessionPoolCore :=
  if c.closed then (none, c)
  else
    match c.idle with
    | a :: rest => (some a, { c with idle := rest, leased := insert a c.leased })
    | [] =>
      if c.all.card < c.maxTotal then
        if made then
          (some addr, { c.setObject addr (.fresh true) with
            all := insert addr c.all
            leased := insert addr c.leased })
        else (none, c)
      else (none, c)

/-- The first critical section of `put`: only a leased session is taken back. -/
def takeBack (c : SessionPoolCore) (a : Nat) : Bool × SessionPoolCore :=
  if a ∈ c.leased then (true, { c with leased := c.leased.erase a }) else (false, c)

/-- `session.close()`, outside the lock. -/
def closeSession (c : SessionPoolCore) (a : Nat) (ret : WtCode) : SessionPoolCore :=
  c.setObject a ((c.object a).close ret)

/-- The second critical section of `put`. -/
def park (c : SessionPoolCore) (a : Nat) (ret : WtCode) : SessionPoolCore :=
  if c.closed ∨ (c.object a).poisoned then { c with all := c.all.erase a }
  else { c.setObject a ((c.object a).resetForReuse ret) with idle := a :: c.idle }

/-- The idle sessions are taken out of the pool and closed. -/
def shutdown (c : SessionPoolCore) : SessionPoolCore :=
  if c.closed then c
  else { c with closed := true, all := c.all \ c.idle.toFinset, idle := [] }

end SessionPoolCore

/-! ### Threads over the pool -/

/-- How far a `put` has come. -/
inductive ReturnPhase
  | toClose
  | toPark
  deriving DecidableEq

/-- The pool, the leases and the puts under way.  Lease `ℓ` is for the address
`issued[ℓ]`; it is live until it is put for the first time. -/
structure PoolRun where
  core : SessionPoolCore
  issued : List Nat
  live : Finset Nat
  returning : Nat → Option ReturnPhase

open PoolRun

inductive PoolAction
  | acquire (addr : Nat) (made : Bool)
  | put (lease : Nat)
  | closeSession (a : Nat) (ret : WtCode)
  | park (a : Nat) (ret : WtCode)
  | shutdown
  | use (lease : Nat) (op : SessionOp)

namespace PoolRun

def initial (maxTotal : Nat) : PoolRun where
  core := ⟨maxTotal, ∅, fun _ => .fresh true, [], ∅, false⟩
  issued := []
  live := ∅
  returning := fun _ => none

def step (r : PoolRun) : PoolAction → Option PoolRun
  | .acquire addr made =>
    -- The allocator does not hand out the address of a session that exists.
    if addr ∈ r.core.all then none
    else
      match r.core.acquire addr made with
      | (none, core) => some { r with core := core }
      | (some a, core) => some { r with
          core := core
          issued := r.issued ++ [a]
          live := insert r.issued.length r.live }
  | .put lease =>
    match r.issued[lease]? with
    | none => none
    | some a =>
      match r.core.takeBack a with
      | (false, _) => some { r with live := r.live.erase lease }
      | (true, core) => some { r with
          core := core
          live := r.live.erase lease
          returning := update r.returning a (some .toClose) }
  | .closeSession a ret =>
    if r.returning a = some .toClose then
      some { r with
        core := r.core.closeSession a ret
        returning := update r.returning a (some .toPark) }
    else none
  | .park a ret =>
    if r.returning a = some .toPark then
      some { r with
        core := r.core.park a ret
        returning := update r.returning a none }
    else none
  | .shutdown => some { r with core := r.core.shutdown }
  | .use lease op =>
    match r.issued[lease]? with
    | none => none
    | some a =>
      if lease ∈ r.live then
        some { r with core := r.core.setObject a ((r.core.object a).apply op) }
      else none

/-- A lease that was put before is put again only while its session is not lent out. -/
def PutGuard (r : PoolRun) : PoolAction → Prop
  | .put lease => lease ∈ r.live ∨ ∀ a, r.issued[lease]? = some a → a ∉ r.core.leased
  | _ => True

end PoolRun

/-! ### The sessions of a pool -/

namespace SessionObject

/-- A session with no open transaction and no sticky error, and not poisoned. -/
structure Clean (s : SessionObject) : Prop where
  idle : s.gs.txn.txnOpen = false
  noError : s.gs.err = none
  usable : ¬ s.poisoned

/-- A pooled session has a `WT_SESSION`, and once it is closed its transaction is over
unless the rollback failed. -/
structure Sound (s : SessionObject) : Prop where
  attached : s.attached = true
  closedIdle : s.closed = true → s.gs.txn.txnOpen = false ∨ s.poisoned

lemma clean_fresh : (fresh true).Clean := ⟨rfl, rfl, by decide⟩

lemma sound_fresh : (fresh true).Sound := ⟨rfl, fun h => nomatch h⟩

lemma closed_close (s : SessionObject) (ret : WtCode) : (s.close ret).closed = true := by
  unfold close
  split
  · assumption
  · split
    · rfl
    · split
      · rfl
      · split <;> rfl

variable {s : SessionObject}

/-- Only `close` closes a session. -/
theorem closed_of_closed_apply {op : SessionOp}
    (hop : ∀ ret, op ≠ .close ret) (h : (s.apply op).closed = true) : s.closed = true := by
  cases op with
  | begin kind ret =>
    simp only [apply, begin] at h
    split at h
    · exact h
    · split at h
      · exact h
      · split at h <;> exact h
  | commit ret rollbackRet =>
    simp only [apply, commit] at h
    split at h
    · exact h
    · split at h
      · simp only [rollback] at h
        split at h <;> exact h
      · exact h
  | rollback ret =>
    simp only [apply, rollback] at h
    split at h <;> exact h
  | close ret => exact absurd rfl (hop ret)
  | fail errorClass wtError message => exact h
  | reset ret => cases h

/-- A closed session refuses to begin a transaction. -/
theorem begin_of_closed (h : s.closed = true) (kind : TxnKind) (ret : WtCode) : (s.begin kind ret).2 = s := by
  simp [begin, h]

lemma Sound.close (h : s.Sound) (ret : WtCode) : (s.close ret).Sound := by
  refine ⟨(s.apply_attached (.close ret)).trans h.attached, fun _ => ?_⟩
  unfold SessionObject.close
  split
  · rename_i hclosed
    exact h.closedIdle hclosed
  · split
    · rename_i hopen
      exact .inl (by simpa using hopen)
    · split
      · exact .inl rfl
      · split
        · exact .inl rfl
        · exact .inr rfl

/-- Outside a transaction only `begin` opens one. -/
theorem apply_of_idle {op : SessionOp} (hop : ∀ kind ret, op ≠ .begin kind ret)
    (h : s.gs.txn.txnOpen = false) : (s.apply op).gs.txn.txnOpen = false := by
  have hrollback : ∀ ret, (s.rollback ret).gs.txn.txnOpen = false := by
    intro ret
    unfold rollback
    split
    · simp [GraphSession.rollback, h, TxnController.onRollback]
    · rfl
  cases op with
  | begin kind ret => exact absurd rfl (hop kind ret)
  | commit ret rollbackRet =>
    have hrequest : s.gs.txn.commitRequest = none := by simp [TxnController.commitRequest, h]
    simp only [apply, commit, GraphSession.commit, hrequest]
    cases herr : s.gs.err with
    | none => split <;> exact h
    | some first =>
      have hidle := hrollback rollbackRet
      unfold rollback at hidle ⊢
      split
      · rename_i hattached
        rwa [if_pos hattached] at hidle
      · rfl
  | rollback ret => exact hrollback ret
  | close ret =>
    simp only [apply, close, h]
    split <;> exact h
  | fail errorClass wtError message =>
    simp only [apply, fail, GraphSession.fail]
    split <;> exact h
  | reset ret => exact reset_txnOpen _

lemma Sound.apply (h : s.Sound) (op : SessionOp) : (s.apply op).Sound := by
  refine ⟨(s.apply_attached op).trans h.attached, fun hclosed => ?_⟩
  have hdetached : s.DetachedIdle := fun h' => absurd h' (by simp [h.attached])
  by_cases hop : ∃ ret, op = .close ret
  · obtain ⟨ret, rfl⟩ := hop
    exact (h.close ret).closedIdle (s.closed_close ret)
  · have hbefore : s.closed = true := closed_of_closed_apply (fun ret hret => hop ⟨ret, hret⟩) hclosed
    rcases h.closedIdle hbefore with hidle | hpoisoned
    · left
      by_cases hbegin : ∃ kind ret, op = .begin kind ret
      · obtain ⟨kind, ret, rfl⟩ := hbegin
        show (s.begin kind ret).2.gs.txn.txnOpen = false
        rwa [begin_of_closed hbefore]
      · exact apply_of_idle (fun kind ret hop => hbegin ⟨kind, ret, hop⟩) hidle
    · exact .inr ((s.apply_moves hdetached op).failed hpoisoned)

/-- A closed session that is not poisoned is clean once it is reset. -/
theorem clean_resetForReuse (h : s.Sound) (hclosed : s.closed = true)
    (husable : ¬ s.poisoned) (ret : WtCode) : (s.resetForReuse ret).Clean := by
  have hidle : s.gs.txn.txnOpen = false := (h.closedIdle hclosed).resolve_right husable
  have hreset : s.resetForReuse ret =
      { s with closed := false, gs := { s.gs with txn := ⟨.None, .None, false⟩, err := none } } := by
    have hstate : s.gs.txn.state ≠ .Failed := husable
    simp [resetForReuse, hidle, TxnController.reset, hstate]
  rw [hreset]
  exact ⟨rfl, rfl, fun h => by cases h⟩

end SessionObject

/-! ### The invariant -/

/-- Everything an `acquire` can do. -/
theorem SessionPoolCore.acquire_cases (c : SessionPoolCore) (addr : Nat) (made : Bool) :
    c.acquire addr made = (none, c) ∨
    (c.closed = false ∧ ∃ a rest, c.idle = a :: rest ∧
      c.acquire addr made = (some a, { c with idle := rest, leased := insert a c.leased })) ∨
    (c.closed = false ∧ c.idle = [] ∧ c.all.card < c.maxTotal ∧
      c.acquire addr made = (some addr, { c.setObject addr (.fresh true) with
        all := insert addr c.all
        leased := insert addr c.leased })) := by
  unfold acquire
  cases hclosed : c.closed with
  | true => exact .inl rfl
  | false =>
    cases hidle : c.idle with
    | cons a rest => exact .inr (.inl ⟨rfl, a, rest, rfl, rfl⟩)
    | nil =>
      by_cases hroom : c.all.card < c.maxTotal
      · cases made with
        | true => exact .inr (.inr ⟨rfl, rfl, hroom, by simp [hroom]⟩)
        | false => exact .inl (by simp)
      · exact .inl (by simp [hroom])

namespace PoolRun

/-- Every session of the pool is idle, leased or being returned; each leased one has at
most one live lease, and the idle ones are clean. -/
structure Inv (maxTotal : Nat) (r : PoolRun) : Prop where
  quota : r.core.maxTotal = maxTotal
  bounded : r.core.all.card ≤ maxTotal
  idle_all : ∀ a ∈ r.core.idle, a ∈ r.core.all
  idle_nodup : r.core.idle.Nodup
  leased_all : ∀ a ∈ r.core.leased, a ∈ r.core.all
  idle_leased : ∀ a ∈ r.core.idle, a ∉ r.core.leased
  returning_all : ∀ a, r.returning a ≠ none →
    a ∈ r.core.all ∧ a ∉ r.core.idle ∧ a ∉ r.core.leased
  live_leased : ∀ ℓ ∈ r.live, ∃ a ∈ r.core.leased, r.issued[ℓ]? = some a
  live_unique : ∀ ℓ ∈ r.live, ∀ ℓ' ∈ r.live, r.issued[ℓ]? = r.issued[ℓ']? → ℓ = ℓ'
  sound : ∀ a, (r.core.object a).Sound
  idle_clean : ∀ a ∈ r.core.idle, (r.core.object a).Clean
  parked_closed : ∀ a, r.returning a = some .toPark → (r.core.object a).closed = true
  shut : r.core.closed = true → r.core.idle = []

lemma inv_initial (maxTotal : Nat) : (initial maxTotal).Inv maxTotal where
  quota := rfl
  bounded := Nat.zero_le _
  idle_all := fun _ h => nomatch h
  idle_nodup := nodup_nil
  leased_all := fun _ h => absurd h (notMem_empty _)
  idle_leased := fun _ h => nomatch h
  returning_all := fun _ h => absurd rfl h
  live_leased := fun _ h => absurd h (notMem_empty _)
  live_unique := fun _ h => absurd h (notMem_empty _)
  sound := fun _ => sound_fresh
  idle_clean := fun _ h => nomatch h
  parked_closed := fun _ h => nomatch h
  shut := fun _ => rfl

variable {maxTotal : Nat} {r : PoolRun}

variable {ℓ : Nat}

/-- A live lease was issued. -/
theorem Inv.live_lt (h : r.Inv maxTotal) (hℓ : ℓ ∈ r.live) : ℓ < r.issued.length := by
  obtain ⟨a, -, ha⟩ := h.live_leased ℓ hℓ
  exact (List.getElem?_eq_some_iff.mp ha).1

variable {a : Nat}

lemma issued_append_of_lt (hℓ : ℓ < r.issued.length) : (r.issued ++ [a])[ℓ]? = r.issued[ℓ]? :=
  List.getElem?_append_left hℓ

/-- A lease is issued for a session that is not lent out. -/
theorem Inv.live_issue (h : r.Inv maxTotal) (ha : a ∉ r.core.leased) :
    (∀ ℓ ∈ insert r.issued.length r.live, ∃ b ∈ insert a r.core.leased, (r.issued ++ [a])[ℓ]? = some b) ∧
    ∀ ℓ ∈ insert r.issued.length r.live, ∀ ℓ' ∈ insert r.issued.length r.live,
      (r.issued ++ [a])[ℓ]? = (r.issued ++ [a])[ℓ']? → ℓ = ℓ' := by
  have hnew : (r.issued ++ [a])[r.issued.length]? = some a := by simp
  -- An older lease that is live is for another session.
  have hold : ∀ ℓ ∈ r.live, (r.issued ++ [a])[ℓ]? ≠ some a := by
    intro ℓ hℓ hsame
    rw [issued_append_of_lt (h.live_lt hℓ)] at hsame
    obtain ⟨b, hb, hissued⟩ := h.live_leased ℓ hℓ
    rw [hissued, some.injEq] at hsame
    exact ha (hsame ▸ hb)
  constructor
  · intro ℓ hℓ
    rcases mem_insert.mp hℓ with rfl | hℓ
    · exact ⟨a, mem_insert_self a _, hnew⟩
    · obtain ⟨b, hb, hissued⟩ := h.live_leased ℓ hℓ
      refine ⟨b, mem_insert_of_mem hb, ?_⟩
      rwa [issued_append_of_lt (h.live_lt hℓ)]
  · intro ℓ hℓ ℓ' hℓ' hsame
    rcases mem_insert.mp hℓ with rfl | hℓ
    · rcases mem_insert.mp hℓ' with rfl | hℓ'
      · rfl
      · exact absurd (hsame.symm.trans hnew) (hold ℓ' hℓ')
    · rcases mem_insert.mp hℓ' with rfl | hℓ'
      · exact absurd (hsame.trans hnew) (hold ℓ hℓ)
      · rw [issued_append_of_lt (h.live_lt hℓ), issued_append_of_lt (h.live_lt hℓ')] at hsame
        exact h.live_unique ℓ hℓ ℓ' hℓ' hsame

/-- An idle session is handed out. -/
theorem Inv.acquireIdle (h : r.Inv maxTotal) {rest : List Nat} (hidle : r.core.idle = a :: rest) :
    Inv maxTotal { r with
      core := { r.core with idle := rest, leased := insert a r.core.leased }
      issued := r.issued ++ [a]
      live := insert r.issued.length r.live } := by
  have ha : a ∈ r.core.idle := hidle ▸ mem_cons_self
  have hrest : ∀ b ∈ rest, b ∈ r.core.idle := fun b hb => hidle ▸ mem_cons_of_mem a hb
  have hnodup : a ∉ rest ∧ rest.Nodup := nodup_cons.mp (hidle ▸ h.idle_nodup)
  obtain ⟨hleased, hunique⟩ := h.live_issue (h.idle_leased a ha)
  refine { h with
    idle_all := fun b hb => h.idle_all b (hrest b hb)
    idle_nodup := hnodup.2
    leased_all := ?_
    idle_leased := ?_
    returning_all := ?_
    live_leased := hleased
    live_unique := hunique
    idle_clean := fun b hb => h.idle_clean b (hrest b hb)
    shut := ?_ }
  · intro b hb
    rcases mem_insert.mp hb with rfl | hb
    · exact h.idle_all b ha
    · exact h.leased_all b hb
  · intro b hb hmem
    rcases mem_insert.mp hmem with rfl | hmem
    · exact hnodup.1 hb
    · exact h.idle_leased b (hrest b hb) hmem
  · intro b hb
    obtain ⟨hall, hnotIdle, hnotLeased⟩ := h.returning_all b hb
    refine ⟨hall, fun hb => hnotIdle (hrest b hb), fun hmem => ?_⟩
    rcases mem_insert.mp hmem with rfl | hmem
    · exact hnotIdle ha
    · exact hnotLeased hmem
  · intro hclosed
    rw [h.shut hclosed] at hidle
    exact nomatch hidle

/-- The session at an address that is not idle and not about to be parked changes. -/
theorem Inv.setObject (h : r.Inv maxTotal) {s : SessionObject} (hs : s.Sound)
    (hidle : a ∉ r.core.idle) (hpark : r.returning a ≠ some .toPark) :
    Inv maxTotal { r with core := r.core.setObject a s } := by
  have hother : ∀ b, b ≠ a → (r.core.setObject a s).object b = r.core.object b :=
    fun b hb => update_of_ne hb _ _
  refine { h with sound := ?_, idle_clean := ?_, parked_closed := ?_ }
  · intro b
    by_cases hb : b = a
    · subst hb
      simpa [SessionPoolCore.setObject] using hs
    · exact (hother b hb).symm ▸ h.sound b
  · intro b hb
    have hne : b ≠ a := fun heq => hidle (heq ▸ hb)
    exact (hother b hne).symm ▸ h.idle_clean b hb
  · intro b hb
    have hne : b ≠ a := fun heq => hpark (heq ▸ hb)
    exact (hother b hne).symm ▸ h.parked_closed b hb

/-- A new session is made and handed out. -/
theorem Inv.acquireNew (h : r.Inv maxTotal) (ha : a ∉ r.core.all) (hroom : r.core.all.card < r.core.maxTotal) :
    Inv maxTotal { r with
      core := { r.core.setObject a (.fresh true) with
        all := insert a r.core.all
        leased := insert a r.core.leased }
      issued := r.issued ++ [a]
      live := insert r.issued.length r.live } := by
  have hnotLeased : a ∉ r.core.leased := fun hmem => ha (h.leased_all a hmem)
  have hnotIdle : a ∉ r.core.idle := fun hmem => ha (h.idle_all a hmem)
  have hnotReturning : r.returning a = none := by
    by_contra hreturning
    exact ha (h.returning_all a hreturning).1
  obtain ⟨hleased, hunique⟩ := h.live_issue hnotLeased
  have hobject := h.setObject sound_fresh hnotIdle (by simp [hnotReturning])
  refine { hobject with
    bounded := ?_
    idle_all := fun b hb => mem_insert_of_mem (h.idle_all b hb)
    leased_all := fun b hb => insert_subset_insert a h.leased_all hb
    idle_leased := ?_
    returning_all := ?_
    live_leased := hleased
    live_unique := hunique }
  · show (insert a r.core.all).card ≤ maxTotal
    rw [card_insert_of_notMem ha, ← h.quota]
    omega
  · intro b hb hmem
    rcases mem_insert.mp hmem with rfl | hmem
    · exact hnotIdle hb
    · exact h.idle_leased b hb hmem
  · intro b hb
    obtain ⟨hall, hidle, hleased⟩ := h.returning_all b hb
    refine ⟨mem_insert_of_mem hall, hidle, fun hmem => ?_⟩
    rcases mem_insert.mp hmem with rfl | hmem
    · exact hb hnotReturning
    · exact hleased hmem

/-- A `put` that is ignored. -/
theorem Inv.putIgnored (h : r.Inv maxTotal) (ℓ : Nat) : Inv maxTotal { r with live := r.live.erase ℓ } :=
  { h with
    live_leased := fun ℓ' hℓ' => h.live_leased ℓ' (mem_of_mem_erase hℓ')
    live_unique := fun ℓ' hℓ' ℓ'' hℓ'' =>
      h.live_unique ℓ' (mem_of_mem_erase hℓ') ℓ'' (mem_of_mem_erase hℓ'') }

/-- A live lease gives its session back. -/
theorem Inv.putLive (h : r.Inv maxTotal) (hlive : ℓ ∈ r.live) (hissued : r.issued[ℓ]? = some a) :
    Inv maxTotal { r with
      core := { r.core with leased := r.core.leased.erase a }
      live := r.live.erase ℓ
      returning := update r.returning a (some .toClose) } := by
  have ha : a ∈ r.core.leased := by
    obtain ⟨b, hb, hissued'⟩ := h.live_leased ℓ hlive
    rw [hissued, some.injEq] at hissued'
    exact hissued' ▸ hb
  refine { h.putIgnored ℓ with
    leased_all := fun b hb => h.leased_all b (mem_of_mem_erase hb)
    idle_leased := fun b hb hmem => h.idle_leased b hb (mem_of_mem_erase hmem)
    returning_all := ?_
    live_leased := ?_
    parked_closed := ?_ }
  · intro b hb
    by_cases hne : b = a
    · subst hne
      exact ⟨h.leased_all b ha, fun hidle => h.idle_leased b hidle ha, notMem_erase b _⟩
    · obtain ⟨hall, hidle, hleased⟩ := h.returning_all b (by simpa [hne] using hb)
      exact ⟨hall, hidle, fun hmem => hleased (mem_of_mem_erase hmem)⟩
  · intro ℓ' hℓ'
    obtain ⟨hne, hlive'⟩ := mem_erase.mp hℓ'
    obtain ⟨b, hb, hissued'⟩ := h.live_leased ℓ' hlive'
    -- The other live leases are for other sessions.
    have hba : b ≠ a := by
      intro heq
      exact hne (h.live_unique ℓ' hlive' ℓ hlive (by rw [hissued', hissued, heq]))
    exact ⟨b, mem_erase.mpr ⟨hba, hb⟩, hissued'⟩
  · intro b hb
    by_cases hne : b = a
    · subst hne
      simp at hb
    · exact h.parked_closed b (by simpa [hne] using hb)

/-- The session being returned is closed. -/
theorem Inv.closeSession (h : r.Inv maxTotal) (ha : r.returning a = some .toClose) (ret : WtCode) :
    Inv maxTotal { r with
      core := r.core.closeSession a ret
      returning := update r.returning a (some .toPark) } := by
  obtain ⟨hall, hidle, hleased⟩ := h.returning_all a (by simp [ha])
  have hobject := h.setObject ((h.sound a).close ret) hidle (by simp [ha])
  refine { hobject with returning_all := ?_, parked_closed := ?_ }
  · intro b hb
    by_cases hne : b = a
    · subst hne
      exact ⟨hall, hidle, hleased⟩
    · exact h.returning_all b (by simpa [hne] using hb)
  · intro b hb
    by_cases hne : b = a
    · subst hne
      simpa [SessionPoolCore.closeSession, SessionPoolCore.setObject] using (r.core.object b).closed_close ret
    · exact hobject.parked_closed b (by simpa [hne] using hb)

/-- A put under way is over. -/
theorem Inv.returned (h : r.Inv maxTotal) (a : Nat) :
    Inv maxTotal { r with returning := update r.returning a none } := by
  have hother : ∀ b, update r.returning a none b ≠ none → update r.returning a none b = r.returning b := by
    intro b hb
    by_cases hne : b = a
    · subst hne
      simp at hb
    · exact update_of_ne hne _ _
  refine { h with returning_all := ?_, parked_closed := ?_ }
  · intro b hb
    exact h.returning_all b (hother b hb ▸ hb)
  · intro b hb
    have hsome : update r.returning a none b ≠ none :=
      fun hnone => some_ne_none _ (hb.symm.trans hnone)
    exact h.parked_closed b (hother b hsome ▸ hb)

/-- The session being returned is destroyed or parked. -/
theorem Inv.park (h : r.Inv maxTotal) (ha : r.returning a = some .toPark) (ret : WtCode) : Inv maxTotal { r with
      core := r.core.park a ret
      returning := update r.returning a none } := by
  obtain ⟨hall, hidle, hleased⟩ := h.returning_all a (by simp [ha])
  have hdone := h.returned a
  have hnotReturning : update r.returning a none a = none := update_self a _ _
  have hother : ∀ b, update r.returning a none b ≠ none → b ≠ a := fun b hb heq => hb (heq ▸ hnotReturning)
  unfold SessionPoolCore.park
  split
  · refine { hdone with
      bounded := card_erase_le.trans h.bounded
      idle_all := fun b hb => mem_erase.mpr ⟨fun heq => hidle (heq ▸ hb), h.idle_all b hb⟩
      leased_all := fun b hb =>
        mem_erase.mpr ⟨fun heq => hleased (heq ▸ hb), h.leased_all b hb⟩
      returning_all := ?_ }
    intro b hb
    obtain ⟨hall', hrest⟩ := hdone.returning_all b hb
    exact ⟨mem_erase.mpr ⟨hother b hb, hall'⟩, hrest⟩
  · rename_i hkept
    obtain ⟨hopen, husable⟩ := not_or.mp hkept
    have hclean := clean_resetForReuse (h.sound a) (h.parked_closed a ha) husable ret
    have hobject := hdone.setObject ((h.sound a).apply (.reset ret)) hidle (by simp)
    refine { hobject with
      idle_all := ?_
      idle_nodup := nodup_cons.mpr ⟨hidle, h.idle_nodup⟩
      idle_leased := ?_
      returning_all := ?_
      idle_clean := ?_
      shut := fun hclosed => absurd hclosed hopen }
    · intro b hb
      rcases mem_cons.mp hb with rfl | hb
      · exact hall
      · exact h.idle_all b hb
    · intro b hb
      rcases mem_cons.mp hb with rfl | hb
      · exact hleased
      · exact h.idle_leased b hb
    · intro b hb
      obtain ⟨hall', hidle', hleased'⟩ := hdone.returning_all b hb
      refine ⟨hall', fun hmem => ?_, hleased'⟩
      rcases mem_cons.mp hmem with heq | hmem
      · exact hother b hb heq
      · exact hidle' hmem
    · intro b hb
      rcases mem_cons.mp hb with rfl | hb
      · simpa [SessionPoolCore.setObject] using hclean
      · exact hobject.idle_clean b hb

/-- The idle sessions are closed and the pool is shut. -/
theorem Inv.shutdown (h : r.Inv maxTotal) : Inv maxTotal { r with core := r.core.shutdown } := by
  unfold SessionPoolCore.shutdown
  split
  · exact h
  · have hkept : ∀ b ∈ r.core.all, b ∉ r.core.idle → b ∈ r.core.all \ r.core.idle.toFinset :=
      fun b hb hidle => mem_sdiff.mpr ⟨hb, fun hmem => hidle (mem_toFinset.mp hmem)⟩
    refine { h with
      bounded := (card_le_card sdiff_subset).trans h.bounded
      idle_all := fun b hb => nomatch hb
      idle_nodup := nodup_nil
      leased_all := fun b hb => hkept b (h.leased_all b hb) fun hidle => h.idle_leased b hidle hb
      idle_leased := fun b hb => nomatch hb
      returning_all := ?_
      idle_clean := fun b hb => nomatch hb
      shut := fun _ => rfl }
    intro b hb
    obtain ⟨hall, hidle, hleased⟩ := h.returning_all b hb
    exact ⟨hkept b hall hidle, not_mem_nil, hleased⟩

/-- The holder of a live lease uses its session. -/
theorem Inv.use (h : r.Inv maxTotal) (hlive : ℓ ∈ r.live) (hissued : r.issued[ℓ]? = some a) (op : SessionOp) :
    Inv maxTotal { r with core := r.core.setObject a ((r.core.object a).apply op) } := by
  obtain ⟨b, hb, hissued'⟩ := h.live_leased ℓ hlive
  rw [hissued, some.injEq] at hissued'
  subst hissued'
  apply h.setObject ((h.sound a).apply op) fun hidle => h.idle_leased a hidle hb
  intro hpark
  exact (h.returning_all a (by simp [hpark])).2.2 hb

/-- Everything a step can do. -/
inductive Move (r : PoolRun) : PoolAction → PoolRun → Prop
  | refused (addr : Nat) (made : Bool) : Move r (.acquire addr made) r
  | lent (addr : Nat) (made : Bool) {a : Nat} {rest : List Nat} (hopen : r.core.closed = false)
      (hidle : r.core.idle = a :: rest) :
      Move r (.acquire addr made) { r with
        core := { r.core with idle := rest, leased := insert a r.core.leased }
        issued := r.issued ++ [a]
        live := insert r.issued.length r.live }
  | created (addr : Nat) (made : Bool) (hopen : r.core.closed = false) (hfree : addr ∉ r.core.all)
      (hroom : r.core.all.card < r.core.maxTotal) :
      Move r (.acquire addr made) { r with
        core := { r.core.setObject addr (.fresh true) with
          all := insert addr r.core.all
          leased := insert addr r.core.leased }
        issued := r.issued ++ [addr]
        live := insert r.issued.length r.live }
  | ignored {lease a : Nat} (hissued : r.issued[lease]? = some a) (hleased : a ∉ r.core.leased) :
      Move r (.put lease) { r with live := r.live.erase lease }
  | takenBack {lease a : Nat} (hissued : r.issued[lease]? = some a) (hleased : a ∈ r.core.leased) :
      Move r (.put lease) { r with
        core := { r.core with leased := r.core.leased.erase a }
        live := r.live.erase lease
        returning := update r.returning a (some .toClose) }
  | closed {a : Nat} (ret : WtCode) (ha : r.returning a = some .toClose) :
      Move r (.closeSession a ret) { r with
        core := r.core.closeSession a ret
        returning := update r.returning a (some .toPark) }
  | parked {a : Nat} (ret : WtCode) (ha : r.returning a = some .toPark) :
      Move r (.park a ret) { r with
        core := r.core.park a ret
        returning := update r.returning a none }
  | shut : Move r .shutdown { r with core := r.core.shutdown }
  | used {lease a : Nat} (op : SessionOp) (hissued : r.issued[lease]? = some a)
      (hlive : lease ∈ r.live) :
      Move r (.use lease op) { r with core := r.core.setObject a ((r.core.object a).apply op) }

variable {action : PoolAction} {r' : PoolRun}

lemma step_moves (hstep : r.step action = some r') : Move r action r' := by
  cases action with
  | acquire addr made =>
    simp only [step] at hstep
    split at hstep
    · exact nomatch hstep
    · rename_i hfree
      rcases r.core.acquire_cases addr made with hnone | ⟨hopen, a, rest, hidle, hsome⟩ | ⟨hopen, -, hroom, hsome⟩
      · rw [hnone] at hstep
        obtain rfl := some.inj hstep
        exact .refused addr made
      · rw [hsome] at hstep
        obtain rfl := some.inj hstep
        exact .lent addr made hopen hidle
      · rw [hsome] at hstep
        obtain rfl := some.inj hstep
        exact .created addr made hopen hfree hroom
  | put lease =>
    cases hissued : r.issued[lease]? with
    | none => simp [step, hissued] at hstep
    | some a =>
      by_cases hleased : a ∈ r.core.leased
      · simp only [step, hissued, SessionPoolCore.takeBack, hleased, if_true] at hstep
        obtain rfl := some.inj hstep
        exact .takenBack hissued hleased
      · simp only [step, hissued, SessionPoolCore.takeBack, hleased, if_false] at hstep
        obtain rfl := some.inj hstep
        exact .ignored hissued hleased
  | closeSession a ret =>
    simp only [step] at hstep
    split at hstep <;> cases hstep
    rename_i ha
    exact .closed ret ha
  | park a ret =>
    simp only [step] at hstep
    split at hstep <;> cases hstep
    rename_i ha
    exact .parked ret ha
  | shutdown =>
    obtain rfl := some.inj hstep
    exact .shut
  | use lease op =>
    cases hissued : r.issued[lease]? with
    | none => simp [step, hissued] at hstep
    | some a =>
      by_cases hlive : lease ∈ r.live
      · simp only [step, hissued, hlive, if_true] at hstep
        obtain rfl := some.inj hstep
        exact .used op hissued hlive
      · simp [step, hissued, hlive] at hstep

/-- The invariant is kept by every step that meets the guard. -/
theorem Inv.step (h : r.Inv maxTotal)
    (hguard : r.PutGuard action) (hstep : r.step action = some r') : r'.Inv maxTotal := by
  cases step_moves hstep with
  | refused addr made => exact h
  | lent addr made hopen hidle => exact h.acquireIdle hidle
  | created addr made hopen hfree hroom => exact h.acquireNew hfree hroom
  | ignored hissued hleased => exact h.putIgnored _
  | takenBack hissued hleased =>
    -- The guard excludes the put of a lease that is over.
    have hlive := hguard.resolve_right fun hfree => hfree _ hissued hleased
    exact h.putLive hlive hissued
  | closed ret ha => exact h.closeSession ha ret
  | parked ret ha => exact h.park ha ret
  | shut => exact h.shutdown
  | used op hissued hlive => exact h.use hlive hissued op

lemma inv_of_reaches (h : Reaches step PutGuard (initial maxTotal) r) : r.Inv maxTotal :=
  h.invariant _ (inv_initial maxTotal) fun _ _ _ hinv hguard hstep => hinv.step hguard hstep

/-! ### Safety -/

/-- What a pool promises in a state: a session has at most one live lease, an idle session
is not lent out, there are not more sessions than allowed, a session is clean when it is
handed out, a poisoned one stays so until it is destroyed, and after the shutdown no
lease is issued any more. -/
structure PoolSafe (maxTotal : Nat) (r : PoolRun) : Prop where
  oneLease : ∀ a, ∀ ℓ ∈ r.live, ∀ ℓ' ∈ r.live,
    r.issued[ℓ]? = some a → r.issued[ℓ']? = some a → ℓ = ℓ'
  apart : ∀ a ∈ r.core.idle, a ∉ r.core.leased ∧ ∀ ℓ ∈ r.live, r.issued[ℓ]? ≠ some a
  bounded : r.core.all.card ≤ maxTotal
  handedOut : ∀ addr made a core, r.core.acquire addr made = (some a, core) →
    (core.object a).Clean
  poisonStays : ∀ action r', r.step action = some r' → ∀ a ∈ r.core.all,
    (r.core.object a).poisoned → (r'.core.object a).poisoned
  afterShutdown : r.core.closed = true → ∀ r', Reaches step (fun _ _ => True) r r' →
    r'.issued = r.issued

lemma Inv.clean_acquire (h : r.Inv maxTotal) {addr : Nat} {made : Bool} {core : SessionPoolCore}
    (hacquire : r.core.acquire addr made = (some a, core)) : (core.object a).Clean := by
  rcases r.core.acquire_cases addr made with hnone | ⟨-, b, rest, hidle, hsome⟩ | ⟨-, -, -, hsome⟩
  · rw [hnone] at hacquire
    exact nomatch hacquire
  · rw [hsome, Prod.mk.injEq, some.injEq] at hacquire
    obtain ⟨rfl, rfl⟩ := hacquire
    exact h.idle_clean b (hidle ▸ mem_cons_self)
  · rw [hsome, Prod.mk.injEq, some.injEq] at hacquire
    obtain ⟨rfl, rfl⟩ := hacquire
    simpa [SessionPoolCore.setObject] using clean_fresh

/-- Where the session at an address changes, poison stays if the change keeps it. -/
theorem poisoned_setObject {c : SessionPoolCore} {b : Nat} {s : SessionObject}
    (hpoisoned : (c.object b).poisoned) (hkeeps : b = a → s.poisoned) :
    ((c.setObject a s).object b).poisoned := by
  by_cases hb : b = a
  · subst hb
    simpa [SessionPoolCore.setObject] using hkeeps rfl
  · simpa [SessionPoolCore.setObject, hb] using hpoisoned

lemma Inv.poisoned_step (h : r.Inv maxTotal) (hstep : r.step action = some r') {b : Nat} (hb : b ∈ r.core.all)
    (hpoisoned : (r.core.object b).poisoned) : (r'.core.object b).poisoned := by
  have happly : ∀ a op, b = a → ((r.core.object a).apply op).poisoned := by
    rintro a op rfl
    have hdetached : (r.core.object b).DetachedIdle := fun h' => absurd h' (by simp [(h.sound b).attached])
    exact ((r.core.object b).apply_moves hdetached op).failed hpoisoned
  cases step_moves hstep with
  | refused addr made => exact hpoisoned
  | lent addr made hopen hidle => exact hpoisoned
  | created addr made hopen hfree hroom =>
    exact poisoned_setObject hpoisoned fun heq => absurd (heq ▸ hb) hfree
  | ignored hissued hleased => exact hpoisoned
  | takenBack hissued hleased => exact hpoisoned
  | closed ret ha => exact poisoned_setObject hpoisoned (happly _ (.close ret))
  | @parked a ret ha =>
    show ((r.core.park a ret).object b).poisoned
    unfold SessionPoolCore.park
    split
    · exact hpoisoned
    · exact poisoned_setObject hpoisoned (happly a (.reset ret))
  | shut =>
    show (r.core.shutdown.object b).poisoned
    unfold SessionPoolCore.shutdown
    split <;> exact hpoisoned
  | used op hissued hlive => exact poisoned_setObject hpoisoned (happly _ op)

/-- A pool that is shut stays shut and issues no lease. -/
theorem step_of_closed (hclosed : r.core.closed = true)
    (hstep : r.step action = some r') : r'.core.closed = true ∧ r'.issued = r.issued := by
  cases step_moves hstep with
  | refused addr made => exact ⟨hclosed, rfl⟩
  | lent addr made hopen => simp [hclosed] at hopen
  | created addr made hopen => simp [hclosed] at hopen
  | ignored hissued hleased => exact ⟨hclosed, rfl⟩
  | takenBack hissued hleased => exact ⟨hclosed, rfl⟩
  | closed ret ha => exact ⟨hclosed, rfl⟩
  | @parked a ret ha =>
    refine ⟨?_, rfl⟩
    show (r.core.park a ret).closed = true
    unfold SessionPoolCore.park
    split <;> exact hclosed
  | shut =>
    refine ⟨?_, rfl⟩
    show r.core.shutdown.closed = true
    simp [SessionPoolCore.shutdown, hclosed]
  | used op hissued hlive => exact ⟨hclosed, rfl⟩

lemma Inv.safe (h : r.Inv maxTotal) : PoolSafe maxTotal r where
  oneLease := fun a ℓ hℓ ℓ' hℓ' hissued hissued' =>
    h.live_unique ℓ hℓ ℓ' hℓ' (hissued.trans hissued'.symm)
  apart := by
    intro a ha
    refine ⟨h.idle_leased a ha, fun ℓ hℓ hissued => ?_⟩
    obtain ⟨b, hb, hissued'⟩ := h.live_leased ℓ hℓ
    rw [hissued, some.injEq] at hissued'
    exact h.idle_leased a ha (hissued' ▸ hb)
  bounded := h.bounded
  handedOut := fun addr made a core hacquire => h.clean_acquire hacquire
  poisonStays := fun action r' hstep a ha hpoisoned => h.poisoned_step hstep ha hpoisoned
  afterShutdown := by
    intro hclosed r' hlater
    have hboth : r'.core.closed = true ∧ r'.issued = r.issued := by
      apply hlater.invariant fun r' => r'.core.closed = true ∧ r'.issued = r.issued
      · exact ⟨hclosed, rfl⟩
      · rintro s action s' ⟨hclosed, hissued⟩ - hstep
        obtain ⟨hclosed', hissued'⟩ := step_of_closed hclosed hstep
        exact ⟨hclosed', hissued'.trans hissued⟩
    exact hboth.2

/-- Every interleaving in which a lease that was put before is put again only while its
session is not lent out leaves the pool safe. -/
theorem sessionPool_safe (maxTotal : Nat) (r : PoolRun)
    (h : Reaches step PutGuard (initial maxTotal) r) : PoolSafe maxTotal r :=
  (inv_of_reaches h).safe

instance (r : PoolRun) (action : PoolAction) : Decidable (r.PutGuard action) :=
  match action with
  | .put lease =>
    match h : r.issued[lease]? with
    | none => isTrue (.inr fun a ha => by simp [h] at ha)
    | some a => decidable_of_iff (lease ∈ r.live ∨ a ∉ r.core.leased) (by simp [PutGuard, h])
  | .acquire .. | .closeSession .. | .park .. | .shutdown | .use .. => isTrue trivial

/-- A writer gives its session back twice, and the session is lent out again. -/
def reusedSession : List PoolAction :=
  [.acquire 7 true, .use 0 (.begin .Write .ok), .put 0, .closeSession 7 .ok, .park 7 .ok, .put 0,
    .acquire 8 true]

theorem sessionPool_safe_reusedSession :
    ∃ r, Reaches step PutGuard (initial 1) r ∧ r.issued = [7, 7] ∧ r.live = {1} ∧ PoolSafe 1 r := by
  obtain ⟨r, hrun, hissued, hlive⟩ : ∃ r, runGuarded step PutGuard (initial 1) reusedSession = some r ∧
        r.issued = [7, 7] ∧ r.live = {1} :=
    ⟨_, rfl, rfl, rfl⟩
  have hreaches := reaches_of_runGuarded reusedSession hrun
  exact ⟨r, hreaches, hissued, hlive, sessionPool_safe 1 r hreaches⟩

/-- The first lease is put again after its session went to a second holder: the session is
taken back from under the second holder and lent to a third. -/
def latePut : List PoolAction :=
  [.acquire 7 true, .put 0, .closeSession 7 .ok, .park 7 .ok, .acquire 8 true,
    .put 0, .closeSession 7 .ok, .park 7 .ok, .acquire 8 true]

theorem latePut_lends_twice : ¬ ∀ r, Reaches step (fun _ _ => True) (initial 1) r → PoolSafe 1 r := by
  intro h
  obtain ⟨r, hrun, hissued, hlive⟩ : ∃ r,
      runGuarded step (fun _ _ => True) (initial 1) latePut = some r ∧ r.issued = [7, 7, 7] ∧ r.live = {1, 2} :=
    ⟨_, rfl, rfl, by decide⟩
  have hsafe := h r (reaches_of_runGuarded latePut hrun)
  have hsame : 1 = 2 := hsafe.oneLease 7 1 (by simp [hlive]) 2 (by simp [hlive])
    (by simp [hissued]) (by simp [hissued])
  exact absurd hsame (by decide)

/-! ### No session is lost -/

/-- Where the sessions of a pool are.  Unlike safety this needs no guard. -/
structure Accounted (r : PoolRun) : Prop where
  placed : ∀ a ∈ r.core.all, a ∈ r.core.idle ∨ a ∈ r.core.leased ∨ r.returning a ≠ none
  leased_live : ∀ a ∈ r.core.leased, ∃ ℓ ∈ r.live, r.issued[ℓ]? = some a
  shut : r.core.closed = true → r.core.idle = []

lemma Accounted.live_issue (h : r.Accounted) (a : Nat) : ∀ b ∈ insert a r.core.leased,
    ∃ ℓ ∈ insert r.issued.length r.live, (r.issued ++ [a])[ℓ]? = some b := by
  intro b hb
  rcases mem_insert.mp hb with rfl | hb
  · exact ⟨_, mem_insert_self _ _, by simp⟩
  · obtain ⟨ℓ, hℓ, hissued⟩ := h.leased_live b hb
    have hlt : ℓ < r.issued.length := (List.getElem?_eq_some_iff.mp hissued).1
    exact ⟨ℓ, mem_insert_of_mem hℓ, (issued_append_of_lt hlt).trans hissued⟩

/-- The put of a lease leaves the leases of the other sessions alone. -/
theorem Accounted.live_put (h : r.Accounted) {lease : Nat} (hissued : r.issued[lease]? = some a) :
    ∀ b ∈ r.core.leased, b ≠ a → ∃ ℓ ∈ r.live.erase lease, r.issued[ℓ]? = some b := by
  intro b hb hne
  obtain ⟨ℓ, hℓ, hissued'⟩ := h.leased_live b hb
  refine ⟨ℓ, mem_erase.mpr ⟨?_, hℓ⟩, hissued'⟩
  rintro rfl
  exact hne (some.inj (hissued'.symm.trans hissued))

lemma returning_update (phase : ReturnPhase) {b : Nat} (hb : r.returning b ≠ none) :
    update r.returning a (some phase) b ≠ none := by
  by_cases hne : b = a
  · subst hne
    simp
  · simpa [hne] using hb

lemma Accounted.park (h : r.Accounted) (a : Nat) (ret : WtCode) : Accounted { r with
      core := r.core.park a ret
      returning := update r.returning a none } := by
  have hplaced : ∀ b ∈ r.core.all, b ≠ a →
      b ∈ r.core.idle ∨ b ∈ r.core.leased ∨ update r.returning a none b ≠ none := by
    intro b hb hne
    simpa [hne] using h.placed b hb
  unfold SessionPoolCore.park
  split
  · refine { h with placed := fun b hb => ?_ }
    obtain ⟨hne, hb⟩ := mem_erase.mp hb
    exact hplaced b hb hne
  · rename_i hkept
    refine { h with placed := fun b hb => ?_, shut := fun hclosed => absurd (.inl hclosed) hkept }
    by_cases hne : b = a
    · exact .inl (hne ▸ mem_cons_self)
    · exact (hplaced b hb hne).imp_left (mem_cons_of_mem a)

lemma Accounted.shutdown (h : r.Accounted) : Accounted { r with core := r.core.shutdown } := by
  unfold SessionPoolCore.shutdown
  split
  · exact h
  · refine { h with placed := fun b hb => ?_, shut := fun _ => rfl }
    obtain ⟨hall, hidle⟩ := mem_sdiff.mp hb
    exact .inr ((h.placed b hall).resolve_left fun hmem => hidle (mem_toFinset.mpr hmem))

lemma Accounted.step (h : r.Accounted) (hstep : r.step action = some r') : r'.Accounted := by
  cases step_moves hstep with
  | refused addr made => exact h
  | @lent addr made a rest hopen hidle =>
    refine ⟨fun b hb => ?_, h.live_issue a, fun hclosed => by simp [hopen] at hclosed⟩
    rcases h.placed b hb with hb | hb | hb
    · rcases mem_cons.mp (hidle ▸ hb) with rfl | hb
      · exact .inr (.inl (mem_insert_self _ _))
      · exact .inl hb
    · exact .inr (.inl (mem_insert_of_mem hb))
    · exact .inr (.inr hb)
  | created addr made hopen hfree hroom =>
    refine ⟨fun b hb => ?_, h.live_issue addr, h.shut⟩
    rcases mem_insert.mp hb with rfl | hb
    · exact .inr (.inl (mem_insert_self _ _))
    · exact (h.placed b hb).imp_right (Or.imp_left mem_insert_of_mem)
  | @ignored lease a hissued hleased =>
    refine { h with leased_live := fun b hb => h.live_put hissued b hb ?_ }
    rintro rfl
    exact hleased hb
  | @takenBack lease a hissued hleased =>
    refine { h with placed := fun b hb => ?_, leased_live := fun b hb => ?_ }
    · by_cases hne : b = a
      · exact .inr (.inr (by simp [hne]))
      · rcases h.placed b hb with hb | hb | hb
        · exact .inl hb
        · exact .inr (.inl (mem_erase.mpr ⟨hne, hb⟩))
        · exact .inr (.inr (returning_update _ hb))
    · obtain ⟨hne, hb⟩ := mem_erase.mp hb
      exact h.live_put hissued b hb hne
  | closed ret ha =>
    exact { h with placed := fun b hb => (h.placed b hb).imp_right (Or.imp_right (returning_update _)) }
  | parked ret ha => exact h.park _ ret
  | shut => exact h.shutdown
  | used op hissued hlive => exact { h with }

/-- In every interleaving, with leases put again at any time, a session of the pool is
idle, lent to a live lease, or on its way back.  So when no lease is live and no `put` is
under way, every session is idle, and a pool that is shut has none left. -/
theorem sessions_accounted (maxTotal : Nat) (r : PoolRun)
    (h : Reaches step (fun _ _ => True) (initial maxTotal) r) :
    (∀ a ∈ r.core.all, a ∈ r.core.idle ∨ (∃ ℓ ∈ r.live, r.issued[ℓ]? = some a) ∨ r.returning a ≠ none) ∧
    (r.live = ∅ → (∀ a, r.returning a = none) →
      (∀ a ∈ r.core.all, a ∈ r.core.idle) ∧ (r.core.closed = true → r.core.all = ∅)) := by
  have hstart : (initial maxTotal).Accounted :=
    ⟨fun _ h => absurd h (notMem_empty _), fun _ h => absurd h (notMem_empty _), fun _ => rfl⟩
  have hinv : r.Accounted := h.invariant _ hstart fun _ _ _ hinv _ hstep => hinv.step hstep
  have hplaced := fun a ha => (hinv.placed a ha).imp_right (Or.imp_left (hinv.leased_live a))
  refine ⟨hplaced, fun hlive hreturning => ?_⟩
  have hidle : ∀ a ∈ r.core.all, a ∈ r.core.idle := by
    intro a ha
    simpa [hlive, hreturning] using hplaced a ha
  refine ⟨hidle, fun hclosed => eq_empty_of_forall_notMem fun a ha => ?_⟩
  exact not_mem_nil (hinv.shut hclosed ▸ hidle a ha)

/-- A lease is put twice around the shutdown. -/
def putAroundShutdown : List PoolAction :=
  [.acquire 7 true, .shutdown, .put 0, .closeSession 7 .ok, .park 7 .ok, .put 0]

theorem sessions_accounted_putAroundShutdown :
    ∃ r, Reaches step (fun _ _ => True) (initial 1) r ∧ r.issued = [7] ∧ r.core.all = ∅ := by
  obtain ⟨r, hrun, hissued, hlive, hclosed, hreturning⟩ : ∃ r,
      runGuarded step (fun _ _ => True) (initial 1) putAroundShutdown = some r ∧ r.issued = [7] ∧
        r.live = ∅ ∧ r.core.closed = true ∧ ∀ a, r.returning a = none :=
    ⟨_, rfl, rfl, rfl, rfl, fun a => by simp [initial, update_apply]⟩
  have hreaches := reaches_of_runGuarded putAroundShutdown hrun
  exact ⟨r, hreaches, hissued, ((sessions_accounted 1 r hreaches).2 hlive hreturning).2 hclosed⟩

end PoolRun

end Eugraph
