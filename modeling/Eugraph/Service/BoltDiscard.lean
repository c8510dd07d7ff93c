import Eugraph.Service.BoltPull

/-!
# DISCARD against PULL

A statement does its writes while its result is produced: each step of the generator may
write, in the transaction of the statement's own or in the explicit one.  `Ledger` keeps
the books of these writes along the calls a session makes, and DISCARD is compared with
PULL of everything from any position of any stream.

DISCARD drops the generator where it stands and rolls the statement's own transaction
back.  It therefore has the effect of PULL only if there was nothing to lose.
-/

namespace Eugraph.Service

open Lib Lib.Handler BoltSession List

variable {V D W : Type}

/-! ### The books -/

/-- The writes of a session by where they stand: committed, in the transaction of the
running statement's own, in the explicit transaction, and still to be done by the coming
steps of the generator. -/
structure Ledger (W : Type) where
  committed : List W := []
  statement : List W := []
  transaction : List W := []
  work : List (List W) := []

namespace Ledger

/-- A step of the generator: its writes go to the statement's own transaction, if it has
one. -/
def next (own : Bool) (L : Ledger W) : Ledger W :=
  if own then { L with statement := L.statement ++ L.work.headD [], work := L.work.tail }
  else { L with transaction := L.transaction ++ L.work.headD [], work := L.work.tail }

/-- The end of the statement's own transaction. -/
def endStatement (L : Ledger W) (committed : Bool) : Ledger W :=
  { L with
    committed := if committed then L.committed ++ L.statement else L.committed
    statement := [] }

/-- The end of the explicit transaction. -/
def endTransaction (L : Ledger W) (committed : Bool) : Ledger W :=
  { L with
    committed := if committed then L.committed ++ L.transaction else L.committed
    transaction := [] }

/-- What a call does to the writes. -/
def record (own : Bool) (L : Ledger W) : BoltEvent V D → Ledger W
  | ⟨.next, _⟩ => L.next own
  | ⟨.commitAsync, (r : Except StdException Bool)⟩ => L.endStatement (r.toOption == some true)
  | ⟨.rollbackStream, _⟩ => L.endStatement false
  | ⟨.commitSession _, (r : Except StdException Bool)⟩ =>
    L.endTransaction (r.toOption == some true)
  | ⟨.rollbackSession _, _⟩ => L.endTransaction false
  | _ => L

/-- The books after a transcript. -/
def after (own : Bool) (L : Ledger W) (es : List (BoltEvent V D)) : Ledger W :=
  es.foldl (record own) L

lemma after_append (own : Bool) (L : Ledger W) (es es' : List (BoltEvent V D)) :
    L.after own (es ++ es') = (L.after own es).after own es' :=
  foldl_append

/-- The books after `k` steps of the generator. -/
def nextN (own : Bool) (L : Ledger W) (k : Nat) : Ledger W :=
  if own then
    { L with statement := L.statement ++ (L.work.take k).flatten, work := L.work.drop k }
  else { L with transaction := L.transaction ++ (L.work.take k).flatten, work := L.work.drop k }

lemma nextN_zero (own : Bool) (L : Ledger W) : L.nextN own 0 = L := by
  cases own <;> simp [nextN]

lemma next_nextN (own : Bool) (L : Ledger W) (k : Nat) : (L.next own).nextN own k = L.nextN own (k + 1) := by
  cases own <;> cases hwork : L.work <;> simp [next, nextN, hwork]

/-- Reading steps the generator and does nothing else. -/
theorem after_reads (own : Bool) {es : List (BoltEvent V D)} (hreads : Reads es) (L : Ledger W) :
    L.after own es = L.nextN own (nexts es) := by
  induction es generalizing L with
  | nil => exact (nextN_zero own L).symm
  | cons e es ih =>
    have hrest : Reads es := fun e' he' => hreads e' (mem_cons_of_mem e he')
    have hstep : L.after own (e :: es) = (L.record own e).after own es := rfl
    obtain ⟨call, answer⟩ := e
    rcases hreads ⟨call, answer⟩ mem_cons_self with hcall | hcall | hcall
    · obtain rfl : call = .next := hcall
      rw [hstep, ih hrest]
      have hcount : nexts (⟨.next, answer⟩ :: es : List (BoltEvent V D)) = nexts es + 1 :=
        countP_cons_of_pos rfl
      rw [hcount, ← next_nextN]
      rfl
    · obtain rfl : call = .streamCancelled := hcall
      have hcount : nexts (⟨.streamCancelled, answer⟩ :: es : List (BoltEvent V D)) = nexts es :=
        countP_cons_of_neg Bool.false_ne_true
      rw [hstep, ih hrest, hcount]
      rfl
    · obtain rfl : call = .elapsedMs := hcall
      have hcount : nexts (⟨.elapsedMs, answer⟩ :: es : List (BoltEvent V D)) = nexts es :=
        countP_cons_of_neg Bool.false_ne_true
      rw [hstep, ih hrest, hcount]
      rfl

lemma after_concludes (own : Bool) {es : List (BoltEvent V D)} (h : Concludes es) (L : Ledger W) :
    L.after own es = L := by
  induction es generalizing L with
  | nil => rfl
  | cons e es ih =>
    have hrest : Concludes es := fun e' he' => h e' (mem_cons_of_mem e he')
    obtain ⟨call, answer⟩ := e
    rcases h ⟨call, answer⟩ mem_cons_self with hcall | hcall
    · obtain rfl : call = .finalizeProfile := hcall
      exact ih hrest L
    · obtain rfl : call = .nextBookmark := hcall
      exact ih hrest L

end Ledger

/-! ### The two requests -/

variable {vm : ValueMapping V D} {s : BoltSession V D} {ctx : StreamContext V}

def BoltAction.IsDiscard (a : BoltAction V D) : Prop := decodeMessage a.req = .ok .discard

/-- The calls of a DISCARD: an unfinished statement that would have committed is rolled
back. -/
def discardEvents (ctx : StreamContext V) : List (BoltEvent V D) :=
  if ctx.session = true ∧ ctx.shouldCommit = true then [⟨.rollbackStream, ()⟩] else []

lemma rollbackUnfinished_yields {ok : (c : EnvCall V) → Answer V D c → Prop} (t : BoltSession V D) :
    Yields ok (rollbackUnfinished (some ctx)) t fun r t' es =>
      r = .ok () ∧ t' = t ∧ es = discardEvents ctx := by
  rw [rollbackUnfinished, discardEvents, yields_ite]
  constructor
  · intro hboth
    rw [if_pos hboth, rollbackStream, yields_ite]
    refine ⟨fun _ => ?_, fun hnone => absurd hboth.1 hnone⟩
    rw [yields_bind, yields_env]
    intro (_ : Unit) _
    exact ⟨rfl, rfl, rfl⟩
  · intro hnot
    rw [if_neg hnot]
    exact ⟨rfl, rfl, rfl⟩

lemma handleDiscard_yields {ok : (c : EnvCall V) → Answer V D c → Prop}
    (hctx : s.streamCtx = some ctx) (hstate : s.state ≠ .FAILED) :
    Yields ok handleDiscard s fun r _ es =>
      ∃ replies, r = .ok replies ∧ replies = [.success []] ∧ es = discardEvents ctx := by
  rw [handleDiscard, abandonStream]
  simp only [yields_bind, yields_get, yields_ite, endStream, yields_modify, nil_append]
  refine ⟨fun hfailed => absurd hfailed hstate, fun _ => ?_⟩
  rw [hctx]
  refine (rollbackUnfinished_yields _).mono ?_
  rintro _ s' es ⟨rfl, rfl, rfl⟩
  dsimp only
  simp only [Bool.false_eq_true, yields_pure, leaveStreaming, yields_modify]
  exact ⟨fun h => h.elim, fun _ => ⟨_, rfl, rfl, by simp⟩⟩

/-- A DISCARD is answered SUCCESS. -/
theorem discard_answers (vm : ValueMapping V D) (hctx : s.streamCtx = some ctx) (hstate : s.state ≠ .FAILED)
    {a : BoltAction V D} (ha : a.IsDiscard) :
    (exchange vm s a).replies = [.success []] ∧ (exchange vm s a).events = discardEvents ctx := by
  have hyields : Yields (fun _ _ => True) (dispatch vm .discard) s fun r _ es =>
      ∃ replies, r = .ok replies ∧ replies = [.success []] ∧ es = discardEvents ctx :=
    handleDiscard_yields hctx hstate
  exact exchange_of_yields ha hyields fun _ _ => trivial

/-- A PULL of everything that nothing disturbs steps the generator to its end, and commits
an auto-commit statement. -/
theorem pull_all_events (hctx : s.streamCtx = some ctx)
    (hstate : s.state = .STREAMING ∨ s.state = .TX_STREAMING) (hfailure : ctx.failure = none)
    {a : BoltAction V D} (ha : a.IsPull (-1))
    (hcalm : ∀ e ∈ (exchange vm s a).events, Calm e.1 e.2) :
    ∃ reads after, (exchange vm s a).events = reads ++ s.commitEvents ctx ++ after ∧
      nexts reads = s.batchCount + 1 ∧ Reads reads ∧ Concludes after := by
  rcases (pull_answers hctx hstate ha).hasMore_eq with
    ⟨_, hn, _⟩ | ⟨_, _, _, hevents⟩ | ⟨_, hcause⟩
  · exact absurd hn (by decide)
  · exact hevents
  · rcases hcause with hcause | ⟨e, he, hnot⟩
    · exact absurd hfailure hcause
    · exact absurd (hcalm e he) hnot

/-- The two ledgers stand for the same effect on the graph: the same writes are committed,
and the same ones wait for the COMMIT of the explicit transaction. -/
def Ledger.SameEffect (L L' : Ledger W) : Prop :=
  L.committed = L'.committed ∧ L.transaction = L'.transaction

/-- The writes of the statement that DISCARD rolls back or never does: all of them in
auto-commit mode, those of the rest of the stream in an explicit transaction.  A statement
with a session of its own that is not to be committed has no effect either way. -/
def Ledger.atRisk (L : Ledger W) (s : BoltSession V D) (ctx : StreamContext V) : List W :=
  if s.AutoCommits ctx then L.statement ++ L.work.flatten
  else if ctx.session then []
  else L.work.flatten

/-- DISCARD commits nothing and leaves the explicit transaction alone. -/
theorem Ledger.after_discardEvents (own : Bool) (L : Ledger W) :
    (L.after own (discardEvents ctx : List (BoltEvent V D))).committed = L.committed ∧
      (L.after own (discardEvents ctx : List (BoltEvent V D))).transaction = L.transaction := by
  rw [discardEvents]
  split <;> exact ⟨rfl, rfl⟩

/-- From any position of any stream: DISCARD is answered SUCCESS, and has the effect that a
PULL of everything has if and only if no write of the statement is at risk. -/
theorem discard_same_effect_iff (vm : ValueMapping V D) (hctx : s.streamCtx = some ctx)
    (hstate : s.state = .STREAMING ∨ s.state = .TX_STREAMING) (hfailure : ctx.failure = none)
    {L : Ledger W} (hwork : L.work.length = s.batchCount + 1)
    {pull discard : BoltAction V D} (hpull : pull.IsPull (-1)) (hdiscard : discard.IsDiscard)
    (hcalm : ∀ e ∈ (exchange vm s pull).events, Calm e.1 e.2) :
    (exchange vm s discard).replies = [.success []] ∧
      ((L.after ctx.session (exchange vm s discard).events).SameEffect
          (L.after ctx.session (exchange vm s pull).events) ↔ L.atRisk s ctx = []) := by
  have hstate' : s.state ≠ .FAILED := by
    rcases hstate with hstate | hstate
    · rw [hstate]
      decide
    · rw [hstate]
      decide
  obtain ⟨hreplies, hdiscarded⟩ := discard_answers vm hctx hstate' hdiscard
  obtain ⟨reads, after, hpulled, hnexts, hreads, hafter⟩ := pull_all_events hctx hstate hfailure hpull hcalm
  refine ⟨hreplies, ?_⟩
  have htake : L.work.take (nexts reads) = L.work := by rw [hnexts, ← hwork, take_length]
  rw [hdiscarded, hpulled, Ledger.after_append, Ledger.after_append, Ledger.after_concludes _ hafter,
    Ledger.after_reads _ hreads, Ledger.SameEffect, (Ledger.after_discardEvents _ L).1,
    (Ledger.after_discardEvents _ L).2, Ledger.nextN, htake, Ledger.atRisk, commitEvents]
  by_cases hauto : s.AutoCommits ctx
  · rw [if_pos hauto, if_pos hauto, if_pos hauto.2.1]
    show L.committed = L.committed ++ (L.statement ++ L.work.flatten) ∧ L.transaction = L.transaction ↔ _
    rw [self_eq_append_right]
    exact and_iff_left rfl
  · rw [if_neg hauto, if_neg hauto]
    by_cases hsession : ctx.session = true
    · rw [if_pos hsession, if_pos hsession]
      exact ⟨fun _ => rfl, fun _ => ⟨rfl, rfl⟩⟩
    · rw [if_neg hsession, if_neg hsession]
      show L.committed = L.committed ∧ L.transaction = L.transaction ++ L.work.flatten ↔ _
      rw [self_eq_append_right]
      exact and_iff_right rfl

/-- A statement in auto-commit mode, before its only row is pulled. -/
def oneRowStreaming : BoltSession Int Unit :=
  sessionAfter integerMapping newConnection.session
    [frame Tags.HELLO [.dict []], frame Tags.RUN [.string "CREATE (n) RETURN 1", .dict [], .dict []]]

def discardRest : BoltAction Int Unit := frame Tags.DISCARD []

/-- A statement that writes nothing. -/
theorem discard_same_effect_readOnly :
    (exchange integerMapping oneRowStreaming discardRest).replies = [.success []] ∧
      (({ work := [[], []] } : Ledger String).after true
          (exchange integerMapping oneRowStreaming discardRest).events).SameEffect
        (({ work := [[], []] } : Ledger String).after true
          (exchange integerMapping oneRowStreaming (pullRows (-1))).events) := by
  have hctx : oneRowStreaming.streamCtx = some ⟨["n"], [⟨[[1]]⟩], none, true, true, false⟩ := rfl
  have hwork : ({ work := [[], []] } : Ledger String).work.length = oneRowStreaming.batchCount + 1 := rfl
  have hpull : (pullRows (-1)).IsPull (-1) := rfl
  have hdiscard : discardRest.IsDiscard := rfl
  have hevents : (exchange integerMapping oneRowStreaming (pullRows (-1))).events =
      [⟨.streamCancelled, false⟩, ⟨.next, ()⟩, ⟨.streamCancelled, false⟩, ⟨.next, ()⟩,
        ⟨.elapsedMs, (0 : Int)⟩, ⟨.elapsedMs, (0 : Int)⟩, ⟨.streamCancelled, false⟩,
        ⟨.commitAsync, (.ok true : Except StdException Bool)⟩, ⟨.nextBookmark, (8 : Nat)⟩] := rfl
  have hcalm : ∀ e ∈ (exchange integerMapping oneRowStreaming (pullRows (-1))).events, Calm e.1 e.2 := by
    rw [hevents]
    simp [Calm]
  have h := discard_same_effect_iff integerMapping hctx (Or.inl rfl) rfl hwork hpull hdiscard hcalm
  exact ⟨h.1, h.2.mpr rfl⟩

/-- A statement whose first step creates a node: PULL commits it, DISCARD is answered
SUCCESS and rolls it back. -/
theorem discard_loses_write : (exchange integerMapping oneRowStreaming discardRest).replies = [.success []] ∧
      (({ work := [["create"], []] } : Ledger String).after true
        (exchange integerMapping oneRowStreaming discardRest).events).committed = [] ∧
      (({ work := [["create"], []] } : Ledger String).after true
        (exchange integerMapping oneRowStreaming (pullRows (-1))).events).committed = ["create"] :=
  ⟨rfl, rfl, rfl⟩

end Eugraph.Service
