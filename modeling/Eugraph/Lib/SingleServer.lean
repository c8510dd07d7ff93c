import Mathlib.Tactic

/-!
# A single server with a queue

Messages arrive, wait in a queue, and are served one at a time in the order they came;
a reply may be sent for the message served last; once closed, the server starts nothing
more.  `Server.next` is the machine and `replay` runs a trace of actions through it.

A trace the machine accepts has the properties one expects of such a server: starts follow
arrivals, nothing is skipped, at most one message is being served, replies keep the order,
and no start comes after the close.
-/

namespace Eugraph.Lib

/-- What happens at the server, with messages in `α` and replies in `β`. -/
inductive ServerAction (α β : Type)
  | arrive (m : α)
  | start (m : α)
  | finish (m : α)
  | reply (m : α) (r : β)
  | close
  deriving DecidableEq

/-- The queue, the message being served, and the one a reply may still be sent for. -/
structure Server (α : Type) where
  queue : List α := []
  current : Option α := none
  owed : Option α := none
  closed : Bool := false
  deriving DecidableEq

namespace ServerAction

variable {α β : Type}

def arrived : ServerAction α β → Option α
  | arrive m => some m
  | _ => none

def started : ServerAction α β → Option α
  | start m => some m
  | _ => none

def finished : ServerAction α β → Option α
  | finish m => some m
  | _ => none

def answered : ServerAction α β → Option α
  | reply m _ => some m
  | _ => none

end ServerAction

namespace Server

open ServerAction Option List

section Traces

variable {α β : Type} (t : List (ServerAction α β)) (a : ServerAction α β)

def arrivals : List α := t.filterMap arrived
def starts : List α := t.filterMap started
def finishes : List α := t.filterMap finished

/-- The messages replied to, in the order of the replies. -/
def replied : List α := t.filterMap answered

lemma filterMap_concat {γ : Type} (f : ServerAction α β → Option γ) :
    (t ++ [a]).filterMap f = t.filterMap f ++ (f a).toList := by
  rw [filterMap_append]
  cases h : f a <;> simp [h]

lemma arrivals_concat : arrivals (t ++ [a]) = arrivals t ++ (arrived a).toList := filterMap_concat t a arrived

lemma starts_concat : starts (t ++ [a]) = starts t ++ (started a).toList := filterMap_concat t a started

lemma finishes_concat : finishes (t ++ [a]) = finishes t ++ (finished a).toList := filterMap_concat t a finished

lemma replied_concat : replied (t ++ [a]) = replied t ++ (answered a).toList := filterMap_concat t a answered

end Traces

variable {α β : Type} [DecidableEq α]

/-- One action; `none` where the machine does not allow it. -/
def next (s : Server α) : ServerAction α β → Option (Server α)
  | .arrive m => if s.closed then none else some { s with queue := s.queue ++ [m] }
  | .start m =>
    match s.queue with
    | [] => none
    | first :: rest =>
      if first = m ∧ s.current = none ∧ s.closed = false then
        some { s with queue := rest, current := some m, owed := none }
      else none
  | .finish m =>
    if s.current = some m then some { s with current := none, owed := some m } else none
  | .reply m _ =>
    if s.owed = some m ∧ s.closed = false then some { s with owed := none } else none
  | .close => if s.closed then none else some { s with closed := true }

/-- The machine after a trace. -/
def replay (s : Server α) : List (ServerAction α β) → Option (Server α)
  | [] => some s
  | a :: rest =>
    match s.next a with
    | none => none
    | some s' => replay s' rest

lemma replay_append (s : Server α) (t u : List (ServerAction α β)) :
    s.replay (t ++ u) = (s.replay t).bind fun s' => s'.replay u := by
  induction t generalizing s with
  | nil => rfl
  | cons a t ih =>
    rw [cons_append, replay, replay]
    cases s.next a with
    | none => rfl
    | some s' => exact ih s'

variable {s : Server α} {t : List (ServerAction α β)}

/-- An accepted trace followed by one more accepted action. -/
theorem replay_concat {s' s'' : Server α}
    {a : ServerAction α β} (h : s.replay t = some s') (ha : s'.next a = some s'') :
    s.replay (t ++ [a]) = some s'' := by
  rw [replay_append, h, bind_some, replay, ha]
  rfl

/-! ### The books of a trace -/

/-- The bookkeeping of the machine against the trace that led to it. -/
structure Books (s : Server α) (t : List (ServerAction α β)) : Prop where
  arrivals : arrivals t = starts t ++ s.queue
  starts : starts t = finishes t ++ s.current.toList
  replies : (replied t ++ s.owed.toList).Sublist (finishes t)

omit [DecidableEq α] in
/-- Replies that are still owed aside, the replies follow the finished messages. -/
theorem Books.replied_sublist (h : Books s t) : (replied t).Sublist (finishes t) :=
  (sublist_append_left _ _).trans h.replies

lemma Books.next {s' : Server α} {a : ServerAction α β}
    (h : Books s t) (ha : s.next a = some s') : Books s' (t ++ [a]) := by
  have honly := h.replied_sublist
  cases a with
  | arrive m =>
    rw [Server.next] at ha
    split at ha <;> cases ha
    constructor
    · simp [arrivals_concat, starts_concat, arrived, started, h.arrivals]
    · simp [starts_concat, finishes_concat, started, finished, h.starts]
    · simpa [replied_concat, finishes_concat, answered, finished] using h.replies
  | start m =>
    rw [Server.next] at ha
    cases hqueue : s.queue with
    | nil =>
      rw [hqueue] at ha
      exact (nomatch ha)
    | cons first rest =>
      rw [hqueue] at ha
      dsimp only at ha
      split at ha <;> cases ha
      rename_i hcond
      obtain ⟨rfl, hcurrent, _⟩ := hcond
      constructor
      · simp [arrivals_concat, starts_concat, arrived, started, h.arrivals, hqueue]
      · simp [starts_concat, finishes_concat, started, finished, h.starts, hcurrent]
      · simpa [replied_concat, finishes_concat, answered, finished] using honly
  | finish m =>
    rw [Server.next] at ha
    split at ha <;> cases ha
    rename_i hcurrent
    constructor
    · simp [arrivals_concat, starts_concat, arrived, started, h.arrivals]
    · simp [starts_concat, finishes_concat, started, finished, h.starts, hcurrent]
    · simpa [replied_concat, finishes_concat, answered, finished] using honly
  | reply m r =>
    rw [Server.next] at ha
    split at ha <;> cases ha
    rename_i hcond
    have hreplies := h.replies
    rw [hcond.1] at hreplies
    constructor
    · simp [arrivals_concat, starts_concat, arrived, started, h.arrivals]
    · simp [starts_concat, finishes_concat, started, finished, h.starts]
    · simpa [replied_concat, finishes_concat, answered, finished] using hreplies
  | close =>
    rw [Server.next] at ha
    split at ha <;> cases ha
    constructor
    · simp [arrivals_concat, starts_concat, arrived, started, h.arrivals]
    · simp [starts_concat, finishes_concat, started, finished, h.starts]
    · simpa [replied_concat, finishes_concat, answered, finished] using h.replies

lemma books_replay (h : ({} : Server α).replay t = some s) : Books s t := by
  induction t using reverseRecOn generalizing s with
  | nil =>
    obtain rfl := some.inj h
    exact ⟨rfl, rfl, List.Sublist.refl _⟩
  | append_singleton t a ih =>
    rw [replay_append] at h
    cases hbefore : ({} : Server α).replay t with
    | none =>
      rw [hbefore] at h
      exact (nomatch h)
    | some before =>
      rw [hbefore, bind_some, replay] at h
      cases hnext : before.next a with
      | none =>
        rw [hnext] at h
        exact (nomatch h)
      | some after =>
        rw [hnext] at h
        obtain rfl := some.inj h
        exact (ih hbefore).next hnext

/-! ### Accepted traces -/

section Accepted

variable {t : List (ServerAction α β)}

/-- Some machine state follows the trace. -/
def Accepted (t : List (ServerAction α β)) : Prop := (({} : Server α).replay t).isSome

lemma Accepted.isPrefix {p : List (ServerAction α β)} (h : Accepted t) (hp : p <+: t) : Accepted p := by
  obtain ⟨u, rfl⟩ := hp
  rw [Accepted, replay_append] at h
  rw [Accepted]
  cases hreplay : ({} : Server α).replay p with
  | none =>
    rw [hreplay] at h
    exact h
  | some s => rfl

lemma Accepted.books (h : Accepted t) : ∃ s : Server α, Books s t := by
  obtain ⟨s, hs⟩ := isSome_iff_exists.mp h
  exact ⟨s, books_replay hs⟩

/-- Messages are started in the order of arrival, none skipped and none twice. -/
theorem Accepted.starts_prefix (h : Accepted t) : starts t <+: arrivals t := by
  obtain ⟨s, hbooks⟩ := h.books
  exact ⟨s.queue, hbooks.arrivals.symm⟩

/-- At every moment at most one started message is unfinished, and messages finish in the
order they were started. -/
theorem Accepted.one_at_a_time (h : Accepted t) :
    finishes t <+: starts t ∧ (starts t).length ≤ (finishes t).length + 1 := by
  obtain ⟨s, hbooks⟩ := h.books
  refine ⟨⟨s.current.toList, hbooks.starts.symm⟩, ?_⟩
  rw [hbooks.starts, length_append]
  cases s.current <;> simp

lemma Accepted.replies_in_order (h : Accepted t) : (replied t).Sublist (finishes t) := by
  obtain ⟨s, hbooks⟩ := h.books
  exact hbooks.replied_sublist

/-- A closed machine stays closed and starts nothing. -/
theorem starts_of_closed {s s' : Server α} (hclosed : s.closed = true)
    (h : s.replay t = some s') : starts t = [] := by
  induction t generalizing s with
  | nil => rfl
  | cons a t ih =>
    rw [replay] at h
    cases hnext : s.next a with
    | none =>
      rw [hnext] at h
      exact (nomatch h)
    | some s₁ =>
      rw [hnext] at h
      cases a with
      | arrive m | close => simp [Server.next, hclosed] at hnext
      | start m =>
        rw [Server.next] at hnext
        cases hqueue : s.queue <;> simp [hqueue, hclosed] at hnext
      | finish m =>
        have hclosed₁ : s₁.closed = true := by
          rw [Server.next] at hnext
          split at hnext <;> cases hnext
          exact hclosed
        exact ih hclosed₁ h
      | reply m r => simp [Server.next, hclosed] at hnext

lemma Accepted.no_start_after_close {u : List (ServerAction α β)}
    (h : Accepted (t ++ .close :: u)) : starts u = [] := by
  obtain ⟨s, hs⟩ := isSome_iff_exists.mp h
  rw [replay_append] at hs
  cases hbefore : ({} : Server α).replay t with
  | none =>
    rw [hbefore] at hs
    exact (nomatch hs)
  | some before =>
    rw [hbefore, bind_some, replay] at hs
    cases hnext : before.next (.close : ServerAction α β) with
    | none =>
      rw [hnext] at hs
      exact (nomatch hs)
    | some after =>
      rw [hnext] at hs
      have hclosed : after.closed = true := by
        rw [Server.next] at hnext
        split at hnext <;> cases hnext
        rfl
      exact starts_of_closed hclosed hs

end Accepted

end Server

end Eugraph.Lib
