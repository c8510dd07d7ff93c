import Eugraph.Lib.Transcript
import Eugraph.Service.BoltRuns

/-!
# Pulling a result stream

What PULL does to the rows of a stream, over any sequence of requests and any division of
the rows into batches.  `unread` is what the client has not been sent; one PULL sends its
first rows, or all of them when it asks for more than there are, and only then does it end
the stream and commit.
-/

namespace Eugraph.Service

open Lib Lib.Handler List Option Or

variable {V D : Type}

/-- A call of the session to its environment, with the answer. -/
abbrev BoltEvent (V D : Type) := Program.Event (EnvCall V) (Answer V D)

namespace BoltSession

/-! ### Rows that are left -/

/-- The rows of the chunk that the last PULL left over. -/
def pendingRows (s : BoltSession V D) : List (List V) :=
  match s.pendingChunk with
  | some chunk => chunk.rows.drop s.pendingRow
  | none => []

/-- The rows of the batches that are still to come. -/
def batchRows (s : BoltSession V D) : List (List V) :=
  match s.streamCtx with
  | some ctx => ctx.batches.flatMap (·.rows)
  | none => []

/-- The number of batches that are still to come. -/
def batchCount (s : BoltSession V D) : Nat :=
  match s.streamCtx with
  | some ctx => ctx.batches.length
  | none => 0

/-- The rows the client has not been sent. -/
def unread (s : BoltSession V D) : List (List V) := s.pendingRows ++ s.batchRows

def toRecords (vm : ValueMapping V D) (s : BoltSession V D) (rows : List (List V)) : List Reply :=
  rows.map fun r => .record (r.map (vm.valueToBolt s.labelDefs s.negotiatedVersion))

/-- The sessions differ in their position in the stream only. -/
def Advances (s s' : BoltSession V D) : Prop :=
  ∃ chunk row batches, s' = { s with
    pendingChunk := chunk
    pendingRow := row
    streamCtx := s.streamCtx.map fun ctx => { ctx with batches := batches } }

lemma Advances.refl (s : BoltSession V D) : s.Advances s := by
  cases hctx : s.streamCtx with
  | none => exact ⟨s.pendingChunk, s.pendingRow, [], by rw [hctx, map_none, ← hctx]⟩
  | some ctx =>
    refine ⟨s.pendingChunk, s.pendingRow, ctx.batches, ?_⟩
    rw [hctx, map_some, ← hctx]

variable {s' : BoltSession V D}

lemma Advances.trans {s s'' : BoltSession V D} (h : s.Advances s') (h' : s'.Advances s'') : s.Advances s'' := by
  obtain ⟨chunk, row, batches, rfl⟩ := h
  obtain ⟨chunk', row', batches', rfl⟩ := h'
  refine ⟨chunk', row', batches', ?_⟩
  rw [Option.map_map]
  rfl

lemma Advances.toRecords {vm : ValueMapping V D} {s : BoltSession V D} (h : s.Advances s')
    (rows : List (List V)) : s'.toRecords vm rows = s.toRecords vm rows := by
  obtain ⟨_, _, _, rfl⟩ := h
  rfl

lemma Advances.state {s : BoltSession V D} (h : s.Advances s') : s'.state = s.state := by
  obtain ⟨_, _, _, rfl⟩ := h
  rfl

variable {ctx : StreamContext V}

/-- The stream is the same but for the batches it still has. -/
theorem Advances.streamCtx {s : BoltSession V D} (h : s.Advances s')
    (hctx : s.streamCtx = some ctx) :
    ∃ batches, s'.streamCtx = some { ctx with batches := batches } := by
  obtain ⟨_, _, batches, rfl⟩ := h
  exact ⟨batches, by rw [hctx, map_some]⟩

/-- The session after `n` rows of the chunk from `row` on were sent. -/
def afterRows (s : BoltSession V D) (chunk : DataChunk V) (row n : Nat) : BoltSession V D :=
  if chunk.rows.length ≤ row + n then { s with pendingChunk := none, pendingRow := 0 }
  else { s with pendingChunk := some chunk, pendingRow := row + n }

lemma afterRows_unread (s : BoltSession V D) (chunk : DataChunk V) (row n : Nat) :
    (s.afterRows chunk row n).unread = (chunk.rows.drop row).drop n ++ s.batchRows := by
  rw [afterRows, drop_drop]
  split
  · next hle =>
      rw [drop_eq_nil_of_le hle]
      rfl
  · rfl

lemma advances_afterRows (s : BoltSession V D) (chunk : DataChunk V) (row n : Nat) :
    s.Advances (s.afterRows chunk row n) := by
  rw [afterRows]
  cases hctx : s.streamCtx with
  | none =>
    split
    · exact ⟨none, 0, [], by rw [hctx, map_none, ← hctx]⟩
    · exact ⟨some chunk, row + n, [], by rw [hctx, map_none, ← hctx]⟩
  | some ctx =>
    split
    · exact ⟨none, 0, ctx.batches, by rw [hctx, map_some, ← hctx]⟩
    · exact ⟨some chunk, row + n, ctx.batches, by rw [hctx, map_some, ← hctx]⟩

section Pulling

variable {vm : ValueMapping V D} {ok : (c : EnvCall V) → Answer V D c → Prop} {s : BoltSession V D}

@[simp] lemma yields_env (c : EnvCall V)
    {Q : Except StdException (Answer V D c) → BoltSession V D → List (BoltEvent V D) → Prop} :
    Yields ok (env c) s Q ↔ ∀ r, ok c r → Q (.ok r) s [⟨c, r⟩] := Iff.rfl

@[simp] lemma yields_streamCancelled
    {Q : Except StdException Bool → BoltSession V D → List (BoltEvent V D) → Prop} :
    Yields ok streamCancelled s Q ↔ ∀ b, ok .streamCancelled b → Q (.ok b) s [⟨.streamCancelled, b⟩] := Iff.rfl

@[simp] lemma yields_elapsedMs {Q : Except StdException Int → BoltSession V D → List (BoltEvent V D) → Prop} :
    Yields ok elapsedMs s Q ↔ ∀ t, ok .elapsedMs t → Q (.ok t) s [⟨.elapsedMs, t⟩] := Iff.rfl

/-- Sending rows asks nothing. -/
theorem yields_emitRows (limit : Int) (chunk : DataChunk V) (row : Nat) (p : Pulled)
    {Q : Except StdException Pulled → BoltSession V D → List (BoltEvent V D) → Prop}
    (h : Q (.ok { p with
        records := p.records ++ s.toRecords vm (rowsToSend limit p.fetched chunk row)
        fetched := p.fetched + (rowsToSend limit p.fetched chunk row).length })
      (s.afterRows chunk row (rowsToSend limit p.fetched chunk row).length) []) :
    Yields ok (emitRows vm limit chunk row p) s Q := by
  simp only [emitRows, yields_bind, yields_get, yields_ite, yields_modify, yields_pure, nil_append]
  rw [afterRows] at h
  constructor
  · intro hle
    rw [if_pos hle] at h
    exact h
  · intro hle
    rw [if_neg hle] at h
    exact h

/-! ### The loop -/

/-- Only fetching: batches are asked for, and whether the stream is cancelled. -/
def Fetches (es : List (BoltEvent V D)) : Prop :=
  ∀ e ∈ es, e.1 = .next ∨ e.1 = .streamCancelled

/-- The event is a step of the generator. -/
def isNext : BoltEvent V D → Bool
  | ⟨.next, _⟩ => true
  | _ => false

/-- The number of steps of the generator. -/
def nexts (es : List (BoltEvent V D)) : Nat := es.countP isNext

@[simp] lemma nexts_append (es es' : List (BoltEvent V D)) :
    nexts (es ++ es') = nexts es + nexts es' := countP_append

/-- How the loop of a PULL ends that has gathered `p` and goes on at `s`: with the rows
that the limit still allows, with all of them, by a cancellation, or by an exception of
the stream. -/
inductive Pulls (vm : ValueMapping V D) (limit : Int) (failure : Option StdException)
    (s : BoltSession V D) (p : Pulled) :
    Except StdException Pulled → BoltSession V D → List (BoltEvent V D) → Prop
  | page {q : Pulled} {s' : BoltSession V D} {es : List (BoltEvent V D)} (hlimit : 0 ≤ limit)
      (henough : limit.toNat ≤ p.fetched + s.unread.length)
      (hrecords : q.records =
        p.records ++ s.toRecords vm (s.unread.take (limit.toNat - p.fetched)))
      (hflags : q.exhausted = false ∧ q.disconnected = false)
      (hleft : s'.unread = s.unread.drop (limit.toNat - p.fetched))
      (hnexts : nexts es + s'.batchCount = s.batchCount)
      (hadvances : s.Advances s') (hfetches : Fetches es) : Pulls vm limit failure s p (.ok q) s' es
  | drained {q : Pulled} {s' : BoltSession V D} {es : List (BoltEvent V D)}
      (hmore : limit < 0 ∨ p.fetched + s.unread.length < limit.toNat)
      (hrecords : q.records = p.records ++ s.toRecords vm s.unread)
      (hflags : q.exhausted = true ∧ q.disconnected = false) (hfailure : failure = none)
      (hnexts : nexts es = s.batchCount + 1)
      (hadvances : s.Advances s') (hfetches : Fetches es) : Pulls vm limit failure s p (.ok q) s' es
  | cut {q : Pulled} {s' : BoltSession V D} {es : List (BoltEvent V D)}
      (hflag : q.disconnected = true) (hcancel : ⟨.streamCancelled, true⟩ ∈ es)
      (hadvances : s.Advances s') : Pulls vm limit failure s p (.ok q) s' es
  | failed {e : StdException} {s' : BoltSession V D} {es : List (BoltEvent V D)}
      (hfailure : failure = some e) (hadvances : s.Advances s') :
      Pulls vm limit failure s p (.error e) s' es

variable {limit : Int} {s₁ : BoltSession V D} {p : Pulled} {es₀ es : List (BoltEvent V D)}
variable {failure : Option StdException}

/-- A loop that has sent the next `k` rows goes on where it is. -/
theorem Pulls.advance {s' : BoltSession V D}
    {p₁ : Pulled} {k : Nat} {r : Except StdException Pulled}
    (hk : k ≤ s.unread.length) (hlimit : 0 ≤ limit → p.fetched + k ≤ limit.toNat)
    (hunread : s₁.unread = s.unread.drop k)
    (hrecords : p₁.records = p.records ++ s.toRecords vm (s.unread.take k))
    (hfetched : p₁.fetched = p.fetched + k) (hadvances : s.Advances s₁) (hes₀ : Fetches es₀)
    (hsteps : nexts es₀ + s₁.batchCount = s.batchCount)
    (h : Pulls vm limit failure s₁ p₁ r s' es) :
    Pulls vm limit failure s p r s' (es₀ ++ es) := by
  have hlength : s₁.unread.length = s.unread.length - k := by
    rw [hunread, length_drop]
  have hboth : ∀ {es}, Fetches es → Fetches (es₀ ++ es) := by
    intro es hes e he
    rcases mem_append.mp he with he | he
    · exact hes₀ e he
    · exact hes e he
  cases h with
  | page hnonneg henough hrec hflags hleft hnexts hadv hfetches =>
    have hbound := hlimit hnonneg
    have hsplit : limit.toNat - p.fetched = k + (limit.toNat - p₁.fetched) := by omega
    refine .page hnonneg (by omega) ?_ hflags ?_ ?_ (hadvances.trans hadv) (hboth hfetches)
    · rw [hrec, hrecords, hadvances.toRecords, hunread, hsplit, take_add, toRecords, toRecords, toRecords,
        map_append,
        append_assoc]
    · rw [hleft, hunread, drop_drop, hsplit]
    · rw [nexts_append]
      omega
  | drained hmore hrec hflags hfailure hnexts hadv hfetches =>
    refine .drained (by omega) ?_ hflags hfailure ?_ (hadvances.trans hadv) (hboth hfetches)
    · rw [hrec, hrecords, hadvances.toRecords, hunread, append_assoc, toRecords,
        toRecords, toRecords, ← map_append, take_append_drop]
    · rw [nexts_append]
      omega
  | cut hflag hcancel hadv =>
    exact .cut hflag (mem_append_right _ hcancel) (hadvances.trans hadv)
  | failed hfailure hadv => exact .failed hfailure (hadvances.trans hadv)

lemma rowsToSend_eq_take (limit : Int) (fetched : Nat) (chunk : DataChunk V) (row : Nat) :
    rowsToSend limit fetched chunk row = (chunk.rows.drop row).take (rowsToSend limit fetched chunk row).length := by
  rw [rowsToSend]
  split
  · exact (take_length).symm
  · rw [length_take, ← take_take, take_length]

/-- The rows sent stay within the limit, and rows are held back only at the limit. -/
theorem rowsToSend_length {fetched : Nat} (chunk : DataChunk V) (row : Nat)
    (hfetched : 0 ≤ limit → fetched ≤ limit.toNat) :
    (rowsToSend limit fetched chunk row).length ≤ (chunk.rows.drop row).length ∧
      (0 ≤ limit → fetched + (rowsToSend limit fetched chunk row).length ≤ limit.toNat) ∧
      (chunk.rows.length ≤ row + (rowsToSend limit fetched chunk row).length ∨
        (0 ≤ limit ∧ limit.toNat ≤ fetched + (rowsToSend limit fetched chunk row).length)) := by
  rw [rowsToSend]
  split
  · next hneg =>
      rw [length_drop]
      omega
  · next hneg =>
      rw [length_take, length_drop]
      omega

/-- The chunk at hand is sent as far as the limit allows, and the loop goes on. -/
theorem emitRows_yields {s₀ : BoltSession V D} (chunk : DataChunk V) (row : Nat)
    (hfetched : 0 ≤ limit → p.fetched ≤ limit.toNat) (hflags : p.exhausted = false ∧ p.disconnected = false)
    (hunread : s.unread = chunk.rows.drop row ++ s₀.batchRows) (hadvances : s.Advances s₀)
    (hes₀ : Fetches es₀) (hsteps : nexts es₀ + s₀.batchCount = s.batchCount)
    {next : Pulled → BoltM V D Pulled}
    (hnext : ∀ p₁ : Pulled, (0 ≤ limit → p₁.fetched ≤ limit.toNat) →
      (p₁.exhausted = false ∧ p₁.disconnected = false) →
      ∀ s₁ : BoltSession V D, s₁.streamCtx = s₀.streamCtx →
      (s₁.pendingChunk = none ∨ ¬ p₁.wants limit) →
      Yields ok (next p₁) s₁ (Pulls vm limit failure s₁ p₁)) :
    Yields ok (emitRows vm limit chunk row p >>= next) s₀
      fun r s' es => Pulls vm limit failure s p r s' (es₀ ++ es) := by
  obtain ⟨hle, hlimit, hheld⟩ := rowsToSend_length chunk row hfetched
  have hrows := rowsToSend_eq_take limit p.fetched chunk row
  rw [yields_bind]
  apply yields_emitRows
  generalize rowsToSend limit p.fetched chunk row = rows at hle hlimit hheld hrows
  have hstream : (s₀.afterRows chunk row rows.length).streamCtx = s₀.streamCtx := by
    rw [afterRows]
    split <;> rfl
  have hpending : (s₀.afterRows chunk row rows.length).pendingChunk = none ∨ ¬ Pulled.wants { p with
        records := p.records ++ s₀.toRecords vm rows
        fetched := p.fetched + rows.length } limit := by
    rcases hheld with hdone | ⟨hnonneg, hfull⟩
    · left
      rw [afterRows, if_pos hdone]
    · right
      rw [Pulled.wants]
      dsimp only
      omega
  refine (hnext { p with
      records := p.records ++ s₀.toRecords vm rows
      fetched := p.fetched + rows.length } hlimit hflags _ hstream hpending).mono ?_
  intro r s' es h
  rw [nil_append]
  have hsent : p.records ++ s₀.toRecords vm rows = p.records ++ s.toRecords vm (s.unread.take rows.length) := by
    rw [hadvances.toRecords, hunread, take_append_of_le_length hle, ← hrows]
  refine h.advance ?_ hlimit ?_ hsent rfl (hadvances.trans (advances_afterRows s₀ chunk row _)) hes₀ ?_
  · rw [hunread, length_append]
    omega
  · rw [afterRows_unread, hunread, drop_append_of_le_length hle]
  · rw [batchCount, hstream]
    exact hsteps

/-- A loop that has reached its limit stops. -/
theorem Pulls.stop
    (hflags : p.exhausted = false ∧ p.disconnected = false) (hwants : ¬ p.wants limit) :
    Pulls vm limit failure s p (.ok p) s [] := by
  rw [Pulled.wants, not_or] at hwants
  have hnonneg : 0 ≤ limit := by omega
  have hzero : limit.toNat - p.fetched = 0 := by omega
  refine .page hnonneg (by omega) ?_ hflags ?_ (Nat.zero_add _) (.refl s) (fun e he => nomatch he)
  · rw [hzero, take_zero]
    exact (append_nil _).symm
  · rw [hzero, drop_zero]

lemma Pulls.cancelled {b : Bool}
    (hb : b = true) : Pulls vm limit failure s p (.ok { p with disconnected := true }) s
      [⟨.streamCancelled, b⟩] := by
  subst hb
  exact .cut rfl mem_cons_self (.refl s)

/-- A look at the flag and a step of the generator. -/
theorem fetches_next (r : Answer V D .next) :
    Fetches ([⟨.streamCancelled, false⟩, ⟨.next, r⟩] : List (BoltEvent V D)) := by
  intro e he
  simp only [mem_cons, not_mem_nil, or_false] at he
  rcases he with rfl | rfl
  · exact inr rfl
  · exact inl rfl

lemma pullBatches_yields (limit : Int) (failure : Option StdException)
    (batches : List (DataChunk V))
    (hctx : s.streamCtx = some { ctx with batches := batches })
    (hfetched : 0 ≤ limit → p.fetched ≤ limit.toNat)
    (hflags : p.exhausted = false ∧ p.disconnected = false)
    (hpending : s.pendingChunk = none ∨ ¬ p.wants limit) :
    Yields ok (pullBatches vm limit failure batches p) s (Pulls vm limit failure s p) := by
  induction batches generalizing s p with
  | nil =>
    simp only [pullBatches, yields_bind, yields_ite, yields_streamCancelled, yields_pure, yields_env]
    refine ⟨Pulls.stop hflags, fun hwants b _ => ⟨Pulls.cancelled, ?_⟩⟩
    intro hb r _
    obtain rfl : b = false := eq_false_of_ne_true hb
    rw [not_not] at hwants
    have hnone : s.unread = [] := by
      rcases hpending with hpending | hpending
      · rw [unread, pendingRows, hpending, batchRows, hctx]
        rfl
      · exact absurd hwants hpending
    cases failure with
    | some e => exact Pulls.failed rfl (.refl s)
    | none =>
      refine Pulls.drained ?_ ?_ ⟨rfl, hflags.2⟩ rfl ?_ (.refl s) (fetches_next r)
      · rw [Pulled.wants] at hwants
        rw [hnone, length_nil]
        omega
      · rw [hnone]
        exact (append_nil _).symm
      · rw [batchCount, hctx]
        rfl
  | cons chunk rest ih =>
    simp only [pullBatches, yields_bind, yields_ite, yields_streamCancelled, yields_pure, yields_env, yields_modify]
    refine ⟨Pulls.stop hflags, fun hwants b _ => ⟨Pulls.cancelled, ?_⟩⟩
    intro hb r _
    obtain rfl : b = false := eq_false_of_ne_true hb
    rw [not_not] at hwants
    have hunread : s.unread = chunk.rows.drop 0 ++ rest.flatMap (·.rows) := by
      rcases hpending with hpending | hpending
      · rw [unread, pendingRows, hpending, batchRows, hctx]
        rfl
      · exact absurd hwants hpending
    have hsent : Yields ok (emitRows vm limit chunk 0 p >>= pullBatches vm limit failure rest)
        { s with streamCtx := s.streamCtx.map fun ctx => { ctx with batches := rest } }
        fun r' s' es => Pulls vm limit failure s p r' s'
          ([⟨.streamCancelled, false⟩, ⟨.next, r⟩] ++ es) := by
      refine emitRows_yields chunk 0 hfetched hflags ?_ ⟨_, _, rest, rfl⟩ (fetches_next r) ?_ ?_
      · rw [hunread, batchRows, hctx]
        rfl
      · rw [batchCount, batchCount, hctx]
        exact Nat.add_comm 1 rest.length
      · intro p₁ hfetched₁ hflags₁ s₁ hctx₁ hpending₁
        refine ih ?_ hfetched₁ hflags₁ hpending₁
        rw [hctx₁, hctx]
        rfl
    rw [yields_bind] at hsent
    exact hsent

/-- The whole loop, from whatever the last PULL left. -/
theorem pullLoop_yields (limit : Int) (hctx : s.streamCtx = some ctx) :
    Yields ok (pullLoop vm limit ctx) s (Pulls vm limit ctx.failure s {}) := by
  have hfetched : 0 ≤ limit → ({} : Pulled).fetched ≤ limit.toNat := fun _ => Nat.zero_le _
  rw [pullLoop]
  simp only [yields_bind, yields_get, nil_append]
  cases hpending : s.pendingChunk with
  | none => exact pullBatches_yields limit _ _ hctx hfetched ⟨rfl, rfl⟩ (inl hpending)
  | some chunk =>
    simp only [yields_bind, yields_ite, yields_streamCancelled, yields_pure]
    refine ⟨Pulls.stop ⟨rfl, rfl⟩, fun hwants b _ => ⟨Pulls.cancelled, ?_⟩⟩
    intro hb
    obtain rfl : b = false := eq_false_of_ne_true hb
    have hsent : Yields ok
        (emitRows vm limit chunk s.pendingRow {} >>= pullBatches vm limit ctx.failure ctx.batches) s
        fun r' s' es => Pulls vm limit ctx.failure s {} r' s' ([⟨.streamCancelled, false⟩] ++ es) := by
      refine emitRows_yields chunk s.pendingRow hfetched ⟨rfl, rfl⟩ ?_ (.refl s) ?_ (Nat.zero_add _) ?_
      · rw [unread, pendingRows, hpending]
      · intro e he
        obtain rfl := mem_singleton.mp he
        exact inr rfl
      · intro p₁ hfetched₁ hflags₁ s₁ hctx₁ hpending₁
        exact pullBatches_yields limit _ _ (hctx₁.trans hctx) hfetched₁ hflags₁ hpending₁
    rw [yields_bind] at hsent
    exact hsent

/-! ### One PULL -/

/-- The service does not interfere: the stream is not cancelled, and a commit succeeds. -/
def Calm : (c : EnvCall V) → Answer V D c → Prop
  | .streamCancelled, (b : Bool) => b = false
  | .commitAsync, (r : Except StdException Bool) => r = .ok true
  | _, _ => True

/-- The statement runs in a transaction of its own that is to be committed. -/
def AutoCommits (s : BoltSession V D) (ctx : StreamContext V) : Prop :=
  s.inTransaction = false ∧ ctx.session = true ∧ ctx.shouldCommit = true

instance (s : BoltSession V D) (ctx : StreamContext V) : Decidable (s.AutoCommits ctx) :=
  inferInstanceAs (Decidable (_ ∧ _))

/-- Fetching and looking at the clock. -/
def Reads (es : List (BoltEvent V D)) : Prop :=
  ∀ e ∈ es, e.1 = .next ∨ e.1 = .streamCancelled ∨ e.1 = .elapsedMs

/-- What is asked when all is done. -/
def Concludes (es : List (BoltEvent V D)) : Prop :=
  ∀ e ∈ es, e.1 = .finalizeProfile ∨ e.1 = .nextBookmark

/-- Something went wrong: the stream failed, or the service interfered. -/
def Disturbed (ctx : StreamContext V) (es : List (BoltEvent V D)) : Prop :=
  ctx.failure ≠ none ∨ ∃ e ∈ es, ¬ Calm e.1 e.2

lemma Disturbed.append_right
    (h : Disturbed ctx es) (es' : List (BoltEvent V D)) : Disturbed ctx (es ++ es') := by
  rcases h with h | ⟨e, he, hcalm⟩
  · exact inl h
  · exact inr ⟨e, mem_append_left _ he, hcalm⟩

lemma Disturbed.append_left
    (h : Disturbed ctx es) (es' : List (BoltEvent V D)) : Disturbed ctx (es' ++ es) := by
  rcases h with h | ⟨e, he, hcalm⟩
  · exact inl h
  · exact inr ⟨e, mem_append_right _ he, hcalm⟩

lemma disturbed_of_cancel (h : ⟨.streamCancelled, true⟩ ∈ es) : Disturbed ctx es :=
  inr ⟨_, h, Bool.noConfusion⟩

/-- The commit of an auto-commit statement, and of no other. -/
def commitEvents (s : BoltSession V D) (ctx : StreamContext V) : List (BoltEvent V D) :=
  if s.AutoCommits ctx then [⟨.commitAsync, .ok true⟩] else []

/-- How a PULL of `n` rows is answered: with the first rows and more to come, with all of
them and the end of the stream, or, after something went wrong, with a FAILURE alone. -/
inductive PullAnswers (vm : ValueMapping V D) (n : Int) (ctx : StreamContext V)
    (s : BoltSession V D) : List Reply → BoltSession V D → List (BoltEvent V D) → Prop
  | page {fields : PackMap} {s' : BoltSession V D} {es : List (BoltEvent V D)} (hn : 0 ≤ n)
      (henough : n.toNat ≤ s.unread.length) (hleft : s'.unread = s.unread.drop n.toNat)
      (hnexts : nexts es + s'.batchCount = s.batchCount)
      (hadvances : s.Advances s') (hreads : Reads es) :
      PullAnswers vm n ctx s (s.toRecords vm (s.unread.take n.toNat) ++
        [.success (fields ++ [("has_more", .bool true)])]) s' es
  | drained {fields bookmark : PackMap} {s' : BoltSession V D} {reads after : List (BoltEvent V D)}
      (hmore : n < 0 ∨ s.unread.length < n.toNat) (hfailure : ctx.failure = none)
      (hnexts : nexts reads = s.batchCount + 1)
      (hended : s'.streamCtx = none) (hbookmark : ∀ entry ∈ bookmark, entry.1 ≠ "has_more")
      (hreads : Reads reads) (hafter : Concludes after) :
      PullAnswers vm n ctx s (s.toRecords vm s.unread ++
        [.success (fields ++ [("has_more", .bool false)] ++ bookmark)]) s'
        (reads ++ s.commitEvents ctx ++ after)
  | disturbed {code message : String} {s' : BoltSession V D} {es : List (BoltEvent V D)}
      (hcause : Disturbed ctx es) :
      PullAnswers vm n ctx s [.failure code message] s' es

lemma pullAborted_ensures (ctx : StreamContext V) (reason : String)
    {Q : Except StdException (List Reply) → BoltSession V D → Prop}
    (h : ∀ s', Q (.ok [.failure "DatabaseError" reason]) s') :
    Ensures ok (pullAborted ctx reason) s Q := by
  rw [pullAborted]
  simp only [ensures_bind, endStream, ensures_modify]
  apply rollbackStream_ensures
  apply rollbackExplicitTxn_ensures
  exact h _

lemma pullFailed_ensures (e : StdException) {Q : Except StdException (List Reply) → BoltSession V D → Prop}
    (h : ∀ s', Q (.ok [makeFailureFor e]) s') : Ensures ok (pullFailed e) s Q := by
  simp only [pullFailed, ensures_bind, ensures_setState]
  apply abandonStream_ensures
  exact h _

lemma makeFailureFor_eq (e : StdException) : ∃ code message, makeFailureFor e = .failure code message := by
  cases e with
  | queryException kind message => exact ⟨_, _, rfl⟩
  | other what => exact ⟨_, _, rfl⟩

lemma bookmarkEntry_yields (wanted : Bool) :
    Yields ok (bookmarkEntry wanted) s fun r s' es => s' = s ∧ Concludes es ∧
      ∃ entries : PackMap, r = .ok entries ∧ ∀ entry ∈ entries, entry.1 ≠ "has_more" := by
  rw [bookmarkEntry, yields_ite]
  constructor
  · intro _ n _
    refine ⟨rfl, ?_, _, rfl, ?_⟩
    · intro e he
      obtain rfl := mem_singleton.mp he
      exact inr rfl
    · intro entry hentry
      obtain rfl := mem_singleton.mp hentry
      show ("bookmark" : String) ≠ "has_more"
      decide
  · intro _
    exact ⟨rfl, fun e he => (by cases he), [], rfl, fun entry hentry => (by cases hentry)⟩

lemma profileEntries_yields (requested : Bool) :
    Yields ok (profileEntries requested) s fun r s' es => s' = s ∧ Concludes es ∧
      ∃ entries : PackMap, r = .ok entries := by
  rw [profileEntries, yields_ite]
  constructor
  · intro _ entries _
    refine ⟨rfl, ?_, entries, rfl⟩
    intro e he
    obtain rfl := mem_singleton.mp he
    exact inl rfl
  · intro _
    exact ⟨rfl, fun e he => (by cases he), [], rfl⟩

/-- The commit of a drained stream: it succeeds with exactly the calls it should make, or
the service refused it. -/
theorem commitDrained_yields (ctx : StreamContext V) (t : BoltSession V D) :
    Yields ok (commitDrained s.inTransaction ctx) t fun r t' es => t' = t ∧
      ((r = .ok true ∧ es = s.commitEvents ctx) ∨ (r ≠ .ok true ∧ ∃ e ∈ es, ¬ Calm e.1 e.2)) := by
  rw [commitDrained, yields_ite]
  constructor
  · intro hauto
    rw [commitAsync, yields_ite]
    constructor
    · intro hnone
      refine ⟨rfl, inl ⟨rfl, ?_⟩⟩
      rw [commitEvents, if_neg]
      intro hcommits
      exact hnone.elim (fun h => h hcommits.2.1) (fun h => h hcommits.2.2)
    · intro hboth
      rw [not_or, not_not, not_not] at hboth
      have hcommits : s.AutoCommits ctx := ⟨eq_false_of_ne_true hauto.1, hboth.1, hboth.2⟩
      rw [commitEvents, if_pos hcommits, yields_bind, yields_env]
      intro (r : Except StdException Bool) _
      refine (yields_fromExcept r).mpr ⟨rfl, ?_⟩
      by_cases hr : r = Except.ok true
      · left
        rw [hr]
        exact ⟨rfl, rfl⟩
      · right
        exact ⟨hr, _, mem_cons_self, hr⟩
  · intro hnot
    refine ⟨rfl, inl ⟨rfl, ?_⟩⟩
    rw [commitEvents, if_neg]
    intro hcommits
    refine hnot ⟨?_, hcommits.2.2⟩
    rw [hcommits.1]
    exact Bool.false_ne_true

/-- The end of a drained stream. -/
theorem pullDrained_yields {fields : PackMap} :
    Yields ok (pullDrained ctx p fields) s fun r s' es =>
      (∃ profile bookmark after, r = .ok (p.records ++
          [.success (fields ++ profile ++ [("has_more", .bool false)] ++ bookmark)]) ∧
        (∀ entry ∈ bookmark, entry.1 ≠ "has_more") ∧ s'.streamCtx = none ∧ Concludes after ∧
        es = s.commitEvents ctx ++ after) ∨
      ((∃ e, r = .error e) ∨ ∃ code message, r = .ok [.failure code message]) ∧ ∃ e ∈ es, ¬ Calm e.1 e.2 := by
  rw [pullDrained]
  simp only [yields_bind, yields_get, endStream, yields_modify, nil_append]
  refine (commitDrained_yields ctx _).mono ?_
  rintro r s' es ⟨rfl, hcommit⟩
  rcases hcommit with ⟨rfl, rfl⟩ | ⟨hr, hcause⟩
  · dsimp only
    rw [yields_ite]
    refine ⟨fun hnot => absurd rfl hnot, fun _ => ?_⟩
    simp only [yields_bind]
    refine (profileEntries_yields _).mono ?_
    rintro r s' es ⟨rfl, hprofile, profile, rfl⟩
    dsimp only
    simp only [yields_get]
    refine (bookmarkEntry_yields _).mono ?_
    rintro r s' es' ⟨rfl, hafter, bookmark, rfl, hbookmark⟩
    dsimp only
    simp only [leaveStreaming, yields_modify, yields_pure]
    refine inl ⟨profile, bookmark, es ++ es', rfl, hbookmark, trivial, ?_, ?_⟩
    · intro e he
      rcases mem_append.mp he with he | he
      · exact hprofile e he
      · exact hafter e he
    · simp
  · cases r with
    | error e => exact inr ⟨inl ⟨e, rfl⟩, hcause⟩
    | ok committed =>
      dsimp only
      rw [yields_ite]
      refine ⟨fun _ => inr ⟨inr ⟨_, _, rfl⟩, ?_⟩, fun hcommitted => ?_⟩
      · rw [append_nil]
        exact hcause
      · rw [not_not] at hcommitted
        exact absurd (congrArg Except.ok hcommitted) hr

/-- How the guarded part of PULL ends: with an answer, or with an exception that has a
cause. -/
def StreamAnswers (vm : ValueMapping V D) (n : Int) (ctx : StreamContext V) (s : BoltSession V D) :
    Except StdException (List Reply) → BoltSession V D → List (BoltEvent V D) → Prop
  | .ok replies, s', es => PullAnswers vm n ctx s replies s' es
  | .error _, _, es => Disturbed ctx es

lemma pullAborted_yields {n : Int} (reason : String) (hcause : Disturbed ctx es₀) :
    Yields ok (pullAborted ctx reason) s₁
      fun r s' es => StreamAnswers vm n ctx s r s' (es₀ ++ es) := by
  have haborted : Ensures ok (pullAborted ctx reason) s₁
      fun r _ => r = .ok [.failure "DatabaseError" reason] := pullAborted_ensures ctx reason fun _ => rfl
  refine haborted.yields.mono ?_
  rintro _ s' es rfl
  exact PullAnswers.disturbed (hcause.append_right es)

/-- The answer to a drained stream, or the refusal of its commit. -/
theorem pullDrained_answers {n : Int} {fields : PackMap} {reads : List (BoltEvent V D)}
    (hmore : n < 0 ∨ s.unread.length < n.toNat) (hrecords : p.records = s.toRecords vm s.unread)
    (hfailure : ctx.failure = none) (hnexts : nexts reads = s.batchCount + 1)
    (hadvances : s.Advances s₁) (hreads : Reads reads) :
    Yields ok (pullDrained ctx p fields) s₁
      fun r s' es => StreamAnswers vm n ctx s r s' (reads ++ es) := by
  refine pullDrained_yields.mono ?_
  intro r s' es h
  have hcommits : s₁.commitEvents ctx = s.commitEvents ctx := by
    obtain ⟨_, _, _, rfl⟩ := hadvances
    rfl
  rcases h with ⟨profile, bookmark, after, rfl, hbookmark, hended, hafter, rfl⟩ | ⟨hfails, hcause⟩
  · rw [StreamAnswers, hrecords, hcommits, ← append_assoc]
    exact PullAnswers.drained hmore hfailure hnexts hended hbookmark hreads hafter
  · have hes : Disturbed ctx es := inr hcause
    have hdisturbed := hes.append_left reads
    rcases hfails with ⟨e, rfl⟩ | ⟨code, message, rfl⟩
    · exact hdisturbed
    · exact PullAnswers.disturbed hdisturbed

lemma pullStream_yields (n : Int) (hctx : s.streamCtx = some ctx) :
    Yields ok (pullStream vm n ctx) s (StreamAnswers vm n ctx s) := by
  rw [pullStream, yields_bind]
  refine (pullLoop_yields n hctx).mono ?_
  intro r s₁ es₀ hloop
  cases r with
  | error e =>
    cases hloop with
    | failed hfailure _ => exact inl (by rw [hfailure]; simp)
  | ok p =>
    simp only [yields_bind, yields_elapsedMs]
    intro t _ t' _
    have hreads : Fetches es₀ → Reads (es₀ ++ [⟨.elapsedMs, t⟩, ⟨.elapsedMs, t'⟩,
        ⟨.streamCancelled, false⟩] : List (BoltEvent V D)) := by
      intro hfetches e he
      simp only [mem_append, mem_cons, not_mem_nil, or_false] at he
      rcases he with he | rfl | rfl | rfl
      · exact (hfetches e he).imp id inl
      · exact inr (inr rfl)
      · exact inr (inr rfl)
      · exact inr (inl rfl)
    have happend : ∀ {m : BoltM V D (List Reply)} (clock : List (BoltEvent V D)),
        Yields ok m s₁ (fun r s' es => StreamAnswers vm n ctx s r s' (es₀ ++ clock ++ es)) →
        Yields ok m s₁ (fun r s' es => StreamAnswers vm n ctx s r s' (es₀ ++ (clock ++ es))) := by
      intro m clock h
      refine h.mono ?_
      intro r s' es h'
      rw [append_assoc] at h'
      exact h'
    rw [yields_ite]
    constructor
    · intro hdisconnected
      have hcause : Disturbed ctx es₀ := by
        cases hloop with
        | cut _ hcancel _ => exact disturbed_of_cancel hcancel
        | page _ _ _ hflags => exact absurd (hflags.2.symm.trans hdisconnected) (by decide)
        | drained _ _ hflags => exact absurd (hflags.2.symm.trans hdisconnected) (by decide)
      exact happend [⟨.elapsedMs, t⟩, ⟨.elapsedMs, t'⟩] (pullAborted_yields _ (hcause.append_right _))
    · intro hconnected
      rw [yields_bind, yields_streamCancelled]
      intro (b : Bool) _
      dsimp only
      rw [yields_ite]
      constructor
      · intro hb
        subst hb
        have hcause : Disturbed ctx (es₀ ++ [⟨.elapsedMs, t⟩, ⟨.elapsedMs, t'⟩,
            ⟨.streamCancelled, true⟩]) := disturbed_of_cancel (by simp)
        exact happend [⟨.elapsedMs, t⟩, ⟨.elapsedMs, t'⟩, ⟨.streamCancelled, true⟩] (pullAborted_yields _ hcause)
      · intro hb
        obtain rfl : b = false := eq_false_of_ne_true hb
        rw [yields_ite]
        cases hloop with
        | cut hflag _ _ => exact absurd hflag hconnected
        | page hlimit henough hrecords hflags hleft hnexts hadvances hfetches =>
          refine ⟨fun _ => ?_, fun hnot => absurd hflags.1 (by simpa using hnot)⟩
          have hzero : n.toNat - ({} : Pulled).fetched = n.toNat := Nat.sub_zero _
          have hnil : ({} : Pulled).records = [] := rfl
          rw [hzero, hnil, nil_append] at hrecords
          rw [hzero] at hleft
          have henough' : n.toNat ≤ s.unread.length := by simpa using henough
          rw [hrecords]
          refine PullAnswers.page hlimit henough' hleft ?_ hadvances (hreads hfetches)
          rw [nexts_append]
          exact hnexts
        | drained hmore hrecords hflags hfailure hnexts hadvances hfetches =>
          refine ⟨fun hnot => absurd hflags.1 hnot, fun _ => ?_⟩
          have hmore' : n < 0 ∨ s.unread.length < n.toNat := by simpa using hmore
          exact happend [⟨.elapsedMs, t⟩, ⟨.elapsedMs, t'⟩, ⟨.streamCancelled, false⟩]
            (pullDrained_answers hmore' hrecords hfailure
              ((nexts_append es₀ _).trans hnexts) hadvances (hreads hfetches))

/-- A PULL on an open stream is answered. -/
theorem handlePull_yields (n : Int) (hctx : s.streamCtx = some ctx)
    (hstate : s.state = .STREAMING ∨ s.state = .TX_STREAMING) :
    Yields ok (handlePull vm ⟨n⟩) s fun r s' es =>
      ∃ replies, r = .ok replies ∧ PullAnswers vm n ctx s replies s' es := by
  have hopen : ¬ s.state = .FAILED ∧ ¬ (s.state ≠ .STREAMING ∧ s.state ≠ .TX_STREAMING) := by
    rcases hstate with hstate | hstate
    · rw [hstate]
      decide
    · rw [hstate]
      decide
  rw [handlePull]
  simp only [yields_bind, yields_get, yields_ite, nil_append]
  refine ⟨fun hfailed => absurd hfailed hopen.1, fun _ => ⟨fun hnot => absurd hnot hopen.2, fun _ => ?_⟩⟩
  rw [hctx]
  dsimp only
  rw [yields_tryCatch]
  refine (pullStream_yields n hctx).mono ?_
  intro r s' es h
  cases r with
  | ok replies => exact ⟨replies, rfl, h⟩
  | error e =>
    -- the exception is answered by a FAILURE, and the cause is in the transcript
    have hfailed : Ensures ok (pullFailed e) s' fun r _ => r = .ok [makeFailureFor e] :=
      pullFailed_ensures e fun _ => rfl
    refine hfailed.yields.mono ?_
    rintro _ s'' es' rfl
    obtain ⟨code, message, hfailure⟩ := makeFailureFor_eq e
    rw [hfailure]
    exact ⟨_, rfl, PullAnswers.disturbed (Disturbed.append_right h es')⟩

end Pulling

end BoltSession

/-! ### Sequences of requests -/

open BoltSession

variable {vm : ValueMapping V D} {s : BoltSession V D}

/-- A request whose handler answers: what it yields is what the exchange shows. -/
theorem exchange_of_yields {ok : (c : EnvCall V) → Answer V D c → Prop} {a : BoltAction V D}
    {msg : Message} (hdecode : decodeMessage a.req = .ok msg)
    {Q : List Reply → BoltSession V D → List (BoltEvent V D) → Prop}
    (hdispatch : Yields ok (dispatch vm msg) s fun r s' es => ∃ replies, r = .ok replies ∧ Q replies s' es)
    (hok : ∀ e ∈ (exchange vm s a).events, ok e.1 e.2) :
    Q (exchange vm s a).replies (exchange vm s a).session (exchange vm s a).events := by
  have hprocess : Yields ok (processMessage vm a.req) s
      fun r s' es => ∃ replies, r = .ok replies ∧ Q replies s' es := by
    rw [processMessage, hdecode]
    dsimp only
    rw [yields_tryCatch]
    refine hdispatch.mono ?_
    rintro r s' es ⟨replies, rfl, hQ⟩
    exact ⟨replies, rfl, hQ⟩
  obtain ⟨replies, hreplies, hQ⟩ := Program.Yields.exchange hprocess hok
  have hexchanged : (exchange vm s a).replies = replies := congrArg repliesOf hreplies
  rw [hexchanged]
  exact hQ

/-- The request is a PULL of `n` rows. -/
def BoltAction.IsPull (a : BoltAction V D) (n : Int) : Prop :=
  decodeMessage a.req = .ok (.pull ⟨n⟩)

/-- The `has_more` entry of the final SUCCESS.  Metadata is assigned entry by entry, so the
last one counts. -/
def hasMore (replies : List Reply) : Option Bool :=
  match replies.getLast? with
  | some (.success fields) =>
    match fields.reverse.lookup "has_more" with
    | some (.bool b) => some b
    | _ => none
  | _ => none

/-- The RECORD messages of a response. -/
def recordsOf (replies : List Reply) : List Reply :=
  replies.filter fun r =>
    match r with
    | .record _ => true
    | _ => false

lemma recordsOf_append_success (rows : List (List V)) (fields : PackMap) :
    recordsOf (s.toRecords vm rows ++ [.success fields]) = s.toRecords vm rows := by
  rw [recordsOf, filter_append]
  simp [toRecords]

/-- The session after a list of requests. -/
def sessionAfter (vm : ValueMapping V D) (s : BoltSession V D) (actions : List (BoltAction V D)) :
    BoltSession V D :=
  actions.foldl (fun s a => (exchange vm s a).session) s

lemma exchanges_concat (actions : List (BoltAction V D)) (last : BoltAction V D) :
    exchanges vm s (actions ++ [last]) =
      exchanges vm s actions ++ [exchange vm (sessionAfter vm s actions) last] := by
  induction actions generalizing s with
  | nil => rfl
  | cons a rest ih =>
    rw [cons_append, exchanges, exchanges, ih]
    rfl

lemma lookup_reverse_append {fields bookmark : PackMap} {b : Bool}
    (hbookmark : ∀ entry ∈ bookmark, entry.1 ≠ "has_more") :
    (fields ++ [("has_more", PackValue.bool b)] ++ bookmark).reverse.lookup "has_more" = some (.bool b) := by
  have hnone : bookmark.reverse.lookup "has_more" = none := by
    rw [lookup_eq_none_iff]
    intro entry hentry
    have hne := hbookmark entry (mem_reverse.mp hentry)
    exact bne_iff_ne.mpr (Ne.symm hne)
  rw [reverse_append, reverse_append, lookup_append, hnone]
  simp

/-- The answer to a PULL, as the client sees it. -/
theorem pull_answers {ctx : StreamContext V} (hctx : s.streamCtx = some ctx)
    (hstate : s.state = .STREAMING ∨ s.state = .TX_STREAMING) {a : BoltAction V D} {n : Int}
    (ha : a.IsPull n) :
    PullAnswers vm n ctx s (exchange vm s a).replies (exchange vm s a).session
      (exchange vm s a).events := by
  have hyields : Yields (fun _ _ => True) (dispatch vm (.pull ⟨n⟩)) s fun r s' es =>
      ∃ replies, r = .ok replies ∧ PullAnswers vm n ctx s replies s' es :=
    handlePull_yields n hctx hstate
  exact exchange_of_yields ha hyields fun _ _ => trivial

/-- What an answer tells the client: more to come and the next rows, the end and all of
them, or neither. -/
theorem BoltSession.PullAnswers.hasMore_eq {n : Int} {ctx : StreamContext V} {replies : List Reply}
    {s' : BoltSession V D} {es : List (BoltEvent V D)} (h : PullAnswers vm n ctx s replies s' es) :
    (hasMore replies = some true ∧ 0 ≤ n ∧ n.toNat ≤ s.unread.length ∧
        recordsOf replies = s.toRecords vm (s.unread.take n.toNat) ∧
        s'.unread = s.unread.drop n.toNat ∧ nexts es + s'.batchCount = s.batchCount ∧
        s.Advances s' ∧ Reads es) ∨
      (hasMore replies = some false ∧ (n < 0 ∨ s.unread.length < n.toNat) ∧
        recordsOf replies = s.toRecords vm s.unread ∧
        ∃ reads after, es = reads ++ s.commitEvents ctx ++ after ∧
          nexts reads = s.batchCount + 1 ∧ Reads reads ∧ Concludes after) ∨
      (hasMore replies = none ∧ Disturbed ctx es) := by
  cases h with
  | page hn henough hleft hnexts hadvances hreads =>
    refine inl ⟨?_, hn, henough, recordsOf_append_success _ _, hleft, hnexts, hadvances, hreads⟩
    simp [hasMore]
  | drained hmore hfailure hnexts hended hbookmark hreads hafter =>
    refine inr (inl ⟨?_, hmore, recordsOf_append_success _ _, _, _, rfl, hnexts, hreads, hafter⟩)
    rw [hasMore, List.getLast?_concat]
    dsimp only
    rw [lookup_reverse_append hbookmark]
  | disturbed hcause => exact inr (inr ⟨rfl, hcause⟩)

/-- PULLs that leave more to come have sent the rows in order, and asked for no commit. -/
theorem pulls_advance {ctx : StreamContext V} (hctx : s.streamCtx = some ctx)
    (hstate : s.state = .STREAMING ∨ s.state = .TX_STREAMING) (pulls : List (BoltAction V D))
    (hpulls : ∀ a ∈ pulls, ∃ n, a.IsPull n)
    (hmore : ∀ x ∈ exchanges vm s pulls, hasMore x.replies = some true) :
    ∃ sent, ((exchanges vm s pulls).flatMap fun x => recordsOf x.replies) = s.toRecords vm sent ∧
      s.unread = sent ++ (sessionAfter vm s pulls).unread ∧
      nexts ((exchanges vm s pulls).flatMap (·.events)) + (sessionAfter vm s pulls).batchCount = s.batchCount ∧
      s.Advances (sessionAfter vm s pulls) ∧
      Reads ((exchanges vm s pulls).flatMap (·.events)) := by
  induction pulls generalizing s ctx with
  | nil => exact ⟨[], rfl, rfl, Nat.zero_add _, .refl s, fun e he => nomatch he⟩
  | cons a rest ih =>
    obtain ⟨n, ha⟩ := hpulls a mem_cons_self
    have hfirst := hmore (exchange vm s a) mem_cons_self
    rcases (pull_answers hctx hstate ha).hasMore_eq with
      ⟨_, _, _, hrecords, hleft, hnexts, hadvances, hreads⟩ | ⟨hend, _⟩ | ⟨hnone, _⟩
    · obtain ⟨batches, hctx'⟩ := hadvances.streamCtx hctx
      have hstate' : (exchange vm s a).session.state = .STREAMING ∨
          (exchange vm s a).session.state = .TX_STREAMING := by
        rw [hadvances.state]
        exact hstate
      obtain ⟨sent, hsent, hunread, hnexts', hadvances', hreads'⟩ := ih hctx' hstate'
        (fun b hb => hpulls b (mem_cons_of_mem a hb))
        (fun x hx => hmore x (mem_cons_of_mem _ hx))
      refine ⟨s.unread.take n.toNat ++ sent, ?_, ?_, ?_, hadvances.trans hadvances', ?_⟩
      · rw [exchanges, flatMap_cons, hrecords, hsent, hadvances.toRecords]
        exact (map_append).symm
      · rw [append_assoc]
        show s.unread = s.unread.take n.toNat ++ (sent ++ (sessionAfter vm (exchange vm s a).session rest).unread)
        rw [← hunread, hleft, take_append_drop]
      · rw [exchanges, flatMap_cons, nexts_append, Nat.add_assoc]
        show nexts (exchange vm s a).events +
          (nexts ((exchanges vm (exchange vm s a).session rest).flatMap (·.events)) +
            (sessionAfter vm (exchange vm s a).session rest).batchCount) = s.batchCount
        rw [hnexts', hnexts]
      · intro e he
        rw [exchanges, flatMap_cons, mem_append] at he
        rcases he with he | he
        · exact hreads e he
        · exact hreads' e he
    · exact absurd (hfirst.symm.trans hend) (by decide)
    · exact absurd (hfirst.symm.trans hnone) (by decide)


/-- Over any batches and any requests: when PULLs have been answered with more to come and
then one with the end, the records sent are the rows of the stream, each once and in order;
the calls made are fetches, up to the end of the generator, then one commit where the
statement commits by itself and none otherwise, then the bookkeeping.  And a PULL that nothing
disturbs is answered, with the end if and only if it asks for more rows than there are. -/
theorem pull_pagination_lossless (vm : ValueMapping V D) {s : BoltSession V D}
    {ctx : StreamContext V} (hctx : s.streamCtx = some ctx)
    (hstate : s.state = .STREAMING ∨ s.state = .TX_STREAMING) :
    (∀ (pulls : List (BoltAction V D)) (last : BoltAction V D), (∀ a ∈ pulls ++ [last], ∃ n, a.IsPull n) →
      (∀ x ∈ exchanges vm s pulls, hasMore x.replies = some true) →
      hasMore (exchange vm (sessionAfter vm s pulls) last).replies = some false →
      ((exchanges vm s (pulls ++ [last])).flatMap fun x => recordsOf x.replies) = s.toRecords vm s.unread ∧
        ∃ reads after, (exchanges vm s (pulls ++ [last])).flatMap (·.events) = reads ++ s.commitEvents ctx ++ after ∧
          nexts reads = s.batchCount + 1 ∧ Reads reads ∧ Concludes after) ∧
    ∀ (a : BoltAction V D) (n : Int), a.IsPull n → ctx.failure = none →
      (∀ e ∈ (exchange vm s a).events, Calm e.1 e.2) →
      hasMore (exchange vm s a).replies = some (decide (0 ≤ n ∧ n.toNat ≤ s.unread.length)) := by
  constructor
  · intro pulls last hpulls hmore hend
    obtain ⟨sent, hsent, hunread, hnexts, hadvances, hreads⟩ := pulls_advance hctx hstate pulls
      (fun a ha => hpulls a (mem_append_left _ ha)) hmore
    obtain ⟨batches, hctx'⟩ := hadvances.streamCtx hctx
    have hstate' : (sessionAfter vm s pulls).state = .STREAMING ∨
        (sessionAfter vm s pulls).state = .TX_STREAMING := by
      rw [hadvances.state]
      exact hstate
    obtain ⟨n, hn⟩ := hpulls last (mem_append_right _ (mem_singleton_self last))
    rcases (pull_answers hctx' hstate' hn).hasMore_eq with
      ⟨htrue, _⟩ | ⟨_, _, hrecords, reads, after, hevents, hnexts', hreads', hafter⟩ |
        ⟨hnone, _⟩
    · exact absurd (hend.symm.trans htrue) (by decide)
    · have hcommits : (sessionAfter vm s pulls).commitEvents { ctx with batches := batches } =
          s.commitEvents ctx := by
        obtain ⟨_, _, _, heq⟩ := hadvances
        rw [heq]
        rfl
      rw [exchanges_concat]
      simp only [flatMap_append, flatMap_cons, flatMap_nil, append_nil]
      refine ⟨?_, (exchanges vm s pulls).flatMap (·.events) ++ reads, after, ?_, ?_, ?_, hafter⟩
      · rw [hsent, hrecords, hadvances.toRecords, hunread]
        exact (map_append).symm
      · rw [hevents, hcommits, ← append_assoc, ← append_assoc]
      · rw [nexts_append]
        omega
      · intro e he
        rcases mem_append.mp he with he | he
        · exact hreads e he
        · exact hreads' e he
    · exact absurd (hend.symm.trans hnone) (by decide)
  · intro a n ha hfailure hcalm
    rcases (pull_answers hctx hstate ha).hasMore_eq with
      ⟨htrue, hn, henough, _⟩ | ⟨hend, hmore, _⟩ | ⟨_, hcause⟩
    · rw [htrue, decide_eq_true ⟨hn, henough⟩]
    · rw [hend, decide_eq_false (by omega)]
    · rcases hcause with hcause | ⟨e, he, hnot⟩
      · exact absurd hfailure hcause
      · exact absurd (hcalm e he) hnot

/-- Three rows in two batches, with an empty batch between them. -/
def threeRows : BoltSession Int Unit :=
  { newConnection.session with
    state := .STREAMING
    streamCtx := some ⟨["n"], [⟨[[1], [2]]⟩, ⟨[]⟩, ⟨[[3]]⟩], none, true, true, false⟩ }

def pullRows (n : Int) : BoltAction Int Unit := frame Tags.PULL [.dict [("n", .int n)]]

/-- One row, then two, which is all there is, then the end. -/
theorem pull_pagination_lossless_threeRows :
    ((exchanges integerMapping threeRows ([pullRows 1, pullRows 2] ++ [pullRows (-1)])).flatMap
        fun x => recordsOf x.replies) = [.record [.int 1], .record [.int 2], .record [.int 3]] := by
  have hpulls : ∀ a ∈ [pullRows 1, pullRows 2] ++ [pullRows (-1)], ∃ n, a.IsPull n := by
    intro a ha
    simp only [cons_append, nil_append, mem_cons, not_mem_nil, or_false] at ha
    rcases ha with rfl | rfl | rfl
    · exact ⟨1, rfl⟩
    · exact ⟨2, rfl⟩
    · exact ⟨-1, rfl⟩
  have hmore : ∀ x ∈ exchanges integerMapping threeRows [pullRows 1, pullRows 2],
      hasMore x.replies = some true := by decide
  exact ((pull_pagination_lossless integerMapping (s := threeRows) rfl (inl rfl)).1
    [pullRows 1, pullRows 2] (pullRows (-1)) hpulls hmore (by decide)).1

end Eugraph.Service
