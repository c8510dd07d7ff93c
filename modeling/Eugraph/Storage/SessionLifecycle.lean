import Eugraph.Storage.GraphSession
import Eugraph.Lib.Transition

/-!
# The life of a `GraphSession`

The whole class `GraphSession`: beside the transaction state machine and the sticky
error it has the closed flag and may lack a `WT_SESSION`.  A run is any sequence of
`begin`, `commit`, `rollback`, `close`, recorded failures and `reset_for_reuse`, with
any WiredTiger return codes.

What the engine does is read off the calls: `begin_transaction` opens a transaction if
it succeeds, `commit_transaction` ends it with any code (WiredTiger rolls back what it
could not commit), and `rollback_transaction` ends it if it succeeds.  A transaction
that could not be rolled back is taken to be open still, as `rollback` and `close` do.
-/

namespace Eugraph

open Lib TxnController Option

/-! ### The engine's side -/

/-- Whether a transaction is open after a call. -/
def TxnCall.openAfter (isOpen : Bool) : TxnCall × WtCode → Bool
  | (.beginTransaction, ret) => isOpen || decide (ret = .ok)
  | (.commitTransaction, _) => false
  | (.rollbackTransaction, ret) => isOpen && decide (ret ≠ .ok)

/-- Whether a transaction is open in the engine after a sequence of calls. -/
def backendOpen (calls : List (TxnCall × WtCode)) : Bool := calls.foldl TxnCall.openAfter false

/-- Where a call belongs: `begin_transaction` outside a transaction, the others inside. -/
def TxnCall.belongs (isOpen : Bool) : TxnCall → Prop
  | .beginTransaction => isOpen = false
  | .commitTransaction | .rollbackTransaction => isOpen = true

/-- Every call was issued where it belongs. -/
def IssuedInOrder (calls : List (TxnCall × WtCode)) : Prop :=
  ∀ before call after, calls = before ++ call :: after → call.1.belongs (backendOpen before)

lemma backendOpen_append (calls : List (TxnCall × WtCode)) (call : TxnCall × WtCode) :
    backendOpen (calls ++ [call]) = TxnCall.openAfter (backendOpen calls) call := by
  simp [backendOpen]

lemma issuedInOrder_nil : IssuedInOrder [] := by
  intro before call after h
  exact absurd h (by simp)

lemma IssuedInOrder.append {calls : List (TxnCall × WtCode)} (h : IssuedInOrder calls)
    {call : TxnCall × WtCode} (hcall : call.1.belongs (backendOpen calls)) :
    IssuedInOrder (calls ++ [call]) := by
  intro before c after heq
  -- The last call is `call` itself or stands among the earlier ones.
  rcases List.eq_nil_or_concat after with rfl | ⟨rest, last, rfl⟩
  · obtain ⟨rfl, hlast⟩ := List.append_inj' heq rfl
    obtain rfl := (List.cons.inj hlast).1
    exact hcall
  · have hsplit : calls ++ [call] = (before ++ c :: rest) ++ [last] := by simpa using heq
    obtain ⟨hcalls, -⟩ := List.append_inj' hsplit rfl
    exact h before c rest hcalls

/-! ### The session object -/

/-- `TxnController::reset`. -/
def TxnController.reset (t : TxnController) : TxnController :=
  if t.state ≠ .Failed then ⟨.None, .None, false⟩ else { t with txnOpen := false }

/-- A transaction begins only where none is open. -/
theorem TxnController.begin_eq_some {t t' : TxnController} {kind : TxnKind}
    (h : t.begin kind = some t') : t.txnOpen = false ∧ t' = ⟨.Active, kind, true⟩ := by
  unfold begin at h
  split at h
  · exact nomatch h
  · rename_i hidle
    exact ⟨by simpa using fun hopen => hidle (.inr (.inr hopen)), (some.inj h).symm⟩

/-- A `GraphSession` with its closed flag; `attached` says whether it has a `WT_SESSION`. -/
structure SessionObject where
  gs : GraphSession
  closed : Bool
  attached : Bool

namespace SessionObject

def fresh (attached : Bool) : SessionObject := ⟨.fresh, false, attached⟩

def poisoned (s : SessionObject) : Prop := s.gs.txn.state = .Failed

instance (s : SessionObject) : Decidable s.poisoned := inferInstanceAs (Decidable (_ = _))

/-- `EINVAL`, returned by no call but recorded where there is no `WT_SESSION`. -/
def EINVAL : WtCode := .other 22

def begin (s : SessionObject) (kind : TxnKind) (ret : WtCode) : Bool × SessionObject :=
  if s.closed ∨ s.poisoned then (false, s)
  else if s.attached then
    ((s.gs.begin kind ret).1, { s with gs := (s.gs.begin kind ret).2 })
  else
    match s.gs.txn.begin kind with
    | none => (false, s)
    | some txn =>
      (false, { s with gs := { s.gs with
        txn := txn.onRollback
        err := StickyError.set none ⟨.Failed, EINVAL, "begin: no WT session", .Unknown⟩ } })

def rollback (s : SessionObject) (ret : WtCode) : SessionObject :=
  if s.attached then { s with gs := s.gs.rollback ret }
  else { s with gs := { s.gs with txn := s.gs.txn.onRollback } }

def commit (s : SessionObject) (ret rollbackRet : WtCode) : TxnOutcome × SessionObject :=
  if s.attached then
    ((s.gs.commit ret rollbackRet).1, { s with gs := (s.gs.commit ret rollbackRet).2 })
  else
    match s.gs.err with
    | some first =>
      (⟨.Failed, first.wtError, "commit refused after earlier failure: " ++ first.message,
        first.effectiveErrorClass⟩, s.rollback rollbackRet)
    | none =>
      let out : TxnOutcome :=
        match s.gs.txn.commitRequest with
        | none => ⟨.Failed, .ok, "commit without active transaction", .None⟩
        | some _ => ⟨.Failed, EINVAL, "commit: no WT session", .Unknown⟩
      (out, { s with gs := { s.gs with
        txn := if s.gs.txn.commitRequest.isSome then s.gs.txn.onCommitResult out else s.gs.txn
        err := s.gs.err.set out } })

def fail (s : SessionObject) (errorClass : TxnErrorClass) (wtError : WtCode) (message : String) :
    SessionObject :=
  { s with gs := s.gs.fail errorClass wtError message }

def close (s : SessionObject) (ret : WtCode) : SessionObject :=
  if s.closed then s
  else if ¬ s.gs.txn.txnOpen then { s with closed := true }
  else if ¬ s.attached then
    { s with closed := true, gs := { s.gs with txn := s.gs.txn.onRollback } }
  else if ret = .ok then
    { s with closed := true, gs := { s.gs with
      txn := s.gs.txn.onRollback
      calls := s.gs.calls ++ [(.rollbackTransaction, ret)] } }
  else
    { s with closed := true, gs :=
      ⟨s.gs.txn.poison, s.gs.err.set ⟨.Failed, ret, "close rollback failed: " ++ describeWtError ret,
        classifyWtError ret⟩, s.gs.calls ++ [(.rollbackTransaction, ret)]⟩ }

def resetForReuse (s : SessionObject) (ret : WtCode) : SessionObject :=
  let s := if s.gs.txn.txnOpen then s.rollback ret else s
  { s with closed := false, gs := { s.gs with txn := s.gs.txn.reset, err := none } }

end SessionObject

/-! ### What one operation does -/

/-- The operations of a session, with the codes that the engine's calls return. -/
inductive SessionOp
  | begin (kind : TxnKind) (ret : WtCode)
  | commit (ret rollbackRet : WtCode)
  | rollback (ret : WtCode)
  | close (ret : WtCode)
  | fail (errorClass : TxnErrorClass) (wtError : WtCode) (message : String)
  | reset (ret : WtCode)

def SessionObject.apply (s : SessionObject) : SessionOp → SessionObject
  | .begin kind ret => (s.begin kind ret).2
  | .commit ret rollbackRet => (s.commit ret rollbackRet).2
  | .rollback ret => s.rollback ret
  | .close ret => s.close ret
  | .fail errorClass wtError message => s.fail errorClass wtError message
  | .reset ret => s.resetForReuse ret

/-- What an operation does to the transaction and to the calls made.  `forgotten` is the
`reset_for_reuse` whose rollback fails; `forgets` says whether the operation is one. -/
inductive TxnMove (forgets : Prop) (gs : GraphSession) : GraphSession → Prop
  | quiet {gs' : GraphSession} (hcalls : gs'.calls = gs.calls)
      (hopen : gs'.txn.txnOpen = gs.txn.txnOpen)
      (hfailed : gs.txn.state = .Failed → gs'.txn.state = .Failed) : TxnMove forgets gs gs'
  | begun {gs' : GraphSession} (ret : WtCode) (hstate : gs.txn.state ≠ .Failed)
      (hidle : gs.txn.txnOpen = false)
      (hcalls : gs'.calls = gs.calls ++ [(.beginTransaction, ret)])
      (hopen : gs'.txn.txnOpen = decide (ret = .ok)) : TxnMove forgets gs gs'
  | committed {gs' : GraphSession} (ret : WtCode) (herr : gs.err = none)
      (hstate : gs.txn.state = .Active) (hactive : gs.txn.txnOpen = true)
      (hcalls : gs'.calls = gs.calls ++ [(.commitTransaction, ret)])
      (hopen : gs'.txn.txnOpen = false) : TxnMove forgets gs gs'
  | rolledBack {gs' : GraphSession} (ret : WtCode) (hactive : gs.txn.txnOpen = true)
      (hcalls : gs'.calls = gs.calls ++ [(.rollbackTransaction, ret)])
      (hopen : gs'.txn.txnOpen = decide (ret ≠ .ok))
      (hfailed : gs.txn.state = .Failed ∨ ret ≠ .ok → gs'.txn.state = .Failed) : TxnMove forgets gs gs'
  | forgotten {gs' : GraphSession} (hforgets : forgets) (ret : WtCode) (hactive : gs.txn.txnOpen = true)
      (hret : ret ≠ .ok)
      (hcalls : gs'.calls = gs.calls ++ [(.rollbackTransaction, ret)])
      (hopen : gs'.txn.txnOpen = false) (hfailed : gs'.txn.state = .Failed) : TxnMove forgets gs gs'

namespace TxnMove

variable {forgets : Prop}

lemma refl (gs : GraphSession) : TxnMove forgets gs gs := .quiet rfl rfl id

lemma onRollback_of_idle {gs : GraphSession} (h : gs.txn.txnOpen = false) :
    TxnMove forgets gs { gs with txn := gs.txn.onRollback } := by
  refine .quiet rfl h.symm fun hfailed => ?_
  simp [onRollback, hfailed]

lemma rollback (gs : GraphSession) (ret : WtCode) : TxnMove forgets gs (gs.rollback ret) := by
  unfold GraphSession.rollback
  split
  · rename_i hopen
    by_cases hret : ret = .ok
    · subst hret
      refine .rolledBack .ok hopen rfl rfl fun hfailed => ?_
      have hstate : gs.txn.state = .Failed := by simpa using hfailed
      simp [onRollback, hstate]
    · simp only [hret, if_false]
      exact .rolledBack ret hopen rfl (by simp [poison, hopen, hret]) fun _ => rfl
  · rename_i hopen
    exact onRollback_of_idle (by simpa using hopen)

lemma begin (gs : GraphSession) (kind : TxnKind) (ret : WtCode) : TxnMove forgets gs (gs.begin kind ret).2 := by
  unfold GraphSession.begin
  split
  · exact refl gs
  · rename_i hstate
    cases htxn : gs.txn.begin kind with
    | none => exact refl gs
    | some txn =>
      obtain ⟨hidle, rfl⟩ := begin_eq_some htxn
      by_cases hret : ret = .ok
      · simp only [hret, if_true]
        exact .begun .ok hstate hidle rfl rfl
      · simp only [hret, if_false]
        refine .begun ret hstate hidle rfl ?_
        split <;> simp [onRollback, poison, hret]

lemma commit (gs : GraphSession) (ret rollbackRet : WtCode) : TxnMove forgets gs (gs.commit ret rollbackRet).2 := by
  cases herr : gs.err with
  | some first =>
    simp only [GraphSession.commit, herr]
    exact rollback gs rollbackRet
  | none =>
    cases hrequest : gs.txn.commitRequest with
    | none =>
      simp only [GraphSession.commit, herr, hrequest]
      exact .quiet rfl rfl id
    | some kind =>
      obtain ⟨hactive, hopen⟩ : gs.txn.state = .Active ∧ gs.txn.txnOpen = true := by
        unfold commitRequest at hrequest
        split at hrequest
        · cases hrequest
        · rename_i h
          simpa [not_or] using h
      simp only [GraphSession.commit, herr, hrequest]
      exact .committed ret herr hactive hopen rfl (by simp [onCommitResult, hopen])

lemma fail (gs : GraphSession) (errorClass : TxnErrorClass) (wtError : WtCode)
    (message : String) : TxnMove forgets gs (gs.fail errorClass wtError message) := by
  refine .quiet rfl ?_ fun hfailed => ?_
  · unfold GraphSession.fail
    simp only
    split <;> rfl
  · unfold GraphSession.fail
    simp only
    split
    · rfl
    · exact hfailed

end TxnMove

namespace SessionObject

/-- A session without a `WT_SESSION` never gets a transaction open. -/
def DetachedIdle (s : SessionObject) : Prop := s.attached = false → s.gs.txn.txnOpen = false

lemma begin_moves (s : SessionObject) (forgets : Prop) (kind : TxnKind) (ret : WtCode) :
    TxnMove forgets s.gs (s.begin kind ret).2.gs := by
  unfold begin
  split
  · exact .refl s.gs
  · split
    · exact .begin s.gs kind ret
    · rename_i hstate _
      cases htxn : s.gs.txn.begin kind with
      | none => exact .refl s.gs
      | some txn =>
        obtain ⟨hopen, rfl⟩ := begin_eq_some htxn
        exact .quiet rfl hopen.symm fun hfailed => absurd (.inr hfailed) hstate

lemma rollback_moves (s : SessionObject) (hidle : s.DetachedIdle) (forgets : Prop)
    (ret : WtCode) : TxnMove forgets s.gs (s.rollback ret).gs := by
  unfold rollback
  split
  · exact .rollback s.gs ret
  · rename_i hattached
    exact .onRollback_of_idle (hidle (by simpa using hattached))

lemma commit_moves (s : SessionObject) (hidle : s.DetachedIdle) (forgets : Prop)
    (ret rollbackRet : WtCode) : TxnMove forgets s.gs (s.commit ret rollbackRet).2.gs := by
  unfold commit
  split
  · exact .commit s.gs ret rollbackRet
  · rename_i hattached
    split
    · exact s.rollback_moves hidle forgets rollbackRet
    · -- Without an open transaction there is no commit request either.
      have hopen := hidle (by simpa using hattached)
      have hrequest : s.gs.txn.commitRequest = none := by
        simp [commitRequest, hopen]
      simp only [hrequest, isSome_none, Bool.false_eq_true, if_false]
      exact .quiet rfl rfl id

lemma close_moves (s : SessionObject) (hidle : s.DetachedIdle) (forgets : Prop) (ret : WtCode) :
    TxnMove forgets s.gs (s.close ret).gs := by
  unfold close
  split
  · exact .refl s.gs
  · split
    · exact .refl s.gs
    · rename_i hopen
      have hopen : s.gs.txn.txnOpen = true := not_not.mp hopen
      split
      · rename_i hattached
        exact absurd (hidle (by simpa using hattached)) (by simp [hopen])
      · split
        · rename_i hret
          subst hret
          refine .rolledBack .ok hopen rfl rfl fun hfailed => ?_
          have hstate : s.gs.txn.state = .Failed := by simpa using hfailed
          simp [onRollback, hstate]
        · rename_i hret
          exact .rolledBack ret hopen rfl (by simp [poison, hopen, hret]) fun _ => rfl

lemma reset_txnOpen (t : TxnController) : t.reset.txnOpen = false := by
  unfold reset
  split <;> rfl

lemma reset_failed {t : TxnController} (h : t.state = .Failed) : t.reset.state = .Failed := by
  simp [reset, h]

lemma resetForReuse_moves (s : SessionObject) (hidle : s.DetachedIdle) (ret : WtCode) :
    TxnMove (ret ≠ .ok) s.gs (s.resetForReuse ret).gs := by
  unfold resetForReuse
  cases hopen : s.gs.txn.txnOpen with
  | false =>
    simp only [Bool.false_eq_true, if_false]
    exact .quiet rfl ((reset_txnOpen _).trans hopen.symm) reset_failed
  | true =>
    have hattached : s.attached = true := by
      by_contra h
      exact absurd (hidle (by simpa using h)) (by simp [hopen])
    simp only [rollback, hattached, GraphSession.rollback, hopen, if_true]
    by_cases hret : ret = .ok
    · subst hret
      refine .rolledBack .ok hopen rfl (reset_txnOpen _) fun hfailed => ?_
      have hstate : s.gs.txn.state = .Failed := by simpa using hfailed
      exact reset_failed (by simp [onRollback, hstate])
    · simp only [hret, if_false]
      exact .forgotten hret ret hopen hret rfl (reset_txnOpen _) (reset_failed rfl)

/-- A reset whose rollback fails drops the flag, and the transaction stays open. -/
theorem resetForReuse_forgets {s : SessionObject} (hidle : s.DetachedIdle) {ret : WtCode}
    (hret : ret ≠ .ok) (hopen : s.gs.txn.txnOpen = true)
    (hagrees : s.gs.txn.txnOpen = backendOpen s.gs.calls) :
    (s.resetForReuse ret).gs.txn.txnOpen = false ∧ backendOpen (s.resetForReuse ret).gs.calls = true := by
  have hattached : s.attached = true := by
    by_contra h
    exact absurd (hidle (by simpa using h)) (by simp [hopen])
  refine ⟨reset_txnOpen _, ?_⟩
  simp only [resetForReuse, rollback, hattached, GraphSession.rollback, hopen, hret, if_true, if_false]
  rw [backendOpen_append, ← hagrees, hopen]
  simp [TxnCall.openAfter, hret]

/-- The operation is a `reset_for_reuse` whose rollback the engine refuses. -/
def Forgets : SessionOp → Prop
  | .reset ret => ret ≠ .ok
  | _ => False

lemma exists_of_forgets {op : SessionOp} (h : Forgets op) : ∃ ret, op = .reset ret ∧ ret ≠ .ok := by
  cases op with
  | reset ret => exact ⟨ret, rfl, h⟩
  | _ => exact h.elim

lemma apply_moves (s : SessionObject) (hidle : s.DetachedIdle) (op : SessionOp) :
    TxnMove (Forgets op) s.gs (s.apply op).gs := by
  cases op with
  | begin kind ret => exact s.begin_moves _ kind ret
  | commit ret rollbackRet => exact s.commit_moves hidle _ ret rollbackRet
  | rollback ret => exact s.rollback_moves hidle _ ret
  | close ret => exact s.close_moves hidle _ ret
  | fail errorClass wtError message => exact .fail s.gs errorClass wtError message
  | reset ret => exact s.resetForReuse_moves hidle ret

end SessionObject

/-! ### Whole runs -/

/-- `txn_open_` says whether the engine has a transaction open; only a failed session may
have lost track of one. -/
def TracksBackend (gs : GraphSession) : Prop :=
  gs.txn.txnOpen = backendOpen gs.calls ∨ gs.txn.state = .Failed ∧ gs.txn.txnOpen = false

namespace TxnMove

variable {forgets : Prop} {gs gs' : GraphSession}

/-- An operation keeps the flag in step with the engine, or it forgets a transaction that
is still open. -/
theorem agrees_or_forgotten (h : TxnMove forgets gs gs') (hagrees : gs.txn.txnOpen = backendOpen gs.calls) :
    gs'.txn.txnOpen = backendOpen gs'.calls ∨
      (forgets ∧ gs.txn.txnOpen = true) ∧ gs'.txn.state = .Failed ∧ gs'.txn.txnOpen = false ∧
        backendOpen gs'.calls = true := by
  cases h with
  | quiet hcalls hopen => exact .inl (by rw [hcalls, hopen, hagrees])
  | begun ret _ hidle hcalls hopen =>
    left
    rw [hcalls, backendOpen_append, ← hagrees, hidle, hopen]
    rfl
  | committed ret _ _ _ hcalls hopen =>
    left
    rw [hcalls, backendOpen_append, hopen]
    rfl
  | rolledBack ret hactive hcalls hopen =>
    left
    rw [hcalls, backendOpen_append, ← hagrees, hactive, hopen]
    rfl
  | forgotten hforgets ret hactive hret hcalls hopen hfailed =>
    refine .inr ⟨⟨hforgets, hactive⟩, hfailed, hopen, ?_⟩
    rw [hcalls, backendOpen_append, ← hagrees, hactive]
    simp [TxnCall.openAfter, hret]

lemma tracks (h : TxnMove forgets gs gs') (htracks : TracksBackend gs) : TracksBackend gs' := by
  rcases htracks with hagrees | ⟨hstate, hidle⟩
  · rcases h.agrees_or_forgotten hagrees with hagrees' | ⟨-, hfailed, hopen, -⟩
    · exact .inl hagrees'
    · exact .inr ⟨hfailed, hopen⟩
  · cases h with
    | quiet _ hopen hfailed => exact .inr ⟨hfailed hstate, hopen.trans hidle⟩
    | begun _ hstate' => exact absurd hstate hstate'
    | committed _ _ _ hactive => simp [hidle] at hactive
    | rolledBack _ hactive => simp [hidle] at hactive
    | forgotten _ _ hactive => simp [hidle] at hactive

/-- An operation issues its call where it belongs. -/
theorem issued (h : TxnMove forgets gs gs') (htracks : TracksBackend gs)
    (hissued : IssuedInOrder gs.calls) : IssuedInOrder gs'.calls := by
  have hopen : gs.txn.txnOpen = true → backendOpen gs.calls = true := by
    rcases htracks with hagrees | ⟨_, hidle⟩
    · exact fun h => hagrees ▸ h
    · exact fun h => absurd h (by simp [hidle])
  cases h with
  | quiet hcalls => rwa [hcalls]
  | begun ret hstate hidle hcalls =>
    have hclosed : backendOpen gs.calls = false := (htracks.resolve_right fun h => hstate h.1) ▸ hidle
    rw [hcalls]
    exact hissued.append hclosed
  | committed ret _ _ hactive hcalls =>
    rw [hcalls]
    exact hissued.append (hopen hactive)
  | rolledBack ret hactive hcalls =>
    rw [hcalls]
    exact hissued.append (hopen hactive)
  | forgotten _ ret hactive _ hcalls =>
    rw [hcalls]
    exact hissued.append (hopen hactive)

/-- A failed session stays failed. -/
theorem failed (h : TxnMove forgets gs gs') (hfailed : gs.txn.state = .Failed) : gs'.txn.state = .Failed := by
  cases h with
  | quiet _ _ hkeeps => exact hkeeps hfailed
  | begun _ hstate => exact absurd hfailed hstate
  | committed _ _ hstate => simp [hfailed] at hstate
  | rolledBack _ _ _ _ hkeeps => exact hkeeps (.inl hfailed)
  | forgotten _ _ _ _ _ _ hstate => exact hstate

end TxnMove

namespace SessionObject

lemma apply_attached (s : SessionObject) (op : SessionOp) : (s.apply op).attached = s.attached := by
  cases op with
  | begin kind ret =>
    simp only [apply, begin]
    split
    · rfl
    · split
      · rfl
      · split <;> rfl
  | commit ret rollbackRet =>
    simp only [apply, commit]
    split
    · rfl
    · split
      · simp only [rollback]
        split <;> rfl
      · rfl
  | rollback ret =>
    simp only [apply, rollback]
    split <;> rfl
  | close ret =>
    simp only [apply, close]
    split
    · rfl
    · split
      · rfl
      · split
        · rfl
        · split <;> rfl
  | fail errorClass wtError message => rfl
  | reset ret =>
    simp only [apply, resetForReuse, rollback]
    split
    · split <;> rfl
    · rfl

/-- Without a `WT_SESSION` nothing is called. -/
theorem apply_calls_of_detached {s : SessionObject} (hattached : s.attached = false)
    (op : SessionOp) : (s.apply op).gs.calls = s.gs.calls := by
  cases op with
  | begin kind ret =>
    simp only [apply, begin, hattached]
    split
    · rfl
    · cases s.gs.txn.begin kind <;> rfl
  | commit ret rollbackRet =>
    simp only [apply, commit, rollback, hattached]
    cases s.gs.err <;> rfl
  | rollback ret => simp [apply, rollback, hattached]
  | close ret =>
    simp only [apply, close, hattached]
    split
    · rfl
    · split <;> rfl
  | fail errorClass wtError message => rfl
  | reset ret =>
    simp only [apply, resetForReuse, rollback, hattached]
    split <;> rfl

lemma DetachedIdle.apply {s : SessionObject} (h : s.DetachedIdle) (op : SessionOp) : (s.apply op).DetachedIdle := by
  intro hattached
  rw [apply_attached] at hattached
  have hcalls := apply_calls_of_detached hattached op
  cases s.apply_moves h op with
  | quiet _ hopen => exact hopen.trans (h hattached)
  | begun _ _ _ hcalls' => simp [hcalls'] at hcalls
  | committed _ _ _ _ hcalls' => simp [hcalls'] at hcalls
  | rolledBack _ _ hcalls' => simp [hcalls'] at hcalls
  | forgotten _ _ _ _ hcalls' => simp [hcalls'] at hcalls

end SessionObject

/-- A session and whether a failure was recorded since its transaction began. -/
structure SessionRun where
  session : SessionObject
  failureRecorded : Bool

namespace SessionRun

def initial (attached : Bool) : SessionRun := ⟨.fresh attached, false⟩

/-- A recorded failure is forgotten when a new transaction has begun, and by a reset. -/
def recordedAfter (r : SessionRun) : SessionOp → Bool
  | .fail .. => true
  | .begin kind ret => r.failureRecorded && !(r.session.begin kind ret).1
  | .reset _ => false
  | _ => r.failureRecorded

def next (r : SessionRun) (op : SessionOp) : SessionRun :=
  ⟨r.session.apply op, r.recordedAfter op⟩

def step (r : SessionRun) (op : SessionOp) : Option SessionRun := some (r.next op)

/-- A reset of a session whose transaction is open finds the engine able to roll it back. -/
def ResetGuard (r : SessionRun) (op : SessionOp) : Prop :=
  SessionObject.Forgets op → r.session.gs.txn.txnOpen = false

end SessionRun

/-- The commits among the calls. -/
def commitCalls (calls : List (TxnCall × WtCode)) : List (TxnCall × WtCode) :=
  calls.filter fun c => c.1 = .commitTransaction

namespace GraphSession

lemma set_isSome {err : StickyError} (h : err.isSome = true) (out : TxnOutcome) : (err.set out).isSome = true := by
  cases err with
  | none => exact nomatch h
  | some first => rfl

lemma set_failed_isSome (err : StickyError) {out : TxnOutcome} (h : out.failed = true) :
    (err.set out).isSome = true := by
  cases err with
  | none => simp [StickyError.set, h]
  | some first => rfl

lemma rollback_err {gs : GraphSession} (h : gs.err.isSome = true) (ret : WtCode) :
    (gs.rollback ret).err.isSome = true := by
  unfold rollback
  split
  · split
    · exact h
    · exact set_isSome h _
  · exact h

end GraphSession

namespace SessionObject

variable {s : SessionObject}

lemma rollback_err (h : s.gs.err.isSome = true) (ret : WtCode) : (s.rollback ret).gs.err.isSome = true := by
  unfold rollback
  split
  · exact GraphSession.rollback_err h ret
  · exact h

/-- A `begin` that fails keeps an earlier error or records its own. -/
theorem begin_err (h : s.gs.err.isSome = true) (kind : TxnKind) (ret : WtCode)
    (hfails : (s.begin kind ret).1 = false) : (s.begin kind ret).2.gs.err.isSome = true := by
  unfold begin at hfails ⊢
  split at hfails
  · rename_i hclosed
    rw [if_pos hclosed]
    exact h
  · rename_i hclosed
    rw [if_neg hclosed]
    split at hfails
    · rename_i hattached
      rw [if_pos hattached]
      simp only [GraphSession.begin] at hfails ⊢
      split
      · exact h
      · rename_i hstate
        rw [if_neg hstate] at hfails
        cases htxn : s.gs.txn.begin kind with
        | none => exact h
        | some txn =>
          simp only [htxn] at hfails
          by_cases hret : ret = .ok
          · simp [hret] at hfails
          · simp [hret]
    · rename_i hattached
      rw [if_neg hattached]
      cases s.gs.txn.begin kind with
      | none => exact h
      | some txn => rfl

lemma commit_err (h : s.gs.err.isSome = true) (ret rollbackRet : WtCode) :
    (s.commit ret rollbackRet).2.gs.err.isSome = true := by
  obtain ⟨first, hfirst⟩ := isSome_iff_exists.mp h
  unfold commit
  split
  · simp only [GraphSession.commit, hfirst]
    exact GraphSession.rollback_err h rollbackRet
  · simp only [hfirst]
    exact rollback_err h rollbackRet

lemma close_err (h : s.gs.err.isSome = true) (ret : WtCode) : (s.close ret).gs.err.isSome = true := by
  unfold close
  split
  · exact h
  · split
    · exact h
    · split
      · exact h
      · split
        · exact h
        · exact GraphSession.set_isSome h _

lemma commitCalls_rollback (gs : GraphSession) (ret : WtCode) :
    commitCalls (gs.rollback ret).calls = commitCalls gs.calls := by
  unfold GraphSession.rollback
  split
  · split <;> simp [commitCalls]
  · rfl

/-- With an error recorded, `commit` rolls back and does not commit. -/
theorem commit_refused (h : s.gs.err.isSome = true) (ret rollbackRet : WtCode) :
    commitCalls (s.commit ret rollbackRet).2.gs.calls = commitCalls s.gs.calls := by
  obtain ⟨first, hfirst⟩ := isSome_iff_exists.mp h
  unfold commit
  split
  · simp only [GraphSession.commit, hfirst]
    exact commitCalls_rollback s.gs rollbackRet
  · simp only [hfirst, rollback]
    split
    · exact commitCalls_rollback s.gs rollbackRet
    · rfl

end SessionObject

namespace SessionRun

/-- What holds in every run, whatever the engine returns. -/
structure Inv (r : SessionRun) : Prop where
  detached : r.session.DetachedIdle
  tracks : TracksBackend r.session.gs
  issued : IssuedInOrder r.session.gs.calls
  recorded : r.failureRecorded = true → r.session.gs.err.isSome = true

lemma inv_initial (attached : Bool) : (initial attached).Inv :=
  ⟨fun _ => rfl, .inl rfl, issuedInOrder_nil, fun h => nomatch h⟩

lemma recorded_apply {r : SessionRun} (h : r.failureRecorded = true → r.session.gs.err.isSome = true)
    (op : SessionOp) (hrecorded : r.recordedAfter op = true) :
    (r.session.apply op).gs.err.isSome = true := by
  cases op with
  | begin kind ret =>
    obtain ⟨hbefore, hfails⟩ : r.failureRecorded = true ∧ (r.session.begin kind ret).1 = false := by
      simpa [recordedAfter] using hrecorded
    exact SessionObject.begin_err (h hbefore) kind ret hfails
  | commit ret rollbackRet => exact SessionObject.commit_err (h hrecorded) ret rollbackRet
  | rollback ret => exact SessionObject.rollback_err (h hrecorded) ret
  | close ret => exact SessionObject.close_err (h hrecorded) ret
  | fail errorClass wtError message => exact GraphSession.set_failed_isSome _ rfl
  | reset ret => exact nomatch hrecorded

lemma Inv.step {r r' : SessionRun} (h : r.Inv) {op : SessionOp} (hstep : r.step op = some r') : r'.Inv := by
  obtain rfl := some.inj hstep
  have hmove := r.session.apply_moves h.detached op
  exact ⟨h.detached.apply op, hmove.tracks h.tracks, hmove.issued h.tracks h.issued, recorded_apply h.recorded op⟩

lemma inv_of_reaches {guard : SessionRun → SessionOp → Prop} {attached : Bool} {r : SessionRun}
    (h : Reaches step guard (initial attached) r) : r.Inv :=
  h.invariant Inv (inv_initial attached) fun _ _ _ hinv _ hstep => hinv.step hstep

/-- The flag after one operation agrees with the engine exactly if the operation is not a
reset that forgets an open transaction. -/
theorem agrees_apply_iff {r : SessionRun} (hinv : r.Inv)
    (hagrees : r.session.gs.txn.txnOpen = backendOpen r.session.gs.calls) (op : SessionOp) :
    (r.session.apply op).gs.txn.txnOpen = backendOpen (r.session.apply op).gs.calls ↔ r.ResetGuard op := by
  constructor
  · intro hagrees' hforgets
    by_contra hopen
    have hopen : r.session.gs.txn.txnOpen = true := by simpa using hopen
    obtain ⟨ret, rfl, hret⟩ := SessionObject.exists_of_forgets hforgets
    obtain ⟨hclosed, hbackend⟩ := SessionObject.resetForReuse_forgets hinv.detached hret hopen hagrees
    have hcontra : (false : Bool) = true := hclosed.symm.trans (hagrees'.trans hbackend)
    exact nomatch hcontra
  · intro hguard
    have hmove := r.session.apply_moves hinv.detached op
    rcases hmove.agrees_or_forgotten hagrees with hagrees' | ⟨⟨hforgets, hopen⟩, -⟩
    · exact hagrees'
    · rw [hguard hforgets] at hopen
      exact nomatch hopen

/-- In every run whose resets meet the guard: every call is issued where it belongs, the
flag says whether the engine has a transaction open, `commit` after a recorded failure
issues no `commit_transaction`, and a failed session stays failed.  The flag goes out of
step at exactly the operations that do not meet the guard. -/
theorem sessionTransactions_follow_backend (attached : Bool) (r : SessionRun)
    (h : Reaches step ResetGuard (initial attached) r) :
    IssuedInOrder r.session.gs.calls ∧
    r.session.gs.txn.txnOpen = backendOpen r.session.gs.calls ∧
    (r.failureRecorded = true → ∀ ret rollbackRet, commitCalls (r.session.commit ret rollbackRet).2.gs.calls =
        commitCalls r.session.gs.calls) ∧
    (r.session.poisoned → ∀ r', Reaches step ResetGuard r r' → r'.session.poisoned) ∧
    ∀ op, (r.session.apply op).gs.txn.txnOpen = backendOpen (r.session.apply op).gs.calls ↔ r.ResetGuard op := by
  have hinv := inv_of_reaches h
  have hagrees : r.session.gs.txn.txnOpen = backendOpen r.session.gs.calls := by
    have hboth : r.Inv ∧ r.session.gs.txn.txnOpen = backendOpen r.session.gs.calls := by
      apply h.invariant fun r => r.Inv ∧ r.session.gs.txn.txnOpen = backendOpen r.session.gs.calls
      · exact ⟨inv_initial attached, rfl⟩
      · rintro r op r' ⟨hinv, hagrees⟩ hguard hstep
        obtain rfl := some.inj hstep
        exact ⟨hinv.step rfl, (agrees_apply_iff hinv hagrees op).mpr hguard⟩
    exact hboth.2
  refine ⟨hinv.issued, hagrees, fun hrecorded ret rollbackRet => ?_, fun hfailed r' hlater => ?_,
    agrees_apply_iff hinv hagrees⟩
  · exact SessionObject.commit_refused (hinv.recorded hrecorded) ret rollbackRet
  · have hboth : r'.Inv ∧ r'.session.poisoned := by
      apply hlater.invariant fun r => r.Inv ∧ r.session.poisoned
      · exact ⟨hinv, hfailed⟩
      · rintro r op r' ⟨hinv, hfailed⟩ - hstep
        obtain rfl := some.inj hstep
        exact ⟨hinv.step rfl, (r.session.apply_moves hinv.detached op).failed hfailed⟩
    exact hboth.2

/-- A write that fails with `EBUSY` inside a transaction. -/
def failedWrite : SessionRun :=
  [SessionOp.begin .Write .ok, .fail .Busy .busy "table_put failed on table:vertex_data"].foldl next
    (initial true)

theorem sessionTransactions_failedWrite :
    failedWrite.failureRecorded = true ∧ failedWrite.session.gs.txn.txnOpen = true ∧
      IssuedInOrder failedWrite.session.gs.calls ∧
      failedWrite.session.gs.txn.txnOpen = backendOpen failedWrite.session.gs.calls ∧
      commitCalls (failedWrite.session.commit .ok .ok).2.gs.calls = commitCalls failedWrite.session.gs.calls := by
  have hguard : ∀ (r : SessionRun) kind, r.ResetGuard (.begin kind .ok) := fun r kind h => False.elim h
  have hguard' : ∀ (r : SessionRun) message, r.ResetGuard (.fail .Busy .busy message) :=
    fun r message h => False.elim h
  have hreaches : Reaches step ResetGuard (initial true) failedWrite :=
    (Reaches.start.next (hguard _ .Write) rfl).next (hguard' _ _) rfl
  obtain ⟨hissued, hagrees, hcommit, -, -⟩ := sessionTransactions_follow_backend true _ hreaches
  exact ⟨rfl, rfl, hissued, hagrees, hcommit rfl .ok .ok⟩

/-- A transaction is begun, and the rollback of the reset fails: the flag is down while the
transaction is open. -/
theorem reset_forgets_open_transaction :
    ¬ ∀ r, Reaches step (fun _ _ => True) (initial true) r → IssuedInOrder r.session.gs.calls ∧
      r.session.gs.txn.txnOpen = backendOpen r.session.gs.calls ∧
      (r.failureRecorded = true → ∀ ret rollbackRet, commitCalls (r.session.commit ret rollbackRet).2.gs.calls =
          commitCalls r.session.gs.calls) ∧
      (r.session.poisoned → ∀ r', Reaches step (fun _ _ => True) r r' → r'.session.poisoned) := by
  intro h
  have hreaches : Reaches step (fun _ _ => True) (initial true)
      ([SessionOp.begin .Write .ok, .reset .busy].foldl next (initial true)) :=
    (Reaches.start.next trivial rfl).next trivial rfl
  exact absurd (h _ hreaches).2.1 (by decide)

end SessionRun

end Eugraph
